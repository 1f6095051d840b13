-- A handler comes back to its pool only when its last use left it in a consistent state, and while
-- the pool has room.
namespace PageCompiler

structure HandlerPool (α : Type) where
  -- How many idle handlers are kept at most.
  capacity : Nat := 5
  -- The handlers at rest; the one that came back last is in front.
  idle : List α := []
  deriving DecidableEq, Repr, Inhabited

namespace HandlerPool

variable {α : Type}

-- Takes the handler that came back last, when there is one.
def take? (p : HandlerPool α) : Option (α × HandlerPool α) :=
  match p.idle with
  | [] => none
  | h :: rest => some (h, { p with idle := rest })

-- An idle handler, or else the new one.
def acquire (p : HandlerPool α) (new : Unit → α) : α × HandlerPool α :=
  (p.take?).getD (new (), p)

-- Whether a handler that comes back in this state is kept.
def accepts (p : HandlerPool α) (consistent : Bool) : Bool :=
  consistent && p.idle.length < p.capacity

def release (p : HandlerPool α) (handler : α) (consistent : Bool) : HandlerPool α :=
  if p.accepts consistent then { p with idle := handler :: p.idle } else p

def clear (p : HandlerPool α) : HandlerPool α := { p with idle := [] }

theorem idle_acquire (p : HandlerPool α) (new : Unit → α) :
    (p.acquire new).2.idle = p.idle.tail := by
  unfold acquire take?
  cases h : p.idle <;> simp [h]

theorem idle_release (p : HandlerPool α) (handler : α) (consistent : Bool) :
    (p.release handler consistent).idle =
      if p.accepts consistent then handler :: p.idle else p.idle := by
  unfold release
  split <;> rfl

@[simp] theorem idle_clear (p : HandlerPool α) : p.clear.idle = [] := rfl

end HandlerPool

-- Pools by key, all of one capacity.
structure HandlerPools (α : Type) where
  capacity : Nat := 5
  pools : List (String × HandlerPool α) := []
  deriving Repr, Inhabited

namespace HandlerPools

variable {α : Type}

-- The pool of a key; an empty one as long as the key has not been used.
def pool (ps : HandlerPools α) (key : String) : HandlerPool α :=
  (ps.pools.lookup key).getD { capacity := ps.capacity }

-- Puts a pool under a key, in the place of the one that is there.
def insert (ps : HandlerPools α) (key : String) (p : HandlerPool α) : HandlerPools α :=
  if ps.pools.any fun entry => entry.1 == key then
    { ps with pools := ps.pools.map fun entry => if entry.1 == key then (key, p) else entry }
  else { ps with pools := ps.pools ++ [(key, p)] }

-- Makes sure that a key has a pool.
def use (ps : HandlerPools α) (key : String) : HandlerPools α := ps.insert key (ps.pool key)

def size (ps : HandlerPools α) : Nat := ps.pools.length

def isEmpty (ps : HandlerPools α) : Bool := ps.pools.isEmpty

-- Drops every idle handler; the pools stay.
def clear (ps : HandlerPools α) : HandlerPools α :=
  { ps with pools := ps.pools.map fun entry => (entry.1, entry.2.clear) }

end HandlerPools
end PageCompiler
