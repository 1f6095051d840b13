import PageCompiler.Proofs.ClassText.ProgramSteps

-- A handler that recovers pops as many bodies as its cell tells of. The bodies that other handlers
-- push in its region are counted there; those that are pushed for the value of an attribute are
-- not, and stay behind when the value fails.
namespace PageCompiler

namespace ClassText

-- How the statements of a method end. What a method throws may be a skipped page.
inductive Exit where
  | falls
  | leaves
  | throws
  deriving DecidableEq, Repr

def Leave.exit : Leave → Exit
  | throws => .throws
  | _ => .leaves

structure Memory where
  -- The bodies that have been pushed and not popped.
  bodies : Nat
  -- What the cell of the innermost region tells.
  count : Nat
  -- The bodies among them that no cell tells of.
  untold : Nat
  deriving DecidableEq, Repr

namespace Memory

def push (m : Memory) : Memory := { m with bodies := m.bodies + 1, count := m.count + 1 }

def pop (m : Memory) : Memory := { m with bodies := m.bodies - 1, count := m.count - 1 }

-- The body of an attribute.
def pushValue (m : Memory) : Memory := { m with bodies := m.bodies + 1, untold := m.untold + 1 }

def popValue (m : Memory) : Memory := { m with bodies := m.bodies - 1, untold := m.untold - 1 }

-- At the start of a region.
def enter (m : Memory) : Memory := { m with count := 0 }

-- Behind the end of a region, by what was in front of it.
def leaveRegion (m outer : Memory) : Memory := { m with count := outer.count }

-- Where a region is left with the method, and nothing recovers.
def abandon (m outer : Memory) : Memory :=
  { m with count := outer.count, untold := m.untold + m.count }

-- A handler pops the bodies that its cell tells of.
def recover (m outer : Memory) : Memory :=
  { m with bodies := m.bodies - m.count, count := outer.count }

end Memory

-- What else of a class may run: the methods that were split off, by their names, and the deferred
-- bodies.
structure Parts (x : Context) where
  method : String → Program x .returnsTrue Names.pushCount → Prop
  deferred : Program x .throws Names.pushCount → Prop

-- A program runs from one memory to another. Whatever is not about bodies and cells may fail at any
-- line, and blocks may be skipped. Pushing, counting and popping do not fail, and neither does what
-- is done at the end when a method is being left.
inductive Program.Runs {x : Context} (parts : Parts x) :
    {e : Leave} → {cell : String} → Program x e cell → Memory → Exit → Memory → Prop
  | skip {e : Leave} {cell : String} {m : Memory} :
      Runs parts (skip : Program x e cell) m .falls m
  | seq {e : Leave} {cell : String} {p q : Program x e cell} {m m₁ m₂ : Memory} {exit : Exit}
      (h : Runs parts p m .falls m₁) (h' : Runs parts q m₁ exit m₂) :
      Runs parts (seq p q) m exit m₂
  | stop {e : Leave} {cell : String} {p q : Program x e cell} {m m₁ : Memory} {exit : Exit}
      (h : Runs parts p m exit m₁) (hexit : exit ≠ .falls) : Runs parts (seq p q) m exit m₁
  | line {e : Leave} {cell : String} {l : Line} {hl : l.isCalm cell = true} {m : Memory} :
      Runs parts (line l hl : Program x e cell) m .falls m
  | fail {e : Leave} {cell : String} {l : Line} {hl : l.isCalm cell = true} {m : Memory} :
      Runs parts (line l hl : Program x e cell) m .throws m
  -- A handler runs deferred bodies in the region in which it was given them, and lets through what
  -- they throw.
  | invoke {e : Leave} {cell : String} {l : Line} {hl : l.isCalm cell = true} {m m₁ m₂ : Memory}
      {exit : Exit} {q : Program x .throws Names.pushCount} (hq : parts.deferred q)
      (h : Runs parts q m .falls m₁) (h' : Runs parts (line l hl : Program x e cell) m₁ exit m₂) :
      Runs parts (line l hl : Program x e cell) m exit m₂
  | failInvoke {e : Leave} {cell : String} {l : Line} {hl : l.isCalm cell = true} {m m₁ : Memory}
      {q : Program x .throws Names.pushCount} (hq : parts.deferred q)
      (h : Runs parts q m .throws m₁) : Runs parts (line l hl : Program x e cell) m .throws m₁
  | leave {e : Leave} {cell : String} {m : Memory} :
      Runs parts (leave : Program x e cell) m e.exit m
  | declare {e : Leave} {cell : String} {typeName name : String} {hname : IsVariable x name}
      {m : Memory} : Runs parts (declare typeName hname : Program x e cell) m .falls m
  | block {e : Leave} {cell head : String} {p : Program x e cell} {m m₁ : Memory} {exit : Exit}
      (h : Runs parts p m exit m₁) : Runs parts (block head p) m exit m₁
  | skipBlock {e : Leave} {cell head : String} {p : Program x e cell} {m : Memory} :
      Runs parts (block head p) m .falls m
  | failBlock {e : Leave} {cell head : String} {p : Program x e cell} {m : Memory} :
      Runs parts (block head p) m .throws m
  | ensured {e : Leave} {cell tail : String} {p : Program x e cell} {m m₁ : Memory} {exit : Exit}
      (h : Runs parts p m exit m₁) : Runs parts (ensured p tail) m exit m₁
  | failEnd {e : Leave} {cell tail : String} {p : Program x e cell} {m m₁ : Memory} {exit : Exit}
      (h : Runs parts p m exit m₁) (hexit : exit ≠ .leaves) :
      Runs parts (ensured p tail) m .throws m₁
  -- Behind a region, its handler finishes, which may fail.
  | region {e : Leave} {cell handler : String} {p : Program x e (regionCell handler)}
      {m m₁ : Memory} {exit : Exit} (h : Runs parts p m.enter .falls m₁) (hexit : exit ≠ .leaves) :
      Runs parts (region handler p : Program x e cell) m exit (m₁.leaveRegion m)
  | leaveRegion {e : Leave} {cell handler : String} {p : Program x e (regionCell handler)}
      {m m₁ : Memory} (h : Runs parts p m.enter .leaves m₁) :
      Runs parts (region handler p : Program x e cell) m .leaves (m₁.abandon m)
  -- A handler that has recovered keeps the failure to itself or passes it on.
  | recover {e : Leave} {cell handler : String} {p : Program x e (regionCell handler)}
      {m m₁ : Memory} {exit : Exit} (h : Runs parts p m.enter .throws m₁) (hexit : exit ≠ .leaves) :
      Runs parts (region handler p : Program x e cell) m exit (m₁.recover m)
  -- A handler takes its body in place, or it has it pushed.
  | inPlace {e : Leave} {cell handler : String} {p : Program x e cell} {m m₁ : Memory} {exit : Exit}
      (h : Runs parts p m exit m₁) : Runs parts (buffered handler p) m exit m₁
  | buffered {e : Leave} {cell handler : String} {p : Program x e cell} {m m₁ : Memory}
      (h : Runs parts p m.push .falls m₁) : Runs parts (buffered handler p) m .falls m₁.pop
  | failStart {e : Leave} {cell handler : String} {p : Program x e cell} {m : Memory} :
      Runs parts (buffered handler p) m .throws m.push
  | stopBuffered {e : Leave} {cell handler : String} {p : Program x e cell} {m m₁ : Memory}
      {exit : Exit} (h : Runs parts p m.push exit m₁) (hexit : exit ≠ .falls) :
      Runs parts (buffered handler p) m exit m₁
  | once {e : Leave} {cell handler : String} {p : Program x e cell} {m m₁ : Memory} {exit : Exit}
      (h : Runs parts p m exit m₁) : Runs parts (repeated handler p) m exit m₁
  | again {e : Leave} {cell handler : String} {p : Program x e cell} {m m₁ m₂ : Memory} {exit : Exit}
      (h : Runs parts p m .falls m₁) (h' : Runs parts (repeated handler p) m₁ exit m₂) :
      Runs parts (repeated handler p) m exit m₂
  | value {e : Leave} {cell name : String} {trim : Bool} {hvalue : HasValues x}
      {p : Program x e cell} {m m₁ : Memory} (h : Runs parts p m.pushValue .falls m₁) :
      Runs parts (value hvalue p name trim) m .falls m₁.popValue
  | failValue {e : Leave} {cell name : String} {trim : Bool} {hvalue : HasValues x}
      {p : Program x e cell} {m m₁ : Memory} (h : Runs parts p m.pushValue .falls m₁) :
      Runs parts (value hvalue p name trim) m .throws m₁
  | stopValue {e : Leave} {cell name : String} {trim : Bool} {hvalue : HasValues x}
      {p : Program x e cell} {m m₁ : Memory} {exit : Exit}
      (h : Runs parts p m.pushValue exit m₁) (hexit : exit ≠ .falls) :
      Runs parts (value hvalue p name trim) m exit m₁
  | action {e : Leave} {cell : String} {k : Saving x} {p : Program x e cell} {m m₁ : Memory}
      {exit : Exit} (h : Runs parts p m exit m₁) : Runs parts (action k p) m exit m₁
  | call {e : Leave} {cell name parent : String} {q : Program x .returnsTrue Names.pushCount}
      {m m₁ : Memory} {exit : Exit} (hq : parts.method name q) (h : Runs parts q m exit m₁)
      (hexit : exit ≠ .leaves) : Runs parts (call name parent : Program x e cell) m exit m₁
  | failCall {e : Leave} {cell name parent : String} {m : Memory} :
      Runs parts (call name parent : Program x e cell) m .throws m
  | leaveCall {e : Leave} {cell name parent : String} {q : Program x .returnsTrue Names.pushCount}
      {m m₁ : Memory} (hq : parts.method name q) (h : Runs parts q m .leaves m₁) :
      Runs parts (call name parent : Program x e cell) m e.exit m₁

-- What has been pushed and not popped has been counted, or no cell tells of it. At the end a cell
-- tells what it told at the start.
structure Accounts (m : Memory) (exit : Exit) (m' : Memory) : Prop where
  balance : m'.bodies + m.count + m.untold = m.bodies + m'.count + m'.untold
  count_le : m.count ≤ m'.count
  untold_le : m.untold ≤ m'.untold
  count_eq : exit = .falls → m'.count = m.count

namespace Accounts

variable {m m₁ m₂ : Memory} {exit exit' : Exit}

theorem refl (m : Memory) (exit : Exit) : Accounts m exit m :=
  ⟨rfl, Nat.le_refl _, Nat.le_refl _, fun _ => rfl⟩

theorem trans (h : Accounts m .falls m₁) (h' : Accounts m₁ exit m₂) : Accounts m exit m₂ := by
  have hcount := h.count_eq rfl
  have hbalance := h.balance
  have hbalance' := h'.balance
  exact ⟨by omega, h.count_le.trans h'.count_le, h.untold_le.trans h'.untold_le,
    fun hexit => (h'.count_eq hexit).trans hcount⟩

-- It may end otherwise where it has got to.
theorem stop (h : Accounts m exit m₁) (hexit : exit' = .falls → exit = .falls) :
    Accounts m exit' m₁ :=
  ⟨h.balance, h.count_le, h.untold_le, fun h' => h.count_eq (hexit h')⟩

theorem pushed (h : Accounts m.push exit m₁) (hexit : exit ≠ .falls) : Accounts m exit m₁ := by
  obtain ⟨hbalance, hcount, huntold, -⟩ := h
  dsimp only [Memory.push] at hbalance hcount huntold
  exact ⟨by omega, by omega, huntold, fun h => absurd h hexit⟩

theorem left (h : Accounts m.enter .falls m₁) : Accounts m .falls (m₁.leaveRegion m) := by
  obtain ⟨hbalance, -, huntold, hsame⟩ := h
  have hsame := hsame rfl
  dsimp only [Memory.enter] at hbalance huntold hsame
  refine ⟨?_, Nat.le_refl _, huntold, fun _ => rfl⟩
  dsimp only [Memory.leaveRegion]
  omega

end Accounts

namespace Program

variable {x : Context} {e : Leave}

-- The methods that a program calls.
def calls : {cell : String} → Program x e cell → List String
  | _, skip | _, line .. | _, leave | _, declare .. => []
  | _, seq p q => p.calls ++ q.calls
  | _, block _ p | _, ensured p _ | _, region _ p | _, buffered _ p | _, repeated _ p
  | _, value _ p _ _ | _, action _ p => p.calls
  | _, call method _ => [method]

variable {parts : Parts x} {cell : String} {p : Program x e cell} {m m' : Memory} {exit : Exit}

end Program

-- What can be called in a class.
def State.parts (s : State) (x : Context) : Parts x where
  method name p := ∃ code ∈ s.methods, Code.lines code = splitLines name p.lines
  deferred p := ∃ code ∈ s.deferred, (code.getD []).lines = p.lines

end ClassText

open ClassText

end PageCompiler
