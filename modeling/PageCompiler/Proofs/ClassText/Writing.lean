import PageCompiler.Proofs.ClassText.Bodies
import Mathlib.Algebra.BigOperators.Group.List.Basic
import Mathlib.Algebra.Order.Group.Multiset
import Mathlib.Data.List.Forall2

-- A run leads from one state to another, writes lines and leaves values that lines to come make use
-- of; what it can do on the way is said once and for all kinds of nodes.
namespace PageCompiler.ClassText

-- The values a statement uses.
def Statement.operands : Statement → List Operand
  | write value | writeEscaped value | hold _ value | set _ _ value | setDynamic _ _ value
  | setBody _ value | instantiate _ _ value | setProperty _ _ value => [value]
  | includePage page params _ | forwardPage page params => page :: params
  | startPlugin kind className base extra params => [kind, className, base] ++ extra ++ params
  | _ => []

-- The source of an expression and the field with the functions it calls.
def Operand.evaluation? : Operand → Option (String × Option Nat)
  | evaluate source _ functions | valueExpression source _ functions
  | methodExpression source _ _ functions => some (source, functions)
  | _ => none

-- The pool a statement gets its handler from or gives it back to.
def Statement.pool? : Statement → Option String
  | acquire _ _ pool => pool
  | reuse pool _ => some pool
  | _ => none

-- Nothing but its values ties such a statement to the rest of the class: it is about no variable of
-- the page and no pool, gets no handler, leaves no method and declares no field.
def Statement.isPlain : Statement → Bool
  | code _ | write _ | writeEscaped _ | print _ | hold .. | pushBody | popBody | countUp _
  | countDown _ | capture .. | set .. | setDynamic .. | setBody .. | instantiate .. | setProperty ..
  | includePage .. | forwardPage .. | startPlugin .. => true
  | _ => false

namespace State

def isDeclared (s : State) (name : String) : Bool := s.declared.any fun block => block.contains name

-- With a name declared in the innermost block.
def declare (s : State) (name : String) : State :=
  { s with
    declared :=
      match s.declared with
      | block :: rest => (name :: block) :: rest
      | [] => [] }

-- With a further block, and without the innermost one.
def push (s : State) : State := { s with declared := [] :: s.declared }

def pop (s : State) : State := { s with declared := s.declared.tail }

def addPool (s : State) (pool : String) : State :=
  { s with pools := if s.pools.contains pool then s.pools else s.pools ++ [pool] }

theorem pools_subset_addPool (s : State) (pool : String) : s.pools ⊆ (s.addPool pool).pools := by
  unfold addPool
  dsimp only
  split
  · exact fun _ h => h
  · exact List.subset_append_left _ _

theorem mem_pools_addPool (s : State) (pool : String) : pool ∈ (s.addPool pool).pools := by
  unfold addPool
  dsimp only
  split
  · rename_i h
    simpa using h
  · simp

theorem nodup_pools_addPool {s : State} (h : s.pools.Nodup) (pool : String) :
    (s.addPool pool).pools.Nodup := by
  unfold addPool
  dsimp only
  split
  · exact h
  · rename_i hnew
    rw [List.nodup_append]
    refine ⟨h, by simp, fun a ha b hb hab => hnew ?_⟩
    rw [List.mem_singleton] at hb
    simpa [← hb, ← hab] using ha

theorem tail_declare (s : State) (name : String) : (s.declare name).declared.tail = s.declared.tail := by
  unfold declare
  cases s.declared <;> rfl

end State

-- Where a run is: its state, and the values that are waiting for their lines.
structure Point where
  state : State
  pending : Multiset Operand

-- An expression of the page that is evaluated when it runs, with the functions it calls: the value
-- of an attribute, or one in the text.
inductive Evaluated (x : Context) : String → List FunctionUse → Prop
  | inAttribute {id : NodeId} {a : ResolvedAttribute} {source : String} {parts : Composite}
      {dialect : Dialect} (hid : id ∈ x.tree.preorder) (ha : a ∈ (x.finding id).attributes)
      (hv : a.value = .expression source parts dialect) :
      Evaluated x parts.sourceText parts.functions
  | inText {id : NodeId} {data : Insert} (hid : id ∈ x.tree.preorder)
      (hk : x.tree.kind id = .insert data) (hel : x.settings.elIgnored = false) :
      Evaluated x (data.dialect.enclose data.source) data.tree.functions

-- A custom action with its handler.
structure Handles (x : Context) (id : NodeId) (data : CustomAction) (handler : String) : Prop where
  mem_preorder : id ∈ x.tree.preorder
  kind_eq : x.tree.kind id = .custom data
  instanceId_eq : (x.finding id).instanceId = some handler

-- How a handler is given a deferred body: its own body, in which its nested variables are declared,
-- or the body of an attribute that takes a fragment.
inductive Hands (x : Context) (handler : String) :
    NodeId → List Variable → (Operand → Statement) → Prop
  | body {id : NodeId} {data : CustomAction} (h : Handles x id data handler) :
      Hands x handler id (x.finding id).exposed.nested (Statement.setBody handler)
  | fragment {id n : NodeId} {data : CustomAction} {a : ResolvedAttribute}
      (h : Handles x id data handler) (ha : a ∈ (x.finding id).attributes)
      (hfragment : isFragment a = true) (hv : a.value = .named n) :
      Hands x handler n [] (Statement.set handler (setterName a.name))

-- The children of a node, with fuel for what is below them.
def childrenCode (x : Context) (fuel : Nat) : BodyGen := fun scope id => do
  return (← (x.tree.children id).mapM (subtreeCode x fuel scope)).flatten

-- The statements are those of the whole body of the owner, as a method of their own.
def Generated (x : Context) (owner : NodeId) (nested : List Variable) (code : Code) : Prop :=
  ∃ fuel kind s s', x.tree.size ≤ owner + fuel ∧
    deferredCode (childrenCode x fuel) owner kind nested s = .ok (code, s')

-- A node of the page whose whole body there is fuel for.
structure InReach (x : Context) (fuel : Nat) (id : NodeId) : Prop where
  mem_preorder : id ∈ x.tree.preorder
  size_le : x.tree.size ≤ id + fuel

theorem Annotated.inReach_child {x : Context} (hx : Annotated x) {fuel id c : Nat}
    (h : InReach x fuel id) (hc : c ∈ x.tree.children id) : InReach x fuel c := by
  have hlt := (hx.wellFormed.child_lt hc).1
  have hsize := h.size_le
  exact ⟨hx.wellFormed.child_mem_preorder h.mem_preorder hc, by omega⟩

def copyName (depth : Nat) (name : String) : String := name ++ "_" ++ toString depth

-- Variables are saved one after the other; a copy is declared where there is none yet.
inductive Saves (depth : Nat) : State → List (Option String × String) → State → Prop
  | nil {s : State} : Saves depth s [] s
  | again {s s' : State} {name : String} {rest : List (Option String × String)}
      (hname : s.isDeclared name = true) (hcopy : s.isDeclared (copyName depth name) = true)
      (hrest : Saves depth s rest s') : Saves depth s ((none, name) :: rest) s'
  | new {s s' : State} {typeName name : String} {rest : List (Option String × String)}
      (hname : s.isDeclared name = true) (hcopy : s.isDeclared (copyName depth name) = false)
      (hrest : Saves depth (s.declare (copyName depth name)) rest s') :
      Saves depth s ((some typeName, name) :: rest) s'

def saveLines (depth : Nat) (saved : List (Option String × String)) : List Line :=
  saved.map fun (newOf, name) => .plain (.save newOf (copyName depth name) name)

def restoreLines (depth : Nat) (saved : List (Option String × String)) : List Line :=
  saved.map fun (_, name) => .plain (.restore name (copyName depth name))

-- A line that declares a variable or a copy of one.
def Line.declares : Line → Bool
  | .plain (.declare ..) | .plain (.save (some _) ..) => true
  | _ => false

namespace Saves

variable {depth : Nat} {s s' : State} {saved : List (Option String × String)}

theorem tail_declared (h : Saves depth s saved s') : s'.declared.tail = s.declared.tail := by
  induction h with
  | nil => rfl
  | again _ _ _ ih => exact ih
  | new _ _ _ ih => exact ih.trans (State.tail_declare _ _)

-- Nothing but the declared variables changes.
theorem eq_declared (h : Saves depth s saved s') : s' = { s with declared := s'.declared } := by
  induction h with
  | nil => rfl
  | again _ _ _ ih => exact ih
  | new _ _ _ ih => exact ih

theorem declared_eq (h : Saves depth s saved s')
    (hl : ∀ line ∈ saveLines depth saved, line.declares = false) : s'.declared = s.declared := by
  induction h with
  | nil => rfl
  | again _ _ _ ih => exact ih fun line hline => hl line (List.mem_cons_of_mem _ hline)
  | new _ _ _ _ => simp [saveLines, Line.declares] at hl

end Saves

-- A method that was split off.
def methodCode (handler : String) (code : Code) : Code :=
  Stretch.plain [.blank, .opens (.method (methodName handler)),
    .code (Names.writer ++ " out = " ++ Names.context ++ ".getOut();")] :: code ++
    [Stretch.plain [.code "return false;", .close]]

-- A run in a method that is left in some way writes lines. The nodes are the actions that become
-- methods of their own on the way.
inductive Writes (x : Context) : Leave → Multiset NodeId → Point → List Line → Point → Prop
  | nil {e : Leave} {c : Point} : Writes x e 0 c [] c
  | append {e : Leave} {v w : Multiset NodeId} {c c₁ c₂ : Point} {l l' : List Line}
      (h : Writes x e v c l c₁) (h' : Writes x e w c₁ l' c₂) :
      Writes x e (v + w) c (l ++ l') c₂
  -- Values.
  | text {e : Leave} {s : State} {p : Multiset Operand} (t : String) :
      Writes x e 0 ⟨s, p⟩ [] ⟨s, .code t ::ₘ p⟩
  | array {e : Leave} {s : State} {p : Multiset Operand} {arrays : List String} {index : Nat}
      (hgrown : s.charArrays <+: arrays) (hindex : index < arrays.length) :
      Writes x e 0 ⟨s, p⟩ [] ⟨{ s with charArrays := arrays }, .charArray index ::ₘ p⟩
  | evaluation {e : Leave} {s : State} {p : Multiset Operand} {source : String}
      {calls : List FunctionUse} {field : Option Nat} {maps : FunctionMaps} {op : Operand}
      (hsource : Evaluated x source calls)
      (hfield : s.functionMaps.fieldFor x.checked.page.bindings calls = (field, maps))
      (hop : op.evaluation? = some (source, field)) :
      Writes x e 0 ⟨s, p⟩ [] ⟨{ s with functionMaps := maps }, op ::ₘ p⟩
  | temporaries {e : Leave} {s : State} {p : Multiset Operand} (t : Temporaries) :
      Writes x e 0 ⟨s, p⟩ [] ⟨{ s with temporaries := t }, p⟩
  -- Lines on their own.
  | statement {e : Leave} {s : State} {p : Multiset Operand} {st : Statement}
      (hst : st.isPlain = true) :
      Writes x e 0 ⟨s, st.operands + p⟩ [.plain st] ⟨s, p⟩
  | inner {e : Leave} {c : Point} (t : String) : Writes x e 0 c [.inner t] c
  | leave {e : Leave} {c : Point} : Writes x e 0 c [.plain (.leave e)] c
  | scriptlet {e : Leave} {c : Point} {id : NodeId} {script : Script}
      (hid : id ∈ x.tree.preorder) (hk : x.tree.kind id = .script .scriptlet script) :
      Writes x e 0 c (codeLines (x.tree.mark id) (x.tree.scriptText id)).lines c
  | declaration {e : Leave} {s : State} {p : Multiset Operand} (mark : Mark) (code : String) :
      Writes x e 0 ⟨s, p⟩ [] ⟨{ s with declarations := s.declarations ++ codeLines mark code }, p⟩
  -- Variables.
  | declare {e : Leave} {s : State} {p : Multiset Operand} {typeName name : String}
      (h : s.isDeclared name = false) :
      Writes x e 0 ⟨s, p⟩ [.plain (.declare typeName name)] ⟨s.declare name, p⟩
  | sync {e : Leave} {c : Point} {typeName name : String}
      (h : c.state.isDeclared name = true) :
      Writes x e 0 c [.plain (.sync typeName name)] c
  -- A block in which nothing is declared, with more blocks behind it that change nothing.
  | block {e : Leave} {v : Multiset NodeId} {c c' : Point} {l : List Line} (head : String)
      (clauses : List (String × List Line)) (h : Writes x e v c l c')
      (hdeclared : c'.state.declared = c.state.declared)
      (hclauses : ∀ clause ∈ clauses, Writes x e 0 c' clause.2 c') :
      Writes x e v c
        (.block head :: l ++ clauses.flatMap (fun clause => .turns clause.1 :: clause.2) ++
          [.close]) c'
  -- A block whose variables end with it.
  | frame {e : Leave} {v : Multiset NodeId} {s s' : State} {p p' : Multiset Operand}
      {l : List Line} (head : String) (h : Writes x e v ⟨s.push, p⟩ l ⟨s', p'⟩) :
      Writes x e v ⟨s, p⟩ (.block head :: l ++ [.close]) ⟨s'.pop, p'⟩
  -- The same with a loop inside; nothing behind the loop is about variables.
  | loop {e : Leave} {v w : Multiset NodeId} {s s' : State} {p p' : Multiset Operand}
      {c : Point} {before l behind : List Line} (head again tail : String)
      (hbefore : Writes x e v ⟨s.push, p⟩ before c) (h : Writes x e w c l ⟨s', p'⟩)
      (hbehind : ∀ c, Writes x e 0 c behind c) :
      Writes x e (v + w) ⟨s, p⟩
        (.block head :: before ++ .block again :: l ++ .closes tail :: behind ++ [.close])
        ⟨s'.pop, p'⟩
  -- Pools.
  | pool {e : Leave} {s : State} {p : Multiset Operand} (name : String) :
      Writes x e 0 ⟨s, p⟩ [] ⟨s.addPool name, p⟩
  | reuse {e : Leave} {c : Point} {pool handler : String} (hpool : pool ∈ c.state.pools) :
      Writes x e 0 c [.plain (.reuse pool handler)] c
  -- An action gets its handler, and saves variables around its own statements.
  | action {e : Leave} {v w : Multiset NodeId} {s s₁ : State} {p : Multiset Operand}
      {c c' : Point} {l l' : List Line} {id : NodeId} {data : CustomAction} {handler : String}
      {saved : List (Option String × String)} {pool : Option String}
      (hid : Handles x id data handler) (hlevel : data.nestingLevel = 0 → saved = [])
      (hsaves : Saves data.nestingLevel s saved s₁) (h : Writes x e v ⟨s₁, p⟩ l c)
      (hpool : ∀ name ∈ pool, name ∈ c.state.pools) (h' : Writes x e w c l' c') :
      Writes x e (v + w) ⟨s, p⟩
        (saveLines data.nestingLevel saved ++
          (l ++ .plain (.acquire data.tag.handlerClass handler pool) :: l') ++
          restoreLines data.nestingLevel saved) c'
  | split {e : Leave} {v : Multiset NodeId} {s t : State} {p : Multiset Operand}
      {id : NodeId} {data : CustomAction} {handler : String} {code : Code} (parent count : String)
      (hid : Handles x id data handler)
      (h : Writes x .returnsTrue v ⟨{ s with declared := [[]] }, 0⟩ code.lines ⟨t, 0⟩) :
      Writes x e (id ::ₘ v) ⟨s, p⟩
        [.opens (.call (methodName handler) parent count), .plain (.leave e), .close]
        ⟨{ t with declared := s.declared, methods := t.methods ++ [methodCode handler code] }, p⟩
  | defers {e : Leave} {v : Multiset NodeId} {s t : State} {p : Multiset Operand}
      {owner : NodeId} {nested : List Variable} {hand : Operand → Statement} {handler : String}
      {code : Code} (count : String) (hhand : Hands x handler owner nested hand)
      (hcode : Generated x owner nested code)
      (h : Writes x .throws v ⟨{ s with deferred := s.deferred ++ [none], declared := [[]] }, 0⟩
        code.lines ⟨t, 0⟩) :
      Writes x e v ⟨s, p⟩ [.plain (hand (.deferredBody s.deferred.length handler count))]
        ⟨{ t with declared := s.declared
                  deferred := t.deferred.set s.deferred.length (some code) }, p⟩

namespace Writes

variable {x : Context} {e : Leave} {v w : Multiset NodeId} {c c₁ c₂ : Point}
  {l l' : List Line}

theorem congr (h : Writes x e v c l c₁) (hv : v = w) (hl : l = l') : Writes x e w c l' c₁ :=
  hv ▸ hl ▸ h

-- Behind something that splits no action off, and in front of it.
theorem after (h : Writes x e 0 c l c₁) (h' : Writes x e v c₁ l' c₂) :
    Writes x e v c (l ++ l') c₂ :=
  (h.append h').congr (zero_add v) rfl

theorem before (h : Writes x e v c l c₁) (h' : Writes x e 0 c₁ l' c₂) :
    Writes x e v c (l ++ l') c₂ :=
  (h.append h').congr (add_zero v) rfl

theorem cons {line : Line} (h : Writes x e 0 c [line] c₁) (h' : Writes x e v c₁ l c₂) :
    Writes x e v c (line :: l) c₂ :=
  h.after h'

theorem quiet {st : Statement} (hst : st.isPlain = true) (hops : st.operands = []) :
    Writes x e 0 c [.plain st] c := by
  have h := Writes.statement (x := x) (e := e) (s := c.state) (p := c.pending) hst
  rwa [hops, Multiset.coe_nil, zero_add] at h

theorem code (t : String) : Writes x e 0 c [.code t] c := quiet rfl rfl

-- The values may have come in another order.
theorem usePerm {s : State} {p : Multiset Operand} {st : Statement} {ops : List Operand}
    (hst : st.isPlain = true) (hops : ops.Perm st.operands) :
    Writes x e 0 ⟨s, ops + p⟩ [.plain st] ⟨s, p⟩ := by
  rw [Multiset.coe_eq_coe.mpr hops]
  exact .statement hst

-- A statement with one value, which is waiting for it or is plain text.
theorem use {s : State} {p : Multiset Operand} {st : Statement} {op : Operand}
    (hst : st.isPlain = true) (hops : st.operands = [op]) :
    Writes x e 0 ⟨s, op ::ₘ p⟩ [.plain st] ⟨s, p⟩ := by
  have h := Writes.statement (x := x) (e := e) (s := s) (p := p) hst
  rwa [hops, Multiset.coe_singleton, Multiset.singleton_add] at h

theorem useText {st : Statement} {t : String} (hst : st.isPlain = true)
    (hops : st.operands = [.code t]) : Writes x e 0 c [.plain st] c :=
  (Writes.text t).after (use hst hops)

theorem writeText (t : String) : Writes x e 0 c [.plain (.write (.code t))] c :=
  useText rfl rfl

-- A block on its own.
theorem enclosed (head : String) (h : Writes x e v c l c₁)
    (hdeclared : c₁.state.declared = c.state.declared) :
    Writes x e v c (.block head :: l ++ [.close]) c₁ := by
  have h' := Writes.block head [] h hdeclared (by simp)
  rwa [List.flatMap_nil, List.append_nil] at h'

theorem onlyIf {holds : Bool} (h : Writes x e 0 c l c) :
    Writes x e 0 c (onlyIf holds l) c := by
  cases holds with
  | false => exact .nil
  | true => exact h

-- Blocks around the innermost one stay as they are.
theorem tail_declared (h : Writes x e v c l c₁) :
    c₁.state.declared.tail = c.state.declared.tail := by
  induction h with
  | append _ _ ih ih' => exact ih'.trans ih
  | declare _ => exact State.tail_declare _ _
  | block _ _ _ hdeclared _ _ _ => rw [hdeclared]
  | frame _ _ ih => exact congrArg List.tail ih
  | loop _ _ _ _ _ _ ih ih' _ => exact congrArg List.tail (ih'.trans ih)
  | action _ _ hsaves _ _ _ ih ih' => exact ih'.trans (ih.trans hsaves.tail_declared)
  | _ => rfl

-- A pool that has been added stays.
theorem pools_subset (h : Writes x e v c l c₁) : c.state.pools ⊆ c₁.state.pools := by
  induction h with
  | append _ _ ih ih' => exact List.Subset.trans ih ih'
  | block _ _ _ _ _ ih _ => exact ih
  | frame _ _ ih => exact ih
  | loop _ _ _ _ _ _ ih ih' _ => exact List.Subset.trans ih ih'
  | pool name => exact State.pools_subset_addPool _ _
  | action _ _ hsaves _ _ _ ih ih' =>
    rw [hsaves.eq_declared] at ih
    exact List.Subset.trans ih ih'
  | split _ _ _ _ ih => exact ih
  | defers _ _ _ _ ih => exact ih
  | _ => exact fun _ h => h

-- Nothing is declared unless a line says so.
theorem declared_eq (h : Writes x e v c l c₁) (hl : ∀ line ∈ l, line.declares = false) :
    c₁.state.declared = c.state.declared := by
  induction h with
  | append _ _ ih ih' =>
    rw [List.forall_mem_append] at hl
    exact (ih' hl.2).trans (ih hl.1)
  | declare _ => simp [Line.declares] at hl
  | block _ _ _ hdeclared _ _ _ => exact hdeclared
  | frame _ h _ => exact h.tail_declared
  | loop _ _ _ hbefore h _ _ _ _ => exact h.tail_declared.trans hbefore.tail_declared
  | action _ _ hsaves _ _ _ ih ih' =>
    rw [List.forall_mem_append, List.forall_mem_append, List.forall_mem_append,
      List.forall_mem_cons] at hl
    obtain ⟨⟨hsave, hl, -, hl'⟩, -⟩ := hl
    exact (ih' hl').trans ((ih hl).trans (hsaves.declared_eq hsave))
  | _ => rfl

end Writes

section

variable {α β : Type}

theorem bind_run_eq_ok {m : GenM α} {f : α → GenM β} {s : State} {r : β × State} :
    (m >>= f) s = .ok r ↔ ∃ a s', m s = .ok (a, s') ∧ f a s' = .ok r := by
  change (m s >>= fun q => f q.1 q.2) = .ok r ↔ _
  rw [Checking.bind_eq_ok, Prod.exists]

-- What follows a choice comes behind both of its branches.
theorem ite_bind_run_eq_ok {c : Prop} [Decidable c] {m n : GenM α} {f : α → GenM β} {s : State}
    {r : β × State} (h : (if c then m >>= f else n >>= f) s = .ok r) :
    ∃ a s', (if c then m else n) s = .ok (a, s') ∧ f a s' = .ok r := by
  by_cases hc : c
  · simp only [if_pos hc] at h ⊢
    exact bind_run_eq_ok.mp h
  · simp only [if_neg hc] at h ⊢
    exact bind_run_eq_ok.mp h

theorem pure_run_eq_ok {a : α} {s : State} {r : α × State} :
    (pure a : GenM α) s = .ok r ↔ r = (a, s) := by
  change Except.ok (a, s) = .ok r ↔ _
  rw [Except.ok.injEq, eq_comm]

theorem modifyGet_run_eq_ok {g : State → α × State} {s : State} {r : α × State} :
    (modifyGet g : GenM α) s = .ok r ↔ r = g s := by
  change Except.ok (g s) = .ok r ↔ _
  rw [Except.ok.injEq, eq_comm]

theorem modify_run_eq_ok {g : State → State} {s : State} {r : PUnit × State} :
    (modify g : GenM PUnit) s = .ok r ↔ r = ((), g s) := modifyGet_run_eq_ok

variable {f : α → GenM β} {l : List α} {r : List β} {s s' : State}

-- The results of a list are those of its members, each from the state that it was run in.
theorem forall₂_of_mapM_run (h : l.mapM f s = .ok (r, s')) :
    List.Forall₂ (fun a b => ∃ s₁ s₂, f a s₁ = .ok (b, s₂)) l r := by
  induction l generalizing s r with
  | nil =>
    cases pure_run_eq_ok.mp h
    exact .nil
  | cons a l ih =>
    rw [List.mapM_cons] at h
    obtain ⟨first, s₁, hfirst, h⟩ := bind_run_eq_ok.mp h
    obtain ⟨rest, s₂, hrest, h⟩ := bind_run_eq_ok.mp h
    cases pure_run_eq_ok.mp h
    exact .cons ⟨s, s₁, hfirst⟩ (ih hrest)

theorem length_mapM_run (h : l.mapM f s = .ok (r, s')) : r.length = l.length :=
  (forall₂_of_mapM_run h).length_eq.symm

theorem mem_of_mapM_run (h : l.mapM f s = .ok (r, s')) {b : β} (hb : b ∈ r) :
    ∃ a ∈ l, ∃ s₁ s₂, f a s₁ = .ok (b, s₂) := by
  obtain ⟨i, hi, rfl⟩ := List.getElem_of_mem hb
  have hlength := length_mapM_run h
  exact ⟨l[i], List.getElem_mem _, (forall₂_of_mapM_run h).get (hlength ▸ hi) hi⟩

end

-- What a run gives is written: the lines of its result, with the values of its result left over.
def Emits (x : Context) (e : Leave) {α : Type} (m : GenM α) (v : Multiset NodeId)
    (lines : α → List Line) (values : α → List Operand) : Prop :=
  ∀ s s' a p, m s = .ok (a, s') → Writes x e v ⟨s, p⟩ (lines a) ⟨s', values a + p⟩

-- A run that leaves no values, and one that gives a value and writes nothing.
abbrev Prints (x : Context) (e : Leave) {α : Type} (m : GenM α) (v : Multiset NodeId)
    (lines : α → List Line) : Prop := Emits x e m v lines fun _ => []

abbrev Values (x : Context) (e : Leave) {α : Type} (m : GenM α) (values : α → List Operand) :
    Prop := Emits x e m 0 (fun _ => []) values

section

variable {x : Context} {e : Leave} {α β : Type} {m : GenM α} {v : Multiset NodeId}
  {lines : α → List Line} {values : α → List Operand} {s s' : State} {a : α}
  {p : Multiset Operand}

theorem Emits.run (h : Prints x e m v lines) (hm : m s = .ok (a, s')) :
    Writes x e v ⟨s, p⟩ (lines a) ⟨s', p⟩ := by
  have hw := h s s' a p hm
  rwa [Multiset.coe_nil, zero_add] at hw

theorem Emits.of_run
    (h : ∀ {s s' a p}, m s = .ok (a, s') → Writes x e v ⟨s, p⟩ (lines a) ⟨s', p⟩) :
    Prints x e m v lines := by
  intro s s' a p hm
  rw [Multiset.coe_nil, zero_add]
  exact h hm

theorem prints_pure (h : ∀ c, Writes x e v c (lines a) c) :
    Prints x e (pure a) v lines :=
  .of_run fun hm => by
    cases pure_run_eq_ok.mp hm
    exact h _

-- Values that came one after the other wait together.
theorem add_waiting (l l' : List Operand) (p : Multiset Operand) :
    (l' : Multiset Operand) + (l + p) = (l ++ l' : List Operand) + p := by
  rw [← Multiset.coe_add, add_left_comm, add_assoc]

theorem Emits.mapM {f : β → GenM α} {l : List β} {V : β → Multiset NodeId}
    (hf : ∀ b ∈ l, Emits x e (f b) (V b) lines values) :
    Emits x e (l.mapM f) (l.map V).sum (fun r => r.flatMap lines)
      (fun r => r.flatMap values) := by
  intro s s' r p hr
  induction l generalizing s r p with
  | nil =>
    rw [List.mapM_nil] at hr
    cases pure_run_eq_ok.mp hr
    simpa using Writes.nil
  | cons b l ih =>
    rw [List.mapM_cons] at hr
    obtain ⟨a, s₁, ha, hr⟩ := bind_run_eq_ok.mp hr
    obtain ⟨as, s₂, has, hr⟩ := bind_run_eq_ok.mp hr
    cases pure_run_eq_ok.mp hr
    have hfirst := hf b (List.mem_cons_self ..) s s₁ a p ha
    have hrest := ih (fun b hb => hf b (List.mem_cons_of_mem _ hb)) s₁ as (values a + p) has
    rw [add_waiting] at hrest
    exact (hfirst.append hrest).congr (by simp) (by simp)

theorem flatMap_none (l : List α) : l.flatMap (fun _ => ([] : List β)) = [] := by
  rw [List.flatMap_eq_nil_iff]
  exact fun _ _ => rfl

theorem Emits.mapM_prints {f : β → GenM α} {l : List β} {V : β → Multiset NodeId}
    (hf : ∀ b ∈ l, Prints x e (f b) (V b) lines) :
    Prints x e (l.mapM f) (l.map V).sum fun r => r.flatMap lines := by
  intro s s' r p hr
  have h := Emits.mapM hf s s' r p hr
  beta_reduce at h
  rwa [flatMap_none] at h

theorem Emits.mapM_values {f : β → GenM α} {l : List β}
    (hf : ∀ b ∈ l, Values x e (f b) values) :
    Values x e (l.mapM f) fun r => r.flatMap values := by
  intro s s' r p hr
  have h := Emits.mapM hf s s' r p hr
  beta_reduce at h
  rwa [flatMap_none, List.map_const', List.sum_replicate, nsmul_zero] at h

end

end PageCompiler.ClassText
