import PageCompiler.Proofs.ClassText.ClassNames

-- A program belongs to the cell that counts the bodies pushed in the innermost region around it,
-- and has no way to name another cell.
namespace PageCompiler.ClassText

-- A deferred body is handed over with the cell that counts what is pushed in it.
def Operand.countsIn (cell : String) : Operand → Bool
  | deferredBody _ _ count => count == cell
  | _ => true

@[simp] theorem Operand.countsIn_code (cell text : String) : (code text).countsIn cell = true := rfl

-- Such a statement pushes and pops no body, counts none and takes the text of none; it leaves no
-- method, and it neither declares a variable nor copies one.
def Statement.isCalm (cell : String) : Statement → Bool
  | declare .. | save .. | restore .. | pushBody | popBody | countUp _ | countDown _ | capture ..
  | leave _ => false
  | st => st.operands.all (Operand.countsIn cell)

def Line.isCalm (cell : String) : Line → Bool
  | plain st => st.isCalm cell
  | inner _ => true
  | _ => false

-- The cell of a handler that recovers from failures.
def regionCell (handler : String) : String := handler ++ "_push_body_count"

-- A variable that an action exposes, or a bean.
inductive IsVariable (x : Context) : String → Prop
  | exposed {id : NodeId} {v : Variable} (hid : id ∈ x.tree.preorder)
      (hv : v ∈ (x.finding id).exposed.all) : IsVariable x v.name
  | bean {id : NodeId} (hid : id ∈ x.tree.preorder) (hk : x.tree.kind id = .useBean) :
      IsVariable x ((literalOf (x.finding id) "id").getD "")

-- Some attribute is given by an element whose body is its value, and does not take a fragment.
def HasValues (x : Context) : Prop :=
  ∃ id ∈ x.tree.preorder, ∃ a ∈ (x.finding id).attributes, ∃ n, a.value = .named n ∧
    isFragment a = false

-- What an action saves are variables that it exposes in its body, and it stands inside of another
-- action of its name.
structure Saving (x : Context) where
  id : NodeId
  data : CustomAction
  handler : String
  saved : List (Option String × String)
  handles : Handles x id data handler
  exposed : ∀ entry ∈ saved, data.nestingLevel ≠ 0 ∧
    ∃ v ∈ (x.finding id).exposed.nested ++ (x.finding id).exposed.atBegin, v.name = entry.2

namespace Saving

variable {x : Context} (k : Saving x)

def saves : List Line := saveLines k.data.nestingLevel k.saved

def restores : List Line := restoreLines k.data.nestingLevel k.saved

end Saving

-- The statements of a method that is left in some way, by the cell of the innermost region.
inductive Program (x : Context) (e : Leave) : String → Type
  | skip {cell : String} : Program x e cell
  | seq {cell : String} (p q : Program x e cell) : Program x e cell
  | line {cell : String} (l : Line) (h : l.isCalm cell = true) : Program x e cell
  | leave {cell : String} : Program x e cell
  | declare {cell : String} (typeName : String) {name : String} (h : IsVariable x name) :
      Program x e cell
  | block {cell : String} (head : String) (p : Program x e cell) : Program x e cell
  -- Something is done at the end in any case.
  | ensured {cell : String} (p : Program x e cell) (tail : String) : Program x e cell
  -- A handler recovers from what fails in its region, which has a cell of its own.
  | region {cell : String} (handler : String) (p : Program x e (regionCell handler)) :
      Program x e cell
  -- A body that a handler may want to be pushed.
  | buffered {cell : String} (handler : String) (p : Program x e cell) : Program x e cell
  | repeated {cell : String} (handler : String) (p : Program x e cell) : Program x e cell
  -- The body of an attribute is pushed for its text.
  | value {cell : String} (h : HasValues x) (p : Program x e cell) (name : String) (trim : Bool) :
      Program x e cell
  | action {cell : String} (k : Saving x) (p : Program x e cell) : Program x e cell
  -- A method that was split off is called with the cell, and is left together with this one.
  | call {cell : String} (method parent : String) : Program x e cell

namespace Program

variable {x : Context} {e : Leave}

def lines : {cell : String} → Program x e cell → List Line
  | _, skip => []
  | _, seq p q => p.lines ++ q.lines
  | _, line l _ => [l]
  | _, leave => [.plain (.leave e)]
  | _, @declare _ _ _ typeName name _ => [.plain (.declare typeName name)]
  | _, block head p => .block head :: p.lines ++ [.close]
  | _, ensured p tail => .block "try" :: p.lines ++ [.turns "finally", .code tail, .close]
  | _, region handler p =>
    .code ("int[] " ++ regionCell handler ++ " = new int[] \x7b 0 \x7d;") :: .block "try" ::
      p.lines ++ recovery handler (regionCell handler)
  | cell, buffered handler p => pushLines handler cell ++ p.lines ++ popLines handler cell
  | _, repeated handler p =>
    .block "do" :: p.lines ++
      [.block ("if (" ++ handler ++ "_after != " ++ Names.bodyTag ++ ".EVAL_BODY_AGAIN)"),
        .code "break;", .close, .closes "\x7d while (true);"]
  | _, value _ p name trim =>
    .plain .pushBody :: p.lines ++ [.plain (.capture name trim), .plain .popBody]
  | _, action k p => k.saves ++ p.lines ++ k.restores
  | cell, call method parent =>
    [.opens (.call method parent cell), .plain (.leave e), .close]

end Program

-- A method that was split off, around its statements.
def splitLines (name : String) (l : List Line) : List Line :=
  [.blank, .opens (.method name),
    .code (Names.writer ++ " out = " ++ Names.context ++ ".getOut();")] ++ l ++
    [.code "return false;", .close]

-- The lines are those of a program.
def Composed (x : Context) (e : Leave) (cell : String) (l : List Line) : Prop :=
  ∃ p : Program x e cell, p.lines = l

namespace Composed

variable {x : Context} {e : Leave} {cell : String} {l l' : List Line}

theorem nil : Composed x e cell [] := ⟨.skip, rfl⟩

theorem append (h : Composed x e cell l) (h' : Composed x e cell l') :
    Composed x e cell (l ++ l') := by
  obtain ⟨p, rfl⟩ := h
  obtain ⟨q, rfl⟩ := h'
  exact ⟨.seq p q, rfl⟩

theorem cons {line : Line} (hline : line.isCalm cell = true) (h : Composed x e cell l) :
    Composed x e cell (line :: l) :=
  append ⟨.line line hline, rfl⟩ h

theorem of_calm (h : ∀ line ∈ l, line.isCalm cell = true) : Composed x e cell l := by
  induction l with
  | nil => exact nil
  | cons line l ih =>
    obtain ⟨hline, hl⟩ := List.forall_mem_cons.mp h
    exact cons hline (ih hl)

theorem flatMap {α : Type} {f : α → List Line} {l : List α}
    (h : ∀ a ∈ l, Composed x e cell (f a)) : Composed x e cell (l.flatMap f) := by
  induction l with
  | nil => exact nil
  | cons a l ih =>
    obtain ⟨ha, hl⟩ := List.forall_mem_cons.mp h
    exact append ha (ih hl)

theorem code (t : String) : Composed x e cell [.code t] := cons rfl nil

theorem block (head : String) (h : Composed x e cell l) :
    Composed x e cell (Line.block head :: l ++ [Line.close]) := by
  obtain ⟨p, rfl⟩ := h
  exact ⟨.block head p, rfl⟩

theorem leave : Composed x e cell [.plain (.leave e)] := ⟨.leave, rfl⟩

theorem declare (typeName : String) {name : String} (h : IsVariable x name) :
    Composed x e cell [.plain (.declare typeName name)] :=
  ⟨.declare typeName h, rfl⟩

end Composed

-- The methods that were split off and the deferred bodies are programs, which count in the cell
-- that they are given.
structure State.Composed (x : Context) (s : State) : Prop where
  methods : ∀ code ∈ s.methods, ∃ name, ∃ p : Program x .returnsTrue Names.pushCount,
    Code.lines code = splitLines name p.lines
  deferred : ∀ code ∈ s.deferred, ∃ p : Program x .throws Names.pushCount,
    (code.getD []).lines = p.lines

-- A run collects no methods and bodies but programs, and has such a result.
def Composes (x : Context) {α : Type} (m : GenM α) (good : α → Prop) : Prop :=
  ∀ s s' a, m s = .ok (a, s') → s.Composed x → s'.Composed x ∧ good a

namespace Composes

variable {x : Context} {α β : Type} {m m' : GenM α} {k : α → GenM β} {P P' : α → Prop}
  {Q : β → Prop}

theorem pure {a : α} (h : P a) : Composes x (pure a) P := by
  intro s s' b hrun hs
  cases pure_run_eq_ok.mp hrun
  exact ⟨hs, h⟩

theorem bind (h : Composes x m P) (h' : ∀ a, P a → Composes x (k a) Q) :
    Composes x (m >>= k) Q := by
  intro s s' b hrun hs
  obtain ⟨a, s₁, ha, hrun⟩ := bind_run_eq_ok.mp hrun
  obtain ⟨hs₁, hgood⟩ := h s s₁ a ha hs
  exact h' a hgood s₁ s' b hrun hs₁

-- What follows a choice comes behind both of its branches.
theorem ite_bind {c : Prop} [Decidable c] (h : Composes x (if c then m else m') P)
    (h' : ∀ a, P a → Composes x (k a) Q) :
    Composes x (if c then m >>= k else m' >>= k) Q := by
  have hbind := h.bind h'
  split_ifs at hbind ⊢
  · exact hbind
  · exact hbind

theorem imp (h : Composes x m P) (hgood : ∀ a, P a → P' a) : Composes x m P' :=
  fun s s' a hrun hs => ⟨(h s s' a hrun hs).1, hgood a (h s s' a hrun hs).2⟩

theorem mapM {f : β → GenM α} {l : List β} (h : ∀ b ∈ l, Composes x (f b) P) :
    Composes x (l.mapM f) fun r => ∀ a ∈ r, P a := by
  induction l with
  | nil =>
    rw [List.mapM_nil]
    exact .pure (by simp)
  | cons b l ih =>
    rw [List.mapM_cons]
    obtain ⟨hfirst, hrest⟩ := List.forall_mem_cons.mp h
    exact .bind hfirst fun a ha => .bind (ih hrest) fun as has =>
      .pure (List.forall_mem_cons.mpr ⟨ha, has⟩)

-- Something else of the state changes.
theorem modifyGet {g : State → α × State} (hmethods : ∀ s, (g s).2.methods = s.methods)
    (hdeferred : ∀ s, (g s).2.deferred = s.deferred) (hgood : ∀ s, P (g s).1) :
    Composes x (modifyGet g) P := by
  intro s s' a hrun hs
  obtain ⟨rfl, rfl⟩ := Prod.mk.inj (modifyGet_run_eq_ok.mp hrun)
  refine ⟨⟨?_, ?_⟩, hgood s⟩
  · rw [hmethods s]
    exact hs.methods
  · rw [hdeferred s]
    exact hs.deferred

theorem inBlock (h : Composes x m P) : Composes x (inBlock m) P := by
  intro s s' a hrun hs
  obtain ⟨s₁, hm, rfl⟩ := inBlock_run_eq_ok hrun
  obtain ⟨hs₁, ha⟩ := h s.push s₁ a hm ⟨hs.methods, hs.deferred⟩
  exact ⟨⟨hs₁.methods, hs₁.deferred⟩, ha⟩

theorem inMethod (h : Composes x m P) : Composes x (inMethod m) P := by
  intro s s' a hrun hs
  obtain ⟨s₁, hm, rfl⟩ := inMethod_run_eq_ok hrun
  obtain ⟨hs₁, ha⟩ := h _ s₁ a hm ⟨hs.methods, hs.deferred⟩
  exact ⟨⟨hs₁.methods, hs₁.deferred⟩, ha⟩

end Composes

end PageCompiler.ClassText
