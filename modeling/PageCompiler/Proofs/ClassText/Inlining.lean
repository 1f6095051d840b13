import PageCompiler.Proofs.ClassText.LiteralWrites

-- The arrays are numbered while the statements are generated, so that what a number stands for is
-- known to everything behind it alone: computations are compared under all arrays that come up in
-- the end.
namespace PageCompiler

open ClassText

def Options.withStrategy (o : Options) (l : LiteralStrategy) : Options :=
  { o with literalStrategy := l }

namespace ClassText

def Operand.inlined (arrays : List String) : Operand → Operand
  | .charArray k => .code (quote (arrays.getD k ""))
  | op => op

def Line.inlined (arrays : List String) : Line → Line
  | .plain (.write value) => .plain (.write (value.inlined arrays))
  | line => line

def Stretch.inlined (arrays : List String) (s : Stretch) : Stretch :=
  { s with lines := s.lines.map (Line.inlined arrays) }

def Code.inlined (arrays : List String) (c : Code) : Code := c.map (Stretch.inlined arrays)

def State.inlined (arrays : List String) (s : State) : State :=
  { s with
    declarations := s.declarations.inlined arrays
    charArrays := []
    methods := s.methods.map (Code.inlined arrays)
    deferred := s.deferred.map (Option.map (Code.inlined arrays)) }

variable {arrays : List String}

@[simp] theorem Code.inlined_nil : Code.inlined arrays [] = [] := rfl

@[simp] theorem Code.inlined_cons (s : Stretch) (c : Code) :
    Code.inlined arrays (s :: c) = s.inlined arrays :: Code.inlined arrays c := rfl

@[simp] theorem Code.inlined_append (c c' : Code) :
    Code.inlined arrays (c ++ c') = Code.inlined arrays c ++ Code.inlined arrays c' :=
  List.map_append

@[simp] theorem Code.inlined_flatten (codes : List Code) :
    Code.inlined arrays codes.flatten = (codes.map (Code.inlined arrays)).flatten :=
  List.map_flatten

@[simp] theorem Stretch.inlined_forMark (mark : Mark) (lines : List Line) :
    (Stretch.forMark mark lines).inlined arrays =
      .forMark mark (lines.map (Line.inlined arrays)) := rfl

@[simp] theorem Stretch.inlined_plain (lines : List Line) :
    (Stretch.plain lines).inlined arrays = .plain (lines.map (Line.inlined arrays)) := rfl

-- One computation does with texts what another does with arrays: its results have the texts in
-- place of the arrays, whatever arrays come behind these until the end. Both fail alike.
structure Inlines {α : Type} (v : List String → α → α) (m : List String → GenM α) (m' : GenM α) :
    Prop where
  ok : ∀ {s a t}, m' s = .ok (a, t) → Adds s.charArrays t.charArrays ∧
    ∀ all, t.charArrays <+: all → m all (s.inlined all) = .ok (v all a, t.inlined all)
  error : ∀ {s d}, m' s = .error d → ∃ arrays, s.charArrays <+: arrays ∧
    ∀ all, arrays <+: all → m all (s.inlined all) = .error d

-- A computation to which arrays make no difference.
abbrev Steady {α : Type} (m : GenM α) : Prop := Inlines (fun _ a => a) (fun _ => m) m

theorem bind_run_eq_error {α β : Type} {m : GenM α} {f : α → GenM β} {s : State} {d : Diagnostic} :
    (m >>= f) s = .error d ↔
      m s = .error d ∨ ∃ a t, m s = .ok (a, t) ∧ f a t = .error d := by
  simp only [Bind.bind, StateT.bind]
  cases m s with
  | error e => simp [Except.bind]
  | ok r =>
    obtain ⟨a, t⟩ := r
    simp [Except.bind]

namespace Inlines

variable {α β : Type} {v : List String → α → α} {w : List String → β → β}
  {m : List String → GenM α} {m' : GenM α}

theorem congr (h : Inlines v m m') {z : List String → α → α} (hz : ∀ all a, z all a = v all a) :
    Inlines z m m' := by
  obtain rfl : z = v := funext fun all => funext (hz all)
  exact h

theorem pure {a : α} {b : List String → α} (h : ∀ all, b all = v all a) :
    Inlines v (fun all => Pure.pure (b all)) (Pure.pure a) where
  ok {s a' t} hr := by
    cases hr
    refine ⟨.refl _, fun all _ => ?_⟩
    rw [h all]
    rfl
  error hr := by cases hr

theorem throw (d : Diagnostic) :
    Inlines v (fun _ => MonadExcept.throw d) (MonadExcept.throw d : GenM α) where
  ok hr := by cases hr
  error {s e} hr := by
    cases hr
    exact ⟨_, List.prefix_refl _, fun _ _ => rfl⟩

-- A change of the state that leaves the arrays as they are.
theorem modifyGet {g : State → α × State} {g₀ : List String → State → α × State}
    (h : ∀ all s, g₀ all (s.inlined all) = (v all (g s).1, (g s).2.inlined all))
    (harrays : ∀ s, (g s).2.charArrays = s.charArrays) :
    Inlines v (fun all => MonadState.modifyGet (g₀ all)) (MonadState.modifyGet g) where
  ok {s a t} hr := by
    obtain ⟨rfl, rfl⟩ := Prod.mk.inj (Except.ok.inj hr)
    refine ⟨?_, fun all _ => congrArg Except.ok (h all s)⟩
    rw [harrays]
    exact .refl _
  error hr := by cases hr

theorem modify {g : State → State} {g₀ : List String → State → State}
    (h : ∀ all s, g₀ all (s.inlined all) = (g s).inlined all)
    (harrays : ∀ s, (g s).charArrays = s.charArrays) :
    Inlines (fun _ u => u) (fun all => modify (g₀ all)) (modify g) :=
  modifyGet (fun all s => Prod.ext rfl (h all s)) harrays

theorem get : Inlines State.inlined (fun _ => MonadState.get) (MonadState.get : GenM State) where
  ok {s a t} hr := by
    cases hr
    exact ⟨.refl _, fun _ _ => rfl⟩
  error hr := by cases hr

theorem bind {f : List String → α → GenM β} {f' : α → GenM β} (hm : Inlines v m m')
    (hf : ∀ a, Inlines w (fun all => f all (v all a)) (f' a)) :
    Inlines w (fun all => m all >>= f all) (m' >>= f') where
  ok {s b u} hr := by
    obtain ⟨a, t, ha, hb⟩ := bind_run_eq_ok.mp hr
    obtain ⟨hst, hrun⟩ := hm.ok ha
    obtain ⟨htu, hrun'⟩ := (hf a).ok hb
    exact ⟨hst.trans htu, fun all hall =>
      bind_run_eq_ok.mpr ⟨_, _, hrun all (htu.grown.trans hall), hrun' all hall⟩⟩
  error {s d} hr := by
    rcases bind_run_eq_error.mp hr with hd | ⟨a, t, ha, hd⟩
    · obtain ⟨arrays, hs, hrun⟩ := hm.error hd
      exact ⟨arrays, hs, fun all hall => bind_run_eq_error.mpr (.inl (hrun all hall))⟩
    · obtain ⟨hst, hrun⟩ := hm.ok ha
      obtain ⟨arrays, ht, hrun'⟩ := (hf a).error hd
      exact ⟨arrays, hst.grown.trans ht, fun all hall => bind_run_eq_error.mpr
        (.inr ⟨_, _, hrun all (ht.trans hall), hrun' all hall⟩)⟩

theorem ite {c : Prop} [Decidable c] {n : List String → GenM α} {n' : GenM α}
    (hm : Inlines v m m') (hn : Inlines v n n') :
    Inlines v (fun all => if c then m all else n all) (if c then m' else n') := by
  by_cases h : c
  · simpa only [if_pos h] using hm
  · simpa only [if_neg h] using hn

theorem mapM {l : List α} {f : List String → α → GenM β} {f' : α → GenM β}
    (hf : ∀ a ∈ l, Inlines w (fun all => f all a) (f' a)) :
    Inlines (fun all => List.map (w all)) (fun all => l.mapM (f all)) (l.mapM f') := by
  induction l with
  | nil => exact pure fun _ => rfl
  | cons a l ih =>
    simp only [List.mapM_cons]
    refine bind (hf a (List.mem_cons_self ..)) fun b => ?_
    refine bind (ih fun a ha => hf a (List.mem_cons_of_mem _ ha)) fun bs => ?_
    exact pure fun _ => rfl

-- Lists from each of some values, put together.
theorem flatMapM {l : List α} {f : List String → α → GenM (List β)} {f' : α → GenM (List β)}
    {z : List String → List β → List β}
    (hz : ∀ all (bs : List (List β)), z all bs.flatten = (bs.map (z all)).flatten)
    (hf : ∀ a, Inlines z (fun all => f all a) (f' a)) :
    Inlines z (fun all => do return (← l.mapM (f all)).flatten)
      (do return (← l.mapM f').flatten) :=
  bind (mapM fun a _ => hf a) fun bs => pure fun all => (hz all bs).symm

theorem inBlock (h : Inlines v m m') : Inlines v (fun all => inBlock (m all)) (inBlock m') :=
  bind (modify (fun _ _ => rfl) fun _ => rfl) fun _ => bind h fun _ =>
    bind (modify (fun _ _ => rfl) fun _ => rfl) fun _ => pure fun _ => rfl

theorem inMethod (h : Inlines v m m') : Inlines v (fun all => inMethod (m all)) (inMethod m') :=
  bind get fun _ => bind (modify (fun _ _ => rfl) fun _ => rfl) fun _ => bind h fun _ =>
    bind (modify (fun _ _ => rfl) fun _ => rfl) fun _ => pure fun _ => rfl

end Inlines

namespace Steady

variable {α β : Type} {m : GenM α} {f : α → GenM β}

theorem pure (a : α) : Steady (Pure.pure a : GenM α) := Inlines.pure fun _ => rfl

theorem bind (hm : Steady m) (hf : ∀ a, Steady (f a)) : Steady (m >>= f) := Inlines.bind hm hf

theorem mapM {l : List α} (hf : ∀ a, Steady (f a)) : Steady (l.mapM f) :=
  (Inlines.mapM fun a _ => hf a).congr fun _ bs => (List.map_id' bs).symm

end Steady

variable (x : Context)

theorem steady_isDeclared (name : String) : Steady (isDeclared name) :=
  Inlines.bind .get fun _ => .pure fun _ => rfl

theorem steady_declareName (name : String) : Steady (declareName name) := by
  refine .bind (steady_isDeclared name) fun declared => ?_
  cases declared with
  | true => exact Steady.pure false
  | false =>
    refine Inlines.bind (.modify (fun all s => ?_) fun s => ?_) fun _ => .pure fun _ => rfl
    · have hdeclared : (s.inlined all).declared = s.declared := rfl
      rw [hdeclared]
      cases s.declared <;> rfl
    · cases s.declared <;> rfl

theorem steady_functionField (calls : List FunctionUse) : Steady (functionField x calls) :=
  .modifyGet (fun _ _ => rfl) fun _ => rfl

theorem steady_evaluate (source : String) (calls : List FunctionUse) (typeName : String) :
    Steady (evaluate x source calls typeName) :=
  .bind (steady_functionField x calls) fun _ => .pure _

-- The value of an expression is no array.
theorem inlines_evaluate (source : String) (calls : List FunctionUse) (typeName : String) :
    Inlines Operand.inlined (fun _ => evaluate x source calls typeName)
      (evaluate x source calls typeName) :=
  .bind (steady_functionField x calls) fun _ => .pure fun _ => rfl

theorem steady_addPool (pool : Option String) : Steady (addPool pool) := by
  cases pool with
  | some pool =>
    refine .modify (fun all s => ?_) fun s => ?_
    · change (if s.pools.contains pool then _ else _) = _
      split <;> rfl
    · split <;> rfl
  | none => exact .pure PUnit.unit

theorem steady_freshTemporary : Steady freshTemporary :=
  .modifyGet (fun _ _ => rfl) fun _ => rfl

theorem steady_namedVariable (id : NodeId) : Steady (namedVariable id) :=
  .modifyGet (fun _ _ => rfl) fun _ => rfl

theorem steady_stringValue (a : ResolvedAttribute) : Steady (stringValue x a) := by
  unfold stringValue
  cases a.value with
  | literal v => exact .pure _
  | scripting code => exact .pure _
  | expression source parts dialect => exact steady_evaluate x _ _ _
  | named id => exact .bind (steady_namedVariable id) fun _ => .pure _

theorem steady_stringOf (f : Finding) (name : String) : Steady (stringOf x f name) := by
  unfold stringOf
  cases f.attribute? name with
  | some a => exact steady_stringValue x a
  | none => exact .pure _

theorem steady_propertyValue (a : ResolvedAttribute) : Steady (propertyValue x a) := by
  unfold propertyValue
  split
  · exact .pure _
  · exact steady_evaluate x _ _ _
  · exact steady_stringValue x a

theorem steady_methodParameters (c : AttributeContract) : Steady (methodParameters c) := by
  unfold methodParameters
  split
  · exact .pure _
  · exact .throw _

theorem steady_expressionValue (contract : Option AttributeContract) (parts : Composite)
    (dialect : Dialect) : Steady (expressionValue x contract parts dialect) := by
  refine .bind (steady_functionField x _) fun functions => ?_
  cases contract with
  | none =>
    dsimp only
    split <;> exact .pure _
  | some c =>
    dsimp only
    split
    · exact .bind (steady_methodParameters c) fun _ => .pure _
    · split <;> exact .pure _

theorem steady_literalValue (a : ResolvedAttribute) (value : String) :
    Steady (literalValue a value) := by
  unfold literalValue
  cases a.contract with
  | none => exact .pure _
  | some c =>
    dsimp only
    split
    · exact .bind (steady_methodParameters c) fun _ => .pure _
    · split <;> exact .pure _

end ClassText
end PageCompiler
