import PageCompiler.ClassText.Class

namespace PageCompiler.ClassText

-- What stops the generator.
def crossed (signature : String) : Diagnostic :=
  .unplaced "generate" (.crossedParentheses signature)

-- Something comes to an end exactly under a condition, from every state alike.
structure Outcome {α : Type} (P : Prop) (m : GenM α) : Prop where
  ok : P → ∀ s, ∃ r, m s = .ok r
  error : ¬P → ∀ s, ∃ signature, m s = .error (crossed signature)

-- It always comes to an end.
abbrev Total {α : Type} (m : GenM α) : Prop := Outcome True m

namespace Outcome

variable {α β : Type} {P Q : Prop} {m : GenM α} {f : α → GenM β}

theorem congr (h : Outcome P m) (hpq : P ↔ Q) : Outcome Q m :=
  ⟨fun hq => h.ok (hpq.mpr hq), fun hq => h.error (fun hp => hq (hpq.mp hp))⟩

theorem of_ok (h : ∀ s, ∃ r, m s = .ok r) : Total m := ⟨fun _ => h, fun hn => absurd trivial hn⟩

theorem pure (a : α) : Total (Pure.pure a : GenM α) := of_ok fun s => ⟨(a, s), rfl⟩

theorem get : Total (MonadState.get : GenM State) := of_ok fun s => ⟨(s, s), rfl⟩

theorem modifyGet (g : State → α × State) : Total (MonadState.modifyGet g : GenM α) :=
  of_ok fun s => ⟨g s, rfl⟩

theorem of_modify (g : State → State) : Total (modify g : GenM PUnit) :=
  of_ok fun s => ⟨((), g s), rfl⟩

theorem bind (hm : Outcome P m) (hf : ∀ a, Outcome Q (f a)) : Outcome (P ∧ Q) (m >>= f) := by
  have hok : ∀ {s a s'}, m s = .ok (a, s') → (m >>= f) s = f a s' := by
    intro s a s' h
    simp only [Bind.bind, StateT.bind, h]
    rfl
  refine ⟨fun ⟨hp, hq⟩ s => ?_, fun hn s => ?_⟩
  · obtain ⟨⟨a, s'⟩, h⟩ := hm.ok hp s
    obtain ⟨r, hr⟩ := (hf a).ok hq s'
    exact ⟨r, (hok h).trans hr⟩
  · by_cases hp : P
    · obtain ⟨⟨a, s'⟩, h⟩ := hm.ok hp s
      obtain ⟨signature, hr⟩ := (hf a).error (fun hq => hn ⟨hp, hq⟩) s'
      exact ⟨signature, (hok h).trans hr⟩
    · obtain ⟨signature, h⟩ := hm.error hp s
      refine ⟨signature, ?_⟩
      simp only [Bind.bind, StateT.bind, h]
      rfl

-- Behind something that always comes to an end, and in front of it.
theorem after (hm : Total m) (hf : ∀ a, Outcome Q (f a)) : Outcome Q (m >>= f) :=
  (hm.bind hf).congr (by simp)

theorem before (hm : Outcome P m) (hf : ∀ a, Total (f a)) : Outcome P (m >>= f) :=
  (hm.bind hf).congr (by simp)

theorem onlyIf {c : Prop} [Decidable c] {n : GenM α} (hm : Outcome P m) (hn : Total n) :
    Outcome (c → P) (if c then m else n) := by
  split
  · rename_i hc
    exact hm.congr (by simp [hc])
  · rename_i hc
    exact hn.congr (by simp [hc])

theorem mapM {l : List α} {P : α → Prop} {f : α → GenM β}
    (hf : ∀ a ∈ l, Outcome (P a) (f a)) : Outcome (∀ a ∈ l, P a) (l.mapM f) := by
  induction l with
  | nil =>
    rw [List.mapM_nil]
    exact (pure []).congr (by simp)
  | cons a l ih =>
    rw [List.mapM_cons]
    have hrest := ih fun b hb => hf b (List.mem_cons_of_mem _ hb)
    exact ((hf a (List.mem_cons_self ..)).bind fun b => hrest.before fun bs => pure _).congr
      (by simp)

theorem mapM_total {l : List α} {f : α → GenM β} (hf : ∀ a, Total (f a)) : Total (l.mapM f) :=
  (mapM fun a _ => hf a).congr (by simp)

end Outcome

section

variable {α : Type} {P : Prop} {m : GenM α}

theorem Outcome.inBlock (h : Outcome P m) : Outcome P (inBlock m) :=
  .after (.of_modify _) fun _ => .before h fun _ => .after (.of_modify _) fun _ => .pure _

theorem Outcome.inMethod (h : Outcome P m) : Outcome P (inMethod m) :=
  .after .get fun _ => .after (.of_modify _) fun _ => .before h fun _ =>
    .after (.of_modify _) fun _ => .pure _

end

variable (x : Context)

theorem total_isDeclared (name : String) : Total (isDeclared name) :=
  .after .get fun _ => .pure _

theorem total_declareName (name : String) : Total (declareName name) := by
  refine .after (total_isDeclared name) fun declared => ?_
  cases declared with
  | true => exact .pure _
  | false => exact .after (.of_modify _) fun _ => .pure _

theorem total_functionField (calls : List FunctionUse) : Total (functionField x calls) :=
  .modifyGet _

theorem total_evaluate (source : String) (calls : List FunctionUse) (typeName : String) :
    Total (evaluate x source calls typeName) :=
  .after (total_functionField x calls) fun _ => .pure _

theorem total_addPool (pool : Option String) : Total (addPool pool) := by
  cases pool with
  | some pool => exact .of_modify _
  | none => exact .pure _

theorem total_namedVariable (id : NodeId) : Total (namedVariable id) := .modifyGet _

theorem total_stringValue (a : ResolvedAttribute) : Total (stringValue x a) := by
  unfold stringValue
  split
  · exact .pure _
  · exact .pure _
  · exact total_evaluate x _ _ _
  · exact .after (total_namedVariable _) fun _ => .pure _

theorem total_stringOf (f : Finding) (name : String) : Total (stringOf x f name) := by
  unfold stringOf
  split
  · exact total_stringValue x _
  · exact .pure _

theorem total_writeLiteral (text : String) : Total (writeLiteral x text) := by
  unfold writeLiteral
  split
  · exact .pure _
  · refine .mapM_total fun chunk => ?_
    dsimp only
    split
    · exact .pure _
    · exact .after (.modifyGet _) fun _ => .pure _

theorem total_textCode (mark : Mark) (run : TextRun) : Total (textCode x mark run) := by
  unfold textCode
  split
  · exact .pure _
  · exact .after (total_writeLiteral x _) fun _ => .pure _

theorem total_insertCode (mark : Mark) (data : Insert) : Total (insertCode x mark data) := by
  unfold insertCode
  dsimp only
  split
  · exact .after (total_writeLiteral x _) fun _ => .pure _
  · exact .after (total_evaluate x _ _ _) fun _ => .pure _

theorem total_scriptCode (kind : ScriptKind) (id : NodeId) : Total (scriptCode x kind id) := by
  unfold scriptCode
  dsimp only
  split
  · exact .after (.of_modify _) fun _ => .pure _
  · exact .pure _
  · exact .pure _

theorem total_pieceLines (p : Piece) : Total (pieceLines x p) := by
  cases p with
  | literal text => exact total_writeLiteral x text
  | write value => exact .pure _
  | print code => exact .pure _

theorem total_attributePieces (a : ResolvedAttribute) : Total (attributePieces x a) := by
  unfold attributePieces
  with_reducible repeat' first
    | exact .pure _
    | exact total_evaluate x _ _ _
    | refine .after ?_ fun _ => ?_
    | split

theorem total_makeBean (f : Finding) (name typeName : String) :
    Total (makeBean x f name typeName) := by
  unfold makeBean
  split
  · exact .after (total_stringValue x _) fun _ => .pure _
  · exact .pure _
  · exact .pure _

theorem total_propertyValue (a : ResolvedAttribute) : Total (propertyValue x a) := by
  unfold propertyValue
  split
  · exact .pure _
  · exact total_evaluate x _ _ _
  · exact total_stringValue x a

theorem total_getPropertyCode (id : NodeId) : Total (getPropertyCode x id) := .pure _

theorem total_elementAttribute (a : ResolvedAttribute) : Total (elementAttribute x a) := by
  unfold elementAttribute
  refine .after (total_stringValue x a) fun value => ?_
  dsimp only
  split
  · exact .pure _
  · exact .pure _

theorem total_declareVariables (vars : List Variable) : Total (declareVariables vars) := by
  refine .after (.mapM_total fun v => ?_) fun _ => .pure _
  refine .after (total_declareName _) fun declared => ?_
  split
  · exact .pure _
  · exact .pure _

theorem total_syncVariables (vars : List Variable) : Total (syncVariables vars) := by
  refine .after (.mapM_total fun v => ?_) fun _ => .pure _
  refine .after (total_isDeclared _) fun declared => ?_
  split
  · exact .pure _
  · exact .pure _

theorem total_saveVariables (vars : ScopedVariables) (depth : Nat) :
    Total (saveVariables vars depth) := by
  unfold saveVariables
  split
  · exact .pure _
  · refine .after (.mapM_total fun v => ?_) fun _ => .pure _
    refine .after (total_isDeclared _) fun declared => ?_
    split
    · exact .after (total_declareName _) fun _ => .pure _
    · exact .pure _

end PageCompiler.ClassText
