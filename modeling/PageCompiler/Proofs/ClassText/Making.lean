import PageCompiler.Proofs.ClassText.Stretches

namespace PageCompiler.ClassText

open Text

variable {x : Context}

-- The parts of a value are on one line.
def Operand.Even (op : Operand) : Prop := ∀ t ∈ op.parts, Unbroken t

theorem even_codeOperand {t : String} : (Operand.code t).Even ↔ Unbroken t := by
  simp [Operand.Even, Operand.parts]

theorem gives_modifyGet {α : Type} {g : State → α × State} {good : α → Prop}
    (hquiet : ∀ s : State, s.Quiet (g s).2) (hgood : ∀ s : State, s.Regular → good (g s).1) :
    Gives x (modifyGet g) good := by
  intro s s' a hs hrun
  obtain ⟨rfl, rfl⟩ := Prod.mk.inj (modifyGet_run_eq_ok.mp hrun)
  exact ⟨hquiet s, fun _ => hgood s hs⟩

theorem gives_functionField (calls : List FunctionUse) :
    Gives x (functionField x calls) fun _ => True := by
  refine gives_modifyGet (fun s => ?_) fun _ _ => trivial
  split
  exact ⟨rfl, rfl, rfl, fun h => ⟨h.temporaries, h.pools⟩⟩

theorem gives_charArray (text : String) : Gives x (charArray text) Operand.Even := by
  refine gives_modifyGet (fun s => ?_) fun s _ => ?_
  · split
    · exact ⟨rfl, rfl, rfl, fun h => h⟩
    · exact ⟨rfl, rfl, rfl, fun h => ⟨h.temporaries, h.pools⟩⟩
  · split <;> exact fun _ h => nomatch h

theorem unbroken_fresh (t : Temporaries) : Unbroken t.fresh.1 :=
  .append (.literal rfl) (unbroken_toString t.next)

theorem gives_freshTemporary : Gives x freshTemporary Unbroken := by
  refine gives_modifyGet (fun s => ?_) fun s _ => unbroken_fresh s.temporaries
  exact ⟨rfl, rfl, rfl, fun h => ⟨h.temporaries, h.pools⟩⟩

theorem mem_of_lookup {α β : Type} [BEq α] [LawfulBEq α] {l : List (α × β)} {a : α} {b : β}
    (h : l.lookup a = some b) : (a, b) ∈ l := by
  obtain ⟨before, behind, rfl, -⟩ := List.lookup_eq_some_iff.mp h
  simp

-- A variable that has been named before is looked up.
theorem gives_namedVariable (id : NodeId) : Gives x (namedVariable id) Unbroken := by
  refine gives_modifyGet (fun s => ?_) fun s hs => ?_
  · unfold Temporaries.ofNamed
    cases s.temporaries.named.lookup id with
    | some name => exact ⟨rfl, rfl, rfl, fun h => ⟨h.temporaries, h.pools⟩⟩
    | none =>
      refine ⟨rfl, rfl, rfl, fun h => ⟨?_, h.pools⟩⟩
      exact List.forall_mem_cons.mpr ⟨unbroken_fresh s.temporaries, h.temporaries⟩
  · unfold Temporaries.ofNamed
    cases hname : s.temporaries.named.lookup id with
    | some name => exact hs.temporaries _ (mem_of_lookup hname)
    | none => exact unbroken_fresh s.temporaries

theorem gives_evaluate {source typeName : String} {calls : List FunctionUse}
    (htype : Unbroken typeName) : Gives x (evaluate x source calls typeName) Operand.Even :=
  .bind (gives_functionField calls) fun _ _ => .pure fun _ => by
    simpa [Operand.Even, Operand.parts] using htype

-- A piece of a tag is on one line.
def Piece.Even : Piece → Prop
  | .literal _ => True
  | .write value => value.Even
  | .print code => Unbroken code

section

variable {id : NodeId} (hid : id ∈ x.tree.preorder) {a : ResolvedAttribute}
  (ha : a ∈ (x.finding id).attributes)
include hid ha

theorem gives_stringValue : Gives x (stringValue x a) Operand.Even := by
  unfold stringValue
  split
  · exact .pure fun _ => even_codeOperand.mpr (unbroken_quote _)
  · rename_i hv
    exact .pure fun htidy => even_codeOperand.mpr <|
      .append (.append (.literal rfl) (htidy.scripting hid ha hv)) (.literal rfl)
  · exact gives_evaluate (.literal rfl)
  · exact .bind (gives_namedVariable _) fun _ hname => .pure fun htidy =>
      even_codeOperand.mpr (hname htidy)

theorem gives_propertyValue : Gives x (propertyValue x a) Operand.Even := by
  unfold propertyValue
  split
  · rename_i hv
    exact .pure fun htidy => even_codeOperand.mpr (htidy.scripting hid ha hv)
  · exact gives_evaluate (.literal rfl)
  · exact gives_stringValue hid ha

-- The pieces of an attribute of a tag.
theorem gives_attributePieces :
    Gives x (attributePieces x a) fun pieces => ∀ p ∈ pieces, p.Even := by
  have hpieces : ∀ value : List Piece, (Tidy x → ∀ p ∈ value, p.Even) →
      Gives x (pure ([Piece.literal (" " ++ a.qualifiedName ++ "=\"")] ++ value ++
        [Piece.literal "\""])) fun pieces => ∀ p ∈ pieces, p.Even := by
    intro value hvalue
    refine .pure fun htidy p hp => ?_
    simp only [List.mem_append, List.mem_singleton] at hp
    rcases hp with (rfl | hp) | rfl
    · exact trivial
    · exact hvalue htidy p hp
    · exact trivial
  unfold attributePieces
  split
  · refine .bind (.pure fun _ => ?_) hpieces
    exact List.forall_mem_singleton.mpr (trivial)
  · rename_i hv
    refine .bind (.pure fun htidy => ?_) hpieces
    exact List.forall_mem_singleton.mpr (htidy.scripting hid ha hv)
  · split
    · refine .bind (gives_evaluate (.literal rfl)) fun op hop => .bind (.pure fun htidy => ?_) hpieces
      exact List.forall_mem_singleton.mpr (hop htidy)
    · refine .bind (.pure fun _ => ?_) hpieces
      exact List.forall_mem_singleton.mpr trivial
  · exact .bind (.pure fun _ => by simp) hpieces

end

theorem gives_stringOf {id : NodeId} (hid : id ∈ x.tree.preorder) (name : String) :
    Gives x (stringOf x (x.finding id) name) Operand.Even := by
  unfold stringOf
  split
  · rename_i a ha
    exact gives_stringValue hid (List.mem_of_find?_eq_some ha)
  · exact .pure fun _ => even_codeOperand.mpr (.literal rfl)

theorem gives_writeLiteral (text : String) : Gives x (writeLiteral x text) Even := by
  unfold writeLiteral
  split
  · exact .pure fun _ => List.forall_mem_singleton.mpr (even_codeOperand.mpr (unbroken_quoteChar _))
  · refine .mapM fun chunk _ => ?_
    dsimp only
    split
    · exact .pure fun _ => even_codeOperand.mpr (unbroken_quote _)
    · exact .bind (gives_charArray _) fun _ hop => .pure hop

theorem chunksFrom_ne_nil {budget bytes : Nat} {chunk text : List Char}
    (h : chunk ≠ [] ∨ text ≠ []) : chunksFrom budget bytes chunk text ≠ [] := by
  fun_induction chunksFrom budget bytes chunk text with
  | case1 => simp at h
  | case2 => simp
  | case3 => simp
  | case4 bytes chunk c cs _ ih => exact ih (.inl (by simp))

-- A text that is not empty is written by at least one line.
theorem writeLiteral_ne_nil {text : String} {s s' : State} {lines : List Line}
    (h : writeLiteral x text s = .ok (lines, s')) (ht : text ≠ "") : lines ≠ [] := by
  have hchars : text.toList ≠ [] := by simpa using ht
  unfold writeLiteral at h
  generalize text.toList = chars at h hchars
  match chars, hchars with
  | [c], _ =>
    cases pure_run_eq_ok.mp h
    simp
  | c :: d :: chars, _ =>
    rw [← List.length_pos_iff, length_mapM_run h, List.length_pos_iff]
    exact chunksFrom_ne_nil (.inr (by simp))

section

variable {n id : NodeId} (hid : id ∈ x.tree.preorder)
include hid

theorem makes_textCode {run : TextRun} (hk : x.tree.kind id = .text run) :
    Makes x n (n = id ∧ Speaks x id) [] (textCode x (x.tree.mark id) run) (fun c => c)
      fun _ => True := by
  unfold textCode
  split
  · rename_i hempty
    refine .give [] (by simp) (by simp) ?_ fun _ => trivial
    rintro ⟨-, hspeaks⟩
    simp only [Speaks, hk] at hspeaks
    exact absurd (String.isEmpty_iff.mp hempty) hspeaks.1
  · rename_i hempty
    intro s s' code hs h
    obtain ⟨lines, s₁, hlines, h⟩ := bind_run_eq_ok.mp h
    cases pure_run_eq_ok.mp h
    obtain ⟨hquiet, heven⟩ := gives_writeLiteral run.text s s' lines hs hlines
    have hown : Own x id ⟨lines, (x.tree.mark id).unit, coveredLines (x.tree.mark id) run⟩ :=
      .text hk hlines
    refine ⟨.of_mem (hquiet.regular hs) (hquiet.deferred ▸ List.prefix_refl _) _
      (by simp [hquiet.stretches, or_comm])
      (List.forall_mem_singleton.mpr ⟨.inr ⟨id, hid, hown⟩, heven⟩) ?_, fun _ => trivial⟩
    rintro ⟨rfl, -⟩
    refine ⟨_, List.mem_singleton_self _, hown, ?_, ?_⟩
    · exact writeLiteral_ne_nil hlines fun h => hempty (String.isEmpty_iff.mpr h)
    · simp [firstLine, hk, coveredLines]

omit hid in
theorem insertCode_run_eq_ok {data : Insert} {mark : Mark} {s s' : State} {code : Code}
    (hs : s.Regular) (h : insertCode x mark data s = .ok (code, s')) :
    ∃ lines, code = [.forMark mark lines] ∧ lines ≠ [] ∧ s.Quiet s' ∧ (Tidy x → Even lines) := by
  unfold insertCode at h
  split at h
  · obtain ⟨lines, s₁, hlines, h⟩ := bind_run_eq_ok.mp h
    cases pure_run_eq_ok.mp h
    obtain ⟨hquiet, heven⟩ := gives_writeLiteral _ s s' lines hs hlines
    exact ⟨lines, rfl, writeLiteral_ne_nil hlines (by simp [Dialect.enclose]), hquiet, heven⟩
  · obtain ⟨value, s₁, hvalue, h⟩ := bind_run_eq_ok.mp h
    cases pure_run_eq_ok.mp h
    obtain ⟨hquiet, heven⟩ := gives_evaluate (x := x) (.literal rfl) s s' value hs hvalue
    exact ⟨_, rfl, by simp, hquiet, fun htidy => even_cons.mpr ⟨heven htidy, even_nil⟩⟩

theorem makes_insertCode {data : Insert} (hk : x.tree.kind id = .insert data) :
    Makes x n (n = id) [] (insertCode x (x.tree.mark id) data) (fun c => c) fun _ => True := by
  intro s s' code hs h
  obtain ⟨lines, rfl, hne, hquiet, heven⟩ := insertCode_run_eq_ok hs h
  have hown : Own x id (.forMark (x.tree.mark id) lines) := .insert hk h
  refine ⟨.of_mem (hquiet.regular hs) (hquiet.deferred ▸ List.prefix_refl _) _
    (by simp [hquiet.stretches, or_comm])
    (List.forall_mem_singleton.mpr ⟨.inr ⟨id, hid, hown⟩, heven⟩) ?_, fun _ => trivial⟩
  rintro rfl
  exact ⟨_, List.mem_singleton_self _, hown, hne, by simp [firstLine, hk, Stretch.forMark]⟩

omit hid in
theorem even_scriptStretches {kind : ScriptKind} {mark : Mark} {code : String} :
    ∀ stretch ∈ scriptStretches kind mark code, Even stretch.lines := by
  have hlines : ∀ stretch ∈ codeLines mark code, Even stretch.lines := by
    intro stretch hmem
    obtain ⟨⟨i, line⟩, hline, rfl⟩ := List.mem_map.mp hmem
    have hmem := (List.of_mem_zip hline).2
    exact even_cons.mpr ⟨List.forall_mem_singleton.mpr
      (unbroken_trimmedEnd (unbroken_of_mem_linesOf hmem)), even_nil⟩
  have hprint : ∀ stretch ∈ printCode mark code, Even stretch.lines := by
    intro stretch hmem
    unfold printCode at hmem
    dsimp only at hmem
    split at hmem
    · obtain rfl := List.mem_singleton.mp hmem
      refine even_append.mpr ⟨even_append.mpr ⟨?_, ?_⟩, ?_⟩
      · exact even_code.mpr ⟨.literal rfl, even_nil⟩
      · intro line hline
        obtain ⟨t, ht, rfl⟩ := List.mem_map.mp hline
        exact List.forall_mem_singleton.mpr (unbroken_trimmedEnd (unbroken_of_mem_linesOf ht))
      · exact even_code.mpr ⟨.literal rfl, even_nil⟩
    · rename_i hcontains
      obtain rfl := List.mem_singleton.mp hmem
      refine even_cons.mpr ⟨List.forall_mem_singleton.mpr ?_, even_nil⟩
      exact unbroken_of_contains (by simpa using hcontains)
  cases kind with
  | expression => exact hprint
  | declaration | scriptlet => exact hlines

omit hid in
-- The first line of code that is not blank has a line.
theorem exists_scriptStretch {k : ScriptKind} {mark : Mark} {code : String}
    (h : blank code = false) :
    ∃ stretch ∈ scriptStretches k mark code, stretch.lines ≠ [] ∧ mark.line ∈ stretch.sources := by
  have hlines : ∃ stretch ∈ codeLines mark code, stretch.lines ≠ [] ∧
      mark.line ∈ stretch.sources := by
    have hne : linesOf code ≠ [] := linesOf_ne_nil fun hempty => by simp [hempty, blank, allBlank] at h
    unfold codeLines
    dsimp only
    cases hcode : linesOf code with
    | nil => exact absurd hcode hne
    | cons first rest => simp [List.range_succ_eq_map]
  have hprint : ∃ stretch ∈ printCode mark code, stretch.lines ≠ [] ∧ mark.line ∈ stretch.sources := by
    unfold printCode
    dsimp only
    split <;> simp [Stretch.forMark]
  cases k with
  | expression => exact hprint
  | declaration | scriptlet => exact hlines

theorem makes_scriptCode {kind : ScriptKind} {script : Script}
    (hk : x.tree.kind id = .script kind script) :
    Makes x n (n = id ∧ Speaks x id) [] (scriptCode x kind id) (fun c => c) fun _ => True := by
  have hown : ∀ stretch ∈ scriptStretches kind (x.tree.mark id) (x.tree.scriptText id),
      Owned x stretch := fun stretch hmem =>
    ⟨.inr ⟨id, hid, .script hk hmem⟩, fun _ => even_scriptStretches stretch hmem⟩
  have hpresent : n = id ∧ Speaks x id →
      Presents x n (scriptStretches kind (x.tree.mark id) (x.tree.scriptText id)) := by
    rintro ⟨rfl, hspeaks⟩
    simp only [Speaks, hk] at hspeaks
    obtain ⟨stretch, hmem, hne, hsource⟩ := exists_scriptStretch (k := kind) hspeaks
    exact ⟨stretch, hmem, .script hk hmem, hne, by simpa [firstLine, hk] using hsource⟩
  unfold scriptCode
  cases kind with
  | declaration =>
    dsimp only [scriptStretches] at hown hpresent ⊢
    generalize codeLines (x.tree.mark id) (x.tree.scriptText id) = own at hown hpresent ⊢
    refine Makes.before (o := fun _ => []) (.modify _ (fun s hs => ⟨hs.temporaries, hs.pools⟩)
      (fun s => rfl) (fun s stretch => ?_) hown hpresent) fun _ _ => ?_
    · simp only [State.stretches, List.mem_append, List.not_mem_nil]
      tauto
    · exact .give [] (by simp) (by simp) False.elim fun _ => trivial
  | expression | scriptlet => exact .give _ (by simp [scriptStretches]) hown hpresent fun _ => trivial

end

theorem even_joinLiterals {pieces : List Piece} (h : ∀ p ∈ pieces, p.Even) :
    ∀ p ∈ joinLiterals pieces, p.Even := by
  fun_induction joinLiterals pieces with
  | case1 => exact h
  | case2 a rest b rest' hjoin ih =>
    rw [hjoin] at ih
    exact List.forall_mem_cons.mpr ⟨trivial, (List.forall_mem_cons.mp
      (ih (List.forall_mem_cons.mp h).2)).2⟩
  | case3 a rest _ ih =>
    exact List.forall_mem_cons.mpr ⟨trivial, ih (List.forall_mem_cons.mp h).2⟩
  | case4 p rest _ ih =>
    obtain ⟨hp, hrest⟩ := List.forall_mem_cons.mp h
    exact List.forall_mem_cons.mpr ⟨hp, ih hrest⟩

theorem gives_pieceLines {p : Piece} (h : Tidy x → p.Even) : Gives x (pieceLines x p) Even := by
  cases p with
  | literal text => exact gives_writeLiteral text
  | write value => exact .pure fun htidy => even_cons.mpr ⟨h htidy, even_nil⟩
  | print code =>
    exact .pure fun htidy => even_cons.mpr ⟨List.forall_mem_singleton.mpr (h htidy), even_nil⟩

end PageCompiler.ClassText
