import PageCompiler.Proofs.Reading.Faults

namespace PageCompiler

open Text

namespace Cursor

open Builder

variable {c : Cursor} {unit : String} {text : List Char}

theorem In.size_eq (h : c.In unit text) : c.mark.offset + byteSize c.rest = byteSize text := by
  obtain ⟨front, rfl, hmark⟩ := h
  have hstart : (Mark.start unit).offset = 0 := rfl
  rw [hmark, Mark.advance_offset, byteSize_append, hstart, Nat.zero_add]

theorem In.liesIn (h : c.In unit text) : c.mark.LiesIn unit text := by
  have hsize := h.size_eq
  exact ⟨h.unit_eq, by omega⟩

theorem In.along {s rest : List Char} (h : c.In unit text) (hrest : c.rest = s ++ rest) :
    Along (Mark.LiesIn unit text) c.mark s := by
  have hsize := h.size_eq
  rw [hrest, byteSize_append] at hsize
  exact along_of_size h.unit_eq (by omega)

end Cursor

namespace Relaxed

open Builder Cursor

variable {o : Options} {loader : Loader} {unit : String} {text : List Char} {c : Cursor}
  {mark : Mark} {α : Type}

theorem reports_unexpected (expected : String) (hc : c.In unit text) :
    Reports o loader (Mark.LiesIn unit text) (unexpected expected c : BuildM α) :=
  reports_fail _ rfl hc.liesIn

theorem reports_readQuoted (name : List Char) (hmark : mark.LiesIn unit text)
    (hc : c.In unit text) :
    Reports o loader (Mark.LiesIn unit text) (readQuoted name mark c) := by
  unfold readQuoted
  dsimp only
  split
  · split
    · split
      · exact .pure _
      · split
        · exact .pure _
        · exact reports_fail _ rfl hmark
    · exact reports_unexpected _ hc
  · exact reports_unexpected _ hc

theorem reports_readAttribute (hc : c.In unit text) :
    Reports o loader (Mark.LiesIn unit text) (readAttribute c) := by
  unfold readAttribute
  split
  · exact reports_unexpected _ hc
  · rename_i name behind hname
    have hbehind : behind.skipBlanks.In unit text :=
      (hc.leads (leads_readName? hname).1).leads (leads_skipBlanks behind)
    dsimp only
    split
    · exact reports_unexpected _ hbehind
    · rename_i value hvalue
      exact reports_readQuoted name hc.liesIn
        ((hbehind.leads (leads_accept? hvalue)).leads (leads_skipBlanks value))

theorem reports_readAttributesFrom (ends : List String) (hmark : mark.LiesIn unit text)
    (fuel : Nat) (hc : c.In unit text) :
    Reports o loader (Mark.LiesIn unit text) (readAttributesFrom ends mark fuel c) := by
  induction fuel generalizing c with
  | zero => exact reports_fail _ rfl hmark
  | succ fuel ih =>
    have hskipped := hc.leads (leads_skipBlanks c)
    unfold readAttributesFrom
    dsimp only
    split
    · exact .pure _
    · split
      · exact reports_fail_bind _ rfl hmark _
      · refine .bind_ok (reports_readAttribute hskipped) fun found b b' h => ?_
        exact .bind (ih (hskipped.leads (readAttribute_eq_ok h).2.1)) fun _ => .pure _

theorem reports_readAttributes (ends : List String) (hmark : mark.LiesIn unit text)
    (hc : c.In unit text) :
    Reports o loader (Mark.LiesIn unit text) (readAttributes ends mark c) :=
  reports_readAttributesFrom ends hmark _ hc

-- Attributes with what follows them: they have been found behind the cursor, and so has their end.
theorem reports_readAttributes_bind {ends : List String}
    {f : List Attribute × String × Cursor → BuildM α} (hmark : mark.LiesIn unit text)
    (hc : c.In unit text)
    (hf : ∀ attrs closed behind, (∀ a ∈ attrs, a.mark.LiesIn unit text) → behind.In unit text →
      Reports o loader (Mark.LiesIn unit text) (f (attrs, closed, behind))) :
    Reports o loader (Mark.LiesIn unit text) (readAttributes ends mark c >>= f) := by
  refine .bind_ok (reports_readAttributes ends hmark hc) fun found b b' h => ?_
  obtain ⟨attrs, closed, behind⟩ := found
  obtain ⟨-, hleads, hattrs⟩ := readAttributes_eq_ok h
  refine hf attrs closed behind (fun a ha => ?_) (hc.leads hleads)
  obtain ⟨c₁, -, hc₁, hamark, -⟩ := hattrs a ha
  rw [hamark]
  exact (hc.leads hc₁).liesIn

variable {includeUnit : Includer} {s : State} {parent root : Nat}

theorem reports_rejectScript (construct : String) (hmark : mark.LiesIn unit text) :
    Reports o loader (Mark.LiesIn unit text) (rejectScript s construct mark) := by
  unfold rejectScript
  split
  · exact reports_fail _ rfl hmark
  · exact .pure _

theorem reports_readThrough (delimiter construct : String) (hmark : mark.LiesIn unit text) :
    Reports o loader (Mark.LiesIn unit text) (readThrough delimiter construct mark c) := by
  unfold readThrough
  split
  · exact .pure _
  · exact reports_fail _ rfl hmark

theorem reports_readBody (name : String) (hmark : mark.LiesIn unit text) :
    Reports o loader (Mark.LiesIn unit text) (readBody name mark c) := by
  unfold readBody
  split
  · exact .pure _
  · exact reports_fail _ rfl hmark

theorem reports_readDirectiveName (hmark : mark.LiesIn unit text) :
    Reports o loader (Mark.LiesIn unit text) (readDirectiveName mark c) := by
  unfold readDirectiveName
  split
  · exact .pure _
  · exact reports_fail _ rfl hmark

theorem reports_readAction (name : String) (hmark : mark.LiesIn unit text)
    (hc : c.In unit text) :
    Reports o loader (Mark.LiesIn unit text) (readAction s parent name mark c) := by
  unfold readAction
  refine reports_readAttributes_bind hmark hc fun attrs closed c hattrs hc => ?_
  refine .bind (reports_startAction parent name hmark hattrs .relaxed) fun id => ?_
  dsimp only
  split
  · exact .bind (reports_finishElement id) fun _ => .pure _
  · refine .bind (reports_openBody id) fun _ => .bind .get fun b => ?_
    split
    · refine .bind (reports_readBody name hmark) fun found => ?_
      exact .bind (reports_addVerbatim id found.1 hc.liesIn) fun _ =>
        .bind (reports_finishElement id) fun _ => .pure _
    · exact .pure _

theorem reports_readConstruct (hi : IncludesReports o loader includeUnit) (kind : Construct)
    (hmark : mark.LiesIn unit text) (hc : c.In unit text) :
    Reports o loader (Mark.LiesIn unit text)
      (readConstruct includeUnit s parent kind mark c) := by
  cases kind with
  | comment =>
    simp only [readConstruct]
    exact .bind (reports_readThrough _ _ hmark) fun _ =>
      .bind (reports_addComment _ _ hmark) fun _ => .pure _
  | directive =>
    simp only [readConstruct]
    refine .bind_ok (reports_readDirectiveName hmark) fun found b b' h => ?_
    have hname := (hc.leads (leads_skipBlanks c)).leads (readDirectiveName_eq_ok h).2
    refine reports_readAttributes_bind hmark hname fun attrs _ c hattrs _ => ?_
    exact .bind (.discard (reports_addDirective hi parent _ hmark hattrs)) fun _ => .pure _
  | script kind =>
    simp only [readConstruct]
    refine .bind (reports_rejectScript _ hmark) fun _ => ?_
    refine .bind (reports_readThrough _ _ hmark) fun _ => ?_
    exact .bind (.discard (reports_addScript _ _ _ hmark)) fun _ => .pure _
  | directiveElement =>
    simp only [readConstruct]
    refine .bind_ok (reports_readDirectiveName hmark) fun found b b' h => ?_
    have hname := hc.leads (readDirectiveName_eq_ok h).2
    refine reports_readAttributes_bind hmark hname fun attrs closed c hattrs _ => ?_
    have hadd : ∀ c : Cursor, Reports o loader (Mark.LiesIn unit text) (do
        discard (addDirective includeUnit parent found.1 attrs mark)
        return s.resume c) := fun _ =>
      .bind (.discard (reports_addDirective hi parent _ hmark hattrs)) fun _ => .pure _
    dsimp only
    split
    · split
      · exact .bind (.pure _) hadd
      · exact reports_fail_bind _ rfl hmark _
    · exact .bind (.pure _) hadd
  | scriptElement kind =>
    simp only [readConstruct]
    refine .bind (reports_rejectScript _ hmark) fun _ => ?_
    refine reports_readAttributes_bind hmark hc fun attrs closed c hattrs _ => ?_
    dsimp only
    split
    · rename_i a rest
      exact reports_fail _ rfl (hattrs a (List.mem_cons_self ..))
    · have hadd : ∀ found : List Char × Cursor, Reports o loader (Mark.LiesIn unit text) (do
          discard (addScript parent kind (.inline (String.ofList found.1)) mark)
          return s.resume found.2) := fun _ =>
        .bind (.discard (reports_addScript _ _ _ hmark)) fun _ => .pure _
      split
      · exact .bind (.pure _) hadd
      · exact .bind (reports_readBody _ hmark) hadd
  | textElement =>
    simp only [readConstruct]
    refine reports_readAttributes_bind hmark hc fun attrs closed c hattrs hc => ?_
    refine .bind (reports_startAction parent _ hmark hattrs .relaxed) fun id => ?_
    dsimp only
    split
    · exact .bind (reports_finishElement id) fun _ => .pure _
    · refine .bind (reports_openBody id) fun _ => ?_
      refine .bind_ok (reports_readBody _ hmark) fun found b b' h => ?_
      obtain ⟨-, -, tag, htag, -⟩ := readBody_eq_ok h
      rw [List.append_assoc] at htag
      exact .bind (reports_addText id (hc.along htag)) fun _ =>
        .bind (reports_finishElement id) fun _ => .pure _
  | endTag => exact reports_fail _ rfl hmark
  | action name => exact reports_readAction name hmark hc

-- Text loses space when it is read, so that what is gathered fits into what it was read from.
theorem State.Tracks.along {ls : Letters} (h : s.Tracks unit text c ls) :
    Along (Mark.LiesIn unit text) s.textMark s.text.reverse := by
  have hroomy : ∀ l ∈ ls, l.Roomy := fun l hl => by
    rcases h.written l hl with hliteral | rfl
    · exact .inl hliteral.2
    · exact Letter.roomy_opening
  have hsize := h.start.size_eq
  have hread := Letters.size_values_le hroomy
  rw [h.rest_eq, byteSize_append] at hsize
  rw [← h.values_eq, h.mark_eq]
  exact along_of_size h.start.unit_eq (by omega)

theorem reports_flush {ls : Letters} (h : s.Tracks unit text c ls) (root : NodeId) :
    Reports o loader (Mark.LiesIn unit text) (flush s root) :=
  reports_addText _ h.along

theorem reports_readText (hs : s.cursor.In unit text) :
    Reports o loader (Mark.LiesIn unit text) (readText s) := by
  unfold readText
  refine .bind .get fun b => ?_
  split
  · exact reports_fail _ rfl hs.liesIn
  · exact .pure _

-- An element that is still open at the end is pointed at.
theorem reportsAt_step (hi : IncludesReports o loader includeUnit) {b : Builder}
    (hsound : b.Sound o loader) (hunit : ∀ m, m.LiesIn unit text → b.tree.sources.Covers m)
    {ls : Letters} (hs : s.Tracks unit text c ls)
    (hframes : ∀ frame ∈ s.frames, frame.id < b.tree.size) :
    ReportsAt o loader (step includeUnit root s) b := by
  have hflush : ReportsAt o loader (flush s root) b := reports_flush hs root b hsound hunit
  unfold step
  extract_lets closed? rest
  have hrest : ∀ u, Reports o loader (Mark.LiesIn unit text) (rest u) := by
    refine fun u => .bind .get fun b => ?_
    split
    · rename_i kind behind _
      refine .bind (reports_flush hs root) fun _ => .map _ ?_
      exact reports_readConstruct hi kind hs.cursor.liesIn
        (hs.cursor.leads (leads_moveTo s.cursor behind))
    · exact .map _ (reports_readText hs.cursor)
  clear_value closed?
  split
  · exact hflush.bind_reports hunit fun _ => .bind (reports_finishElement _) fun _ => .pure _
  · split
    · refine hflush.bind fun _ b₁ _ hsound₁ hretains => ?_
      have hunit₁ : ∀ m, m.LiesIn unit text → b₁.tree.sources.Covers m := fun m hm =>
        hretains.covers (hunit m hm)
      split
      · exact Reports.pure none b₁ hsound₁ hunit₁
      · rename_i frame frames hopen
        have hid : frame.id < b₁.tree.size :=
          (hframes frame (by simp [hopen])).trans_le hretains.size_le
        have hmark : b₁.tree.sources.Covers (b₁.tree.mark frame.id) := (hsound₁.node _ hid).1
        refine (Reports.get b₁ hsound₁ hunit₁).bind fun _ b₂ hget hsound₂ _ => ?_
        cases hget
        exact reports_fail_bind _ rfl hmark _ b₁ hsound₁ fun _ h => h
    · exact hrest () b hsound hunit

-- By induction on the steps, which are known to keep to the text and to the elements of the tree.
theorem reportsAt_run {units : Units} {data : UnitRoot} (hi : IncludesReports o loader includeUnit)
    (hstages : IncludesStages units includeUnit) (hknown : units data text)
    (hform : data.form = .relaxed) {fuel : Nat} {b : Builder} (hsound : b.Sound o loader)
    (hunit : ∀ m, m.LiesIn data.unit text → b.tree.sources.Covers m) {ls : Letters}
    (hs : s.Tracks data.unit text c ls) (hopen : s.Open data root b) :
    ReportsAt o loader (run includeUnit root fuel s) b := by
  induction fuel generalizing s b c ls with
  | zero => exact Reports.pure () b hsound hunit
  | succ fuel ih =>
    have hframes : ∀ frame ∈ s.frames, frame.id < b.tree.size := fun frame hframe =>
      (hopen.frames frame hframe hform).1
    unfold run
    refine (reportsAt_step hi hsound hunit hs hframes).bind fun next b₁ hstep hsound₁ hretains => ?_
    have hunit₁ : ∀ m, m.LiesIn data.unit text → b₁.tree.sources.Covers m := fun m hm =>
      hretains.covers (hunit m hm)
    have hnext := ((step_move hstep).stages hstages hform hknown hs hopen).2
    cases next with
    | none => exact Reports.pure () b₁ hsound₁ hunit₁
    | some s' =>
      obtain ⟨hopen', c', ls', hs'⟩ := hnext s' rfl
      exact ih hsound₁ hunit₁ hs' hopen'

theorem reportsAt_read {units : Units} {data : UnitRoot} (hi : IncludesReports o loader includeUnit)
    (hstages : IncludesStages units includeUnit) (hknown : units data text)
    (hform : data.form = .relaxed) {b : Builder} (hsound : b.Sound o loader)
    (hunit : ∀ m, m.LiesIn data.unit text → b.tree.sources.Covers m) (hroot : b.Holds data root) :
    ReportsAt o loader (read includeUnit root data.unit text) b :=
  reportsAt_run hi hstages hknown hform hsound hunit
    (State.tracks_of_nil (in_ofText data.unit text) rfl rfl) ⟨hroot, fun _ hframe => nomatch hframe⟩

end Relaxed
end PageCompiler
