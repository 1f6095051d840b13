import PageCompiler.Proofs.Reading.DocumentStages
import PageCompiler.Proofs.Reading.Faults

namespace PageCompiler

open Text

namespace Mark

theorem offset_seek_le (unit : String) (goal : Nat) (text : List Char)
    (line column lineStart offset : Nat) :
    (seek unit goal text line column lineStart offset).offset ≤ offset + byteSize text := by
  induction text generalizing line column lineStart offset with
  | nil => exact Nat.le_add_right ..
  | cons c text ih =>
    unfold seek
    rw [byteSize_cons, ← Nat.add_assoc]
    split
    · dsimp only
      omega
    · split
      · dsimp only
        omega
      · split
        · exact ih ..
        · exact ih ..

-- A byte beyond the end means the end.
theorem liesIn_ofOffset (unit : String) (text : List Char) (goal : Nat) :
    (ofOffset unit text goal).LiesIn unit text := by
  have hle := offset_seek_le unit goal text 1 1 0 0
  exact ⟨unit_ofOffset .., by rwa [Nat.zero_add] at hle⟩

end Mark

namespace Strict

open Builder
open Markup (Event Located Tiles)

variable {o : Options} {loader : Loader} {x : Context} {s s' : State} {mark : Mark}

-- Places of a document.
abbrev Context.Has (x : Context) (mark : Mark) : Prop := mark.LiesIn x.unit x.text

theorem Context.has_markAt (x : Context) (offset : Nat) : x.Has (x.markAt offset) :=
  Mark.liesIn_ofOffset ..

theorem State.Gathers.along {offset : Nat} {rest : List Char} (h : s.Gathers x offset rest)
    (hpending : s.pending ≠ []) :
    Along x.Has (x.markAt s.pendingStart) s.pending.reverse := by
  obtain ⟨skipped, lead, d, -, htext, -, -, hd, hvalues, hstart⟩ := h
  have hread := Letters.size_values_le (Letters.roomy_tidy hd.roomy)
  have hsize := congrArg byteSize htext
  rw [Markup.CharData.source, Letters.source_eq_gap_append] at hsize
  rw [Letters.values_tidy] at hread
  simp only [byteSize_append] at hsize
  have hplace : (x.markAt s.pendingStart).offset = byteSize (lead ++ d.letters.gap) := by
    rw [hstart hpending, Context.markAt, Mark.offset_ofOffset (by rw [byteSize_append]; omega)]
  rw [← hvalues]
  refine along_of_size (x.unit_markAt _) ?_
  rw [hplace, byteSize_append]
  omega

theorem reports_flush {offset : Nat} {rest : List Char} (hs : s.Reaches x offset rest) :
    Reports o loader x.Has (flush x s) := by
  unfold flush
  split
  · exact .pure _
  · rename_i hempty
    have hpending : s.pending ≠ [] := fun hnil => hempty (List.isEmpty_iff.mpr hnil)
    have hverbatim : Reports o loader x.Has (do
        addVerbatim (s.parent x) s.pending.reverse (x.markAt s.pendingStart)
        return { s with pending := [] }) :=
      .bind (reports_addVerbatim _ _ (x.has_markAt _)) fun _ => .pure _
    have htext : (∀ depth, s.content ≠ .verbatim depth) → Reports o loader x.Has (do
        addText (s.parent x) s.pending.reverse (x.markAt s.pendingStart)
        return { s with pending := [] }) := fun hcontent =>
      .bind (reports_addText _
        ((hs.gathers.resolve_left (not_exists.mpr hcontent)).along hpending)) fun _ => .pure _
    cases hcontent : s.content with
    | code | verbatim _ => exact hverbatim
    | text => exact htext (by simp [hcontent])
    | directive =>
      dsimp only
      split
      · exact .pure _
      · exact .bind .get fun _ => .bind (reports_fail _ rfl (x.has_markAt _)) fun _ => .pure _
    | markup =>
      dsimp only
      split
      · exact htext (by simp [hcontent])
      · exact .pure _

variable {marks : Mark → Prop}

theorem reports_readAttributes (inside : List Char) (hmark : marks mark) :
    Reports o loader marks (readAttributes inside mark) := by
  unfold readAttributes
  split
  · exact reports_fail _ rfl hmark
  · exact .pure _

theorem reports_declareOne (d : Declared) (a : Attribute) (hmark : marks mark) :
    Reports o loader marks (declareOne mark d a) := by
  unfold declareOne
  split
  · split
    · exact .pure _
    · exact .pure _
  · split
    · exact .pure _
    · split
      · exact .bind (reports_bindSpace _ _ hmark) fun _ => .pure _
      · refine .bind (reports_bindNamespace _ _ hmark) fun bound => ?_
        split
        · exact .pure _
        · exact .pure _

theorem reports_declare (standard : List String) (attrs : List Attribute) (hmark : marks mark) :
    Reports o loader marks (declare standard attrs mark) :=
  .foldlM (fun d a _ => reports_declareOne d a hmark) _

theorem reports_startStandard (hi : IncludesReports o loader x.includeUnit) (parent : NodeId)
    (name : String) {attrs : List Attribute} (hmark : marks mark)
    (hattrs : ∀ a ∈ attrs, marks a.mark) (hasBody : Bool) :
    Reports o loader marks (startStandard x parent name attrs mark hasBody) := by
  unfold startStandard
  split
  · exact .bind (reports_addDirective hi parent _ hmark hattrs) fun _ => .pure _
  · dsimp only
    split
    · split
      · rename_i a rest
        exact reports_fail _ rfl (hattrs a (List.mem_cons_self ..))
      · exact .bind (reports_addScript _ _ _ hmark) fun _ => .pure _
    · exact .bind (reports_startAction _ _ hmark hattrs _) fun _ => .pure _

theorem reports_startNode (hi : IncludesReports o loader x.includeUnit) (name : String)
    {declared : Declared} (hmark : marks mark)
    (hattrs : ∀ a ∈ declared.kept, marks a.mark) (hasBody : Bool) :
    Reports o loader marks (startNode x s name declared mark hasBody) := by
  have hplain : ∀ a ∈ declared.plain, marks a.mark := fun a ha =>
    hattrs a (List.mem_append_right _ ha)
  unfold startNode
  generalize (cutString? ':' name).getD ("", name) = parts
  obtain ⟨space, inner⟩ := parts
  refine .bind .get fun b => ?_
  dsimp only
  split
  · exact reports_startStandard hi _ _ hmark hplain hasBody
  · split
    · exact .bind (reports_startAction _ _ hmark hplain _) fun _ => .bind .get fun _ => .pure _
    · refine .bind (reports_append ⟨hmark, hattrs⟩ ?_) fun _ => .pure _
      cases hasBody <;> rfl

theorem reports_close (id : NodeId) (content : Content) :
    Reports o loader marks (close id content) := by
  unfold close
  refine .bind .get fun b => ?_
  split
  · exact .pure _
  · exact reports_finishElement id

theorem reports_enterBody (name : String) (hasBody : Bool) (id : NodeId) (content : Content) :
    Reports o loader marks (enterBody s name mark hasBody id content) := by
  unfold enterBody
  split
  · exact .bind (reports_openBody id) fun _ => .pure _
  · exact .bind (reports_close id content) fun _ => .pure _

theorem reports_startElement (hi : IncludesReports o loader x.includeUnit) (inside : List Char)
    (offset : Nat) (hasBody : Bool) :
    Reports o loader x.Has (startElement x s inside offset hasBody) := by
  have hmark := x.has_markAt offset
  rw [startElement_eq]
  refine .bind_ok (reports_readAttributes inside hmark) fun attrs b b' hread => ?_
  refine .bind_ok (reports_declare _ attrs hmark) fun declared b b' hdeclare => ?_
  refine .bind (reports_startNode hi _ hmark (fun a ha => ?_) hasBody) fun found =>
    reports_enterBody _ _ _ _
  rw [((readAttributes_eq_ok hread).2 a (mem_of_declare hdeclare a ha)).1]
  exact hmark

theorem reports_endElement (name : String) (offset : Nat) :
    Reports o loader x.Has (endElement x s name offset) := by
  have hmark := x.has_markAt offset
  unfold endElement
  split
  · split
    · exact .bind (reports_close _ _) fun _ => .pure _
    · exact reports_fail _ rfl hmark
  · exact reports_fail _ rfl hmark

theorem reports_readMarkup (hi : IncludesReports o loader x.includeUnit) (e : Located)
    {offset : Nat} {rest : List Char} (hs : s.Reaches x offset rest) :
    Reports o loader x.Has (readMarkup x s e) := by
  have hmark := x.has_markAt e.start
  unfold readMarkup
  split
  · exact .bind (reports_flush hs) fun _ => reports_startElement hi _ _ _
  · exact .bind (reports_flush hs) fun _ => reports_startElement hi _ _ _
  · exact .bind (reports_flush hs) fun _ => reports_endElement _ _
  · split
    · exact .pure _
    · exact reports_fail _ rfl hmark
  · exact .pure _
  · exact .bind (reports_flush hs) fun _ => .bind (reports_addComment _ _ hmark) fun _ => .pure _
  · exact .pure _

theorem reports_slice {data : UnitRoot} (hx : x.Reads (Page.Loaded o loader) data)
    {start stop : Nat} (hspans : (Markup.read x.text).Spans start stop) :
    Reports o loader x.Has (x.slice start stop) := by
  unfold Context.slice
  split
  · exact .pure _
  · rename_i hnone
    refine fun b hsound hmarks => ⟨fun h => absurd h fail_ne_ok, fun {d b'} h => ?_⟩
    have hfault := fail_eq_error h
    cases h
    have hwithin := Diagnostic.within_place (hmarks _ (x.has_markAt start)) "parse"
      (.splitCharacter start stop)
    refine ⟨hsound, hwithin, fun _ => ⟨data, x.text, start, stop, hx.known, hx.form_eq,
      Markup.starts_marked hspans hnone, hspans, hnone, hfault, ?_⟩⟩
    rw [← hx.unit_eq]
    exact Diagnostic.mark_place ..

theorem reports_readEvent (hi : IncludesReports o loader x.includeUnit) {data : UnitRoot}
    (hx : x.Reads (Page.Loaded o loader) data) {e : Located} (he : e ∈ (Markup.read x.text).events)
    {offset : Nat} {rest : List Char} (hs : s.Reaches x offset rest) :
    Reports o loader x.Has (readEvent x s e) := by
  unfold readEvent
  split
  · refine .bind (reports_slice hx (.inl ⟨e, he, rfl, rfl⟩)) fun _ => ?_
    split
    · exact .pure _
    · exact reports_readMarkup hi e hs
  · exact reports_readMarkup hi e hs

theorem reports_readEnd {data : UnitRoot} (hx : x.Reads (Page.Loaded o loader) data)
    (hbroken : (Markup.read x.text).broken = none) :
    Reports o loader x.Has (readEnd x s (Markup.read x.text).stop) := by
  unfold readEnd
  split
  · exact .discard (reports_slice hx (.inr ⟨hbroken, rfl, rfl⟩))
  · exact .pure _

-- By induction on the events: how far the document has been read is known behind each of them.
theorem reports_foldlM (hi : IncludesReports o loader x.includeUnit) {data : UnitRoot}
    (hx : x.Reads (Page.Loaded o loader) data) {events : List Located}
    (hevents : ∀ e ∈ events, e ∈ (Markup.read x.text).events) {offset : Nat} {rest : List Char}
    (htiles : Tiles offset rest events) (hs : s.Reaches x offset rest) :
    Reports o loader x.Has (events.foldlM (readEvent x) s) := by
  induction htiles generalizing s with
  | nil => exact .pure _
  | @cons offset piece rest e events hstart hstop hpiece htiles ih =>
    rw [List.foldlM_cons]
    obtain ⟨he, hevents⟩ := List.forall_mem_cons.mp hevents
    refine .bind_ok (reports_readEvent hi hx he hs) fun s₁ b b' h => ih hevents ?_
    rw [hstop]
    exact (readEvent_stages hx h he hstart hstop hpiece hs).2

-- The elements that are open have been marked in the document.
def State.Marked (s : State) (x : Context) : Prop := ∀ frame ∈ s.frames, x.Has frame.mark

variable {b b' : Builder}

theorem flush_marked (h : flush x s b = .ok s' b') (hs : s.Marked x) : s'.Marked x := by
  rw [flush_state h]
  exact hs

theorem startElement_marked {inside : List Char} {offset : Nat} {hasBody : Bool}
    (h : startElement x s inside offset hasBody b = .ok s' b') (hs : s.Marked x) :
    s'.Marked x := by
  rw [startElement_eq] at h
  obtain ⟨attrs, b₁, -, h⟩ := BuildM.bind_eq_ok.mp h
  obtain ⟨declared, b₂, -, h⟩ := BuildM.bind_eq_ok.mp h
  obtain ⟨⟨id, content⟩, b₃, -, h⟩ := BuildM.bind_eq_ok.mp h
  dsimp only at h
  unfold enterBody at h
  split at h
  · obtain ⟨_, _, -, h⟩ := BuildM.bind_eq_ok.mp h
    cases h
    exact List.forall_mem_cons.mpr ⟨x.has_markAt offset, hs⟩
  · obtain ⟨_, _, -, h⟩ := BuildM.bind_eq_ok.mp h
    cases h
    exact hs

theorem endElement_marked {name : String} {offset : Nat}
    (h : endElement x s name offset b = .ok s' b') (hs : s.Marked x) : s'.Marked x := by
  unfold endElement at h
  cases hframes : s.frames with
  | nil =>
    rw [hframes] at h
    exact absurd h fail_ne_ok
  | cons frame rest =>
    rw [hframes] at h
    dsimp only at h
    split at h
    · obtain ⟨_, _, -, h⟩ := BuildM.bind_eq_ok.mp h
      cases h
      exact fun f hf => hs f (hframes ▸ List.mem_cons_of_mem _ hf)
    · exact absurd h fail_ne_ok

theorem readMarkup_marked {e : Located} (h : readMarkup x s e b = .ok s' b') (hs : s.Marked x) :
    s'.Marked x := by
  unfold readMarkup at h
  cases hevent : e.event with
  | opening inside | empty inside =>
    rw [hevent] at h
    obtain ⟨s₁, b₁, hflush, h⟩ := BuildM.bind_eq_ok.mp h
    exact startElement_marked h (flush_marked hflush hs)
  | closing name =>
    rw [hevent] at h
    obtain ⟨s₁, b₁, hflush, h⟩ := BuildM.bind_eq_ok.mp h
    exact endElement_marked h (flush_marked hflush hs)
  | text raw =>
    rw [hevent] at h
    cases htext : Markup.unescape? raw with
    | none =>
      simp only [htext] at h
      exact absurd h fail_ne_ok
    | some text =>
      simp only [htext] at h
      cases h
      exact hs
  | comment text =>
    rw [hevent] at h
    obtain ⟨s₁, b₁, hflush, h⟩ := BuildM.bind_eq_ok.mp h
    obtain ⟨_, _, -, h⟩ := BuildM.bind_eq_ok.mp h
    cases h
    exact flush_marked hflush hs
  | cdata text | other =>
    rw [hevent] at h
    cases h
    exact hs

theorem State.Marked.setContent (hs : s.Marked x) (content : Content) :
    (s.setContent content).Marked x := by
  unfold State.setContent
  split
  · rename_i frame rest hframes
    intro f hf
    rcases List.mem_cons.mp hf with rfl | hf
    · exact hs frame (hframes ▸ List.mem_cons_self ..)
    · exact hs f (hframes ▸ List.mem_cons_of_mem _ hf)
  · exact hs

theorem readEvent_marked {e : Located} (h : readEvent x s e b = .ok s' b') (hs : s.Marked x) :
    s'.Marked x := by
  rcases readEvent_eq_ok h with ⟨_, _, _, -, -, -, rfl, -⟩ | ⟨-, h⟩
  · exact hs.setContent _
  · exact readMarkup_marked h hs

theorem foldlM_marked {events : List Located} (h : events.foldlM (readEvent x) s b = .ok s' b')
    (hs : s.Marked x) : s'.Marked x := by
  induction events generalizing s b with
  | nil =>
    cases h
    exact hs
  | cons e events ih =>
    rw [List.foldlM_cons] at h
    obtain ⟨s₁, b₁, hevent, h⟩ := BuildM.bind_eq_ok.mp h
    exact ih h (readEvent_marked hevent hs)

theorem reports_readDocument (hi : IncludesReports o loader x.includeUnit) {data : UnitRoot}
    (hx : x.Reads (Page.Loaded o loader) data) :
    Reports o loader x.Has (readDocument x (Markup.read x.text)) := by
  obtain ⟨skipped, rest, htext, htiles, hskipped⟩ := Markup.tiles_read x.text
  have hat : x.At 0 rest := ⟨skipped, [], hskipped, by simpa using htext, rfl⟩
  have hstart : ({} : State).Reaches x 0 rest := hat.reaches (.inl rfl) rfl
  unfold readDocument
  refine .bind_ok (reports_foldlM hi hx (fun _ he => he) htiles hstart) fun s₁ b b₁ hevents => ?_
  obtain ⟨-, offset, rest', hs₁⟩ := foldlM_stages hx htiles (fun _ he => he) hevents hstart
  split
  · exact reports_fail _ rfl (x.has_markAt _)
  · rename_i hbroken
    refine .bind (reports_readEnd hx hbroken) fun _ => ?_
    refine .bind_ok (reports_flush hs₁) fun s₂ b₁ b₂ hflush => ?_
    have hmarked : s₂.Marked x :=
      flush_marked hflush (foldlM_marked hevents fun _ hframe => nomatch hframe)
    split
    · rename_i frame frames hframes
      exact reports_fail _ rfl (hmarked frame (hframes ▸ List.mem_cons_self ..))
    · exact .pure _

end Strict
end PageCompiler
