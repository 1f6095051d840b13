import PageCompiler.Proofs.ClassText.Members

-- A stretch of lines starts behind the lines counted in front of it; the entries of the line map
-- are those of the stretches at their places.
namespace PageCompiler

namespace Text

-- On one line.
def Unbroken (t : String) : Prop := '\n' ∉ t.toList

instance (t : String) : Decidable (Unbroken t) := inferInstanceAs (Decidable ('\n' ∉ t.toList))

theorem countNewlines_eq_zero {t : String} : countNewlines t.toList = 0 ↔ Unbroken t := by
  simp only [countNewlines, Unbroken, List.countP_eq_zero, beq_iff_eq]
  exact ⟨fun h hmem => h _ hmem rfl, fun h c hc heq => h (heq ▸ hc)⟩

theorem countNewlines_join (texts : List String) :
    countNewlines (String.join texts).toList =
      (texts.map fun t => countNewlines t.toList).sum := by
  rw [String.toList_join]
  induction texts with
  | nil => rfl
  | cons t texts ih => rw [List.flatMap_cons, countNewlines_append, ih, List.map_cons, List.sum_cons]

end Text

namespace ClassText

open Text

-- A line ends with a line feed of its own.
theorem countNewlines_render (indent : Nat) (line : Line) :
    countNewlines (line.render indent).toList = countNewlines line.text.toList + 1 := by
  have hindent : ∀ n, countNewlines (String.join (List.replicate n "    ")).toList = 0 := by
    intro n
    rw [countNewlines_join, List.map_replicate, List.sum_replicate]
    rfl
  unfold Line.render
  dsimp only
  split
  · rename_i hempty
    rw [String.isEmpty_iff.mp hempty]
    rfl
  · rw [String.toList_append, String.toList_append, countNewlines_append, countNewlines_append,
      hindent, Nat.zero_add]
    rfl

theorem renderLines_append (indent : Nat) (l l' : List Line) :
    (renderLines indent (l ++ l')).1 =
      (renderLines indent l).1 ++ (renderLines (renderLines indent l).2 l').1 := by
  induction l generalizing indent with
  | nil => rfl
  | cons line l ih => simp only [List.cons_append, renderLines, ih]

theorem renderLines_append_snd (indent : Nat) (l l' : List Line) :
    (renderLines indent (l ++ l')).2 = (renderLines (renderLines indent l).2 l').2 := by
  induction l generalizing indent with
  | nil => rfl
  | cons line l ih => simp only [List.cons_append, renderLines, ih]

-- There are as many line feeds as lines, and those inside of the lines.
theorem countNewlines_renderLines (indent : Nat) (lines : List Line) :
    countNewlines (String.join (renderLines indent lines).1).toList =
      lines.length + (lines.map fun line => countNewlines line.text.toList).sum := by
  rw [countNewlines_join]
  induction lines generalizing indent with
  | nil => rfl
  | cons line lines ih =>
    simp only [renderLines, List.map_cons, List.sum_cons, List.length_cons, ih,
      countNewlines_render]
    omega

theorem length_le_countNewlines (indent : Nat) (lines : List Line) :
    lines.length ≤ countNewlines (String.join (renderLines indent lines).1).toList := by
  rw [countNewlines_renderLines]
  omega

-- Counting lines is right exactly if no line holds a line feed.
theorem countNewlines_renderLines_eq_iff {indent : Nat} {lines : List Line} :
    countNewlines (String.join (renderLines indent lines).1).toList = lines.length ↔
      ∀ line ∈ lines, Unbroken line.text := by
  rw [countNewlines_renderLines, Nat.add_eq_left, List.sum_eq_zero_iff]
  simp [countNewlines_eq_zero]

-- A buffer that lines are written to one after the other, and that counts them, with the line map
-- of what has been written.
structure Writer where
  text : String := ""
  indent : Nat
  line : Nat := 1
  map : LineMap := {}

namespace Writer

def print (w : Writer) (line : Line) : Writer :=
  { w with
    text := w.text ++ line.render w.indent
    indent := line.after w.indent
    line := w.line + 1 }

-- What has been written since a line was generated for a line of a unit.
def record (unit : String) (start : Nat) (w : Writer) (source : Nat) : Writer :=
  { w with map := w.map.add ⟨unit, source, start, w.line - 1⟩ }

def stretch (w : Writer) (s : Stretch) : Writer :=
  s.sources.foldl (record s.unit w.line) (s.lines.foldl print w)

-- What was written on its own is moved down to where it lands.
def splice (w part : Writer) : Writer :=
  { w with
    text := w.text ++ part.text
    line := w.line + countNewlines part.text.toList
    map := w.map.appendShifted part.map (w.line - 1) }

def add (w : Writer) : Section → Writer
  | .own lines => lines.foldl print w
  | .code indent code => w.splice (code.foldl stretch { indent })

theorem foldl_print (w : Writer) (lines : List Line) :
    lines.foldl print w =
      { w with
        text := w.text ++ String.join (renderLines w.indent lines).1
        indent := (renderLines w.indent lines).2
        line := w.line + lines.length } := by
  induction lines generalizing w with
  | nil => simp [renderLines]
  | cons line lines ih =>
    rw [List.foldl_cons, ih]
    simp only [print, renderLines, List.length_cons, String.join_cons, String.append_assoc,
      Writer.mk.injEq, true_and, and_true]
    omega

theorem foldl_record (unit : String) (start : Nat) (w : Writer) (sources : List Nat) :
    sources.foldl (record unit start) w =
      { w with
        map := ⟨w.map.entries ++ if w.line - 1 < start then []
          else sources.map fun source => ⟨unit, source, start, w.line - 1⟩⟩ } := by
  induction sources generalizing w with
  | nil => simp
  | cons source sources ih =>
    rw [List.foldl_cons, ih, record, LineMap.add]
    by_cases hempty : w.line - 1 < start
    · simp [hempty]
    · simp [hempty]

-- The entries of a stretch are recorded where it starts.
theorem stretch_eq (w : Writer) (hline : 0 < w.line) (s : Stretch) :
    w.stretch s =
      { text := w.text ++ String.join (renderLines w.indent s.lines).1
        indent := (renderLines w.indent s.lines).2
        line := w.line + s.lines.length
        map := ⟨w.map.entries ++ s.entries w.line⟩ } := by
  rw [stretch, foldl_record, foldl_print]
  simp only [Writer.mk.injEq, true_and, LineMap.mk.injEq, List.append_cancel_left_eq,
    Stretch.entries]
  cases hlines : s.lines with
  | nil =>
    rw [List.length_nil, if_pos (by omega)]
    rfl
  | cons line lines =>
    rw [List.length_cons, if_neg (by omega)]
    rfl

-- So are those of code.
theorem foldl_stretch (w : Writer) (hline : 0 < w.line) (c : Code) :
    c.foldl stretch w =
      { text := w.text ++ String.join (renderLines w.indent c.lines).1
        indent := (renderLines w.indent c.lines).2
        line := w.line + c.lines.length
        map := ⟨w.map.entries ++ c.entriesFrom w.line⟩ } := by
  induction c generalizing w with
  | nil => simp [renderLines, Code.entriesFrom]
  | cons s c ih =>
    rw [List.foldl_cons, stretch_eq w hline, ih _ (Nat.add_pos_left hline _)]
    simp [renderLines_append, renderLines_append_snd, Code.entriesFrom, String.join_append,
      String.append_assoc, Nat.add_assoc]

theorem shift_entriesFrom (offset : Nat) {start : Nat} (hstart : 0 < start) (c : Code) :
    (c.entriesFrom start).map (LineEntry.shift offset) = c.entriesFrom (start + offset) := by
  induction c generalizing start with
  | nil => rfl
  | cons s c ih =>
    rw [Code.entriesFrom, List.map_append, ih (Nat.add_pos_left hstart _), Code.entriesFrom,
      Nat.add_right_comm]
    congr 1
    unfold Stretch.entries
    split
    · rfl
    · rw [List.map_map]
      refine List.map_congr_left fun source _ => ?_
      simp only [Function.comp_apply, LineEntry.shift, LineEntry.mk.injEq, true_and]
      omega

-- Code that is written on its own lands behind what has been written.
theorem splice_stretches (w : Writer) (hline : 0 < w.line) (indent : Nat) (c : Code) :
    w.splice (c.foldl stretch { indent }) =
      { w with
        text := w.text ++ c.render indent
        line := w.line + countNewlines (c.render indent).toList
        map := ⟨w.map.entries ++ c.entriesFrom w.line⟩ } := by
  have hshift : 1 + (w.line - 1) = w.line := by omega
  rw [foldl_stretch _ Nat.one_pos, splice, LineMap.appendShifted, List.nil_append,
    shift_entriesFrom _ Nat.one_pos, hshift, String.empty_append]
  rfl

theorem foldl_add (w : Writer) (hline : 0 < w.line) (parts : List Section) :
    (parts.foldl add w).text = w.text ++ String.join (assembleFrom w.indent w.line parts).1 ∧
      (parts.foldl add w).map.entries =
        w.map.entries ++ (assembleFrom w.indent w.line parts).2 := by
  induction parts generalizing w with
  | nil => simp [assembleFrom]
  | cons part parts ih =>
    rw [List.foldl_cons]
    cases part with
    | own lines =>
      rw [add, foldl_print]
      obtain ⟨htext, hentries⟩ := ih { w with
        text := w.text ++ String.join (renderLines w.indent lines).1
        indent := (renderLines w.indent lines).2
        line := w.line + lines.length } (Nat.add_pos_left hline _)
      exact ⟨htext.trans (by simp [assembleFrom, String.join_append, String.append_assoc]), hentries⟩
    | code indent code =>
      rw [add, splice_stretches w hline]
      obtain ⟨htext, hentries⟩ := ih { w with
        text := w.text ++ code.render indent
        line := w.line + countNewlines (code.render indent).toList
        map := ⟨w.map.entries ++ code.entriesFrom w.line⟩ } (Nat.add_pos_left hline _)
      exact ⟨htext.trans (by simp [assembleFrom, String.append_assoc]),
        hentries.trans (by simp [assembleFrom])⟩

end Writer

-- The text of a class and its line map are what a buffer holds in the end whose lines are counted
-- one by one.
theorem assemble_eq_written (parts : List Section) :
    assemble parts = ((parts.foldl Writer.add { indent := 0 }).text,
      (parts.foldl Writer.add { indent := 0 }).map) := by
  obtain ⟨htext, hentries⟩ := Writer.foldl_add { indent := 0 } Nat.one_pos parts
  rw [assemble, htext, String.empty_append]
  exact congrArg _ (congrArg LineMap.mk hentries.symm)

-- Stretches with the lines at which they start, the first one at the given line.
def Code.placed : Nat → Code → List (Nat × Stretch)
  | _, [] => []
  | start, s :: rest => (start, s) :: placed (start + s.lines.length) rest

def placedFrom : Nat → List Section → List (Nat × Stretch)
  | _, [] => []
  | line, .own lines :: rest => placedFrom (line + lines.length) rest
  | line, .code inner code :: rest =>
    code.placed line ++ placedFrom (line + countNewlines (code.render inner).toList) rest

def Section.stretches : Section → List Stretch
  | .own _ => []
  | .code _ inside => inside

theorem Code.entriesFrom_eq (start : Nat) (c : Code) :
    c.entriesFrom start = (c.placed start).flatMap fun place => place.2.entries place.1 := by
  induction c generalizing start with
  | nil => rfl
  | cons s c ih => rw [entriesFrom, placed, List.flatMap_cons, ih]

theorem entries_assembleFrom (indent line : Nat) (sections : List Section) :
    (assembleFrom indent line sections).2 =
      (placedFrom line sections).flatMap fun place => place.2.entries place.1 := by
  induction sections generalizing indent line with
  | nil => rfl
  | cons part rest ih =>
    cases part with
    | own lines => exact ih _ _
    | code inner code =>
      simp only [assembleFrom, placedFrom, List.flatMap_append, ← Code.entriesFrom_eq, ih]

theorem Code.mem_placed {start : Nat} {c : Code} {place : Nat × Stretch}
    (h : place ∈ c.placed start) :
    place.2 ∈ c ∧ start ≤ place.1 ∧ place.1 + place.2.lines.length ≤ start + c.lines.length := by
  induction c generalizing start with
  | nil => cases h
  | cons s c ih =>
    rw [lines_cons, List.length_append]
    rcases List.mem_cons.mp h with rfl | h
    · exact ⟨List.mem_cons_self .., Nat.le_refl _, by dsimp only; omega⟩
    · obtain ⟨hmem, hstart, hend⟩ := ih h
      exact ⟨List.mem_cons_of_mem _ hmem, by omega, by omega⟩

theorem Code.exists_mem_placed {start : Nat} {c : Code} {s : Stretch} (h : s ∈ c) :
    ∃ line, (line, s) ∈ c.placed start := by
  induction c generalizing start with
  | nil => cases h
  | cons s' c ih =>
    rcases List.mem_cons.mp h with rfl | h
    · exact ⟨start, List.mem_cons_self ..⟩
    · obtain ⟨line, hline⟩ := ih h
      exact ⟨line, List.mem_cons_of_mem _ hline⟩

theorem Code.length_le_render (inner : Nat) (c : Code) :
    c.lines.length ≤ countNewlines (c.render inner).toList :=
  length_le_countNewlines inner c.lines

-- No stretch starts before the end of the one in front of it.
def Behind (a b : Nat × Stretch) : Prop := a.1 + a.2.lines.length ≤ b.1

theorem Code.pairwise_placed (start : Nat) (c : Code) : (c.placed start).Pairwise Behind := by
  induction c generalizing start with
  | nil => exact .nil
  | cons s c ih => exact .cons (fun place h => (mem_placed h).2.1) (ih _)

-- What stands behind is in one of the sections, and inside of their text.
theorem mem_placedFrom {d line : Nat} {sections : List Section} {place : Nat × Stretch}
    (h : place ∈ placedFrom line sections) :
    (∃ part ∈ sections, place.2 ∈ part.stretches) ∧ line ≤ place.1 ∧
      place.1 + place.2.lines.length ≤
        line + countNewlines (String.join (assembleFrom d line sections).1).toList := by
  induction sections generalizing d line with
  | nil => cases h
  | cons part rest ih =>
    cases part with
    | own lines =>
      have hcount := length_le_countNewlines d lines
      obtain ⟨⟨part, hpart, hmem⟩, hstart, hend⟩ := ih (d := (renderLines d lines).2) h
      refine ⟨⟨part, List.mem_cons_of_mem _ hpart, hmem⟩, by omega, ?_⟩
      simp only [assembleFrom, String.join_append, String.toList_append, countNewlines_append]
      omega
    | code inner code =>
      have hcount := code.length_le_render inner
      simp only [assembleFrom, String.join_cons, String.toList_append, countNewlines_append]
      rcases List.mem_append.mp h with h | h
      · obtain ⟨hmem, hstart, hend⟩ := Code.mem_placed h
        exact ⟨⟨_, List.mem_cons_self .., hmem⟩, hstart, by omega⟩
      · obtain ⟨⟨part, hpart, hmem⟩, hstart, hend⟩ := ih (d := d) h
        exact ⟨⟨part, List.mem_cons_of_mem _ hpart, hmem⟩, by omega, by omega⟩

theorem exists_mem_placedFrom {line : Nat} {sections : List Section} {part : Section}
    {s : Stretch} (hpart : part ∈ sections) (h : s ∈ part.stretches) :
    ∃ start, (start, s) ∈ placedFrom line sections := by
  induction sections generalizing line with
  | nil => cases hpart
  | cons first rest ih =>
    rcases List.mem_cons.mp hpart with rfl | hrest
    · cases part with
      | own lines => cases h
      | code inner code =>
        obtain ⟨start, hstart⟩ := Code.exists_mem_placed h
        exact ⟨start, List.mem_append_left _ hstart⟩
    · cases first with
      | own lines => exact ih hrest
      | code inner code =>
        obtain ⟨start, hstart⟩ := ih hrest
        exact ⟨start, List.mem_append_right _ hstart⟩

theorem pairwise_placedFrom (line : Nat) (sections : List Section) :
    (placedFrom line sections).Pairwise Behind := by
  induction sections generalizing line with
  | nil => exact .nil
  | cons part rest ih =>
    cases part with
    | own lines => exact ih _
    | code inner code =>
      refine List.pairwise_append.mpr ⟨code.pairwise_placed line, ih _, fun a ha b hb => ?_⟩
      have hbefore := (Code.mem_placed ha).2.2
      have hbehind := (mem_placedFrom (d := 0) hb).2.1
      have hcount := code.length_le_render inner
      unfold Behind
      omega

-- In front of a stretch stand as many line feeds as its first line has lines before it, provided
-- that no line holds a line feed.
theorem Code.exists_written {start i : Nat} {c : Code} {place : Nat × Stretch}
    (heven : ∀ line ∈ c.lines, Unbroken line.text) (h : place ∈ c.placed start) :
    ∃ before depth behind, c.render i =
      before ++ String.join (renderLines depth place.2.lines).1 ++ behind ∧
      start + countNewlines before.toList = place.1 := by
  induction c generalizing start i with
  | nil => cases h
  | cons s c ih =>
    rw [lines_cons] at heven
    obtain ⟨hs, hc⟩ := List.forall_mem_append.mp heven
    have hrender : Code.render i (s :: c) =
        String.join (renderLines i s.lines).1 ++ Code.render (renderLines i s.lines).2 c := by
      rw [render, lines_cons, renderLines_append, String.join_append]
      rfl
    rcases List.mem_cons.mp h with rfl | h
    · exact ⟨"", i, _, by rw [hrender, String.empty_append], rfl⟩
    · obtain ⟨before, depth, behind, htext, hline⟩ := ih (i := (renderLines i s.lines).2) hc h
      refine ⟨String.join (renderLines i s.lines).1 ++ before, depth, behind, ?_, ?_⟩
      · rw [hrender, htext, String.append_assoc, String.append_assoc, String.append_assoc]
      · rw [String.toList_append, countNewlines_append, countNewlines_renderLines_eq_iff.mpr hs]
        omega

theorem exists_written {d line : Nat} {sections : List Section} {place : Nat × Stretch}
    (heven : ∀ l ∈ sections.flatMap Section.lines, Unbroken l.text)
    (h : place ∈ placedFrom line sections) :
    ∃ before depth behind, String.join (assembleFrom d line sections).1 =
      before ++ String.join (renderLines depth place.2.lines).1 ++ behind ∧
      line + countNewlines before.toList = place.1 := by
  induction sections generalizing d line with
  | nil => cases h
  | cons part rest ih =>
    rw [List.flatMap_cons] at heven
    obtain ⟨hpart, hrest⟩ := List.forall_mem_append.mp heven
    cases part with
    | own lines =>
      obtain ⟨before, depth, behind, htext, hline⟩ :=
        ih (d := (renderLines d lines).2) hrest h
      refine ⟨String.join (renderLines d lines).1 ++ before, depth, behind, ?_, ?_⟩
      · simp only [assembleFrom, String.join_append, htext, String.append_assoc]
      · rw [String.toList_append, countNewlines_append,
          countNewlines_renderLines_eq_iff.mpr (show ∀ l ∈ lines, _ from hpart)]
        omega
    | code inner code =>
      simp only [assembleFrom, String.join_cons]
      rcases List.mem_append.mp h with h | h
      · obtain ⟨before, depth, behind, htext, hline⟩ :=
          Code.exists_written (i := inner) hpart h
        exact ⟨before, depth, behind ++ _, by rw [htext, String.append_assoc], hline⟩
      · obtain ⟨before, depth, behind, htext, hline⟩ := ih (d := d) hrest h
        refine ⟨code.render inner ++ before, depth, behind, ?_, ?_⟩
        · rw [htext, String.append_assoc, String.append_assoc, String.append_assoc]
        · rw [String.toList_append, countNewlines_append]
          omega

-- The sections together have as many line feeds as lines, and those inside of the lines.
theorem countNewlines_assembleFrom (indent line : Nat) (sections : List Section) :
    countNewlines (String.join (assembleFrom indent line sections).1).toList =
      (sections.flatMap Section.lines).length +
        ((sections.flatMap Section.lines).map fun line => countNewlines line.text.toList).sum := by
  induction sections generalizing indent line with
  | nil => rfl
  | cons part rest ih =>
    rw [List.flatMap_cons, List.length_append, List.map_append, List.sum_append]
    cases part with
    | own lines =>
      simp only [assembleFrom, String.join_append, String.toList_append, countNewlines_append, ih,
        countNewlines_renderLines, Section.lines]
      omega
    | code inner code =>
      simp only [assembleFrom, String.join_cons, String.toList_append, countNewlines_append, ih,
        Code.render, countNewlines_renderLines, Section.lines]
      omega

theorem countNewlines_assembleFrom_eq_iff {indent line : Nat} {sections : List Section} :
    countNewlines (String.join (assembleFrom indent line sections).1).toList =
        (sections.flatMap Section.lines).length ↔
      ∀ line ∈ sections.flatMap Section.lines, Unbroken line.text := by
  rw [countNewlines_assembleFrom, Nat.add_eq_left, List.sum_eq_zero_iff, List.forall_mem_map]
  simp only [countNewlines_eq_zero]

theorem Section.lines_subset {part : Section} {s : Stretch} (h : s ∈ part.stretches) :
    s.lines ⊆ part.lines := by
  cases part with
  | own lines => cases h
  | code inner code => exact fun line hline => List.mem_flatMap.mpr ⟨s, h, hline⟩

end ClassText
end PageCompiler
