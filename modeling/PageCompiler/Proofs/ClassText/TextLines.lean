import PageCompiler.Proofs.ClassText.Making
import PageCompiler.Proofs.ClassText.Outcome
import PageCompiler.Proofs.Source.LineIndex
import Mathlib.Data.List.DropRight

namespace PageCompiler

open Text

namespace Text

variable {s : List Char} {place n : Nat}

theorem mem_newlinesFrom :
    n ∈ newlinesFrom place s ↔
      ∃ before behind, s = before ++ '\n' :: behind ∧ n = place + byteSize before := by
  constructor
  · intro h
    induction s generalizing place with
    | nil => cases h
    | cons c s ih =>
      rw [newlinesFrom] at h
      split at h
      · rename_i hc
        rcases List.mem_cons.mp h with rfl | h
        · exact ⟨[], s, by rw [hc]; rfl, rfl⟩
        · obtain ⟨before, behind, rfl, rfl⟩ := ih h
          refine ⟨c :: before, behind, rfl, ?_⟩
          have hone : c.utf8Size = 1 := by rw [hc]; rfl
          rw [byteSize_cons, hone, Nat.add_assoc]
      · obtain ⟨before, behind, rfl, rfl⟩ := ih h
        exact ⟨c :: before, behind, rfl, by rw [byteSize_cons, Nat.add_assoc]⟩
  · rintro ⟨before, behind, rfl, rfl⟩
    rw [newlinesFrom_append, newlinesFrom, if_pos rfl]
    exact List.mem_append_right _ (List.mem_cons_self ..)

theorem mem_newlines :
    n ∈ newlines s ↔ ∃ before behind, s = before ++ '\n' :: behind ∧ n = byteSize before := by
  rw [newlines, mem_newlinesFrom]
  simp only [Nat.zero_add]

theorem pairwise_newlinesFrom (place : Nat) (s : List Char) :
    (newlinesFrom place s).Pairwise (· < ·) := by
  induction s generalizing place with
  | nil => exact .nil
  | cons c s ih =>
    rw [newlinesFrom]
    split
    · exact List.pairwise_cons.mpr ⟨fun n hn => le_of_mem_newlinesFrom hn, ih _⟩
    · exact ih _

theorem length_newlines (s : List Char) : (newlines s).length = countNewlines s := by
  have hfrom : ∀ offset, (newlinesFrom offset s).length = countNewlines s := by
    induction s with
    | nil => exact fun _ => rfl
    | cons c s ih =>
      intro offset
      unfold newlinesFrom
      split
      · rename_i hc
        simp [hc, countNewlines] at ih ⊢
        exact ih _
      · rename_i hc
        simp [hc, countNewlines] at ih ⊢
        exact ih _
  exact hfrom 0

theorem ends_newline_iff {t : String} : ends "\n" t = true ↔ t.toList.getLast? = some '\n' := by
  have hends : ∀ r : List Char, (stripStart? ['\n'] r).isSome = true ↔ r.head? = some '\n' := by
    intro r
    cases r with
    | nil => simp [stripStart?]
    | cons c r =>
      by_cases hc : c = '\n'
      · simp [stripStart?, hc]
      · simp [stripStart?, hc, Ne.symm hc]
  rw [← List.head?_reverse, ← hends, ends, stripEnd?, Option.isSome_map]
  rfl

-- A text has a front with any number of its line feeds.
theorem exists_front (h : n ≤ countNewlines s) :
    ∃ before behind, s = before ++ behind ∧ countNewlines before = n := by
  induction s using List.reverseRecOn with
  | nil => exact ⟨[], [], rfl, (Nat.le_zero.mp h).symm⟩
  | append_singleton s c ih =>
    by_cases hall : n = countNewlines (s ++ [c])
    · exact ⟨s ++ [c], [], (List.append_nil _).symm, hall.symm⟩
    · have hle : n ≤ countNewlines s := by
        rw [countNewlines_append] at h hall
        have hone : countNewlines [c] ≤ 1 := List.countP_le_length
        omega
      obtain ⟨before, behind, rfl, hcount⟩ := ih hle
      exact ⟨before, behind ++ [c], List.append_assoc .., hcount⟩

end Text

-- The places that a run has noted are those at which its line feeds stand.
def TextRun.Noted (run : TextRun) : Prop := run.lineDeltas = newlines run.text.toList

namespace TextRun

theorem noted_ofText (text : String) : (ofText text).Noted := rfl

theorem noted_trimStart (run : TextRun) : run.trimStart.Noted := by
  rw [Noted, trimStart, String.toList_ofList]

theorem noted_trimEnd (run : TextRun) : run.trimEnd.Noted := rfl

theorem noted_append (run : TextRun) (more : String) : (run.append more).Noted := rfl

end TextRun

inductive Trim where
  | front
  | back
  deriving DecidableEq, Repr

def TextRun.trim (run : TextRun) : Trim → TextRun
  | .front => run.trimStart
  | .back => run.trimEnd

theorem TextRun.noted_trim (run : TextRun) (t : Trim) : (run.trim t).Noted := by
  cases t with
  | front => exact run.noted_trimStart
  | back => exact run.noted_trimEnd

-- A text that is taken apart: what is kept of it, and what is removed at its ends.
structure Kept where
  front : List Char
  text : List Char
  back : List Char
  deriving DecidableEq, Repr

namespace Kept

def whole (k : Kept) : List Char := k.front ++ k.text ++ k.back

def trim (k : Kept) : Trim → Kept
  | .front => ⟨k.front ++ k.text.takeWhile isBlank, k.text.dropWhile isBlank, k.back⟩
  | .back => ⟨k.front, k.text.rdropWhile isBlank, k.text.rtakeWhile isBlank ++ k.back⟩

-- What a run knows of the text that it is made of.
structure IsOf (k : Kept) (run : TextRun) : Prop where
  text_eq : run.text.toList = k.text
  lineDeltas_eq : run.lineDeltas = newlines k.text
  leadingLines_eq : run.leadingLines = countNewlines k.front

theorem whole_trim (k : Kept) (t : Trim) : (k.trim t).whole = k.whole := by
  cases t with
  | front => simp [whole, trim]
  | back =>
    simp only [whole, trim, List.append_assoc]
    rw [← List.append_assoc (k.text.rdropWhile isBlank), List.rdropWhile_append_rtakeWhile]

theorem IsOf.trim {k : Kept} {run : TextRun} (h : k.IsOf run) (t : Trim) :
    (k.trim t).IsOf (run.trim t) := by
  have hnoted := run.noted_trim t
  obtain ⟨htext, -, hlines⟩ := h
  cases t with
  | front =>
    have hkept : (run.trim .front).text.toList = k.text.dropWhile isBlank := by
      rw [TextRun.trim, TextRun.trimStart, String.toList_ofList, htext]
      rfl
    refine ⟨hkept, hnoted.trans (congrArg newlines hkept), ?_⟩
    rw [TextRun.trim, TextRun.trimStart, hlines, htext, ← countNewlines_append]
    rfl
  | back =>
    have hkept : (run.trim .back).text.toList = k.text.rdropWhile isBlank := by
      rw [TextRun.trim, TextRun.trimEnd, trimmedEnd, String.toList_ofList, htext]
      rfl
    exact ⟨hkept, hnoted.trans (congrArg newlines hkept), hlines⟩

theorem IsOf.noted {k : Kept} {run : TextRun} (h : k.IsOf run) : run.Noted := by
  rw [TextRun.Noted, h.lineDeltas_eq, h.text_eq]

-- By induction on the trims.
theorem IsOf.foldl {k : Kept} {run : TextRun} (h : k.IsOf run) (trims : List Trim) :
    (trims.foldl Kept.trim k).whole = k.whole ∧
      (trims.foldl Kept.trim k).IsOf (trims.foldl TextRun.trim run) := by
  induction trims generalizing k run with
  | nil => exact ⟨rfl, h⟩
  | cons t trims ih =>
    obtain ⟨hwhole, hof⟩ := ih (h.trim t)
    exact ⟨hwhole.trans (whole_trim k t), hof⟩

end Kept

namespace ClassText

-- The last character is on the last line, also where it is a line feed.
theorem coveredLines_eq {mark : Mark} {run : TextRun} {init : List Char} {c : Char}
    (hnoted : run.Noted) (h : run.text.toList = init ++ [c]) :
    coveredLines mark run =
      (List.range (countNewlines init + 1)).map (mark.line + run.leadingLines + ·) := by
  have hends : ends "\n" run.text = true ↔ c = '\n' := by
    rw [ends_newline_iff, h, List.getLast?_concat, Option.some.injEq]
  unfold coveredLines
  dsimp only
  rw [hnoted, length_newlines, h, countNewlines_append]
  by_cases hc : c = '\n'
  · rw [if_pos (hends.mpr hc), hc]
    rfl
  · have hnone : countNewlines [c] = 0 := by simp [countNewlines, hc]
    rw [if_neg (mt hends.mp hc), hnone, Nat.add_zero]

-- A line feed belongs to the line that it ends.
theorem mem_coveredLines {mark : Mark} {run : TextRun} (hnoted : run.Noted) (h : run.text ≠ "")
    {n : Nat} : n ∈ coveredLines mark run ↔ ∃ before c behind, run.text.toList = before ++ c :: behind ∧
      n = mark.line + run.leadingLines + countNewlines before := by
  obtain ⟨init, last, hlast⟩ : ∃ init last, run.text.toList = init ++ [last] :=
    ⟨_, _, (List.dropLast_append_getLast (mt String.toList_eq_nil_iff.mp h)).symm⟩
  rw [coveredLines_eq hnoted hlast, List.mem_map]
  constructor
  · rintro ⟨extra, hextra, rfl⟩
    obtain ⟨before, behind, rfl, rfl⟩ :=
      exists_front (Nat.le_of_lt_succ (List.mem_range.mp hextra))
    obtain ⟨c, rest, hrest⟩ := List.exists_cons_of_ne_nil (List.append_ne_nil_of_right_ne_nil behind
      (List.cons_ne_nil last []))
    exact ⟨before, c, rest, by rw [hlast, List.append_assoc, hrest], rfl⟩
  · rintro ⟨before, c, behind, hsplit, rfl⟩
    refine ⟨_, List.mem_range.mpr (Nat.lt_succ_of_le ?_), rfl⟩
    have hinit : init = before ++ (c :: behind).dropLast := by
      rw [← List.dropLast_append_of_ne_nil (List.cons_ne_nil c behind), ← hsplit, hlast,
        List.dropLast_concat]
    rw [hinit, countNewlines_append]
    exact Nat.le_add_right ..

theorem pairwise_coveredLines (mark : Mark) (run : TextRun) :
    (coveredLines mark run).Pairwise (· < ·) :=
  List.pairwise_map.mpr (List.pairwise_lt_range.imp fun hlt => Nat.add_lt_add_left hlt _)

variable {x : Context} {s s' : State}

-- Whatever the text is, it is written by lines that hold no line feed.
theorem even_writeLiteral {text : String} {lines : List Line}
    (h : writeLiteral x text s = .ok (lines, s')) : Even lines := by
  unfold writeLiteral at h
  generalize text.toList = chars at h
  obtain - | ⟨c, - | ⟨d, rest⟩⟩ := chars
  case cons.nil =>
    cases pure_run_eq_ok.mp h
    exact List.forall_mem_singleton.mpr (even_codeOperand.mpr (unbroken_quoteChar _))
  all_goals
    intro line hline
    obtain ⟨chunk, -, s₁, s₂, hrun⟩ := mem_of_mapM_run h hline
    cases hstrategy : x.options.literalStrategy with
    | inline =>
      simp only [hstrategy] at hrun
      cases pure_run_eq_ok.mp hrun
      exact even_codeOperand.mpr (unbroken_quote _)
    | charArrays =>
      simp only [hstrategy] at hrun
      obtain ⟨op, s₃, hop, hrun⟩ := bind_run_eq_ok.mp hrun
      cases pure_run_eq_ok.mp hrun
      rw [(Prod.mk.inj (modifyGet_run_eq_ok.mp hop)).1]
      split <;> exact fun _ h => nomatch h

theorem textCode_empty {run : TextRun} (h : run.text = "") (mark : Mark) :
    textCode x mark run s = .ok ([], s) := by
  unfold textCode
  rw [if_pos (String.isEmpty_iff.mpr h)]
  rfl

-- A text that is not empty is written by a stretch of lines of its own.
theorem textCode_run (x : Context) (mark : Mark) {run : TextRun} (h : run.text ≠ "") (s : State) :
    ∃ lines s', textCode x mark run s = .ok ([⟨lines, mark.unit, coveredLines mark run⟩], s') ∧
      lines ≠ [] ∧ Even lines := by
  obtain ⟨⟨lines, s'⟩, hrun⟩ := (total_writeLiteral x run.text).ok trivial s
  refine ⟨lines, s', ?_, writeLiteral_ne_nil hrun h, even_writeLiteral hrun⟩
  unfold textCode
  rw [if_neg (mt String.isEmpty_iff.mp h)]
  exact bind_run_eq_ok.mpr ⟨lines, s', hrun, rfl⟩

-- The lines of a unit on which a character is kept of a text that starts at a mark.
def KeptLine (mark : Mark) (kept : Kept) (n : Nat) : Prop :=
  ∃ before c behind, kept.text = before ++ c :: behind ∧
    n = mark.line + countNewlines (kept.front ++ before)

theorem mem_coveredLines_kept {mark : Mark} {kept : Kept} {run : TextRun} (h : kept.IsOf run)
    (hne : kept.text ≠ []) {n : Nat} : n ∈ coveredLines mark run ↔ KeptLine mark kept n := by
  have htext : run.text ≠ "" := by
    rw [ne_eq, ← String.toList_eq_nil_iff, h.text_eq]
    exact hne
  rw [mem_coveredLines h.noted htext, h.text_eq, h.leadingLines_eq]
  simp only [KeptLine, countNewlines_append, Nat.add_assoc]

-- However a text is trimmed, the places of the line feeds that are left and the number of those
-- that are removed in front are known. If anything is left, the class has one entry for each line
-- on which a character is kept, and all of them are for the lines that write the text.
theorem textCode_trimmed (text : List Char) (trims : List Trim) :
    let kept := trims.foldl Kept.trim ⟨[], text, []⟩
    let run := trims.foldl TextRun.trim (.ofChars text)
    kept.whole = text ∧ run.text.toList = kept.text ∧ run.leadingLines = countNewlines kept.front ∧
      run.lineDeltas.Pairwise (· < ·) ∧
      (∀ n, n ∈ run.lineDeltas ↔
        ∃ before behind, kept.text = before ++ '\n' :: behind ∧ n = byteSize before) ∧
      (ends "\n" run.text = true → 1 ≤ run.lineDeltas.length) ∧
      (kept.text = [] → ∀ x mark s, textCode x mark run s = .ok ([], s)) ∧
      (kept.text ≠ [] → ∀ x mark s, ∃ lines s',
        textCode x mark run s = .ok ([⟨lines, mark.unit, coveredLines mark run⟩], s') ∧
          lines ≠ [] ∧
          (∀ indent, countNewlines (String.join (renderLines indent lines).1).toList =
            lines.length) ∧
          (∀ start, Code.entriesFrom start [⟨lines, mark.unit, coveredLines mark run⟩] =
            (coveredLines mark run).map fun n =>
              ⟨mark.unit, n, start, start + lines.length - 1⟩) ∧
          (coveredLines mark run).Pairwise (· < ·) ∧
          ∀ n, n ∈ coveredLines mark run ↔ KeptLine mark kept n) := by
  intro kept run
  have hstart : Kept.IsOf ⟨[], text, []⟩ (.ofChars text) :=
    ⟨String.toList_ofList, congrArg newlines String.toList_ofList, rfl⟩
  obtain ⟨hwhole, hof⟩ := hstart.foldl trims
  replace hof : kept.IsOf run := hof
  have hnewlines := hof.lineDeltas_eq
  refine ⟨hwhole.trans (List.append_nil text), hof.text_eq, hof.leadingLines_eq,
    hnewlines ▸ pairwise_newlinesFrom 0 _, fun n => hnewlines ▸ mem_newlines, ?_, ?_, ?_⟩
  · intro hends
    obtain ⟨init, hinit⟩ := List.getLast?_eq_some_iff.mp (ends_newline_iff.mp hends)
    rw [hof.text_eq] at hinit
    rw [hnewlines]
    exact List.length_pos_of_mem (mem_newlines.mpr ⟨init, [], hinit, rfl⟩)
  · intro hempty x mark s
    refine textCode_empty (String.toList_eq_nil_iff.mp ?_) mark
    rw [hof.text_eq, hempty]
  · intro hne x mark s
    have htext : run.text ≠ "" := by rwa [ne_eq, ← String.toList_eq_nil_iff, hof.text_eq]
    obtain ⟨lines, s', hrun, hlines, heven⟩ := textCode_run x mark htext s
    refine ⟨lines, s', hrun, hlines, fun indent => ?_, fun start => ?_, pairwise_coveredLines ..,
      fun n => mem_coveredLines_kept hof hne⟩
    · exact countNewlines_renderLines_eq_iff.mpr heven.unbroken
    · simp [Code.entriesFrom, Stretch.entries, hlines]

-- Two lines and a blank of three bytes are removed in front, and a line feed is kept at the end.
theorem textCode_trimmed_sample :
    let s := "\n\n\u2003é\nb\n".toList
    let run := [Trim.front].foldl TextRun.trim (.ofChars s)
    run.leadingLines = 2 ∧ run.lineDeltas = [2, 4] ∧
      ∃ code s' last, textCode ⟨{}, default⟩ (.start "/main.page") run {} = .ok (code, s') ∧
        7 ≤ last ∧
        code.entriesFrom 7 = [⟨"/main.page", 3, 7, last⟩, ⟨"/main.page", 4, 7, last⟩] := by
  intro s run
  obtain ⟨-, -, hlines, -, -, -, -, hcode⟩ := textCode_trimmed s [.front]
  refine ⟨hlines.trans (by decide +kernel), by decide +kernel, ?_⟩
  obtain ⟨lines, s', hrun, hne, -, hentries, -, -⟩ :=
    hcode (by decide +kernel) ⟨{}, default⟩ (.start "/main.page") {}
  have hcovered : coveredLines (.start "/main.page") run = [3, 4] := by decide +kernel
  have hpos := List.length_pos_iff.mpr hne
  refine ⟨_, s', 7 + lines.length - 1, hrun, by omega, (hentries 7).trans ?_⟩
  rw [hcovered]
  rfl

end ClassText
end PageCompiler
