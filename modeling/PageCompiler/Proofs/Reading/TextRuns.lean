import PageCompiler.Proofs.Expression.SourceText
import PageCompiler.Proofs.Reading.Progress

-- Text is scanned twice: piece by piece while a unit is read, to find its end, and once more as a
-- whole, to find the expressions in it. Both scanners see the same expressions.
namespace PageCompiler

open Text

namespace Composite

-- The expressions of a list of parts, each with what stands between its braces.
def expressions (parts : List Part) : List (Dialect × List Char) :=
  parts.filterMap fun
    | .expr dialect source _ _ => some (dialect, source.toList)
    | .text _ => none

@[simp] theorem expressions_textPart (text : List Char) : expressions (textPart text) = [] := by
  cases text <;> rfl

theorem expressions_append (parts parts' : List Part) :
    expressions (parts ++ parts') = expressions parts ++ expressions parts' :=
  List.filterMap_append ..

end Composite

theorem Expression.parse_ne_unclosed (s : List Char) : parse s ≠ .error .unclosed := by
  unfold parse
  split
  · simp
  · split
    · simp
    · rename_i built rest _
      split
      · cases built <;> simp [Except.mapError]
      · simp

theorem Expression.text_ne_unclosed {reason : Reason} (h : reason ≠ .unclosed) :
    reason.text ≠ Reason.unclosed.text := by
  cases reason with
  | empty => decide
  | form => decide
  | integerTooLarge digits =>
    intro htext
    have hlist := congrArg String.toList htext
    simp [Reason.text] at hlist
  | unclosed => exact absurd rfl h

namespace Relaxed

open Composite Builder Cursor

-- An expression that is taken from the text as a whole: its dialect, and what stands between its
-- braces.
abbrev Slice := Dialect × List Char

-- The expression that the next piece of text consists of, if it is one.
def wholeExpression? (o : ScanOptions) (s : List Char) : Option Slice :=
  if startsWith "<\\%".toList s || (escaped? s).isSome then none
  else do
    let (d, rest) ← (delimiter? s).filter fun d => o.recognises d.1
    let (body, _) ← closeBrace none 0 rest
    return (d, body)

-- The four kinds of pieces: the text, the piece taken from its front, the expression that the
-- piece consists of, and what is left.
inductive Piece (o : ScanOptions) : List Char → List Char → Option Slice → List Char → Prop
  | opening (rest : List Char) : Piece o ('<' :: '\\' :: '%' :: rest) ['<', '%'] none rest
  | escape (d : Dialect) (rest : List Char) :
      Piece o ('\\' :: d.sign :: '{' :: rest) ['\\', d.sign, '{'] none rest
  | expression {d : Dialect} {rest body after : List Char} (hd : o.recognises d)
      (hbody : closeBrace none 0 rest = some (body, after)) :
      Piece o (d.sign :: '{' :: rest) (d.sign :: '{' :: (body ++ ['}'])) (some (d, body)) after
  | plain {c : Char} {rest : List Char} (he : escaped? (c :: rest) = none)
      (hd : ∀ d behind, delimiter? (c :: rest) = some (d, behind) → o.recognises d = false) :
      Piece o (c :: rest) [c] none rest

variable {o : ScanOptions} {s text rest piece : List Char} {slices : List Slice}

theorem piece_of_textPiece {width : Nat} (hs : s ≠ [])
    (h : textPiece o s = some (piece, width)) :
    Piece o s piece (wholeExpression? o s) (s.drop width) := by
  unfold textPiece at h
  unfold wholeExpression?
  by_cases hopening : startsWith "<\\%".toList s
  · obtain ⟨tail, htail⟩ := Option.isSome_iff_exists.mp hopening
    obtain rfl : s = '<' :: '\\' :: '%' :: tail := eq_of_stripStart? htail
    cases h
    exact .opening tail
  · rw [if_neg hopening] at h
    by_cases hescaped : (escaped? s).isSome
    · obtain ⟨⟨d, tail⟩, htail⟩ := Option.isSome_iff_exists.mp hescaped
      obtain rfl := escaped?_eq_some.mp htail
      rw [if_pos hescaped] at h
      cases h
      rw [if_pos (by simp [hescaped])]
      exact .escape d tail
    · rw [if_neg hescaped] at h
      rw [if_neg fun h => (Bool.or_eq_true _ _ ▸ h).elim hopening hescaped]
      cases hfound : (delimiter? s).filter fun d => o.recognises d.1 with
      | some found =>
        obtain ⟨d, tail⟩ := found
        obtain ⟨hdelimiter, hd⟩ := Option.filter_eq_some_iff.mp hfound
        obtain rfl := delimiter?_eq_some.mp hdelimiter
        rw [hfound] at h
        obtain ⟨⟨body, after⟩, hbody, heq⟩ := Option.map_eq_some_iff.mp h
        cases heq
        have hdrop : (d.sign :: '{' :: tail).drop (body.length + 3) = after := by
          rw [closeBrace_append hbody]
          simp
        rw [hdrop]
        simp only [Option.bind_eq_bind, Option.bind_some, hbody]
        exact .expression hd hbody
      | none =>
        rw [hfound] at h
        cases h
        obtain ⟨c, tail, rfl⟩ := List.exists_cons_of_ne_nil hs
        refine .plain (by simpa using hescaped) ?_
        intro d behind hd
        by_contra hrec
        rw [hd] at hfound
        simp [hrec] at hfound

-- Pieces taken from the front of a text one after the other: the text they make up, the
-- expressions among them, and what is left.
inductive Pieces (o : ScanOptions) : List Char → List Char → List Slice → List Char → Prop
  | done (s : List Char) : Pieces o s [] [] s
  | more {s piece behind text rest : List Char} {slice : Option Slice} {slices : List Slice}
      (hpiece : Piece o s piece slice behind) (h : Pieces o behind text slices rest) :
      Pieces o s (piece ++ text) (slice.toList ++ slices) rest

theorem Pieces.snoc {slice : Option Slice} {behind : List Char} (h : Pieces o s text slices rest)
    (hpiece : Piece o rest piece slice behind) :
    Pieces o s (text ++ piece) (slices ++ slice.toList) behind := by
  induction h with
  | done s => simpa using Pieces.more hpiece (.done behind)
  | more hfirst h ih =>
    rw [List.append_assoc, List.append_assoc]
    exact .more hfirst (ih hpiece)

-- A run begins with the character that its text begins with.
theorem Pieces.head {c : Char} {tail : List Char} (h : Pieces o s text slices rest)
    (htext : text = c :: tail) : ∃ behind, s = c :: behind := by
  cases h with
  | done => cases htext
  | more hpiece h =>
    cases hpiece with
    | opening rest =>
      cases htext
      exact ⟨_, rfl⟩
    | escape d rest =>
      cases htext
      exact ⟨_, rfl⟩
    | expression hd hbody =>
      cases htext
      exact ⟨_, rfl⟩
    | plain he hd =>
      cases htext
      exact ⟨_, rfl⟩

-- A delimiter in front of a run stands in its text.
theorem Pieces.delimiter? (h : Pieces o s text slices rest) (hs : Composite.delimiter? s = none) :
    Composite.delimiter? text = none := by
  cases h with
  | done => rfl
  | more hpiece h =>
    cases hpiece with
    | opening rest => rfl
    | escape d rest => exact delimiter?_of_head (by cases d <;> simp [Dialect.sign])
    | @expression d rest body after hd hbody =>
      rw [delimiter?_eq_some.mpr rfl] at hs
      cases hs
    | @plain c behind he hd =>
      refine Option.eq_none_iff_forall_ne_some.mpr fun found hdelimiter => ?_
      obtain ⟨d, tail⟩ := found
      obtain ⟨rfl, htail⟩ := List.cons.inj (delimiter?_eq_some.mp hdelimiter)
      obtain ⟨_, rfl⟩ := h.head htail
      rw [delimiter?_eq_some.mpr rfl] at hs
      cases hs

-- A plain character is as plain in front of its run as it was in the unit.
theorem Pieces.scan_cons {c : Char} (h : Pieces o s text slices rest)
    (he : escaped? (c :: s) = none)
    (hd : ∀ d behind, Composite.delimiter? (c :: s) = some (d, behind) → o.recognises d = false)
    (offset : Nat) (front : List Char) :
    Composite.scan o offset front (c :: text) =
      Composite.scan o (offset + c.utf8Size) (c :: front) text := by
  have hescaped : escaped? (c :: text) = none := by
    apply escaped?_of_delimiter?
    rintro rfl
    exact h.delimiter? he
  cases hdelimiter : Composite.delimiter? (c :: text) with
  | none => exact scan_plain hescaped hdelimiter
  | some found =>
    obtain ⟨d, tail⟩ := found
    obtain ⟨rfl, rfl⟩ := List.cons.inj (delimiter?_eq_some.mp hdelimiter)
    obtain ⟨after, rfl⟩ := h.head rfl
    exact scan_unrecognised (hd d after (delimiter?_eq_some.mpr rfl))

-- An escaped opening of raw code has lost its escape in the run.
theorem scan_opening (offset : Nat) (front : List Char) :
    Composite.scan o offset front ('<' :: '%' :: text) =
      Composite.scan o (offset + 2) ('%' :: '<' :: front) text := by
  have hpercent : Composite.delimiter? ('%' :: text) = none := by
    unfold Composite.delimiter?
    split
    · rename_i heq
      cases heq
      rfl
    · rfl
  rw [scan_plain rfl rfl, scan_plain rfl hpercent]
  rfl

-- What stands between the braces is an expression.
def Slice.IsLegible (slice : Slice) : Prop := ∃ tree, Expression.parse slice.2 = .ok tree

-- What scanning a run comes to: its expressions in order, or the first one that is rejected.
def Agrees (slices : List Slice) : Except ExpressionError (List Part) → Prop
  | .ok parts => expressions parts = slices ∧ ∀ slice ∈ slices, Slice.IsLegible slice
  | .error e => ∃ before d body after, slices = before ++ (d, body) :: after ∧
      (∀ slice ∈ before, Slice.IsLegible slice) ∧
      Expression.parse body = .error e.reason ∧ e.expression = String.ofList body

theorem Agrees.cons {d : Dialect} {body : List Char} {tree : Expr} {offset : Nat}
    {front : List Char} {scanned : Except ExpressionError (List Part)}
    (hbody : Expression.parse body = .ok tree) (h : Agrees slices scanned) :
    Agrees ((d, body) :: slices) (scanned.map fun parts =>
      textPart front ++ .expr d (String.ofList body) tree offset :: parts) := by
  have hfirst : Slice.IsLegible (d, body) := ⟨tree, hbody⟩
  cases scanned with
  | ok parts =>
    obtain ⟨rfl, hall⟩ := h
    refine ⟨?_, List.forall_mem_cons.mpr ⟨hfirst, hall⟩⟩
    rw [expressions_append, expressions_textPart]
    simp [expressions]
  | error e =>
    obtain ⟨before, d', body', after, rfl, hbefore, hfail⟩ := h
    exact ⟨(d, body) :: before, d', body', after, rfl,
      List.forall_mem_cons.mpr ⟨hfirst, hbefore⟩, hfail⟩

-- By induction on the pieces: the scanner takes each of them in the same way.
theorem Pieces.scan (h : Pieces o s text slices rest) (offset : Nat) (front : List Char) :
    Agrees slices (Composite.scan o offset front text) := by
  induction h generalizing offset front with
  | done s =>
    rw [scan_nil]
    exact ⟨expressions_textPart front, by simp⟩
  | @more s piece behind text rest slice slices hpiece h ih =>
    cases hpiece with
    | opening =>
      simp only [List.cons_append, List.nil_append]
      rw [scan_opening]
      exact ih _ _
    | escape d =>
      simp only [List.cons_append, List.nil_append]
      rw [scan_escaped]
      exact ih _ _
    | @expression d tail body _ hd hbody =>
      simp only [List.cons_append, List.append_assoc, List.nil_append, Option.toList_some]
      rw [scan_delimiter hd (closeBrace_rest hbody text)]
      cases hparse : Expression.parse body with
      | error reason => exact ⟨[], d, body, slices, rfl, by simp, hparse, rfl⟩
      | ok tree => exact (ih _ _).cons hparse
    | plain he hd =>
      rw [List.cons_append, List.nil_append, h.scan_cons he hd]
      exact ih _ _

-- Whether the next step takes a piece of text.
def State.takesText (s : State) (bindings : Bindings) : Bool :=
  s.closing?.isNone && !s.cursor.atEnd && (construct? bindings s.cursor.rest).isNone

-- The states that reading a unit comes to, each with the expressions that were taken as a whole
-- since the last construct.
inductive Traced (includeUnit : Includer) (root : NodeId) (unit : String) (text : List Char)
    (b₀ : Builder) : State → Builder → List Slice → Prop
  | start : Traced includeUnit root unit text b₀ (.start (.ofText unit text)) b₀ []
  | step {s s' : State} {b b' : Builder} {slices : List Slice}
      (h : Traced includeUnit root unit text b₀ s b slices)
      (hstep : step includeUnit root s b = .ok (some s') b') :
      Traced includeUnit root unit text b₀ s' b'
        (if s.takesText b.bindings then slices ++ (wholeExpression? b.scan s.cursor.rest).toList
        else [])

variable {includeUnit : Includer} {root : Nat} {b b' : Builder} {st st' : State}

-- A step that takes no text leaves none behind.
theorem text_eq_nil_of_step (h : step includeUnit root st b = .ok (some st') b')
    (htext : st.takesText b.bindings = false) : st'.text = [] := by
  cases step_move h with
  | close hclosing hflush hfinish => rfl
  | construct hclosing hrest hkind hflush hread =>
    exact (readConstruct_effect hread).resumed.text_eq
  | text hclosing hrest hkind hread =>
    simp [State.takesText, hclosing, hkind, Cursor.atEnd, hrest] at htext

-- A step that takes text takes one piece, under options that stay as they are.
theorem piece_of_step (h : step includeUnit root st b = .ok (some st') b')
    (htext : st.takesText b.bindings) :
    b' = b ∧ ∃ piece, st'.text = piece.reverse ++ st.text ∧
      Piece b.scan st.cursor.rest piece (wholeExpression? b.scan st.cursor.rest)
        st'.cursor.rest := by
  cases step_move h with
  | close hclosing hflush hfinish => simp [State.takesText, hclosing] at htext
  | construct hclosing hrest hkind hflush hread => simp [State.takesText, hkind] at htext
  | text hclosing hrest hkind hread =>
    obtain ⟨rfl, piece, width, hpiece, rfl⟩ := readText_eq_ok hread
    exact ⟨rfl, piece, rfl, piece_of_textPiece hrest hpiece⟩

theorem Traced.takeText {unit : String} {text piece : List Char} {b₀ : Builder} {width : Nat}
    {slice : Option Slice} (h : Traced includeUnit root unit text b₀ st b slices)
    (htext : st.takesText b.bindings)
    (hpiece : textPiece b.scan st.cursor.rest = some (piece, width))
    (hslice : wholeExpression? b.scan st.cursor.rest = slice) :
    Traced includeUnit root unit text b₀
      { st with
        cursor := st.cursor.skip width
        text := piece.reverse ++ st.text
        textMark := if st.text.isEmpty then st.cursor.mark else st.textMark }
      b (slices ++ slice.toList) := by
  have htaken := htext
  simp only [State.takesText, Bool.and_eq_true, Option.isNone_iff_eq_none,
    Bool.not_eq_true'] at htext
  obtain ⟨⟨hclosing, hmore⟩, hkind⟩ := htext
  have hread : readText st b = .ok { st with
      cursor := st.cursor.skip width
      text := piece.reverse ++ st.text
      textMark := if st.text.isEmpty then st.cursor.mark else st.textMark } b := by
    refine BuildM.bind_eq_ok.mpr ⟨b, b, rfl, ?_⟩
    rw [hpiece]
    rfl
  have hstep : Relaxed.step includeUnit root st b = .ok (some { st with
      cursor := st.cursor.skip width
      text := piece.reverse ++ st.text
      textMark := if st.text.isEmpty then st.cursor.mark else st.textMark }) b := by
    rw [State.closing?] at hclosing
    unfold Relaxed.step
    dsimp only
    rw [hclosing, if_neg (by rw [hmore]; decide)]
    refine BuildM.bind_eq_ok.mpr ⟨b, b, rfl, ?_⟩
    rw [hkind]
    exact BuildM.map_eq_ok.mpr ⟨_, hread, rfl⟩
  have hnext := h.step hstep
  rwa [if_pos htaken, hslice] at hnext

theorem Traced.pieces {unit : String} {text : List Char} {b₀ : Builder}
    (h : Traced includeUnit root unit text b₀ st b slices) :
    ∃ source, Pieces b.scan source st.text.reverse slices st.cursor.rest := by
  induction h with
  | start => exact ⟨_, .done _⟩
  | @step s s' b b' slices h hstep ih =>
    by_cases htext : s.takesText b.bindings
    · obtain ⟨source, hpieces⟩ := ih
      obtain ⟨rfl, piece, hs', hpiece⟩ := piece_of_step hstep htext
      rw [if_pos htext, hs', List.reverse_append, List.reverse_reverse]
      exact ⟨source, hpieces.snoc hpiece⟩
    · rw [if_neg htext, text_eq_nil_of_step hstep (by simpa using htext)]
      exact ⟨_, .done _⟩

-- In whatever state a unit is read, the text gathered so far is split into the expressions that
-- were taken as a whole, in their order. So the text is turned down only because of what stands
-- between the braces of one of them, and never for want of a brace.
theorem flush_traced (includeUnit : Includer) (root : NodeId) (unit : String) (text : List Char)
    (b₀ : Builder) (s : State) (b : Builder) (slices : List Slice)
    (h : Traced includeUnit root unit text b₀ s b slices) :
    (∀ c, Composite.parse b.scan s.text.reverse = .ok c →
      expressions c.parts = slices ∧ ∀ slice ∈ slices, Slice.IsLegible slice) ∧
    (∀ e, Composite.parse b.scan s.text.reverse = .error e →
      ∃ before d body after, slices = before ++ (d, body) :: after ∧
        (∀ slice ∈ before, Slice.IsLegible slice) ∧
        Expression.parse body = .error e.reason ∧ e.expression = String.ofList body) ∧
    ∀ d b', flush s root b = .error d b' →
      ∃ slice ∈ slices, ∃ reason, Expression.parse slice.2 = .error reason ∧
        d.fault = .invalidExpression (String.ofList slice.2) reason.text ∧
        reason.text ≠ Expression.Reason.unclosed.text := by
  obtain ⟨source, hpieces⟩ := h.pieces
  have hagrees := hpieces.scan 0 []
  unfold Composite.parse
  refine ⟨fun c hc => ?_, fun e he => ?_, fun d b' hd => ?_⟩
  · cases hscan : scan b.scan 0 [] s.text.reverse with
    | ok parts =>
      rw [hscan] at hc hagrees
      cases hc
      exact hagrees
    | error e =>
      rw [hscan] at hc
      cases hc
  · cases hscan : scan b.scan 0 [] s.text.reverse with
    | ok parts =>
      rw [hscan] at he
      cases he
    | error e' =>
      rw [hscan] at he hagrees
      cases he
      exact hagrees
  · rw [flush, addText_eq, Composite.parse] at hd
    cases hscan : scan b.scan 0 [] s.text.reverse with
    | ok parts =>
      rw [hscan] at hd
      cases hd
    | error e =>
      rw [hscan] at hd hagrees
      obtain ⟨before, d', body, after, rfl, -, hreason, hbody⟩ := hagrees
      refine ⟨(d', body), by simp, e.reason, hreason, ?_, ?_⟩
      · rw [fail_eq_error hd, hbody]
      · apply Expression.text_ne_unclosed
        intro hunclosed
        exact Expression.parse_ne_unclosed body (hunclosed ▸ hreason)

-- A unit with an escaped opening of raw code, and an expression with a brace between quotes that
-- is not well formed, as it is read when nothing can be included.
abbrev SampleTraced : State → Builder → List Slice → Prop :=
  Traced (fun _ _ _ mark => fail (.markup "<none>") mark) Tree.root "/main.page"
    "<\\%$\x7b'\x7d' 1\x7d".toList (.ofOptions {} (.ofRoot default "") (.ofLibraries []))

theorem flush_traced_sample :
    ∃ s b d b', SampleTraced s b [(.immediate, "'\x7d' 1".toList)] ∧
      s.text.reverse = "<%$\x7b'\x7d' 1\x7d".toList ∧ flush s Tree.root b = .error d b' ∧
      d.fault = .invalidExpression "'\x7d' 1" "<syntax>" := by
  obtain ⟨s, b, htraced, htext⟩ : ∃ s b, SampleTraced s b [(.immediate, "'\x7d' 1".toList)] ∧
      s.text.reverse = "<%$\x7b'\x7d' 1\x7d".toList := by
    have hstart : SampleTraced _ _ [] := .start
    have hopening := hstart.takeText (by decide +kernel)
      (show textPiece _ _ = some ("<%".toList, 3) by decide +kernel)
      (show wholeExpression? _ _ = none by decide +kernel)
    exact ⟨_, _, hopening.takeText (by decide +kernel)
      (show textPiece _ _ = some ("$\x7b'\x7d' 1\x7d".toList, 8) by decide +kernel)
      (show wholeExpression? _ _ = some (.immediate, "'\x7d' 1".toList) by decide +kernel), rfl⟩
  obtain ⟨hok, -, hflush⟩ := flush_traced _ _ _ _ _ _ _ _ htraced
  have hrejected : Expression.parse "'\x7d' 1".toList = .error .form := by cbv
  cases hrun : flush s Tree.root b with
  | error d b' =>
    obtain ⟨slice, hmem, reason, hreason, hfault, -⟩ := hflush d b' hrun
    obtain rfl : slice = (.immediate, "'\x7d' 1".toList) := by simpa using hmem
    rw [hrejected] at hreason
    cases hreason
    exact ⟨s, b, d, b', htraced, htext, hrun, hfault⟩
  | ok u b' =>
    rw [flush, addText_eq] at hrun
    cases hparse : Composite.parse b.scan s.text.reverse with
    | error e =>
      rw [hparse] at hrun
      exact absurd hrun fail_ne_ok
    | ok c =>
      obtain ⟨tree, htree⟩ := (hok c hparse).2 _ (List.mem_singleton_self _)
      rw [hrejected] at htree
      cases htree

end Relaxed
end PageCompiler
