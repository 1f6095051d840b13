import PageCompiler.Expression.Composite
import Mathlib

-- Reading never puts a text that ends in a backslash in front of an expression, so that a delimiter
-- written behind a text stays one; the delimiters inside a text are escaped, and the escapes are
-- taken off again.
namespace PageCompiler

-- A part without the place it stands at.
def Part.unplaced : Part → Part
  | .text value => .text value
  | .expr dialect source tree _ => .expr dialect source tree 0

namespace Composite

open Text

-- Text with a backslash in front of every delimiter, in one pass.
def covered : List Char → List Char
  | [] => []
  | [c] => [c]
  | c :: d :: rest =>
    if (Dialect.ofSign? c).isSome ∧ d = '{' then '\\' :: c :: '{' :: covered rest
    else c :: covered (d :: rest)

theorem replaceAll_pair_hit (a : Char) (put rest : List Char) :
    replaceAll [a, '{'] put (a :: '{' :: rest) = put ++ replaceAll [a, '{'] put rest := by
  simp [replaceAll, replaceFrom, startsWith, stripStart?]

theorem replaceAll_pair_miss {a c : Char} {rest : List Char} (put : List Char)
    (h : c ≠ a ∨ rest.head? ≠ some '{') :
    replaceAll [a, '{'] put (c :: rest) = c :: replaceAll [a, '{'] put rest := by
  have hs : startsWith [a, '{'] (c :: rest) = false := by
    rcases h with h | h
    · simp [startsWith, stripStart?, Ne.symm h]
    · cases rest with
      | nil => simp [startsWith, stripStart?]
      | cons d rest =>
        have hd : '{' ≠ d := fun hd => h (by rw [hd]; rfl)
        simp [startsWith, stripStart?, hd]
  rw [replaceAll, replaceFrom, hs]
  rfl

theorem ofSign?_isSome {c : Char} : (Dialect.ofSign? c).isSome ↔ c = '$' ∨ c = '#' := by
  unfold Dialect.ofSign?
  split_ifs <;> simp_all

-- No brace comes to stand in front that was not there.
theorem head?_replaceAll_dollar {s : List Char}
    (h : (replaceAll ['$', '{'] ['\\', '$', '{'] s).head? = some '{') : s.head? = some '{' := by
  cases s with
  | nil => exact h
  | cons c s =>
    by_cases hc : c = '$' ∧ s.head? = some '{'
    · obtain ⟨rfl, hs⟩ := hc
      obtain ⟨rest, rfl⟩ := List.head?_eq_some_iff.mp hs
      rw [replaceAll_pair_hit] at h
      exact absurd h (by simp)
    · rw [replaceAll_pair_miss _ (by tauto)] at h
      exact h

-- The second pass finds nothing that the first has put there.
theorem replaceAll_twice (s : List Char) :
    replaceAll ['#', '{'] ['\\', '#', '{'] (replaceAll ['$', '{'] ['\\', '$', '{'] s) =
      covered s := by
  fun_induction covered s with
  | case1 => rfl
  | case2 c =>
    rw [replaceAll_pair_miss _ (.inr (by simp)), replaceAll_pair_miss _ (.inr (by decide))]
    rfl
  | case3 c d rest h ih =>
    obtain ⟨hc, rfl⟩ := h
    rcases ofSign?_isSome.mp hc with rfl | rfl
    · rw [replaceAll_pair_hit]
      simp only [List.cons_append, List.nil_append]
      rw [replaceAll_pair_miss _ (.inl (by decide)), replaceAll_pair_miss _ (.inl (by decide)),
        replaceAll_pair_miss _ (.inl (by decide)), ih]
    · rw [replaceAll_pair_miss (a := '$') _ (.inl (by decide)),
        replaceAll_pair_miss (a := '$') _ (.inl (by decide)), replaceAll_pair_hit, ih]
      rfl
  | case4 c d rest h ih =>
    have hd : c = '$' ∨ c = '#' → (d :: rest).head? ≠ some '{' := by
      intro hc hd
      exact h ⟨ofSign?_isSome.mpr hc, Option.some.inj hd⟩
    rw [replaceAll_pair_miss (a := '$') _ (by tauto), replaceAll_pair_miss (a := '#') _ ?_, ih]
    by_cases hc : c = '#'
    · exact .inr fun hb => hd (.inr hc) (head?_replaceAll_dollar hb)
    · exact .inl hc

theorem toList_escape (t : String) : (escape t).toList = covered t.toList := by
  rw [escape]
  simp only [replace, String.toList_ofList]
  exact replaceAll_twice t.toList

theorem delimiter?_eq_some {s rest : List Char} {d : Dialect} :
    delimiter? s = some (d, rest) ↔ s = d.sign :: '{' :: rest := by
  constructor
  · intro h
    unfold delimiter? at h
    split at h
    · rename_i c r
      simp only [Option.map_eq_some_iff, Prod.mk.injEq] at h
      obtain ⟨d', hd, rfl, rfl⟩ := h
      have hc : c = d'.sign := by
        unfold Dialect.ofSign? at hd
        split_ifs at hd with h1 h2 <;> cases hd
        · exact h1
        · exact h2
      rw [hc]
    · cases h
  · rintro rfl
    simp [delimiter?, Dialect.ofSign?_sign]

theorem escaped?_eq_some {s rest : List Char} {d : Dialect} :
    escaped? s = some (d, rest) ↔ s = '\\' :: d.sign :: '{' :: rest := by
  unfold escaped?
  split
  · rw [delimiter?_eq_some]
    simp
  · rename_i h
    simp only [reduceCtorEq, false_iff]
    rintro rfl
    exact h _ rfl

variable {o : ScanOptions} {offset : Nat} {text s rest : List Char} {d : Dialect}

theorem scan_nil : scan o offset text [] = .ok (textPart text) := by rw [scan]

theorem scan_escaped :
    scan o offset text ('\\' :: d.sign :: '{' :: rest) =
      scan o (offset + 3)
        (if o.recognises d then '{' :: d.sign :: text else '{' :: d.sign :: '\\' :: text)
        rest := by
  have he : escaped? ('\\' :: d.sign :: '{' :: rest) = some (d, rest) := escaped?_eq_some.mpr rfl
  rw [scan]
  split
  · rename_i d' rest' he'
    rw [he] at he'
    cases he'
    rfl
  · rename_i hn
    rw [he] at hn
    cases hn

theorem scan_plain {c : Char} (he : escaped? (c :: s) = none) (hd : delimiter? (c :: s) = none) :
    scan o offset text (c :: s) = scan o (offset + c.utf8Size) (c :: text) s := by
  rw [scan]
  split
  · rename_i he'
    rw [he] at he'
    cases he'
  · split
    · rfl
    · rename_i hd'
      rw [hd] at hd'
      cases hd'

theorem scan_delimiter {body : List Char} (hd : o.recognises d)
    (hb : closeBrace none 0 s = some (body, rest)) :
    scan o offset text (d.sign :: '{' :: s) =
      match Expression.parse body with
      | .error reason => .error ⟨String.ofList body, reason, offset⟩
      | .ok tree =>
        (scan o (offset + 3 + Text.byteSize body) [] rest).map fun parts =>
          textPart text ++ .expr d (String.ofList body) tree offset :: parts := by
  have hs : delimiter? (d.sign :: '{' :: s) = some (d, s) := delimiter?_eq_some.mpr rfl
  have he : escaped? (d.sign :: '{' :: s) = none := by cases d <;> rfl
  rw [scan]
  split
  · rename_i he'
    rw [he] at he'
    cases he'
  · split
    · rename_i hn
      rw [hs] at hn
      cases hn
    · rename_i d' s' hs'
      rw [hs] at hs'
      cases hs'
      rw [if_pos hd]
      split
      · rename_i hn
        rw [hb] at hn
        cases hn
      · rename_i body' after hb'
        rw [hb] at hb'
        cases hb'
        cases Expression.parse body with
        | error reason => rfl
        | ok tree => cases scan o (offset + 3 + Text.byteSize body) [] rest <;> rfl

-- A delimiter that is not recognised is plain text.
theorem scan_unrecognised {d : Dialect} (hd : o.recognises d = false) :
    scan o offset text (d.sign :: '{' :: s) =
      scan o (offset + d.sign.utf8Size) (d.sign :: text) ('{' :: s) := by
  have hs : delimiter? (d.sign :: '{' :: s) = some (d, s) := delimiter?_eq_some.mpr rfl
  have he : escaped? (d.sign :: '{' :: s) = none := by cases d <;> rfl
  rw [scan]
  split
  · rename_i he'
    rw [he] at he'
    cases he'
  · split
    · rfl
    · rename_i d' s' hs'
      rw [hs] at hs'
      cases hs'
      rw [if_neg (by rw [hd]; decide)]

-- Where an expression ends depends on nothing behind it.
theorem closeBrace_rest {quote : Option Char} {depth : Nat} {s body rest : List Char}
    (h : closeBrace quote depth s = some (body, rest)) (after : List Char) :
    closeBrace quote depth (body ++ '}' :: after) = some (body, after) := by
  fun_induction closeBrace quote depth s generalizing body rest <;>
    simp_all only [Option.map_eq_some_iff, Prod.exists, Prod.mk.injEq, Option.some.injEq,
      reduceCtorEq]
  all_goals first
    | (obtain ⟨rfl, rfl⟩ := h; rw [closeBrace.eq_def]; simp_all)
    | (obtain ⟨b, r, hb, rfl, rfl⟩ := h; rename_i ih; rw [closeBrace.eq_def]; simp_all [ih hb])

-- The text may stand in front of what follows: no delimiter behind it loses its meaning.
def Precedes (t after : List Char) : Prop :=
  after = [] ∨ ((∃ d rest, after = Dialect.sign d :: '{' :: rest) ∧ t.getLast? ≠ some '\\')

theorem Precedes.tail {c : Char} {t after : List Char} (h : Precedes (c :: t) after) :
    Precedes t after := by
  rcases h with h | ⟨h, hlast⟩
  · exact .inl h
  · refine .inr ⟨h, fun hl => hlast ?_⟩
    cases t with
    | nil => cases hl
    | cons d t => rwa [List.getLast?_cons_cons]

theorem Precedes.head? {t after : List Char} (h : Precedes t after) : after.head? ≠ some '{' := by
  rcases h with rfl | ⟨⟨d, rest, rfl⟩, -⟩
  · simp
  · cases d <;> simp [Dialect.sign]

-- A text begins with a brace only when its covered form does.
theorem head?_covered_append {d : Char} (rest after : List Char) (hd : d ≠ '{') :
    (covered (d :: rest) ++ after).head? ≠ some '{' := by
  cases rest with
  | nil => simpa [covered] using hd
  | cons e rest =>
    rw [covered]
    split <;> simp [hd]

theorem delimiter?_of_head {c : Char} {s : List Char} (h : s.head? ≠ some '{') :
    delimiter? (c :: s) = none := by
  unfold delimiter?
  split
  · simp_all
  · rfl

theorem delimiter?_covered {t after : List Char} (ht : t ≠ []) (h : Precedes t after) :
    delimiter? (covered t ++ after) = none := by
  fun_cases covered t with
  | case1 => exact absurd rfl ht
  | case2 c => exact delimiter?_of_head h.head?
  | case3 c d rest hc =>
    obtain ⟨hc, rfl⟩ := hc
    apply delimiter?_of_head
    rcases ofSign?_isSome.mp hc with rfl | rfl <;> simp
  | case4 c d rest hc =>
    by_cases hd : d = '{'
    · subst hd
      have hn : Dialect.ofSign? c = none := by simpa using hc
      simp only [List.cons_append]
      unfold delimiter?
      split
      · simp_all
      · rfl
    · exact delimiter?_of_head (head?_covered_append rest after hd)

theorem escaped?_of_delimiter? {c : Char} {s : List Char}
    (h : c = '\\' → delimiter? s = none) : escaped? (c :: s) = none := by
  unfold escaped?
  split
  · simp_all
  · rfl

-- The text is read back, and the scanner goes on behind it.
theorem scan_covered {t after : List Char} (h : Precedes t after) (offset : Nat)
    (text : List Char) : ∃ offset',
    scan {} offset text (covered t ++ after) = scan {} offset' (t.reverse ++ text) after := by
  fun_induction covered t generalizing offset text with
  | case1 => exact ⟨offset, rfl⟩
  | case2 c =>
    have he : escaped? (c :: after) = none := by
      apply escaped?_of_delimiter?
      rintro rfl
      rcases h with rfl | ⟨-, hlast⟩
      · rfl
      · exact absurd rfl hlast
    exact ⟨_, scan_plain he (delimiter?_of_head h.head?)⟩
  | case3 c d rest hc ih =>
    obtain ⟨hc, rfl⟩ := hc
    obtain ⟨d, hd⟩ := Option.isSome_iff_exists.mp hc
    obtain rfl : c = d.sign := by
      rcases ofSign?_isSome.mp hc with rfl | rfl <;> cases d <;> first | rfl | cases hd
    have hrec : ScanOptions.recognises {} d := by cases d <;> rfl
    obtain ⟨offset', ih⟩ := ih h.tail.tail (offset + 3) ('{' :: d.sign :: text)
    exact ⟨offset', by simpa [scan_escaped, hrec] using ih⟩
  | case4 c d rest hc ih =>
    have hrest := delimiter?_covered (List.cons_ne_nil d rest) h.tail
    have he : escaped? (c :: (covered (d :: rest) ++ after)) = none :=
      escaped?_of_delimiter? fun _ => hrest
    have hd : delimiter? (c :: (covered (d :: rest) ++ after)) = none := by
      have hall := delimiter?_covered (List.cons_ne_nil c (d :: rest)) h
      rwa [covered, if_neg hc] at hall
    obtain ⟨offset', ih⟩ := ih h.tail (offset + c.utf8Size) (c :: text)
    refine ⟨offset', ?_⟩
    rw [List.cons_append, scan_plain he hd, ih]
    simp

-- What is known of a list of parts: no text is empty, no two texts stand side by side, every text
-- may stand in front of what follows, and every expression is read from its own source.
def Legible : List Part → Prop
  | [] => True
  | .text t :: parts =>
    t ≠ "" ∧ Legible parts ∧
      (parts = [] ∨ (∃ d source tree offset rest, parts = .expr d source tree offset :: rest) ∧
        t.toList.getLast? ≠ some '\\')
  | .expr _ source tree _ :: parts =>
    closeBrace none 0 (source.toList ++ ['}']) = some (source.toList, []) ∧
      Expression.parse source.toList = .ok tree ∧ Legible parts

theorem legible_textPart (text : List Char) : Legible (textPart text) := by
  cases text with
  | nil => trivial
  | cons c text => exact ⟨by simp, trivial, .inl rfl⟩

-- A backslash at the end of the text gathered so far never stands in front of a delimiter: with
-- it, the delimiter would have been read as escaped.
theorem legible_of_scan {o : ScanOptions} {offset : Nat} {text s : List Char}
    {parts : List Part} (h : scan o offset text s = .ok parts)
    (ht : text.head? = some '\\' → delimiter? s = none) : Legible parts := by
  fun_induction scan o offset text s generalizing parts with
  | case1 =>
    cases h
    exact legible_textPart _
  | case2 offset text c cs d rest he _ ih =>
    refine ih (by simpa using h) ?_
    split <;> simp
  | case3 offset text c cs he _ ih =>
    refine ih h fun hc => ?_
    obtain rfl : c = '\\' := Option.some.inj hc
    exact he
  | case4 => cases h
  | case5 => cases h
  | case6 => cases h
  | case7 offset text c cs he d rest hd hrec body after hb _ tree hp parts hscan ih =>
    cases h
    have hexpr : Legible (.expr d (String.ofList body) tree offset :: parts) := by
      refine ⟨?_, by rwa [String.toList_ofList], ih hscan (by simp)⟩
      rw [String.toList_ofList]
      exact closeBrace_rest hb []
    cases text with
    | nil => exact hexpr
    | cons b text =>
      refine ⟨by simp, hexpr, .inr ⟨⟨d, _, tree, offset, parts, rfl⟩, ?_⟩⟩
      intro hlast
      have hb : (b :: text).head? = some '\\' := by simpa using hlast
      rw [ht hb] at hd
      cases hd
  | case8 offset text c cs he d rest hd hrec ih =>
    refine ih h fun hc => ?_
    obtain rfl : c = '\\' := Option.some.inj hc
    exact he

theorem parse_eq_ok {o : ScanOptions} {value : List Char} {c : Composite} :
    parse o value = .ok c ↔ scan o 0 [] value = .ok c.parts := by
  obtain ⟨parts⟩ := c
  unfold parse
  cases scan o 0 [] value <;> simp [Except.map]

theorem legible_of_parse {o : ScanOptions} {value : List Char} {c : Composite}
    (h : parse o value = .ok c) : Legible c.parts :=
  legible_of_scan (parse_eq_ok.mp h) (by simp)

def sourceChars (parts : List Part) : List Char :=
  parts.flatMap fun part => (Part.source part).toList

theorem toList_sourceText (c : Composite) : c.sourceText.toList = sourceChars c.parts := by
  rw [sourceText, String.toList_join, List.flatMap_map, sourceChars]

theorem toList_source_expr (d : Dialect) (source : String) (tree : Expr) (offset : Nat) :
    (Part.source (.expr d source tree offset)).toList =
      d.sign :: '{' :: (source.toList ++ ['}']) := by
  simp [Part.source, Dialect.enclose]

theorem textPart_reverse {t : String} (h : t ≠ "") : textPart t.toList.reverse = [.text t] := by
  obtain ⟨c, cs, hc⟩ : ∃ c cs, t.toList.reverse = c :: cs :=
    List.exists_cons_of_ne_nil (by simpa using h)
  have ht : t = String.ofList (c :: cs).reverse := by simp [← hc]
  rw [hc, textPart, ht]
  simp

-- Scanning the source of parts with some text gathered in front: that text has to be empty unless
-- an expression or nothing comes next.
theorem scan_sourceChars {parts : List Part} (h : Legible parts) (offset : Nat)
    (text : List Char) (ht : text = [] ∨ ∀ t rest, parts ≠ .text t :: rest) :
    ∃ parts', scan {} offset text (sourceChars parts) = .ok parts' ∧
      parts'.map Part.unplaced = (textPart text ++ parts).map Part.unplaced := by
  induction parts generalizing offset text with
  | nil => exact ⟨_, scan_nil, by simp⟩
  | cons part parts ih =>
    cases part with
    | text t =>
      obtain ⟨hne, hparts, hnext⟩ := h
      obtain rfl : text = [] := ht.resolve_right fun hn => hn t parts rfl
      have hprecedes : Precedes t.toList (sourceChars parts) := by
        rcases hnext with rfl | ⟨⟨d, source, tree, off, rest, rfl⟩, hlast⟩
        · exact .inl rfl
        · exact .inr ⟨⟨d, _, by simp [sourceChars, toList_source_expr]; rfl⟩, hlast⟩
      obtain ⟨offset', hscan⟩ := scan_covered hprecedes offset []
      have hexpr : ∀ u rest, parts ≠ .text u :: rest := by
        rcases hnext with rfl | ⟨⟨d, source, tree, off, rest, rfl⟩, -⟩ <;> simp
      obtain ⟨parts', hrest, hsame⟩ := ih hparts offset' (t.toList.reverse ++ []) (.inr hexpr)
      refine ⟨parts', ?_, ?_⟩
      · rw [sourceChars, List.flatMap_cons, Part.source, toList_escape]
        exact hscan.trans hrest
      · rw [hsame, List.append_nil, textPart_reverse hne]
        rfl
    | expr d source tree off =>
      obtain ⟨hclose, hparse, hparts⟩ := h
      have hrec : ScanOptions.recognises {} d := by cases d <;> rfl
      obtain ⟨parts', hrest, hsame⟩ :=
        ih hparts (offset + 3 + Text.byteSize source.toList) [] (.inl rfl)
      refine ⟨textPart text ++ .expr d source tree offset :: parts', ?_, ?_⟩
      · rw [sourceChars, List.flatMap_cons, toList_source_expr]
        simp only [List.cons_append, List.append_assoc, List.nil_append]
        rw [scan_delimiter hrec (closeBrace_rest hclose _), hparse, String.ofList_toList]
        rw [sourceChars] at hrest
        rw [hrest]
        rfl
      · simp only [List.map_append, List.map_cons, hsame, Part.unplaced]
        rfl

theorem exists_parse_of_legible {c : Composite} (h : Legible c.parts) :
    ∃ c', parse {} c.sourceText.toList = .ok c' ∧
      c'.parts.map Part.unplaced = c.parts.map Part.unplaced := by
  obtain ⟨parts, hread, hsame⟩ := scan_sourceChars h 0 [] (.inl rfl)
  refine ⟨⟨parts⟩, ?_, hsame⟩
  rw [parse, toList_sourceText, hread]
  rfl

theorem parse_sourceText (o : ScanOptions) (value : List Char) (c : Composite)
    (h : parse o value = .ok c) :
    ∃ c', parse {} c.sourceText.toList = .ok c' ∧
      c'.parts.map Part.unplaced = c.parts.map Part.unplaced := by
  obtain ⟨parts, hscan, rfl⟩ : ∃ parts, scan o 0 [] value = .ok parts ∧ ⟨parts⟩ = c := by
    unfold parse at h
    cases hs : scan o 0 [] value with
    | error e =>
      rw [hs] at h
      cases h
    | ok parts =>
      rw [hs] at h
      exact ⟨parts, rfl, Except.ok.inj h⟩
  have hlegible := legible_of_scan hscan (by simp)
  obtain ⟨parts', hread, hsame⟩ := scan_sourceChars hlegible 0 [] (.inl rfl)
  refine ⟨⟨parts'⟩, ?_, hsame⟩
  rw [parse, toList_sourceText, hread]
  rfl

-- A deferred expression that is plain text behind a backslash, a sign in front of an expression,
-- and a brace between quotes in it.
theorem parse_sourceText_sample :
    ∃ c c', parse ⟨true, false⟩ "\\#\x7bb\x7d$$\x7bx['\x7d']\x7d".toList = .ok c ∧
      parse {} c.sourceText.toList = .ok c' ∧
      c'.parts.map Part.unplaced = c.parts.map Part.unplaced := by
  have h : parse ⟨true, false⟩ "\\#\x7bb\x7d$$\x7bx['\x7d']\x7d".toList =
      .ok ⟨[.text "\\#\x7bb\x7d$",
        .expr .immediate "x['\x7d']" (.index (.identifier "x") (.text "\x7d")) 6]⟩ := by
    cbv
  obtain ⟨c', hread, hsame⟩ := parse_sourceText ⟨true, false⟩ _ _ h
  exact ⟨_, c', h, hread, hsame⟩

end Composite
end PageCompiler
