import PageCompiler.Proofs.Forms.Tags
import PageCompiler.Proofs.Markup.Entities

namespace PageCompiler.Markup

open Text Template
open Cursor (isTagNameChar exists_cons_of_isName exists_concat_of_isName all_of_isName)

-- The search for the end of a tag passes over the text.
def Closed (w : List Char) : Prop :=
  ∀ rest, cutTag? none (w ++ rest) = (cutTag? none rest).map fun cut => (w ++ cut.1, cut.2)

theorem closed_nil : Closed [] := by
  intro rest
  simp

theorem Closed.append {v w : List Char} (hv : Closed v) (hw : Closed w) : Closed (v ++ w) := by
  intro rest
  rw [List.append_assoc, hv, hw, Option.map_map]
  simp [Function.comp_def]

theorem closed_plain {w : List Char} (h : lacks ['>', '\'', '"'] w) : Closed w := by
  induction w with
  | nil => exact closed_nil
  | cons c w ih =>
    intro rest
    have hc := fun {d : Char} => ne_of_lacks (d := d) h (List.mem_cons_self ..)
    have hrest := ih (lacks_cons h) rest
    rw [List.cons_append, cutTag?]
    simp [hc (d := '>') (by decide), hc (d := '\'') (by decide), hc (d := '"') (by decide), hrest,
      Function.comp_def]

theorem cutTag?_quoted {value : List Char} (h : '"' ∉ value) (rest : List Char) :
    cutTag? (some '"') (value ++ '"' :: rest) =
      (cutTag? none rest).map fun cut => (value ++ '"' :: cut.1, cut.2) := by
  induction value with
  | nil => simp [cutTag?]
  | cons c value ih =>
    have hne : c ≠ '"' := by
      rintro rfl
      exact h (List.mem_cons_self ..)
    have hrest := ih fun hm => h (List.mem_cons_of_mem _ hm)
    rw [List.cons_append, cutTag?]
    simp [hne, hrest, Function.comp_def]

theorem closed_quoted {value : List Char} (h : isValue value) :
    Closed ('"' :: (value ++ ['"'])) := by
  intro rest
  have hquote : '"' ∉ value := fun hm => ne_of_lacks h hm (by decide) rfl
  rw [List.cons_append, List.append_assoc, List.singleton_append, cutTag?]
  simp [cutTag?_quoted hquote, Function.comp_def]

theorem closed_tagText {name : List Char} (hn : isName name)
    {attrs : List (List Char × List Char)} (ha : ∀ a ∈ attrs, isName a.1 ∧ isValue a.2) :
    Closed (tagText name attrs) := by
  have hplain : ∀ {w : List Char}, isName w → Closed w := fun hw =>
    closed_plain (lacks_of_isTagNameChar (by decide) (all_of_isName hw))
  refine (hplain hn).append ?_
  induction attrs with
  | nil => exact closed_nil
  | cons a attrs ih =>
    obtain ⟨hname, hvalue⟩ := ha a (List.mem_cons_self ..)
    have hrest := ih fun a hm => ha a (List.mem_cons_of_mem _ hm)
    have hfirst : Closed ([' '] ++ (a.1 ++ (['='] ++ '"' :: (a.2 ++ ['"'])))) :=
      (closed_plain (by decide)).append
        ((hplain hname).append ((closed_plain (by decide)).append (closed_quoted hvalue)))
    have htext : attributesText (a :: attrs) =
        ([' '] ++ (a.1 ++ (['='] ++ '"' :: (a.2 ++ ['"'])))) ++ attributesText attrs := by
      simp [attributesText, attributeText]
    rw [htext]
    exact hfirst.append hrest

theorem Closed.cutTag? {w : List Char} (h : Closed w) (rest : List Char) :
    cutTag? none (w ++ '>' :: rest) = some (w, rest) := by
  rw [h]
  simp [Markup.cutTag?]

theorem isSpace_of_isTagNameChar {c : Char} (h : isTagNameChar c) : isSpace c = false := by
  by_contra hs
  simp only [isSpace, Bool.not_eq_false, Bool.or_eq_true, decide_eq_true_eq] at hs
  rcases hs with ((rfl | rfl) | rfl) | rfl <;> exact absurd h (by decide)

theorem span_tagText {name : List Char} (hn : isName name) (attrs : List (List Char × List Char)) :
    StartTag.name (tagText name attrs) = name ∧
      (tagText name attrs).dropWhile (fun c => !isSpace c) = attributesText attrs := by
  have hall : ∀ c ∈ name, (!isSpace c) = true := by
    intro c hc
    rw [isSpace_of_isTagNameChar (List.all_eq_true.mp (all_of_isName hn) c hc)]
    rfl
  have hstop : (attributesText attrs).takeWhile (fun c => !isSpace c) = [] ∧
      (attributesText attrs).dropWhile (fun c => !isSpace c) = attributesText attrs := by
    cases attrs with
    | nil => exact ⟨rfl, rfl⟩
    | cons a attrs =>
      exact ⟨List.takeWhile_cons_of_neg (by decide), List.dropWhile_cons_of_neg (by decide)⟩
  rw [StartTag.name, tagText, List.takeWhile_append_of_pos hall, List.dropWhile_append_of_pos hall,
    hstop.1, hstop.2, List.append_nil]
  exact ⟨rfl, rfl⟩

theorem splitOnce?_quote {value : List Char} (h : '"' ∉ value) (rest : List Char) :
    splitOnce? '"' (value ++ '"' :: rest) = some (value, rest) := by
  induction value with
  | nil => rfl
  | cons c value ih =>
    have hne : c ≠ '"' := by
      rintro rfl
      exact h (List.mem_cons_self ..)
    have hrest := ih fun hm => h (List.mem_cons_of_mem _ hm)
    simp [splitOnce?, hne, hrest]

theorem first?_written {name value : List Char} (hn : isName name) (hv : isValue value)
    (rest : List Char) :
    StartTag.first? (name ++ '=' :: '"' :: (value ++ '"' :: rest)) =
      some ((name, value), rest) := by
  obtain ⟨c, cs, rfl, hc, hcs⟩ := exists_cons_of_isName hn
  have hall : ∀ d ∈ cs, (d != '=' && !isSpace d) = true := by
    intro d hd
    have hchar := List.all_eq_true.mp hcs d hd
    have hne : d ≠ '=' := by
      rintro rfl
      exact absurd hchar (by decide)
    simp [hne, isSpace_of_isTagNameChar hchar]
  have hquote : '"' ∉ value := fun hm => ne_of_lacks hv hm (by decide) rfl
  have htake : (cs ++ '=' :: '"' :: (value ++ '"' :: rest)).takeWhile
      (fun d => d != '=' && !isSpace d) = cs := by
    rw [List.takeWhile_append_of_pos hall, List.takeWhile_cons_of_neg (by decide), List.append_nil]
  have hdrop : (cs ++ '=' :: '"' :: (value ++ '"' :: rest)).dropWhile
      (fun d => d != '=' && !isSpace d) = '=' :: '"' :: (value ++ '"' :: rest) := by
    rw [List.dropWhile_append_of_pos hall, List.dropWhile_cons_of_neg (by decide)]
  have hequals : ('=' :: '"' :: (value ++ '"' :: rest)).dropWhile isSpace =
      '=' :: '"' :: (value ++ '"' :: rest) := List.dropWhile_cons_of_neg (by decide)
  have hvalue : ('"' :: (value ++ '"' :: rest)).dropWhile isSpace =
      '"' :: (value ++ '"' :: rest) := List.dropWhile_cons_of_neg (by decide)
  rw [List.cons_append, StartTag.first?, hdrop, hequals]
  simp [hvalue, htake, splitOnce?_quote hquote]

theorem readFrom_attributesText {attrs : List (List Char × List Char)}
    (ha : ∀ a ∈ attrs, isName a.1 ∧ isValue a.2) {fuel : Nat} (hf : attrs.length < fuel) :
    StartTag.readFrom fuel (attributesText attrs) = some attrs := by
  induction attrs generalizing fuel with
  | nil =>
    obtain ⟨n, rfl⟩ : ∃ n, fuel = n + 1 := ⟨fuel - 1, by simp at hf; omega⟩
    rfl
  | cons a attrs ih =>
    obtain ⟨n, rfl⟩ : ∃ n, fuel = n + 1 := ⟨fuel - 1, by simp at hf; omega⟩
    obtain ⟨hname, hvalue⟩ := ha a (List.mem_cons_self ..)
    obtain ⟨c, cs, hcons, hc, -⟩ := exists_cons_of_isName hname
    have hrest := ih (fun a hm => ha a (List.mem_cons_of_mem _ hm)) (Nat.lt_of_succ_lt_succ hf)
    have hfirst := first?_written hname hvalue (attributesText attrs)
    have hskip : (attributesText (a :: attrs)).dropWhile isSpace =
        c :: (cs ++ '=' :: '"' :: (a.2 ++ '"' :: attributesText attrs)) := by
      simp [attributesText, attributeText, hcons, show isSpace ' ' = true by decide,
        isSpace_of_isTagNameChar hc]
    rw [hcons, List.cons_append] at hfirst
    rw [StartTag.readFrom, hskip]
    simp only [hfirst, hrest, Option.bind_eq_bind, Option.bind_some]
    rw [← hcons]
    rfl

theorem attributes?_tagText {name : List Char} (hn : isName name)
    {attrs : List (List Char × List Char)} (ha : ∀ a ∈ attrs, isName a.1 ∧ isValue a.2) :
    StartTag.attributes? (tagText name attrs) =
      if StartTag.distinct attrs then some (attributePairs attrs) else none := by
  have hlength := Relaxed.length_le_attributesText attrs
  have hwritten : StartTag.written? (tagText name attrs) = some attrs := by
    rw [StartTag.written?, (span_tagText hn attrs).2]
    refine readFrom_attributesText ha ?_
    simp only [tagText, List.length_append]
    omega
  have hvalues : (attrs.mapM fun a => do
      return (String.ofList a.1, String.ofList (← unescape? a.2)) :
        Option (List (String × String))) = some (attributePairs attrs) := by
    clear hlength hwritten
    induction attrs with
    | nil => rfl
    | cons a attrs ih =>
      have hamp : '&' ∉ a.2 := fun hm =>
        ne_of_lacks (ha a (List.mem_cons_self ..)).2 hm (by decide) rfl
      have hrest := ih fun a hm => ha a (List.mem_cons_of_mem _ hm)
      rw [List.mapM_cons, unescape?_eq hamp, hrest]
      rfl
  rw [StartTag.attributes?, hwritten]
  simp only [Option.bind_eq_bind, Option.bind_some]
  rw [← hvalues]
  rfl

-- The first event of a text that starts with a bracket.
theorem readFrom_piece {rest : List Char} {p : Piece} (h : piece? rest = .ok p) {depth d : Nat}
    (hd : p.event.depth? depth = some d) (offset : Nat) :
    ∃ stop, readFrom depth offset ('<' :: rest) =
      (readFrom d stop p.rest).cons ⟨p.event, offset, stop⟩ := by
  refine ⟨offset + (byteSize ('<' :: rest) - byteSize p.rest), ?_⟩
  rw [readFrom]
  split
  · rename_i heq
    rw [h] at heq
    cases heq
  · rename_i q heq
    rw [h] at heq
    cases heq
    rw [hd]

theorem readFrom_text {run : List Char} (hne : run ≠ []) (hlt : '<' ∉ run) (depth offset : Nat)
    (rest : List Char) :
    ∃ stop, readFrom depth offset (run ++ '<' :: rest) =
      (readFrom depth stop ('<' :: rest)).cons ⟨.text run, offset, stop⟩ := by
  obtain ⟨c, cs, rfl⟩ := List.exists_cons_of_ne_nil hne
  have hc : c ≠ '<' := by
    rintro rfl
    exact hlt (List.mem_cons_self ..)
  have hall : ∀ d ∈ cs, (d != '<') = true := by
    intro d hd
    rw [bne_iff_ne]
    rintro rfl
    exact hlt (List.mem_cons_of_mem _ hd)
  have htake : (cs ++ '<' :: rest).takeWhile (· != '<') = cs := by
    rw [List.takeWhile_append_of_pos hall, List.takeWhile_cons_of_neg (by decide), List.append_nil]
  have hdrop : (cs ++ '<' :: rest).dropWhile (· != '<') = '<' :: rest := by
    rw [List.dropWhile_append_of_pos hall, List.dropWhile_cons_of_neg (by decide)]
  refine ⟨offset + byteSize (c :: cs), ?_⟩
  rw [List.cons_append, readFrom.eq_def]
  split
  · cases ‹_ = _›
  · rename_i heq
    exact absurd (List.cons.inj heq).1 hc
  · rename_i heq
    cases heq
    simp only [htake, hdrop]

-- A tag that is no end tag and no declaration.
theorem piece?_tag {inside rest : List Char} {c : Char} {cs : List Char} (hi : inside = c :: cs)
    (hc : c ≠ '!' ∧ c ≠ '/' ∧ c ≠ '?') (hcut : cutTag? none (inside ++ '>' :: rest) =
      some (inside, rest)) :
    piece? (inside ++ '>' :: rest) =
      match stripEnd? ['/'] inside with
      | some inside => .ok ⟨.empty inside, rest⟩
      | none => .ok ⟨.opening inside, rest⟩ := by
  subst hi
  rw [List.cons_append] at hcut ⊢
  unfold piece?
  split
  · cases ‹_ = _›
  · rename_i heq
    exact absurd (List.cons.inj heq).1 hc.1
  · rename_i heq
    exact absurd (List.cons.inj heq).1 hc.2.1
  · rename_i heq
    exact absurd (List.cons.inj heq).1 hc.2.2
  · cases hslash : stripEnd? ['/'] (c :: cs) with
    | none => simp only [hcut, hslash]
    | some inside => simp only [hcut, hslash]

theorem exists_cons_tagText {name : List Char} (hn : isName name)
    (attrs : List (List Char × List Char)) :
    ∃ c cs, tagText name attrs = c :: cs ∧ c ≠ '!' ∧ c ≠ '/' ∧ c ≠ '?' := by
  obtain ⟨c, cs, rfl, hc, -⟩ := exists_cons_of_isName hn
  refine ⟨c, cs ++ attributesText attrs, rfl, ?_, ?_, ?_⟩ <;> rintro rfl <;>
    exact absurd hc (by decide)

-- Neither a name nor a quote is a slash.
theorem stripEnd?_tagText {name : List Char} (hn : isName name)
    (attrs : List (List Char × List Char)) : stripEnd? ['/'] (tagText name attrs) = none := by
  have hlast : ∀ (w : List Char) (c : Char), '/' ≠ c → stripEnd? ['/'] (w ++ [c]) = none := by
    intro w c hc
    simp [stripEnd?, stripStart?, hc]
  rcases List.eq_nil_or_concat attrs with rfl | ⟨front, a, rfl⟩
  · obtain ⟨w, c, hw, hc⟩ := exists_concat_of_isName hn
    have htext : tagText name [] = w ++ [c] := by simp [tagText, attributesText, hw]
    rw [htext]
    refine hlast w c ?_
    rintro rfl
    exact absurd hc (by decide)
  · have htext : tagText name (front.concat a) =
        (name ++ (attributesText front ++ ' ' :: (a.1 ++ '=' :: '"' :: a.2))) ++ ['"'] := by
      simp [tagText, attributesText, attributeText]
    rw [htext]
    exact hlast _ _ (by decide)

theorem piece?_opening {name : List Char} (hn : isName name)
    {attrs : List (List Char × List Char)} (ha : ∀ a ∈ attrs, isName a.1 ∧ isValue a.2)
    (rest : List Char) :
    piece? (tagText name attrs ++ '>' :: rest) = .ok ⟨.opening (tagText name attrs), rest⟩ := by
  obtain ⟨c, cs, hcons, hc⟩ := exists_cons_tagText hn attrs
  rw [piece?_tag hcons hc ((closed_tagText hn ha).cutTag? rest), stripEnd?_tagText hn attrs]

theorem piece?_empty {name : List Char} (hn : isName name)
    {attrs : List (List Char × List Char)} (ha : ∀ a ∈ attrs, isName a.1 ∧ isValue a.2)
    (rest : List Char) :
    piece? (tagText name attrs ++ '/' :: '>' :: rest) =
      .ok ⟨.empty (tagText name attrs), rest⟩ := by
  obtain ⟨c, cs, hcons, hc⟩ := exists_cons_tagText hn attrs
  have hclosed : Closed (tagText name attrs ++ ['/']) :=
    (closed_tagText hn ha).append (closed_plain (by decide))
  have hslash : stripEnd? ['/'] (tagText name attrs ++ ['/']) = some (tagText name attrs) := by
    simp [stripEnd?, stripStart?]
  have htext : tagText name attrs ++ '/' :: '>' :: rest =
      (tagText name attrs ++ ['/']) ++ '>' :: rest := by simp
  have hfirst : tagText name attrs ++ ['/'] = c :: (cs ++ ['/']) := by rw [hcons, List.cons_append]
  rw [htext, piece?_tag hfirst hc (hclosed.cutTag? rest), hslash]

theorem piece?_closing {name : List Char} (hn : isName name) (rest : List Char) :
    piece? ('/' :: (name ++ '>' :: rest)) = .ok ⟨.closing name, rest⟩ := by
  have hclosed : Closed name :=
    closed_plain (lacks_of_isTagNameChar (by decide) (all_of_isName hn))
  have hclosing : closingName name = name := by
    obtain ⟨w, c, rfl, hc⟩ := exists_concat_of_isName hn
    simp [closingName, isSpace_of_isTagNameChar hc]
  simp only [piece?, hclosed.cutTag? rest, hclosing]

end PageCompiler.Markup
