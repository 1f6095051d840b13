import PageCompiler.Proofs.Markup.Entities
import PageCompiler.Proofs.Reading.Sequence
import PageCompiler.Reading.Relaxed
import PageCompiler.Reading.Strict
import Mathlib.Data.List.Basic

namespace PageCompiler

open Text

theorem Text.eq_of_splitOnce? {d : Char} {s before behind : List Char}
    (h : splitOnce? d s = some (before, behind)) : s = before ++ d :: behind := by
  induction s generalizing before with
  | nil => cases h
  | cons c s ih =>
    unfold splitOnce? at h
    split at h
    · rename_i hc
      cases h
      rw [hc]
      rfl
    · obtain ⟨⟨a, b⟩, hcut, heq⟩ := Option.map_eq_some_iff.mp h
      cases heq
      rw [ih hcut]
      rfl

theorem mem_of_mapM_eq_some {α β : Type} {f : α → Option β} {l : List α} {l' : List β}
    (h : l.mapM f = some l') : ∀ b ∈ l', ∃ a ∈ l, f a = some b := by
  induction l generalizing l' with
  | nil =>
    cases h
    exact fun b hb => nomatch hb
  | cons a l ih =>
    rw [List.mapM_cons] at h
    obtain ⟨b, hb, h⟩ := Option.bind_eq_some_iff.mp h
    obtain ⟨more, hmore, heq⟩ := Option.bind_eq_some_iff.mp h
    cases heq
    refine List.forall_mem_cons.mpr ⟨⟨a, List.mem_cons_self .., hb⟩, fun c hc => ?_⟩
    obtain ⟨a', ha', hc⟩ := ih hmore c hc
    exact ⟨a', List.mem_cons_of_mem _ ha', hc⟩

namespace Attribute

-- The value of an attribute is written without anything that stands for something else.
def IsWord (s : List Char) : Prop := ∀ c ∈ s, Encoding.isEncodingChar c

-- What is written for a value is the value itself if it can be.
def ValueAs (a : Attribute) (raw : List Char) : Prop :=
  a.scripting = false → IsWord a.value.toList → '&' ∉ raw → raw = a.value.toList

-- A value between quotes, with what is written there.
def QuotedAs (a : Attribute) (raw s : List Char) : Prop :=
  (∃ quote behind, (quote = '"' ∨ quote = '\'') ∧ s = quote :: (raw ++ quote :: behind)) ∧
    a.ValueAs raw

-- An attribute at the front of a text.
def WrittenAs (a : Attribute) (raw s : List Char) : Prop :=
  ∃ gap gap' rest, s = a.name.toList ++ (gap ++ '=' :: (gap' ++ rest)) ∧ allBlank gap ∧
    allBlank gap' ∧ a.QuotedAs raw rest

end Attribute

namespace Relaxed

open Attribute

theorem readValue_eq_some {quote : Char} {s value rest : List Char}
    (h : readValue quote s = some (value, rest)) :
    ∃ raw, s = raw ++ quote :: rest ∧ (IsWord value → raw = value) := by
  have hspecial : ∀ {c : Char} {s : List Char}, Encoding.isEncodingChar c = false →
      ¬IsWord (c :: s) := fun hc hword => by
    have hfirst := hword _ (List.mem_cons_self ..)
    rw [hc] at hfirst
    cases hfirst
  fun_induction readValue quote s generalizing value rest with
  | case1 => cases h
  | case2 d cs hd ih =>
    obtain ⟨⟨v, r⟩, hcut, heq⟩ := Option.map_eq_some_iff.mp h
    cases heq
    obtain ⟨raw, rfl, -⟩ := ih hcut
    refine ⟨'\\' :: d :: raw, rfl, fun hword => absurd hword (hspecial ?_)⟩
    simp only [Bool.or_eq_true, decide_eq_true_eq] at hd
    rcases hd with (rfl | rfl) | rfl <;> rfl
  | case3 d cs hd ih =>
    obtain ⟨⟨v, r⟩, hcut, heq⟩ := Option.map_eq_some_iff.mp h
    cases heq
    obtain ⟨raw, hraw, -⟩ := ih hcut
    exact ⟨'\\' :: raw, congrArg _ hraw, fun hword => absurd hword (hspecial rfl)⟩
  | case4 cs ih =>
    obtain ⟨⟨v, r⟩, hcut, heq⟩ := Option.map_eq_some_iff.mp h
    cases heq
    obtain ⟨raw, rfl, -⟩ := ih hcut
    exact ⟨'<' :: '\\' :: '%' :: raw, rfl, fun hword => absurd hword (hspecial rfl)⟩
  | case5 cs ih =>
    obtain ⟨⟨v, r⟩, hcut, heq⟩ := Option.map_eq_some_iff.mp h
    cases heq
    obtain ⟨raw, rfl, -⟩ := ih hcut
    exact ⟨'%' :: '\\' :: '>' :: raw, rfl, fun hword => absurd hword (hspecial rfl)⟩
  | case6 cs =>
    cases h
    exact ⟨[], rfl, fun _ => rfl⟩
  | case7 c cs _ _ _ hc ih =>
    obtain ⟨⟨v, r⟩, hcut, heq⟩ := Option.map_eq_some_iff.mp h
    cases heq
    obtain ⟨raw, rfl, hplain⟩ := ih hcut
    exact ⟨c :: raw, rfl, fun hword => by rw [hplain (List.forall_mem_cons.mp hword).2]⟩

theorem readCode_eq_some {quote : Char} {s code rest : List Char}
    (h : readCode quote s = some (code, rest)) : ∃ raw, s = raw ++ quote :: rest := by
  unfold readCode at h
  obtain ⟨s₁, h₁, h⟩ := Option.bind_eq_some_iff.mp h
  obtain ⟨⟨before, behind⟩, h₂, h⟩ := Option.bind_eq_some_iff.mp h
  obtain ⟨s₂, h₃, heq⟩ := Option.bind_eq_some_iff.mp h
  cases heq
  refine ⟨"<%=".toList ++ (before ++ "%>".toList), ?_⟩
  rw [eq_of_stripStart? h₁, eq_of_cutAt? h₂, eq_of_stripStart? h₃]
  simp

end Relaxed

namespace Markup.StartTag

open Attribute

theorem isBlank_of_isSpace {c : Char} (h : isSpace c) : isBlank c := by
  simp only [isSpace, Bool.or_eq_true, decide_eq_true_eq] at h
  rcases h with ((rfl | rfl) | rfl) | rfl <;> decide

theorem allBlank_takeWhile_isSpace (s : List Char) : allBlank (s.takeWhile isSpace) :=
  List.all_eq_true.mpr fun c hc =>
    isBlank_of_isSpace (List.all_eq_true.mp List.all_takeWhile c hc)

-- An attribute of a tag with what stands behind it.
def StandsAs (w : Written) (s rest : List Char) : Prop :=
  ∃ gap gap' quote, s = w.1 ++ (gap ++ '=' :: (gap' ++ quote :: (w.2 ++ quote :: rest))) ∧
    allBlank gap ∧ allBlank gap' ∧ (quote = '"' ∨ quote = '\'')

theorem StandsAs.suffix {w : Written} {s rest : List Char} (h : StandsAs w s rest) :
    rest <:+ s := by
  obtain ⟨gap, gap', quote, rfl, -⟩ := h
  exact ⟨w.1 ++ (gap ++ '=' :: (gap' ++ quote :: (w.2 ++ [quote]))), by simp⟩

theorem first?_eq_some {s rest : List Char} {w : Written} (h : first? s = some (w, rest)) :
    StandsAs w s rest := by
  cases s with
  | nil => cases h
  | cons c cs =>
    unfold first? at h
    dsimp only at h
    generalize hname : cs.takeWhile (fun c => c != '=' && !isSpace c) = name at h
    generalize hbehind : cs.dropWhile (fun c => c != '=' && !isSpace c) = behind at h
    have hcs : cs = name ++ behind := by rw [← hname, ← hbehind, List.takeWhile_append_dropWhile]
    have hgap := List.takeWhile_append_dropWhile (p := isSpace) (l := behind)
    split at h
    · rename_i value hvalue
      have hgap' := List.takeWhile_append_dropWhile (p := isSpace) (l := value)
      split at h
      · rename_i quote quoted hquoted
        split at h
        · rename_i hquote
          obtain ⟨⟨raw, rest'⟩, hcut, heq⟩ := Option.map_eq_some_iff.mp h
          cases heq
          refine ⟨behind.takeWhile isSpace, value.takeWhile isSpace, quote, ?_,
            allBlank_takeWhile_isSpace _, allBlank_takeWhile_isSpace _, by simpa using hquote⟩
          rw [← eq_of_splitOnce? hcut, ← hquoted, hgap', ← hvalue, hgap, hcs]
          rfl
        · cases h
      · cases h
    · cases h

theorem readFrom_eq_some {fuel : Nat} {s : List Char} {ws : List Written}
    (h : readFrom fuel s = some ws) : ∀ w ∈ ws, ∃ t rest, t <:+ s ∧ StandsAs w t rest := by
  induction fuel generalizing s ws with
  | zero =>
    cases h
    exact fun w hw => nomatch hw
  | succ fuel ih =>
    have hblanks : s.dropWhile isSpace <:+ s := List.dropWhile_suffix _
    unfold readFrom at h
    split at h
    · cases h
      exact fun w hw => nomatch hw
    · obtain ⟨⟨a, behind⟩, hfirst, h⟩ := Option.bind_eq_some_iff.mp h
      obtain ⟨more, hmore, heq⟩ := Option.bind_eq_some_iff.mp h
      cases heq
      have hstands := first?_eq_some hfirst
      refine List.forall_mem_cons.mpr ⟨⟨_, behind, hblanks, hstands⟩, fun w hw => ?_⟩
      obtain ⟨t, rest, ht, hw⟩ := ih hmore w hw
      exact ⟨t, rest, ht.trans (hstands.suffix.trans hblanks), hw⟩

-- The attributes of a tag stand in it as they are written, up to their entities.
theorem attributes?_eq_some {inside : List Char} {attrs : List (String × String)}
    (h : attributes? inside = some attrs) :
    ∀ a ∈ attrs, ∃ (w : Written) (t rest : List Char), t <:+ inside ∧ StandsAs w t rest ∧
      a.1 = String.ofList w.1 ∧ unescape? w.2 = some a.2.toList := by
  unfold attributes? at h
  obtain ⟨ws, hws, h⟩ := Option.bind_eq_some_iff.mp h
  split at h
  · intro a ha
    obtain ⟨w, hw, hread⟩ := mem_of_mapM_eq_some h a ha
    obtain ⟨t, rest, ht, hstands⟩ := readFrom_eq_some hws w hw
    obtain ⟨value, hvalue, heq⟩ := Option.bind_eq_some_iff.mp hread
    cases heq
    refine ⟨w, t, rest, ht.trans (List.dropWhile_suffix _), hstands, rfl, ?_⟩
    rw [String.toList_ofList]
    exact hvalue
  · cases h

end Markup.StartTag

namespace Strict

open Attribute Builder

-- The attributes of an element are marked at its tag, and written inside of it.
theorem readAttributes_eq_ok {inside : List Char} {mark : Mark} {attrs : List Attribute}
    {b b' : Builder} (h : readAttributes inside mark b = .ok attrs b') :
    b' = b ∧ ∀ a ∈ attrs, a.mark = mark ∧ ∃ raw t, t <:+ inside ∧ a.WrittenAs raw t := by
  unfold readAttributes at h
  cases hwritten : Markup.StartTag.attributes? inside with
  | none =>
    rw [hwritten] at h
    exact absurd h fail_ne_ok
  | some written =>
    rw [hwritten] at h
    cases h
    refine ⟨rfl, fun a ha => ?_⟩
    obtain ⟨pair, hpair, rfl⟩ := List.mem_map.mp ha
    obtain ⟨w, t, rest, ht, ⟨gap, gap', quote, hs, hgap, hgap', hquote⟩, hname, hvalue⟩ :=
      Markup.StartTag.attributes?_eq_some hwritten pair hpair
    have hlayout : t = pair.1.toList ++ (gap ++ '=' :: (gap' ++ quote :: (w.2 ++ quote :: rest))) := by
      rw [hs, hname, String.toList_ofList]
    have hplain : '&' ∉ w.2 → w.2 = pair.2.toList := fun hamp => by
      rw [Markup.unescape?_eq hamp] at hvalue
      exact Option.some.inj hvalue
    dsimp only
    cases codeValue? pair.2 with
    | some code =>
      exact ⟨rfl, w.2, t, ht, gap, gap', _, hlayout, hgap, hgap', ⟨quote, rest, hquote, rfl⟩,
        fun hscripting => nomatch hscripting⟩
    | none =>
      exact ⟨rfl, w.2, t, ht, gap, gap', _, hlayout, hgap, hgap', ⟨quote, rest, hquote, rfl⟩,
        fun _ _ hamp => hplain hamp⟩

end Strict

theorem Cursor.moveTo_append (place : Mark) (passed rest : List Char) :
    Cursor.moveTo ⟨place, passed ++ rest⟩ rest = ⟨place.advance passed, rest⟩ := by
  have hlength : (passed ++ rest).length - rest.length = passed.length := by simp
  rw [moveTo, skip, hlength, List.take_left, List.drop_left]

namespace Relaxed

-- A value as it is written between quotes of the given kind.
def escapeValue (quote : Char) : List Char → List Char
  | [] => []
  | '<' :: '%' :: cs => '<' :: '\\' :: '%' :: escapeValue quote cs
  | c :: cs =>
    if c = '\\' || c = quote then '\\' :: c :: escapeValue quote cs
    else c :: escapeValue quote cs

variable {quote : Char} {v rest : List Char}

-- A backslash covers what follows.
theorem covered_of_escapeValue {d : Char} {more : List Char} (hq : quote ≠ '\\')
    (h : escapeValue quote v ++ quote :: rest = '\\' :: d :: more) : d = '\\' ∨ d = quote := by
  revert h
  fun_cases escapeValue quote v with
  | case1 =>
    intro h
    exact absurd (List.cons.inj h).1 hq
  | case2 cs =>
    intro h
    cases h
  | case3 c cs _ hc =>
    intro h
    cases h
    simpa using hc
  | case4 c cs _ hc =>
    intro h
    rw [(List.cons.inj h).1] at hc
    simp at hc

-- No escape begins with a percent sign.
theorem percent_of_escapeValue {more : List Char} (hq : quote ≠ '%')
    (h : escapeValue quote v ++ quote :: rest = '%' :: more) : ∃ cs, v = '%' :: cs := by
  revert h
  fun_cases escapeValue quote v with
  | case1 =>
    intro h
    exact absurd (List.cons.inj h).1 hq
  | case2 cs =>
    intro h
    cases h
  | case3 c cs _ hc =>
    intro h
    cases h
  | case4 c cs _ hc =>
    intro h
    cases h
    exact ⟨cs, rfl⟩

-- The opening of raw code never stands at the front.
theorem escapeValue_ne_opening (hq : quote = '"' ∨ quote = '\'') (t : List Char) :
    escapeValue quote v ++ quote :: rest ≠ '<' :: '%' :: t := by
  have hpercent : quote ≠ '%' := by rcases hq with rfl | rfl <;> decide
  fun_cases escapeValue quote v with
  | case1 =>
    intro h
    rcases hq with rfl | rfl <;> cases h
  | case2 cs =>
    intro h
    cases h
  | case3 c cs _ hc =>
    intro h
    cases h
  | case4 c cs hplain hc =>
    intro h
    obtain ⟨hlt, hrest⟩ := List.cons.inj h
    obtain ⟨cs', hcs⟩ := percent_of_escapeValue hpercent hrest
    exact hplain cs' hlt hcs

-- A character that begins no escape stands for itself.
theorem readValue_plain {c : Char} {s : List Char} (hc : c ≠ '\\') (hquote : c ≠ quote)
    (hs : ∀ d more, s = '\\' :: d :: more → d ≠ '%' ∧ d ≠ '>') :
    readValue quote (c :: s) = (readValue quote s).map fun cut => (c :: cut.1, cut.2) := by
  rw [readValue.eq_def]
  split
  · rename_i heq
    cases heq
  · rename_i heq
    exact absurd (List.cons.inj heq).1 hc
  · rename_i heq
    exact absurd rfl (hs _ _ (List.cons.inj heq).2).1
  · rename_i heq
    exact absurd rfl (hs _ _ (List.cons.inj heq).2).2
  · rename_i heq
    cases heq
    rw [if_neg hquote]

theorem readValue_covered {d : Char} (hd : d = '\\' ∨ d = '"' ∨ d = '\'') (s : List Char) :
    readValue quote ('\\' :: d :: s) = (readValue quote s).map fun cut => (d :: cut.1, cut.2) := by
  rw [readValue, if_pos (by simpa [or_assoc] using hd)]

theorem readValue_escapeValue (hq : quote = '"' ∨ quote = '\'') (v rest : List Char) :
    readValue quote (escapeValue quote v ++ quote :: rest) = some (v, rest) := by
  have hback : quote ≠ '\\' := by rcases hq with rfl | rfl <;> decide
  have hcovers : ∀ {d}, d = '\\' ∨ d = quote → d = '\\' ∨ d = '"' ∨ d = '\'' := by
    rintro d (rfl | rfl)
    · exact .inl rfl
    · exact .inr hq
  fun_induction escapeValue quote v with
  | case1 => rcases hq with rfl | rfl <;> rfl
  | case2 cs ih =>
    show readValue quote ('<' :: '\\' :: '%' :: (escapeValue quote cs ++ quote :: rest)) = _
    rw [readValue, ih]
    rfl
  | case3 c cs _ hc ih =>
    rw [List.cons_append, List.cons_append, readValue_covered (hcovers (by simpa using hc)), ih]
    rfl
  | case4 c cs _ hc ih =>
    simp only [Bool.or_eq_true, decide_eq_true_eq, not_or] at hc
    rw [List.cons_append, readValue_plain hc.1 hc.2, ih]
    · rfl
    · intro d more heq
      rcases hcovers (covered_of_escapeValue hback heq) with rfl | rfl | rfl <;> decide

-- A written value is not taken for raw code.
theorem readCode_escapeValue (hq : quote = '"' ∨ quote = '\'') (v rest : List Char) :
    readCode quote (escapeValue quote v ++ quote :: rest) = none := by
  have hstrip : stripStart? "<%=".toList (escapeValue quote v ++ quote :: rest) = none := by
    by_contra hsome
    obtain ⟨t, ht⟩ := Option.ne_none_iff_exists'.mp hsome
    exact escapeValue_ne_opening hq ('=' :: t) (eq_of_stripStart? ht)
  rw [readCode, hstrip]
  rfl

-- Whatever the value is and whatever follows the closing quote, the attribute has exactly this
-- value, and reading goes on behind the quote.
theorem readQuoted_escapeValue (hq : quote = '"' ∨ quote = '\'') (v : String) (rest : List Char)
    (name : List Char) (mark place : Mark) (b : Builder) :
    readQuoted name mark ⟨place, quote :: (escapeValue quote v.toList ++ quote :: rest)⟩ b =
      .ok ({ name := String.ofList name, value := v, scripting := false, mark },
        ⟨place.advance (quote :: (escapeValue quote v.toList ++ [quote])), rest⟩) b := by
  have hquote : (decide (quote = '"') || decide (quote = '\'')) = true := by simpa using hq
  have htext : quote :: (escapeValue quote v.toList ++ quote :: rest) =
      quote :: (escapeValue quote v.toList ++ [quote]) ++ rest := by simp
  unfold readQuoted
  dsimp only
  rw [if_pos hquote, readCode_escapeValue hq, readValue_escapeValue hq]
  dsimp only
  rw [htext, Cursor.moveTo_append, String.ofList_toList]
  rfl

-- Escapes that overlap, and the opening of raw code at the front.
theorem readQuoted_escapeValue_overlapping :
    escapeValue '"' "<%=\\\"<\\%\\>%\\>'".toList = "<\\%=\\\\\\\"<\\\\%\\\\>%\\\\>'".toList ∧
    readQuoted ['n'] (.start "u")
        ⟨.start "u", '"' :: (escapeValue '"' "<%=\\\"<\\%\\>%\\>'".toList ++ '"' :: ['>'])⟩
        (.ofOptions {} (.ofRoot default "") (.ofLibraries [])) =
      .ok ({ name := "n", value := "<%=\\\"<\\%\\>%\\>'", scripting := false, mark := .start "u" },
        ⟨(Mark.start "u").advance
          ('"' :: (escapeValue '"' "<%=\\\"<\\%\\>%\\>'".toList ++ ['"'])), ['>']⟩)
        (.ofOptions {} (.ofRoot default "") (.ofLibraries [])) :=
  ⟨by decide, readQuoted_escapeValue (.inl rfl) _ _ ['n'] _ _ _⟩

end Relaxed
end PageCompiler
