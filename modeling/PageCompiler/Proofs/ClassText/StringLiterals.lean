import PageCompiler.Data.Json
import PageCompiler.Proofs.ClassText.LineParts
import PageCompiler.Proofs.Text.Bytes

namespace PageCompiler.ClassText

open Text Text.Utf16
open Data.Json (hex4?)

theorem length_hex4? {s rest : List Char} {n : Nat} (h : hex4? s = some (n, rest)) :
    rest.length < s.length := by
  unfold hex4? at h
  split at h
  · obtain ⟨_, _, heq⟩ := Option.map_eq_some_iff.mp h
    cases heq
    simp only [List.length_cons]
    omega
  · cases h

-- The 16-bit units of a text, with its Unicode escapes translated. A backslash begins one only if
-- the number of backslashes right in front of it, `slashes`, is even; any number of `u` may follow.
-- A unit that was escaped is no backslash to what comes next.
def translate (slashes : Nat) (s : List Char) : Option (List Nat) :=
  match s with
  | [] => some []
  | c :: cs =>
    if c = '\\' then
      if slashes % 2 = 0 && cs.head? == some 'u' then
        match h : hex4? (cs.dropWhile (· = 'u')) with
        | none => none
        | some (unit, rest) =>
          have := length_hex4? h
          have := (List.dropWhile_sublist (· = 'u') (l := cs)).length_le
          (translate 0 rest).map (unit :: ·)
      else (translate (slashes + 1) cs).map (0x5C :: ·)
    else (translate 0 cs).map (unitsOf c ++ ·)
termination_by s.length
decreasing_by all_goals (simp only [List.length_cons] at *; omega)

def isOctal (u : Nat) : Bool := 0x30 ≤ u && u < 0x38

-- Up to three octal digits, but only two where the first is greater than three.
def octal? (us : List Nat) : Option (Nat × List Nat) :=
  let most := if us.head?.any (· < 0x34) then 3 else 2
  match (us.takeWhile isOctal).take most with
  | [] => none
  | digits => some (digits.foldl (fun n u => n * 8 + (u - 0x30)) 0, us.drop digits.length)

theorem length_octal? {us rest : List Nat} {v : Nat} (h : octal? us = some (v, rest)) :
    rest.length ≤ us.length := by
  simp only [octal?] at h
  generalize List.take _ _ = digits at h
  cases digits with
  | nil => cases h
  | cons d ds =>
    cases h
    exact (List.drop_sublist ..).length_le

-- The escapes of one letter: b, s, t, n, f, r, both quotes and the backslash.
def letter? : Nat → Option Nat
  | 0x62 => some 0x08
  | 0x73 => some 0x20
  | 0x74 => some 0x09
  | 0x6E => some 0x0A
  | 0x66 => some 0x0C
  | 0x72 => some 0x0D
  | 0x22 => some 0x22
  | 0x27 => some 0x27
  | 0x5C => some 0x5C
  | _ => none

-- What stands for one unit behind a backslash.
def escaped? : List Nat → Option (Nat × List Nat)
  | [] => none
  | u :: us =>
    match letter? u with
    | some v => some (v, us)
    | none => octal? (u :: us)

theorem length_escaped? {us rest : List Nat} {v : Nat} (h : escaped? us = some (v, rest)) :
    rest.length ≤ us.length := by
  cases us with
  | nil => cases h
  | cons u us =>
    simp only [escaped?] at h
    split at h
    · cases h
      exact Nat.le_succ _
    · exact length_octal? h

-- The units that a literal stands for, from behind its opening quote, and what follows its closing
-- quote. A line must not end in it.
def inside? (us : List Nat) : Option (List Nat × List Nat) :=
  match us with
  | [] => none
  | u :: us =>
    if u = 0x22 then some ([], us)
    else if u = 0x0A || u = 0x0D then none
    else if u = 0x5C then
      match h : escaped? us with
      | none => none
      | some (v, rest) =>
        have := length_escaped? h
        (inside? rest).map fun cut => (v :: cut.1, cut.2)
    else (inside? us).map fun cut => (u :: cut.1, cut.2)
termination_by us.length
decreasing_by all_goals (simp only [List.length_cons] at *; omega)

-- A literal at the front. Three quotes in a row do not begin one but a block of text.
def literal? : List Nat → Option (List Nat × List Nat)
  | 0x22 :: 0x22 :: 0x22 :: _ => none
  | 0x22 :: us => inside? us
  | _ => none

-- The units that a text stands for, when it is one literal as a whole.
def literalValue? (source : List Char) : Option (List Nat) :=
  match (translate 0 source).bind literal? with
  | some (value, []) => some value
  | _ => none

variable {c : Char} {s rest : List Char} {us : List Nat} {slashes : Nat}

-- The units of what is written for a character, when its Unicode escape is translated.
def spelled (c : Char) : List Nat :=
  if c = '"' then [0x5C, 0x22]
  else if c = '\\' then [0x5C, 0x5C]
  else if c = '\n' then [0x5C, 0x6E]
  else if c = '\r' then [0x5C, 0x72]
  else if c = '\t' then [0x5C, 0x74]
  else unitsOf c

theorem translate_plain (h : c ≠ '\\') :
    translate slashes (c :: s) = (translate 0 s).map (unitsOf c ++ ·) := by
  rw [translate, if_neg h]

-- A backslash that something other than `u` follows stands for itself.
theorem translate_slash (h : s.head? ≠ some 'u') :
    translate slashes ('\\' :: s) = (translate (slashes + 1) s).map (0x5C :: ·) := by
  have hmark : ¬(slashes % 2 = 0 && s.head? == some 'u') = true := by simp [h]
  rw [translate, if_pos rfl, if_neg hmark]

-- So does one behind an odd number of others, whatever follows.
theorem translate_odd (h : slashes % 2 = 1) :
    translate slashes ('\\' :: s) = (translate (slashes + 1) s).map (0x5C :: ·) := by
  have hmark : ¬(slashes % 2 = 0 && s.head? == some 'u') = true := by simp [h]
  rw [translate, if_pos rfl, if_neg hmark]

-- A backslash and a letter other than `u` and the backslash itself.
theorem translate_letter (hmark : c ≠ 'u') (h : c ≠ '\\') :
    translate slashes ('\\' :: c :: s) = (translate 0 s).map (0x5C :: unitsOf c ++ ·) := by
  rw [translate_slash (by simpa using hmark), translate_plain h, Option.map_map]
  rfl

-- The digits of a control character are four, none of them is a `u`, and they make its number.
theorem hex4?_hex4 {n : Nat} (h : n < 0x20) (s : List Char) :
    hex4? (('u' :: ((hex4 n).toList ++ s)).dropWhile (· = 'u')) = some (n, s) := by
  have hread : ∀ n < 0x20,
      let digits := List.replicate (4 - (Nat.toDigits 16 n).length) '0' ++ Nat.toDigits 16 n
      digits.length = 4 ∧ digits.head? ≠ some 'u' ∧ Data.Value.digits? 16 digits = some n := by
    decide
  obtain ⟨hlength, hhead, hvalue⟩ := hread n h
  rw [hex4, String.toList_ofList]
  generalize List.replicate _ _ ++ _ = digits at hlength hhead hvalue
  obtain ⟨a, b, c, d, rfl⟩ := List.length_eq_four.mp hlength
  have ha : ¬a = 'u' := by simpa using hhead
  simp [hex4?, hvalue, ha]

theorem translate_escape {n : Nat} (heven : slashes % 2 = 0) (h : n < 0x20) :
    translate slashes ('\\' :: 'u' :: ((hex4 n).toList ++ s)) = (translate 0 s).map (n :: ·) := by
  rw [translate, if_pos rfl, if_pos (by simp [heven])]
  split
  · next hnone =>
    rw [hex4?_hex4 h] at hnone
    cases hnone
  · next unit rest hsome =>
    rw [hex4?_hex4 h] at hsome
    cases hsome
    rfl

-- The second of two backslashes begins no escape, the third of three does.
example : translate 0 "\\\\u0041\\\\\\u0041".toList = some ("\\\\u0041\\\\A".toList.map Char.toNat) := by
  cbv

-- An even number of backslashes in front leaves an even number, and what is written for a character
-- is read for itself.
theorem translate_escapeChar (heven : slashes % 2 = 0) (c : Char) :
    ∃ after, after % 2 = 0 ∧ ∀ rest, translate slashes ((escapeChar c).toList ++ rest) =
      (translate after rest).map (spelled c ++ ·) := by
  have hodd : (slashes + 1) % 2 = 1 := by omega
  unfold escapeChar spelled
  split_ifs with hquote hslash hfeed hreturn htab hlow
  · exact ⟨0, rfl, fun rest => translate_letter (by decide) (by decide)⟩
  · refine ⟨slashes + 2, by omega, fun rest => ?_⟩
    show translate slashes ('\\' :: '\\' :: rest) = _
    rw [translate_slash (by simp), translate_odd hodd, Option.map_map]
    rfl
  · exact ⟨0, rfl, fun rest => translate_letter (by decide) (by decide)⟩
  · exact ⟨0, rfl, fun rest => translate_letter (by decide) (by decide)⟩
  · exact ⟨0, rfl, fun rest => translate_letter (by decide) (by decide)⟩
  · refine ⟨0, rfl, fun rest => ?_⟩
    have hone : unitsOf c = [c.toNat] := if_pos (by omega)
    have hmark : "\\u".toList = ['\\', 'u'] := rfl
    rw [hone, String.toList_append, hmark, List.append_assoc, List.cons_append, List.cons_append,
      List.nil_append, translate_escape heven hlow]
    rfl
  · refine ⟨0, rfl, fun rest => ?_⟩
    rw [Char.toString_eq_singleton, String.toList_singleton]
    exact translate_plain hslash

-- The run over the whole text: the invariant is that an even number of backslashes is in front.
theorem translate_escaped (heven : slashes % 2 = 0) (s : List Char) :
    translate slashes (s.flatMap (fun c => (escapeChar c).toList) ++ ['"']) =
      some (s.flatMap spelled ++ [0x22]) := by
  induction s generalizing slashes with
  | nil => rw [List.flatMap_nil, List.nil_append, translate_plain (by decide), translate]; rfl
  | cons c s ih =>
    obtain ⟨after, hafter, hchar⟩ := translate_escapeChar heven c
    rw [List.flatMap_cons, List.append_assoc, hchar, ih hafter, List.flatMap_cons,
      List.append_assoc]
    rfl

theorem inside?_cons {u : Nat} (hquote : u ≠ 0x22) (hslash : u ≠ 0x5C) (hfeed : u ≠ 0x0A)
    (hreturn : u ≠ 0x0D) : inside? (u :: us) = (inside? us).map fun cut => (u :: cut.1, cut.2) := by
  rw [inside?, if_neg hquote, if_neg (by simp [hfeed, hreturn]), if_neg hslash]

theorem inside?_letter {u v : Nat} (h : letter? u = some v) :
    inside? (0x5C :: u :: us) = (inside? us).map fun cut => (v :: cut.1, cut.2) := by
  have hescaped : escaped? (u :: us) = some (v, us) := by
    rw [escaped?, h]
  rw [inside?, if_neg (by decide), if_neg (by decide), if_pos rfl]
  split
  · next hnone =>
    rw [hescaped] at hnone
    cases hnone
  · next hsome =>
    rw [hescaped] at hsome
    cases hsome
    rfl

-- Neither half of a pair is a quote, a backslash or the end of a line.
theorem inside?_unitsOf (hquote : c ≠ '"') (hslash : c ≠ '\\') (hfeed : c ≠ '\n')
    (hreturn : c ≠ '\r') :
    inside? (unitsOf c ++ us) = (inside? us).map fun cut => (unitsOf c ++ cut.1, cut.2) := by
  rcases unitsOf_cases c with hone | ⟨high, low, htwo, hhigh, hlow⟩
  · have hne : ∀ d : Char, c ≠ d → c.toNat ≠ d.toNat := fun d hd heq => hd (Char.toNat_inj.mp heq)
    rw [hone, List.singleton_append]
    exact inside?_cons (hne _ hquote) (hne _ hslash) (hne _ hfeed) (hne _ hreturn)
  · rw [htwo, List.cons_append, List.singleton_append,
      inside?_cons (by omega) (by omega) (by omega) (by omega),
      inside?_cons (by omega) (by omega) (by omega) (by omega), Option.map_map]
    rfl

theorem inside?_spelled (c : Char) (us : List Nat) :
    inside? (spelled c ++ us) = (inside? us).map fun cut => (unitsOf c ++ cut.1, cut.2) := by
  unfold spelled
  split_ifs with hquote hslash hfeed hreturn htab
  · subst hquote
    exact inside?_letter rfl
  · subst hslash
    exact inside?_letter rfl
  · subst hfeed
    exact inside?_letter rfl
  · subst hreturn
    exact inside?_letter rfl
  · subst htab
    exact inside?_letter rfl
  · exact inside?_unitsOf hquote hslash hfeed hreturn

theorem inside?_escaped (s : List Char) :
    inside? (s.flatMap spelled ++ [0x22]) = some (units s, []) := by
  induction s with
  | nil => rw [List.flatMap_nil, List.nil_append, inside?, if_pos rfl]; rfl
  | cons c s ih =>
    rw [List.flatMap_cons, List.append_assoc, inside?_spelled, ih]
    rfl

-- What is written for a character begins with no quote: a quote has a backslash in front.
theorem head?_spelled (c : Char) (us : List Nat) : (spelled c ++ us).head? ≠ some 0x22 := by
  unfold spelled
  split_ifs with hquote
  · simp
  · simp
  · simp
  · simp
  · simp
  · rcases unitsOf_cases c with hone | ⟨high, low, htwo, hhigh, -⟩
    · rw [hone, List.singleton_append, List.head?_cons]
      exact fun heq => hquote (Char.toNat_inj.mp (Option.some.inj heq))
    · rw [htwo, List.cons_append, List.head?_cons]
      intro heq
      obtain rfl := Option.some.inj heq
      omega

theorem literal?_cons (h : us.head? ≠ some 0x22) : literal? (0x22 :: us) = inside? us := by
  unfold literal?
  split
  · next heq =>
    cases heq
    exact absurd rfl h
  · next heq =>
    cases heq
    rfl
  · next hne => exact absurd rfl (hne us)

theorem literal?_escaped (s : List Char) :
    literal? (0x22 :: (s.flatMap spelled ++ [0x22])) = some (units s, []) := by
  cases s with
  | nil => simp [literal?, inside?]
  | cons c s =>
    have hhead := head?_spelled c (s.flatMap spelled ++ [0x22])
    rw [← List.append_assoc, ← List.flatMap_cons] at hhead
    rw [literal?_cons hhead, inside?_escaped]

theorem literalValue?_of_quote (s : String) :
    literalValue? (quote s).toList = some (units s.toList) := by
  have hread : translate 0 (quote s).toList =
      some (0x22 :: (s.toList.flatMap spelled ++ [0x22])) := by
    rw [toList_quote, translate_plain (by decide), translate_escaped rfl]
    rfl
  rw [literalValue?, hread, Option.bind_some, literal?_escaped]

-- A text that is quoted stands on one line, and it is one literal that stands for that very text.
theorem literalValue_quote (s : String) :
    '\n' ∉ (quote s).toList ∧ '\r' ∉ (quote s).toList ∧
      literalValue? (quote s).toList = some (units s.toList) ∧
      decodeUnits? (units s.toList) = some s.toList :=
  ⟨not_mem_quote (.inl rfl) s, not_mem_quote (.inr rfl) s, literalValue?_of_quote s,
    decodeUnits?_units s.toList⟩

end PageCompiler.ClassText
