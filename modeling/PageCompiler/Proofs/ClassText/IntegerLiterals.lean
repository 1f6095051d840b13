import PageCompiler.ClassText.Literal
import PageCompiler.Data.Value
import Mathlib.Data.List.Induction

namespace PageCompiler.ClassText

open Text
open Data.Value (digits? digitValue?)

inductive IntegerType where
  | byte
  | short
  | int
  | long
  deriving DecidableEq, Repr

namespace IntegerType

def all : List IntegerType := [byte, short, int, long]

def name : IntegerType → String
  | byte => "byte"
  | short => "short"
  | int => "int"
  | long => "long"

-- The first number that is too large.
def limit : IntegerType → Nat
  | byte => 0x80
  | short => 0x8000
  | int => 0x80000000
  | long => 0x8000000000000000

def Holds (t : IntegerType) (k : Int) : Prop := -t.limit ≤ k ∧ k < t.limit

instance (t : IntegerType) (k : Int) : Decidable (t.Holds k) := inferInstanceAs (Decidable (_ ∧ _))

-- The value of the low bits of a number, in two's complement.
def wrap (t : IntegerType) (k : Int) : Int := k.bmod (2 * t.limit)

-- What a number is before it is cast. There are no literals of the smaller types.
def promoted : IntegerType → IntegerType
  | long => long
  | _ => int

end IntegerType

-- A row of digits. Underscores may stand between two of them.
def numeral? (base : Nat) (s : List Char) : Option Nat :=
  if s.head? = some '_' || s.getLast? = some '_' then none else digits? base (s.filter (· ≠ '_'))

-- A literal in a base other than ten may use all bits of its type.
def pattern? (t : IntegerType) (base : Nat) (s : List Char) : Option Nat :=
  (numeral? base s).filter (· < 2 * t.limit)

-- A decimal literal is a value of its type, or behind a minus sign the first number that is none.
def decimal? (t : IntegerType) (negated : Bool) (s : List Char) : Option Nat :=
  (numeral? 10 s).filter fun n => n < t.limit || n = t.limit && negated

-- A zero in front makes a literal octal, unless a letter behind it names another base.
def magnitude? (t : IntegerType) (negated : Bool) : List Char → Option Nat
  | '0' :: c :: s =>
    if c = 'x' || c = 'X' then pattern? t 16 s
    else if c = 'b' || c = 'B' then pattern? t 2 s
    else pattern? t 8 ((c :: s).dropWhile (· = '_'))
  | s => decimal? t negated s

-- A literal is an `int` unless a letter behind it makes it a `long`.
def integer? (negated : Bool) (s : List Char) : Option (IntegerType × Int) :=
  let (t, digits) :=
    if s.getLast?.any fun c => c = 'l' || c = 'L' then (IntegerType.long, s.dropLast)
    else (.int, s)
  (magnitude? t negated digits).map fun n : Nat => (t, t.wrap n)

-- Characters that may stand between the parts of an expression.
def isLayout (c : Char) : Bool := c.isWhitespace || c = '\x0c'

def skipBlanks (s : List Char) : List Char := s.dropWhile isLayout

def signed? : List Char → Option (IntegerType × Int)
  | '+' :: s => integer? false (skipBlanks s)
  | '-' :: s => (integer? true (skipBlanks s)).map fun (t, n) => (t, t.wrap (-n))
  | s => integer? false s

def cast? (s : List Char) : Option (IntegerType × List Char) :=
  IntegerType.all.findSome? fun t =>
    (stripStart? ("(" ++ t.name ++ ")").toList s).map fun rest => (t, skipBlanks rest)

-- The type and the value of an integer literal with a sign and a cast in front of it, or without.
def constant? (s : List Char) : Option (IntegerType × Int) :=
  match cast? s with
  | some (t, rest) => (signed? rest).map fun (_, n) => (t, t.wrap n)
  | none => signed? s

-- A zero in front of other digits, the letter of a `long`, a cast that cuts off bits, and the least
-- value of a type, whose digits are no literal without the sign.
example : constant? "017".toList = some (.int, 15) ∧ constant? "08".toList = none ∧
    constant? "-0x1_0L".toList = some (.long, -16) ∧
    constant? "(byte) 300".toList = some (.byte, 44) ∧
    constant? "-2147483648".toList = some (.int, -2147483648) ∧
    constant? "2147483648".toList = none := by
  decide +kernel

namespace IntegerType

variable {t : IntegerType} {k : Int}

theorem name_inj {t t' : IntegerType} : t.name = t'.name ↔ t = t' := by
  cases t <;> cases t' <;> decide

theorem name_mem (t : IntegerType) : t.name ∈ all.map name := by cases t <;> decide

theorem limit_pos (t : IntegerType) : 0 < t.limit := by cases t <;> decide

theorem limit_le_promoted (t : IntegerType) : t.limit ≤ t.promoted.limit := by
  cases t <;> decide

theorem limit_dvd_promoted (t : IntegerType) : 2 * t.limit ∣ 2 * t.promoted.limit := by
  cases t <;> decide

theorem holds_wrap (t : IntegerType) (k : Int) : t.Holds (t.wrap k) := by
  have hpos := t.limit_pos
  have hlow := Int.le_bmod (x := k) (m := 2 * t.limit) (by omega)
  have hhigh := Int.bmod_lt (x := k) (m := 2 * t.limit) (by omega)
  unfold Holds wrap
  omega

theorem wrap_of_holds (h : t.Holds k) : t.wrap k = k := by
  obtain ⟨hlow, hhigh⟩ := h
  refine Int.bmod_eq_of_le ?_ ?_
  · omega
  · omega

theorem wrap_promoted (t : IntegerType) (k : Int) : t.wrap (t.promoted.wrap k) = t.wrap k :=
  Int.bmod_bmod_of_dvd t.limit_dvd_promoted

theorem wrap_neg_wrap (t : IntegerType) (k : Int) : t.wrap (-t.wrap k) = t.wrap (-k) :=
  Int.bmod_neg_bmod

end IntegerType

variable {ds : List Char}

structure Digits (ds : List Char) : Prop where
  ne_nil : ds ≠ []
  isDigit : ∀ c ∈ ds, c.isDigit = true

instance (ds : List Char) : Decidable (Digits ds) :=
  decidable_of_iff (ds ≠ [] ∧ ds.all Char.isDigit = true)
    ⟨fun h => ⟨h.1, List.all_eq_true.mp h.2⟩, fun h => ⟨h.ne_nil, List.all_eq_true.mpr h.isDigit⟩⟩

theorem ne_of_isDigit {c d : Char} (hc : c.isDigit = true) (hd : d.isDigit = false) : c ≠ d := by
  rintro rfl
  rw [hc] at hd
  cases hd

theorem digitValue?_of_isDigit {base : Nat} {c : Char} (h : c.isDigit = true) :
    digitValue? base c = if c.toNat - '0'.toNat < base then some (c.toNat - '0'.toNat) else none := by
  simp only [digitValue?, h, if_true, Option.filter_some, decide_eq_true_eq]

-- Decimal digits make a number in another base if all of them are digits of that base.
theorem Digits.digits?_eq_some (h : Digits ds) {base n : Nat} :
    digits? base ds = some n ↔
      (∀ c ∈ ds, c.toNat - '0'.toNat < base) ∧ Nat.ofDigitChars base ds 0 = n := by
  obtain ⟨hne, hds⟩ := h
  have hfold : ∀ m, ds.foldlM (fun m c => (digitValue? base c).map (m * base + ·)) m = some n ↔
      (∀ c ∈ ds, c.toNat - '0'.toNat < base) ∧ Nat.ofDigitChars base ds m = n := by
    clear hne
    induction ds with
    | nil => simp
    | cons c ds ih =>
      intro m
      obtain ⟨hc, hds⟩ := List.forall_mem_cons.mp hds
      rw [List.foldlM_cons, digitValue?_of_isDigit hc, Nat.ofDigitChars_cons, Nat.mul_comm base,
        List.forall_mem_cons, and_assoc]
      by_cases hlt : c.toNat - '0'.toNat < base
      · rw [if_pos hlt, and_iff_right hlt]
        exact ih hds _
      · rw [if_neg hlt]
        exact iff_of_false nofun fun hall => hlt hall.1
  rw [digits?, if_neg (by simpa using hne), hfold]

-- By induction from the back: the last digit counts the same in both bases, all others less.
theorem octal_le (h : ∀ c ∈ ds, c.toNat - '0'.toNat < 8) :
    Nat.ofDigitChars 8 ds 0 ≤ Nat.ofDigitChars 10 ds 0 ∧
      (Nat.ofDigitChars 8 ds 0 = Nat.ofDigitChars 10 ds 0 ↔ Nat.ofDigitChars 10 ds 0 < 8) := by
  induction ds using List.reverseRecOn with
  | nil => simp
  | append_singleton ds c ih =>
    obtain ⟨hds, hc⟩ := List.forall_mem_append.mp h
    have hlast := hc c (List.mem_singleton_self c)
    have hall := ih hds
    simp only [Nat.ofDigitChars_append, Nat.ofDigitChars_cons, Nat.ofDigitChars_nil]
    omega

theorem digit_le (n : Nat) {c : Char} (h : c ∈ ds) :
    c.toNat - '0'.toNat ≤ Nat.ofDigitChars 10 ds n := by
  induction ds using List.reverseRecOn with
  | nil => cases h
  | append_singleton ds d ih =>
    simp only [Nat.ofDigitChars_append, Nat.ofDigitChars_cons, Nat.ofDigitChars_nil]
    rcases List.mem_append.mp h with h | h
    · have := ih h
      omega
    · obtain rfl := List.mem_singleton.mp h
      omega

-- A number with the sign in front of a text.
def withSign (s : List Char) (n : Nat) : Int := if s.head? == some '-' then -n else n

-- A decimal integer of 64 bits.
def integer64? (s : List Char) : Option Int :=
  (some (withSign s (Nat.ofDigitChars 10 (dropSign s) 0))).filter fun k =>
    Digits (dropSign s) ∧ IntegerType.long.Holds k

theorem integer64?_eq_some {s : List Char} {k : Int} :
    integer64? s = some k ↔
      k = withSign s (Nat.ofDigitChars 10 (dropSign s) 0) ∧ Digits (dropSign s) ∧
        IntegerType.long.Holds k := by
  rw [integer64?, Option.filter_eq_some_iff, Option.some.injEq, decide_eq_true_eq]
  exact and_congr_left fun _ => eq_comm

theorem holds_withSign {t : IntegerType} {s : List Char} {n : Nat} :
    t.Holds (withSign s n) ↔ n < t.limit ∨ n = t.limit ∧ (s.head? == some '-') = true := by
  have hpos := t.limit_pos
  unfold IntegerType.Holds withSign
  cases s.head? == some '-' with
  | true =>
    simp only [if_true, and_true]
    omega
  | false =>
    simp only [Bool.false_eq_true, if_false, and_false, or_false]
    omega

theorem holds_withSign_of_le {t : IntegerType} {s : List Char} {n m : Nat} (hle : m ≤ n)
    (h : t.Holds (withSign s n)) : t.Holds (withSign s m) := by
  have hpos := t.limit_pos
  unfold IntegerType.Holds withSign at *
  split_ifs at h ⊢
  · omega
  · omega

theorem withSign_inj {s : List Char} {n m : Nat} : withSign s n = withSign s m ↔ n = m := by
  unfold withSign
  split <;> omega

theorem natAbs_withSign (s : List Char) (n : Nat) : (withSign s n).natAbs = n := by
  unfold withSign
  split <;> omega

theorem isInteger64_eq_true {s : List Char} {k : Int} (h : integer64? s = some k) :
    isInteger64 s = true := by
  obtain ⟨rfl, ⟨hne, hdigit⟩, hholds⟩ := integer64?_eq_some.mp h
  have hvalue : (dropSign s).foldl (fun n c => n * 10 + (c.toNat - '0'.toNat)) 0 =
      Nat.ofDigitChars 10 (dropSign s) 0 := by
    simp only [Nat.ofDigitChars_eq_foldl, Nat.mul_comm]
  rw [holds_withSign] at hholds
  rw [isInteger64, hvalue]
  simp only [Bool.and_eq_true, Bool.or_eq_true, decide_eq_true_eq, Bool.not_eq_true',
    List.isEmpty_eq_false_iff]
  exact ⟨⟨hne, List.all_eq_true.mpr hdigit⟩, hholds⟩

section

variable {t : IntegerType} {negated : Bool} {n m : Nat}

theorem numeral?_of_digits (base : Nat) (h : Digits ds) : numeral? base ds = digits? base ds := by
  have hmark : ∀ c ∈ ds, c ≠ '_' := fun c hc => ne_of_isDigit (h.isDigit c hc) rfl
  have hends : ¬(ds.head? = some '_' || ds.getLast? = some '_') = true := by
    simp only [Bool.or_eq_true, decide_eq_true_eq]
    rintro (hend | hend)
    · exact hmark _ (List.mem_of_head? hend) rfl
    · exact hmark _ (List.mem_of_getLast? hend) rfl
  rw [numeral?, if_neg hends, List.filter_eq_self.mpr fun c hc => by simpa using hmark c hc]

theorem magnitude?_decimal (h : Digits ds) (hhead : ds.head? ≠ some '0' ∨ ds = ['0']) :
    magnitude? t negated ds =
      (some (Nat.ofDigitChars 10 ds 0)).filter fun n => n < t.limit || n = t.limit && negated := by
  have hread : magnitude? t negated ds = decimal? t negated ds := by
    unfold magnitude?
    split
    · rcases hhead with hhead | hhead
      · exact absurd rfl hhead
      · cases hhead
    · rfl
  have hall : ∀ c ∈ ds, c.toNat - '0'.toNat < 10 := fun c hc => by
    have hle := (Char.isDigit_iff_toNat.mp (h.isDigit c hc)).2
    simp only [Char.reduceToNat] at hle ⊢
    omega
  rw [hread, decimal?, numeral?_of_digits 10 h, h.digits?_eq_some.mpr ⟨hall, rfl⟩]

theorem magnitude?_octal {c : Char} (h : Digits (c :: ds)) :
    magnitude? t negated ('0' :: c :: ds) = (digits? 8 (c :: ds)).filter (· < 2 * t.limit) := by
  have hne : ∀ d : Char, d.isDigit = false → c ≠ d := fun d =>
    ne_of_isDigit (h.isDigit c (List.mem_cons_self ..))
  have hmark : ¬(c = '_') := hne _ rfl
  simp only [magnitude?, hne 'x' rfl, hne 'X' rfl, hne 'b' rfl, hne 'B' rfl, decide_false,
    Bool.or_false, Bool.false_eq_true, if_false, List.dropWhile_cons, hmark, pattern?,
    numeral?_of_digits 8 h]

-- Digits are decimal, or a zero stands in front of others.
theorem Digits.decimal_or_octal (h : Digits ds) :
    (ds.head? ≠ some '0' ∨ ds = ['0']) ∨ ∃ c rest, ds = '0' :: c :: rest ∧ Digits (c :: rest) := by
  obtain - | ⟨c, - | ⟨d, rest⟩⟩ := ds
  · exact absurd rfl h.ne_nil
  · by_cases hc : c = '0'
    · exact .inl (.inr (by rw [hc]))
    · exact .inl (.inl (by simpa using hc))
  · by_cases hc : c = '0'
    · exact .inr ⟨d, rest, by rw [hc], List.cons_ne_nil _ _, (List.forall_mem_cons.mp h.isDigit).2⟩
    · exact .inl (.inl (by simpa using hc))

theorem ofDigitChars_zero_cons (base : Nat) (ds : List Char) :
    Nat.ofDigitChars base ('0' :: ds) 0 = Nat.ofDigitChars base ds 0 := by
  rw [Nat.ofDigitChars_cons, Nat.mul_zero]
  rfl

-- Digits are read as the number that they are in base ten, or as a smaller one.
theorem le_of_magnitude? (h : Digits ds) (hm : magnitude? t negated ds = some m) :
    m ≤ Nat.ofDigitChars 10 ds 0 ∧
      (m = Nat.ofDigitChars 10 ds 0 → ds.head? ≠ some '0' ∨ m < 8) := by
  rcases h.decimal_or_octal with hplain | ⟨c, rest, rfl, hrest⟩
  · rw [magnitude?_decimal h hplain] at hm
    obtain ⟨heq, -⟩ := Option.filter_eq_some_iff.mp hm
    obtain rfl := Option.some.inj heq
    refine ⟨Nat.le_refl _, fun _ => hplain.imp_right ?_⟩
    rintro rfl
    decide
  · rw [magnitude?_octal hrest] at hm
    obtain ⟨heq, -⟩ := Option.filter_eq_some_iff.mp hm
    obtain ⟨hall, rfl⟩ := hrest.digits?_eq_some.mp heq
    obtain ⟨hle, hiff⟩ := octal_le hall
    rw [ofDigitChars_zero_cons]
    exact ⟨hle, fun hsame => .inr (hsame ▸ hiff.mp hsame)⟩

theorem magnitude?_eq_some (h : Digits ds)
    (hhead : ds.head? ≠ some '0' ∨ Nat.ofDigitChars 10 ds 0 < 8)
    (hlimit : Nat.ofDigitChars 10 ds 0 < t.limit ∨
      Nat.ofDigitChars 10 ds 0 = t.limit ∧ negated = true) :
    magnitude? t negated ds = some (Nat.ofDigitChars 10 ds 0) := by
  rcases h.decimal_or_octal with hplain | ⟨c, rest, rfl, hrest⟩
  · rw [magnitude?_decimal h hplain, Option.filter_some, if_pos]
    simpa using hlimit
  · rw [ofDigitChars_zero_cons] at hhead hlimit ⊢
    have hsmall : Nat.ofDigitChars 10 (c :: rest) 0 < 8 := hhead.resolve_left fun hne => hne rfl
    have hall : ∀ d ∈ c :: rest, d.toNat - '0'.toNat < 8 := fun d hd =>
      Nat.lt_of_le_of_lt (digit_le 0 hd) hsmall
    have hpos := t.limit_pos
    rw [magnitude?_octal hrest, hrest.digits?_eq_some.mpr ⟨hall, rfl⟩,
      (octal_le hall).2.mpr hsmall, Option.filter_some, if_pos]
    rw [decide_eq_true_eq]
    omega

end

namespace IntegerType

-- What is written in front of the digits, and behind them.
def front : IntegerType → String
  | byte => "(" ++ byte.name ++ ") "
  | short => "(" ++ short.name ++ ") "
  | int => ""
  | long => ""

def tail : IntegerType → String
  | byte => ""
  | short => ""
  | int => ""
  | long => "L"

end IntegerType

theorem IntegerType.promoted_of_front {t : IntegerType} (h : t.front = "") : t.promoted = t := by
  cases t with
  | byte | short => exact absurd h (by decide)
  | int | long => rfl

theorem coerce_of_isInteger64 {value : String} (t : IntegerType)
    (h : isInteger64 (trimmed value).toList = true) :
    coerce value t.name = t.front ++ trimmed value ++ t.tail := by
  have htext : isTextType t.name = false := by cases t <;> decide +kernel
  unfold coerce
  dsimp only
  rw [htext, if_neg Bool.false_ne_true]
  split
  case h_5 hname =>
    obtain rfl : t = .int := IntegerType.name_inj.mp hname
    rw [if_pos h, IntegerType.front, IntegerType.tail, String.empty_append, String.append_empty]
  case h_6 hname =>
    obtain rfl : t = .long := IntegerType.name_inj.mp hname
    rw [if_pos h, IntegerType.front, IntegerType.tail, String.empty_append]
  case h_7 hname =>
    obtain rfl : t = .short := IntegerType.name_inj.mp hname
    rw [if_pos h, IntegerType.front, IntegerType.tail, String.append_empty]
  case h_8 hname =>
    obtain rfl : t = .byte := IntegerType.name_inj.mp hname
    rw [if_pos h, IntegerType.front, IntegerType.tail, String.append_empty]
  case h_11 hint hlong hshort hbyte _ _ =>
    cases t with
    | byte => exact absurd rfl hbyte
    | short => exact absurd rfl hshort
    | int => exact absurd rfl hint
    | long => exact absurd rfl hlong
  all_goals
    -- The names of other types.
    rename_i hname
    have hmem := t.name_mem
    rw [hname] at hmem
    exact absurd hmem (by decide)

section

variable {s : List Char} {t : IntegerType}

theorem skipBlanks_cons {c : Char} (h : isLayout c = false) (s : List Char) :
    skipBlanks (c :: s) = c :: s :=
  List.dropWhile_cons_of_neg (by simp [h])

theorem not_isLayout_of_isDigit {c : Char} (h : c.isDigit = true) : isLayout c = false := by
  simp [isLayout, Char.isWhitespace, ne_of_isDigit h]

theorem skipBlanks_digits (h : Digits ds) (rest : List Char) :
    skipBlanks (ds ++ rest) = ds ++ rest := by
  obtain ⟨c, ds, rfl⟩ := List.exists_cons_of_ne_nil h.ne_nil
  exact skipBlanks_cons (not_isLayout_of_isDigit (h.isDigit c (List.mem_cons_self ..))) _

-- The letter of a type stands behind the digits, and no digit is such a letter.
theorem integer?_digits (h : Digits ds) (negated : Bool) :
    integer? negated (ds ++ t.tail.toList) =
      (magnitude? t.promoted negated ds).map fun n : Nat => (t.promoted, t.promoted.wrap n) := by
  have hlast : (ds.getLast?.any fun c => c = 'l' || c = 'L') = false := by
    rw [List.getLast?_eq_some_getLast h.ne_nil, Option.any_some]
    have hdigit := h.isDigit _ (List.getLast_mem h.ne_nil)
    simp [ne_of_isDigit hdigit]
  cases t with
  | long =>
    simp [integer?, IntegerType.tail, IntegerType.promoted]
  | byte | short | int =>
    simp only [integer?, IntegerType.tail, IntegerType.promoted, String.toList_empty,
      List.append_nil, hlast, Bool.false_eq_true, if_false]

theorem signed?_digits (h : Digits (dropSign s)) :
    signed? (s ++ t.tail.toList) =
      (magnitude? t.promoted (s.head? == some '-') (dropSign s)).map fun n : Nat =>
        (t.promoted, t.promoted.wrap (withSign s n)) := by
  cases s with
  | nil => exact absurd rfl h.ne_nil
  | cons c s =>
    by_cases hplus : c = '+'
    · subst hplus
      have hdigits : Digits s := h
      have hread : signed? ('+' :: s ++ t.tail.toList) =
          integer? false (skipBlanks (s ++ t.tail.toList)) := rfl
      rw [hread, skipBlanks_digits hdigits, integer?_digits hdigits]
      rfl
    by_cases hminus : c = '-'
    · subst hminus
      have hdigits : Digits s := h
      have hread : signed? ('-' :: s ++ t.tail.toList) =
          (integer? true (skipBlanks (s ++ t.tail.toList))).map fun (t, n) => (t, t.wrap (-n)) :=
        rfl
      rw [hread, skipBlanks_digits hdigits, integer?_digits hdigits, Option.map_map]
      simp only [Function.comp_def, IntegerType.wrap_neg_wrap]
      rfl
    · have hunsigned : ((c :: s).head? == some '-') = false := by simpa using hminus
      have hsame : dropSign (c :: s) = c :: s := by
        unfold dropSign
        split <;> simp_all
      have hread : signed? (c :: s ++ t.tail.toList) =
          integer? false (c :: s ++ t.tail.toList) := by
        unfold signed?
        split <;> simp_all
      rw [hsame] at h ⊢
      rw [hread, integer?_digits h, hunsigned]
      simp only [withSign, hunsigned, Bool.false_eq_true, if_false]

-- A sign or a digit stands at the front.
theorem exists_head (h : Digits (dropSign s)) :
    ∃ c rest, s = c :: rest ∧ isLayout c = false ∧ c ≠ '(' ∧ c ≠ 'o' := by
  cases s with
  | nil => exact absurd rfl h.ne_nil
  | cons c s =>
    refine ⟨c, s, rfl, ?_⟩
    unfold dropSign at h
    split at h
    · next heq =>
      cases heq
      decide
    · next heq =>
      cases heq
      decide
    · have hdigit := h.isDigit c (List.mem_cons_self ..)
      exact ⟨not_isLayout_of_isDigit hdigit, ne_of_isDigit hdigit rfl, ne_of_isDigit hdigit rfl⟩

theorem cast?_front (h : t.front ≠ "") (rest : List Char) :
    cast? (t.front.toList ++ rest) = some (t, skipBlanks rest) := by
  cases t with
  | byte | short => rfl
  | int | long => exact absurd rfl h

theorem cast?_cons {c : Char} (h : c ≠ '(') (s : List Char) : cast? (c :: s) = none := by
  refine List.findSome?_eq_none_iff.mpr fun t _ => ?_
  rw [String.toList_append, String.toList_append]
  show (stripStart? ('(' :: (t.name.toList ++ ")".toList)) (c :: s)).map _ = none
  rw [stripStart?, if_neg h.symm]
  rfl

theorem constant?_coerce {value : String} (t : IntegerType)
    (hinteger : isInteger64 (trim value.toList) = true)
    (h : Digits (dropSign (trim value.toList))) :
    constant? (coerce value t.name).toList =
      (magnitude? t.promoted ((trim value.toList).head? == some '-')
        (dropSign (trim value.toList))).map fun n : Nat =>
          (t, t.wrap (withSign (trim value.toList) n)) := by
  have hbare : (trimmed value).toList = trim value.toList := String.toList_ofList
  have hread := signed?_digits (t := t) h
  rw [coerce_of_isInteger64 t (hbare ▸ hinteger), String.toList_append, String.toList_append, hbare,
    List.append_assoc]
  obtain ⟨c, rest, hs, hlayout, hopen, -⟩ := exists_head h
  rw [hs] at hread ⊢
  by_cases hfront : t.front = ""
  · rw [hfront, String.toList_empty, List.nil_append, constant?, List.cons_append, cast?_cons hopen,
      ← List.cons_append, hread, IntegerType.promoted_of_front hfront]
  · rw [constant?, cast?_front hfront, List.cons_append, skipBlanks_cons hlayout, ← List.cons_append]
    simp only [hread, Option.map_map, Function.comp_def, IntegerType.wrap_promoted]

-- What is left to the runtime begins with a cast and a name.
theorem coerce_ne_convert {value : String} (t : IntegerType)
    (hinteger : isInteger64 (trim value.toList) = true)
    (h : Digits (dropSign (trim value.toList))) :
    coerce value t.name ≠ convert (quote value) t.name := by
  have hbare : (trimmed value).toList = trim value.toList := String.toList_ofList
  obtain ⟨c, rest, hs, -, hopen, hname⟩ := exists_head h
  intro heq
  have hlist := congrArg String.toList heq
  rw [coerce_of_isInteger64 t (hbare ▸ hinteger), String.toList_append, String.toList_append, hbare,
    hs] at hlist
  cases t with
  | byte | short =>
    simp [convert, IntegerType.front] at hlist
    exact hname hlist.1
  | int | long =>
    simp [convert, IntegerType.front] at hlist
    exact hopen hlist.1

end

-- The text of an integer is never left to the runtime, and what is written for it stands for the
-- integer just if the type holds it and no zero makes it octal.
theorem coerce_integer_iff {value : String} {k : Int} (t : IntegerType)
    (h : integer64? (trim value.toList) = some k) :
    coerce value t.name ≠ convert (quote value) t.name ∧
      (constant? (coerce value t.name).toList = some (t, k) ↔
        t.Holds k ∧ ((dropSign (trim value.toList)).head? ≠ some '0' ∨ k.natAbs < 8)) := by
  have hinteger := isInteger64_eq_true h
  obtain ⟨rfl, hdigits, -⟩ := integer64?_eq_some.mp h
  refine ⟨coerce_ne_convert t hinteger hdigits, ?_⟩
  rw [constant?_coerce t hinteger hdigits, Option.map_eq_some_iff, natAbs_withSign]
  constructor
  · rintro ⟨m, hm, heq⟩
    have hvalue := (Prod.mk.inj heq).2
    have hholds := hvalue ▸ t.holds_wrap _
    obtain ⟨hle, hsame⟩ := le_of_magnitude? hdigits hm
    rw [IntegerType.wrap_of_holds (holds_withSign_of_le hle hholds), withSign_inj] at hvalue
    exact ⟨hholds, hvalue ▸ hsame hvalue⟩
  · rintro ⟨hholds, hhead⟩
    refine ⟨_, magnitude?_eq_some hdigits hhead ?_, by rw [IntegerType.wrap_of_holds hholds]⟩
    rcases holds_withSign.mp hholds with hlt | ⟨heq, hsign⟩
    · exact .inl (Nat.lt_of_lt_of_le hlt t.limit_le_promoted)
    · exact (Nat.lt_or_eq_of_le (heq ▸ t.limit_le_promoted)).imp_right fun hlimit => ⟨hlimit, hsign⟩

-- The least value of a type and a zero in front of one digit are kept. A zero in front of more
-- digits makes eight of a ten, and numbers that are too large become another number or no number at
-- all.
theorem coerce_integer_iff_sample :
    constant? (coerce " -2147483648 " "int").toList = some (.int, -2147483648) ∧
      constant? (coerce "+07" "short").toList = some (.short, 7) ∧
      constant? (coerce "010" "int").toList ≠ some (.int, 10) ∧
      constant? (coerce "128" "byte").toList ≠ some (.byte, 128) ∧
      constant? (coerce "5000000000" "int").toList ≠ some (.int, 5000000000) ∧
      coerce "5000000000" "int" ≠ convert (quote "5000000000") "int" := by
  refine ⟨?_, ?_, fun heq => ?_, fun heq => ?_, fun heq => ?_, ?_⟩
  · exact (coerce_integer_iff .int (by decide +kernel)).2.mpr (by decide +kernel)
  · exact (coerce_integer_iff .short (by decide +kernel)).2.mpr (by decide +kernel)
  · exact absurd ((coerce_integer_iff .int (by decide +kernel)).2.mp heq) (by decide +kernel)
  · exact absurd ((coerce_integer_iff .byte (by decide +kernel)).2.mp heq) (by decide +kernel)
  · exact absurd ((coerce_integer_iff .int (by decide +kernel)).2.mp heq) (by decide +kernel)
  · exact (coerce_integer_iff (k := 5000000000) .int (by decide +kernel)).1

end PageCompiler.ClassText
