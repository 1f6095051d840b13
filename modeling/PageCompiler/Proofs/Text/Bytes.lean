import PageCompiler.Text.Size
import PageCompiler.Text.Utf16
import PageCompiler.Text.Utf8
import Mathlib.Data.List.Basic

-- A byte below 0x80 is a character of its own, and no byte of a longer character is below 0x80, so
-- that an ASCII character is found byte by byte. A text is read back from its units, or from their
-- bytes in either order.
namespace PageCompiler.Text.Utf8

variable {c : Char} {s : List Char}

@[simp] theorem encode_nil : encode [] = [] := rfl

@[simp] theorem encode_cons (c : Char) (s : List Char) :
    encode (c :: s) = encodeChar c ++ encode s := rfl

theorem encode_append (s t : List Char) : encode (s ++ t) = encode s ++ encode t :=
  List.flatMap_append ..

theorem ofString_append (s t : String) : ofString (s ++ t) = ofString s ++ ofString t := by
  rw [ofString, String.toList_append, encode_append]
  rfl

-- The bytes of a literal, from its characters: the kernel takes a literal apart in steps that each
-- read what is left of it, so that a run on a long literal starts from its characters.
theorem ofString_ofList (s : List Char) : ofString (String.ofList s) = encode s := by
  rw [ofString, String.toList_ofList]

theorem encodeChar_ascii (h : c.toNat < 0x80) : encodeChar c = [byte c.toNat] := if_pos h

theorem toNat_byte {n : Nat} (h : n < 0x100) : (byte n).toNat = n := by
  rw [byte, UInt8.toNat_ofNat']
  exact Nat.mod_eq_of_lt h

theorem toNat_lt (c : Char) : c.toNat < 0x110000 := by
  have hvalid : c.toNat.isValidChar := c.valid
  rcases hvalid with h | ⟨-, h⟩
  · omega
  · exact h

theorem charOf?_toNat (c : Char) : charOf? 0 c.toNat = some c := by
  have hvalid : c.toNat.isValidChar := c.valid
  rw [charOf?, dif_pos ⟨Nat.zero_le _, hvalid⟩]
  rfl

theorem utf8Size_eq (c : Char) :
    c.utf8Size =
      if c.toNat < 0x80 then 1 else if c.toNat < 0x800 then 2
      else if c.toNat < 0x10000 then 3 else 4 := by
  have hle : ∀ n : UInt32, c.val ≤ n ↔ c.toNat < n.toNat + 1 := fun n => by
    rw [UInt32.le_iff_toNat_le, Nat.lt_add_one_iff]
    rfl
  simp only [Char.utf8Size, hle]
  rfl

theorem length_encodeChar (c : Char) : (encodeChar c).length = c.utf8Size := by
  rw [utf8Size_eq]
  unfold encodeChar
  dsimp only
  split_ifs <;> rfl

theorem length_encode (s : List Char) : (encode s).length = byteSize s := by
  induction s with
  | nil => rfl
  | cons c s ih => rw [encode_cons, List.length_append, length_encodeChar, ih, byteSize_cons]

theorem byte_eq_iff {d : Char} (hc : c.toNat < 0x80) (hd : d.toNat < 0x80) :
    byte c.toNat = byte d.toNat ↔ c = d := by
  rw [← UInt8.toNat_inj, toNat_byte (by omega), toNat_byte (by omega), Char.toNat_inj]

-- The bytes of a character beyond ASCII are beyond ASCII too.
theorem le_of_mem_encodeChar (h : 0x80 ≤ c.toNat) {b : UInt8} (hb : b ∈ encodeChar c) :
    0x80 ≤ b.toNat := by
  have hlt := toNat_lt c
  unfold encodeChar at hb
  dsimp only at hb
  split_ifs at hb with h1 h2 h3
  · omega
  all_goals
    simp only [List.mem_cons, List.not_mem_nil, or_false] at hb
    rcases hb with rfl | rfl | rfl | rfl <;> rw [toNat_byte (by omega)] <;> omega

-- An ASCII byte in front of the bytes of a text is its first character.
theorem head?_encode {b : UInt8} (hb : b.toNat < 0x80) :
    (encode s).head? = some b ↔ ∃ c rest, s = c :: rest ∧ c.toNat = b.toNat := by
  cases s with
  | nil => simp
  | cons c s =>
    rw [encode_cons]
    by_cases hc : c.toNat < 0x80
    · rw [encodeChar_ascii hc, List.singleton_append, List.head?_cons, Option.some.injEq,
        ← UInt8.toNat_inj, toNat_byte (by omega)]
      simp
    · have hne : encodeChar c ≠ [] := by
        rw [← List.length_pos_iff, length_encodeChar]
        exact c.utf8Size_pos
      obtain ⟨b', bs, hbs⟩ := List.exists_cons_of_ne_nil hne
      have hle : 0x80 ≤ b'.toNat :=
        le_of_mem_encodeChar (by omega) (hbs ▸ List.mem_cons_self ..)
      rw [hbs, List.cons_append, List.head?_cons, Option.some.injEq]
      constructor
      · rintro rfl
        omega
      · rintro ⟨_, _, heq, hnat⟩
        cases heq
        omega

end PageCompiler.Text.Utf8

namespace PageCompiler.Text.Utf16

open Utf8 (charOf? charOf?_toNat toNat_byte)

variable {c : Char} {s : List Char} {us : List Nat}

-- The units of a text.
def units (s : List Char) : List Nat := s.flatMap unitsOf

@[simp] theorem units_nil : units [] = [] := rfl

@[simp] theorem units_cons (c : Char) (s : List Char) : units (c :: s) = unitsOf c ++ units s := rfl

-- A character in one unit is no half of a pair.
theorem not_surrogate (c : Char) : c.toNat < 0xD800 ∨ 0xDFFF < c.toNat := by
  have hvalid : c.toNat.isValidChar := c.valid
  rcases hvalid with h | ⟨h, -⟩
  · exact .inl h
  · exact .inr h

-- A character is one unit, its own number, or two that are surrogates.
theorem unitsOf_cases (c : Char) :
    unitsOf c = [c.toNat] ∨
      ∃ high low, unitsOf c = [high, low] ∧ 0xD800 ≤ high ∧ 0xD800 ≤ low := by
  by_cases hone : c.toNat < 0x10000
  · exact .inl (if_pos hone)
  · exact .inr ⟨_, _, if_neg hone, by omega, by omega⟩

theorem decodeUnits?_unitsOf (c : Char) (us : List Nat) :
    decodeUnits? (unitsOf c ++ us) = (decodeUnits? us).map (c :: ·) := by
  have hlt := Utf8.toNat_lt c
  by_cases hone : c.toNat < 0x10000
  · have hsingle : unitsOf c = [c.toNat] := if_pos hone
    have hhigh : isHigh c.toNat = false := by
      have hvalid := not_surrogate c
      simp only [isHigh, Bool.and_eq_false_iff, decide_eq_false_iff_not]
      omega
    rw [hsingle, List.singleton_append, decodeUnits?.eq_def]
    dsimp only
    rw [if_neg (by simp [hhigh]), charOf?_toNat]
    cases decodeUnits? us <;> rfl
  · have hpair : unitsOf c =
        [0xD800 + (c.toNat - 0x10000) / 0x400, 0xDC00 + (c.toNat - 0x10000) % 0x400] := if_neg hone
    have hhigh : isHigh (0xD800 + (c.toNat - 0x10000) / 0x400) = true := by
      simp only [isHigh, Bool.and_eq_true, decide_eq_true_eq]
      omega
    have hlow : isLow (0xDC00 + (c.toNat - 0x10000) % 0x400) = true := by
      simp only [isLow, Bool.and_eq_true, decide_eq_true_eq]
      omega
    have hnumber : 0x10000 + (0xD800 + (c.toNat - 0x10000) / 0x400 - 0xD800) * 0x400 +
        (0xDC00 + (c.toNat - 0x10000) % 0x400 - 0xDC00) = c.toNat := by omega
    rw [hpair]
    show decodeUnits? (_ :: _ :: us) = _
    rw [decodeUnits?, if_pos hhigh, if_pos hlow, hnumber, charOf?_toNat]
    cases decodeUnits? us <;> rfl

-- A text is read back from its units.
theorem decodeUnits?_units (s : List Char) : decodeUnits? (units s) = some s := by
  induction s with
  | nil => rfl
  | cons c s ih => rw [units_cons, decodeUnits?_unitsOf, ih, Option.map_some]

variable {order : ByteOrder}

theorem units?_unitBytes {u : Nat} (hu : u < 0x10000) (bs : Utf8.Bytes) :
    units? order (unitBytes order u ++ bs) = (units? order bs).map (u :: ·) := by
  have hhigh : (Utf8.byte (u / 256)).toNat = u / 256 := toNat_byte (by omega)
  have hlow : (Utf8.byte (u % 256)).toNat = u % 256 := toNat_byte (by omega)
  have hback : u / 256 * 256 + u % 256 = u := Nat.div_add_mod' u 256
  cases order with
  | big =>
    rw [unitBytes, List.cons_append, List.singleton_append, units?, unitOf, hhigh, hlow, hback]
  | little =>
    rw [unitBytes, List.cons_append, List.singleton_append, units?, unitOf, hhigh, hlow, hback]

theorem units?_flatMap {us : List Nat} (hus : ∀ u ∈ us, u < 0x10000) (bs : Utf8.Bytes) :
    units? order (us.flatMap (unitBytes order) ++ bs) = (units? order bs).map (us ++ ·) := by
  induction us with
  | nil => cases h : units? order bs <;> simp [h]
  | cons u us ih =>
    obtain ⟨hu, hus⟩ := List.forall_mem_cons.mp hus
    rw [List.flatMap_cons, List.append_assoc, units?_unitBytes hu, ih hus, Option.map_map]
    rfl

theorem unitsOf_lt (c : Char) : ∀ u ∈ unitsOf c, u < 0x10000 := by
  have hlt := Utf8.toNat_lt c
  intro u hu
  unfold unitsOf at hu
  dsimp only at hu
  split_ifs at hu with hone
  · rw [List.mem_singleton.mp hu]
    exact hone
  · simp only [List.mem_cons, List.not_mem_nil, or_false] at hu
    omega

-- The bytes of a text hold its units.
theorem units?_encode (s : List Char) : units? order (encode order s) = some (units s) := by
  induction s with
  | nil => rfl
  | cons c s ih =>
    rw [encode, List.flatMap_cons, ← encode, units?_flatMap (unitsOf_lt c), ih, units_cons]
    rfl

theorem decode_encode (s : List Char) : decode order (encode order s) = .ok s := by
  rw [decode, units?_encode]
  dsimp only
  rw [decodeUnits?_units]

end PageCompiler.Text.Utf16
