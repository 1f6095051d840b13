-- Decoding takes the shortest form of a character only, and no surrogates.
namespace PageCompiler.Text.Utf8

abbrev Bytes := List UInt8

def byte (n : Nat) : UInt8 := UInt8.ofNat n

def encodeChar (c : Char) : Bytes :=
  let n := c.toNat
  if n < 0x80 then [byte n]
  else if n < 0x800 then [byte (0xC0 + n / 0x40), byte (0x80 + n % 0x40)]
  else if n < 0x10000 then
    [byte (0xE0 + n / 0x1000), byte (0x80 + n / 0x40 % 0x40), byte (0x80 + n % 0x40)]
  else
    [byte (0xF0 + n / 0x40000), byte (0x80 + n / 0x1000 % 0x40), byte (0x80 + n / 0x40 % 0x40),
      byte (0x80 + n % 0x40)]

def encode (s : List Char) : Bytes := s.flatMap encodeChar

-- The six bits a continuation byte carries.
def tailBits? (b : UInt8) : Option Nat :=
  if 0x80 ≤ b.toNat && b.toNat < 0xC0 then some (b.toNat - 0x80) else none

-- The character with this number, when it is one and no smaller form could have held it.
def charOf? (least n : Nat) : Option Char :=
  if h : least ≤ n ∧ n.isValidChar then some (Char.ofNatAux n h.2) else none

-- What the first byte of a character says: how many bytes follow, the least number of a character
-- of that length, and the bits it carries itself.
def lead? (b : UInt8) : Option (Nat × Nat × Nat) :=
  let n := b.toNat
  if n < 0x80 then some (0, 0, n)
  else if n < 0xC0 then none
  else if n < 0xE0 then some (1, 0x80, n - 0xC0)
  else if n < 0xF0 then some (2, 0x800, n - 0xE0)
  else if n < 0xF8 then some (3, 0x10000, n - 0xF0)
  else none

-- The number made up of the bits so far and those of the next continuation bytes.
def tails? : Nat → Nat → Bytes → Option (Nat × Bytes)
  | 0, bits, bs => some (bits, bs)
  | _ + 1, _, [] => none
  | n + 1, bits, b :: bs =>
    match tailBits? b with
    | some more => tails? n (bits * 0x40 + more) bs
    | none => none

theorem length_tails? {n bits v : Nat} {bs rest : Bytes} (h : tails? n bits bs = some (v, rest)) :
    rest.length ≤ bs.length := by
  fun_induction tails? n bits bs with
  | case1 => simp_all
  | case2 => simp at h
  | case3 _ _ _ _ _ _ ih => have := ih h; simp; omega
  | case4 => simp at h

-- The first character of the bytes and what follows it.
def next? : Bytes → Option (Char × Bytes)
  | [] => none
  | b :: bs =>
    match lead? b with
    | none => none
    | some (count, least, bits) =>
      match tails? count bits bs with
      | none => none
      | some (n, rest) => (charOf? least n).map fun c => (c, rest)

theorem length_next? {bs rest : Bytes} {c : Char} (h : next? bs = some (c, rest)) :
    rest.length < bs.length := by
  unfold next? at h
  repeat' split at h
  all_goals try simp at h
  rename_i ht
  have := length_tails? ht
  obtain ⟨_, _, _, rfl⟩ := h
  simp only [List.length_cons]
  omega

def decode? (bs : Bytes) : Option (List Char) :=
  match bs with
  | [] => some []
  | b :: bs =>
    match h : next? (b :: bs) with
    | none => none
    | some (c, rest) =>
      have := length_next? h
      (decode? rest).map (c :: ·)
termination_by bs.length
decreasing_by all_goals (simp only [List.length_cons] at *; omega)

-- The characters of the bytes, with nothing in the place of each byte that starts no character.
def symbols (bs : Bytes) : List (Option Char) :=
  match bs with
  | [] => []
  | b :: bs =>
    match h : next? (b :: bs) with
    | none => none :: symbols bs
    | some (c, rest) =>
      have := length_next? h
      some c :: symbols rest
termination_by bs.length
decreasing_by all_goals (simp only [List.length_cons] at *; omega)

def ofString (s : String) : Bytes := encode s.toList

def toString? (bs : Bytes) : Option String := (decode? bs).map String.ofList

end PageCompiler.Text.Utf8
