import PageCompiler.Proofs.Text.Bytes
import PageCompiler.Source.Encoding

-- Text is read back from its bytes character by character. Where it begins with an ASCII character
-- its bytes begin a character of their own, whatever stands in front of them, in each of the
-- encodings that keep ASCII as it is. A byte-order mark decides how the bytes behind it are read,
-- and they are read back as the text that was written, whatever the text or the options say about
-- encodings.
namespace PageCompiler

open Text

namespace Text.Utf8

variable {n bits v : Nat} {b : UInt8} {bs rest more : Bytes} {c : Char}

theorem tails?_append (h : tails? n bits bs = some (v, rest)) (more : Bytes) :
    tails? n bits (bs ++ more) = some (v, rest ++ more) := by
  fun_induction tails? n bits bs with
  | case1 bits bs =>
    cases h
    rfl
  | case2 => cases h
  | case3 n bits b bs more' hb ih =>
    rw [List.cons_append, tails?, hb]
    exact ih h
  | case4 => cases h

-- A character takes nothing of what follows it.
theorem tails?_split (h : tails? n bits bs = some (v, rest)) :
    ∃ used, bs = used ++ rest ∧ tails? n bits used = some (v, []) := by
  fun_induction tails? n bits bs with
  | case1 bits bs =>
    cases h
    exact ⟨[], rfl, rfl⟩
  | case2 => cases h
  | case3 n bits b bs more' hb ih =>
    obtain ⟨used, rfl, hused⟩ := ih h
    exact ⟨b :: used, rfl, by rw [tails?, hb]; exact hused⟩
  | case4 => cases h

-- A byte that carries no bits on does not complete a character.
theorem tails?_append_none (h : tails? n bits bs = none) (hb : tailBits? b = none) :
    tails? n bits (bs ++ b :: rest) = none := by
  fun_induction tails? n bits bs with
  | case1 => cases h
  | case2 => rw [List.nil_append, tails?, hb]
  | case3 n bits b' bs more' hb' ih =>
    rw [List.cons_append, tails?, hb']
    exact ih h
  | case4 n bits b' bs hb' => rw [List.cons_append, tails?, hb']

theorem next?_cons (b : UInt8) (bs : Bytes) :
    next? (b :: bs) = (lead? b).bind fun l => (tails? l.1 l.2.2 bs).bind fun t =>
      (charOf? l.2.1 t.1).map fun c => (c, t.2) := by
  rw [next?]
  cases lead? b with
  | none => rfl
  | some l =>
    dsimp only [Option.bind_some]
    cases tails? l.1 l.2.2 bs with
    | none => rfl
    | some t => rfl

theorem next?_split (h : next? bs = some (c, rest)) :
    ∃ used, bs = used ++ rest ∧ used ≠ [] ∧ ∀ more, next? (used ++ more) = some (c, more) := by
  cases bs with
  | nil => cases h
  | cons b bs =>
    rw [next?_cons] at h
    obtain ⟨l, hlead, h⟩ := Option.bind_eq_some_iff.mp h
    obtain ⟨t, htails, h⟩ := Option.bind_eq_some_iff.mp h
    obtain ⟨c', hchar, heq⟩ := Option.map_eq_some_iff.mp h
    cases heq
    obtain ⟨used, rfl, hused⟩ := tails?_split htails
    refine ⟨b :: used, rfl, by simp, fun more => ?_⟩
    rw [List.cons_append, next?_cons, hlead, Option.bind_some, tails?_append hused more,
      Option.bind_some, hchar]
    rfl

theorem next?_append_none (hbs : bs ≠ []) (h : next? bs = none) (hb : tailBits? b = none) :
    next? (bs ++ b :: rest) = none := by
  obtain ⟨b', bs, rfl⟩ := List.exists_cons_of_ne_nil hbs
  rw [List.cons_append, next?_cons]
  rw [next?_cons] at h
  cases hlead : lead? b' with
  | none => rfl
  | some l =>
    rw [hlead, Option.bind_some] at h
    rw [Option.bind_some]
    cases htails : tails? l.1 l.2.2 bs with
    | none =>
      rw [tails?_append_none htails hb]
      rfl
    | some t =>
      rw [htails, Option.bind_some] at h
      rw [tails?_append htails (b :: rest), Option.bind_some]
      simpa using h

-- An ASCII byte is its own character.
theorem next?_ascii (hc : c.toNat < 0x80) (hb : b.toNat = c.toNat) (bs : Bytes) :
    next? (b :: bs) = some (c, bs) := by
  have hlead : lead? b = some (0, 0, c.toNat) := by
    rw [lead?, hb]
    exact if_pos hc
  rw [next?_cons, hlead, Option.bind_some]
  show (some (c.toNat, bs)).bind _ = _
  rw [Option.bind_some, charOf?_toNat]
  rfl

theorem tailBits?_ascii (hc : c.toNat < 0x80) (hb : b.toNat = c.toNat) : tailBits? b = none := by
  rw [tailBits?, if_neg]
  rw [hb]
  simp only [Bool.and_eq_true, decide_eq_true_eq, not_and]
  omega

-- The bytes of an ASCII character are one ASCII byte.
theorem byte_of_next? (h : next? bs = some (c, rest)) (hc : c.toNat < 0x80) :
    ∃ b, bs = b :: rest ∧ b.toNat = c.toNat := by
  cases bs with
  | nil => cases h
  | cons b bs =>
    rw [next?_cons] at h
    obtain ⟨l, hlead, h⟩ := Option.bind_eq_some_iff.mp h
    obtain ⟨t, htails, h⟩ := Option.bind_eq_some_iff.mp h
    obtain ⟨c', hchar, heq⟩ := Option.map_eq_some_iff.mp h
    cases heq
    by_cases hleast : l.2.1 ≤ t.1 ∧ t.1.isValidChar
    · rw [charOf?, dif_pos hleast] at hchar
      cases hchar
      have hnumber : (Char.ofNatAux t.1 hleast.2).toNat = t.1 := rfl
      rw [hnumber] at hc ⊢
      have hsmall : l.2.1 < 0x80 := Nat.lt_of_le_of_lt hleast.1 hc
      unfold lead? at hlead
      dsimp only at hlead
      split at hlead
      · cases hlead
        cases htails
        exact ⟨b, rfl, rfl⟩
      · -- Every other first byte asks for a greater character.
        repeat' split at hlead
        all_goals cases hlead
        all_goals
          dsimp only at hsmall
          omega
    · rw [charOf?, dif_neg hleast] at hchar
      cases hchar

theorem charOf?_of_le {least : Nat} (h : least ≤ c.toNat) :
    charOf? least c.toNat = some c := by
  have hvalid : c.toNat.isValidChar := c.valid
  rw [charOf?, dif_pos ⟨h, hvalid⟩]
  rfl

theorem tails?_byte {k : Nat} (hk : k < 0x40) :
    tails? (n + 1) bits (byte (0x80 + k) :: bs) = tails? n (bits * 0x40 + k) bs := by
  have htail : tailBits? (byte (0x80 + k)) = some k := by
    rw [tailBits?, toNat_byte (by omega), if_pos]
    · simp
    · simp only [Bool.and_eq_true, decide_eq_true_eq]
      omega
  rw [tails?, htail]

-- The lead byte says how many bytes follow.
theorem lead?_two {k : Nat} (hk : k < 0x20) : lead? (byte (0xC0 + k)) = some (1, 0x80, k) := by
  rw [lead?, toNat_byte (by omega), if_neg (by omega), if_neg (by omega), if_pos (by omega),
    Nat.add_sub_cancel_left]

theorem lead?_three {k : Nat} (hk : k < 0x10) : lead? (byte (0xE0 + k)) = some (2, 0x800, k) := by
  rw [lead?, toNat_byte (by omega), if_neg (by omega), if_neg (by omega), if_neg (by omega),
    if_pos (by omega), Nat.add_sub_cancel_left]

theorem lead?_four {k : Nat} (hk : k < 8) : lead? (byte (0xF0 + k)) = some (3, 0x10000, k) := by
  rw [lead?, toNat_byte (by omega), if_neg (by omega), if_neg (by omega), if_neg (by omega),
    if_neg (by omega), if_pos (by omega), Nat.add_sub_cancel_left]

-- The bytes of a character are read back, whatever follows.
theorem next?_encodeChar (c : Char) (bs : Bytes) : next? (encodeChar c ++ bs) = some (c, bs) := by
  have hlt := toNat_lt c
  unfold encodeChar
  dsimp only
  split_ifs with h1 h2 h3
  · exact next?_ascii h1 (toNat_byte (by omega)) bs
  · have hleast : 0x80 ≤ c.toNat := by omega
    have hbits : c.toNat / 0x40 * 0x40 + c.toNat % 0x40 = c.toNat := by omega
    rw [List.cons_append, next?_cons, lead?_two (by omega), Option.bind_some, List.cons_append,
      tails?_byte (by omega), hbits, tails?, Option.bind_some, charOf?_of_le hleast]
    rfl
  · have hleast : 0x800 ≤ c.toNat := by omega
    have hbits : (c.toNat / 0x1000 * 0x40 + c.toNat / 0x40 % 0x40) * 0x40 + c.toNat % 0x40 =
        c.toNat := by omega
    rw [List.cons_append, next?_cons, lead?_three (by omega), Option.bind_some, List.cons_append,
      tails?_byte (by omega), List.cons_append, tails?_byte (by omega), hbits, tails?,
      Option.bind_some, charOf?_of_le hleast]
    rfl
  · have hleast : 0x10000 ≤ c.toNat := by omega
    have hbits : ((c.toNat / 0x40000 * 0x40 + c.toNat / 0x1000 % 0x40) * 0x40 +
        c.toNat / 0x40 % 0x40) * 0x40 + c.toNat % 0x40 = c.toNat := by omega
    rw [List.cons_append, next?_cons, lead?_four (by omega), Option.bind_some, List.cons_append,
      tails?_byte (by omega), List.cons_append, tails?_byte (by omega), List.cons_append,
      tails?_byte (by omega), hbits, tails?, Option.bind_some, charOf?_of_le hleast]
    rfl

theorem decode?_of_next? (h : next? bs = some (c, rest)) :
    decode? bs = (decode? rest).map (c :: ·) := by
  cases bs with
  | nil => cases h
  | cons b bs =>
    rw [decode?]
    split
    · rename_i hnone
      rw [h] at hnone
      cases hnone
    · rename_i hsome
      rw [h] at hsome
      cases hsome
      rfl

theorem decode?_eq_cons {s : List Char} (h : decode? bs = some (c :: s)) :
    ∃ rest, next? bs = some (c, rest) ∧ decode? rest = some s := by
  cases bs with
  | nil =>
    rw [decode?] at h
    cases h
  | cons b bs =>
    cases hnext : next? (b :: bs) with
    | none =>
      rw [decode?] at h
      split at h
      · cases h
      · rename_i hsome
        rw [hnext] at hsome
        cases hsome
    | some found =>
      rw [decode?_of_next? hnext] at h
      obtain ⟨s', hs', heq⟩ := Option.map_eq_some_iff.mp h
      cases heq
      exact ⟨found.2, rfl, hs'⟩

-- The bytes of a text are those of its parts.
theorem decode?_split {front behind : List Char} (h : decode? bs = some (front ++ behind)) :
    ∃ bf bb, bs = bf ++ bb ∧ decode? bf = some front ∧ decode? bb = some behind := by
  induction front generalizing bs with
  | nil => exact ⟨[], bs, rfl, by rw [decode?], h⟩
  | cons c front ih =>
    obtain ⟨rest, hnext, hrest⟩ := decode?_eq_cons h
    obtain ⟨bf, bb, rfl, hbf, hbb⟩ := ih hrest
    obtain ⟨used, rfl, -, hused⟩ := next?_split hnext
    refine ⟨used ++ bf, bb, (List.append_assoc ..).symm, ?_, hbb⟩
    rw [decode?_of_next? (hused bf), hbf]
    rfl

theorem decode?_encode (s : List Char) : decode? (encode s) = some s := by
  induction s with
  | nil => rw [encode_nil, decode?]
  | cons c s ih =>
    rw [encode_cons, decode?_of_next? (next?_encodeChar c _), ih, Option.map_some]

theorem symbols_of_next? (h : next? bs = some (c, rest)) :
    symbols bs = some c :: symbols rest := by
  cases bs with
  | nil => cases h
  | cons b bs =>
    rw [symbols]
    split
    · rename_i hnone
      rw [h] at hnone
      cases hnone
    · rename_i hsome
      rw [h] at hsome
      cases hsome
      rfl

theorem symbols_of_none (h : next? (b :: bs) = none) : symbols (b :: bs) = none :: symbols bs := by
  rw [symbols]
  split
  · rfl
  · rename_i hsome
    rw [h] at hsome
    cases hsome

-- By induction on the bytes in front: a byte that carries no bits on begins anew.
theorem symbols_append (hb : tailBits? b = none) (bs rest : Bytes) :
    symbols (bs ++ b :: rest) = symbols bs ++ symbols (b :: rest) := by
  induction hlength : bs.length using Nat.strongRecOn generalizing bs with
  | ind length ih =>
    cases bs with
    | nil =>
      rw [List.nil_append, show symbols [] = [] by rw [symbols], List.nil_append]
    | cons b' bs =>
      cases hnext : next? (b' :: bs) with
      | none =>
        have hnone : next? (b' :: (bs ++ b :: rest)) = none :=
          next?_append_none (List.cons_ne_nil b' bs) hnext hb
        rw [List.cons_append]
        rw [symbols_of_none hnone, symbols_of_none hnext,
          ih bs.length (by simp [← hlength]) bs rfl]
        rfl
      | some found =>
        obtain ⟨c, after⟩ := found
        have hshorter := length_next? hnext
        obtain ⟨used, hused, -, hall⟩ := next?_split hnext
        have hwhole : next? ((b' :: bs) ++ b :: rest) = some (c, after ++ b :: rest) := by
          rw [hused, List.append_assoc]
          exact hall _
        rw [symbols_of_next? hwhole, symbols_of_next? hnext,
          ih after.length (hlength ▸ hshorter) after rfl]
        rfl

end Text.Utf8

namespace Encoding

open Text.Utf8

def KeepsAscii (encoding : String) : Prop :=
  canonical encoding = "UTF-8" ∨ canonical encoding = "US-ASCII" ∨
    canonical encoding = "ISO-8859-1"

variable {encoding : String} {bs : Bytes} {front behind : List Char}

theorem decodeAs_utf8 (hname : canonical encoding = "UTF-8") {text : List Char} :
    decodeAs encoding bs = .ok text ↔ decode? bs = some text := by
  rw [decodeAs, hname]
  dsimp only
  cases decode? bs with
  | none => simp
  | some s => simp

theorem decodeAs_ascii (hname : canonical encoding = "US-ASCII") {text : List Char} :
    decodeAs encoding bs = .ok text ↔ isAscii bs ∧ latin bs = text := by
  rw [decodeAs, hname]
  dsimp only
  cases isAscii bs <;> simp

theorem decodeAs_latin (hname : canonical encoding = "ISO-8859-1") {text : List Char} :
    decodeAs encoding bs = .ok text ↔ latin bs = text := by
  rw [decodeAs, hname]
  simp

-- The bytes of a text are those of its parts.
theorem decodeAs_split (hkeeps : KeepsAscii encoding)
    (h : decodeAs encoding bs = .ok (front ++ behind)) :
    ∃ bf bb, bs = bf ++ bb ∧ decodeAs encoding bf = .ok front ∧
      decodeAs encoding bb = .ok behind := by
  rcases hkeeps with hname | hname | hname
  · obtain ⟨bf, bb, rfl, hbf, hbb⟩ := decode?_split ((decodeAs_utf8 hname).mp h)
    exact ⟨bf, bb, rfl, (decodeAs_utf8 hname).mpr hbf, (decodeAs_utf8 hname).mpr hbb⟩
  · obtain ⟨hascii, hlatin⟩ := (decodeAs_ascii hname).mp h
    obtain ⟨bf, bb, rfl, hbf, hbb⟩ := List.map_eq_append_iff.mp hlatin
    rw [isAscii, List.all_append, Bool.and_eq_true] at hascii
    exact ⟨bf, bb, rfl, (decodeAs_ascii hname).mpr ⟨hascii.1, hbf⟩,
      (decodeAs_ascii hname).mpr ⟨hascii.2, hbb⟩⟩
  · obtain ⟨bf, bb, rfl, hbf, hbb⟩ := List.map_eq_append_iff.mp ((decodeAs_latin hname).mp h)
    exact ⟨bf, bb, rfl, (decodeAs_latin hname).mpr hbf, (decodeAs_latin hname).mpr hbb⟩

theorem toNat_ofNat_byte (b : UInt8) : (Char.ofNat b.toNat).toNat = b.toNat := by
  have hvalid : b.toNat.isValidChar := Or.inl (Nat.lt_trans b.toNat_lt (by decide))
  rw [Char.ofNat, dif_pos hvalid]
  rfl

-- An ASCII character of a text is one byte.
theorem byte_of_decodeAs (hkeeps : KeepsAscii encoding) {c : Char} (hc : c.toNat < 0x80)
    {text : List Char} (h : decodeAs encoding bs = .ok (c :: text)) :
    ∃ b rest, bs = b :: rest ∧ b.toNat = c.toNat ∧ decodeAs encoding rest = .ok text := by
  have hlatin : ∀ {bs : Bytes}, latin bs = c :: text →
      ∃ b rest, bs = b :: rest ∧ b.toNat = c.toNat ∧ latin rest = text := fun h => by
    obtain ⟨b, rest, rfl, rfl, hrest⟩ := List.map_eq_cons_iff.mp h
    exact ⟨b, rest, rfl, (toNat_ofNat_byte b).symm, hrest⟩
  rcases hkeeps with hname | hname | hname
  · obtain ⟨rest, hnext, hrest⟩ := decode?_eq_cons ((decodeAs_utf8 hname).mp h)
    obtain ⟨b, rfl, hb⟩ := byte_of_next? hnext hc
    exact ⟨b, rest, rfl, hb, (decodeAs_utf8 hname).mpr hrest⟩
  · obtain ⟨hascii, htext⟩ := (decodeAs_ascii hname).mp h
    obtain ⟨b, rest, rfl, hb, hrest⟩ := hlatin htext
    rw [isAscii, List.all_cons, Bool.and_eq_true] at hascii
    exact ⟨b, rest, rfl, hb, (decodeAs_ascii hname).mpr ⟨hascii.2, hrest⟩⟩
  · obtain ⟨b, rest, rfl, hb, hrest⟩ := hlatin ((decodeAs_latin hname).mp h)
    exact ⟨b, rest, rfl, hb, (decodeAs_latin hname).mpr hrest⟩

-- ASCII text is seen in the bytes.
theorem symbols_of_decodeAs (hkeeps : KeepsAscii encoding) {written : List Char}
    (hwritten : ∀ c ∈ written, c.toNat < 0x80)
    (h : decodeAs encoding bs = .ok (written ++ behind)) :
    ∃ rest, symbols bs = written.map some ++ symbols rest := by
  induction written generalizing bs with
  | nil => exact ⟨bs, rfl⟩
  | cons c written ih =>
    obtain ⟨hc, hrest⟩ := List.forall_mem_cons.mp hwritten
    obtain ⟨b, rest, rfl, hb, hdecoded⟩ := byte_of_decodeAs hkeeps hc h
    obtain ⟨rest', hrest'⟩ := ih hrest hdecoded
    refine ⟨rest', ?_⟩
    rw [symbols_of_next? (next?_ascii hc hb rest), hrest']
    rfl

-- So is ASCII text inside of other text.
theorem symbols_of_decodeAs_append (hkeeps : KeepsAscii encoding) {written : List Char}
    (hne : written ≠ []) (hwritten : ∀ c ∈ written, c.toNat < 0x80)
    (h : decodeAs encoding bs = .ok (front ++ (written ++ behind))) :
    ∃ bf bb rest, bs = bf ++ bb ∧ decodeAs encoding bf = .ok front ∧
      symbols bs = symbols bf ++ symbols bb ∧ symbols bb = written.map some ++ symbols rest := by
  obtain ⟨bf, bb, rfl, hbf, hbb⟩ := decodeAs_split hkeeps h
  obtain ⟨c, written', rfl⟩ := List.exists_cons_of_ne_nil hne
  have hc := (List.forall_mem_cons.mp hwritten).1
  obtain ⟨rest, hrest⟩ := symbols_of_decodeAs hkeeps hwritten hbb
  obtain ⟨b, after, rfl, hb, -⟩ := byte_of_decodeAs hkeeps hc hbb
  exact ⟨bf, b :: after, rest, rfl, hbf, symbols_append (tailBits?_ascii hc hb) bf after, hrest⟩

-- The encodings that are told by a mark.
inductive Marked where
  | utf8
  | utf16 (order : Utf16.ByteOrder)
  deriving DecidableEq, Repr

namespace Marked

def name : Marked → String
  | utf8 => "UTF-8"
  | utf16 .big => "UTF-16BE"
  | utf16 .little => "UTF-16LE"

def encode : Marked → List Char → Utf8.Bytes
  | utf8 => Utf8.encode
  | utf16 order => Utf16.encode order

-- The bytes of the character U+FEFF.
def mark : Marked → Utf8.Bytes
  | utf8 => [0xEF, 0xBB, 0xBF]
  | utf16 .big => [0xFE, 0xFF]
  | utf16 .little => [0xFF, 0xFE]

example : utf8.mark = utf8.encode ['\uFEFF'] := by decide

theorem byteOrderMark?_mark (e : Marked) (bs : Utf8.Bytes) :
    byteOrderMark? (e.mark ++ bs) = some (e.name, e.mark.length) := by
  rcases e with _ | _ | _ <;> rfl

theorem canonical_name (e : Marked) : canonical e.name = e.name := by
  rcases e with _ | _ | _ <;> decide

theorem decodeAs_encode (e : Marked) (s : List Char) : decodeAs e.name (e.encode s) = .ok s := by
  cases e with
  | utf8 => exact (decodeAs_utf8 (by decide)).mpr (Utf8.decode?_encode s)
  | utf16 order =>
    have hdecode : (Utf16.decode order (Utf16.encode order s)).mapError
        (fun e => Fault.unreadable "" ("invalid " ++ (utf16 order).name ++ " input: " ++ e.text)) =
          .ok s := by
      rw [Utf16.decode_encode]
      rfl
    rw [decodeAs, canonical_name]
    cases order with
    | big => exact hdecode
    | little => exact hdecode

end Marked

-- Behind the mark of an encoding stands any text in this encoding, be it one that starts with the
-- character of the mark again, or one that names other encodings. It is read back as it is, and no
-- option counts.
theorem decode_marked (e : Marked) (unit : String) (s : List Char) (external : Option String)
    (fallback : String) :
    ∃ info, decode unit (e.mark ++ e.encode s) external fallback = .ok ⟨s, info⟩ ∧
      info.effective = e.name ∧ info.byteOrderMark = some e.name := by
  have hbody : (e.mark ++ e.encode s).drop e.mark.length = e.encode s := List.drop_left
  unfold decode
  simp only [e.byteOrderMark?_mark, Option.map_some, Option.getD_some, Option.some_or, hbody,
    e.decodeAs_encode, e.canonical_name]
  exact ⟨_, rfl, rfl, rfl⟩

end Encoding
end PageCompiler
