import PageCompiler.Proofs.Expression.Braces
import PageCompiler.Proofs.Expression.SourceText
import PageCompiler.Proofs.Text.Bytes

-- The closing brace is looked for byte by byte, and a backslash between quotes covers a byte only,
-- not a character; the place found is the one that the search over characters finds. So every text
-- that is an expression can be put between delimiters.
namespace PageCompiler.Composite

open Text Text.Utf8

variable {quote : Option Char} {depth place : Nat} {s : List Char} {bs : Bytes} {c : Char}

-- The place of the byte that closes an expression, where `place` is the place of the first byte.
-- Between quotes the byte behind a backslash is passed over unseen.
def closingByte (quote : Option UInt8) (depth place : Nat) : Bytes → Option Nat
  | [] => none
  | b :: bs =>
    match quote with
    | some q =>
      if b = 0x5C then
        match bs with
        | [] => none
        | _ :: bs => closingByte quote depth (place + 2) bs
      else closingByte (if b = q then none else quote) depth (place + 1) bs
    | none =>
      if b = 0x27 || b = 0x22 then closingByte (some b) depth (place + 1) bs
      else if b = 0x7B then closingByte none (depth + 1) (place + 1) bs
      else if b = 0x7D then
        match depth with
        | 0 => some place
        | depth + 1 => closingByte none depth (place + 1) bs
      else closingByte none depth (place + 1) bs

-- The same in the bytes of a value, for an expression whose body begins at the byte `start`.
def closingBrace? (value : List Char) (start : Nat) : Option Nat :=
  closingByte none 0 start ((encode value).drop start)

-- A quote as a byte.
def quoteByte (quote : Option Char) : Option UInt8 := quote.map fun q => byte q.toNat

def IsQuote (quote : Option Char) : Prop :=
  quote = none ∨ quote = some '\'' ∨ quote = some '"'

theorem closingByte_quoted {q b : UInt8} (hb : b ≠ 0x5C) :
    closingByte (some q) depth place (b :: bs) =
      closingByte (if b = q then none else some q) depth (place + 1) bs := by
  rw [closingByte.eq_def]
  exact if_neg hb

theorem closingByte_covered {q b : UInt8} :
    closingByte (some q) depth place (0x5C :: b :: bs) =
      closingByte (some q) depth (place + 2) bs := by
  rw [closingByte.eq_def]
  exact if_pos rfl

-- No byte beyond ASCII matters to the search.
theorem closingByte_high (hq : IsQuote quote) (h : ∀ b ∈ bs, 0x80 ≤ b.toNat) (rest : Bytes) :
    closingByte (quoteByte quote) depth place (bs ++ rest) =
      closingByte (quoteByte quote) depth (place + bs.length) rest := by
  induction bs generalizing place with
  | nil => rfl
  | cons b bs ih =>
    have hb := h b (List.mem_cons_self ..)
    have hne : ∀ n : UInt8, n.toNat < 0x80 → b ≠ n := by
      rintro n hn rfl
      omega
    have hrest : closingByte (quoteByte quote) depth (place + 1) (bs ++ rest) =
        closingByte (quoteByte quote) depth (place + 1 + bs.length) rest :=
      ih fun b' hb' => h b' (List.mem_cons_of_mem _ hb')
    rw [List.length_cons, Nat.add_comm bs.length, ← Nat.add_assoc, ← hrest, List.cons_append]
    rcases hq with rfl | rfl | rfl
    · have h1 := hne 0x27 (by decide)
      have h2 := hne 0x22 (by decide)
      have h3 := hne 0x7B (by decide)
      have h4 := hne 0x7D (by decide)
      simp [quoteByte, closingByte, h1, h2, h3, h4]
    · rw [quoteByte, Option.map_some, closingByte_quoted (hne 0x5C (by decide)),
        if_neg (hne _ (by decide))]
    · rw [quoteByte, Option.map_some, closingByte_quoted (hne 0x5C (by decide)),
        if_neg (hne _ (by decide))]

-- A character that means nothing to the search, however many bytes it has.
theorem closingByte_plain (hq : IsQuote quote) (hhigh : 0x80 ≤ c.toNat) (rest : Bytes) :
    closingByte (quoteByte quote) depth place (encodeChar c ++ rest) =
      closingByte (quoteByte quote) depth (place + c.utf8Size) rest := by
  rw [closingByte_high hq (fun b hb => le_of_mem_encodeChar hhigh hb), length_encodeChar]

-- Of the character behind a backslash the first byte is covered, and the others do not matter.
theorem closingByte_backslash {q : Char} (hq : IsQuote (some q)) (d : Char) (rest : Bytes) :
    closingByte (quoteByte (some q)) depth place (encodeChar '\\' ++ (encodeChar d ++ rest)) =
      closingByte (quoteByte (some q)) depth (place + 1 + d.utf8Size) rest := by
  have hne : encodeChar d ≠ [] := by
    rw [← List.length_pos_iff, length_encodeChar]
    exact d.utf8Size_pos
  obtain ⟨b, tail, hbytes⟩ := List.exists_cons_of_ne_nil hne
  have hsize : tail.length + 1 = d.utf8Size := by
    rw [← length_encodeChar, hbytes, List.length_cons]
  have hhigh : ∀ b' ∈ tail, 0x80 ≤ b'.toNat := by
    intro b' hb'
    by_cases hd : d.toNat < 0x80
    · rw [encodeChar_ascii hd] at hbytes
      obtain ⟨-, rfl⟩ := List.cons.inj hbytes
      cases hb'
    · exact le_of_mem_encodeChar (by omega) (hbytes ▸ List.mem_cons_of_mem _ hb')
  have htail : closingByte (quoteByte (some q)) depth (place + 2) (tail ++ rest) =
      closingByte (quoteByte (some q)) depth (place + 2 + tail.length) rest :=
    closingByte_high hq hhigh rest
  rw [quoteByte, Option.map_some] at htail ⊢
  rw [encodeChar_ascii (by decide), hbytes]
  show closingByte _ _ _ (0x5C :: b :: (tail ++ rest)) = _
  rw [closingByte_covered, htail, ← hsize]
  congr 1
  omega

-- One character between quotes that is no backslash.
theorem closingByte_quotedChar {q : Char} (hq : IsQuote (some q)) (hc : c ≠ '\\')
    (rest : Bytes) :
    closingByte (quoteByte (some q)) depth place (encodeChar c ++ rest) =
      closingByte (quoteByte (if c = q then none else some q)) depth (place + c.utf8Size) rest := by
  have hascii : q.toNat < 0x80 := by rcases hq with hq | hq | hq <;> cases hq <;> decide
  by_cases hhigh : 0x80 ≤ c.toNat
  · have hne : c ≠ q := by
      rintro rfl
      omega
    rw [if_neg hne, closingByte_plain hq hhigh]
  · have hlow : c.toNat < 0x80 := by omega
    have hbyte : byte c.toNat ≠ 0x5C := fun h =>
      hc ((byte_eq_iff (d := '\\') hlow (by decide)).mp h)
    have hsize : c.utf8Size = 1 := by rw [utf8Size_eq, if_pos hlow]
    rw [encodeChar_ascii hlow, List.singleton_append, quoteByte, Option.map_some,
      closingByte_quoted hbyte, hsize]
    by_cases hcq : c = q
    · rw [if_pos hcq, if_pos (by rw [hcq])]
      rfl
    · rw [if_neg hcq, if_neg fun h => hcq ((byte_eq_iff hlow hascii).mp h)]
      rfl

-- One character outside of quotes that is neither a quote nor a brace.
theorem closingByte_bareChar (hc : isBare c) (rest : Bytes) :
    closingByte none depth place (encodeChar c ++ rest) =
      closingByte none depth (place + c.utf8Size) rest := by
  by_cases hhigh : 0x80 ≤ c.toNat
  · exact closingByte_plain (.inl rfl) hhigh rest
  · have hlow : c.toNat < 0x80 := by omega
    have hsize : c.utf8Size = 1 := by rw [utf8Size_eq, if_pos hlow]
    have hne : ∀ d : Char, d.toNat < 0x80 → c ≠ d → byte c.toNat ≠ byte d.toNat :=
      fun d hd hcd h => hcd ((byte_eq_iff hlow hd).mp h)
    simp only [isBare, Bool.and_eq_true, bne_iff_ne, ne_eq] at hc
    obtain ⟨⟨⟨hq, hd⟩, ho⟩, hcl⟩ := hc
    have h1 : byte c.toNat ≠ 0x27 := hne '\'' (by decide) hq
    have h2 : byte c.toNat ≠ 0x22 := hne '"' (by decide) hd
    have h3 : byte c.toNat ≠ 0x7B := hne '{' (by decide) ho
    have h4 : byte c.toNat ≠ 0x7D := hne '}' (by decide) hcl
    rw [encodeChar_ascii hlow, hsize, List.singleton_append]
    simp [closingByte, h1, h2, h3, h4]

-- The search over bytes finds the place behind the text that the search over characters finds.
theorem closingByte_encode (hq : IsQuote quote) :
    closingByte (quoteByte quote) depth place (encode s) =
      (closeBrace quote depth s).map fun cut => place + byteSize cut.1 := by
  fun_induction closeBrace quote depth s generalizing place with
  | case1 => rfl
  | case2 depth q => rfl
  | case3 depth q d ds ih =>
    rw [encode_cons, encode_cons, closingByte_backslash hq, ih hq, Option.map_map]
    simp only [Function.comp_def, byteSize_cons, Nat.add_assoc]
    rfl
  | case4 depth c cs q hc ih =>
    have hq' : IsQuote (if c = q then none else some q) := by
      split
      · exact .inl rfl
      · exact hq
    rw [encode_cons, closingByte_quotedChar hq hc, ih hq', Option.map_map]
    simp only [Function.comp_def, byteSize_cons, Nat.add_assoc]
  | case5 depth c cs hc ih =>
    simp only [Bool.or_eq_true, decide_eq_true_eq] at hc
    rw [Option.map_map]
    simp only [Function.comp_def, byteSize_cons, ← Nat.add_assoc]
    rcases hc with rfl | rfl
    · exact ih (.inr (.inl rfl))
    · exact ih (.inr (.inr rfl))
  | case6 depth cs hc ih =>
    rw [Option.map_map]
    simp only [Function.comp_def, byteSize_cons, ← Nat.add_assoc]
    exact ih hq
  | case7 cs => rfl
  | case8 cs depth hc ho ih =>
    rw [Option.map_map]
    simp only [Function.comp_def, byteSize_cons, ← Nat.add_assoc]
    exact ih hq
  | case9 depth c cs hc ho hd ih =>
    have hbare : isBare c := by
      simp only [Bool.or_eq_true, decide_eq_true_eq, not_or] at hc
      simp [isBare, hc, ho, hd]
    rw [encode_cons, quoteByte, Option.map_none, closingByte_bareChar hbare, Option.map_map]
    simp only [Function.comp_def, byteSize_cons, ← Nat.add_assoc]
    exact ih hq

-- Where the brace stands that closes an expression behind some front of a value.
theorem closingBrace?_append (front rest : List Char) :
    closingBrace? (front ++ rest) (byteSize front) =
      (closeBrace none 0 rest).map fun cut => byteSize front + byteSize cut.1 := by
  have hdrop : (encode (front ++ rest)).drop (byteSize front) = encode rest := by
    rw [encode_append, ← length_encode, List.drop_left]
  have hnone : IsQuote none := .inl rfl
  rw [closingBrace?, hdrop]
  exact closingByte_encode hnone

-- An expression is found again between its delimiters. What comes behind it is read as it would be
-- without the expression.
theorem parse_enclosed (t : List Char) (tree : Expr) (h : Expression.parse t = .ok tree) :
    (∀ s, closingBrace? (t ++ '}' :: s) 0 = some (byteSize t)) ∧
      parse {} ('$' :: '{' :: (t ++ ['}'])) =
        .ok ⟨[.expr .immediate (String.ofList t) tree 0]⟩ ∧
      ∀ s c, parse {} ('$' :: '{' :: (t ++ '}' :: s)) = .ok c ↔
        ∃ parts, scan {} (3 + byteSize t) [] s = .ok parts ∧
          c.parts = .expr .immediate (String.ofList t) tree 0 :: parts := by
  have hclose := Expression.closeBrace_of_parse h
  have hscan : ∀ s, scan {} 0 [] ('$' :: '{' :: (t ++ '}' :: s)) =
      (scan {} (3 + byteSize t) [] s).map (.expr .immediate (String.ofList t) tree 0 :: ·) := by
    intro s
    rw [show '$' = Dialect.sign .immediate from rfl, scan_delimiter rfl (hclose s), h, Nat.zero_add]
    rfl
  refine ⟨fun s => ?_, ?_, fun s c => ?_⟩
  · have hfound := closingBrace?_append [] (t ++ '}' :: s)
    rw [hclose s] at hfound
    simpa using hfound
  · rw [parse, hscan [], scan_nil]
    rfl
  · obtain ⟨all⟩ := c
    rw [parse, hscan s]
    cases scan {} (3 + byteSize t) [] s with
    | error e => simp [Except.map]
    | ok parts => simp [Except.map, eq_comm]

-- Both kinds of quotes, a brace and an escaped quote between them, and a backslash in front of a
-- character of two bytes.
def sampleBody : List Char := "x['\\é\x7d'] == \"\x7b\\\"\"".toList

theorem parse_enclosed_sample :
    ∃ tree, Expression.parse sampleBody = .ok tree ∧
      closingBrace? (sampleBody ++ '}' :: "'\x7d".toList) 0 = some (byteSize sampleBody) ∧
      parse {} ('$' :: '{' :: (sampleBody ++ ['}'])) =
        .ok ⟨[.expr .immediate (String.ofList sampleBody) tree 0]⟩ := by
  have h : Expression.parse sampleBody =
      .ok (.binary .eq (.index (.identifier "x") (.text "é\x7d")) (.text "\x7b\"")) := by
    cbv
  obtain ⟨hbrace, hvalue, -⟩ := parse_enclosed sampleBody _ h
  exact ⟨_, h, hbrace _, hvalue⟩

end PageCompiler.Composite
