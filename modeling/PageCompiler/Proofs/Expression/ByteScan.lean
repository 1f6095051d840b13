import PageCompiler.Proofs.Expression.Embedding
import PageCompiler.Proofs.Expression.Tiling

namespace PageCompiler.Composite

open Text Text.Utf8

variable {o : ScanOptions} {place : Nat} {text front s : List Char} {c : Char} {parts : List Part}

-- The dialect whose delimiter is recognised at a byte, told by this byte and the next one.
def dialectAt? (o : ScanOptions) (bytes : Bytes) (place : Nat) : Option Dialect :=
  match bytes[place]?, bytes[place + 1]? with
  | some 0x24, some 0x7B => if o.ignoreExpressions then none else some .immediate
  | some 0x23, some 0x7B =>
    if o.deferredAsLiteral || o.ignoreExpressions then none else some .deferred
  | _, _ => none

theorem le_of_closingByte {quote : Option UInt8} {depth stop : Nat} {bs : Bytes}
    (h : closingByte quote depth place bs = some stop) : place ≤ stop := by
  fun_induction closingByte quote depth place bs with
  | case1 => cases h
  | case2 => cases h
  | case3 depth place q b bs ih => exact Nat.le_trans (by omega) (ih h)
  | case4 depth place b bs q hb ih => exact Nat.le_trans (by omega) (ih h)
  | case5 depth place b bs hb ih => exact Nat.le_trans (by omega) (ih h)
  | case6 depth place bs hb ih => exact Nat.le_trans (by omega) (ih h)
  | case7 place bs =>
    cases h
    exact Nat.le_refl _
  | case8 place bs depth hb ho ih => exact Nat.le_trans (by omega) (ih h)
  | case9 depth place b bs hb ho hc ih => exact Nat.le_trans (by omega) (ih h)

-- The scan from the byte `place` on. There is no result when some cut goes through a character.
def scanBytes (o : ScanOptions) (value : List Char) (place : Nat) (text : List Char) :
    Option (Except ExpressionError (List Part)) :=
  if _hplace : place < byteSize value then
    (slice? place (byteSize value) value).bind fun rest =>
      if startsWith ['\\', '$', '{'] rest || startsWith ['\\', '#', '{'] rest then
        let recognised := !o.ignoreExpressions &&
          ((encode rest)[1]? == some 0x24 || !o.deferredAsLiteral)
        (slice? (if recognised then 1 else 0) 3 rest).bind fun piece =>
          scanBytes o value (place + 3) (piece.reverse ++ text)
      else
        match dialectAt? o (encode value) place with
        | none =>
          match rest with
          | [] => none
          | c :: _ =>
            have := c.utf8Size_pos
            scanBytes o value (place + c.utf8Size) (c :: text)
        | some d =>
          match hstop : closingBrace? value (place + 2) with
          | none => some (.error ⟨String.ofList rest, .unclosed, place⟩)
          | some stop =>
            have := le_of_closingByte hstop
            (slice? (place + 2) stop value).bind fun body =>
              match Expression.parse body with
              | .error reason => some (.error ⟨String.ofList body, reason, place⟩)
              | .ok tree =>
                (scanBytes o value (stop + 1) []).map fun scanned => scanned.map fun parts =>
                  textPart text ++ .expr d (String.ofList body) tree place :: parts
  else some (.ok (textPart text))
termination_by byteSize value - place
decreasing_by all_goals omega

-- An escape is seen in the same way.
theorem startsWith_escape :
    (startsWith ['\\', '$', '{'] s || startsWith ['\\', '#', '{'] s) = (escaped? s).isSome := by
  have hstart : ∀ d, startsWith ['\\', Dialect.sign d, '{'] s → (escaped? s).isSome := by
    intro d h
    obtain ⟨rest, hrest⟩ := Option.isSome_iff_exists.mp h
    rw [escaped?_eq_some.mpr (eq_of_stripStart? hrest)]
    rfl
  cases he : escaped? s with
  | some found =>
    obtain ⟨d, rest⟩ := found
    obtain rfl := escaped?_eq_some.mp he
    cases d <;> rfl
  | none =>
    rw [he] at hstart
    have h1 := hstart .immediate
    have h2 := hstart .deferred
    simp only [Option.isSome_none, Bool.false_eq_true, imp_false, Bool.not_eq_true] at h1 h2 ⊢
    rw [Bool.or_eq_false_iff]
    exact ⟨h1, h2⟩

-- A byte of ASCII is found where its character stands.
theorem getElem?_encode (hc : c.toNat < 0x80) (front s : List Char) :
    (encode (front ++ s))[byteSize front]? = some (byte c.toNat) ↔ ∃ rest, s = c :: rest := by
  have hbyte : (byte c.toNat).toNat = c.toNat := toNat_byte (by omega)
  rw [encode_append, ← length_encode, List.getElem?_append_right (Nat.le_refl _), Nat.sub_self,
    ← List.head?_eq_getElem?, head?_encode (by omega)]
  constructor
  · rintro ⟨d, rest, rfl, hd⟩
    obtain rfl : d = c := Char.toNat_inj.mp (hd.trans hbyte)
    exact ⟨rest, rfl⟩
  · rintro ⟨rest, rfl⟩
    exact ⟨c, rest, rfl, hbyte.symm⟩

-- A sign and a brace behind it are told from their bytes.
theorem getElem?_delimiter (d : Dialect) (front s : List Char) :
    ((encode (front ++ s))[byteSize front]? = some (byte d.sign.toNat) ∧
      (encode (front ++ s))[byteSize front + 1]? = some 0x7B) ↔
        ∃ rest, s = d.sign :: '{' :: rest := by
  have hascii : d.sign.toNat < 0x80 := by cases d <;> decide
  have hsize : ∀ front : List Char, byteSize (front ++ [d.sign]) = byteSize front + 1 := by
    intro front
    rw [byteSize_append]
    cases d <;> rfl
  rw [getElem?_encode hascii]
  constructor
  · rintro ⟨⟨rest, rfl⟩, hbrace⟩
    have hnext := getElem?_encode (c := '{') (by decide) (front ++ [d.sign]) rest
    rw [hsize front, List.append_assoc, List.singleton_append] at hnext
    obtain ⟨behind, rfl⟩ := hnext.mp hbrace
    exact ⟨behind, rfl⟩
  · rintro ⟨rest, rfl⟩
    have hnext := getElem?_encode (c := '{') (by decide) (front ++ [d.sign]) ('{' :: rest)
    rw [hsize front, List.append_assoc, List.singleton_append] at hnext
    exact ⟨⟨_, rfl⟩, hnext.mpr ⟨rest, rfl⟩⟩

theorem dialectAt?_eq_some {d : Dialect} :
    dialectAt? o (encode (front ++ s)) (byteSize front) = some d ↔
      o.recognises d ∧ ∃ rest, s = d.sign :: '{' :: rest := by
  rw [← getElem?_delimiter]
  constructor
  · intro h
    unfold dialectAt? at h
    split at h
    · rename_i h0 h1
      split at h
      · cases h
      · rename_i hignore
        cases h
        exact ⟨by simp [ScanOptions.recognises, hignore], h0, h1⟩
    · rename_i h0 h1
      split at h
      · cases h
      · rename_i hliteral
        cases h
        simp only [Bool.or_eq_true, not_or, Bool.not_eq_true] at hliteral
        exact ⟨by simp [ScanOptions.recognises, hliteral], h0, h1⟩
    · cases h
  · rintro ⟨hd, h0, h1⟩
    unfold dialectAt?
    rw [h0, h1]
    cases d with
    | immediate =>
      have hignore : o.ignoreExpressions = false := by simpa [ScanOptions.recognises] using hd
      exact if_neg (by simp [hignore])
    | deferred =>
      have hliteral : o.ignoreExpressions = false ∧ o.deferredAsLiteral = false := by
        simpa [ScanOptions.recognises] using hd
      exact if_neg (by simp [hliteral])

theorem dialectAt?_eq_none (h : opens o s = false) :
    dialectAt? o (encode (front ++ s)) (byteSize front) = none := by
  refine Option.eq_none_iff_forall_ne_some.mpr fun d hd => ?_
  obtain ⟨hrec, rest, rfl⟩ := dialectAt?_eq_some.mp hd
  rw [opens_delimiter, hrec] at h
  cases h

-- What is cut out of an escape: the delimiter alone when it is recognised.
theorem slice?_escape (o : ScanOptions) (d : Dialect) (rest : List Char) :
    slice? (if !o.ignoreExpressions &&
        ((encode ('\\' :: d.sign :: '{' :: rest))[1]? == some 0x24 || !o.deferredAsLiteral)
      then 1 else 0) 3 ('\\' :: d.sign :: '{' :: rest) =
      some (if o.recognises d then [d.sign, '{'] else ['\\', d.sign, '{']) := by
  have hrec : (!o.ignoreExpressions &&
      ((encode ('\\' :: d.sign :: '{' :: rest))[1]? == some 0x24 || !o.deferredAsLiteral)) =
        o.recognises d := by
    cases d <;> rfl
  have htwo := slice?_append ['\\'] [d.sign, '{'] rest
  have hthree := slice?_append [] ['\\', d.sign, '{'] rest
  rw [hrec]
  cases o.recognises d <;> cases d <;> first | exact htwo | exact hthree

-- By induction on the length of what is left: each step goes on behind a longer front.
theorem scanBytes_append (front s : List Char) :
    scanBytes o (front ++ s) (byteSize front) text = some (scan o (byteSize front) text s) := by
  induction hn : s.length using Nat.strong_induction_on generalizing front s text with
  | _ n ih =>
  cases s with
  | nil => rw [scanBytes, dif_neg (by simp), scan_nil]
  | cons c cs =>
    have hlt : byteSize front < byteSize (front ++ c :: cs) := by
      have hpos := c.utf8Size_pos
      rw [byteSize_append, byteSize_cons]
      omega
    have hrest : slice? (byteSize front) (byteSize (front ++ c :: cs)) (front ++ c :: cs) =
        some (c :: cs) := by
      rw [byteSize_append]
      simpa using slice?_append front (c :: cs) []
    -- The rest of the scan, behind a piece of what is left.
    have hgo : ∀ piece rest (text : List Char), c :: cs = piece ++ rest → piece ≠ [] →
        scanBytes o (front ++ c :: cs) (byteSize front + byteSize piece) text =
          some (scan o (byteSize front + byteSize piece) text rest) := by
      intro piece rest text hpiece hne
      have hlength : rest.length < n := by
        have htotal := congrArg List.length hpiece
        have hpos := List.length_pos_iff.mpr hne
        rw [List.length_append] at htotal
        omega
      have hscan : scanBytes o (front ++ piece ++ rest) (byteSize (front ++ piece)) text =
          some (scan o (byteSize (front ++ piece)) text rest) :=
        ih _ hlength (front ++ piece) rest rfl
      rwa [List.append_assoc, ← hpiece, byteSize_append] at hscan
    rw [scanBytes, dif_pos hlt, hrest, Option.bind_some, startsWith_escape]
    cases he : escaped? (c :: cs) with
    | some found =>
      obtain ⟨d, rest⟩ := found
      obtain ⟨rfl, rfl⟩ := List.cons.inj (escaped?_eq_some.mp he)
      have hsize : byteSize ['\\', d.sign, '{'] = 3 := by cases d <;> rfl
      have hstep := fun text => hgo ['\\', d.sign, '{'] rest text rfl (by simp)
      rw [hsize] at hstep
      rw [if_pos (by rfl)]
      dsimp only
      rw [slice?_escape, Option.bind_some, hstep, scan_escaped]
      split <;> rfl
    | none =>
      rw [if_neg (by simp)]
      cases hopen : opens o (c :: cs) with
      | false =>
        rw [dialectAt?_eq_none hopen, scan_bare he hopen]
        simpa using hgo [c] cs (c :: text) rfl (by simp)
      | true =>
        obtain ⟨d, rest, hs, hd⟩ := opens_iff.mp hopen
        obtain ⟨rfl, rfl⟩ := List.cons.inj hs
        have hsize : byteSize (front ++ [d.sign, '{']) = byteSize front + 2 := by
          rw [byteSize_append]
          cases d <;> rfl
        have hbrace := closingBrace?_append (front ++ [d.sign, '{']) rest
        rw [hsize, List.append_assoc] at hbrace
        rw [dialectAt?_eq_some.mpr ⟨hd, rest, rfl⟩]
        dsimp only
        split
        · rename_i hstop
          have hclose : closeBrace none 0 rest = none :=
            Option.map_eq_none_iff.mp (hbrace.symm.trans hstop)
          rw [scan_unclosed hd hclose]
        · rename_i stop hstop
          obtain ⟨⟨body, behind⟩, hclose, rfl⟩ :=
            Option.map_eq_some_iff.mp (hbrace.symm.trans hstop)
          have hbody := slice?_append (front ++ [d.sign, '{']) body ('}' :: behind)
          rw [hsize, List.append_assoc, ← closeBrace_append hclose] at hbody
          have hplace : byteSize front + 2 + byteSize body + 1 =
              byteSize front + byteSize (Enclosed d (String.ofList body)) := by
            rw [byteSize_enclosed, String.toList_ofList]
            omega
          have hpiece : d.sign :: '{' :: rest = Enclosed d (String.ofList body) ++ behind := by
            rw [closeBrace_append hclose]
            simp [Enclosed]
          have hmore := hgo _ behind [] hpiece (by simp [Enclosed])
          rw [← hplace] at hmore
          have hafter : byteSize front + 3 + byteSize body =
              byteSize front + 2 + byteSize body + 1 := by omega
          rw [scan_delimiter hd hclose, hafter]
          simp only [List.cons_append, List.nil_append] at hbody
          rw [hbody, Option.bind_some]
          cases Expression.parse body with
          | error reason => rfl
          | ok tree =>
            dsimp only
            rw [hmore]
            rfl

-- A value as it is read by its bytes.
def parseBytes (o : ScanOptions) (value : List Char) : Option (Except ExpressionError Composite) :=
  (scanBytes o value 0 []).map fun scanned => scanned.map Composite.mk

theorem parseBytes_eq (o : ScanOptions) (value : List Char) :
    parseBytes o value = some (parse o value) := by
  rw [parseBytes, show scanBytes o value 0 [] = _ from scanBytes_append [] value]
  rfl

-- What the parts of a value are in it.
structure Covers (value : List Char) (parts : List Part) : Prop where
  -- Each expression is cut out by the place and the length that its part tells.
  slice : ∀ d source tree start, .expr d source tree start ∈ parts →
    slice? start (start + (byteSize source.toList + 3)) value = some (Enclosed d source)
  -- The expressions begin one behind the other, and do not overlap.
  ordered : (spans parts).Pairwise fun a b => a.1 < b.1 ∧ a.2 ≤ b.1
  nonempty : ∀ t, .text t ∈ parts → t ≠ ""
  -- No text stands beside another.
  apart : parts.IsChain Apart

theorem Tiles.covers (h : Tiles o 0 s parts) : Covers s parts := by
  obtain ⟨hne, hapart⟩ := (legible_of_scan h.scan_eq (by simp)).texts
  refine ⟨fun d source tree start hmem => ?_, h.spans_ordered.1, hne, hapart⟩
  obtain ⟨-, before, behind, rfl, rfl⟩ := h.exists_of_mem hmem
  rw [Nat.zero_add, ← byteSize_enclosed d source]
  exact slice?_append before _ behind

-- A value is read as a sequence of gaps and expressions, none of which is lost, or up to the first
-- expression that is wrong; and no cut through its bytes goes through a character.
theorem parse_tiled (o : ScanOptions) (value : List Char) :
    parseBytes o value = some (parse o value) ∧
      (∀ c, parse o value = .ok c ↔ Tiles o 0 value c.parts) ∧
      (∀ c, parse o value = .ok c → Covers value c.parts) ∧
      ∀ e, parse o value = .error e → Stuck o 0 value e := by
  exact ⟨parseBytes_eq o value, fun c => parse_eq_ok_iff_tiles,
    fun c h => (parse_eq_ok_iff_tiles.mp h).covers, fun e h => stuck_of_parse h⟩

-- A character of two bytes, an escape and a sign in front of a deferred expression, and an
-- expression right behind it. The second value has an expression that is not closed.
def sampleValue : List Char := "é\\$\x7ba\x7d$#\x7bb['\x7d']\x7d$\x7bc\x7d".toList

def sampleParts : List Part :=
  [.text "é$\x7ba\x7d$", .expr .deferred "b['\x7d']" (.index (.identifier "b") (.text "\x7d")) 8,
    .expr .immediate "c" (.identifier "c") 17]

theorem parse_tiled_sample :
    parse {} sampleValue = .ok ⟨sampleParts⟩ ∧ Tiles {} 0 sampleValue sampleParts ∧
      Covers sampleValue sampleParts ∧
      Stuck {} 0 "$\x7ba\x7d$\x7bb".toList ⟨"$\x7bb", .unclosed, 4⟩ := by
  have h : parse {} sampleValue = .ok ⟨sampleParts⟩ := by cbv
  have hwrong : parse {} "$\x7ba\x7d$\x7bb".toList = .error ⟨"$\x7bb", .unclosed, 4⟩ := by cbv
  obtain ⟨-, htiles, hcovers, -⟩ := parse_tiled {} sampleValue
  obtain ⟨-, -, -, hstuck⟩ := parse_tiled {} "$\x7ba\x7d$\x7bb".toList
  exact ⟨h, (htiles _).mp h, hcovers _ h, hstuck _ hwrong⟩

end PageCompiler.Composite
