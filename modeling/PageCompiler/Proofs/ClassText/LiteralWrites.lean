import PageCompiler.Proofs.ClassText.StringLiterals
import PageCompiler.Proofs.ClassText.Writing

namespace PageCompiler.ClassText

open Text Text.Utf16

-- The unit that such a literal stands for. A quote, a backslash and the end of a line do not stand
-- in it for themselves.
def charLiteral? : List Nat → Option Nat
  | 0x27 :: 0x5C :: us =>
    match escaped? us with
    | some (v, [0x27]) => some v
    | _ => none
  | [0x27, u, 0x27] => if u = 0x27 || u = 0x0A || u = 0x0D then none else some u
  | _ => none

def charValue? (source : List Char) : Option Nat := (translate 0 source).bind charLiteral?

variable {c : Char} {u v : Nat}

theorem charLiteral?_letter (h : letter? u = some v) :
    charLiteral? [0x27, 0x5C, u, 0x27] = some v := by
  have hescaped : escaped? [u, 0x27] = some (v, [0x27]) := by rw [escaped?, h]
  simp only [charLiteral?, hescaped]

theorem charLiteral?_unit (hslash : u ≠ 0x5C) (hquote : u ≠ 0x27) (hfeed : u ≠ 0x0A)
    (hreturn : u ≠ 0x0D) : charLiteral? [0x27, u, 0x27] = some u := by
  unfold charLiteral?
  split
  · next heq => exact absurd (List.cons.inj (List.cons.inj heq).2).1 hslash
  · next heq =>
    cases heq
    exact if_neg (by simp [hquote, hfeed, hreturn])
  · next hne => exact absurd rfl (hne u)

-- A pair of surrogates is too long.
theorem charLiteral?_pair (h : u ≠ 0x5C) : charLiteral? [0x27, u, v, 0x27] = none := by
  unfold charLiteral?
  split
  · next heq => exact absurd (List.cons.inj (List.cons.inj heq).2).1 h
  · next heq => cases heq
  · rfl

-- The quotes stand around what is written for the character.
theorem translate_quoted (hquote : c ≠ '\'') (hdouble : c ≠ '"') :
    translate 0 (quoteChar c).toList = some (0x27 :: (spelled c ++ [0x27])) := by
  have hopen : "'".toList = ['\''] := rfl
  have hnone : 0 % 2 = 0 := rfl
  obtain ⟨after, -, hchar⟩ := translate_escapeChar hnone c
  rw [quoteChar, if_neg hquote, if_neg hdouble, String.toList_append, String.toList_append, hopen,
    List.append_assoc, List.singleton_append, translate_plain (by decide), hchar,
    translate_plain (by decide), translate]
  rfl

theorem charLiteral?_spelled (hquote : c ≠ '\'') (hdouble : c ≠ '"') :
    charLiteral? (0x27 :: (spelled c ++ [0x27])) =
      if c.toNat < 0x10000 then some c.toNat else none := by
  by_cases hslash : c = '\\'
  · subst hslash
    exact charLiteral?_letter rfl
  by_cases hfeed : c = '\n'
  · subst hfeed
    exact charLiteral?_letter rfl
  by_cases hreturn : c = '\r'
  · subst hreturn
    exact charLiteral?_letter rfl
  by_cases htab : c = '\t'
  · subst htab
    exact charLiteral?_letter rfl
  have hne : ∀ d : Char, c ≠ d → c.toNat ≠ d.toNat := fun d hd heq => hd (Char.toNat_inj.mp heq)
  rw [spelled, if_neg hdouble, if_neg hslash, if_neg hfeed, if_neg hreturn, if_neg htab]
  by_cases hone : c.toNat < 0x10000
  · have hunits : unitsOf c = [c.toNat] := if_pos hone
    rw [hunits, if_pos hone]
    exact charLiteral?_unit (hne _ hslash) (hne _ hquote) (hne _ hfeed) (hne _ hreturn)
  · rcases unitsOf_cases c with hunits | ⟨high, low, hunits, hhigh, -⟩
    · exact absurd hunits (by simp [unitsOf, hone])
    · rw [hunits, if_neg hone]
      exact charLiteral?_pair (by omega)

-- What is written for one character is a literal just if the character is one unit, and then it
-- stands for that.
theorem charValue?_quoteChar (c : Char) :
    charValue? (quoteChar c).toList = if c.toNat < 0x10000 then some c.toNat else none := by
  by_cases hquote : c = '\''
  · subst hquote
    cbv
  by_cases hdouble : c = '"'
  · subst hdouble
    cbv
  rw [charValue?, translate_quoted hquote hdouble, Option.bind_some,
    charLiteral?_spelled hquote hdouble]

-- It is no string literal in any case.
theorem literalValue?_quoteChar (c : Char) : literalValue? (quoteChar c).toList = none := by
  have hopen : ∃ s, (quoteChar c).toList = '\'' :: s := by
    unfold quoteChar
    split_ifs
    · exact ⟨_, rfl⟩
    · exact ⟨_, rfl⟩
    · rw [String.toList_append, String.toList_append]
      exact ⟨_, rfl⟩
  obtain ⟨s, hs⟩ := hopen
  rw [literalValue?, hs, translate_plain (by decide)]
  cases translate 0 s <;> rfl

-- A piece takes no more bytes than it may, unless it is one character that is wider.
def FitsIn (budget : Nat) (piece : List Char) : Prop :=
  byteSize piece ≤ budget ∨ ∃ c, piece = [c] ∧ budget < c.utf8Size

-- A split of a text that loses nothing, into pieces without room for the character behind them.
structure Greedy (budget : Nat) (text : List Char) (pieces : List (List Char)) : Prop where
  flatten_eq : pieces.flatten = text
  ne_nil : ∀ piece ∈ pieces, piece ≠ []
  fits : ∀ piece ∈ pieces, FitsIn budget piece
  full : pieces.IsChain fun piece next => ∀ c ∈ next.head?, budget < byteSize piece + c.utf8Size

theorem byteSize_reverse (s : List Char) : byteSize s.reverse = byteSize s := by
  induction s with
  | nil => rfl
  | cons c s ih =>
    rw [List.reverse_cons, byteSize_append, ih, byteSize_cons, byteSize_cons, byteSize_nil]
    omega

namespace Greedy

variable {budget : Nat} {text piece : List Char} {pieces pieces' : List (List Char)}

theorem nil : Greedy budget [] [] := ⟨rfl, by simp, by simp, .nil⟩

theorem singleton (hne : piece ≠ []) (hfits : FitsIn budget piece) :
    Greedy budget piece [piece] :=
  ⟨List.flatten_singleton, by simpa, by simpa, .singleton _⟩

-- The first piece starts like the text.
theorem head?_eq (h : Greedy budget (c :: text) pieces) :
    ∀ next ∈ pieces.head?, next.head? = some c := by
  intro next hnext
  obtain ⟨rest, rfl⟩ := List.head?_eq_some_iff.mp hnext
  obtain ⟨d, next, rfl⟩ := List.exists_cons_of_ne_nil (h.ne_nil next (List.mem_cons_self ..))
  have hflatten := h.flatten_eq
  rw [List.flatten_cons, List.cons_append] at hflatten
  rw [List.head?_cons, (List.cons.inj hflatten).1]

-- A piece in front of others has no room for the character behind it.
theorem cons (h : Greedy budget (c :: text) pieces) (hne : piece ≠ []) (hfits : FitsIn budget piece)
    (hfull : budget < byteSize piece + c.utf8Size) :
    Greedy budget (piece ++ c :: text) (piece :: pieces) where
  flatten_eq := by rw [List.flatten_cons, h.flatten_eq]
  ne_nil := List.forall_mem_cons.mpr ⟨hne, h.ne_nil⟩
  fits := List.forall_mem_cons.mpr ⟨hfits, h.fits⟩
  full := by
    refine List.isChain_cons.mpr ⟨fun next hnext d hd => ?_, h.full⟩
    rw [h.head?_eq next hnext] at hd
    cases hd
    exact hfull

theorem tail (h : Greedy budget text (piece :: pieces)) : Greedy budget pieces.flatten pieces :=
  ⟨rfl, fun p hp => h.ne_nil p (List.mem_cons_of_mem _ hp),
    fun p hp => h.fits p (List.mem_cons_of_mem _ hp), (List.isChain_cons.mp h.full).2⟩

-- None of two first pieces of a text goes on behind the other: there is no room for its characters.
theorem not_append {more : List Char} (h : Greedy budget text (piece :: pieces))
    (h' : Greedy budget text ((piece ++ c :: more) :: pieces')) : False := by
  have hflatten : piece ++ pieces.flatten = piece ++ c :: (more ++ pieces'.flatten) := by
    have hboth := h.flatten_eq.trans h'.flatten_eq.symm
    simpa using hboth
  have htail := h.tail
  rw [List.append_cancel_left hflatten] at htail
  obtain ⟨next, rest, rfl⟩ : ∃ next rest, pieces = next :: rest := by
    refine List.exists_cons_of_ne_nil ?_
    rintro rfl
    exact absurd htail.flatten_eq (by simp)
  have hroom : budget < byteSize piece + c.utf8Size :=
    (List.isChain_cons.mp h.full).1 next rfl c (htail.head?_eq next rfl)
  rcases h'.fits _ (List.mem_cons_self ..) with hfits | ⟨d, hd, -⟩
  · rw [byteSize_append, byteSize_cons] at hfits
    omega
  · have hlength := congrArg List.length hd
    have hpos := List.length_pos_of_ne_nil (h.ne_nil piece (List.mem_cons_self ..))
    simp only [List.length_append, List.length_cons, List.length_nil] at hlength
    omega

-- There is no other such split.
theorem eq (h : Greedy budget text pieces) (h' : Greedy budget text pieces') :
    pieces = pieces' := by
  induction pieces generalizing text pieces' with
  | nil =>
    cases pieces' with
    | nil => rfl
    | cons piece' pieces' =>
      have hempty : piece' ++ pieces'.flatten = [] := h'.flatten_eq.trans h.flatten_eq.symm
      exact absurd (List.append_eq_nil_iff.mp hempty).1 (h'.ne_nil piece' (List.mem_cons_self ..))
  | cons piece pieces ih =>
    cases pieces' with
    | nil =>
      have hempty : piece ++ pieces.flatten = [] := h.flatten_eq.trans h'.flatten_eq.symm
      exact absurd (List.append_eq_nil_iff.mp hempty).1 (h.ne_nil piece (List.mem_cons_self ..))
    | cons piece' pieces' =>
      have hflatten : piece ++ pieces.flatten = piece' ++ pieces'.flatten :=
        h.flatten_eq.trans h'.flatten_eq.symm
      have hpiece : piece = piece' := by
        rcases List.append_eq_append_iff.mp hflatten with ⟨more, rfl, -⟩ | ⟨more, rfl, -⟩
        · cases more with
          | nil => rw [List.append_nil]
          | cons c more => exact (h.not_append h').elim
        · cases more with
          | nil => rw [List.append_nil]
          | cons c more => exact (h'.not_append h).elim
      subst hpiece
      rw [ih h.tail (List.append_cancel_left hflatten ▸ h'.tail)]

end Greedy

theorem fitsIn_singleton (budget : Nat) (c : Char) : FitsIn budget [c] := by
  rcases Nat.lt_or_ge budget c.utf8Size with hwide | hle
  · exact .inr ⟨c, rfl, hwide⟩
  · exact .inl hle

theorem FitsIn.reverse {budget : Nat} {piece : List Char} (h : FitsIn budget piece) :
    FitsIn budget piece.reverse := by
  rcases h with hle | ⟨c, rfl, hwide⟩
  · exact .inl (by rwa [byteSize_reverse])
  · exact .inr ⟨c, rfl, hwide⟩

-- One piece is filled after the other, and what has been filled of a piece fits.
theorem greedy_chunksFrom {budget : Nat} {chunk : List Char} (h : FitsIn budget chunk)
    (text : List Char) :
    Greedy budget (chunk.reverse ++ text) (chunksFrom budget (byteSize chunk) chunk text) := by
  induction text generalizing chunk with
  | nil =>
    cases chunk with
    | nil => exact .nil
    | cons c chunk =>
      rw [List.append_nil]
      exact .singleton (mt List.reverse_eq_nil_iff.mp (List.cons_ne_nil _ _)) h.reverse
  | cons c text ih =>
    rw [chunksFrom]
    split_ifs with hfull
    · simp only [Bool.and_eq_true, decide_eq_true_eq] at hfull
      obtain ⟨hbegun, hfull⟩ := hfull
      refine .cons (ih (fitsIn_singleton budget c)) (fun hempty => ?_) h.reverse ?_
      · rw [List.reverse_eq_nil_iff.mp hempty] at hbegun
        exact absurd hbegun (Nat.lt_irrefl 0)
      · rwa [byteSize_reverse]
    · -- There is room, or no character has been taken yet.
      have hchunk : FitsIn budget (c :: chunk) := by
        cases chunk with
        | nil => exact fitsIn_singleton budget c
        | cons d chunk =>
          have hsize := Char.utf8Size_pos d
          rw [Bool.and_eq_true, decide_eq_true_eq, decide_eq_true_eq, byteSize_cons] at hfull
          refine .inl ?_
          rw [byteSize_cons, byteSize_cons]
          omega
      have hrest := ih hchunk
      rwa [List.reverse_cons, List.append_assoc, List.singleton_append, byteSize_cons,
        Nat.add_comm] at hrest

theorem greedy_chunks_max (budget : Nat) (text : List Char) :
    Greedy (max budget 1) text (chunks budget text) :=
  greedy_chunksFrom (.inl (Nat.zero_le _) : FitsIn (max budget 1) []) text

theorem flatten_chunks (budget : Nat) (text : List Char) : (chunks budget text).flatten = text :=
  (greedy_chunks_max budget text).flatten_eq

-- A long text is cut between characters, so that nothing is lost, no piece is empty or takes more
-- bytes than it may, one wide character apart, and no piece has room for the first character of the
-- next. It can be cut so in no other way; in bytes, each piece stands behind those in front of it.
theorem greedy_chunks (budget : Nat) (text : List Char) :
    Greedy (max budget 1) text (chunks budget text) ∧
      (∀ pieces, Greedy (max budget 1) text pieces → pieces = chunks budget text) ∧
      ∀ before piece behind, chunks budget text = before ++ piece :: behind →
        Utf8.encode piece =
          ((Utf8.encode text).drop (byteSize before.flatten)).take (byteSize piece) := by
  have hgreedy := greedy_chunks_max budget text
  refine ⟨hgreedy, fun pieces h => h.eq hgreedy, fun before piece behind h => ?_⟩
  have htext := hgreedy.flatten_eq
  rw [h, List.flatten_append, List.flatten_cons] at htext
  rw [← htext, Utf8.encode_append, Utf8.encode_append, ← Utf8.length_encode before.flatten,
    List.drop_left, ← Utf8.length_encode piece, List.take_left]

-- A piece with room for one more character of one byte, but not of two; and a character that is
-- wider than a piece may be.
theorem greedy_chunks_wide :
    chunks 3 "abéc€".toList = ["ab".toList, "éc".toList, "€".toList] ∧
      (chunks 0 "€x".toList = ["€".toList, "x".toList] ∧
        Greedy 1 "€x".toList (chunks 0 "€x".toList)) ∧
      Utf8.encode "éc".toList = ((Utf8.encode "abéc€".toList).drop 2).take 3 := by
  have hthree : chunks 3 "abéc€".toList = ["ab".toList] ++ "éc".toList :: ["€".toList] := by rfl
  exact ⟨hthree, ⟨by rfl, (greedy_chunks 0 _).1⟩, (greedy_chunks 3 _).2.2 _ _ _ hthree⟩

theorem units_flatten (pieces : List (List Char)) :
    units pieces.flatten = (pieces.map units).flatten := by
  induction pieces with
  | nil => rfl
  | cons piece pieces ih =>
    rw [List.flatten_cons, units, List.flatMap_append, List.map_cons, List.flatten_cons, ← ih]
    rfl

-- The units that an argument of a write stands for, in a class with these constant arrays. An array
-- is made from the literal in its declaration.
def Operand.written? (arrays : List String) : Operand → Option (List Nat)
  | .code text => (charValue? text.toList).map ([·]) <|> literalValue? text.toList
  | .charArray k => arrays[k]?.bind fun text => literalValue? (quote text).toList
  | _ => none

def Line.written? (arrays : List String) : Line → Option (List Nat)
  | .plain (.write value) => value.written? arrays
  | _ => none

theorem charValue?_quote (s : String) : charValue? (quote s).toList = none := by
  rw [charValue?, toList_quote, translate_plain (by decide)]
  cases translate 0 _ <;> rfl

theorem written?_quote (arrays : List String) (s : String) :
    (Operand.code (quote s)).written? arrays = some (units s.toList) := by
  rw [Operand.written?, charValue?_quote, literalValue?_of_quote]
  rfl

theorem written?_quoteChar (arrays : List String) (c : Char) :
    (Operand.code (quoteChar c)).written? arrays =
      if c.toNat < 0x10000 then some (unitsOf c) else none := by
  rw [Operand.written?, charValue?_quoteChar, literalValue?_quoteChar, unitsOf]
  split_ifs <;> rfl

-- Arrays behind others. None is for the text of another.
structure Adds (arrays arrays' : List String) : Prop where
  grown : arrays <+: arrays'
  distinct : arrays.Nodup → arrays'.Nodup

theorem Adds.refl (arrays : List String) : Adds arrays arrays := ⟨List.prefix_refl _, id⟩

theorem Adds.trans {a b c : List String} (h : Adds a b) (h' : Adds b c) : Adds a c :=
  ⟨h.grown.trans h'.grown, fun hdistinct => h'.distinct (h.distinct hdistinct)⟩

theorem Adds.append {arrays : List String} {text : String} (h : text ∉ arrays) :
    Adds arrays (arrays ++ [text]) :=
  ⟨List.prefix_append _ _, fun hdistinct => hdistinct.append (List.nodup_singleton _)
    (List.disjoint_singleton.mpr h)⟩

-- A field for a text may be there already; otherwise it comes behind the others.
theorem charArray_run (text : String) (s : State) :
    ∃ k arrays, charArray text s = .ok (.charArray k, { s with charArrays := arrays }) ∧
      Adds s.charArrays arrays ∧ arrays[k]? = some text := by
  cases hfind : s.charArrays.findIdx? (· == text) with
  | some k =>
    obtain ⟨hlt, htext, -⟩ := List.findIdx?_eq_some_iff_getElem.mp hfind
    refine ⟨k, s.charArrays, modifyGet_run_eq_ok.mpr ?_, .refl _, ?_⟩
    · rw [hfind]
    · rw [List.getElem?_eq_getElem hlt, beq_iff_eq.mp htext]
  | none =>
    have hnew : text ∉ s.charArrays := fun htext => by
      simpa using List.findIdx?_eq_none_iff.mp hfind text htext
    refine ⟨s.charArrays.length, s.charArrays ++ [text], modifyGet_run_eq_ok.mpr ?_,
      .append hnew, by simp⟩
    rw [hfind]

-- One line for each of some values, whose fields are not taken away by the lines behind it.
theorem mapM_written {α : Type} {f : α → GenM Line} {value : α → List Nat}
    (hf : ∀ a s, ∃ line s', f a s = .ok (line, s') ∧ s.charArrays <+: s'.charArrays ∧
      ∀ arrays, s'.charArrays <+: arrays → line.written? arrays = some (value a))
    (l : List α) (s : State) :
    ∃ lines s', l.mapM f s = .ok (lines, s') ∧ s.charArrays <+: s'.charArrays ∧
      ∀ arrays, s'.charArrays <+: arrays →
        lines.mapM (Line.written? arrays) = some (l.map value) := by
  induction l generalizing s with
  | nil =>
    refine ⟨[], s, ?_, List.prefix_refl _, fun arrays _ => rfl⟩
    rw [List.mapM_nil]
    rfl
  | cons a l ih =>
    obtain ⟨line, s₁, hfirst, hgrown, hline⟩ := hf a s
    obtain ⟨lines, s₂, hrest, hgrown', hlines⟩ := ih s₁
    refine ⟨line :: lines, s₂, ?_, hgrown.trans hgrown', fun arrays harrays => ?_⟩
    · rw [List.mapM_cons]
      exact bind_run_eq_ok.mpr ⟨_, _, hfirst, bind_run_eq_ok.mpr ⟨_, _, hrest, rfl⟩⟩
    · rw [List.mapM_cons, hline arrays (hgrown'.trans harrays), hlines arrays harrays]
      rfl

-- A text of more than one character is written piece by piece, by either strategy.
theorem writeLiteral_pieces (x : Context) {text : String} (h : text.toList.length ≠ 1) (s : State) :
    ∃ lines s', writeLiteral x text s = .ok (lines, s') ∧ s.charArrays <+: s'.charArrays ∧
      ∀ arrays, s'.charArrays <+: arrays → lines.mapM (Line.written? arrays) =
        some ((chunks x.options.maxLiteralWrite text.toList).map units) := by
  unfold writeLiteral
  generalize text.toList = chars at h
  obtain - | ⟨c, - | ⟨d, rest⟩⟩ := chars
  case cons.nil => exact absurd rfl h
  all_goals
    refine mapM_written (fun piece s => ?_) _ s
    cases x.options.literalStrategy with
    | inline =>
      refine ⟨_, s, rfl, List.prefix_refl _, fun arrays _ => ?_⟩
      rw [Line.written?, written?_quote, String.toList_ofList]
    | charArrays =>
      obtain ⟨k, more, hrun, hadds, hk⟩ := charArray_run (String.ofList piece) s
      refine ⟨_, _, bind_run_eq_ok.mpr ⟨_, _, hrun, rfl⟩, hadds.grown, fun arrays harrays => ?_⟩
      obtain ⟨behind, rfl⟩ := harrays
      obtain ⟨hlt, -⟩ := List.getElem?_eq_some_iff.mp hk
      rw [Line.written?, Operand.written?, List.getElem?_append_left hlt, hk, Option.bind_some,
        literalValue?_of_quote, String.toList_ofList]

-- Literal text is always written. All arguments are literals, or constant arrays made from them,
-- unless the text is one character of two units, and together they stand for the text, whatever
-- arrays the class gets besides.
theorem writeLiteral_written (x : Context) {text : String} (h : text ≠ "") (s : State) :
    ∃ lines s', writeLiteral x text s = .ok (lines, s') ∧ lines ≠ [] ∧
      ∀ arrays, s'.charArrays <+: arrays →
        (lines.mapM (Line.written? arrays) = none ↔
          ∃ c, text.toList = [c] ∧ 0x10000 ≤ c.toNat) ∧
        ∀ values, lines.mapM (Line.written? arrays) = some values →
          values.flatten = units text.toList := by
  by_cases hone : text.toList.length = 1
  · obtain ⟨c, hc⟩ := List.length_eq_one_iff.mp hone
    refine ⟨[.plain (.write (.code (quoteChar c)))], s, ?_, by simp, fun arrays _ => ?_⟩
    · rw [writeLiteral, hc]
      rfl
    · have hwritten : [Line.plain (.write (.code (quoteChar c)))].mapM (Line.written? arrays) =
          (if c.toNat < 0x10000 then some (unitsOf c) else none).map ([·]) := by
        rw [List.mapM_cons, Line.written?, written?_quoteChar]
        split_ifs <;> rfl
      rw [hwritten, hc]
      split_ifs with hunit
      · simp [hunit, units]
      · simpa using hunit
  · obtain ⟨lines, s', hrun, -, hwritten⟩ := writeLiteral_pieces x hone s
    refine ⟨lines, s', hrun, ?_, fun arrays harrays => ?_⟩
    · rintro rfl
      have hnone := hwritten _ (List.prefix_refl _)
      rw [List.mapM_nil] at hnone
      have hempty : (chunks x.options.maxLiteralWrite text.toList).map units = [] :=
        (Option.some.inj hnone).symm
      have htext := flatten_chunks x.options.maxLiteralWrite text.toList
      rw [List.map_eq_nil_iff.mp hempty] at htext
      exact h (String.toList_eq_nil_iff.mp htext.symm)
    · rw [hwritten arrays harrays]
      refine ⟨⟨fun hnone => (Option.some_ne_none _ hnone).elim, ?_⟩, fun values hvalues => ?_⟩
      · rintro ⟨c, hc, -⟩
        exact absurd (by rw [hc]; rfl) hone
      · rw [← Option.some.inj hvalues, ← units_flatten, flatten_chunks]

def sharingArrays : Context :=
  { options := { literalStrategy := .charArrays, maxLiteralWrite := 4 }, checked := default }

-- A text with a quote, a backslash in front of a `u` and a character of two units is cut into
-- constant arrays of at most four bytes; the same character alone is written as no literal.
theorem writeLiteral_written_wide :
    (∃ lines s', writeLiteral sharingArrays "\"\\u😀\n" {} = .ok (lines, s') ∧
        s'.charArrays = ["\"\\u", "😀", "\n"] ∧
        ∃ values, lines.mapM (Line.written? s'.charArrays) = some values ∧
          values.flatten = units "\"\\u😀\n".toList) ∧
      ∃ lines s', writeLiteral sharingArrays "😀" {} = .ok (lines, s') ∧
        lines.mapM (Line.written? s'.charArrays) = none := by
  constructor
  · obtain ⟨lines, s', hrun, -, hwritten⟩ :=
      @writeLiteral_written sharingArrays "\"\\u😀\n" (by decide) {}
    obtain ⟨hlegal, hvalue⟩ := hwritten _ (List.prefix_refl _)
    have hmany : ¬∃ c, "\"\\u😀\n".toList = [c] ∧ 0x10000 ≤ c.toNat := by
      rintro ⟨c, hc, -⟩
      cases hc
    obtain ⟨values, hvalues⟩ := Option.ne_none_iff_exists'.mp (mt hlegal.mp hmany)
    refine ⟨lines, s', hrun, ?_, values, hvalues, hvalue values hvalues⟩
    have hstate : ((writeLiteral sharingArrays "\"\\u😀\n" {}).map fun r => r.2.charArrays) =
        .ok ["\"\\u", "😀", "\n"] := by rfl
    rw [hrun] at hstate
    exact Except.ok.inj hstate
  · obtain ⟨lines, s', hrun, -, hwritten⟩ :=
      @writeLiteral_written sharingArrays "😀" (by decide) {}
    exact ⟨lines, s', hrun,
      (hwritten _ (List.prefix_refl _)).1.mpr ⟨'😀', by rfl, by decide⟩⟩

end PageCompiler.ClassText
