import PageCompiler.Proofs.ClassText.LinePlaces

-- The text of a line is put together of fixed text, which stands on one line, of texts that are
-- quoted or mangled to a name, and of parts that are printed as they are.
namespace PageCompiler

namespace Text

theorem unbroken_append {s t : String} : Unbroken (s ++ t) ↔ Unbroken s ∧ Unbroken t := by
  simp [Unbroken]

theorem unbroken_ofList {s : List Char} : Unbroken (String.ofList s) ↔ '\n' ∉ s := by
  rw [Unbroken, String.toList_ofList]

namespace Unbroken

theorem append {s t : String} (hs : Unbroken s) (ht : Unbroken t) : Unbroken (s ++ t) :=
  unbroken_append.mpr ⟨hs, ht⟩

-- A literal is the text of its characters.
theorem literal {s : List Char} (h : (s.all fun c => c != '\n') = true) :
    Unbroken (String.ofList s) := by
  rw [unbroken_ofList]
  intro hmem
  simpa using List.all_eq_true.mp h _ hmem

end Unbroken

theorem unbroken_stringJoin {texts : List String} :
    Unbroken (String.join texts) ↔ ∀ t ∈ texts, Unbroken t := by
  simp [Unbroken, String.toList_join]

theorem unbroken_join {sep : String} {texts : List String} (hsep : Unbroken sep)
    (h : ∀ t ∈ texts, Unbroken t) : Unbroken (join sep texts) := by
  unfold Unbroken join
  rw [String.toList_intercalate]
  induction texts with
  | nil => simp
  | cons t texts ih =>
    obtain ⟨ht, hrest⟩ := List.forall_mem_cons.mp h
    cases texts with
    | nil => simpa [Unbroken] using ht
    | cons t' texts =>
      rw [List.map_cons, List.map_cons, List.intercalate_cons_cons]
      simp only [List.mem_append, not_or]
      exact ⟨⟨ht, hsep⟩, ih hrest⟩

theorem unbroken_of_isDigit {s : List Char} (h : ∀ c ∈ s, c.isDigit = true) : '\n' ∉ s :=
  fun hmem => absurd (h _ hmem) (by decide)

theorem unbroken_toString (n : Nat) : Unbroken (toString n) := by
  unfold Unbroken
  rw [Nat.toString_eq_repr, Nat.toList_repr]
  exact unbroken_of_isDigit fun c hc => Nat.isDigit_of_mem_toDigits (by decide) le_rfl hc

-- The lines of a text are cut at its line feeds.
theorem unbroken_of_mem_linesOf {s t : String} (h : t ∈ linesOf s) : Unbroken t := by
  have hlines : ∀ (cs line : List Char), '\n' ∉ line → ∀ l ∈ linesFrom cs line, '\n' ∉ l := by
    intro cs line hline
    fun_induction linesFrom cs line with
    | case1 => simp
    | case2 => simpa using hline
    | case3 cs kept ih =>
      simp only [List.mem_cons, not_or] at hline
      simp only [List.forall_mem_cons, List.mem_reverse]
      exact ⟨hline.2, ih (by simp)⟩
    | case4 cs line _ ih =>
      simp only [List.forall_mem_cons, List.mem_reverse]
      exact ⟨hline, ih (by simp)⟩
    | case5 c cs line hc ih =>
      refine ih ?_
      simp only [List.mem_cons, not_or]
      exact ⟨fun h => hc h.symm, hline⟩
  obtain ⟨l, hl, rfl⟩ := List.mem_map.mp h
  exact unbroken_ofList.mpr (hlines _ [] (by simp) l hl)

theorem linesOf_ne_nil {t : String} (h : t ≠ "") : linesOf t ≠ [] := by
  have hlines : ∀ cs line : List Char, cs ≠ [] ∨ line ≠ [] → linesFrom cs line ≠ [] := by
    intro cs line hne
    fun_induction linesFrom cs line with
    | case1 => simp at hne
    | case2 => simp
    | case3 => simp
    | case4 => simp
    | case5 c cs line _ ih => exact ih (.inr (by simp))
  rw [linesOf, ne_eq, List.map_eq_nil_iff]
  exact hlines _ [] (.inl (by simpa using h))

theorem unbroken_of_contains {t : String} (h : contains "\n" t = false) : Unbroken t := by
  have hcut : ∀ cs : List Char, '\n' ∈ cs → hasPiece ['\n'] cs = true := by
    intro cs hmem
    induction cs with
    | nil => cases hmem
    | cons c cs ih =>
      by_cases hc : '\n' = c
      · subst hc
        simp [hasPiece, cutAt?, stripStart?]
      · have hrest := ih ((List.mem_cons.mp hmem).resolve_left hc)
        simpa [hasPiece, cutAt?, stripStart?, hc] using hrest
  intro hmem
  rw [contains, show "\n".toList = ['\n'] from rfl, hcut _ hmem] at h
  cases h

theorem mem_of_mem_trimEnd {c : Char} {s : List Char} (h : c ∈ trimEnd s) : c ∈ s := by
  rw [trimEnd, List.mem_reverse] at h
  exact List.mem_reverse.mp ((List.dropWhile_sublist _).mem h)

theorem unbroken_trimmedEnd {t : String} (h : Unbroken t) : Unbroken (trimmedEnd t) :=
  unbroken_ofList.mpr fun hmem => h (mem_of_mem_trimEnd hmem)

-- A word holds no blank.
theorem unbroken_of_mem_wordsOf {s t : String} (h : t ∈ wordsOf s) : Unbroken t := by
  have hwords : ∀ (cs word : List Char), '\n' ∉ word → ∀ w ∈ wordsFrom cs word, '\n' ∉ w := by
    intro cs word hword
    fun_induction wordsFrom cs word with
    | case1 => simp
    | case2 => simpa using hword
    | case3 c cs hc ih => exact ih (by simp)
    | case4 c cs hc w ws ih =>
      simp only [List.forall_mem_cons, List.mem_reverse]
      exact ⟨hword, ih (by simp)⟩
    | case5 c cs word hc ih =>
      refine ih ?_
      simp only [List.mem_cons, not_or]
      refine ⟨?_, hword⟩
      rintro rfl
      exact hc (by decide)
  obtain ⟨w, hw, rfl⟩ := List.mem_map.mp h
  exact unbroken_ofList.mpr (hwords _ [] (by simp) w hw)

end Text

namespace ClassText

open Text

-- Neither character that ends a line is written in a literal.
theorem not_mem_hex4 {d : Char} {n : Nat} (hd : d = '\n' ∨ d = '\r') (h : n < 0x20) :
    d ∉ (hex4 n).toList := by
  have hdigits : ∀ n < 0x20,
      let digits := List.replicate (4 - (Nat.toDigits 16 n).length) '0' ++ Nat.toDigits 16 n
      '\n' ∉ digits ∧ '\r' ∉ digits := by
    decide
  obtain ⟨hfeed, hreturn⟩ := hdigits n h
  rw [hex4, String.toList_ofList]
  rcases hd with rfl | rfl
  · exact hfeed
  · exact hreturn

theorem not_mem_escapeChar {d : Char} (hd : d = '\n' ∨ d = '\r') (c : Char) :
    d ∉ (escapeChar c).toList := by
  unfold escapeChar
  split_ifs with h₁ h₂ hfeed hreturn h₅ hlow
  · rcases hd with rfl | rfl <;> decide
  · rcases hd with rfl | rfl <;> decide
  · rcases hd with rfl | rfl <;> decide
  · rcases hd with rfl | rfl <;> decide
  · rcases hd with rfl | rfl <;> decide
  · rw [String.toList_append, List.mem_append, not_or]
    exact ⟨by rcases hd with rfl | rfl <;> decide, not_mem_hex4 hd hlow⟩
  · rw [Char.toString_eq_singleton, String.toList_singleton, List.mem_singleton]
    rintro rfl
    rcases hd with hd | hd
    · exact hfeed hd
    · exact hreturn hd

theorem toList_quote (s : String) :
    (quote s).toList = '"' :: (s.toList.flatMap (fun c => (escapeChar c).toList) ++ ['"']) := by
  simp [quote, escape, String.toList_join, List.flatMap_map]

theorem not_mem_quote {d : Char} (hd : d = '\n' ∨ d = '\r') (s : String) :
    d ∉ (quote s).toList := by
  have hquote : d ≠ '"' := by rcases hd with rfl | rfl <;> decide
  rw [toList_quote]
  simp [not_mem_escapeChar hd, hquote]

theorem unbroken_escapeChar (c : Char) : Unbroken (escapeChar c) :=
  not_mem_escapeChar (.inl rfl) c

theorem unbroken_quote (s : String) : Unbroken (quote s) := not_mem_quote (.inl rfl) s

theorem unbroken_quoteChar (c : Char) : Unbroken (quoteChar c) := by
  unfold quoteChar
  split_ifs
  · exact .literal rfl
  · exact .literal rfl
  · exact .append (.append (.literal rfl) (unbroken_escapeChar c)) (.literal rfl)

theorem not_mem_mangle (name : List Char) : '\n' ∉ mangle name := by
  have hkept : '\n' ∉ name.map fun c => if isIdentifierChar c then c else '_' := by
    simp only [List.mem_map, not_exists, not_and]
    intro c _
    split_ifs with hc
    · rintro rfl
      exact absurd hc (by decide)
    · decide
  unfold mangle
  dsimp only
  split
  · decide
  · split_ifs
    · simpa using hkept
    · exact hkept

theorem unbroken_identifier (name : String) : Unbroken (identifier name) := by
  have hmangled := unbroken_ofList.mpr (not_mem_mangle name.toList)
  unfold identifier
  dsimp only
  split_ifs
  · exact .append hmangled (.literal rfl)
  · exact hmangled

-- A letter becomes a letter.
theorem eq_of_toUpper {c : Char} (h : '\n' = c.toUpper) : '\n' = c := by
  unfold Char.toUpper at h
  split at h
  · rename_i hletter
    have hval : (10 : UInt32) = c.val + (65 - 97) := congrArg Char.val h
    have hlow : (97 : UInt32) ≤ c.val := hletter.1
    rw [← UInt32.sub_eq_iff_eq_add] at hval
    rw [← hval] at hlow
    exact absurd hlow (by decide)
  · exact h

theorem unbroken_capitalize (name : String) : Unbroken (capitalize name) := by
  have hid : '\n' ∉ (identifier name).toList := unbroken_identifier name
  unfold capitalize
  split
  · exact .literal rfl
  · rename_i c rest hc
    rw [hc, List.mem_cons, not_or] at hid
    rw [unbroken_ofList, List.mem_cons, not_or]
    exact ⟨fun h => hid.1 (eq_of_toUpper h), hid.2⟩

theorem unbroken_setterName (name : String) : Unbroken (setterName name) :=
  .append (.literal rfl) (unbroken_capitalize name)

theorem unbroken_getterName (name : String) : Unbroken (getterName name) :=
  .append (.literal rfl) (unbroken_capitalize name)

theorem unbroken_poolField (space name : String) (attributes : List String) (hasBody : Bool) :
    Unbroken (poolField space name attributes hasBody) := by
  refine .append (.append (.append (.append (.append (.literal rfl) (unbroken_identifier space))
    (.literal rfl)) (unbroken_identifier name)) ?_) ?_
  · rw [unbroken_stringJoin]
    intro t ht
    obtain ⟨a, -, rfl⟩ := List.mem_map.mp ht
    exact .append (.literal rfl) (unbroken_identifier a)
  · cases hasBody with
    | true => exact .literal rfl
    | false => exact .literal rfl

theorem unbroken_boxedType {t : String} (h : Unbroken t) : Unbroken (boxedType t) := by
  unfold boxedType
  split
  case h_9 => exact h
  all_goals exact .literal rfl

theorem unbroken_classArray {types : List String} (h : ∀ t ∈ types, Unbroken t) :
    Unbroken (classArray types) := by
  refine .append (.append (.literal rfl) (unbroken_join (.literal rfl) fun t ht => ?_))
    (.literal rfl)
  obtain ⟨u, hu, rfl⟩ := List.mem_map.mp ht
  exact .append (h u hu) (.literal rfl)

theorem unbroken_functionField (index : Nat) : Unbroken (Names.functionField index) :=
  .append (.literal rfl) (unbroken_toString index)

theorem unbroken_charArray (index : Nat) : Unbroken (Names.charArray index) :=
  .append (.literal rfl) (unbroken_toString index)

theorem unbroken_functionsText (functions : Option Nat) : Unbroken (functionsText functions) := by
  cases functions with
  | none => exact .literal rfl
  | some index => exact unbroken_functionField index

theorem unbroken_lookupBean (name : String) : Unbroken (lookupBean name) :=
  .append (.append (.append (.literal rfl) (.literal rfl)) (unbroken_quote name)) (.literal rfl)

theorem not_mem_of_dropSign {s : List Char} (h : '\n' ∉ dropSign s) : '\n' ∉ s := by
  unfold dropSign at h
  split at h
  · simpa using h
  · simpa using h
  · exact h

theorem not_mem_of_isInteger64 {s : List Char} (h : isInteger64 s = true) : '\n' ∉ s := by
  simp only [isInteger64, Bool.and_eq_true, List.all_eq_true] at h
  exact not_mem_of_dropSign (unbroken_of_isDigit h.1.2)

theorem not_mem_of_isExponentPart {s : List Char} (h : isExponentPart s = true) : '\n' ∉ s := by
  cases s with
  | nil => simp
  | cons c s =>
    simp only [isExponentPart, Bool.and_eq_true, Bool.or_eq_true, decide_eq_true_eq,
      List.all_eq_true] at h
    obtain ⟨⟨hc, -⟩, hdigits⟩ := h
    rw [List.mem_cons, not_or]
    refine ⟨?_, not_mem_of_dropSign (unbroken_of_isDigit hdigits)⟩
    rcases hc with rfl | rfl <;> decide

-- Digits in front are followed by what the rest has to be.
theorem not_mem_of_dropWhile {s : List Char} (h : '\n' ∉ s.dropWhile Char.isDigit) : '\n' ∉ s := by
  rw [← List.takeWhile_append_dropWhile (p := Char.isDigit) (l := s), List.mem_append, not_or]
  exact ⟨unbroken_of_isDigit fun c hc => List.mem_takeWhile_imp hc, h⟩

theorem not_mem_of_sameLetters {word : String} {s : List Char} (hword : '\n' ∉ (lower word).toList)
    (h : sameLetters word (String.ofList s) = true) : '\n' ∉ s := by
  intro hmem
  rw [sameLetters, beq_iff_eq] at h
  rw [h, lower, String.toList_ofList, String.toList_ofList] at hword
  exact hword (List.mem_map.mpr ⟨'\n', hmem, by decide⟩)

theorem not_mem_of_isDecimal {s : List Char} (h : isDecimal s = true) : '\n' ∉ s := by
  refine not_mem_of_dropSign ?_
  simp only [isDecimal, Bool.or_eq_true] at h
  rcases h with h | h
  · refine not_mem_of_dropWhile ?_
    split at h
    · rename_i rest hrest
      rw [Bool.and_eq_true] at h
      have hfraction := not_mem_of_dropWhile (not_mem_of_isExponentPart h.2)
      simpa [hrest] using hfraction
    · rw [Bool.and_eq_true] at h
      exact not_mem_of_isExponentPart h.2
  · rw [List.any_eq_true] at h
    obtain ⟨word, hword, hsame⟩ := h
    have hwords : ∀ word ∈ ["inf", "infinity", "nan"], '\n' ∉ (lower word).toList := by decide
    exact not_mem_of_sameLetters (hwords word hword) hsame

theorem unbroken_convert {value typeName : String} (hv : Unbroken value) (ht : Unbroken typeName) :
    Unbroken (convert value typeName) :=
  .append (.append (.append (.append (.append (.append (.literal rfl) ht) (.literal rfl)) hv)
    (.literal rfl)) (unbroken_boxedType ht)) (.literal rfl)

-- A number is written as it is, anything else is quoted.
theorem unbroken_coerce (value : String) {typeName : String} (ht : Unbroken typeName) :
    Unbroken (coerce value typeName) := by
  have hconvert := unbroken_convert (unbroken_quote value) ht
  have hinteger : isInteger64 (trimmed value).toList = true → Unbroken (trimmed value) :=
    not_mem_of_isInteger64
  have hdecimal : isDecimal (trimmed value).toList = true → Unbroken (trimmed value) :=
    not_mem_of_isDecimal
  have htruth : Unbroken (if isTrue (trimmed value) then "true" else "false") := by
    split_ifs
    · exact .literal rfl
    · exact .literal rfl
  unfold coerce
  dsimp only
  split
  · exact unbroken_quote value
  · split
    case h_1 => exact htruth
    case h_2 => exact .append (.append (.literal rfl) htruth) (.literal rfl)
    case h_3 =>
      split
      · exact unbroken_quoteChar _
      · exact .literal rfl
    case h_4 =>
      split
      · exact .append (.append (.literal rfl) (unbroken_quoteChar _)) (.literal rfl)
      · exact .literal rfl
    case h_5 =>
      split_ifs with h
      · exact hinteger h
      · exact .literal rfl
      · exact hconvert
    case h_6 =>
      split_ifs with h
      · exact .append (hinteger h) (.literal rfl)
      · exact .literal rfl
      · exact hconvert
    case h_7 | h_8 =>
      split_ifs with h
      · exact .append (.append (.append (.literal rfl) ht) (.literal rfl)) (hinteger h)
      · exact .append (.append (.literal rfl) ht) (.literal rfl)
      · exact hconvert
    case h_9 =>
      split_ifs with h
      · exact hdecimal h
      · exact .literal rfl
      · exact hconvert
    case h_10 =>
      split_ifs with h
      · exact .append (hdecimal h) (.literal rfl)
      · exact .literal rfl
      · exact hconvert
    case h_11 => exact hconvert

-- The parts of a text that are neither fixed nor quoted.
def Operand.parts : Operand → List String
  | code text => [text]
  | charArray _ => []
  | evaluate _ typeName _ | valueExpression _ typeName _ => [typeName]
  | methodExpression _ returns parameters _ => returns :: parameters
  | deferredBody _ handler count => [handler, count]

def Statement.parts : Statement → List String
  | code text | raw text | print text => [text]
  | write value | writeEscaped value | setProperty _ _ value => value.parts
  | declare typeName name | sync typeName name => [typeName, name]
  | hold name value => name :: value.parts
  | save newOf copy name => newOf.toList ++ [copy, name]
  | restore name copy => [name, copy]
  | countUp count | countDown count => [count]
  | capture name _ => [name]
  | acquire typeName handler pool => typeName :: handler :: pool.toList
  | reuse pool handler => [pool, handler]
  | set handler setter value => handler :: setter :: value.parts
  | setDynamic handler _ value | setBody handler value => handler :: value.parts
  | instantiate name typeName className => name :: typeName :: className.parts
  | includePage page params _ | forwardPage page params =>
    page.parts ++ params.flatMap Operand.parts
  | startPlugin kind className base extra params =>
    kind.parts ++ className.parts ++ base.parts ++ extra.flatMap Operand.parts ++
      params.flatMap Operand.parts
  | declareFunctions _ functions => functions.flatMap fun f => f.className :: f.parameterTypes
  | declarePool pool | initPool pool | releasePool pool => [pool]
  | pushBody | popBody | leave _ | declareArray .. | caseLabel _ => []

def Head.parts : Head → List String
  | code text => [text]
  | call name parent count => [name, parent, count]
  | method name => [name]
  | deferred _ => []

def Line.parts : Line → List String
  | plain statement => statement.parts
  | opens head => head.parts
  | inner text | turns text | closes text => [text]

theorem Operand.unbroken {op : Operand} (h : ∀ t ∈ op.parts, Unbroken t) : Unbroken op.text := by
  cases op with
  | code text => exact h _ (List.mem_singleton_self _)
  | charArray index => exact unbroken_charArray index
  | evaluate source typeName functions | valueExpression source typeName functions =>
    have htype : Unbroken typeName := h _ (List.mem_singleton_self _)
    delta Operand.text
    dsimp only
    simp only [unbroken_append, htype, unbroken_quote, unbroken_boxedType htype,
      unbroken_functionsText, and_true]
    and_intros
    all_goals exact .literal rfl
  | methodExpression source returns parameters functions =>
    obtain ⟨hreturns, hparameters⟩ := List.forall_mem_cons.mp h
    delta Operand.text
    dsimp only
    simp only [unbroken_append, unbroken_quote, unbroken_boxedType hreturns,
      unbroken_classArray hparameters, unbroken_functionsText, and_true]
    and_intros
    all_goals exact .literal rfl
  | deferredBody number handler count =>
    obtain ⟨hhandler, hcount⟩ := List.forall_mem_cons.mp h
    delta Operand.text
    dsimp only
    simp only [unbroken_append, hhandler, hcount _ (List.mem_singleton_self _), unbroken_toString,
      and_true]
    and_intros
    all_goals exact .literal rfl

theorem unbroken_stringArray {values : List Operand}
    (h : ∀ t ∈ values.flatMap Operand.parts, Unbroken t) : Unbroken (stringArray values) := by
  unfold stringArray
  split
  · exact .literal rfl
  · refine .append (.append (.literal rfl) (unbroken_join (.literal rfl) fun t ht => ?_))
      (.literal rfl)
    obtain ⟨op, hop, rfl⟩ := List.mem_map.mp ht
    exact Operand.unbroken fun t ht => h t (List.mem_flatMap.mpr ⟨op, hop, ht⟩)

theorem unbroken_address {page : Operand} {params : List Operand}
    (h : ∀ t ∈ page.parts ++ params.flatMap Operand.parts, Unbroken t) :
    Unbroken (address page params) := by
  obtain ⟨hpage, hparams⟩ := List.forall_mem_append.mp h
  unfold address
  split
  · exact Operand.unbroken hpage
  · simp only [unbroken_append, Operand.unbroken hpage, unbroken_stringArray hparams, and_true]
    and_intros
    all_goals exact .literal rfl

theorem MappedFunction.unbroken {f : MappedFunction}
    (h : ∀ t ∈ f.className :: f.parameterTypes, Unbroken t) : Unbroken f.text := by
  obtain ⟨hclass, htypes⟩ := List.forall_mem_cons.mp h
  delta MappedFunction.text
  simp only [unbroken_append, unbroken_quote, hclass, unbroken_classArray htypes, and_true]
  and_intros
  all_goals exact .literal rfl

theorem unbroken_ite {b : Bool} {s t : String} (hs : Unbroken s) (ht : Unbroken t) :
    Unbroken (if b then s else t) := by
  cases b with
  | true => exact hs
  | false => exact ht

-- A statement stands on one line if its parts do.
theorem Statement.unbroken {st : Statement} (h : ∀ t ∈ st.parts, Unbroken t) : Unbroken st.text := by
  cases st with
  | code text | raw text => exact h _ (List.mem_singleton_self _)
  | print text | countUp text | countDown text | declarePool text | initPool text
  | releasePool text =>
    have htext : Unbroken text := h _ (List.mem_singleton_self _)
    delta Statement.text
    dsimp only
    simp only [unbroken_append, htext, and_true, true_and]
    and_intros
    all_goals exact .literal rfl
  | write value | writeEscaped value | setProperty bean property value =>
    have hvalue := Operand.unbroken h
    delta Statement.text
    dsimp only
    simp only [unbroken_append, unbroken_quote, unbroken_lookupBean, hvalue, and_true]
    and_intros
    all_goals exact .literal rfl
  | declare first second | sync first second | restore first second | reuse first second =>
    obtain ⟨hfirst, hsecond⟩ := List.forall_mem_cons.mp h
    replace hsecond := hsecond _ (List.mem_singleton_self _)
    delta Statement.text
    dsimp only
    simp only [unbroken_append, unbroken_lookupBean, hfirst, hsecond, and_true, true_and]
    and_intros
    all_goals exact .literal rfl
  | hold name value | setBody name value | setDynamic name _ value =>
    obtain ⟨hname, hvalue⟩ := List.forall_mem_cons.mp h
    replace hvalue := Operand.unbroken hvalue
    delta Statement.text
    dsimp only
    simp only [unbroken_append, unbroken_quote, hname, hvalue, and_true, true_and]
    and_intros
    all_goals exact .literal rfl
  | set first second value | instantiate first second value =>
    obtain ⟨hfirst, hrest⟩ := List.forall_mem_cons.mp h
    obtain ⟨hsecond, hvalue⟩ := List.forall_mem_cons.mp hrest
    replace hvalue := Operand.unbroken hvalue
    delta Statement.text
    dsimp only
    simp only [unbroken_append, hfirst, hsecond, hvalue, and_true, true_and]
    and_intros
    all_goals exact .literal rfl
  | save newOf copy name =>
    obtain ⟨hnew, hrest⟩ := List.forall_mem_append.mp h
    obtain ⟨hcopy, hname⟩ := List.forall_mem_cons.mp hrest
    replace hname := hname _ (List.mem_singleton_self _)
    cases newOf with
    | none =>
      exact .append (.append (.append hcopy (.literal rfl)) hname) (.literal rfl)
    | some typeName =>
      exact .append (.append (.append (.append (.append (hnew _ (List.mem_singleton_self _))
        (.literal rfl)) hcopy) (.literal rfl)) hname) (.literal rfl)
  | capture name trim =>
    have hname : Unbroken name := h _ (List.mem_singleton_self _)
    exact .append (.append (.append (.append (.append (.append (.literal rfl) hname)
      (.literal rfl)) (.literal rfl)) (.literal rfl))
      (unbroken_ite (.literal rfl) (.literal rfl))) (.literal rfl)
  | acquire typeName handler pool =>
    obtain ⟨htype, hrest⟩ := List.forall_mem_cons.mp h
    obtain ⟨hhandler, hpool⟩ := List.forall_mem_cons.mp hrest
    cases pool with
    | none =>
      delta Statement.text
      dsimp only
      simp only [unbroken_append, htype, hhandler, and_true, true_and]
      and_intros
      all_goals exact .literal rfl
    | some pool =>
      replace hpool := hpool _ (List.mem_singleton_self _)
      delta Statement.text
      dsimp only
      simp only [unbroken_append, htype, hhandler, hpool, and_true, true_and]
      and_intros
      all_goals exact .literal rfl
  | includePage page params flush =>
    have haddress := unbroken_address h
    have hflush : Unbroken (if flush then "true" else "false") :=
      unbroken_ite (.literal rfl) (.literal rfl)
    delta Statement.text
    dsimp only
    simp only [unbroken_append, haddress, hflush, and_true]
    and_intros
    all_goals exact .literal rfl
  | forwardPage page params =>
    exact .append (.append (.append (.literal rfl) (.literal rfl)) (unbroken_address h))
      (.literal rfl)
  | startPlugin kind className base extra params =>
    simp only [parts, List.forall_mem_append] at h
    obtain ⟨⟨⟨⟨hkind, hclass⟩, hbase⟩, hextra⟩, hparams⟩ := h
    have hkind := Operand.unbroken hkind
    have hclass := Operand.unbroken hclass
    have hbase := Operand.unbroken hbase
    delta Statement.text
    dsimp only
    simp only [unbroken_append, hkind, hclass, hbase, unbroken_stringArray hextra,
      unbroken_stringArray hparams, and_true]
    and_intros
    all_goals exact .literal rfl
  | leave style =>
    cases style with
    | returns | returnsTrue => exact .literal rfl
    | throws => exact .append (.append (.literal rfl) (.literal rfl)) (.literal rfl)
  | declareFunctions index functions =>
    have hfunctions : Unbroken (join ", " (functions.map MappedFunction.text)) := by
      refine unbroken_join (.literal rfl) fun t ht => ?_
      obtain ⟨f, hf, rfl⟩ := List.mem_map.mp ht
      exact MappedFunction.unbroken fun t ht => h t (List.mem_flatMap.mpr ⟨f, hf, ht⟩)
    delta Statement.text
    dsimp only
    simp only [unbroken_append, unbroken_functionField, hfunctions, and_true]
    and_intros
    all_goals exact .literal rfl
  | declareArray index text =>
    delta Statement.text
    dsimp only
    simp only [unbroken_append, unbroken_quote, unbroken_charArray, and_true]
    and_intros
    all_goals exact .literal rfl
  | caseLabel number => exact .append (.append (.literal rfl) (unbroken_toString number)) (.literal rfl)
  | pushBody | popBody => exact .append (.append (.literal rfl) (.literal rfl)) (.literal rfl)

theorem Head.unbroken {head : Head} (h : ∀ t ∈ head.parts, Unbroken t) : Unbroken head.text := by
  cases head with
  | code text => exact h _ (List.mem_singleton_self _)
  | call name parent count =>
    obtain ⟨hname, hrest⟩ := List.forall_mem_cons.mp h
    obtain ⟨hparent, hcount⟩ := List.forall_mem_cons.mp hrest
    replace hcount := hcount _ (List.mem_singleton_self _)
    delta Head.text
    dsimp only
    simp only [unbroken_append, hname, hparent, hcount, and_true]
    and_intros
    all_goals exact .literal rfl
  | method name =>
    have hname : Unbroken name := h _ (List.mem_singleton_self _)
    delta Head.text
    dsimp only
    simp only [unbroken_append, hname, and_true]
    and_intros
    all_goals exact .literal rfl
  | deferred number =>
    delta Head.text
    dsimp only
    simp only [unbroken_append, unbroken_toString, and_true]
    and_intros
    all_goals exact .literal rfl

theorem Line.unbroken {line : Line} (h : ∀ t ∈ line.parts, Unbroken t) : Unbroken line.text := by
  cases line with
  | plain statement => exact Statement.unbroken h
  | inner text => exact h _ (List.mem_singleton_self _)
  | opens head => exact .append (Head.unbroken h) (.literal rfl)
  | turns head =>
    exact .append (.append (.literal rfl) (h _ (List.mem_singleton_self _))) (.literal rfl)
  | closes tail => exact h _ (List.mem_singleton_self _)

end ClassText
end PageCompiler
