import PageCompiler.ClassText.Names
import PageCompiler.Text.Letters
import Mathlib.Data.List.Forall2

namespace PageCompiler.ClassText

open Text

variable {c d : Char} {s : List Char}

-- What stands in an identifier for a character.
def standIn (c : Char) : Char := if isIdentifierChar c then c else '_'

-- Two characters that an identifier does not tell apart.
def Alike (c d : Char) : Prop := c = d ∨ c.isAlphanum = false ∧ d.isAlphanum = false

instance (c d : Char) : Decidable (Alike c d) := inferInstanceAs (Decidable (_ ∨ _))

theorem standIn_of_isAlphanum (h : c.isAlphanum = true) : standIn c = c :=
  if_pos (by simp [isIdentifierChar, h])

theorem standIn_of_not_isAlphanum (h : c.isAlphanum = false) : standIn c = '_' := by
  by_cases hc : c = '_'
  · subst hc
    rfl
  · exact if_neg (by simp [isIdentifierChar, h, hc])

theorem standIn_eq_underscore_iff : standIn c = '_' ↔ c.isAlphanum = false := by
  cases h : c.isAlphanum with
  | false => simp [standIn_of_not_isAlphanum h]
  | true =>
    rw [standIn_of_isAlphanum h]
    refine ⟨?_, fun hfalse => nomatch hfalse⟩
    rintro rfl
    cases h

theorem standIn_eq_iff : standIn c = standIn d ↔ Alike c d := by
  unfold Alike
  cases hc : c.isAlphanum with
  | false =>
    rw [standIn_of_not_isAlphanum hc, eq_comm, standIn_eq_underscore_iff]
    refine ⟨fun hd => .inr ⟨rfl, hd⟩, ?_⟩
    rintro (rfl | ⟨-, hd⟩)
    · exact hc
    · exact hd
  | true =>
    rw [standIn_of_isAlphanum hc]
    refine ⟨fun h => .inl ?_, ?_⟩
    · cases hd : d.isAlphanum with
      | false =>
        rw [h, standIn_of_not_isAlphanum hd] at hc
        cases hc
      | true => rw [h, standIn_of_isAlphanum hd]
    · rintro (rfl | ⟨hfalse, -⟩)
      · exact (standIn_of_isAlphanum hc).symm
      · cases hfalse

theorem isIdentifierChar_standIn (c : Char) : isIdentifierChar (standIn c) = true := by
  cases h : isIdentifierChar c with
  | false => rw [standIn, h]; rfl
  | true => rw [standIn, if_pos h]; exact h

theorem map_standIn_of_isAlphanum (h : ∀ c ∈ s, c.isAlphanum = true) : s.map standIn = s :=
  (List.map_congr_left fun c hc => standIn_of_isAlphanum (h c hc)).trans (List.map_id s)

theorem map_standIn_eq_iff {a b : List Char} :
    a.map standIn = b.map standIn ↔ List.Forall₂ Alike a b := by
  rw [← List.forall₂_eq_eq_eq, List.forall₂_map_left_iff, List.forall₂_map_right_iff]
  simp only [standIn_eq_iff]

-- A name with the underscore it gets: in place of no name, in front of a digit, or behind a
-- reserved word.
def completed (name : List Char) : List Char :=
  if name = [] then ['_']
  else if name.head?.any Char.isDigit then '_' :: name
  else if reservedWords.contains (String.ofList name) then name ++ ['_']
  else name

-- Names that an identifier does not tell apart.
def SharesIdentifier (a b : String) : Prop :=
  List.Forall₂ Alike (completed a.toList) (completed b.toList)

instance (a b : String) : Decidable (SharesIdentifier a b) :=
  inferInstanceAs (Decidable (List.Forall₂ ..))

theorem isAlphanum_of_reserved {w : String} (h : w ∈ reservedWords) :
    ∀ c ∈ w.toList, c.isAlphanum = true := by
  have hall : (reservedWords.all fun w => w.toList.all Char.isAlphanum) = true := by decide +kernel
  exact List.all_eq_true.mp (List.all_eq_true.mp hall w h)

-- The characters behind which an identifier is found to be reserved are those of the name itself.
theorem contains_map_standIn (s : List Char) :
    reservedWords.contains (String.ofList (s.map standIn)) =
      reservedWords.contains (String.ofList s) := by
  rw [Bool.eq_iff_iff, List.contains_iff_mem, List.contains_iff_mem]
  constructor
  · intro h
    have hkept : s.map standIn = s := by
      refine map_standIn_of_isAlphanum fun c hc => ?_
      have hletter := isAlphanum_of_reserved h (standIn c)
        (by rw [String.toList_ofList]; exact List.mem_map_of_mem hc)
      cases hcase : c.isAlphanum with
      | false =>
        rw [standIn_of_not_isAlphanum hcase] at hletter
        cases hletter
      | true => rfl
    rwa [hkept] at h
  · intro h
    rwa [map_standIn_of_isAlphanum]
    simpa using isAlphanum_of_reserved h

theorem not_reserved_of_underscore (h : '_' ∈ s) :
    reservedWords.contains (String.ofList s) = false := by
  rw [Bool.eq_false_iff, ne_eq, List.contains_iff_mem]
  intro hmem
  have hletter := isAlphanum_of_reserved hmem '_' (by rwa [String.toList_ofList])
  cases hletter

-- An identifier is the completed name, character by character.
theorem toList_identifier (name : String) :
    (identifier name).toList = (completed name.toList).map standIn := by
  unfold identifier completed
  generalize name.toList = name
  cases name with
  | nil => rfl
  | cons c name =>
    rw [if_neg (List.cons_ne_nil _ _), List.head?_cons, Option.any_some]
    by_cases hdigit : c.isDigit = true
    · have hmangle : mangle (c :: name) = '_' :: (c :: name).map standIn := if_pos hdigit
      have hfree := not_reserved_of_underscore (s := '_' :: (c :: name).map standIn)
        (List.mem_cons_self ..)
      dsimp only
      rw [hmangle, hfree, if_pos hdigit, if_neg Bool.false_ne_true, String.toList_ofList]
      rfl
    · have hmangle : mangle (c :: name) = (c :: name).map standIn := if_neg hdigit
      dsimp only
      rw [hmangle, contains_map_standIn, if_neg hdigit]
      split_ifs
      · rw [String.toList_append, String.toList_ofList, List.map_append]
        rfl
      · rw [String.toList_ofList]

theorem identifier_eq_iff {a b : String} : identifier a = identifier b ↔ SharesIdentifier a b := by
  rw [← String.toList_inj, toList_identifier, toList_identifier, map_standIn_eq_iff,
    SharesIdentifier]

theorem isIdentifierChar_of_mem {name : String} (h : c ∈ (identifier name).toList) :
    isIdentifierChar c = true := by
  rw [toList_identifier] at h
  obtain ⟨d, -, rfl⟩ := List.mem_map.mp h
  exact isIdentifierChar_standIn d

theorem completed_ne_nil (name : List Char) : completed name ≠ [] := by
  unfold completed
  split_ifs with hempty
  · simp
  · simp
  · simp
  · exact hempty

theorem toList_identifier_ne_nil (name : String) : (identifier name).toList ≠ [] := by
  rw [toList_identifier]
  exact mt List.map_eq_nil_iff.mp (completed_ne_nil _)

-- A letter or an underscore, with letters, digits and underscores behind it.
def isWritten (name : List Char) : Bool :=
  match name with
  | [] => false
  | c :: rest => (c.isAlpha || c = '_') && rest.all fun d => d.isAlphanum || d = '_'

-- The words that the language keeps for itself: its keywords, the underscore among them since its
-- ninth edition, and its literals.
def keptWords : List String :=
  ["abstract", "assert", "boolean", "break", "byte", "case", "catch", "char", "class", "const",
    "continue", "default", "do", "double", "else", "enum", "extends", "final", "finally", "float",
    "for", "if", "goto", "implements", "import", "instanceof", "int", "interface", "long",
    "native", "new", "package", "private", "protected", "public", "return", "short", "static",
    "strictfp", "super", "switch", "synchronized", "this", "throw", "throws", "transient", "try",
    "void", "volatile", "while", "_", "true", "false", "null"]

-- A name that a class can use as it stands.
def StandsAlone (name : String) : Prop := isWritten name.toList = true ∧ name ∉ keptWords

instance (name : String) : Decidable (StandsAlone name) := inferInstanceAs (Decidable (_ ∧ _))

-- Nothing is left of such a name but an underscore.
def IsBare (name : String) : Prop :=
  name = "" ∨ ∃ c, name.toList = [c] ∧ c.isAlphanum = false

theorem not_reserved_identifier (name : String) : identifier name ∉ reservedWords := by
  have hcontains : reservedWords.contains (identifier name) = false := by
    rw [← String.ofList_toList (s := identifier name), toList_identifier, contains_map_standIn]
    unfold completed
    split_ifs with hempty hdigit hreserved
    · exact not_reserved_of_underscore (List.mem_cons_self ..)
    · exact not_reserved_of_underscore (List.mem_cons_self ..)
    · exact not_reserved_of_underscore (List.mem_append_right _ (List.mem_cons_self ..))
    · simpa using hreserved
  simpa using hcontains

theorem isWritten_iff : isWritten s = true ↔
    s ≠ [] ∧ s.head?.any Char.isDigit = false ∧ ∀ c ∈ s, isIdentifierChar c = true := by
  cases s with
  | nil => simp [isWritten]
  | cons c rest =>
    have hfirst : (c.isAlpha || decide (c = '_')) = true ↔
        c.isDigit = false ∧ isIdentifierChar c = true := by
      constructor
      · intro h
        rcases Bool.or_eq_true_iff.mp h with halpha | hbar
        · exact ⟨not_isDigit_of_isAlpha halpha, by simp [isIdentifierChar, Char.isAlphanum, halpha]⟩
        · rw [of_decide_eq_true hbar]
          exact ⟨rfl, rfl⟩
      · rintro ⟨hdigit, hchar⟩
        simpa [isIdentifierChar, Char.isAlphanum, hdigit] using hchar
    rw [isWritten, Bool.and_eq_true, hfirst, List.all_eq_true, List.forall_mem_cons,
      List.head?_cons, Option.any_some, and_assoc]
    exact ⟨fun h => ⟨List.cons_ne_nil _ _, h⟩, fun h => h.2⟩

-- No digit stands at the front, where it would have got an underscore before it.
theorem head?_completed (name : List Char) : (completed name).head?.any Char.isDigit = false := by
  unfold completed
  split_ifs with hempty hdigit hreserved
  · rfl
  · rfl
  · rw [List.head?_append_of_ne_nil _ hempty]
    simpa using hdigit
  · simpa using hdigit

theorem isDigit_standIn (h : c.isDigit = false) : (standIn c).isDigit = false := by
  unfold standIn
  split
  · exact h
  · rfl

theorem isWritten_identifier (name : String) : isWritten (identifier name).toList = true := by
  refine isWritten_iff.mpr ⟨toList_identifier_ne_nil name, ?_, fun c => isIdentifierChar_of_mem⟩
  obtain ⟨c, rest, hcons⟩ := List.exists_cons_of_ne_nil (completed_ne_nil name.toList)
  have hdigit := head?_completed name.toList
  rw [hcons] at hdigit
  rw [toList_identifier, hcons]
  exact isDigit_standIn hdigit

-- The identifier of such a name is the name, with an underscore behind a reserved word.
theorem identifier_of_isWritten {name : String} (h : isWritten name.toList = true) :
    identifier name = name ++ if name ∈ reservedWords then "_" else "" := by
  obtain ⟨hne, hdigit, hchars⟩ := isWritten_iff.mp h
  have hkept : name.toList.map standIn = name.toList :=
    (List.map_congr_left fun c hc => if_pos (hchars c hc)).trans (List.map_id _)
  rw [← String.toList_inj, toList_identifier, completed, if_neg hne,
    if_neg (Bool.eq_false_iff.mp hdigit), String.ofList_toList, String.toList_append]
  simp only [List.contains_iff_mem]
  split_ifs
  · rw [List.map_append, hkept]
    rfl
  · rw [hkept, String.toList_empty, List.append_nil]

theorem identifier_identifier (name : String) :
    identifier (identifier name) = identifier name := by
  rw [identifier_of_isWritten (isWritten_identifier name), if_neg (not_reserved_identifier name),
    String.append_empty]

theorem identifier_eq_underscore_iff {name : String} : identifier name = "_" ↔ IsBare name := by
  rw [← String.toList_inj, toList_identifier, IsBare, ← String.toList_eq_nil_iff]
  unfold completed
  generalize name.toList = name
  cases name with
  | nil => exact iff_of_true rfl (.inl rfl)
  | cons c rest =>
    rw [if_neg (List.cons_ne_nil _ _), List.head?_cons, Option.any_some]
    split_ifs with hdigit hreserved
    · simp [Char.isAlphanum, hdigit]
    · have hletter := isAlphanum_of_reserved (List.contains_iff_mem.mp hreserved) c (by simp)
      simp [hletter]
    · simp [standIn_eq_underscore_iff, and_comm]

theorem standsAlone_identifier_iff {name : String} :
    StandsAlone (identifier name) ↔ ¬IsBare name := by
  have hwords : ∀ w ∈ keptWords, w ≠ "_" → w ∈ reservedWords := by decide +kernel
  rw [← identifier_eq_underscore_iff]
  constructor
  · intro halone hbare
    exact halone.2 (by rw [hbare]; decide)
  · intro hbare
    exact ⟨isWritten_identifier name, fun hkept =>
      not_reserved_identifier name (hwords _ hkept hbare)⟩

end PageCompiler.ClassText
