namespace PageCompiler.Text

-- What follows the given start, when the text has it.
def stripStart? : List Char → List Char → Option (List Char)
  | [], s => some s
  | _ :: _, [] => none
  | p :: ps, c :: cs => if p = c then stripStart? ps cs else none

theorem eq_of_stripStart? {p s rest : List Char} (h : stripStart? p s = some rest) :
    s = p ++ rest := by
  fun_induction stripStart? p s with
  | case1 => simp_all
  | case2 => simp at h
  | case3 p ps cs ih => simp [ih h]
  | case4 => simp at h

theorem stripStart?_append (p s : List Char) : stripStart? p (p ++ s) = some s := by
  induction p with
  | nil => simp [stripStart?]
  | cons c p ih => simp [stripStart?, ih]

-- What stands in front of the given end, when the text has it.
def stripEnd? (tail s : List Char) : Option (List Char) :=
  (stripStart? tail.reverse s.reverse).map List.reverse

theorem eq_of_stripEnd? {tail s rest : List Char} (h : stripEnd? tail s = some rest) :
    s = rest ++ tail := by
  obtain ⟨r, hr, rfl⟩ := Option.map_eq_some_iff.mp h
  have hs := congrArg List.reverse (eq_of_stripStart? hr)
  simpa using hs

def startsWith (p s : List Char) : Bool := (stripStart? p s).isSome

-- The text before and after the first place where the piece stands.
def cutAt? (piece : List Char) : List Char → Option (List Char × List Char)
  | [] => if piece = [] then some ([], []) else none
  | c :: cs =>
    match stripStart? piece (c :: cs) with
    | some rest => some ([], rest)
    | none => (cutAt? piece cs).map fun cut => (c :: cut.1, cut.2)

-- Nothing is lost but the piece itself.
theorem eq_of_cutAt? {piece s before after : List Char}
    (h : cutAt? piece s = some (before, after)) : s = before ++ piece ++ after := by
  induction s generalizing before with
  | nil =>
    unfold cutAt? at h
    split at h <;> simp_all
  | cons c cs ih =>
    unfold cutAt? at h
    split at h
    · rename_i hs
      simp only [Option.some.injEq, Prod.mk.injEq] at h
      obtain ⟨rfl, rfl⟩ := h
      exact eq_of_stripStart? hs
    · simp only [Option.map_eq_some_iff, Prod.mk.injEq] at h
      obtain ⟨⟨a, b⟩, hc, rfl, rfl⟩ := h
      simp [ih hc]

theorem length_cutAt? {piece s before after : List Char}
    (h : cutAt? piece s = some (before, after)) : after.length ≤ s.length := by
  rw [eq_of_cutAt? h]; simp; omega

theorem cutAt?_append {piece : List Char} (h : piece ≠ []) (rest : List Char) :
    cutAt? piece (piece ++ rest) = some ([], rest) := by
  obtain ⟨c, cs, rfl⟩ := List.exists_cons_of_ne_nil h
  have hstart := stripStart?_append (c :: cs) rest
  rw [List.cons_append] at hstart ⊢
  rw [cutAt?, hstart]

-- The piece is found where it first stands.
theorem length_le_of_cutAt? {piece s front before after : List Char}
    (h : cutAt? piece s = some (before, after)) (hs : front ++ piece <+: s) :
    before.length ≤ front.length := by
  induction s generalizing front before with
  | nil =>
    have heq := eq_of_cutAt? h
    have hnil : before = [] := by
      simp only [List.nil_eq, List.append_eq_nil_iff] at heq
      exact heq.1.1
    simp [hnil]
  | cons c s ih =>
    cases hstart : stripStart? piece (c :: s) with
    | some rest =>
      rw [cutAt?, hstart] at h
      cases h
      exact Nat.zero_le _
    | none =>
      rw [cutAt?, hstart] at h
      simp only [Option.map_eq_some_iff, Prod.mk.injEq] at h
      obtain ⟨⟨before, after⟩, hcut, rfl, rfl⟩ := h
      cases front with
      | nil =>
        obtain ⟨rest, hrest⟩ := hs
        rw [← hrest, List.nil_append, stripStart?_append] at hstart
        cases hstart
      | cons d front =>
        have hfront := ih hcut (List.cons_prefix_cons.mp hs).2
        simpa using hfront

theorem not_infix_of_cutAt? {piece s : List Char} (h : cutAt? piece s = none) :
    ¬ piece <:+: s := by
  induction s with
  | nil =>
    rw [List.infix_nil]
    rintro rfl
    cases h
  | cons c s ih =>
    cases hstart : stripStart? piece (c :: s) with
    | some rest =>
      rw [cutAt?, hstart] at h
      cases h
    | none =>
      rw [cutAt?, hstart] at h
      rw [List.infix_cons_iff, not_or]
      refine ⟨?_, ih (by simpa using h)⟩
      rintro ⟨rest, hrest⟩
      rw [← hrest, stripStart?_append] at hstart
      cases hstart

-- What is cut off holds no piece, not even one that the piece at which it is cut completes: it
-- would stand in front of that one.
theorem not_infix_before_cut {piece s before after : List Char} {c : Char}
    (h : cutAt? (piece ++ [c]) s = some (before, after)) :
    ¬ piece ++ [c] <:+: before ++ piece := by
  rintro ⟨front, behind, hfront⟩
  have hs : s = front ++ (piece ++ [c]) ++ (behind ++ c :: after) := by
    rw [eq_of_cutAt? h, ← List.append_assoc before, ← hfront]
    simp
  have hle := length_le_of_cutAt? h (hs ▸ List.prefix_append ..)
  have hlength := congrArg List.length hfront
  simp at hlength
  omega

def hasPiece (piece s : List Char) : Bool := (cutAt? piece s).isSome

-- The text before and after the first of a character.
def splitOnce? (d : Char) : List Char → Option (List Char × List Char)
  | [] => none
  | c :: cs =>
    if c = d then some ([], cs) else (splitOnce? d cs).map fun cut => (c :: cut.1, cut.2)

-- The text before and after the last of a character.
def splitLast? (d : Char) (s : List Char) : Option (List Char × List Char) :=
  (splitOnce? d s.reverse).map fun cut => (cut.2.reverse, cut.1.reverse)

-- The pieces between the separators: one more than there are separators.
def splitAll (d : Char) : List Char → List (List Char)
  | [] => [[]]
  | c :: cs =>
    if c = d then [] :: splitAll d cs
    else
      match splitAll d cs with
      | [] => [[c]]
      | w :: ws => (c :: w) :: ws

-- Replaces the piece at each place where it stands, from the left, without overlaps: `skip`
-- counts the characters of the piece last replaced that are still to be passed over.
def replaceFrom (piece put : List Char) : Nat → List Char → List Char
  | _, [] => []
  | skip + 1, _ :: cs => replaceFrom piece put skip cs
  | 0, c :: cs =>
    if startsWith piece (c :: cs) then put ++ replaceFrom piece put (piece.length - 1) cs
    else c :: replaceFrom piece put 0 cs

def replaceAll (piece put s : List Char) : List Char := replaceFrom piece put 0 s

-- The lines of a text; a carriage return in front of a line feed belongs to the line's end, and
-- a text that ends in a line feed has no further empty line.
def linesFrom : List Char → List Char → List (List Char)
  | [], [] => []
  | [], line => [line.reverse]
  | c :: cs, line =>
    if c = '\n' then
      match line with
      | '\r' :: kept => kept.reverse :: linesFrom cs []
      | kept => kept.reverse :: linesFrom cs []
    else linesFrom cs (c :: line)

def lines (s : List Char) : List (List Char) := linesFrom s []

-- The same operations on strings.

def cutString? (d : Char) (s : String) : Option (String × String) :=
  (splitOnce? d s.toList).map fun cut => (String.ofList cut.1, String.ofList cut.2)

def split (d : Char) (s : String) : List String := (splitAll d s.toList).map String.ofList

def begins (p s : String) : Bool := startsWith p.toList s.toList

def ends (tail s : String) : Bool := (stripEnd? tail.toList s.toList).isSome

def withoutStart? (p s : String) : Option String :=
  (stripStart? p.toList s.toList).map String.ofList

def withoutEnd? (tail s : String) : Option String :=
  (stripEnd? tail.toList s.toList).map String.ofList

def contains (piece s : String) : Bool := hasPiece piece.toList s.toList

def replace (piece put s : String) : String :=
  String.ofList (replaceAll piece.toList put.toList s.toList)

def linesOf (s : String) : List String := (lines s.toList).map String.ofList

-- Text without the leading, or the trailing, copies of a character.
def dropLeading (d : Char) (s : String) : String := String.ofList (s.toList.dropWhile (· == d))

def dropTrailing (d : Char) (s : String) : String :=
  String.ofList (s.toList.reverse.dropWhile (· == d)).reverse

def join (sep : String) (parts : List String) : String := String.intercalate sep parts

end PageCompiler.Text
