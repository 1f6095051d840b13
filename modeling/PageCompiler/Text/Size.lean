namespace PageCompiler.Text

def byteSize : List Char → Nat
  | [] => 0
  | c :: cs => c.utf8Size + byteSize cs

@[simp] theorem byteSize_nil : byteSize [] = 0 := rfl

@[simp] theorem byteSize_cons (c : Char) (cs : List Char) :
    byteSize (c :: cs) = c.utf8Size + byteSize cs := rfl

theorem byteSize_append (a b : List Char) : byteSize (a ++ b) = byteSize a + byteSize b := by
  induction a with
  | nil => simp
  | cons c a ih => simp [ih, Nat.add_assoc]

-- Places and sizes are kept in 64 bits, and this is the first number that these do not hold.
def wordLimit : Nat := 0x10000000000000000

-- The characters that start before the given byte, and those that do not.
def splitBytes : List Char → Nat → List Char × List Char
  | s, 0 => ([], s)
  | [], _ + 1 => ([], [])
  | c :: cs, n + 1 =>
    match splitBytes cs (n + 1 - c.utf8Size) with
    | (taken, left) => (c :: taken, left)

theorem splitBytes_append (s : List Char) (n : Nat) :
    (splitBytes s n).1 ++ (splitBytes s n).2 = s := by
  fun_induction splitBytes s n <;> simp_all

def takeBytes (n : Nat) (s : List Char) : List Char := (splitBytes s n).1

-- The byte places at which the line feeds stand.
def newlinesFrom : Nat → List Char → List Nat
  | _, [] => []
  | offset, c :: cs =>
    if c = '\n' then offset :: newlinesFrom (offset + 1) cs
    else newlinesFrom (offset + c.utf8Size) cs

def newlines (s : List Char) : List Nat := newlinesFrom 0 s

def countNewlines (s : List Char) : Nat := s.countP (· == '\n')

end PageCompiler.Text
