namespace PageCompiler.Text

-- The characters of the White_Space property.
def isBlank (c : Char) : Bool :=
  (0x09 ≤ c.toNat && c.toNat ≤ 0x0D) || c.toNat == 0x20 || c.toNat == 0x85 ||
    c.toNat == 0xA0 || c.toNat == 0x1680 || (0x2000 ≤ c.toNat && c.toNat ≤ 0x200A) ||
    c.toNat == 0x2028 || c.toNat == 0x2029 || c.toNat == 0x202F || c.toNat == 0x205F ||
    c.toNat == 0x3000

def allBlank (s : List Char) : Bool := s.all isBlank

def trimStart (s : List Char) : List Char := s.dropWhile isBlank

def trimEnd (s : List Char) : List Char := (s.reverse.dropWhile isBlank).reverse

def trim (s : List Char) : List Char := trimEnd (trimStart s)

-- The runs of characters that are not blank, in order.
def wordsFrom : List Char → List Char → List (List Char)
  | [], [] => []
  | [], word => [word.reverse]
  | c :: rest, word =>
    if isBlank c then
      match word with
      | [] => wordsFrom rest []
      | w :: ws => (w :: ws).reverse :: wordsFrom rest []
    else wordsFrom rest (c :: word)

def words (s : List Char) : List (List Char) := wordsFrom s []

-- The same operations on strings.

def blank (s : String) : Bool := allBlank s.toList

def trimmed (s : String) : String := String.ofList (trim s.toList)

def trimmedEnd (s : String) : String := String.ofList (trimEnd s.toList)

def wordsOf (s : String) : List String := (words s.toList).map String.ofList

end PageCompiler.Text
