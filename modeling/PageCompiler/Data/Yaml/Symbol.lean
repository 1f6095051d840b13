-- Lines end in one of three ways only, because the common ends of a line all become a line feed
-- first.
namespace PageCompiler.Data.Yaml

structure Symbol where
  char : Char
  line : Nat
  column : Nat
  -- How many bytes stand in front of it on its line.
  offset : Nat
  deriving DecidableEq, Repr

-- Controls and two code points that stand for no character must not occur anywhere.
def isAllowed (c : Char) : Bool :=
  let n := c.toNat
  n = 0x9 || n = 0xA || n = 0xD || (0x20 ≤ n && n ≤ 0x7E) || n = 0x85 ||
    (0xA0 ≤ n && n ≤ 0xFFFD) || 0x10000 ≤ n

def isBlank (c : Char) : Bool := c = ' ' || c = '\t'

def isBreak (c : Char) : Bool := c = '\n' || c = '\u2028' || c = '\u2029'

def isGap (c : Char) : Bool := isBlank c || isBreak c

-- A carriage return, a return with its line feed, and a next line are a line feed.
def feedLines : List Char → List Char
  | [] => []
  | '\r' :: '\n' :: s => '\n' :: feedLines s
  | c :: s => (if c = '\r' || c = '\u0085' then '\n' else c) :: feedLines s

def place (line column offset : Nat) : List Char → List Symbol
  | [] => []
  | c :: s =>
    ⟨c, line, column, offset⟩ ::
      if isBreak c then place (line + 1) 0 0 s else place line (column + 1) (offset + c.utf8Size) s

-- The symbols of a text, when it holds allowed characters only.
def symbols? (text : String) : Option (List Symbol) :=
  let s := text.toList
  if s.all isAllowed then some (place 0 0 0 (feedLines s)) else none

def startsGap : List Symbol → Bool
  | [] => true
  | x :: _ => isGap x.char

def startsBreak : List Symbol → Bool
  | [] => true
  | x :: _ => isBreak x.char

def startsWith (p : Char → Bool) : List Symbol → Bool
  | [] => false
  | x :: _ => p x.char

-- Three equal marks at the front of a line, with a gap behind them.
def startsMarker (mark : Char) : List Symbol → Bool
  | a :: b :: c :: rest =>
    a.column = 0 && a.char = mark && b.char = mark && c.char = mark && startsGap rest
  | _ => false

-- A line that ends or starts a document.
def startsBoundary (s : List Symbol) : Bool := startsMarker '-' s || startsMarker '.' s

-- Brackets, braces and the comma.
def isFlowMark (c : Char) : Bool := c = ',' || c = '[' || c = ']' || c = '{' || c = '}'

-- Letters and digits of names.
def isNameChar (c : Char) : Bool := c.isAlphanum || c = '_' || c = '-'

-- The characters of the first symbols that fit, and the symbols behind them.
def takeChars (p : Char → Bool) : List Symbol → List Char × List Symbol
  | [] => ([], [])
  | x :: rest =>
    if p x.char then
      match takeChars p rest with
      | (cs, rest) => (x.char :: cs, rest)
    else ([], x :: rest)

def dropChars (p : Char → Bool) (s : List Symbol) : List Symbol := (takeChars p s).2

-- Blanks and a comment; the line must end behind them.
def restOfLine? (s : List Symbol) : Option (List Symbol) :=
  let s := dropChars isBlank s
  let s := if startsWith (· == '#') s then dropChars (fun c => !isBreak c) s else s
  if startsBreak s then some (s.drop 1) else none

end PageCompiler.Data.Yaml
