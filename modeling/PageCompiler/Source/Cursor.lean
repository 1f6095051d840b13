import PageCompiler.Mark
import PageCompiler.Text.Alphanumeric
import PageCompiler.Text.Blank
import PageCompiler.Text.Cut

namespace PageCompiler

open Text

structure Cursor where
  mark : Mark
  rest : List Char
  deriving DecidableEq, Repr

namespace Cursor

def ofText (unit : String) (text : List Char) : Cursor := ⟨.start unit, text⟩

def atEnd (c : Cursor) : Bool := c.rest.isEmpty

def peek? (c : Cursor) : Option Char := c.rest.head?

def next? (c : Cursor) : Option (Char × Cursor) :=
  match c.rest with
  | [] => none
  | x :: rest => some (x, ⟨c.mark.next x, rest⟩)

-- Passes over the given number of characters.
def skip (c : Cursor) (n : Nat) : Cursor := ⟨c.mark.advance (c.rest.take n), c.rest.drop n⟩

-- Passes over the characters that start within the given number of bytes.
def skipBytes (c : Cursor) (n : Nat) : Cursor :=
  match splitBytes c.rest n with
  | (passed, rest) => ⟨c.mark.advance passed, rest⟩

-- The place to stop at is counted first, and has to fit into 64 bits wherever the text ends.
def advance? (c : Cursor) (n : Nat) : Option Cursor :=
  if c.mark.offset + n < wordLimit then some (c.skipBytes n) else none

def startsWith (c : Cursor) (piece : String) : Bool := Text.startsWith piece.toList c.rest

-- Passes over a piece of text, when it stands here.
def accept? (c : Cursor) (piece : String) : Option Cursor :=
  (stripStart? piece.toList c.rest).map fun rest => ⟨c.mark.advance piece.toList, rest⟩

def skipBlanks (c : Cursor) : Cursor :=
  ⟨c.mark.advance (c.rest.takeWhile isBlank), c.rest.dropWhile isBlank⟩

-- The text up to a delimiter, and the place behind the delimiter.
def readUntil? (c : Cursor) (delimiter : String) : Option (List Char × Cursor) :=
  (cutAt? delimiter.toList c.rest).map fun (text, rest) =>
    (text, ⟨(c.mark.advance text).advance delimiter.toList, rest⟩)

def isTagNameChar (c : Char) : Bool :=
  isAlphanumeric c || c = '_' || c = '-' || c = '.' || c = ':'

def readName? (c : Cursor) : Option (List Char × Cursor) :=
  match c.rest.takeWhile isTagNameChar with
  | [] => none
  | name => some (name, ⟨c.mark.advance name, c.rest.dropWhile isTagNameChar⟩)

-- The place at which a tail of the rest starts.
def moveTo (c : Cursor) (tail : List Char) : Cursor := c.skip (c.rest.length - tail.length)

-- What follows an end tag of the given name, when the text starts with one.
def behindEndTag? (name s : List Char) : Option (List Char) := do
  let s ← stripStart? "</".toList s
  let s ← stripStart? name s
  stripStart? ">".toList (s.dropWhile isBlank)

-- Passes over an end tag of the given name, when it stands here.
def endTag? (c : Cursor) (name : String) : Option Cursor :=
  (behindEndTag? name.toList c.rest).map c.moveTo

-- The text before and after the first end tag of the given name.
def cutEndTag? (name : List Char) : List Char → Option (List Char × List Char)
  | [] => none
  | c :: cs =>
    match behindEndTag? name (c :: cs) with
    | some rest => some ([], rest)
    | none => (cutEndTag? name cs).map fun cut => (c :: cut.1, cut.2)

-- The text up to an end tag, and the place behind the tag.
def readThroughEndTag? (c : Cursor) (name : String) : Option (List Char × Cursor) :=
  (cutEndTag? name.toList c.rest).map fun cut => (cut.1, c.moveTo cut.2)

end Cursor
end PageCompiler
