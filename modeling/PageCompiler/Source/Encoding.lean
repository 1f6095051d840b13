import PageCompiler.Diagnostic
import PageCompiler.Text.Blank
import PageCompiler.Text.Cut
import PageCompiler.Text.Letters
import PageCompiler.Text.Utf16

-- The encoding is taken from the strongest of the signals at hand: a byte-order mark, the XML
-- prolog, the configured page encoding, the page directive, and at last a default.
namespace PageCompiler

open Text Text.Utf8

structure EncodingInfo where
  -- The encoding the unit was decoded with.
  effective : String := ""
  byteOrderMark : Option String := none
  prolog : Option String := none
  external : Option String := none
  deriving DecidableEq, Repr, Inhabited

namespace Encoding

-- The encoding a byte-order mark stands for, and the length of the mark.
def byteOrderMark? : Bytes → Option (String × Nat)
  | 0xEF :: 0xBB :: 0xBF :: _ => some ("UTF-8", 3)
  | 0xFE :: 0xFF :: _ => some ("UTF-16BE", 2)
  | 0xFF :: 0xFE :: _ => some ("UTF-16LE", 2)
  | _ => none

-- Declarations are looked for in the characters of the bytes; a byte that starts no character ends
-- a run.
abbrev Symbols := List (Option Char)

def symbols? (piece : List Char) (s : Symbols) : Option Symbols :=
  match piece, s with
  | [], s => some s
  | p :: ps, some c :: cs => if p = c then symbols? ps cs else none
  | _ :: _, _ => none

def skipBlanks (s : Symbols) : Symbols :=
  s.dropWhile fun
    | some c => isBlank c
    | none => false

def isEncodingChar (c : Char) : Bool := c.isAlphanum || c = '.' || c = '_' || c = '-'

-- The run of characters an encoding name may hold, unless it is empty.
def encodingName : Symbols → List Char × Symbols
  | some c :: s =>
    if isEncodingChar c then
      match encodingName s with
      | (name, rest) => (c :: name, rest)
    else ([], some c :: s)
  | s => ([], s)

-- An equals sign with blanks around it.
def equals? (s : Symbols) : Option Symbols := (symbols? ['='] (skipBlanks s)).map skipBlanks

def quote? : Symbols → Option Symbols
  | some c :: s => if c = '"' || c = '\'' then some s else none
  | _ => none

-- The word, an equals sign and a quoted encoding name.
def quotedEncoding? (word : List Char) (s : Symbols) : Option String := do
  let s ← symbols? word s
  let s ← equals? s
  let s ← quote? s
  match encodingName s with
  | ([], _) => none
  | (name, s) => (quote? s).map fun _ => String.ofList name

-- The first place in the prolog at which its encoding is declared.
def inProlog? : Symbols → Option String
  | [] => none
  | c :: s =>
    match quotedEncoding? "encoding".toList (c :: s) with
    | some name => some name
    | none =>
      match c with
      | some '>' | none => none
      | some _ => inProlog? s

def prolog? (bs : Bytes) : Option String :=
  (symbols? "<?xml".toList (Utf8.symbols bs)).bind inProlog?

-- The first declaration of the page encoding anywhere in the unit.
def declared? : Symbols → Option String
  | [] => none
  | c :: s =>
    match quotedEncoding? "pageEncoding".toList (c :: s) with
    | some name => some name
    | none => declared? s

-- The last charset named before the quoted run ends.
def charset? : Symbols → Option String
  | [] => none
  | c :: s =>
    let later :=
      match c with
      | some '"' | some '\'' | none => none
      | some _ => charset? s
    match later with
    | some name => some name
    | none => do
      let s ← symbols? "charset".toList (c :: s)
      let s ← equals? s
      match encodingName s with
      | ([], _) => none
      | (name, _) => some (String.ofList name)

-- The charset of the first content type that names one.
def contentType? : Symbols → Option String
  | [] => none
  | c :: s =>
    let here := do
      let s ← symbols? "contentType".toList (c :: s)
      let s ← equals? s
      let s ← quote? s
      charset? s
    match here with
    | some name => some name
    | none => contentType? s

def directive? (bs : Bytes) : Option String :=
  let s := Utf8.symbols bs
  (declared? s).or (contentType? s)

-- The spelling under which encoding names are compared.
def canonical (name : String) : String :=
  match String.ofList ((upper name).toList.map fun c => if c = '_' then '-' else c) with
  | "UTF8" | "UTF-8" => "UTF-8"
  | "LATIN1" | "ISO8859-1" | "ISO-8859-1" | "ISO-LATIN-1" => "ISO-8859-1"
  | "ASCII" | "US-ASCII" => "US-ASCII"
  | "UTF16" | "UTF-16" => "UTF-16"
  | other => other

-- UTF-16 without a byte order agrees with either order.
def same (a b : String) : Bool :=
  let a := canonical a
  let b := canonical b
  a == b || (begins "UTF-16" a && b == "UTF-16") || (begins "UTF-16" b && a == "UTF-16")

def isAscii (bs : Bytes) : Bool := bs.all fun b => b.toNat < 0x80

def latin (bs : Bytes) : List Char := bs.map fun b => Char.ofNat b.toNat

-- The text of the bytes, or why they are none in this encoding.
def decodeAs (encoding : String) (bs : Bytes) : Except Fault (List Char) :=
  let invalid (reason : String) : Fault :=
    .unreadable "" ("invalid " ++ encoding ++ " input: " ++ reason)
  match canonical encoding with
  | "UTF-8" =>
    match Utf8.decode? bs with
    | some s => .ok s
    | none => .error (invalid "<utf8>")
  | "US-ASCII" => if isAscii bs then .ok (latin bs) else .error (invalid "non-ASCII byte")
  | "ISO-8859-1" => .ok (latin bs)
  | "UTF-16BE" | "UTF-16" => (Utf16.decode .big bs).mapError fun e => invalid e.text
  | "UTF-16LE" => (Utf16.decode .little bs).mapError fun e => invalid e.text
  | other => .error (.unsupportedEncoding other)

-- A decoding fault names the unit it was met in.
def inUnit (unit : String) : Fault → Fault
  | .unreadable _ message => .unreadable unit message
  | fault => fault

structure Decoded where
  text : List Char
  encoding : EncodingInfo
  deriving DecidableEq, Repr

def decode (unit : String) (bs : Bytes) (external : Option String) (fallback : String) :
    Except Diagnostic Decoded :=
  let bom := byteOrderMark? bs
  let body := bs.drop ((bom.map Prod.snd).getD 0)
  let prolog :=
    match bom with
    | some (name, _) => if name == "UTF-8" then prolog? body else none
    | none => prolog? body
  let effective :=
    ((((bom.map Prod.fst).or prolog).or external).or (directive? body)).getD fallback
  match decodeAs effective body with
  | .error fault => .error (.unplaced "parse" (inUnit unit fault))
  | .ok text =>
    .ok ⟨text,
      { effective := canonical effective, byteOrderMark := bom.map Prod.fst, prolog, external }⟩

end Encoding
end PageCompiler
