import PageCompiler.Data.Value
import PageCompiler.Data.Yaml.Symbol
import PageCompiler.Text.Utf8

namespace PageCompiler.Data.Yaml

open Text.Utf8 (Bytes byte)

-- A name of a node ends at a gap or at one of a few marks.
def nodeName? (s : List Symbol) : Option (String × List Symbol) :=
  let (name, rest) := takeChars isNameChar s
  let ends := startsGap rest ||
    startsWith (fun c => "?:,]\x7d%@".toList.contains c || c.toNat = 0x60) rest
  if name.isEmpty || !ends then none else some (String.ofList name, rest)

-- A tag is a suffix to what its handle stands for. The empty handle stands for nothing.
structure Tag where
  handle : String
  suffix : String
  deriving DecidableEq, Repr

-- Characters of a tag apart from the percent sign. Only between angle brackets may the marks of
-- flow collections stand.
def isTagChar (bracketed : Bool) (c : Char) : Bool :=
  isNameChar c || ";/?:@&=+$.!~*'()".toList.contains c ||
    (bracketed && (c = ',' || c = '[' || c = ']'))

-- A byte given by two digits behind a percent sign.
def escapedByte? : List Symbol → Option (Nat × List Symbol)
  | p :: a :: b :: rest =>
    if p.char = '%' then (Value.digits? 16 [a.char, b.char]).map fun n => (n, rest) else none
  | _ => none

-- How many bytes a character has whose first byte this is.
def byteCount? (n : Nat) : Option Nat :=
  if n < 0x80 then some 1
  else if n < 0xC0 then none
  else if n < 0xE0 then some 2
  else if n < 0xF0 then some 3
  else if n < 0xF8 then some 4
  else none

def moreBytes? : (count : Nat) → List Symbol → Option (Bytes × List Symbol)
  | 0, s => some ([], s)
  | count + 1, s =>
    match escapedByte? s with
    | none => none
    | some (n, s) =>
      if 0x80 ≤ n && n < 0xC0 then
        (moreBytes? count s).map fun (bytes, s) => (byte n :: bytes, s)
      else none

-- A character given by its bytes. Bytes that are no character leave a replacement for it.
def escapedChar? (s : List Symbol) : Option (Char × List Symbol) := do
  let (n, s) ← escapedByte? s
  let count ← byteCount? n
  let (bytes, s) ← moreBytes? (count - 1) s
  match Text.Utf8.decode? (byte n :: bytes) with
  | some [c] => return (c, s)
  | _ => return ('\ufffd', s)

def tagText? (bracketed : Bool) : (fuel : Nat) → List Symbol → Option (List Char × List Symbol)
  | 0, _ => none
  | _ + 1, [] => some ([], [])
  | fuel + 1, x :: rest =>
    if x.char = '%' then do
      let (c, s) ← escapedChar? (x :: rest)
      let (text, s) ← tagText? bracketed fuel s
      return (c :: text, s)
    else if isTagChar bracketed x.char then
      (tagText? bracketed fuel rest).map fun (text, s) => (x.char :: text, s)
    else some ([], x :: rest)

-- The text of a tag, which must not be empty when nothing of it stands in front.
def tagSuffix? (bracketed : Bool) (front : List Char) (s : List Symbol) :
    Option (String × List Symbol) :=
  match tagText? bracketed (s.length + 1) s with
  | some (text, rest) =>
    if text.isEmpty && front.isEmpty then none
    else some (String.ofList (front.drop 1 ++ text), rest)
  | none => none

-- An exclamation mark, a name, and a second mark if there is one.
def tagHandle? : List Symbol → Option (List Char × List Symbol)
  | [] => none
  | x :: rest =>
    if x.char = '!' then
      let (name, rest) := takeChars isNameChar rest
      if startsWith (· == '!') rest then some ('!' :: name ++ ['!'], rest.drop 1)
      else some ('!' :: name, rest)
    else none

def isHandle (s : List Char) : Bool := 1 < s.length && s.getLast? = some '!'

-- A tag whose exclamation mark is the first symbol.
def tag? (flow : Bool) (s : List Symbol) : Option (Tag × List Symbol) := do
  let (tag, rest) ←
    if startsWith (· == '<') (s.drop 1) then do
      let (suffix, rest) ← tagSuffix? true [] (s.drop 2)
      if startsWith (· == '>') rest then pure (⟨"", suffix⟩, rest.drop 1) else none
    else do
      let (handle, rest) ← tagHandle? s
      if isHandle handle then
        let (suffix, rest) ← tagSuffix? false [] rest
        pure (⟨String.ofList handle, suffix⟩, rest)
      else
        let (suffix, rest) ← tagSuffix? false handle rest
        pure (if suffix.isEmpty then ⟨"", "!"⟩ else ⟨"!", suffix⟩, rest)
  if startsGap rest || (flow && startsWith (· == ',') rest) then return (tag, rest) else none

inductive Directive where
  -- The version of the format the document is written in.
  | version (major minor : Nat)
  -- What a handle stands for.
  | handle (handle stem : String)
  deriving DecidableEq, Repr

-- A number of at most nine digits.
def versionNumber? (s : List Symbol) : Option (Nat × List Symbol) :=
  let (digits, rest) := takeChars Char.isDigit s
  if digits.length ≤ 9 then (Value.digits? 10 digits).map fun n => (n, rest) else none

def version? (s : List Symbol) : Option (Directive × List Symbol) := do
  let (major, s) ← versionNumber? s
  if startsWith (· == '.') s then
    let (minor, s) ← versionNumber? (s.drop 1)
    return (.version major minor, s)
  else none

def handleDirective? (s : List Symbol) : Option (Directive × List Symbol) := do
  let (handle, s) ← tagHandle? s
  if !(isHandle handle || handle = ['!']) || !(startsWith isBlank s) then none
  let (stem, s) ← tagSuffix? true [] (dropChars isBlank s)
  if startsGap s then return (.handle (String.ofList handle) stem, s) else none

-- A directive whose percent sign is the first symbol, and the symbols from the next line on.
def directive? (s : List Symbol) : Option (Directive × List Symbol) := do
  let (name, s) := takeChars isNameChar (s.drop 1)
  if !startsGap s then none
  let s := dropChars isBlank s
  let (directive, s) ←
    if name = "YAML".toList then version? s
    else if name = "TAG".toList then handleDirective? s
    else none
  return (directive, ← restOfLine? s)

end PageCompiler.Data.Yaml
