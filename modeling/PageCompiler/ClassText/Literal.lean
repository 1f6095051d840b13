import PageCompiler.Text.Blank
import PageCompiler.Text.Cut
import PageCompiler.Text.Letters

namespace PageCompiler.ClassText

open Text

def hex4 (n : Nat) : String :=
  let digits := Nat.toDigits 16 n
  String.ofList (List.replicate (4 - digits.length) '0' ++ digits)

def escapeChar (c : Char) : String :=
  if c = '"' then "\\\""
  else if c = '\\' then "\\\\"
  else if c = '\n' then "\\n"
  else if c = '\r' then "\\r"
  else if c = '\t' then "\\t"
  else if c.toNat < 0x20 then "\\u" ++ hex4 c.toNat
  else c.toString

-- The inside of a string literal.
def escape (s : String) : String := String.join (s.toList.map escapeChar)

def quote (s : String) : String := "\"" ++ escape s ++ "\""

def quoteChar (c : Char) : String :=
  if c = '\'' then "'\\''" else if c = '"' then "'\"'" else "'" ++ escapeChar c ++ "'"

-- The class that stands for a primitive type.
def boxedType : String → String
  | "boolean" => "java.lang.Boolean"
  | "byte" => "java.lang.Byte"
  | "char" => "java.lang.Character"
  | "short" => "java.lang.Short"
  | "int" => "java.lang.Integer"
  | "long" => "java.lang.Long"
  | "float" => "java.lang.Float"
  | "double" => "java.lang.Double"
  | other => other

def dropSign : List Char → List Char
  | '+' :: s | '-' :: s => s
  | s => s

-- A decimal integer of 64 bits, with a sign or without.
def isInteger64 (s : List Char) : Bool :=
  let digits := dropSign s
  let value := digits.foldl (fun n c => n * 10 + (c.toNat - '0'.toNat)) 0
  !digits.isEmpty && digits.all Char.isDigit &&
    (value < 0x8000000000000000 || (value = 0x8000000000000000 && s.head? == some '-'))

-- Nothing, or an exponent.
def isExponentPart : List Char → Bool
  | [] => true
  | c :: s =>
    let digits := dropSign s
    (c = 'e' || c = 'E') && !digits.isEmpty && digits.all Char.isDigit

-- A decimal number with digits in front of the point or behind it, or a word for none.
def isDecimal (s : List Char) : Bool :=
  let s := dropSign s
  let whole := s.takeWhile Char.isDigit
  let rest := s.dropWhile Char.isDigit
  let number :=
    match rest with
    | '.' :: rest =>
      (!whole.isEmpty || !(rest.takeWhile Char.isDigit).isEmpty) &&
        isExponentPart (rest.dropWhile Char.isDigit)
    | _ => !whole.isEmpty && isExponentPart rest
  number || ["inf", "infinity", "nan"].any fun word => sameLetters word (String.ofList s)

def isTextType (typeName : String) : Bool :=
  ["java.lang.String", "java.lang.Object", "String", "Object"].contains typeName

def convert (value typeName : String) : String :=
  "(" ++ typeName ++ ") org.pagec.runtime.PageRuntime.convert(" ++ value ++ ", " ++
    boxedType typeName ++ ".class)"

-- An expression of the given type for a literal value. What cannot be converted now is left to the
-- runtime.
def coerce (value typeName : String) : String :=
  let bare := trimmed value
  let truth := if isTrue bare then "true" else "false"
  if isTextType typeName then quote value
  else
    match typeName with
    | "boolean" => truth
    | "java.lang.Boolean" => "java.lang.Boolean.valueOf(" ++ truth ++ ")"
    | "char" =>
      match value.toList with
      | c :: _ => quoteChar c
      | [] => "(char) 0"
    | "java.lang.Character" =>
      match value.toList with
      | c :: _ => "java.lang.Character.valueOf(" ++ quoteChar c ++ ")"
      | [] => "null"
    | "int" =>
      if isInteger64 bare.toList then bare
      else if bare.isEmpty then "0"
      else convert (quote value) typeName
    | "long" =>
      if isInteger64 bare.toList then bare ++ "L"
      else if bare.isEmpty then "0L"
      else convert (quote value) typeName
    | "short" | "byte" =>
      if isInteger64 bare.toList then "(" ++ typeName ++ ") " ++ bare
      else if bare.isEmpty then "(" ++ typeName ++ ") 0"
      else convert (quote value) typeName
    | "double" =>
      if isDecimal bare.toList then bare
      else if bare.isEmpty then "0d"
      else convert (quote value) typeName
    | "float" =>
      if isDecimal bare.toList then bare ++ "f"
      else if bare.isEmpty then "0f"
      else convert (quote value) typeName
    | _ => convert (quote value) typeName

-- Fills one piece after the other with as many bytes as the budget allows. `chunk` is the piece
-- being filled, in reverse, with its size in bytes. A character may be wider than the budget.
def chunksFrom (budget : Nat) : Nat → List Char → List Char → List (List Char)
  | _, [], [] => []
  | _, chunk, [] => [chunk.reverse]
  | bytes, chunk, c :: cs =>
    if 0 < bytes && budget < bytes + c.utf8Size then
      chunk.reverse :: chunksFrom budget c.utf8Size [c] cs
    else chunksFrom budget (bytes + c.utf8Size) (c :: chunk) cs

def chunks (budget : Nat) (text : List Char) : List (List Char) :=
  chunksFrom (max budget 1) 0 [] text

end PageCompiler.ClassText
