import PageCompiler.Text.Cut

namespace PageCompiler.Markup

open Text

def digit? (radix : Nat) (c : Char) : Option Nat :=
  let value :=
    if '0' ≤ c && c ≤ '9' then some (c.toNat - '0'.toNat)
    else if 'a' ≤ c && c ≤ 'f' then some (c.toNat - 'a'.toNat + 10)
    else if 'A' ≤ c && c ≤ 'F' then some (c.toNat - 'A'.toNat + 10)
    else none
  value.filter (· < radix)

-- A number without a sign that fits into 32 bits.
def number? (radix : Nat) (s : List Char) : Option Nat :=
  if s.isEmpty then none
  else
    (s.foldlM (fun n c => (digit? radix c).map fun d => n * radix + d) 0).filter (· < 0x100000000)

-- The character of a number. Zero stands for none.
def numbered? (n : Nat) : Option Char :=
  if h : n.isValidChar then if n = 0 then none else some (Char.ofNatAux n h) else none

-- The character of an entity name.
def entity? : List Char → Option Char
  | '#' :: 'x' :: digits => (number? 16 digits).bind numbered?
  | '#' :: digits => (number? 10 digits).bind numbered?
  | name =>
    match String.ofList name with
    | "lt" => some '<'
    | "gt" => some '>'
    | "amp" => some '&'
    | "apos" => some '\''
    | "quot" => some '"'
    | _ => none

-- The text that escaped text stands for. `name` holds the part of an entity that has been read,
-- in reverse; another ampersand in it is no entity.
def unescapeFrom (name : Option (List Char)) : List Char → Option (List Char)
  | [] => if name.isSome then none else some []
  | c :: cs =>
    match name with
    | none =>
      if c = '&' then unescapeFrom (some []) cs else (unescapeFrom none cs).map (c :: ·)
    | some read =>
      if c = ';' then do
        let value ← entity? read.reverse
        (unescapeFrom none cs).map (value :: ·)
      else if c = '&' then none
      else unescapeFrom (some (c :: read)) cs

def unescape? (s : List Char) : Option (List Char) := unescapeFrom none s

def escapeChar : Char → String
  | '<' => "&lt;"
  | '>' => "&gt;"
  | '&' => "&amp;"
  | '\'' => "&apos;"
  | '"' => "&quot;"
  | c => c.toString

-- Text as it is written in content and in attribute values.
def escape (s : String) : String := String.join (s.toList.map escapeChar)

end PageCompiler.Markup
