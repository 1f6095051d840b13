import PageCompiler.Data.Value
import PageCompiler.Text.Utf16

namespace PageCompiler.Data.Json

open Text

def isGap (c : Char) : Bool := c = ' ' || c = '\t' || c = '\r' || c = '\n'

def skipGap (s : List Char) : List Char := s.dropWhile isGap

def hex4? : List Char → Option (Nat × List Char)
  | a :: b :: c :: d :: rest => (Value.digits? 16 [a, b, c, d]).map fun n => (n, rest)
  | _ => none

-- A character given by one or two 16-bit units. Half of a pair gives none.
def unit? (s : List Char) : Option (Option Char × List Char) :=
  match hex4? s with
  | none => none
  | some (high, rest) =>
    let low? :=
      match rest with
      | '\\' :: 'u' :: rest => if Utf16.isHigh high then hex4? rest else none
      | _ => none
    match low? with
    | some (low, after) =>
      match Utf16.decodeUnits? [high, low] with
      | some [c] => some (some c, after)
      | _ => some (none, rest)
    | none =>
      match Utf16.decodeUnits? [high] with
      | some [c] => some (some c, rest)
      | _ => some (none, rest)

def escape? : List Char → Option (Option Char × List Char)
  | '"' :: s => some (some '"', s)
  | '\\' :: s => some (some '\\', s)
  | '/' :: s => some (some '/', s)
  | 'b' :: s => some (some '\x08', s)
  | 'f' :: s => some (some '\x0c', s)
  | 'n' :: s => some (some '\n', s)
  | 'r' :: s => some (some '\r', s)
  | 't' :: s => some (some '\t', s)
  | 'u' :: s => unit? s
  | _ => none

-- Puts a character in front of a text; without the one or the other there is no text.
def pushChar (c : Option Char) (t : Option (List Char)) : Option (List Char) :=
  match c, t with
  | some c, some t => some (c :: t)
  | _, _ => none

-- The text up to the closing quote, when all of it is characters, and what follows the quote.
def string? (s : List Char) : Option (Option (List Char) × List Char) :=
  match s with
  | [] => none
  | c :: cs =>
    if c = '"' then some (some [], cs)
    else if c = '\\' then
      match escape? cs with
      | some (d, rest) =>
        if rest.length < cs.length + 1 then
          (string? rest).map fun (t, rest) => (pushChar d t, rest)
        else none
      | none => none
    else if c.toNat < 0x20 then none
    else (string? cs).map fun (t, rest) => (pushChar (some c) t, rest)
termination_by s.length

def digitRun (s : List Char) : List Char × List Char := s.span Char.isDigit

-- Passes over a fraction; its digits must not be missing.
def fraction? : List Char → Option (Bool × List Char)
  | '.' :: s =>
    match digitRun s with
    | ([], _) => none
    | (_, s) => some (true, s)
  | s => some (false, s)

def exponent? : List Char → Option (Bool × List Char)
  | c :: s =>
    if c = 'e' || c = 'E' then
      let s :=
        match s with
        | '+' :: s => s
        | '-' :: s => s
        | s => s
      match digitRun s with
      | ([], _) => none
      | (_, s) => some (true, s)
    else some (false, c :: s)
  | [] => some (false, [])

def number? (s : List Char) : Option (Value × List Char) :=
  let (negative, s) :=
    match s with
    | '-' :: s => (true, s)
    | s => (false, s)
  let whole :=
    match s with
    | '0' :: rest => some (['0'], rest)
    | s =>
      match digitRun s with
      | ([], _) => none
      | run => some run
  match whole with
  | none => none
  | some (digits, s) => do
    let (pointed, s) ← fraction? s
    let (scaled, s) ← exponent? s
    let value := (Value.digits? 10 digits).getD 0
    return (if negative || pointed || scaled || Text.wordLimit ≤ value then .otherNumber
      else .natural value, s)

def keyword? (s : List Char) : Option (Value × List Char) :=
  match stripStart? "null".toList s with
  | some rest => some (.null, rest)
  | none =>
    match stripStart? "true".toList s with
    | some rest => some (.bool true, rest)
    | none => (stripStart? "false".toList s).map fun rest => (.bool false, rest)

-- Items after the first of a list.
def moreItems (value : List Char → Option (Value × List Char)) :
    Nat → List Char → Option (List Value × List Char)
  | 0, _ => none
  | fuel + 1, s =>
    match skipGap s with
    | ']' :: rest => some ([], rest)
    | ',' :: rest => do
      let (v, rest) ← value rest
      let (vs, rest) ← moreItems value fuel rest
      return (v :: vs, rest)
    | _ => none

-- A field whose key need not be text.
abbrev Field := Option (List Char) × Value

def field? (value : List Char → Option (Value × List Char)) (s : List Char) :
    Option (Field × List Char) :=
  match skipGap s with
  | '"' :: s => do
    let (key, s) ← string? s
    match skipGap s with
    | ':' :: s => do
      let (v, s) ← value s
      return ((key, v), s)
    | _ => none
  | _ => none

def moreFields (value : List Char → Option (Value × List Char)) :
    Nat → List Char → Option (List Field × List Char)
  | 0, _ => none
  | fuel + 1, s =>
    match skipGap s with
    | '}' :: rest => some ([], rest)
    | ',' :: rest => do
      let (f, rest) ← field? value rest
      let (fs, rest) ← moreFields value fuel rest
      return (f :: fs, rest)
    | _ => none

def textOf (t : Option (List Char)) : Value :=
  match t with
  | some t => .text (String.ofList t)
  | none => .unreadable

def recordOf (fields : List Field) : Value :=
  match fields.mapM fun (key, v) => key.map fun key => (String.ofList key, v) with
  | some fields => .record fields
  | none => .unreadable

-- A value nested at most `depth` brackets deep.
def value? : (depth : Nat) → List Char → Option (Value × List Char)
  | 0, _ => none
  | depth + 1, s =>
    match skipGap s with
    | '"' :: s => (string? s).map fun (t, s) => (textOf t, s)
    | '[' :: s =>
      match skipGap s with
      | ']' :: s => some (.tuple [], s)
      | s => do
        let (v, s) ← value? depth s
        let (vs, s) ← moreItems (value? depth) (s.length + 1) s
        return (.tuple (v :: vs), s)
    | '{' :: s =>
      match skipGap s with
      | '}' :: s => some (.record [], s)
      | s => do
        let (f, s) ← field? (value? depth) s
        let (fs, s) ← moreFields (value? depth) (s.length + 1) s
        return (recordOf (f :: fs), s)
    | s => (keyword? s).or (number? s)

def parse? (text : String) : Option Value :=
  let s := text.toList
  match value? (s.length + 1) s with
  | some (v, rest) => if skipGap rest = [] then some v else none
  | none => none

def hex4 (n : Nat) : String :=
  let digits := Nat.toDigits 16 n
  String.ofList (List.replicate (4 - digits.length) '0' ++ digits)

def escapeChar (c : Char) : String :=
  if c = '"' then "\\\""
  else if c = '\\' then "\\\\"
  else if c = '\x08' then "\\b"
  else if c = '\x0c' then "\\f"
  else if c = '\n' then "\\n"
  else if c = '\r' then "\\r"
  else if c = '\t' then "\\t"
  else if c.toNat < 0x20 then "\\u" ++ hex4 c.toNat
  else c.toString

def quote (s : String) : String := "\"" ++ String.join (s.toList.map escapeChar) ++ "\""

end PageCompiler.Data.Json
