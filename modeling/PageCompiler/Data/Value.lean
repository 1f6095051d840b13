import PageCompiler.Text.Cut
import PageCompiler.Text.Size

namespace PageCompiler.Data

open Text

inductive Value where
  | null
  | bool (value : Bool)
  | natural (value : Nat)
  -- A negative, fractional or too large number.
  | otherNumber
  | text (value : String)
  -- An unquoted word, which is what the asker takes it for.
  | word (value : String)
  | list (items : List Value)
  -- Fields in the order they were written, repetitions included.
  | record (fields : List (String × Value))
  -- Fields without names, in the order of the type that is asked for.
  | tuple (items : List Value)
  -- A scalar whose type was written in front of it.
  | tagged (tag : String) (value : Value)
  -- Well formed, but nothing can be taken out of it.
  | unreadable
  deriving Repr, Inhabited

namespace Value

def toBool? : Value → Option Bool
  | bool b => some b
  | word "true" | word "True" | word "TRUE" => some true
  | word "false" | word "False" | word "FALSE" => some false
  | tagged _ v => toBool? v
  | _ => none

def toText? : Value → Option String
  | text s | word s => some s
  | tagged _ v => toText? v
  | _ => none

def isNull : Value → Bool
  | null | word "" | word "~" | word "null" | word "Null" | word "NULL" => true
  | _ => false

def nullTag : String := "tag:yaml.org,2002:null"

-- A value that may be absent. A word whose type is written in front of it is absent only when
-- that type says so, and then it must be one of the words for nothing.
def toOption? (f : Value → Option α) (v : Value) : Option (Option α) :=
  match v with
  | tagged tag (word s) =>
    if tag = nullTag then if (word s).isNull && !s.isEmpty then some none else none
    else (f v).map some
  | v => if v.isNull then some none else (f v).map some

def digitValue? (base : Nat) (c : Char) : Option Nat :=
  let n :=
    if c.isDigit then some (c.toNat - '0'.toNat)
    else if 'a' ≤ c && c ≤ 'f' then some (c.toNat - 'a'.toNat + 10)
    else if 'A' ≤ c && c ≤ 'F' then some (c.toNat - 'A'.toNat + 10)
    else none
  n.filter (· < base)

-- The number written with these digits; at least one is needed.
def digits? (base : Nat) (s : List Char) : Option Nat :=
  if s.isEmpty then none
  else s.foldlM (fun n c => (digitValue? base c).map (n * base + ·)) 0

-- Decimal digits without a needless zero in front.
def decimal? (s : List Char) : Option Nat :=
  match s with
  | '0' :: _ :: _ => none
  | _ => digits? 10 s

-- An unsigned number as an unquoted word.
def wordNatural? (s : List Char) : Option Nat :=
  let s :=
    match s with
    | '+' :: rest => rest
    | s => s
  let based :=
    match s with
    | '0' :: 'x' :: rest => digits? 16 rest
    | '0' :: 'o' :: rest => digits? 8 rest
    | '0' :: 'b' :: rest => digits? 2 rest
    | _ => none
  based.or (decimal? s)

def toNatural? : Value → Option Nat
  | natural n => some n
  | word s => (wordNatural? s.toList).filter (· < wordLimit)
  | tagged _ v => toNatural? v
  | _ => none

-- An absent list is the empty one.
def toList? (f : Value → Option α) : Value → Option (List α)
  | list items | tuple items => items.mapM f
  | word "" | tagged _ (word "") => some []
  | _ => none

-- The name a tag gives.
def tagName (tag : String) : String :=
  match tag.toList with
  | '!' :: name => String.ofList name
  | _ => tag

-- One of a fixed set of names. A tag is the name itself and has nothing behind it.
def toName? (f : String → Option α) : Value → Option α
  | text s | word s => f s
  | record [(s, null)] => f s
  | tagged tag v => if v.isNull then f (tagName tag) else none
  | _ => none

-- Named values; a name given again takes the later value.
def toMap? (f : Value → Option α) : Value → Option (List (String × α))
  | record fields =>
    fields.foldlM
      (fun map (key, v) =>
        (f v).map fun a => (map.filter fun entry => entry.1 != key) ++ [(key, a)])
      []
  | word "" | tagged _ (word "") => some []
  | _ => none

-- The given names that occur, each at most once; other names are passed over.
def fields? (names : List String) : Value → Option (List (String × Value))
  | record fields =>
    let known := fields.filter fun field => names.contains field.1
    if (known.map Prod.fst).eraseDups.length == known.length then some known else none
  | tuple items => if items.length ≤ names.length then some (names.zip items) else none
  | word "" | tagged _ (word "") => some []
  | _ => none

-- A field that has a value of its own when it is not given.
def field? (fields : List (String × Value)) (name : String) (f : Value → Option α) (default : α) :
    Option α :=
  match fields.lookup name with
  | some v => f v
  | none => some default

def required? (fields : List (String × Value)) (name : String) (f : Value → Option α) :
    Option α :=
  (fields.lookup name).bind f

end Value
end PageCompiler.Data
