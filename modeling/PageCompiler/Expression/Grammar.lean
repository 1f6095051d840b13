import PageCompiler.Expression.Basic
import PageCompiler.Number.Double
import PageCompiler.Text.Blank
import PageCompiler.Text.Cut

-- Alternatives are tried in order and the first that fits is kept; blanks may stand between any two
-- tokens. A reader takes the input and gives what it read and the rest, or nothing.
namespace PageCompiler.Expression

open Text

abbrev Reader (α : Type) := List Char → Option (α × List Char)

-- An integer literal above the range of 64-bit integers is found only after the whole text has
-- been read; the digits of the first one are kept.
abbrev Built := Except String Expr

def isGap (c : Char) : Bool := c = ' ' || c = '\t' || c = '\r' || c = '\n'

def skipGap (s : List Char) : List Char := s.dropWhile isGap

def isNameStart (c : Char) : Bool := c.isAlpha || c = '_' || c = '$'

def isNameChar (c : Char) : Bool := c.isAlphanum || c = '_' || c = '$'

-- Whether the text goes on with a character that would lengthen a name.
def continuesName : List Char → Bool
  | [] => false
  | c :: _ => isNameChar c

-- A fixed token, after blanks.
def symbol (token : String) (s : List Char) : Option (List Char) :=
  stripStart? token.toList (skipGap s)

-- A word that the name characters behind it do not lengthen, after blanks.
def word (token : String) (s : List Char) : Option (List Char) :=
  match stripStart? token.toList (skipGap s) with
  | some rest => if continuesName rest then none else some rest
  | none => none

-- A name that starts right here.
def nameHere : Reader (List Char)
  | [] => none
  | c :: cs =>
    if isNameStart c then some (c :: cs.takeWhile isNameChar, cs.dropWhile isNameChar) else none

def keywords : List String :=
  ["and", "or", "not", "eq", "ne", "lt", "gt", "le", "ge", "div", "mod", "empty", "instanceof",
    "true", "false", "null"]

-- What must not follow the spelling of an operator.
inductive Boundary where
  | none
  | name
  | equals
  deriving DecidableEq, Repr

structure Spelling where
  token : String
  boundary : Boundary
  op : BinaryOp
  deriving DecidableEq, Repr

-- The spellings of each level, weakest level first, in the order they are tried.
def levels : List (List Spelling) :=
  [[⟨"||", .none, .or⟩, ⟨"or", .name, .or⟩],
    [⟨"&&", .none, .and⟩, ⟨"and", .name, .and⟩],
    [⟨"==", .none, .eq⟩, ⟨"!=", .none, .ne⟩, ⟨"eq", .name, .eq⟩, ⟨"ne", .name, .ne⟩],
    [⟨"<=", .none, .le⟩, ⟨">=", .none, .ge⟩, ⟨"<", .none, .lt⟩, ⟨">", .none, .gt⟩,
      ⟨"le", .name, .le⟩, ⟨"ge", .name, .ge⟩, ⟨"lt", .name, .lt⟩, ⟨"gt", .name, .gt⟩],
    [⟨"+=", .none, .concat⟩],
    [⟨"+", .equals, .add⟩, ⟨"-", .none, .sub⟩],
    [⟨"*", .none, .mul⟩, ⟨"/", .none, .div⟩, ⟨"%", .none, .mod⟩, ⟨"div", .name, .div⟩,
      ⟨"mod", .name, .mod⟩]]

def Boundary.holds : Boundary → List Char → Bool
  | none, _ => true
  | name, rest => !continuesName rest
  | equals, '=' :: _ => false
  | equals, _ => true

def operator : List Spelling → Reader BinaryOp
  | [], _ => none
  | spelling :: others, s =>
    match symbol spelling.token s with
    | some rest =>
      if spelling.boundary.holds rest then some (spelling.op, rest) else operator others s
    | none => operator others s

def unaryOperator (s : List Char) : Option (UnaryOp × List Char) :=
  match symbol "-" s with
  | some rest => some (.negate, rest)
  | none =>
    match symbol "!" s with
    | some rest => some (.not, rest)
    | none =>
      match word "not" s with
      | some rest => some (.not, rest)
      | none => (word "empty" s).map fun rest => (.empty, rest)

def digitRun (s : List Char) : List Char × List Char := s.span Char.isDigit

-- The exponent of a decimal literal: its value and the rest.
def exponent : Reader Int
  | e :: s =>
    if e = 'e' || e = 'E' then
      let (negative, s) :=
        match s with
        | '+' :: s => (false, s)
        | '-' :: s => (true, s)
        | s => (false, s)
      match digitRun s with
      | ([], _) => none
      | (digits, rest) =>
        let value := (Number.ofDigits digits : Int)
        some (if negative then -value else value, rest)
    else none
  | [] => none

def exponentOrZero (s : List Char) : Int × List Char := (exponent s).getD (0, s)

-- The literal with these digits around its point and this exponent.
def decimalOf (whole fraction : List Char) (e : Int) : Expr :=
  .decimal (Number.ofDecimal (Number.ofDigits (whole ++ fraction)) (e - fraction.length))

-- A number with a point or an exponent.
def decimalLiteral (s : List Char) : Option (Expr × List Char) :=
  match digitRun s with
  | ([], '.' :: s) =>
    match digitRun s with
    | ([], _) => none
    | (fraction, s) =>
      let (e, s) := exponentOrZero s
      some (decimalOf [] fraction e, s)
  | ([], _) => none
  | (whole, '.' :: s) =>
    let (fraction, s) := digitRun s
    let (e, s) := exponentOrZero s
    some (decimalOf whole fraction e, s)
  | (whole, s) => (exponent s).map fun (e, s) => (decimalOf whole [] e, s)

def integerLimit : Nat := 0x8000000000000000

def integerLiteral (s : List Char) : Option (Built × List Char) :=
  match digitRun s with
  | ([], _) => none
  | (digits, rest) =>
    let value := Number.ofDigits digits
    some
      (if value < integerLimit then .ok (.integer value) else .error (String.ofList digits), rest)

-- The text up to the closing quote; a backslash makes the next character stand for itself.
def quotedText (quote : Char) : List Char → Option (List Char × List Char)
  | [] => none
  | c :: cs =>
    if c = quote then some ([], cs)
    else if c = '\\' then
      match cs with
      | [] => none
      | d :: ds => (quotedText quote ds).map fun (t, rest) => (d :: t, rest)
    else (quotedText quote cs).map fun (t, rest) => (c :: t, rest)

def textLiteral : List Char → Option (Expr × List Char)
  | [] => none
  | c :: cs =>
    if c = '"' || c = '\'' then
      (quotedText c cs).map fun (t, rest) => (.text (String.ofList t), rest)
    else none

def wordLiteral (s : List Char) : Option (Expr × List Char) :=
  match word "true" s with
  | some rest => some (.bool true, rest)
  | none =>
    match word "false" s with
    | some rest => some (.bool false, rest)
    | none => (word "null" s).map fun rest => (.null, rest)

def literal (s : List Char) : Option (Built × List Char) :=
  match decimalLiteral s with
  | some (e, rest) => some (.ok e, rest)
  | none =>
    match integerLiteral s with
    | some r => some r
    | none =>
      match textLiteral s with
      | some (e, rest) => some (.ok e, rest)
      | none => (wordLiteral s).map fun (e, rest) => (.ok e, rest)

-- Further arguments, each after a comma.
def moreArgs (inner : Reader Built) (s : List Char) : List Built × List Char :=
  match symbol "," s with
  | none => ([], s)
  | some s' =>
    match inner s' with
    | none => ([], s)
    | some (arg, rest) =>
      if rest.length < s.length then
        let (args, rest) := moreArgs inner rest
        (arg :: args, rest)
      else ([], s)
termination_by s.length

def arguments (inner : Reader Built) (s : List Char) : Option (List Built × List Char) :=
  match symbol "(" s with
  | none => none
  | some s =>
    let (args, s) :=
      match inner s with
      | some (arg, s) =>
        let (args, s) := moreArgs inner s
        (arg :: args, s)
      | none => ([], s)
    (symbol ")" s).map fun s => (args, s)

-- A list of built arguments, or the first fault among them.
def collect : List Built → Except String (List Expr)
  | [] => .ok []
  | arg :: args => do return (← arg) :: (← collect args)

-- A function name with an optional name in front of a colon; no blanks inside.
def qualifiedName (s : List Char) : Option ((Option String × String) × List Char) :=
  match nameHere (skipGap s) with
  | none => none
  | some (first, rest) =>
    match rest with
    | ':' :: rest' =>
      match nameHere rest' with
      | some (second, rest') => some ((some (String.ofList first), String.ofList second), rest')
      | none => some ((none, String.ofList first), rest)
    | _ => some ((none, String.ofList first), rest)

def functionCall (inner : Reader Built) (s : List Char) : Option (Built × List Char) :=
  match qualifiedName s with
  | none => none
  | some ((space, name), s) =>
    (arguments inner s).map fun (args, s) => (do return .call space name (← collect args), s)

def identifier (s : List Char) : Option (Built × List Char) :=
  match nameHere (skipGap s) with
  | none => none
  | some (name, rest) =>
    let name := String.ofList name
    if keywords.contains name then none else some (.ok (.identifier name), rest)

def bracketed (inner : Reader Built) (s : List Char) : Option (Built × List Char) :=
  match symbol "(" s with
  | none => none
  | some s =>
    match inner s with
    | none => none
    | some (e, s) => (symbol ")" s).map fun s => (e, s)

def primary (inner : Reader Built) (s : List Char) : Option (Built × List Char) :=
  match literal (skipGap s) with
  | some r => some r
  | none =>
    match functionCall inner s with
    | some r => some r
    | none =>
      match identifier s with
      | some r => some r
      | none => bracketed inner s

-- A member access or a method call behind an expression.
def memberSuffix (inner : Reader Built) (base : Built) (s : List Char) :
    Option (Built × List Char) :=
  match symbol "." s with
  | none => none
  | some s =>
    match nameHere (skipGap s) with
    | none => none
    | some (name, s) =>
      let name := String.ofList name
      match arguments inner s with
      | some (args, s) => some (do return .method (← base) name (← collect args), s)
      | none => some (do return .property (← base) name, s)

def indexSuffix (inner : Reader Built) (base : Built) (s : List Char) :
    Option (Built × List Char) :=
  match symbol "[" s with
  | none => none
  | some s =>
    match inner s with
    | none => none
    | some (key, s) => (symbol "]" s).map fun s => (do return .index (← base) (← key), s)

def suffixes (inner : Reader Built) (base : Built) (s : List Char) : Built × List Char :=
  match (memberSuffix inner base s).or (indexSuffix inner base s) with
  | none => (base, s)
  | some (e, rest) => if rest.length < s.length then suffixes inner e rest else (base, s)
termination_by s.length

def suffixed (inner : Reader Built) (s : List Char) : Option (Built × List Char) :=
  (primary inner s).map fun (base, s) => suffixes inner base s

def unary (inner : Reader Built) (s : List Char) : Option (Built × List Char) :=
  match unaryOperator s with
  | none => suffixed inner s
  | some (op, rest) =>
    if rest.length < s.length then
      (unary inner rest).map fun (e, s) => (do return .unary op (← e), s)
    else none
termination_by s.length

-- The operands that follow on one level, from the left.
def chainRest (ops : List Spelling) (operand : Reader Built) (lhs : Built) (s : List Char) :
    Built × List Char :=
  match operator ops s with
  | none => (lhs, s)
  | some (op, s') =>
    match operand s' with
    | none => (lhs, s)
    | some (rhs, rest) =>
      if rest.length < s.length then
        chainRest ops operand (do return .binary op (← lhs) (← rhs)) rest
      else (lhs, s)
termination_by s.length

def chain (ops : List Spelling) (operand : Reader Built) : Reader Built := fun s =>
  (operand s).map fun (lhs, s) => chainRest ops operand lhs s

def binary (operand : Reader Built) : List (List Spelling) → Reader Built
  | [] => operand
  | level :: tighter => chain level (binary operand tighter)

def branches (inner : Reader Built) (s : List Char) : Option ((Built × Built) × List Char) :=
  match symbol "?" s with
  | none => none
  | some s =>
    match inner s with
    | none => none
    | some (yes, s) =>
      match symbol ":" s with
      | none => none
      | some s => (inner s).map fun (no, s) => ((yes, no), s)

def conditional (inner : Reader Built) (s : List Char) : Option (Built × List Char) :=
  match binary (unary inner) levels s with
  | none => none
  | some (condition, s) =>
    match branches inner s with
    | some ((yes, no), s) => some (do return .conditional (← condition) (← yes) (← no), s)
    | none => some (condition, s)

-- Expressions nested at most `depth` brackets or branches deep.
def expression : (depth : Nat) → Reader Built
  | 0 => fun _ => none
  | depth + 1 => conditional (expression depth)

-- Why a text is no expression.
inductive Reason where
  | empty
  | form
  | integerTooLarge (digits : String)
  | unclosed
  deriving DecidableEq, Repr

def Reason.text : Reason → String
  | empty => "empty expression"
  | form => "<syntax>"
  | integerTooLarge digits => "integer '" ++ digits ++ "': number too large to fit in target type"
  | unclosed => "missing closing '\x7d'"

-- Reads a whole text. Every level of nesting takes a character of its own, so that the length of
-- the text bounds the depth.
def parse (s : List Char) : Except Reason Expr :=
  if allBlank s then .error .empty
  else
    match expression (s.length + 1) s with
    | none => .error .form
    | some (built, rest) =>
      if skipGap rest = [] then built.mapError .integerTooLarge else .error .form

end PageCompiler.Expression
