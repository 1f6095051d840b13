import PageCompiler.Data.Yaml.Scalar
import PageCompiler.Data.Yaml.Tag

-- A key of a mapping need not be marked. Only the colon behind it tells that it was one, so the
-- place where it may have started is remembered, and its tokens are put there when the colon comes.
-- Such a key stays on one line, and its colon is at most 1024 bytes behind its start.
namespace PageCompiler.Data.Yaml

inductive ScalarStyle where
  | plain
  | quoted
  | folded
  | literal
  deriving DecidableEq, Repr

inductive Token where
  | directive (directive : Directive)
  | documentStart
  | documentEnd
  | blockSequence
  | blockMapping
  | blockEnd
  | flowSequence
  | flowSequenceEnd
  | flowMapping
  | flowMappingEnd
  | entry
  | flowEntry
  | key
  | value
  | alias (name : String)
  | anchor (name : String)
  | tag (tag : Tag)
  | scalar (style : ScalarStyle) (text : String)
  deriving DecidableEq, Repr

-- A place where an unmarked key may have started.
structure PossibleKey where
  -- Nothing but a key can stand there.
  required : Bool
  -- How many tokens stand in front of it.
  before : Nat
  start : Symbol
  deriving DecidableEq, Repr

-- Whether the key may still reach as far as this symbol.
def PossibleKey.reaches (k : PossibleKey) (x : Symbol) : Bool :=
  k.start.line = x.line && x.offset ≤ k.start.offset + 1024

structure Scan where
  rest : List Symbol
  -- The last one first.
  tokens : List Token := []
  count : Nat := 0
  -- The columns of the open block collections, the innermost one first.
  indents : List Nat := []
  -- The possible key of the innermost flow collection, or of the block outside of them.
  key : Option PossibleKey := none
  -- The possible keys of what is around the innermost flow collection.
  outer : List (Option PossibleKey) := []
  -- Whether an unmarked key may start at the next token.
  keyAllowed : Bool := true
  deriving Repr

namespace Scan

def inFlow (s : Scan) : Bool := !s.outer.isEmpty

-- The least column of content inside the innermost block collection.
def least (s : Scan) : Nat :=
  match s.indents with
  | [] => 0
  | indent :: _ => indent + 1

def push (t : Token) (s : Scan) : Scan :=
  { s with tokens := t :: s.tokens, count := s.count + 1 }

-- Adds a token and goes on behind it.
def emit (t : Token) (rest : List Symbol) (keyAllowed : Bool) (s : Scan) : Scan :=
  { s.push t with rest := rest, keyAllowed := keyAllowed }

-- Closes the block collections that are indented further than the column.
def unroll (column : Nat) (s : Scan) : Scan :=
  if s.inFlow then s
  else
    let closed := s.indents.takeWhile (column < ·)
    let s := { s with indents := s.indents.drop closed.length }
    closed.foldl (fun s _ => s.push .blockEnd) s

def unrollAll (s : Scan) : Scan :=
  if s.inFlow then s
  else s.indents.foldl (fun s _ => s.push .blockEnd) { s with indents := [] }

-- Whether a block collection at the column would be a new one.
def opens (column : Nat) (s : Scan) : Bool :=
  !s.inFlow &&
    match s.indents with
    | [] => true
    | indent :: _ => indent < column

-- Opens a block collection at the column unless it is open already.
def roll (column : Nat) (start : Token) (s : Scan) : Scan :=
  if s.opens column then { s.push start with indents := column :: s.indents } else s

-- Gives up the possible key; a required one cannot be given up.
def dropKey? (s : Scan) : Option Scan :=
  match s.key with
  | some k => if k.required then none else some { s with key := none }
  | none => some s

-- Remembers that a key may start at the symbol.
def saveKey? (x : Symbol) (s : Scan) : Option Scan :=
  if s.keyAllowed then
    let required := !s.inFlow && s.indents.head? = some x.column
    s.dropKey?.map fun s => { s with key := some ⟨required, s.count, x⟩ }
  else some s

-- Gives up the possible keys that do not reach as far as the symbol.
def dropStale? (x : Symbol) (s : Scan) : Option Scan :=
  let fresh? (key : Option PossibleKey) : Option (Option PossibleKey) :=
    match key with
    | some k => if k.reaches x then some key else if k.required then none else some none
    | none => some none
  do return { s with key := ← fresh? s.key, outer := ← s.outer.mapM fresh? }

-- Puts the tokens of a key in front of the tokens that followed its start.
def insertKey (k : PossibleKey) (s : Scan) : Scan :=
  let later := s.tokens.take (s.count - k.before)
  let earlier := s.tokens.drop (s.count - k.before)
  let front := { s with tokens := earlier, count := k.before, key := none }
  let front := (front.roll k.start.column .blockMapping).push .key
  { front with tokens := later ++ front.tokens, count := front.count + later.length }

-- A directive or a line between documents closes every block.
def boundary? (t : Token) (rest : List Symbol) (s : Scan) : Option Scan :=
  s.unrollAll.dropKey?.map (emit t rest false)

def openFlow? (t : Token) (x : Symbol) (rest : List Symbol) (s : Scan) : Option Scan :=
  (s.saveKey? x).map fun s =>
    { s with key := none, outer := s.key :: s.outer } |> emit t rest true

def closeFlow? (t : Token) (rest : List Symbol) (s : Scan) : Option Scan :=
  s.dropKey?.map fun s =>
    match s.outer with
    | [] => emit t rest false s
    | key :: outer => emit t rest false { s with key := key, outer := outer }

def flowEntry? (rest : List Symbol) (s : Scan) : Option Scan :=
  s.dropKey?.map (emit .flowEntry rest true)

-- A mark that opens a block collection stands only where a key may stand.
def openBlock? (start : Token) (x : Symbol) (s : Scan) : Option Scan :=
  if s.inFlow then some s else if s.keyAllowed then some (s.roll x.column start) else none

def entry? (x : Symbol) (rest : List Symbol) (s : Scan) : Option Scan := do
  let s ← s.openBlock? .blockSequence x
  let s ← s.dropKey?
  return s.emit .entry rest true

def key? (x : Symbol) (rest : List Symbol) (s : Scan) : Option Scan := do
  let s ← s.openBlock? .blockMapping x
  let s ← s.dropKey?
  return s.emit .key rest (!s.inFlow)

def value? (x : Symbol) (rest : List Symbol) (s : Scan) : Option Scan :=
  match s.key with
  | some k => some ((s.insertKey k).emit .value rest false)
  | none => (s.openBlock? .blockMapping x).map fun s => s.emit .value rest (!s.inFlow)

-- A token that may be the start of a key.
def keyPart? (t : Token) (x : Symbol) (rest : List Symbol) (s : Scan) : Option Scan :=
  (s.saveKey? x).map (emit t rest false)

def quotedScalar? (quote : Quote) (fuel : Nat) (x : Symbol) (rest : List Symbol) (s : Scan) :
    Option Scan := do
  let (text, rest) ← quoted? quote fuel rest
  s.keyPart? (.scalar .quoted (String.ofList text)) x rest

-- Behind the end of its line an unquoted scalar leaves room for a key.
def plainScalar? (fuel : Nat) (x : Symbol) (rest : List Symbol) (s : Scan) : Option Scan := do
  let scalar ← plain? s.inFlow s.least fuel (x :: rest)
  let s ← s.saveKey? x
  return s.emit (.scalar .plain (String.ofList scalar.text)) scalar.rest scalar.broken

def blockScalar? (style : ScalarStyle) (fuel : Nat) (rest : List Symbol) (s : Scan) :
    Option Scan := do
  let (text, rest) ← block? (style = .literal) s.least fuel rest
  let s ← s.dropKey?
  return s.emit (.scalar style (String.ofList text)) rest true

-- A character that starts no unquoted scalar.
def isIndicator (c : Char) : Bool :=
  isFlowMark c || "#&*!|>'\"%@".toList.contains c || c.toNat = 0x60

-- Three marks start an unquoted scalar when no gap follows them, two of them only outside flow
-- collections.
def startsPlain (flow : Bool) (x : Symbol) (rest : List Symbol) : Bool :=
  if x.char = '-' then !startsGap rest
  else if x.char = '?' || x.char = ':' then !flow && !startsGap rest
  else !isGap x.char && !isIndicator x.char

-- Reads the token at the symbol.
def next? (fuel : Nat) (x : Symbol) (rest : List Symbol) (s : Scan) : Option Scan :=
  let flow := s.inFlow
  if x.column = 0 && x.char = '%' then
    match directive? (x :: rest) with
    | some (directive, rest) => s.boundary? (.directive directive) rest
    | none => none
  else if startsMarker '-' (x :: rest) then s.boundary? .documentStart (rest.drop 2)
  else if startsMarker '.' (x :: rest) then s.boundary? .documentEnd (rest.drop 2)
  else if x.char = '[' then s.openFlow? .flowSequence x rest
  else if x.char = '{' then s.openFlow? .flowMapping x rest
  else if x.char = ']' then s.closeFlow? .flowSequenceEnd rest
  else if x.char = '}' then s.closeFlow? .flowMappingEnd rest
  else if x.char = ',' then s.flowEntry? rest
  else if x.char = '-' && startsGap rest then s.entry? x rest
  else if x.char = '?' && (flow || startsGap rest) then s.key? x rest
  else if x.char = ':' && (flow || startsGap rest) then s.value? x rest
  else if x.char = '*' then
    match nodeName? rest with
    | some (name, rest) => s.keyPart? (.alias name) x rest
    | none => none
  else if x.char = '&' then
    match nodeName? rest with
    | some (name, rest) => s.keyPart? (.anchor name) x rest
    | none => none
  else if x.char = '!' then
    match tag? flow (x :: rest) with
    | some (tag, rest) => s.keyPart? (.tag tag) x rest
    | none => none
  else if x.char = '|' && !flow then s.blockScalar? .literal fuel rest
  else if x.char = '>' && !flow then s.blockScalar? .folded fuel rest
  else if x.char = '\'' then s.quotedScalar? .single fuel x rest
  else if x.char = '"' then s.quotedScalar? .double fuel x rest
  else if startsPlain flow x rest then s.plainScalar? fuel x rest
  else none

-- Passes over blanks, comments and empty lines. A tab may not stand where a key may; a line
-- outside of flow collections may start with a key, and with a mark of the byte order.
def skip (flow : Bool) : (allowed comment : Bool) → List Symbol → Bool × List Symbol
  | allowed, _, [] => (allowed, [])
  | allowed, comment, x :: rest =>
    if isBreak x.char then skip flow (allowed || !flow) false rest
    else if comment || x.char = '#' then skip flow allowed true rest
    else if x.char = ' ' || (x.char = '\t' && (flow || !allowed)) ||
        (x.char = '\ufeff' && x.column = 0) then
      skip flow allowed false rest
    else (allowed, x :: rest)

-- Closes what is open at the end of the text.
def finish? (s : Scan) : Option (List Token) :=
  s.dropKey?.map fun s => s.unrollAll.tokens.reverse

-- The tokens of the text that is left; each token takes at least one symbol.
def all? : (fuel : Nat) → Scan → Option (List Token)
  | 0, _ => none
  | fuel + 1, s =>
    let (allowed, rest) := skip s.inFlow s.keyAllowed false s.rest
    let s := { s with rest := rest, keyAllowed := allowed }
    match rest with
    | [] => s.finish?
    | x :: more => do
      let s ← s.dropStale? x
      let s ← (s.unroll x.column).next? (fuel + 1) x more
      all? fuel s

end Scan

-- The tokens of a text, when every part of it can be read.
def tokens? (text : String) : Option (List Token) := do
  let s ← symbols? text
  Scan.all? (s.length + 1) { rest := s }

end PageCompiler.Data.Yaml
