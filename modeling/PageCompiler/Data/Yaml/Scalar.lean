import PageCompiler.Data.Value
import PageCompiler.Data.Yaml.Symbol

-- A scalar that runs over several lines is folded: one break between two words is a space, and of
-- more breaks the first is dropped.
namespace PageCompiler.Data.Yaml

-- What stands between two words: blanks within a line, or breaks.
structure Gap where
  blanks : List Char := []
  breaks : List Char := []
  deriving DecidableEq, Repr

-- Only the plain line feed is folded; the other two breaks are kept.
def Gap.text (g : Gap) : List Char :=
  match g.breaks with
  | [] => g.blanks
  | ['\n'] => [' ']
  | '\n' :: more => more
  | breaks => breaks

-- The gap in front of the next word. Behind a break no tab may stand left of column `least`.
def gap? (least : Nat) (broken : Bool) : List Symbol → Option (Gap × List Symbol)
  | [] => some ({}, [])
  | x :: rest =>
    if isBlank x.char then
      if broken && x.char = '\t' && x.column < least then none
      else
        (gap? least broken rest).map fun (g, rest) =>
          (if broken then g else { g with blanks := x.char :: g.blanks }, rest)
    else if isBreak x.char then
      (gap? least true rest).map fun (g, rest) => ({ g with breaks := x.char :: g.breaks }, rest)
    else some ({}, x :: rest)

-- How many hexadecimal digits follow the letter of a numeric escape.
def escapeWidth : Char → Nat
  | 'x' => 2
  | 'u' => 4
  | 'U' => 8
  | _ => 0

def escapeChar? : Char → Option Char
  | '0' => some '\x00'
  | 'a' => some '\x07'
  | 'b' => some '\x08'
  | 't' => some '\t'
  | '\t' => some '\t'
  | 'n' => some '\n'
  | 'v' => some '\x0b'
  | 'f' => some '\x0c'
  | 'r' => some '\r'
  | 'e' => some '\x1b'
  | ' ' => some ' '
  | '"' => some '"'
  | '/' => some '/'
  | '\\' => some '\\'
  | 'N' => some '\u0085'
  | '_' => some '\u00a0'
  | 'L' => some '\u2028'
  | 'P' => some '\u2029'
  | _ => none

-- The character with the number that the first `width` symbols spell.
def codePoint? (width : Nat) (s : List Symbol) : Option Char :=
  if s.length < width then none
  else
    match Value.digits? 16 ((s.take width).map Symbol.char) with
    | some n => if n.isValidChar then some (Char.ofNat n) else none
    | none => none

inductive Quote where
  | single
  | double
  deriving DecidableEq, Repr

def Quote.char : Quote → Char
  | single => '\''
  | double => '"'

-- Part of a quoted scalar up to a gap, the closing quote, or a break that is escaped and joins the
-- lines.
structure Word where
  text : List Char
  joined : Bool
  rest : List Symbol
  deriving DecidableEq, Repr

def Word.push (c : Char) (w : Word) : Word := { w with text := c :: w.text }

-- Two quotes stand for one.
def singleWord : List Symbol → Word
  | [] => ⟨[], false, []⟩
  | x :: rest =>
    if isGap x.char then ⟨[], false, x :: rest⟩
    else if x.char = '\'' then
      match rest with
      | y :: more => if y.char = '\'' then (singleWord more).push '\'' else ⟨[], false, x :: rest⟩
      | [] => ⟨[], false, x :: rest⟩
    else (singleWord rest).push x.char

def doubleWord? (s : List Symbol) : Option Word :=
  match s with
  | [] => some ⟨[], false, []⟩
  | x :: rest =>
    if isGap x.char || x.char = '"' then some ⟨[], false, x :: rest⟩
    else if x.char = '\\' then
      match rest with
      | [] => none
      | y :: more =>
        if isBreak y.char then some ⟨[], true, more⟩
        else if escapeWidth y.char = 0 then
          match escapeChar? y.char with
          | some c => (doubleWord? more).map (Word.push c)
          | none => none
        else
          match codePoint? (escapeWidth y.char) more with
          | some c => (doubleWord? (more.drop (escapeWidth y.char))).map (Word.push c)
          | none => none
    else (doubleWord? rest).map (Word.push x.char)
termination_by s.length
decreasing_by all_goals (simp only [List.length_cons, List.length_drop]; omega)

def Quote.word? : Quote → List Symbol → Option Word
  | single, s => some (singleWord s)
  | double, s => doubleWord? s

-- The text up to the closing quote, and the symbols behind it. No line of it may look like the
-- end of the document.
def quoted? (quote : Quote) : (fuel : Nat) → List Symbol → Option (List Char × List Symbol)
  | 0, _ => none
  | fuel + 1, s =>
    if startsBoundary s then none
    else
      match quote.word? s with
      | none => none
      | some word =>
        match word.rest with
        | [] => none
        | x :: rest =>
          if x.char = quote.char then some (word.text, rest)
          else do
            let (gap, rest) ← gap? 0 word.joined (x :: rest)
            let (text, rest) ← quoted? quote fuel rest
            return (word.text ++ (if word.joined then gap.breaks else gap.text) ++ text, rest)

-- Marks that must not follow a colon inside a flow collection.
def isColonMark (c : Char) : Bool := isFlowMark c || c = '?'

-- A colon in front of a gap ends an unquoted scalar, and so do the marks of flow collections
-- inside one.
def plainWord? (flow : Bool) : List Symbol → Option (List Char × List Symbol)
  | [] => some ([], [])
  | x :: rest =>
    if isGap x.char then some ([], x :: rest)
    else if flow && x.char = ':' && startsWith isColonMark rest then none
    else if (x.char = ':' && startsGap rest) || (flow && isFlowMark x.char) then
      some ([], x :: rest)
    else (plainWord? flow rest).map fun (word, rest) => (x.char :: word, rest)

-- An unquoted scalar, whether it was left behind the end of its line, and the symbols behind it.
structure Plain where
  text : List Char
  broken : Bool
  rest : List Symbol
  deriving DecidableEq, Repr

-- Further lines belong to the scalar when they start at column `least` or beyond.
def plain? (flow : Bool) (least : Nat) : (fuel : Nat) → List Symbol → Option Plain
  | 0, _ => none
  | fuel + 1, s =>
    if startsBoundary s || startsWith (· == '#') s then some ⟨[], false, s⟩
    else do
      let (word, rest) ← plainWord? flow s
      if !(startsWith isGap rest) then return ⟨word, false, rest⟩
      let (gap, rest) ← gap? least false rest
      let ended : Plain := ⟨word, !gap.breaks.isEmpty, rest⟩
      match rest with
      | [] => return ended
      | x :: _ =>
        if !flow && x.column < least then return ended
        let more ← plain? flow least fuel rest
        if more.text.isEmpty then return { ended with rest := more.rest }
        return { more with text := word ++ gap.text ++ more.text }

-- What is done with the breaks behind the last line.
inductive Chomping where
  | strip
  | clip
  | keep
  deriving DecidableEq, Repr

-- Whether lines are kept as they are or folded, what is done with the last breaks, and how far
-- the lines are indented if the header says so.
structure BlockHeader where
  literal : Bool
  chomping : Chomping
  indent : Option Nat
  deriving DecidableEq, Repr

def chomping? : List Symbol → Option (Chomping × List Symbol)
  | x :: rest =>
    if x.char = '+' then some (.keep, rest)
    else if x.char = '-' then some (.strip, rest)
    else none
  | [] => none

-- A digit from one on; zero is not allowed.
def indentDigit? : List Symbol → Option (Option Nat × List Symbol)
  | [] => some (none, [])
  | x :: rest =>
    if x.char = '0' then none
    else if x.char.isDigit then some (some (x.char.toNat - '0'.toNat), rest)
    else some (none, x :: rest)

-- The two signs come in either order.
def blockHeader? (literal : Bool) (s : List Symbol) : Option (BlockHeader × List Symbol) := do
  let (chomping, indent, s) ←
    match chomping? s with
    | some (chomping, s) => do
      let (indent, s) ← indentDigit? s
      pure (chomping, indent, s)
    | none => do
      let (indent, s) ← indentDigit? s
      match indent, chomping? s with
      | some _, some (chomping, s) => pure (chomping, indent, s)
      | _, _ => pure (.clip, indent, s)
  let s ← restOfLine? s
  return (⟨literal, chomping, indent⟩, s)

-- Breaks in front of the next line with content, the widest indentation on the way, and the
-- symbols from that content on. An indentation of zero is not known yet and takes every space.
def blockBreaks? (indent widest : Nat) : List Symbol → Option (List Char × Nat × List Symbol)
  | [] => some ([], widest, [])
  | x :: rest =>
    let margin := indent = 0 || x.column < indent
    if x.char = ' ' && margin then blockBreaks? indent widest rest
    else if x.char = '\t' && margin then none
    else if isBreak x.char then
      (blockBreaks? indent (max widest x.column) rest).map fun (breaks, widest, rest) =>
        (x.char :: breaks, widest, rest)
    else some ([], max widest x.column, x :: rest)

-- The lines of a block so far, with the break behind the last of them and the breaks after that.
structure Block where
  text : List Char := []
  last : List Char := []
  breaks : List Char := []
  indented : Bool := false
  deriving DecidableEq, Repr

-- What joins the lines so far to a line that starts with a blank or not. A folded break between
-- two lines becomes a space, unless empty lines stand between them or one of them starts with a
-- blank.
def Block.joint (literal : Bool) (b : Block) (indented : Bool) : List Char :=
  if !literal && b.last = ['\n'] && !b.indented && !indented then
    if b.breaks.isEmpty then [' '] else b.breaks
  else b.last ++ b.breaks

def blockLines? (literal : Bool) (indent : Nat) :
    (fuel : Nat) → Block → List Symbol → Option (Block × List Symbol)
  | 0, _, _ => none
  | _ + 1, b, [] => some (b, [])
  | fuel + 1, b, x :: rest =>
    if x.column ≠ indent then some (b, x :: rest)
    else
      let (line, s) := takeChars (fun c => !isBreak c) (x :: rest)
      let indented := isBlank x.char
      let text := b.text ++ b.joint literal indented ++ line
      let last := (s.take 1).map Symbol.char
      match blockBreaks? indent 0 (s.drop 1) with
      | none => none
      | some (breaks, _, s) => blockLines? literal indent fuel ⟨text, last, breaks, indented⟩ s

-- A block below content that is indented less than column `least`.
def block? (literal : Bool) (least fuel : Nat) (s : List Symbol) :
    Option (List Char × List Symbol) := do
  let (header, s) ← blockHeader? literal s
  let given := (header.indent.map (· + (least - 1))).getD 0
  let (breaks, widest, s) ← blockBreaks? given 0 s
  let indent := if given = 0 then max (max widest least) 1 else given
  let (b, s) ← blockLines? literal indent fuel { breaks := breaks } s
  let text :=
    match header.chomping with
    | .strip => b.text
    | .clip => b.text ++ b.last
    | .keep => b.text ++ b.last ++ b.breaks
  return (text, s)

end PageCompiler.Data.Yaml
