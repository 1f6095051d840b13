import PageCompiler.Reading.Builder
import PageCompiler.Source.Cursor

-- What is none of them is text; an element is an action only if its prefix is bound.
namespace PageCompiler.Relaxed

open Text
open Builder

-- An escaped end of raw code stands for the end itself.
def unescapeCode (s : List Char) : List Char := replaceAll "%\\>".toList "%>".toList s

-- The value up to its closing quote, and what follows the quote. A backslash covers a quote or
-- another backslash, and splits the delimiters of raw code.
def readValue (quote : Char) : List Char → Option (List Char × List Char)
  | [] => none
  | '\\' :: d :: cs =>
    if d = '\\' || d = '"' || d = '\'' then
      (readValue quote cs).map fun cut => (d :: cut.1, cut.2)
    else (readValue quote (d :: cs)).map fun cut => ('\\' :: cut.1, cut.2)
  | '<' :: '\\' :: '%' :: cs =>
    (readValue quote cs).map fun cut => ('<' :: '%' :: cut.1, cut.2)
  | '%' :: '\\' :: '>' :: cs =>
    (readValue quote cs).map fun cut => ('%' :: '>' :: cut.1, cut.2)
  | c :: cs =>
    if c = quote then some ([], cs)
    else (readValue quote cs).map fun cut => (c :: cut.1, cut.2)

-- A value that is raw code as a whole, and what follows its closing quote.
def readCode (quote : Char) (s : List Char) : Option (List Char × List Char) := do
  let s ← stripStart? "<%=".toList s
  let (code, rest) ← cutAt? "%>".toList s
  let rest ← stripStart? [quote] rest
  return (unescapeCode code, rest)

def unexpected (expected : String) (c : Cursor) : BuildM α :=
  fail (.unexpectedToken expected ((c.peek?.map Char.toString).getD "")) c.mark

-- An attribute from its opening quote on. It is marked at its name.
def readQuoted (name : List Char) (mark : Mark) (c : Cursor) : BuildM (Attribute × Cursor) := do
  let name := String.ofList name
  match c.rest with
  | quote :: rest =>
    if quote = '"' || quote = '\'' then
      match readCode quote rest with
      | some (code, rest) =>
        return ({ name, value := String.ofList code, scripting := true, mark }, c.moveTo rest)
      | none =>
        match readValue quote rest with
        | some (value, rest) => return ({ name, value := String.ofList value, mark }, c.moveTo rest)
        | none => fail (.unterminated "attribute value") mark
    else unexpected "quoted value" c
  | [] => unexpected "quoted value" c

def readAttribute (c : Cursor) : BuildM (Attribute × Cursor) := do
  match c.readName? with
  | none => unexpected "attribute name" c
  | some (name, behind) =>
    let behind := behind.skipBlanks
    match behind.accept? "=" with
    | none => unexpected "'='" behind
    | some value => readQuoted name c.mark value.skipBlanks

-- Attributes up to one of the given ends, with the end that was met. Each attribute uses up text.
def readAttributesFrom (ends : List String) (start : Mark) :
    Nat → Cursor → BuildM (List Attribute × String × Cursor)
  | 0, _ => fail (.unterminated "tag") start
  | fuel + 1, c => do
    let c := c.skipBlanks
    match ends.findSome? fun e => (c.accept? e).map fun behind => (e, behind) with
    | some (e, behind) => return ([], e, behind)
    | none =>
      if c.atEnd then fail (.unterminated "tag") start
      let (a, behind) ← readAttribute c
      let (rest, e, behind) ← readAttributesFrom ends start fuel behind
      return (a :: rest, e, behind)

def readAttributes (ends : List String) (start : Mark) (c : Cursor) :
    BuildM (List Attribute × String × Cursor) :=
  readAttributesFrom ends start (c.rest.length + 1) c

def tagEnds : List String := ["/>", ">"]

-- What an opening bracket begins.
inductive Construct where
  | comment
  | directive
  | script (kind : ScriptKind)
  | directiveElement
  | scriptElement (kind : ScriptKind)
  | textElement
  | endTag
  | action (name : String)
  deriving DecidableEq, Repr

def tagName (s : List Char) : List Char := s.takeWhile Cursor.isTagNameChar

def isActionSpace (b : Bindings) (space : List Char) : Bool :=
  let space := String.ofList space
  space == standardSpace || b.isBound space

def endTag? (b : Bindings) (rest : List Char) : Option Construct := do
  let (space, _) ← splitOnce? ':' (tagName rest)
  if isActionSpace b space then some .endTag else none

def action? (b : Bindings) (rest : List Char) : Option Construct := do
  let name := tagName rest
  let (space, inner) ← splitOnce? ':' name
  if !inner.isEmpty && isActionSpace b space then some (.action (String.ofList name)) else none

-- The fixed openings, of which the first one that fits counts.
def openings : List (String × Construct) :=
  [("<%--", .comment), ("<%@", .directive), ("<%!", .script .declaration),
    ("<%=", .script .expression), ("<%", .script .scriptlet),
    ("<jsp:directive.", .directiveElement), ("<jsp:declaration", .scriptElement .declaration),
    ("<jsp:expression", .scriptElement .expression),
    ("<jsp:scriptlet", .scriptElement .scriptlet), ("<jsp:text", .textElement)]

-- The construct at the front of the text, and the text behind its fixed opening.
def construct? (b : Bindings) (s : List Char) : Option (Construct × List Char) :=
  match s with
  | '<' :: rest =>
    match openings.findSome? fun (opening, kind) =>
        (stripStart? opening.toList s).map fun behind => (kind, behind) with
    | some found => some found
    | none =>
      match rest with
      | '/' :: name => (endTag? b name).map fun kind => (kind, name)
      | _ =>
        (action? b rest).map fun kind => (kind, rest.dropWhile Cursor.isTagNameChar)
  | _ => none

-- An element that is open.
structure Frame where
  id : NodeId
  -- The name its end tag has to have.
  name : String
  -- Its body takes no raw code.
  scriptless : Bool

structure State where
  cursor : Cursor
  -- Innermost first.
  frames : List Frame
  -- Text since the last construct in reverse, and where it starts.
  text : List Char
  textMark : Mark

namespace State

def start (c : Cursor) : State := ⟨c, [], [], c.mark⟩

-- Goes on behind a construct.
def resume (s : State) (c : Cursor) : State :=
  { s with cursor := c, text := [], textMark := c.mark }

def parent (s : State) (root : NodeId) : NodeId := (s.frames.head?.map Frame.id).getD root

def scriptless (s : State) : Bool := s.frames.any Frame.scriptless

end State

def flush (s : State) (root : NodeId) : BuildM Unit :=
  addText (s.parent root) s.text.reverse s.textMark

-- One piece of text, which is an escape, a whole expression or a character, with the number of
-- characters it takes. There is none when an expression is not closed.
def textPiece (scan : ScanOptions) (s : List Char) : Option (List Char × Nat) :=
  if startsWith "<\\%".toList s then some ("<%".toList, 3)
  else if (Composite.escaped? s).isSome then some (s.take 3, 3)
  else
    match (Composite.delimiter? s).filter fun d => scan.recognises d.1 with
    | some (_, rest) =>
      (Composite.closeBrace none 0 rest).map fun (body, _) =>
        (s.take 2 ++ body ++ ['}'], body.length + 3)
    | none => some (s.take 1, 1)

def readText (s : State) : BuildM State := do
  let c := s.cursor
  match textPiece (← get).scan c.rest with
  | none => fail (.unterminated "expression") c.mark
  | some (piece, width) =>
    let textMark := if s.text.isEmpty then c.mark else s.textMark
    return { s with cursor := c.skip width, text := piece.reverse ++ s.text, textMark }

def scriptSign : ScriptKind → String
  | .declaration => "<%! %>"
  | .expression => "<%= %>"
  | .scriptlet => "<% %>"

def rejectScript (s : State) (construct : String) (mark : Mark) : BuildM Unit := do
  if s.scriptless then fail (.scriptingNotAllowed construct) mark

def readThrough (delimiter construct : String) (mark : Mark) (c : Cursor) :
    BuildM (List Char × Cursor) := do
  match c.readUntil? delimiter with
  | some found => return found
  | none => fail (.unterminated construct) mark

def readBody (name : String) (mark : Mark) (c : Cursor) : BuildM (List Char × Cursor) := do
  match c.readThroughEndTag? name with
  | some found => return found
  | none => fail (.unterminated ("<" ++ name ++ ">")) mark

def readDirectiveName (mark : Mark) (c : Cursor) : BuildM (String × Cursor) := do
  match c.readName? with
  | some (name, behind) => return (String.ofList name, behind)
  | none => fail (.malformedConstruct "directive") mark

-- An action: it stays open when it has a body that is read like the rest of the unit.
def readAction (s : State) (parent : NodeId) (name : String) (mark : Mark) (c : Cursor) :
    BuildM State := do
  let (attrs, closed, c) ← readAttributes tagEnds mark c
  let id ← startAction parent name attrs mark .relaxed
  if closed = "/>" then
    finishElement id
    return s.resume c
  modifyTree (·.openBody id)
  match bodyContent? (← get).tree id with
  | some .verbatim =>
    let (text, behind) ← readBody name mark c
    addVerbatim id text c.mark
    finishElement id
    return s.resume behind
  | content =>
    return { s.resume c with frames := ⟨id, name, content == some .scriptless⟩ :: s.frames }

-- A construct whose opening has been recognised; `c` stands behind the opening.
def readConstruct (includeUnit : Includer) (s : State) (parent : NodeId) (kind : Construct)
    (mark : Mark) (c : Cursor) : BuildM State := do
  match kind with
  | .comment =>
    let (text, c) ← readThrough "--%>" "comment" mark c
    addComment parent text mark
    return s.resume c
  | .directive =>
    let (name, c) ← readDirectiveName mark c.skipBlanks
    let (attrs, _, c) ← readAttributes ["%>"] mark c
    discard (addDirective includeUnit parent name attrs mark)
    return s.resume c
  | .script kind =>
    rejectScript s (scriptSign kind) mark
    let (code, c) ← readThrough "%>" (scriptSign kind) mark c
    discard (addScript parent kind (.inline (String.ofList (unescapeCode code))) mark)
    return s.resume c
  | .directiveElement =>
    let (name, c) ← readDirectiveName mark c
    let (attrs, closed, c) ← readAttributes tagEnds mark c
    let element := "jsp:directive." ++ name
    let c ←
      if closed = ">" then
        match c.skipBlanks.endTag? element with
        | some behind => pure behind
        | none => fail (.unterminated ("<" ++ element ++ ">")) mark
      else pure c
    discard (addDirective includeUnit parent name attrs mark)
    return s.resume c
  | .scriptElement kind =>
    let element := kind.elementName
    rejectScript s element mark
    let (attrs, closed, c) ← readAttributes tagEnds mark c
    match attrs with
    | a :: _ => fail (.unknownAttribute element a.name) a.mark
    | [] =>
      let (code, c) ← if closed = "/>" then pure ([], c) else readBody element mark c
      discard (addScript parent kind (.inline (String.ofList code)) mark)
      return s.resume c
  | .textElement =>
    let (attrs, closed, c) ← readAttributes tagEnds mark c
    let id ← startAction parent "jsp:text" attrs mark .relaxed
    if closed = "/>" then
      finishElement id
      return s.resume c
    modifyTree (·.openBody id)
    let (text, behind) ← readBody "jsp:text" mark c
    addText id text c.mark
    finishElement id
    return s.resume behind
  | .endTag => fail (.unbalancedEndTag (String.ofList (tagName c.rest))) mark
  | .action name => readAction s parent name mark c

-- One step: the end of the innermost element, the end of the unit, a construct or a piece of text.
-- Nothing is left to do when the unit has been read.
def step (includeUnit : Includer) (root : NodeId) (s : State) : BuildM (Option State) := do
  let closed? := do
    let frame ← s.frames.head?
    return (frame, ← s.cursor.endTag? frame.name)
  match closed? with
  | some (frame, behind) =>
    flush s root
    finishElement frame.id
    return some { s.resume behind with frames := s.frames.tail }
  | none =>
    if s.cursor.atEnd then
      flush s root
      match s.frames with
      | [] => return none
      | frame :: _ =>
        fail (.unterminated ("<" ++ frame.name ++ ">")) ((← get).tree.mark frame.id)
    match construct? (← get).bindings s.cursor.rest with
    | some (kind, behind) =>
      flush s root
      some <$>
        readConstruct includeUnit s (s.parent root) kind s.cursor.mark (s.cursor.moveTo behind)
    | none => some <$> readText s

-- Each step but the last uses up text.
def run (includeUnit : Includer) (root : NodeId) : Nat → State → BuildM Unit
  | 0, _ => return
  | fuel + 1, s => do
    match ← step includeUnit root s with
    | some next => run includeUnit root fuel next
    | none => return

-- Reads a unit into the children of its root.
def read (includeUnit : Includer) (root : NodeId) (unit : String) (text : List Char) :
    BuildM Unit :=
  run includeUnit root (text.length + 1) (.start (.ofText unit text))

end PageCompiler.Relaxed
