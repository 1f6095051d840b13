import PageCompiler.Markup.Event
import PageCompiler.Reading.Builder
import PageCompiler.Text.Slice

-- Character data is gathered up to the next tag or comment and then made into nodes, so that each
-- run of text is seen once.
namespace PageCompiler.Strict

open Text
open Builder
open Markup (Event Located Document)

-- The namespace of the standard actions, and the start of those that name tag directories.
def standardUri : String := "http://java.sun.com/JSP/Page"

def directoryUrn : String := "urn:jsptagdir:"

-- What character data means inside of an open element.
inductive Content where
  | markup
  -- The code of a scripting element.
  | code
  -- Text in which blanks are kept.
  | text
  -- Left as it is, tags included, of which `depth` are open.
  | verbatim (depth : Nat)
  -- Nothing is allowed in a directive.
  | directive
  deriving DecidableEq, Repr

structure Frame where
  id : NodeId
  -- As it is written.
  name : String
  content : Content
  mark : Mark

structure State where
  -- Innermost first.
  frames : List Frame := []
  -- Prefixes bound to the standard namespace.
  standard : List String := [standardSpace]
  -- Character data since the last tag, in reverse, and the byte it starts at.
  pending : List Char := []
  pendingStart : Nat := 0

-- The unit being read.
structure Context where
  root : NodeId
  unit : String
  text : List Char
  -- Blank text is kept everywhere.
  keepBlanks : Bool
  includeUnit : Includer

namespace Context

def markAt (x : Context) (offset : Nat) : Mark := .ofOffset x.unit x.text offset

-- The text between two bytes. They are those of an event, and may fall inside of characters where a
-- byte order mark in front of the document is not counted.
def slice (x : Context) (start stop : Nat) : BuildM (List Char) :=
  match slice? start stop x.text with
  | some piece => return piece
  | none => fail (.splitCharacter start stop) (x.markAt start)

end Context

namespace State

def parent (s : State) (x : Context) : NodeId := (s.frames.head?.map Frame.id).getD x.root

def content (s : State) : Content := (s.frames.head?.map Frame.content).getD .markup

-- Adds character data.
def push (s : State) (text : List Char) (start : Nat) : State :=
  { s with
    pending := text.reverse ++ s.pending
    pendingStart := if s.pending.isEmpty then start else s.pendingStart }

def setContent (s : State) (content : Content) : State :=
  match s.frames with
  | frame :: rest => { s with frames := { frame with content } :: rest }
  | [] => s

end State

-- Makes the gathered character data into nodes of the innermost element.
def flush (x : Context) (s : State) : BuildM State := do
  if s.pending.isEmpty then return s
  let text := s.pending.reverse
  let mark := x.markAt s.pendingStart
  let parent := s.parent x
  match s.content with
  | .code | .verbatim _ => addVerbatim parent text mark
  | .text => addText parent text mark
  | .directive =>
    unless allBlank text do
      let name := ((← get).tree.node parent).name
      fail (.bodyContentViolation name "directives take no content") mark
  | .markup => if !allBlank text || x.keepBlanks then addText parent text mark
  return { s with pending := [] }

-- The code of a value that is raw code as a whole.
def codeValue? (value : String) : Option String := do
  withoutEnd? "%" (← withoutStart? "%=" value)

def readAttributes (inside : List Char) (mark : Mark) : BuildM (List Attribute) := do
  match Markup.StartTag.attributes? inside with
  | none => fail (.markup "<xml>") mark
  | some written =>
    return written.map fun (name, value) =>
      match codeValue? value with
      | some code => { name, value := code, scripting := true, mark }
      | none => { name, value, mark }

-- Attributes of an element with its namespaces apart: those that name a library are bound, and
-- those that do not are kept.
structure Declared where
  standard : List String
  plain : List Attribute := []
  namespaces : List Attribute := []

def declareOne (mark : Mark) (d : Declared) (a : Attribute) : BuildM Declared := do
  match withoutStart? "xmlns:" a.name with
  | none =>
    if a.name = "xmlns" then return { d with namespaces := d.namespaces ++ [a] }
    else return { d with plain := d.plain ++ [a] }
  | some space =>
    if a.value = standardUri then return { d with standard := space :: d.standard }
    match withoutStart? directoryUrn a.value with
    | some directory =>
      bindSpace space (.tagDirectory directory) mark
      return d
    | none =>
      if ← bindNamespace space (.uri a.value) mark then return d
      else return { d with namespaces := d.namespaces ++ [a] }

def declare (standard : List String) (attrs : List Attribute) (mark : Mark) : BuildM Declared :=
  attrs.foldlM (declareOne mark) { standard }

def scriptKind? : String → Option ScriptKind
  | "declaration" => some .declaration
  | "expression" => some .expression
  | "scriptlet" => some .scriptlet
  | _ => none

-- Starts an element of the standard namespace.
def startStandard (x : Context) (parent : NodeId) (name : String) (attrs : List Attribute)
    (mark : Mark) (hasBody : Bool) : BuildM (NodeId × Content) := do
  match withoutStart? "directive." name with
  | some directive =>
    return (← addDirective x.includeUnit parent directive attrs mark, .directive)
  | none =>
    let element := standardSpace ++ ":" ++ name
    match scriptKind? name with
    | some kind =>
      match attrs with
      | a :: _ => fail (.unknownAttribute element a.name) a.mark
      | [] =>
        let code := if hasBody then Script.children else .inline ""
        return (← addScript parent kind code mark, .code)
    | none =>
      return (← startAction parent element attrs mark .strict,
        if name = "text" then .text else .markup)

def isUninterpreted : NodeKind → Bool
  | .uninterpreted => true
  | _ => false

-- Closes an element. Raw code, directives and markup that is no action have nothing to check.
def close (id : NodeId) (content : Content) : BuildM Unit := do
  unless content = .code || content = .directive || isUninterpreted ((← get).tree.kind id) do
    finishElement id

def startElement (x : Context) (s : State) (inside : List Char) (offset : Nat)
    (hasBody : Bool) : BuildM State := do
  let mark := x.markAt offset
  let name := String.ofList (Markup.StartTag.name inside)
  let declared ← declare s.standard (← readAttributes inside mark) mark
  let s := { s with standard := declared.standard }
  let parent := s.parent x
  let (space, inner) := (cutString? ':' name).getD ("", name)
  let (id, content) ←
    if s.standard.contains space then
      startStandard x parent inner declared.plain mark hasBody
    else if !space.isEmpty && (← get).bindings.isBound space then do
      let id ← startAction parent name declared.plain mark .strict
      let verbatim := bodyContent? (← get).tree id == some .verbatim
      pure (id, if verbatim then Content.verbatim 0 else .markup)
    else do
      let id ← append parent
        { kind := .uninterpreted, mark, name, attributes := declared.namespaces ++ declared.plain
          body := if hasBody then some [] else none }
      pure (id, Content.markup)
  if hasBody then
    modifyTree (·.openBody id)
    return { s with frames := ⟨id, name, content, mark⟩ :: s.frames }
  close id content
  return s

def endElement (x : Context) (s : State) (name : String) (offset : Nat) : BuildM State := do
  match s.frames with
  | frame :: rest =>
    if frame.name = name then
      close frame.id frame.content
      return { s with frames := rest }
    fail (.unbalancedEndTag name) (x.markAt offset)
  | [] => fail (.unbalancedEndTag name) (x.markAt offset)

-- How many tags are open in a verbatim body behind an event; the tag that closes the body itself
-- is not part of it.
def verbatimDepth? (depth : Nat) : Event → Option Nat
  | .opening _ => some (depth + 1)
  | .closing _ => if depth = 0 then none else some (depth - 1)
  | _ => some depth

def readMarkup (x : Context) (s : State) (e : Located) : BuildM State := do
  match e.event with
  | .opening inside => startElement x (← flush x s) inside e.start true
  | .empty inside => startElement x (← flush x s) inside e.start false
  | .closing name => endElement x (← flush x s) (String.ofList name) e.start
  | .text raw =>
    match Markup.unescape? raw with
    | some text => return s.push text e.start
    | none => fail (.markup "<xml>") (x.markAt e.start)
  | .cdata text => return s.push text (e.start + "<![CDATA[".length)
  | .comment text =>
    let s ← flush x s
    addComment (s.parent x) text (x.markAt e.start)
    return s
  | .other => return s

def readEvent (x : Context) (s : State) (e : Located) : BuildM State := do
  match s.content with
  | .verbatim depth =>
    -- The text of an event is taken before it is known whether it belongs to the body.
    let piece ← x.slice e.start e.stop
    match verbatimDepth? depth e.event with
    | some depth => return (s.setContent (.verbatim depth)).push piece e.start
    | none => readMarkup x s e
  | _ => readMarkup x s e

-- The end of the document is the last event, and one without text.
def readEnd (x : Context) (s : State) (stop : Nat) : BuildM Unit := do
  match s.content with
  | .verbatim _ => discard (x.slice stop stop)
  | _ => return

def readDocument (x : Context) (d : Document) : BuildM Unit := do
  let s ← d.events.foldlM (readEvent x) {}
  match d.broken with
  | some offset => fail (.markup "<xml>") (x.markAt offset)
  | none =>
    readEnd x s d.stop
    let s ← flush x s
    match s.frames with
    | frame :: _ => fail (.unterminated ("<" ++ frame.name ++ ">")) frame.mark
    | [] => return

-- Reads a unit into the children of its root.
def read (includeUnit : Includer) (keepBlanks : Bool) (root : NodeId) (unit : String)
    (text : List Char) : BuildM Unit :=
  readDocument { root, unit, text, keepBlanks, includeUnit } (Markup.read text)

end PageCompiler.Strict
