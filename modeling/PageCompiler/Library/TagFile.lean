import PageCompiler.ClassText.Names
import PageCompiler.Library.Contract
import PageCompiler.Text.Letters
import PageCompiler.Text.Word

namespace PageCompiler.TagFile

open Text

inductive DirectiveKind where
  | tag
  | attribute
  | variable
  deriving DecidableEq, Repr

-- A word that the characters behind it do not lengthen.
def wordHere? (word : String) (s : List Char) : Option (List Char) :=
  match stripStart? word.toList s with
  | some [] => some []
  | some (c :: rest) => if isWordChar c then none else some (c :: rest)
  | none => none

def directiveKind? (s : List Char) : Option (DirectiveKind × List Char) :=
  match wordHere? "tag" s with
  | some rest => some (.tag, rest)
  | none =>
    match wordHere? "attribute" s with
    | some rest => some (.attribute, rest)
    | none => (wordHere? "variable" s).map fun rest => (.variable, rest)

-- A directive that starts here: its kind, its text and the rest behind it.
def directive? (s : List Char) : Option (DirectiveKind × List Char × List Char) := do
  let s ← stripStart? "<%@".toList s
  let (kind, s) ← directiveKind? (trimStart s)
  let (text, rest) ← cutAt? "%>".toList s
  return (kind, text, rest)

-- The directives of a file in order.
def directives (s : List Char) : List (DirectiveKind × List Char) :=
  match s with
  | [] => []
  | c :: cs =>
    match directive? (c :: cs) with
    | some (kind, text, rest) =>
      if rest.length < cs.length + 1 then (kind, text) :: directives rest else []
    | none => directives cs
termination_by s.length

def isAttributeStart (c : Char) : Bool := c.isAlpha || c = '_'

def isAttributeChar (c : Char) : Bool := isWordChar c || c = '.' || c = '-'

def quotedHere? : List Char → Option (List Char × List Char)
  | c :: s => if c = '"' || c = '\'' then splitOnce? c s else none
  | [] => none

def attributeHere? : List Char → Option ((String × String) × List Char)
  | [] => none
  | c :: cs =>
    if isAttributeStart c then do
      let s ← stripStart? ['='] (trimStart (cs.dropWhile isAttributeChar))
      let (value, rest) ← quotedHere? (trimStart s)
      return ((String.ofList (c :: cs.takeWhile isAttributeChar), String.ofList value), rest)
    else none

def attributes (s : List Char) : List (String × String) :=
  match s with
  | [] => []
  | c :: cs =>
    match attributeHere? (c :: cs) with
    | some (a, rest) => if rest.length < cs.length + 1 then a :: attributes rest else []
    | none => attributes cs
termination_by s.length

-- The value given last counts.
def value? (attrs : List (String × String)) (name : String) : Option String :=
  attrs.reverse.lookup name

def flag (attrs : List (String × String)) (name : String) : Bool :=
  match value? attrs name with
  | some v => isTrue v
  | none => false

-- What a tag directive changes about the tag.
def applyTag (tag : Tag) (attrs : List (String × String)) : Except String Tag := do
  let tag ←
    match value? attrs "body-content" with
    | none => pure tag
    | some body =>
      match BodyContent.ofName? body with
      | none | some .markup => .error ("invalid body-content '" ++ body ++ "'")
      | some bodyContent => pure { tag with bodyContent }
  if (value? attrs "dynamic-attributes").isSome then
    return { tag with
      dynamicAttributes := true
      capabilities := { tag.capabilities with dynamicAttributes := true } }
  else return tag

def attributeOf (name : String) (attrs : List (String × String)) : AttributeContract :=
  let a : AttributeContract :=
    { name, required := flag attrs "required"
      runtimeExpression := ((value? attrs "rtexprvalue").map isTrue).getD true }
  let a :=
    if flag attrs "fragment" then { a.makeFragment with runtimeExpression := false }
    else
      match value? attrs "type" with
      | some t => a.ofType t
      | none => a
  let a :=
    if flag attrs "deferredValue" || (value? attrs "deferredValueType").isSome then
      a.makeDeferredValue (value? attrs "deferredValueType")
    else a
  match value? attrs "deferredMethodSignature" with
  | some signature => a.makeDeferredMethod signature
  | none => if flag attrs "deferredMethod" then a.makeDeferredMethod "void method()" else a

def applyAttribute (tag : Tag) (attrs : List (String × String)) : Except String Tag :=
  match value? attrs "name" with
  | none => .error "attribute directive without a name"
  | some name =>
    if (tag.find? name).isSome then .error ("attribute '" ++ name ++ "' is declared twice")
    else .ok { tag with attributes := tag.attributes ++ [attributeOf name attrs] }

def applyVariable (tag : Tag) (attrs : List (String × String)) : Except String Tag := do
  let scope ←
    match value? attrs "scope" with
    | none => pure .nested
    | some s =>
      match VariableScope.ofName? s with
      | some scope => pure scope
      | none => .error ("invalid variable scope '" ++ s ++ "'")
  let v : VariableContract :=
    { nameGiven := value? attrs "name-given"
      nameFromAttribute := value? attrs "name-from-attribute"
      className := (value? attrs "variable-class").getD stringClass
      declare := ((value? attrs "declare").map (· == "true")).getD true
      scope }
  if v.nameGiven.isSome == v.nameFromAttribute.isSome then
    .error "variable directive needs exactly one of name-given and name-from-attribute"
  else return { tag with exposed := tag.exposed ++ [v] }

def apply (tag : Tag) (directive : DirectiveKind × List Char) : Except String Tag :=
  let attrs := attributes directive.2
  match directive.1 with
  | .tag => applyTag tag attrs
  | .attribute => applyAttribute tag attrs
  | .variable => applyVariable tag attrs

-- The class that stands for a tag file.
def handlerClass (directory name : String) : String :=
  let package := ((split '/' directory).filter fun s => !s.isEmpty).map fun s =>
    ClassText.identifier (lower s)
  join "." (["org.pagec.tags"] ++ package ++ [ClassText.identifier name ++ "_tag"])

-- The contract of the tag file `name` in `directory` with the given text.
def contract (directory name text : String) : Except String Tag :=
  let start : Tag :=
    { name, handlerClass := handlerClass directory name, bodyContent := .scriptless
      capabilities := { simple := true } }
  (directives text.toList).foldlM apply start

-- The last name of a directory.
def shortName (directory : String) : String :=
  (split '/' (dropTrailing '/' directory)).getLast?.getD "tags"

end PageCompiler.TagFile
