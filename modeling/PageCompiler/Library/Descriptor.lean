import PageCompiler.Data.Json
import PageCompiler.Data.Yaml
import PageCompiler.Diagnostic
import PageCompiler.Library.Contract
import PageCompiler.Site.Path

namespace PageCompiler

open Data

-- How a configuration or descriptor document is written.
inductive DocumentFormat where
  | json
  | yaml
  deriving DecidableEq, Repr

namespace DocumentFormat

def parse? : DocumentFormat → String → Option Value
  | json, text => Json.parse? text
  | yaml, text => Yaml.parse? text

-- The format of a file, by its extension.
def ofPath (path : String) : DocumentFormat :=
  if Path.extension? path == some "json" then json else yaml

end DocumentFormat

structure TagDescriptor where
  name : String
  handlerClass : String
  bodyContent : BodyContent
  attributes : List AttributeContract
  exposed : List VariableContract
  dynamicAttributes : Bool
  capabilities : Capabilities
  deriving Repr

structure Descriptor where
  uri : String
  shortName : String
  tags : List TagDescriptor
  functions : List Function
  deriving Repr

namespace Descriptor

open Value

def attributeContract? (v : Value) : Option AttributeContract := do
  let fs ← v.fields? ["name", "required", "runtime-expression", "type-name", "fragment",
    "deferred-value", "deferred-value-type", "deferred-method", "method-signature"]
  return {
    name := ← required? fs "name" toText?
    required := ← Value.field? fs "required" toBool? false
    runtimeExpression := ← Value.field? fs "runtime-expression" toBool? false
    typeName := ← Value.field? fs "type-name" toText? stringClass
    fragment := ← Value.field? fs "fragment" toBool? false
    deferredValue := ← Value.field? fs "deferred-value" toBool? false
    deferredValueType := ← Value.field? fs "deferred-value-type" (toOption? toText?) none
    deferredMethod := ← Value.field? fs "deferred-method" toBool? false
    methodSignature := ← Value.field? fs "method-signature" (toOption? toText?) none }

def variableContract? (v : Value) : Option VariableContract := do
  let fs ← v.fields? ["name-given", "name-from-attribute", "class-name", "declare", "scope"]
  return {
    nameGiven := ← Value.field? fs "name-given" (toOption? toText?) none
    nameFromAttribute := ← Value.field? fs "name-from-attribute" (toOption? toText?) none
    className := ← Value.field? fs "class-name" toText? stringClass
    declare := ← Value.field? fs "declare" toBool? true
    scope := ← Value.field? fs "scope" (toName? VariableScope.ofName?) .nested }

def capabilities? (v : Value) : Option Capabilities := do
  let fs ← v.fields? ["iteration", "body-buffering", "try-catch-finally", "id-consumer", "simple",
    "dynamic-attributes"]
  return {
    iteration := ← Value.field? fs "iteration" toBool? false
    bodyBuffering := ← Value.field? fs "body-buffering" toBool? false
    tryCatchFinally := ← Value.field? fs "try-catch-finally" toBool? false
    idConsumer := ← Value.field? fs "id-consumer" toBool? false
    simple := ← Value.field? fs "simple" toBool? false
    dynamicAttributes := ← Value.field? fs "dynamic-attributes" toBool? false }

def tagDescriptor? (v : Value) : Option TagDescriptor := do
  let fs ← v.fields? ["name", "handler-class", "body-content", "attributes", "variables",
    "dynamic-attributes", "capabilities"]
  return {
    name := ← required? fs "name" toText?
    handlerClass := ← required? fs "handler-class" toText?
    bodyContent := ← Value.field? fs "body-content" (toName? BodyContent.ofName?) .markup
    attributes := ← Value.field? fs "attributes" (toList? attributeContract?) []
    exposed := ← Value.field? fs "variables" (toList? variableContract?) []
    dynamicAttributes := ← Value.field? fs "dynamic-attributes" toBool? false
    capabilities := ← Value.field? fs "capabilities" capabilities? {} }

def function? (v : Value) : Option Function := do
  let fs ← v.fields? ["name", "class-name", "signature"]
  return {
    name := ← required? fs "name" toText?
    className := ← required? fs "class-name" toText?
    signature := ← required? fs "signature" toText? }

def ofValue? (v : Value) : Option Descriptor := do
  let fs ← v.fields? ["uri", "short-name", "tags", "functions"]
  return {
    uri := ← required? fs "uri" toText?
    shortName := ← Value.field? fs "short-name" toText? ""
    tags := ← Value.field? fs "tags" (toList? tagDescriptor?) []
    functions := ← Value.field? fs "functions" (toList? function?) [] }

def invalid (path reason : String) : Diagnostic :=
  .unplaced "taglib" (.invalidDescriptor path reason)

-- Reads a descriptor found at `path`.
def read (format : DocumentFormat) (text path : String) : Except Diagnostic Descriptor :=
  match (format.parse? text).bind ofValue? with
  | some d => .ok d
  | none => .error (invalid path "<format>")

def checkAttributes (tag : String) : List String → List AttributeContract → Except String Unit
  | _, [] => .ok ()
  | seen, a :: rest =>
    if seen.contains a.name then
      .error ("attribute '" ++ a.name ++ "' of tag '" ++ tag ++ "' is declared twice")
    else if a.fragment && (a.runtimeExpression || a.deferredValue || a.deferredMethod) then
      .error ("fragment attribute '" ++ a.name ++ "' of tag '" ++ tag ++
        "' cannot take expressions")
    else if a.deferredValue && a.deferredMethod then
      .error ("attribute '" ++ a.name ++ "' of tag '" ++ tag ++
        "' is both a deferred value and a deferred method")
    else checkAttributes tag (a.name :: seen) rest

def checkVariables (tag : String) : List VariableContract → Except String Unit
  | [] => .ok ()
  | v :: rest =>
    if v.nameGiven.isSome == v.nameFromAttribute.isSome then
      .error ("a variable of tag '" ++ tag ++
        "' needs exactly one of name-given and name-from-attribute")
    else checkVariables tag rest

def tagOf (t : TagDescriptor) : Tag :=
  { name := t.name, handlerClass := t.handlerClass, bodyContent := t.bodyContent
    attributes := t.attributes, exposed := t.exposed
    dynamicAttributes := t.dynamicAttributes, capabilities := t.capabilities }

def addTags : Library → List TagDescriptor → Except String Library
  | library, [] => .ok library
  | library, t :: rest =>
    if (library.tag? t.name).isSome then .error ("tag '" ++ t.name ++ "' is declared twice")
    else do
      checkAttributes t.name [] t.attributes
      checkVariables t.name t.exposed
      addTags (library.addTag (tagOf t)) rest

def addFunctions : Library → List Function → Except String Library
  | library, [] => .ok library
  | library, f :: rest =>
    if f.signature.toList.contains '(' then addFunctions (library.addFunction f) rest
    else .error ("function '" ++ f.name ++ "' has no parameter list")

-- The library a descriptor describes. Faults name the file, or the uri when there is none.
def toLibrary (d : Descriptor) (origin : Option String) : Except Diagnostic Library :=
  let start : Library := { uri := d.uri, shortName := d.shortName, origin }
  let built := do
    let library ← addTags start d.tags
    addFunctions library d.functions
  built.mapError (invalid (origin.getD d.uri))

end Descriptor
end PageCompiler
