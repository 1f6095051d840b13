import PageCompiler.Checking.Values
import PageCompiler.ClassText.Names

namespace PageCompiler.Checking

open Text

def resolveCustom (x : Context) (id : NodeId) (data : CustomAction) (s : Supplied) :
    Except Diagnostic ResolvedAttribute := do
  let contract := data.tag.find? s.name
  let policy? :=
    match contract with
    | some a => some (Policy.ofContract a)
    | none => if data.tag.dynamicAttributes then some .dynamic else none
  match policy? with
  | none => x.fail (.unknownAttribute data.qualifiedName s.name) s.mark
  | some policy =>
    return { name := ((cutString? ':' s.name).map Prod.snd).getD s.name, qualifiedName := s.name
             value := ← classify x id s policy, mark := s.mark, contract
             dynamic := contract.isNone }

-- What hooks are told: literals by their value, everything else as known at request time only.
def tagData (attrs : List ResolvedAttribute) : TagData :=
  attrs.foldl
    (fun data a =>
      data.insert a.name
        (match a.value with
        | .literal v => .literal v
        | _ => .requestTime))
    []

-- The variable of a declaration. One that is named by an attribute is not there without the
-- attribute, and the attribute has to be a literal; the failure is the attribute's name.
def declaredVariable (data : TagData) (v : VariableContract) : Except String (Option Variable) :=
  let named (name : String) : Option Variable :=
    some { name, className := v.className, declare := v.declare, scope := v.scope }
  match v.nameGiven, v.nameFromAttribute with
  | some name, _ => .ok (named name)
  | none, some name =>
    match data.get? name with
    | some (.literal value) => .ok (named value)
    | some .requestTime => .error name
    | none => .ok none
  | none, none => .ok none

-- The first variable whose name was used before.
def repeatedVariable? : List String → List Variable → Option Variable
  | _, [] => none
  | names, v :: rest =>
    if names.contains v.name then some v else repeatedVariable? (v.name :: names) rest

def byScope (vars : List Variable) : ScopedVariables :=
  let inScope (scope : VariableScope) := vars.filter fun v => v.scope == scope
  { nested := inScope .nested, atBegin := inScope .atBegin, atEnd := inScope .atEnd }

-- The declared variables and then those of the hook, by scope.
def exposedVariables (x : Context) (tag : Tag) (data : TagData) (name : String) (mark : Mark) :
    Except Diagnostic ScopedVariables := do
  match tag.exposed.mapM (declaredVariable data) with
  | .error attr =>
    x.fail
      (.invalidAttributeValue name attr "names a scripting variable and must be a literal") mark
  | .ok declared =>
    let fromHook := (tag.hook.map fun hook => hook.exposed data).getD []
    let all := declared.filterMap id ++ fromHook
    match repeatedVariable? [] all with
    | some v => x.fail (.duplicateVariable name v.name) mark
    | none => return byScope all

-- The name of a handler is made of the action's name and a number that no other handler has.
def instanceId (data : CustomAction) (number : Nat) : String :=
  "_pagex_th_" ++ ClassText.identifier data.space ++ "_" ++ ClassText.identifier data.name ++ "_" ++
    toString number

def checkCustom (x : Context) (id : NodeId) (data : CustomAction) (number : Nat) :
    Except Diagnostic Finding := do
  let mark := x.tree.mark id
  let name := data.qualifiedName
  let tag := data.tag
  if tag.dynamicAttributes && !tag.capabilities.dynamicAttributes then
    x.fail (.dynamicAttributeMismatch name tag.handlerClass) mark
  if tag.capabilities.simple && tag.bodyContent == .markup && x.tree.hasContent id then
    x.fail (.bodyContentViolation name "a simple handler cannot take a body with raw code") mark
  let attrs ← (← supplied x id).mapM (resolveCustom x id data)
  let given (name : String) := attrs.any fun a => !a.dynamic && a.name == name
  match tag.attributes.find? fun a => a.required && !given a.name with
  | some missing => x.fail (.missingAttribute name missing.name) mark
  | none =>
    let known := tagData attrs
    match (tag.hook.map fun hook => hook.validate known).getD [] with
    | [] =>
      return { attributes := attrs, exposed := ← exposedVariables x tag known name mark
               instanceId := some (instanceId data number) }
    | messages => x.fail (.tagValidation name messages) mark

-- Markup that is no action takes attributes of any name; namespaces are literals.
def resolveUninterpreted (x : Context) (id : NodeId) (a : Attribute) :
    Except Diagnostic ResolvedAttribute := do
  let isNamespace := a.name == "xmlns" || begins "xmlns:" a.name
  let value ← classify x id (.inline a) (if isNamespace then .literal else .requestTime)
  return { name := a.name, qualifiedName := a.name, value, mark := a.mark, contract := none
           dynamic := true }

end PageCompiler.Checking
