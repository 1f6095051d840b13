import PageCompiler.Checking.Settings
import PageCompiler.Page.Bindings
import PageCompiler.Page.Findings

namespace PageCompiler.Checking

open Text

-- What the checks of a page are made against.
structure Context where
  options : Options
  bindings : Bindings
  settings : Settings
  tree : Tree

namespace Context

def fail (x : Context) (fault : Fault) (mark : Mark) : Except Diagnostic α :=
  .error (x.tree.fault "validate" fault mark)

end Context

-- What an attribute accepts besides literals.
structure Policy where
  -- Raw code and immediate expressions.
  runtime : Bool := false
  deferred : Bool := false
  -- May be given as an element.
  named : Bool := false
  -- Has to be given as an element.
  fragment : Bool := false
  -- A deferred method without a result, which no literal stands for.
  voidMethod : Bool := false
  -- A deferred method: one expression and nothing else.
  method : Bool := false
  deriving DecidableEq, Repr

namespace Policy

def literal : Policy := {}

def dynamic : Policy := { runtime := true, deferred := true, named := true }

def requestTime : Policy := { runtime := true, named := true }

def ofContract (a : AttributeContract) : Policy :=
  { runtime := a.runtimeExpression, deferred := a.deferredValue || a.deferredMethod
    named := true, fragment := a.fragment
    voidMethod := a.deferredMethod && a.returnType == "void", method := a.deferredMethod }

end Policy

-- An attribute of an action, given in its tag or as an element in its body.
structure Supplied where
  name : String
  mark : Mark
  -- The attribute in the tag, or the node of the element.
  given : Attribute ⊕ NodeId

namespace Supplied

def inline (a : Attribute) : Supplied := ⟨a.name, a.mark, .inl a⟩

def isNamed (s : Supplied) : Bool := s.given.isRight

-- The first one whose name was given before.
def repeated? : List Supplied → List Supplied → Option Supplied
  | _, [] => none
  | earlier, s :: rest =>
    if earlier.any fun e => e.name == s.name then some s else repeated? (earlier ++ [s]) rest

-- The attributes in the tag, then those given as elements.
def ofNode (t : Tree) (id : NodeId) : List Supplied :=
  (t.node id).attributes.map inline ++
    (t.children id).filterMap fun child =>
      match t.kind child with
      | .named data => some ⟨data.name, t.mark child, .inr child⟩
      | _ => none

end Supplied

-- All attributes of an action; none is given twice.
def supplied (x : Context) (id : NodeId) : Except Diagnostic (List Supplied) :=
  let all := Supplied.ofNode x.tree id
  match Supplied.repeated? [] all with
  | some s => x.fail (.duplicateAttribute (x.tree.node id).name s.name) s.mark
  | none => .ok all

-- A function in an expression belongs to a bound library and takes that many arguments.
def checkFunction (x : Context) (mark : Mark) (call : FunctionUse) : Except Diagnostic Unit :=
  let unknown : Except Diagnostic Unit :=
    x.fail (.unknownFunction (call.space.getD "") call.name) mark
  match call.space with
  | none => unknown
  | some space =>
    match (x.bindings.library? space).bind fun library => library.function? call.name with
    | none => unknown
    | some function =>
      match function.parameterTypes? with
      | none => x.fail (.crossedParentheses function.signature) mark
      | some types =>
        if types.length = call.arity then .ok ()
        else
          x.fail (.invalidExpression call.qualifiedName
            ("expects " ++ toString types.length ++ " argument(s), got " ++ toString call.arity))
            mark

def checkFunctions (x : Context) (calls : List FunctionUse) (mark : Mark) :
    Except Diagnostic Unit :=
  calls.forM (checkFunction x mark)

def isScriptless : NodeKind → Bool
  | .custom data => data.tag.bodyContent == .scriptless
  | _ => false

-- Raw code is refused everywhere, or below actions whose bodies take none.
def checkRawCode (x : Context) (id : NodeId) (construct : String) (mark : Mark) :
    Except Diagnostic Unit :=
  let refused := x.options.scriptingDisabled ||
    (x.tree.ancestors id).any fun a => isScriptless (x.tree.kind a)
  if refused then x.fail (.scriptingNotAllowed construct) mark else .ok ()

-- The value of an attribute that is written in quotes.
def classifyText (x : Context) (reject : String → Except Diagnostic AttributeValue)
    (action : String) (a : Attribute) (policy : Policy) : Except Diagnostic AttributeValue := do
  let scan : ScanOptions :=
    { deferredAsLiteral := x.settings.deferredAsLiteral && !policy.deferred
      ignoreExpressions := x.settings.elIgnored }
  match Composite.parse scan a.value.toList with
  | .error e => x.fail (.invalidExpression e.expression e.reason.text) a.mark
  | .ok composite =>
    match composite.dialects with
    | [] =>
      if policy.voidMethod then
        reject "a literal cannot stand for a deferred method returning void"
      else return .literal (composite.literalText.getD "")
    | [dialect] =>
      if dialect = .immediate && !policy.runtime then
        reject "does not accept runtime expressions"
      else if dialect = .deferred && !policy.deferred then
        reject "does not accept deferred expressions"
      else if dialect = .deferred && policy.method && !composite.isSingleExpression then
        reject "a deferred method must be a single expression"
      else
        checkFunctions x composite.functions a.mark
        return .expression a.value composite dialect
    | _ => x.fail (.mixedExpressionDialects action a.name) a.mark

def classify (x : Context) (id : NodeId) (s : Supplied) (policy : Policy) :
    Except Diagnostic AttributeValue := do
  let action := (x.tree.node id).name
  let reject (reason : String) : Except Diagnostic AttributeValue :=
    x.fail (.invalidAttributeValue action s.name reason) s.mark
  match s.given with
  | .inr named =>
    if policy.named then return .named named
    else reject "cannot be given through <jsp:attribute>"
  | .inl a =>
    if policy.fragment then reject "is a fragment and must be given through <jsp:attribute>"
    else if a.scripting then
      if policy.runtime then
        checkRawCode x id (s.name ++ "=\"<%= %>\"") s.mark
        return .scripting a.value
      else reject "does not accept runtime expressions"
    else classifyText x reject action a policy

end PageCompiler.Checking
