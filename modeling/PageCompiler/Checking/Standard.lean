import PageCompiler.Checking.Values

namespace PageCompiler

structure Beans where
  classes : List (String × String) := []
  deriving DecidableEq, Repr, Inhabited

namespace Beans

def classOf? (b : Beans) (name : String) : Option String := b.classes.lookup name

def contains (b : Beans) (name : String) : Bool := (b.classOf? name).isSome

-- Declares a bean; nothing when the name is taken.
def declare? (b : Beans) (name className : String) : Option Beans :=
  if b.contains name then none else some ⟨b.classes ++ [(name, className)]⟩

def size (b : Beans) : Nat := b.classes.length

def isEmpty (b : Beans) : Bool := b.classes.isEmpty

end Beans

namespace Checking

structure StandardAttribute where
  name : String
  required : Bool := false
  -- Takes raw code and immediate expressions.
  runtime : Bool := false

-- The attributes of the standard actions; other nodes have no table.
def standardAttributes? : NodeKind → Option (List StandardAttribute)
  | .useBean => some
    [{ name := "id", required := true }, { name := "scope" }, { name := "class" },
      { name := "type" }, { name := "beanName", runtime := true }]
  | .setProperty => some
    [{ name := "name", required := true }, { name := "property", required := true },
      { name := "param" }, { name := "value", runtime := true }]
  | .getProperty => some
    [{ name := "name", required := true }, { name := "property", required := true }]
  | .forward => some [{ name := "page", required := true, runtime := true }]
  | .includeAction => some
    [{ name := "page", required := true, runtime := true }, { name := "flush" }]
  | .param => some
    [{ name := "name", required := true, runtime := true },
      { name := "value", required := true, runtime := true }]
  | .plugin => some
    [{ name := "type", required := true }, { name := "code", required := true },
      { name := "codebase", required := true }, { name := "align" }, { name := "archive" },
      { name := "height", runtime := true }, { name := "hspace" }, { name := "jreversion" },
      { name := "name" }, { name := "vspace" }, { name := "width", runtime := true },
      { name := "nspluginurl" }, { name := "iepluginurl" }, { name := "mayscript" }]
  | .element => some [{ name := "name", required := true, runtime := true }]
  | .output => some
    [{ name := "omit-xml-declaration" }, { name := "doctype-root-element" },
      { name := "doctype-system" }, { name := "doctype-public" }]
  | .named _ => some
    [{ name := "name", required := true }, { name := "trim" }, { name := "omit", runtime := true }]
  | .xmlRoot => some [{ name := "version", required := true }]
  | .params | .fallback | .body | .jspText => some []
  | _ => none

def isElement : NodeKind → Bool
  | .element => true
  | _ => false

-- The policy of an attribute; an element takes attributes of any name that are given as elements.
def standardPolicy? (kind : NodeKind) (entry : Option StandardAttribute) (s : Supplied) :
    Option Policy :=
  match entry with
  | some a => some (if a.runtime then .requestTime else .literal)
  | none => if isElement kind && s.isNamed then some .requestTime else none

def resolveStandard (x : Context) (id : NodeId) (table : List StandardAttribute) (s : Supplied) :
    Except Diagnostic ResolvedAttribute := do
  let n := x.tree.node id
  let entry := table.find? fun a => a.name == s.name
  match standardPolicy? n.kind entry s with
  | none => x.fail (.unknownAttribute n.name s.name) s.mark
  | some policy =>
    return { name := s.name, qualifiedName := s.name, value := ← classify x id s policy
             mark := s.mark, contract := none, dynamic := entry.isNone }

def literal? (attrs : List ResolvedAttribute) (name : String) : Option String :=
  (attrs.find? fun a => a.name == name).bind fun a => a.value.literal?

def has (attrs : List ResolvedAttribute) (name : String) : Bool :=
  attrs.any fun a => a.name == name

-- A bean has a class or a type, a scope there is, and a name of its own.
def checkUseBean (x : Context) (beans : Beans) (n : Node) (attrs : List ResolvedAttribute) :
    Except Diagnostic Beans := do
  let invalid (name reason : String) : Except Diagnostic Unit :=
    x.fail (.invalidAttributeValue n.name name reason) n.mark
  let name := (literal? attrs "id").getD ""
  let className := literal? attrs "class"
  if className.isSome && has attrs "beanName" then
    invalid "beanName" "cannot be combined with 'class'"
  match (literal? attrs "type").or className with
  | none => x.fail (.missingAttribute n.name "class") n.mark
  | some declared =>
    match (literal? attrs "scope").getD "page" with
    | "page" | "request" | "application" => pure ()
    | "session" =>
      unless x.settings.session do invalid "scope" "session scope needs session=\"true\""
    | _ => invalid "scope" "must be page, request, session or application"
    match beans.declare? name declared with
    | some beans => return beans
    | none => x.fail (.duplicateVariable n.name name) n.mark

def checkSetProperty (x : Context) (n : Node) (attrs : List ResolvedAttribute) :
    Except Diagnostic Unit :=
  if has attrs "value" && has attrs "param" then
    x.fail (.invalidAttributeValue n.name "param" "cannot be combined with 'value'") n.mark
  else if literal? attrs "property" == some "*" && has attrs "value" then
    x.fail (.invalidAttributeValue n.name "value" "cannot be combined with property=\"*\"") n.mark
  else .ok ()

def checkFlush (x : Context) (n : Node) (attrs : List ResolvedAttribute) :
    Except Diagnostic Unit :=
  match literal? attrs "flush" with
  | none | some "true" | some "false" => .ok ()
  | some _ => x.fail (.invalidAttributeValue n.name "flush" "must be 'true' or 'false'") n.mark

def takesParams : NodeKind → Bool
  | .includeAction | .forward | .params => true
  | _ => false

def isPlugin : NodeKind → Bool
  | .plugin => true
  | _ => false

-- Bodies and attributes given as elements belong to actions that are neither themselves.
def takesNamed : NodeKind → Bool
  | .body | .jspText | .named _ => false
  | kind => kind.isAction

def isPlainText : NodeKind → Bool
  | .text _ | .insert _ => true
  | _ => false

def checkParent (x : Context) (n : Node) (fits : NodeKind → Bool) (reason : String) :
    Except Diagnostic Unit :=
  if n.parent.any fun p => fits (x.tree.kind p) then .ok ()
  else x.fail (.bodyContentViolation n.name reason) n.mark

def checkTextOnly (x : Context) (n : Node) : Except Diagnostic Unit :=
  match n.children.find? fun c => !isPlainText (x.tree.kind c) with
  | some stray =>
    x.fail (.bodyContentViolation n.name "may only contain text") (x.tree.mark stray)
  | none => .ok ()

-- The rules of an action, which may declare a bean.
def checkRules (x : Context) (beans : Beans) (n : Node) (attrs : List ResolvedAttribute) :
    Except Diagnostic Beans := do
  match n.kind with
  | .useBean => return ← checkUseBean x beans n attrs
  | .setProperty => checkSetProperty x n attrs
  | .includeAction => checkFlush x n attrs
  | .param => checkParent x n takesParams "must be inside jsp:include, jsp:forward or jsp:params"
  | .params | .fallback => checkParent x n isPlugin "must be inside jsp:plugin"
  | .body | .named _ => checkParent x n takesNamed "must be inside a standard or custom action"
  | .jspText => checkTextOnly x n
  | _ => pure ()
  return beans

-- The attributes of a standard action, and the beans declared by then.
def checkStandard (x : Context) (beans : Beans) (id : NodeId) (table : List StandardAttribute) :
    Except Diagnostic (List ResolvedAttribute × Beans) := do
  let n := x.tree.node id
  let attrs ← (← supplied x id).mapM (resolveStandard x id table)
  match table.find? fun a => a.required && !has attrs a.name with
  | some missing => x.fail (.missingAttribute n.name missing.name) n.mark
  | none => return (attrs, ← checkRules x beans n attrs)

end Checking
end PageCompiler
