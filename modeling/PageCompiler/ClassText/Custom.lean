import PageCompiler.ClassText.Standard

-- A classic handler is led through its life in place; a simple one gets its body as a deferred
-- body. An action without raw code and variables becomes a method of its own.
namespace PageCompiler.ClassText

open Text

-- Declares the variables that are to be declared and are not yet.
def declareVariables (vars : List Variable) : GenM (List Line) := do
  let lines ← (vars.filter Variable.declare).mapM fun v => do
    if ← declareName v.name then return [Line.plain (.declare v.className v.name)] else return []
  return lines.flatten

-- Fetches the variables that are declared.
def syncVariables (vars : List Variable) : GenM (List Line) := do
  let lines ← vars.mapM fun v => do
    if ← isDeclared v.name then return [Line.plain (.sync v.className v.name)] else return []
  return lines.flatten

-- Keeps what an enclosing action of the same name has put into the variables in copies that are
-- named for the depth. Actions side by side use the same copies.
def saveVariables (vars : ScopedVariables) (depth : Nat) :
    GenM (List Line × List (String × String)) := do
  if depth = 0 then return ([], [])
  let saved ← (vars.nested ++ vars.atBegin).mapM fun v => do
    if ← isDeclared v.name then
      let copy := v.name ++ "_" ++ toString depth
      let newOf := if ← declareName copy then some v.className else none
      return [(Line.plain (.save newOf copy v.name), (v.name, copy))]
    else return []
  return (saved.flatten.map Prod.fst, saved.flatten.map Prod.snd)

-- The statements of a deferred body, for a method of their own. The nested variables are declared
-- in it.
def deferredCode (body : BodyGen) (owner : NodeId) (kind : HandlerKind) (nested : List Variable) :
    GenM Code := inMethod do
  let scope : Scope :=
    { parent := some (.parameter kind), leave := .throws, pushCount := Names.pushCount }
  let declared ← declareVariables nested
  let synced ← syncVariables nested
  let inside ← body scope owner
  return Stretch.plain (declared ++ synced) :: inside

-- Makes the body of a node a deferred body of a handler.
def deferBody (body : BodyGen) (owner : NodeId) (kind : HandlerKind) (nested : List Variable) :
    GenM Nat := do
  let number ← reserveDeferred
  let code ← deferredCode body owner kind nested
  fillDeferred number code
  return number

-- The parameter types of a method that an attribute takes.
def methodParameters (c : AttributeContract) : GenM (List String) :=
  match c.parameterTypes? with
  | some types => return types
  | none => throw (.unplaced "generate" (.crossedParentheses (c.methodSignature.getD "")))

-- An expression for an attribute: what it becomes depends on what the attribute accepts.
def expressionValue (x : Context) (contract : Option AttributeContract) (parts : Composite)
    (dialect : Dialect) : GenM Operand := do
  let source := parts.sourceText
  let functions ← functionField x parts.functions
  let valueType := (contract.bind AttributeContract.deferredValueType).getD "java.lang.Object"
  match contract with
  | some a =>
    if a.deferredMethod then
      return .methodExpression source a.returnType (← methodParameters a) functions
    if a.deferredValue || dialect = .deferred then
      return .valueExpression source valueType functions
    return .evaluate source a.typeName functions
  | none =>
    if dialect = .deferred then return .valueExpression source valueType functions
    return .evaluate source "java.lang.Object" functions

def literalValue (a : ResolvedAttribute) (value : String) : GenM Operand := do
  match a.contract with
  | some c =>
    if c.deferredMethod then
      return .code (Names.runtime ++ ".literalMethodExpression(" ++ quote value ++ ", " ++
        boxedType c.returnType ++ ".class, " ++ classArray (← methodParameters c) ++ ")")
    if c.deferredValue then
      return .code (Names.runtime ++ ".literalValueExpression(" ++ quote value ++ ", " ++
        boxedType (c.deferredValueType.getD "java.lang.Object") ++ ".class)")
    return .code (if a.dynamic then quote value else coerce value c.typeName)
  | none => return .code (if a.dynamic then quote value else coerce value "java.lang.Object")

-- The value handed to the setter of an attribute.
def attributeValue (x : Context) (body : BodyGen) (scope : Scope) (handler : String)
    (kind : HandlerKind) (a : ResolvedAttribute) : GenM Operand := do
  match a.value with
  | .literal v => literalValue a v
  | .scripting code => return .code (trimmed code)
  | .expression _ parts dialect => expressionValue x a.contract parts dialect
  | .named id =>
    if isFragment a then
      return .deferredBody (← deferBody body id kind []) handler scope.pushCount
    let name ← namedVariable id
    let typeName := (a.contract.map AttributeContract.typeName).getD "java.lang.Object"
    return .code (if isTextType typeName then name else convert name typeName)

def setters (x : Context) (body : BodyGen) (scope : Scope) (f : Finding) (handler : String)
    (kind : HandlerKind) : GenM (List Line) :=
  f.attributes.mapM fun a => do
    let value ← attributeValue x body scope handler kind a
    if a.dynamic then return .plain (.setDynamic handler a.qualifiedName value)
    else return .plain (.set handler (setterName a.name) value)

-- A handler gets the content of its action as a deferred body.
def bodySetter (x : Context) (body : BodyGen) (scope : Scope) (id : NodeId) (handler : String) :
    GenM (List Line) := do
  if x.tree.hasContent id then
    let number ← deferBody body id .simple (x.finding id).exposed.nested
    return [.plain (.setBody handler (.deferredBody number handler scope.pushCount))]
  else return []

def simpleCode (x : Context) (body : BodyGen) (scope : Scope) (id : NodeId) (data : CustomAction)
    (handler : String) : GenM Code := do
  let f := x.finding id
  let values ← namedValues x body scope id
  let parent := scope.parent.toList.map fun parent =>
    Line.code (handler ++ ".setParent(" ++ parent.expr ++ ");")
  let attrs ← setters x body scope f handler .simple
  let deferred ← bodySetter x body scope id handler
  let synced ← syncVariables (f.exposed.atBegin ++ f.exposed.atEnd)
  let lines : List Line := List.flatten
    [[.plain (.acquire data.tag.handlerClass handler none),
      .code (handler ++ ".setJspContext(" ++ Names.context ++ ");")],
      parent, attrs, deferred, [.code (handler ++ ".doTag();")], synced,
      [.code (Names.runtime ++ ".releaseTag(" ++ handler ++ ", false);")]]
  return values ++ [Stretch.forMark (x.tree.mark id) lines]

def evalOtherThan (handler constant : String) : Line :=
  .block ("if (" ++ handler ++ "_eval != " ++ Names.tag ++ "." ++ constant ++ ")")

-- A body that is not taken in place is pushed, and popped again behind it.
def pushLines (handler count : String) : List Line :=
  [evalOtherThan handler "EVAL_BODY_INCLUDE", .plain .pushBody, .plain (.countUp count),
    .code (handler ++ ".setBodyContent((" ++ Names.bodyContent ++ ") out);"),
    .code (handler ++ ".doInitBody();"), .close]

def popLines (handler count : String) : List Line :=
  [evalOtherThan handler "EVAL_BODY_INCLUDE", .plain .popBody, .plain (.countDown count), .close]

-- A loop ends unless the handler wants its body again.
def againLines (handler : String) (synced : List Line) : List Line :=
  List.flatten
    [[.code ("int " ++ handler ++ "_after = " ++ handler ++ ".doAfterBody();")], synced,
      [.block ("if (" ++ handler ++ "_after != " ++ Names.bodyTag ++ ".EVAL_BODY_AGAIN)"),
        .code "break;", .close, .closes "\x7d while (true);"]]

-- The body of a classic handler, which may be buffered and repeated.
def classicBody (x : Context) (body : BodyGen) (scope : Scope) (id : NodeId)
    (handler count : String) (c : Capabilities) : GenM Code := inBlock do
  let mark := x.tree.mark id
  let vars := (x.finding id).exposed
  let visible := vars.nested ++ vars.atBegin
  let loops := c.bodyBuffering || c.iteration
  let declared ← declareVariables vars.nested
  let synced ← syncVariables visible
  let opening : List Line := List.flatten
    [[evalOtherThan handler "SKIP_BODY"], declared,
      onlyIf c.bodyBuffering (pushLines handler count), onlyIf loops [.block "do"], synced]
  let inner : Scope :=
    { parent := some ⟨handler, .classic⟩, leave := scope.leave, pushCount := count }
  let inside ← body inner id
  let syncedAgain ← syncVariables visible
  let closing : List Line := List.flatten
    [onlyIf loops (againLines handler syncedAgain),
      onlyIf c.bodyBuffering (popLines handler count), [.close]]
  return Stretch.forMark mark opening :: inside ++ [Stretch.forMark mark closing]

-- What a handler that recovers from failures does behind its end: bodies pushed since its start are
-- popped.
def recovery (handler count : String) : List Line :=
  [.turns "catch (java.lang.Throwable _pagex_exception)",
    .block ("while (" ++ count ++ "[0]-- > 0)"), .plain .popBody, .close,
    .code (handler ++ ".doCatch(_pagex_exception);"), .turns "finally",
    .code (handler ++ ".doFinally();"), .close]

-- How a handler is got and made ready.
def acquireLines (scope : Scope) (tag : Tag) (handler : String) (pool : Option String) :
    List Line :=
  [.plain (.acquire tag.handlerClass handler pool),
    .code ("boolean " ++ handler ++ "_reused = false;"), .block "try",
    .code (handler ++ ".setPageContext(" ++ Names.context ++ ");"),
    .code (handler ++ ".setParent(" ++ (scope.parent.map Handle.forClassic).getD "null" ++ ");")]

def startLine (handler : String) (hasBody : Bool) : Line :=
  .code ((if hasBody then "int " ++ handler ++ "_eval = " else "") ++ handler ++ ".doStartTag();")

-- How a handler goes back to its pool, and what happens to it otherwise.
def releaseLines (handler : String) (pool : Option String) : List Line :=
  List.flatten
    [(pool.toList.flatMap fun pool =>
        [.plain (.reuse pool handler), .code (handler ++ "_reused = true;")]),
      [.turns "finally",
        .code (Names.runtime ++ ".releaseTag(" ++ handler ++ ", " ++ handler ++ "_reused);"),
        .close]]

def classicCode (x : Context) (body : BodyGen) (scope : Scope) (id : NodeId) (data : CustomAction)
    (handler : String) : GenM Code := do
  let f := x.finding id
  let mark := x.tree.mark id
  let c := data.tag.capabilities
  let hasBody := x.tree.hasContent id
  let values ← namedValues x body scope id
  let pool :=
    if x.options.poolTagHandlers then
      some (poolField data.space data.name
        (f.attributes.map ResolvedAttribute.qualifiedName) hasBody)
    else none
  addPool pool
  let attrs ← setters x body scope f handler .classic
  let count := if c.tryCatchFinally then handler ++ "_push_body_count" else scope.pushCount
  let synced ← syncVariables f.exposed.atBegin
  let start : List Line := List.flatten
    [acquireLines scope data.tag handler pool, attrs,
      onlyIf c.tryCatchFinally
        [.code ("int[] " ++ count ++ " = new int[] \x7b 0 \x7d;"), .block "try"],
      [startLine handler hasBody], synced]
  let inside ← if hasBody then classicBody x body scope id handler count c else pure []
  let syncedAgain ← syncVariables (f.exposed.atBegin ++ f.exposed.atEnd)
  let finish : List Line := List.flatten
    [[.block ("if (" ++ handler ++ ".doEndTag() == " ++ Names.tag ++ ".SKIP_PAGE)"),
      .plain (.leave scope.leave), .close],
      syncedAgain, onlyIf c.tryCatchFinally (recovery handler count), releaseLines handler pool]
  return values ++ [Stretch.forMark mark start] ++ inside ++ [Stretch.forMark mark finish]

def withoutInstance (x : Context) (id : NodeId) (data : CustomAction) : Diagnostic :=
  .internal x.tree.sources "generate"
    (data.qualifiedName ++ " has no instance id; was the page validated?") (x.tree.mark id)

-- An action in place.
def inlineCode (x : Context) (body : BodyGen) (scope : Scope) (id : NodeId) (data : CustomAction) :
    GenM Code := do
  let f := x.finding id
  match f.instanceId with
  | none => throw (withoutInstance x id data)
  | some handler =>
    let (saves, saved) ← saveVariables f.exposed data.nestingLevel
    let atBegin ← declareVariables f.exposed.atBegin
    let atEnd ← declareVariables f.exposed.atEnd
    let code ←
      if data.tag.capabilities.simple then simpleCode x body scope id data handler
      else classicCode x body scope id data handler
    let restores := saved.map fun (name, copy) => Line.plain (.restore name copy)
    return Stretch.plain (saves ++ atBegin ++ atEnd) :: code ++
      [Stretch.forMark (x.tree.mark id) restores]

def isScripting : AttributeValue → Bool
  | .scripting _ => true
  | _ => false

def isUseBean : NodeKind → Bool
  | .useBean => true
  | _ => false

-- Whether a node keeps the action around it from becoming a method of its own.
def bindsCaller (x : Context) (id : NodeId) : Bool :=
  let kind := x.tree.kind id
  let f := x.finding id
  kind.isScript || isUseBean kind || !f.exposed.isEmpty ||
    f.attributes.any fun a => isScripting a.value

def isSplittable (x : Context) (id : NodeId) : Bool :=
  (x.tree.subtree x.tree.size id).all fun n => !bindsCaller x n

def methodName (handler : String) : String :=
  match cutAt? "_pagex_th_".toList handler.toList with
  | some (before, after) => String.ofList (before ++ "_pagex_meth_".toList ++ after)
  | none => handler

-- An action as a method of its own, and the call of the method.
def splitCode (x : Context) (body : BodyGen) (scope : Scope) (id : NodeId) (data : CustomAction)
    (handler : String) : GenM Code := do
  let method := methodName handler
  let inner : Scope :=
    { parent := scope.parent.map fun p => .parameter p.kind, leave := .returnsTrue
      pushCount := Names.pushCount }
  let code ← inMethod (inlineCode x body inner id data)
  let head :=
    [Line.blank, .opens (.method method),
      .code (Names.writer ++ " out = " ++ Names.context ++ ".getOut();")]
  let tail := [Line.code "return false;", .close]
  modify fun s =>
    { s with methods := s.methods ++ [Stretch.plain head :: code ++ [Stretch.plain tail]] }
  let parent := (scope.parent.map Handle.expr).getD "null"
  return [.forMark (x.tree.mark id)
    [.opens (.call method parent scope.pushCount), .plain (.leave scope.leave), .close]]

def customCode (x : Context) (body : BodyGen) (scope : Scope) (id : NodeId) (data : CustomAction) :
    GenM Code :=
  match (x.finding id).instanceId with
  | some handler =>
    if x.options.splitMethods && isSplittable x id then splitCode x body scope id data handler
    else inlineCode x body scope id data
  | none => inlineCode x body scope id data

end PageCompiler.ClassText
