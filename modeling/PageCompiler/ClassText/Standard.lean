import PageCompiler.ClassText.Content

namespace PageCompiler.ClassText

open Text

def literalOf (f : Finding) (name : String) : Option String :=
  (f.attribute? name).bind fun a => a.value.literal?

def scopeConstant : String → String
  | "request" => "REQUEST_SCOPE"
  | "session" => "SESSION_SCOPE"
  | "application" => "APPLICATION_SCOPE"
  | _ => "PAGE_SCOPE"

-- The object whose monitor guards the making of a bean.
def scopeLock : String → String
  | "request" => Names.context ++ ".getRequest()"
  | "session" => Names.context ++ ".getSession()"
  | "application" => Names.context ++ ".getServletContext()"
  | _ => Names.context

-- How a bean is made that is not there yet.
def makeBean (x : Context) (f : Finding) (name typeName : String) : GenM Line := do
  match f.attribute? "beanName", literalOf f "class" with
  | some beanName, _ => return .plain (.instantiate name typeName (← stringValue x beanName))
  | none, some className => return .code (name ++ " = new " ++ className ++ "();")
  | none, none =>
    return .code ("throw new java.lang.InstantiationException(" ++
      quote ("bean " ++ name ++ " not found within scope") ++ ");")

def useBeanCode (x : Context) (body : BodyGen) (scope : Scope) (id : NodeId) : GenM Code := do
  let f := x.finding id
  let mark := x.tree.mark id
  let values ← namedValues x body scope id
  let name := (literalOf f "id").getD ""
  let beanScope := (literalOf f "scope").getD "page"
  let typeName := ((literalOf f "type").or (literalOf f "class")).getD "java.lang.Object"
  let constant := Names.pageContext ++ "." ++ scopeConstant beanScope
  let declaration := if ← declareName name then [Line.plain (.declare typeName name)] else []
  let made ← makeBean x f name typeName
  let opening := declaration ++
    [Line.block ("synchronized (" ++ scopeLock beanScope ++ ")"),
      .code (name ++ " = (" ++ typeName ++ ") " ++ Names.context ++ ".getAttribute(" ++
        quote name ++ ", " ++ constant ++ ");"),
      .block ("if (" ++ name ++ " == null)"), made,
      .code (Names.context ++ ".setAttribute(" ++ quote name ++ ", " ++ name ++ ", " ++ constant ++
        ");")]
  let inside ← if x.tree.hasContent id then inBlock (body scope id) else pure []
  return values ++ [Stretch.forMark mark opening] ++ inside ++
    [Stretch.forMark mark [.close, .close]]

-- A property value keeps its type where it can.
def propertyValue (x : Context) (a : ResolvedAttribute) : GenM Operand := do
  match a.value with
  | .scripting code => return .code (trimmed code)
  | .expression _ parts _ => evaluate x parts.sourceText parts.functions "java.lang.Object"
  | _ => stringValue x a

def setPropertyCode (x : Context) (body : BodyGen) (scope : Scope) (id : NodeId) : GenM Code := do
  let f := x.finding id
  let values ← namedValues x body scope id
  let bean := (literalOf f "name").getD ""
  let property := (literalOf f "property").getD ""
  let line ←
    if property = "*" then
      pure (Line.code (Names.runtime ++ ".introspect(" ++ lookupBean bean ++ ", " ++
        Names.context ++ ".getRequest());"))
    else
      match f.attribute? "value" with
      | some a => pure (.plain (.setProperty bean property (← propertyValue x a)))
      | none =>
        let param := (literalOf f "param").getD property
        pure (.code (Names.runtime ++ ".setPropertyFromParameter(" ++ lookupBean bean ++ ", " ++
          quote property ++ ", " ++ Names.context ++ ".getRequest(), " ++ quote param ++ ");"))
  return values ++ [Stretch.forMark (x.tree.mark id) [line]]

-- The property of a bean whose class is known is got by its getter.
def getPropertyCode (x : Context) (id : NodeId) : GenM Code := do
  let f := x.finding id
  let bean := (literalOf f "name").getD ""
  let property := (literalOf f "property").getD ""
  let value :=
    match x.checked.beans.classOf? bean with
    | some className =>
      "(((" ++ className ++ ") " ++ lookupBean bean ++ ")." ++ getterName property ++ "())"
    | none =>
      Names.runtime ++ ".getProperty(" ++ lookupBean bean ++ ", " ++ quote property ++ ")"
  return [Stretch.forMark (x.tree.mark id)
    [.code ("out.write(" ++ Names.runtime ++ ".toString(" ++ value ++ "));")]]

-- The statements and the name and value operands of one parameter.
def paramCode (x : Context) (body : BodyGen) (scope : Scope) (id : NodeId) :
    GenM (Code × List Operand) := do
  let values ← namedValues x body scope id
  let f := x.finding id
  let name ← stringOf x f "name"
  let value ← stringOf x f "value"
  return (values, [name, value])

-- The parameters of an action, in its body or in groups in its body.
def paramsCode (x : Context) (body : BodyGen) (scope : Scope) :
    Nat → NodeId → GenM (Code × List Operand)
  | 0, _ => return ([], [])
  | fuel + 1, id => do
    let parts ← (x.tree.children id).mapM fun child =>
      match x.tree.kind child with
      | .param => paramCode x body scope child
      | .params => paramsCode x body scope fuel child
      | _ => return ([], [])
    return ((parts.map Prod.fst).flatten, (parts.map Prod.snd).flatten)

def allParams (x : Context) (body : BodyGen) (scope : Scope) (id : NodeId) :
    GenM (Code × List Operand) :=
  paramsCode x body scope x.tree.size id

def includeCode (x : Context) (body : BodyGen) (scope : Scope) (id : NodeId) : GenM Code := do
  let f := x.finding id
  let values ← namedValues x body scope id
  let (paramValues, params) ← allParams x body scope id
  let page ← stringOf x f "page"
  let flush := literalOf f "flush" == some "true"
  return values ++ paramValues ++
    [Stretch.forMark (x.tree.mark id) [.plain (.includePage page params flush)]]

def forwardCode (x : Context) (body : BodyGen) (scope : Scope) (id : NodeId) : GenM Code := do
  let f := x.finding id
  let values ← namedValues x body scope id
  let (paramValues, params) ← allParams x body scope id
  let page ← stringOf x f "page"
  return values ++ paramValues ++
    [Stretch.forMark (x.tree.mark id)
      [.block "if (true)", .plain (.forwardPage page params), .plain (.leave scope.leave), .close]]

def isFallback : NodeKind → Bool
  | .fallback => true
  | _ => false

-- Writes what a method of the runtime returns.
def pluginLine (method : String) : Line :=
  .code ("out.write(" ++ Names.runtime ++ method ++ "());")

def fallbackCode (x : Context) (body : BodyGen) (scope : Scope) (id : NodeId) : GenM Code := do
  match (x.tree.children id).find? fun c => isFallback (x.tree.kind c) with
  | none => return []
  | some fallback =>
    let mark := x.tree.mark fallback
    let inside ← body scope fallback
    return Stretch.forMark mark [pluginLine ".pluginFallbackStart"] :: inside ++
      [Stretch.forMark mark [pluginLine ".pluginFallbackEnd"]]

-- Attributes that are not handed on as they are.
def isPluginName (name : String) : Bool := ["type", "code", "codebase"].contains name

def pluginCode (x : Context) (body : BodyGen) (scope : Scope) (id : NodeId) : GenM Code := do
  let f := x.finding id
  let mark := x.tree.mark id
  let values ← namedValues x body scope id
  let (paramValues, params) ← allParams x body scope id
  let others := f.attributes.filter fun a => !isPluginName a.name
  let extra ← others.mapM fun a => do
    return [.code (quote a.name), ← stringValue x a]
  let kind ← stringOf x f "type"
  let className ← stringOf x f "code"
  let base ← stringOf x f "codebase"
  let fallback ← fallbackCode x body scope id
  return values ++ paramValues ++
    [Stretch.forMark mark [.plain (.startPlugin kind className base extra.flatten params)]] ++
    fallback ++ [Stretch.forMark mark [pluginLine ".pluginEnd"]]

def omitsEmpty (x : Context) (a : ResolvedAttribute) : Bool :=
  match a.value with
  | .named id =>
    match x.tree.kind id with
    | .named data => data.omitEmpty
    | _ => false
  | _ => false

def elementAttribute (x : Context) (a : ResolvedAttribute) : GenM (List Line) := do
  let value ← stringValue x a
  let lines : List Line :=
    [.plain (.write (.code (quote (" " ++ a.qualifiedName ++ "=\"")))),
      .plain (.writeEscaped value), .plain (.write (.code "'\"'"))]
  if omitsEmpty x a then
    return [Line.block ("if (" ++ value.text ++ " != null && !" ++ value.text ++ ".isEmpty())")] ++
      lines ++ [.close]
  return lines

def elementCode (x : Context) (body : BodyGen) (scope : Scope) (id : NodeId) : GenM Code := do
  let f := x.finding id
  let mark := x.tree.mark id
  let values ← namedValues x body scope id
  let name ← stringOf x f "name"
  let element ← freshTemporary
  let attrs ← (f.attributes.filter fun a => a.name != "name").mapM (elementAttribute x)
  let opening : List Line :=
    [Line.plain (.hold element name), .plain (.write (.code "'<'")),
      .plain (.write (.code element))] ++ attrs.flatten
  if x.tree.hasContent id then
    let inside ← body scope id
    return values ++ [Stretch.forMark mark (opening ++ [Line.plain (.write (.code "'>'"))])] ++
      inside ++
      [Stretch.forMark mark
        [.plain (.write (.code "\"</\"")), .plain (.write (.code element)),
          .plain (.write (.code "'>'"))]]
  return values ++ [Stretch.forMark mark (opening ++ [Line.plain (.write (.code "\"/>\""))])]

end PageCompiler.ClassText
