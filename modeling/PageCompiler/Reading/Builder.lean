import PageCompiler.Library.Resolver
import PageCompiler.Page.Bindings
import PageCompiler.Source.Loader

-- A failure leaves behind the state it was met in, so that what has been resolved by then is kept.
namespace PageCompiler

open Text

structure Builder where
  tree : Tree
  bindings : Bindings := {}
  resolver : Resolver
  -- Which expressions the text still to be read may hold.
  scan : ScanOptions
  -- Blank text is taken out in the end.
  trimBlanks : Bool
  -- The units being read, innermost first.
  units : List String := []

abbrev BuildM := EStateM Diagnostic Builder

-- Reads another unit under a node: the name as it is written, why it is read, and where.
abbrev Includer := NodeId → String → UnitOrigin → Mark → BuildM NodeId

namespace Builder

def ofOptions (o : Options) (tree : Tree) (resolver : Resolver) : Builder :=
  { tree, resolver
    scan := { deferredAsLiteral := o.deferredAsLiteral, ignoreExpressions := o.elIgnored }
    trimBlanks := o.trimDirectiveWhitespaces }

def fail (fault : Fault) (mark : Mark) : BuildM α := do
  throw ((← get).tree.fault "parse" fault mark)

-- Gives a diagnostic without a place the place from which the trouble was met.
def placed (mark : Mark) (d : Diagnostic) : BuildM α := do
  match d.mark with
  | some _ => throw d
  | none => throw { (← get).tree.fault "parse" d.fault mark with help := d.help }

def placeError (mark : Mark) : Except Diagnostic α → BuildM α
  | .ok a => pure a
  | .error d => placed mark d

def append (parent : NodeId) (n : Node) : BuildM NodeId :=
  modifyGet fun b =>
    match b.tree.append parent n with
    | (id, tree) => (id, { b with tree })

def modifyTree (f : Tree → Tree) : BuildM Unit := modify fun b => { b with tree := f b.tree }

def modifyBindings (f : Bindings → Bindings) : BuildM Unit :=
  modify fun b => { b with bindings := f b.bindings }

-- The nodes of a value's parts. A text stands behind the expression in front of it.
def partNodes (mark : Mark) (text : List Char) : Nat → List Part → List Node
  | _, [] => []
  | consumed, .text value :: parts =>
    { kind := .text (.ofText value), mark := mark.advance (takeBytes consumed text) } ::
      partNodes mark text consumed parts
  | _, .expr dialect source tree offset :: parts =>
    { kind := .insert { dialect, source, tree }, mark := mark.advance (takeBytes offset text) } ::
      partNodes mark text (offset + source.utf8ByteSize + 3) parts

-- Template text that may hold expressions.
def addText (parent : NodeId) (text : List Char) (mark : Mark) : BuildM Unit := do
  if text.isEmpty then return
  match Composite.parse (← get).scan text with
  | .error e =>
    fail (.invalidExpression e.expression e.reason.text) (mark.advance (takeBytes e.offset text))
  | .ok composite =>
    for n in partNodes mark text 0 composite.parts do
      discard (append parent n)

-- Template text taken as it is.
def addVerbatim (parent : NodeId) (text : List Char) (mark : Mark) : BuildM Unit := do
  unless text.isEmpty do
    discard (append parent { kind := .text (.ofChars text), mark })

def addComment (parent : NodeId) (text : List Char) (mark : Mark) : BuildM Unit :=
  discard (append parent { kind := .comment (String.ofList text), mark })

def addScript (parent : NodeId) (kind : ScriptKind) (code : Script) (mark : Mark) :
    BuildM NodeId :=
  append parent
    { kind := .script kind code, mark, name := kind.elementName
      body := if code = .children then some [] else none }

def standardSpace : String := "jsp"

-- Prefixes that stand for no library.
def reserved : List String := ["jsp", "jspx", "java", "javax", "servlet", "sun", "sunw"]

def invalidDirective (reason : String) (mark : Mark) : BuildM α :=
  fail (.invalidDirective reason) mark

-- Binds a prefix for the rest of the page. It may be bound again to the same library only.
def bindSpace (space : String) (ref : LibraryRef) (mark : Mark) : BuildM Unit := do
  if reserved.contains space then
    invalidDirective ("prefix '" ++ space ++ "' is reserved") mark
  match (← get).bindings.get? space with
  | some earlier =>
    unless earlier.ref = ref do
      invalidDirective
        ("prefix '" ++ space ++ "' is already bound to '" ++ earlier.ref.written ++ "'") mark
  | none => modifyBindings (·.bind space ⟨ref, mark⟩)

def resolve (ref : LibraryRef) (mark : Mark) : BuildM (Option Library) := do
  let found ← modifyGet fun b =>
    match b.resolver.resolve ref with
    | (found, resolver) => (found, { b with resolver })
  placeError mark found

-- Binds a prefix if the reference names a library, and says whether it does.
def bindNamespace (space : String) (ref : LibraryRef) (mark : Mark) : BuildM Bool := do
  if ((← get).bindings.libraries.lookup ref.key).isNone then
    match ← resolve ref mark with
    | none => return false
    | some library => modifyBindings (·.addLibrary ref.key library)
  bindSpace space ref mark
  return true

-- The library of a prefix, which is resolved when it is first used.
def libraryOf (space : String) (mark : Mark) : BuildM Library := do
  let bindings := (← get).bindings
  match bindings.get? space with
  | none => fail (.unknownAction (space ++ ":*")) mark
  | some binding =>
    match bindings.libraries.lookup binding.ref.key with
    | some library => return library
    | none =>
      match ← resolve binding.ref binding.mark with
      | none => fail (.libraryNotFound binding.ref.written) binding.mark
      | some library =>
        modifyBindings (·.addLibrary binding.ref.key library)
        return library

-- The first attribute whose name was given before.
def repeated? : List Attribute → List Attribute → Option Attribute
  | _, [] => none
  | earlier, a :: rest =>
    if earlier.any fun b => b.name == a.name then some a else repeated? (earlier ++ [a]) rest

def checkDistinct (action : String) (attrs : List Attribute) : BuildM Unit := do
  match repeated? [] attrs with
  | some a => fail (.invalidAttributeValue action a.name "is given more than once") a.mark
  | none => return

def required (action : String) (attrs : List Attribute) (name : String) (mark : Mark) :
    BuildM String := do
  match Attribute.find? attrs name with
  | some value => return value
  | none => fail (.missingAttribute action name) mark

-- Some attributes of a page directive change how the rest of the page is read.
def applyPageAttribute (b : Builder) (a : Attribute) : Builder :=
  let on := isTrue a.value
  match a.name with
  | "isELIgnored" => { b with scan := { b.scan with ignoreExpressions := on } }
  | "deferredSyntaxAllowedAsLiteral" => { b with scan := { b.scan with deferredAsLiteral := on } }
  | "trimDirectiveWhitespaces" => { b with trimBlanks := on }
  | _ => b

def libraryRef (attrs : List Attribute) (mark : Mark) : BuildM LibraryRef := do
  match Attribute.find? attrs "uri", Attribute.find? attrs "tagdir" with
  | some uri, none => return .uri uri
  | none, some directory => return .tagDirectory directory
  | some _, some _ => invalidDirective "taglib takes either 'uri' or 'tagdir', not both" mark
  | none, none => fail (.missingAttribute "jsp:directive.taglib" "uri") mark

def addDirective (includeUnit : Includer) (parent : NodeId) (name : String)
    (attrs : List Attribute) (mark : Mark) : BuildM NodeId := do
  let action := "jsp:directive." ++ name
  checkDistinct action attrs
  match name with
  | "page" =>
    modify fun b => attrs.foldl applyPageAttribute b
    append parent { kind := .pageDirective, mark, name := action, attributes := attrs }
  | "taglib" =>
    let space ← required action attrs "prefix" mark
    let ref ← libraryRef attrs mark
    bindSpace space ref mark
    append parent { kind := .taglibDirective, mark, name := action, attributes := attrs }
  | "include" =>
    let file ← required action attrs "file" mark
    let id ← append parent
      { kind := .includeDirective, mark, name := action, attributes := attrs, body := some [] }
    discard (includeUnit id file .included mark)
    return id
  | "tag" | "attribute" | "variable" =>
    invalidDirective ("the " ++ name ++ " directive is only valid in tag files") mark
  | other => invalidDirective ("unknown directive '" ++ other ++ "'") mark

-- The node kind of a standard action. Some of them are for documents only, and the root element
-- stands directly below a unit.
def standardKind (parent : NodeId) (name : String) (attrs : List Attribute) (mark : Mark)
    (form : UnitForm) : BuildM NodeKind := do
  let action := standardSpace ++ ":" ++ name
  match name with
  | "useBean" => return .useBean
  | "setProperty" => return .setProperty
  | "getProperty" => return .getProperty
  | "forward" => return .forward
  | "include" => return .includeAction
  | "param" => return .param
  | "params" => return .params
  | "plugin" => return .plugin
  | "fallback" => return .fallback
  | "element" => return .element
  | "body" => return .body
  | "text" => return .jspText
  | "attribute" =>
    let value ← required action attrs "name" mark
    return .named
      { name := value
        trim := Attribute.find? attrs "trim" != some "false"
        omitEmpty := Attribute.find? attrs "omit" == some "true" }
  | "output" => if form = .strict then return .output else fail (.unknownAction action) mark
  | "root" =>
    if form = .strict && ((← get).tree.kind parent).isRoot then return .xmlRoot
    else fail (.unknownAction action) mark
  | _ => fail (.unknownAction action) mark

def customKind (parent : NodeId) (space name : String) (mark : Mark) : BuildM NodeKind := do
  let library ← libraryOf space mark
  match library.tag? name with
  | none => fail (.unknownAction (space ++ ":" ++ name)) mark
  | some tag =>
    return .custom
      { space, name, uri := library.uri, tag, library
        nestingLevel := (← get).tree.nestingLevel parent (space ++ ":" ++ name) }

-- Makes the node of an action, which has no body yet.
def startAction (parent : NodeId) (name : String) (attrs : List Attribute) (mark : Mark)
    (form : UnitForm) : BuildM NodeId := do
  checkDistinct name attrs
  let (space, inner) := (cutString? ':' name).getD ("", name)
  let kind ←
    if space = standardSpace then standardKind parent inner attrs mark form
    else customKind parent space inner mark
  append parent { kind, mark, name, attributes := attrs }

-- What the tag of a custom action accepts as body.
def bodyContent? (t : Tree) (id : NodeId) : Option BodyContent :=
  (t.kind id).custom?.map fun data => data.tag.bodyContent

-- Takes blanks off the start of the first child and the end of the last.
def trimBody (t : Tree) (id : NodeId) : Tree :=
  let ids := t.children id
  let t := ids.head?.elim t fun first => t.modifyText first TextRun.trimStart
  ids.getLast?.elim t fun last => t.modifyText last TextRun.trimEnd

def removeBlanks (t : Tree) (id : NodeId) : Tree :=
  (t.children id).foldl
    (fun t child => if (t.kind child).isBlankText then t.removeChild id child else t) t

def isNamedOrBody : NodeKind → Bool
  | .named _ | .body => true
  | _ => false

-- What is checked and tidied when an element closes: next to named attributes a body stands in an
-- element of its own, and some actions take no body at all.
def finishElement (id : NodeId) : BuildM Unit := do
  let t := (← get).tree
  if (t.children id).any fun c => (t.kind c).isNamed then
    modifyTree (removeBlanks · id)
    let t := (← get).tree
    match (t.children id).find? fun c => !isNamedOrBody (t.kind c) with
    | some stray =>
      fail (.bodyContentViolation (t.node id).name
        "must be given through <jsp:body> when named attributes are used") (t.mark stray)
    | none => pure ()
  let t := (← get).tree
  if bodyContent? t id = some .empty then
    match (t.children id).find? fun c => !(t.kind c).isNamed with
    | some content =>
      fail (.bodyContentViolation (t.node id).name "must be empty") (t.mark content)
    | none => pure ()
  match t.kind id with
  | .named data => if data.trim then modifyTree (trimBody · id)
  | _ => pure ()

-- Takes blank text out of every body but those of text elements.
def prune (t : Tree) : Tree :=
  t.preorder.foldl
    (fun t id =>
      match t.kind id with
      | .jspText => t
      | _ => removeBlanks t id)
    t

-- Resolves the libraries of all prefixes, in their order, and trims.
def finish : BuildM Page := do
  for (space, binding) in (← get).bindings.spaces do
    discard (libraryOf space binding.mark)
  let b ← get
  return { tree := if b.trimBlanks then prune b.tree else b.tree, bindings := b.bindings }

end Builder
end PageCompiler
