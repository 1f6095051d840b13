import PageCompiler.Diagnostic
import PageCompiler.Expression.Composite
import PageCompiler.Library.Contract
import PageCompiler.Source.Encoding
import PageCompiler.Text.Blank
import PageCompiler.Text.Size

-- Nodes are numbered in the order they are made; a node is always made under an existing parent, so
-- that its number is above the parent's.
namespace PageCompiler

section

open Text

-- Trimming a run at the front keeps count of the line feeds it takes away, so that what is left is
-- still known to stand on its own lines of the source.
structure TextRun where
  text : String
  -- The bytes of the text at which its line feeds stand.
  lineDeltas : List Nat
  -- Line feeds taken away in front of the text.
  leadingLines : Nat := 0
  deriving DecidableEq, Repr, Inhabited

namespace TextRun

def ofText (text : String) : TextRun := { text, lineDeltas := newlines text.toList }

def ofChars (s : List Char) : TextRun := ofText (String.ofList s)

def isBlank (r : TextRun) : Bool := blank r.text

def trimStart (r : TextRun) : TextRun :=
  let chars := r.text.toList
  let kept := Text.trimStart chars
  { text := String.ofList kept
    lineDeltas := newlines kept
    leadingLines := r.leadingLines + countNewlines (chars.takeWhile Text.isBlank) }

def trimEnd (r : TextRun) : TextRun :=
  let text := trimmedEnd r.text
  { r with text, lineDeltas := newlines text.toList }

def append (r : TextRun) (more : String) : TextRun :=
  let text := r.text ++ more
  { r with text, lineDeltas := newlines text.toList }

end TextRun
end

abbrev NodeId := Nat

-- How a unit is written.
inductive UnitForm where
  -- Template text with `<% %>` constructs and actions in it.
  | relaxed
  -- A well-formed XML document.
  | strict
  deriving DecidableEq, Repr, Inhabited

def UnitForm.name : UnitForm → String
  | relaxed => "Relaxed"
  | strict => "Strict"

-- Why a unit is part of the page.
inductive UnitOrigin where
  | page
  | included
  | prelude
  | coda
  deriving DecidableEq, Repr, Inhabited

def UnitOrigin.name : UnitOrigin → String
  | page => "Page"
  | included => "Include"
  | prelude => "Prelude"
  | coda => "Coda"

structure UnitRoot where
  unit : String
  form : UnitForm
  origin : UnitOrigin
  encoding : EncodingInfo
  -- The root of the unit that includes this one.
  parentRoot : Option NodeId
  deriving Repr, Inhabited

-- The code of a scripting element: held here, or the text of the element's children.
inductive Script where
  | inline (text : String)
  | children
  deriving DecidableEq, Repr, Inhabited

inductive ScriptKind where
  | declaration
  | expression
  | scriptlet
  deriving DecidableEq, Repr

-- An expression in template text.
structure Insert where
  dialect : Dialect
  source : String
  tree : Expr
  deriving Repr, Inhabited

-- An attribute given as an element.
structure NamedAttribute where
  name : String
  trim : Bool
  -- Left out when its value turns out empty.
  omitEmpty : Bool
  deriving DecidableEq, Repr, Inhabited

structure CustomAction where
  space : String
  name : String
  uri : String
  tag : Tag
  library : Library
  -- How many actions of the same name enclose this one.
  nestingLevel : Nat
  deriving Inhabited

def CustomAction.qualifiedName (a : CustomAction) : String := a.space ++ ":" ++ a.name

inductive NodeKind where
  | root (data : UnitRoot)
  | xmlRoot
  | pageDirective
  | includeDirective
  | taglibDirective
  | comment (text : String)
  | script (kind : ScriptKind) (code : Script)
  | insert (data : Insert)
  | text (run : TextRun)
  | useBean
  | setProperty
  | getProperty
  | forward
  | includeAction
  | param
  | params
  | plugin
  | fallback
  | element
  | body
  | jspText
  | output
  | named (data : NamedAttribute)
  | custom (data : CustomAction)
  -- An element that is no action.
  | uninterpreted
  deriving Inhabited

def ScriptKind.label : ScriptKind → String
  | declaration => "Declaration"
  | expression => "Expression"
  | scriptlet => "Scriptlet"

def ScriptKind.elementName : ScriptKind → String
  | declaration => "jsp:declaration"
  | expression => "jsp:expression"
  | scriptlet => "jsp:scriptlet"

namespace NodeKind

def label : NodeKind → String
  | root _ => "Root"
  | xmlRoot => "XmlRoot"
  | pageDirective => "PageDirective"
  | includeDirective => "IncludeDirective"
  | taglibDirective => "TaglibDirective"
  | comment _ => "Comment"
  | script kind _ => kind.label
  | insert _ => "ElInsert"
  | text _ => "TemplateText"
  | useBean => "UseBean"
  | setProperty => "SetProperty"
  | getProperty => "GetProperty"
  | forward => "Forward"
  | includeAction => "Include"
  | param => "Param"
  | params => "Params"
  | plugin => "Plugin"
  | fallback => "Fallback"
  | element => "Element"
  | body => "Body"
  | jspText => "Text"
  | output => "Output"
  | named _ => "NamedAttribute"
  | custom _ => "CustomAction"
  | uninterpreted => "Uninterpreted"

def isScript : NodeKind → Bool
  | script .. => true
  | _ => false

def isRoot : NodeKind → Bool
  | root _ => true
  | _ => false

def isNamed : NodeKind → Bool
  | named _ => true
  | _ => false

-- Standard and custom actions.
def isAction : NodeKind → Bool
  | useBean | setProperty | getProperty | forward | includeAction | param | params | plugin
  | fallback | element | body | jspText | output | named _ | custom _ => true
  | _ => false

def run? : NodeKind → Option TextRun
  | text run => some run
  | _ => none

def custom? : NodeKind → Option CustomAction
  | custom data => some data
  | _ => none

def root? : NodeKind → Option UnitRoot
  | root data => some data
  | _ => none

def insert? : NodeKind → Option Insert
  | insert data => some data
  | _ => none

theorem root?_eq_some {kind : NodeKind} {data : UnitRoot} :
    kind.root? = some data ↔ kind = root data := by
  cases kind <;> simp [root?]

theorem custom?_eq_some {kind : NodeKind} {data : CustomAction} :
    kind.custom? = some data ↔ kind = custom data := by
  cases kind <;> simp [custom?]

theorem run?_eq_some {kind : NodeKind} {run : TextRun} :
    kind.run? = some run ↔ kind = text run := by
  cases kind <;> simp [run?]

theorem insert?_eq_some {kind : NodeKind} {data : Insert} :
    kind.insert? = some data ↔ kind = insert data := by
  cases kind <;> simp [insert?]

-- Text of blanks only.
def isBlankText : NodeKind → Bool
  | text run => run.isBlank
  | _ => false

end NodeKind

-- An attribute as it is written.
structure Attribute where
  -- With the prefix, when it has one.
  name : String
  value : String
  -- The whole value is raw code.
  scripting : Bool := false
  mark : Mark
  deriving DecidableEq, Repr, Inhabited

namespace Attribute

def localName (a : Attribute) : String :=
  ((Text.cutString? ':' a.name).map Prod.snd).getD a.name

def space? (a : Attribute) : Option String := (Text.cutString? ':' a.name).map Prod.fst

-- The value of the first attribute of a name.
def find? (attrs : List Attribute) (name : String) : Option String :=
  (attrs.find? fun a => a.name == name).map Attribute.value

end Attribute

structure Node where
  kind : NodeKind
  mark : Mark
  -- The qualified name of an element.
  name : String := ""
  attributes : List Attribute := []
  parent : Option NodeId := none
  -- The children in order; nothing when the element has no body.
  body : Option (List NodeId) := none
  deriving Inhabited

def Node.children (n : Node) : List NodeId := n.body.getD []

def Node.value? (n : Node) (name : String) : Option String := Attribute.find? n.attributes name

structure Tree where
  nodes : Array Node
  sources : Sources
  deriving Inhabited

namespace Tree

-- A tree with nothing but the root of the outermost unit.
def ofRoot (root : UnitRoot) (text : String) : Tree :=
  { nodes := #[{ kind := .root root, mark := .start root.unit, body := some [] }]
    sources := Sources.insert [] root.unit text }

def root : NodeId := 0

def size (t : Tree) : Nat := t.nodes.size

def node (t : Tree) (id : NodeId) : Node := t.nodes.getD id default

def kind (t : Tree) (id : NodeId) : NodeKind := (t.node id).kind

def mark (t : Tree) (id : NodeId) : Mark := (t.node id).mark

def children (t : Tree) (id : NodeId) : List NodeId := (t.node id).children

def parent (t : Tree) (id : NodeId) : Option NodeId := (t.node id).parent

def modify (t : Tree) (id : NodeId) (f : Node → Node) : Tree :=
  { t with nodes := t.nodes.modify id f }

-- Makes a node the last child of its parent, and gives its number.
def append (t : Tree) (parent : NodeId) (n : Node) : NodeId × Tree :=
  let id := t.size
  let t := t.modify parent fun p => { p with body := some (p.children ++ [id]) }
  (id, { t with nodes := t.nodes.push { n with parent := some parent } })

-- Gives a node an empty body unless it has one.
def openBody (t : Tree) (id : NodeId) : Tree :=
  t.modify id fun n => { n with body := some n.children }

-- Takes a child out of a body. The node itself stays, out of reach.
def removeChild (t : Tree) (parent child : NodeId) : Tree :=
  t.modify parent fun n => { n with body := n.body.map fun ids => ids.filter (· != child) }

def modifyText (t : Tree) (id : NodeId) (f : TextRun → TextRun) : Tree :=
  t.modify id fun n =>
    match n.kind with
    | .text run => { n with kind := .text (f run) }
    | _ => n

def addSource (t : Tree) (unit text : String) : Tree :=
  { t with sources := t.sources.insert unit text }

-- A fault at a place of the page.
def fault (t : Tree) (phase : String) (fault : Fault) (mark : Mark) : Diagnostic :=
  .place t.sources phase fault mark

-- The nodes above a node, innermost first. A parent's number is always the smaller one.
def ancestors (t : Tree) (id : NodeId) : List NodeId :=
  match t.parent id with
  | some p => if p < id then p :: t.ancestors p else []
  | none => []
termination_by id

def selfAndAncestors (t : Tree) (id : NodeId) : List NodeId := id :: t.ancestors id

-- How many custom actions of this name a node below `parent` stands in.
def nestingLevel (t : Tree) (parent : NodeId) (name : String) : Nat :=
  (t.selfAndAncestors parent).countP fun id =>
    match t.kind id with
    | .custom data => data.qualifiedName == name
    | _ => false

-- The root of the unit a node belongs to.
def unitRoot (t : Tree) (id : NodeId) : NodeId :=
  ((t.selfAndAncestors id).find? fun a => (t.kind a).isRoot).getD root

-- Whether a node has more in its body than named attributes and blank text.
def hasContent (t : Tree) (id : NodeId) : Bool :=
  (t.children id).any fun c =>
    match t.kind c with
    | .named _ => false
    | .text run => !run.isBlank
    | _ => true

-- The code of a scripting element, however it was written.
def scriptText? (t : Tree) (id : NodeId) : Option String :=
  match t.kind id with
  | .script _ (.inline text) => some text
  | .script _ .children =>
    some (String.join ((t.children id).filterMap fun c => (t.kind c).run?.map TextRun.text))
  | _ => none

def scriptText (t : Tree) (id : NodeId) : String := (t.scriptText? id).getD ""

-- Takes nodes from a stack and puts the children of those that are entered on it, until `fuel`
-- nodes have been taken.
def walk (t : Tree) (enter : NodeKind → Bool) : Nat → List NodeId → List NodeId
  | 0, _ => []
  | _ + 1, [] => []
  | fuel + 1, id :: stack =>
    id :: t.walk enter fuel ((if enter (t.kind id) then t.children id else []) ++ stack)

-- The nodes that can be reached from the root through entered nodes, in document order. No node
-- is reached twice, so the number of nodes bounds the walk.
def entered (t : Tree) (enter : NodeKind → Bool) : List NodeId := t.walk enter t.size [root]

-- Every node that can be reached from the root, in document order.
def preorder (t : Tree) : List NodeId := t.entered fun _ => true

-- The nodes of a subtree in document order, down to the given depth.
def subtree (t : Tree) : Nat → NodeId → List NodeId
  | 0, id => [id]
  | depth + 1, id => id :: (t.children id).flatMap (t.subtree depth)

end Tree
end PageCompiler
