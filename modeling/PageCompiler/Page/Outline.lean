import PageCompiler.Page.Findings
import PageCompiler.Page.Tree
import PageCompiler.Text.Printable

-- A subtree as indented text, one node a line, and an outline of a page that does not show in which
-- form its units are written: document roots are flattened, blank text is left out, neighbouring
-- texts are one, and attributes are shown with the kinds of their values once these are known.
namespace PageCompiler.Tree

open Text

def indent (depth : Nat) : String := String.join (List.replicate depth "  ")

-- The nodes of a subtree in document order, each with its depth. Children have greater numbers
-- than their parent, so that no subtree is deeper than there are nodes.
def layers (t : Tree) : Nat → Nat → NodeId → List (Nat × NodeId)
  | 0, depth, id => [(depth, id)]
  | fuel + 1, depth, id => (depth, id) :: (t.children id).flatMap (t.layers fuel (depth + 1))

def withDepth (t : Tree) (id : NodeId) : List (Nat × NodeId) := t.layers t.size 0 id

def nameText (n : Node) : String := if n.name.isEmpty then "" else " <" ++ n.name ++ ">"

def detail : NodeKind → String
  | .root data => " " ++ data.unit ++ " " ++ data.form.name
  | .text run => " " ++ Quoted.encode run.text
  | .insert data => " " ++ data.dialect.enclose data.source
  | .script _ (.inline code) => " " ++ Quoted.encode code
  | .custom data =>
    if data.nestingLevel > 0 then " level=" ++ toString data.nestingLevel else ""
  | _ => ""

def describe (n : Node) : String :=
  n.kind.label ++ nameText n ++ detail n.kind ++
    String.join (n.attributes.map fun a => " " ++ a.name ++ "=" ++ Quoted.encode a.value) ++
    " @" ++ toString n.mark.line ++ ":" ++ toString n.mark.column

def dump (t : Tree) (id : NodeId) : String :=
  String.join ((t.withDepth id).map fun (depth, id) =>
    indent depth ++ describe (t.node id) ++ "\n")

inductive OutlineLine where
  | node (depth : Nat) (label : String)
  | text (depth : Nat) (text : String)
  deriving DecidableEq, Repr

-- Adds a line to those before it, which are held in reverse.
def addLine (before : List OutlineLine) : OutlineLine → List OutlineLine
  | .node depth label => .node depth label :: before
  | .text depth text =>
    match before with
    | .text d earlier :: rest =>
      if d = depth then .text d (earlier ++ text) :: rest
      else if blank text then before
      else .text depth text :: before
    | _ => if blank text then before else .text depth text :: before

def outlineLabel (t : Tree) (findings : Findings) (id : NodeId) : String :=
  let n := t.node id
  let insert :=
    match n.kind with
    | .insert data => " " ++ data.dialect.enclose (trimmed data.source)
    | _ => ""
  n.kind.label ++ nameText n ++ insert ++
    String.join ((findings.get id).attributes.map fun a =>
      " " ++ a.name ++ ":" ++ a.value.kindName)

-- The lines of a subtree before neighbouring texts are joined.
def outlineFrom (t : Tree) (findings : Findings) : Nat → Nat → NodeId → List OutlineLine
  | 0, _, _ => []
  | fuel + 1, depth, id =>
    let inside (depth : Nat) := (t.children id).flatMap (t.outlineFrom findings fuel depth)
    match t.kind id with
    | .root _ => if id = root then .node depth "Root" :: inside (depth + 1) else inside depth
    | .xmlRoot => inside depth
    | .text run => [.text depth run.text]
    | .script kind _ =>
      [.node depth (kind.label ++ " " ++ Quoted.encode (trimmed (t.scriptText id)))]
    | .comment _ | .taglibDirective => []
    | _ => .node depth (t.outlineLabel findings id) :: inside (depth + 1)

def OutlineLine.render : OutlineLine → String
  | .node depth label => indent depth ++ label
  | .text depth run => indent depth ++ "Text " ++ Quoted.encode (Text.join " " (wordsOf run))

def outline (t : Tree) (findings : Findings) (id : NodeId) : List String :=
  let lines := t.outlineFrom findings (t.size + 1) 0 id
  ((lines.foldl addLine []).reverse).map OutlineLine.render

end PageCompiler.Tree
