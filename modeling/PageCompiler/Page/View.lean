import PageCompiler.Markup.Entity
import PageCompiler.Page.Bindings

namespace PageCompiler.Page

open Text
open Markup (escape)

-- The contents of the sections that a text is put into: it is split inside each section end.
def cdataParts : Nat → List Char → List (List Char)
  | 0, text => [text]
  | fuel + 1, text =>
    match cutAt? "]]>".toList text with
    | some (before, after) => (before ++ "]]".toList) :: cdataParts fuel ('>' :: after)
    | none => [text]

-- A text as character data sections. It has fewer section ends than characters.
def cdata (text : String) : String :=
  String.join ((cdataParts text.length text.toList).map fun part =>
    "<![CDATA[" ++ String.ofList part ++ "]]>")

def wrapped (element text : String) : String :=
  "<jsp:" ++ element ++ ">" ++ cdata text ++ "</jsp:" ++ element ++ ">"

def attributeText (name value : String) : String := " " ++ name ++ "=\"" ++ escape value ++ "\""

def attributesText (attrs : List Attribute) : String :=
  String.join (attrs.map fun a =>
    attributeText a.name (if a.scripting then "%=" ++ a.value ++ "%" else a.value))

def scriptElement : ScriptKind → String
  | .declaration => "declaration"
  | .expression => "expression"
  | .scriptlet => "scriptlet"

def viewNode (t : Tree) : Nat → NodeId → String
  | 0, _ => ""
  | fuel + 1, id =>
    let n := t.node id
    let inside := String.join (n.children.map (viewNode t fuel))
    match n.kind with
    | .root _ | .xmlRoot | .includeDirective => inside
    | .taglibDirective | .comment _ => ""
    | .pageDirective => "<jsp:directive.page" ++ attributesText n.attributes ++ "/>"
    | .script kind _ => wrapped (scriptElement kind) (t.scriptText id)
    | .insert data => escape (data.dialect.enclose data.source)
    | .text run => wrapped "text" run.text
    | kind =>
      let name := if n.name.isEmpty then kind.label else n.name
      let head := "<" ++ name ++ attributesText n.attributes
      if n.body.isSome then head ++ ">" ++ inside ++ "</" ++ name ++ ">" else head ++ "/>"

-- The document has the standard namespace and those of the bound libraries.
def view (p : Page) : String :=
  let namespaces := p.bindings.boundLibraries.map fun (space, library) =>
    attributeText ("xmlns:" ++ space) library.uri
  "<jsp:root" ++ attributeText "xmlns:jsp" "http://java.sun.com/JSP/Page" ++
    String.join namespaces ++ attributeText "version" "2.1" ++ ">" ++
    viewNode p.tree (p.tree.size + 1) Tree.root ++ "</jsp:root>"

end PageCompiler.Page
