import PageCompiler.Reading.Relaxed
import PageCompiler.Reading.Strict

namespace PageCompiler

open Text
open Builder

-- The form of a unit is forced, or follows from its name, or from the element it starts with.
def UnitForm.choose (name : String) (text : List Char) (forced : Option Bool) : UnitForm :=
  match forced with
  | some xml => if xml then .strict else .relaxed
  | none =>
    if [".pagx", ".xml", ".jspx"].any fun tail => ends tail name then .strict
    else
      let rest := trimStart text
      let rest :=
        if startsWith "<?xml".toList rest then
          ((cutAt? "?>".toList rest).map fun cut => trimStart cut.2).getD []
        else rest
      if startsWith "<jsp:root".toList rest then .strict else .relaxed

-- Reads the text of a unit under its root.
abbrev UnitReader := NodeId → String → List Char → UnitForm → BuildM Unit

namespace Page

-- Loads a unit and makes its root, behind which the unit can be read by its name, text and form. A
-- unit that is being read does not include itself.
def enterUnit (o : Options) (loader : Loader) (parent : NodeId) (target : String)
    (origin : UnitOrigin) (mark : Mark) : BuildM (NodeId × String × List Char × UnitForm) := do
  let base := (← get).units.head?.getD mark.unit
  let name := UnitName.resolve base target
  if (← get).units.contains name then
    invalidDirective ("'" ++ name ++ "' includes itself") mark
  let bytes ← placeError mark (loader.load name)
  let decoded ← placeError mark (Encoding.decode name bytes o.pageEncoding o.defaultEncoding)
  let form := UnitForm.choose name decoded.text o.forceStrict
  modifyTree (·.addSource name (String.ofList decoded.text))
  modifyBindings (·.addDependency ((loader.locate? name).getD name))
  let parentRoot := (← get).tree.unitRoot parent
  let root ← append parent
    { kind := .root
        { unit := name, form, origin, encoding := decoded.encoding
          parentRoot := some parentRoot }
      mark := .start name
      body := some [] }
  return (root, name, decoded.text, form)

def includeUnit (o : Options) (loader : Loader) (readUnit : UnitReader) : Includer :=
  fun parent target origin mark => do
    let (root, name, text, form) ← enterUnit o loader parent target origin mark
    readUnit root name text form
    return root

-- Reads a unit under its root. The units that it includes are read by `inner`.
def readLevel (o : Options) (loader : Loader) (inner : UnitReader) : UnitReader :=
  fun root unit text form => do
    let enclosing := (← get).units
    modify fun b => { b with units := unit :: enclosing }
    let includer := includeUnit o loader inner
    match form with
    | .relaxed => Relaxed.read includer root unit text
    | .strict => Strict.read includer o.preserveXmlWhitespace root unit text
    modify fun b => { b with units := enclosing }

-- Reads a unit in which units can be included down to the given depth. The units being read all
-- have different names, so that the number of units bounds the depth.
def readUnit (o : Options) (loader : Loader) : Nat → UnitReader
  | 0 => fun _ unit _ _ => invalidDirective ("'" ++ unit ++ "' includes itself") (.start unit)
  | depth + 1 => readLevel o loader (readUnit o loader depth)

-- Reads everything into a tree that has only its root.
def readAll (o : Options) (loader : Loader) (reader : UnitReader) (unit : String)
    (text : List Char) (form : UnitForm) : BuildM Page := do
  let start := Mark.start unit
  for name in o.prelude do
    discard (includeUnit o loader reader Tree.root name .prelude start)
  reader Tree.root unit text form
  for name in o.coda do
    discard (includeUnit o loader reader Tree.root name .coda start)
  finish

-- Reads a page, and gives back the resolver with the libraries it has read on the way.
def readWith (o : Options) (loader : Loader) (reader : UnitReader) (resolver : Resolver)
    (name : String) : Except Diagnostic Page × Resolver :=
  let unit := UnitName.normalize name
  let decoded := do
    let bytes ← loader.load unit
    Encoding.decode unit bytes o.pageEncoding o.defaultEncoding
  match decoded with
  | .error d => (.error d, resolver)
  | .ok decoded =>
    let form := UnitForm.choose unit decoded.text o.forceStrict
    let root : UnitRoot :=
      { unit, form, origin := .page, encoding := decoded.encoding, parentRoot := none }
    let tree := Tree.ofRoot root (String.ofList decoded.text)
    match (readAll o loader reader unit decoded.text form).run (.ofOptions o tree resolver) with
    | .ok page b => (.ok page, b.resolver)
    | .error d b => (.error d, b.resolver)

def read (o : Options) (loader : Loader) (resolver : Resolver) (name : String) :
    Except Diagnostic Page × Resolver :=
  readWith o loader (readUnit o loader (loader.capacity + 1)) resolver name

end Page
end PageCompiler
