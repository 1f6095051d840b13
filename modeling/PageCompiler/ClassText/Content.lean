import PageCompiler.ClassText.Generator

namespace PageCompiler.ClassText

open Text

-- The source lines that a text covers. A line feed belongs to the line it ends.
def coveredLines (mark : Mark) (run : TextRun) : List Nat :=
  let lines := run.lineDeltas.length
  let lines := if ends "\n" run.text then lines - 1 else lines
  (List.range (lines + 1)).map fun extra => mark.line + run.leadingLines + extra

def textCode (x : Context) (mark : Mark) (run : TextRun) : GenM Code := do
  if run.text.isEmpty then return []
  return [{ lines := ← writeLiteral x run.text, unit := mark.unit
            sources := coveredLines mark run }]

def isDirective : NodeKind → Bool
  | .pageDirective | .includeDirective | .taglibDirective => true
  | _ => false

-- The node in front of a child.
def previous? (ids : List NodeId) (id : NodeId) : Option NodeId :=
  match ids.idxOf id with
  | 0 => none
  | position + 1 => ids[position]?

-- Blanks directly behind a directive, where such blanks are dropped.
def isDirectiveBlank (x : Context) (id : NodeId) : Bool :=
  let t := x.tree
  x.settings.trimDirectiveWhitespaces && (t.kind id).isBlankText &&
    match t.parent id with
    | some parent =>
      (previous? (t.children parent) id).any fun before => isDirective (t.kind before)
    | none => false

def insertCode (x : Context) (mark : Mark) (data : Insert) : GenM Code := do
  let source := data.dialect.enclose data.source
  if x.settings.elIgnored then return [Stretch.forMark mark (← writeLiteral x source)]
  let value ← evaluate x source data.tree.functions stringClass
  return [Stretch.forMark mark [.plain (.write value)]]

-- Code line by line, each for its own source line.
def codeLines (mark : Mark) (code : String) : Code :=
  let lines := linesOf code
  ((List.range lines.length).zip lines).map fun (i, line) =>
    { lines := [.plain (.raw (trimmedEnd line))], unit := mark.unit, sources := [mark.line + i] }

def printCode (mark : Mark) (code : String) : Code :=
  let code := trimmed code
  if contains "\n" code then
    [Stretch.forMark mark
      ([Line.code "out.print("] ++ (linesOf code).map (fun line => Line.inner (trimmedEnd line)) ++
        [Line.code ");"])]
  else [Stretch.forMark mark [.plain (.print code)]]

def scriptCode (x : Context) (kind : ScriptKind) (id : NodeId) : GenM Code := do
  let mark := x.tree.mark id
  let code := x.tree.scriptText id
  match kind with
  | .declaration =>
    modify fun s => { s with declarations := s.declarations ++ codeLines mark code }
    return []
  | .expression => return printCode mark code
  | .scriptlet => return codeLines mark code

-- A piece of a tag.
inductive Piece where
  | literal (text : String)
  | write (value : Operand)
  | print (code : String)
  deriving DecidableEq, Repr

-- Neighbouring literals become one.
def joinLiterals : List Piece → List Piece
  | [] => []
  | .literal a :: rest =>
    match joinLiterals rest with
    | .literal b :: rest => .literal (a ++ b) :: rest
    | rest => .literal a :: rest
  | p :: rest => p :: joinLiterals rest

def pieceLines (x : Context) : Piece → GenM (List Line)
  | .literal text => writeLiteral x text
  | .write value => return [.plain (.write value)]
  | .print code => return [.plain (.print code)]

def attributePieces (x : Context) (a : ResolvedAttribute) : GenM (List Piece) := do
  let value ←
    match a.value with
    | .literal v => pure [Piece.literal (Markup.escape v)]
    | .scripting code => pure [.print (trimmed code)]
    | .expression source parts dialect =>
      if dialect = .immediate then
        pure [.write (← evaluate x parts.sourceText parts.functions stringClass)]
      else pure [.literal source]
    | .named _ => pure []
  return [Piece.literal (" " ++ a.qualifiedName ++ "=\"")] ++ value ++ [Piece.literal "\""]

def markupCode (x : Context) (body : BodyGen) (scope : Scope) (id : NodeId) : GenM Code := do
  let n := x.tree.node id
  let attrs ← (x.finding id).attributes.mapM (attributePieces x)
  let hasChildren := !n.children.isEmpty
  let pieces := [Piece.literal ("<" ++ n.name)] ++ attrs.flatten ++
    [Piece.literal (if hasChildren then ">" else "/>")]
  let head ← (joinLiterals pieces).mapM (pieceLines x)
  let opening := Stretch.forMark n.mark head.flatten
  if hasChildren then
    let inside ← body scope id
    let tail ← writeLiteral x ("</" ++ n.name ++ ">")
    return [opening] ++ inside ++ [Stretch.forMark n.mark tail]
  return [opening]

end PageCompiler.ClassText
