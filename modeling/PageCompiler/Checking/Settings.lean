import PageCompiler.Options
import PageCompiler.Page.Tree

namespace PageCompiler

open Text

structure Settings where
  language : String := "java"
  superclass : Option String := none
  -- In the order in which they were first named.
  imports : List String := []
  session : Bool := true
  -- In bytes; zero means that output is not buffered.
  bufferSize : Nat
  autoFlush : Bool
  threadSafe : Bool := true
  info : Option String := none
  errorPage : Option String := none
  isErrorPage : Bool := false
  contentType : Option String := none
  -- What the outermost unit says.
  pageEncoding : Option String := none
  elIgnored : Bool
  deferredAsLiteral : Bool
  trimDirectiveWhitespaces : Bool
  deriving DecidableEq, Repr, Inhabited

namespace Settings

-- The settings of a page without directives.
def ofOptions (o : Options) : Settings :=
  { bufferSize := o.bufferSize, autoFlush := o.autoFlush, elIgnored := o.elIgnored
    deferredAsLiteral := o.deferredAsLiteral
    trimDirectiveWhitespaces := o.trimDirectiveWhitespaces }

def scan (s : Settings) : ScanOptions :=
  { deferredAsLiteral := s.deferredAsLiteral, ignoreExpressions := s.elIgnored }

def action : String := "jsp:directive.page"

-- The first value of an attribute, and where it stands.
structure Seen where
  value : String
  mark : Mark
  deriving DecidableEq, Repr

structure Reconciled where
  settings : Settings
  -- Values by attribute, of those that have to agree in the whole page.
  seen : List (String × Seen) := []
  -- The page encoding by unit.
  encodings : List (String × Seen) := []

def fail (t : Tree) (fault : Fault) (mark : Mark) : Except Diagnostic α :=
  .error (t.fault "validate" fault mark)

def invalid (t : Tree) (name reason : String) (mark : Mark) : Except Diagnostic α :=
  fail t (.invalidAttributeValue action name reason) mark

def conflict (t : Tree) (name : String) (first : Seen) (a : Attribute) : Except Diagnostic α :=
  fail t (.directiveConflict name first.value first.mark.unit a.value a.mark.unit) a.mark

def flag (t : Tree) (a : Attribute) : Except Diagnostic Bool :=
  match lower a.value with
  | "true" => .ok true
  | "false" => .ok false
  | _ => invalid t a.name "must be 'true' or 'false'" a.mark

-- The value of a row of decimal digits that fits into 64 bits.
def digits? (s : List Char) : Option Nat :=
  if !s.isEmpty && s.all Char.isDigit then
    some (s.foldl (fun n c => n * 10 + (c.toNat - '0'.toNat)) 0) |>.filter (· < wordLimit)
  else none

-- The number of bytes in a buffer, whose size is given in kilobytes.
def buffer? (value : String) : Option Nat :=
  if value = "none" then some 0
  else ((stripEnd? "kb".toList value.toList).bind digits?).map fun kb => kb * 1024

-- Nobody asks whether the bytes of a buffer fit into 64 bits, as its kilobytes have to.
def size (t : Tree) (a : Attribute) : Except Diagnostic Nat :=
  match buffer? a.value with
  | some bytes => if bytes < wordLimit then .ok bytes else fail t (.overflown a.value) a.mark
  | none => invalid t "buffer" "must be 'none' or a size like '8kb'" a.mark

def addImports (imports : List String) (value : String) : List String :=
  (((split ',' value).map trimmed).filter fun s => !s.isEmpty).foldl
    (fun imports s => if imports.contains s then imports else imports ++ [s]) imports

def apply (t : Tree) (s : Settings) (a : Attribute) : Except Diagnostic Settings := do
  match a.name with
  | "language" =>
    if a.value = "java" then return { s with language := a.value }
    else invalid t "language" "only 'java' is supported" a.mark
  | "extends" => return { s with superclass := some a.value }
  | "session" => return { s with session := ← flag t a }
  | "buffer" => return { s with bufferSize := ← size t a }
  | "autoFlush" => return { s with autoFlush := ← flag t a }
  | "isThreadSafe" => return { s with threadSafe := ← flag t a }
  | "info" => return { s with info := some a.value }
  | "errorPage" => return { s with errorPage := some a.value }
  | "isErrorPage" => return { s with isErrorPage := ← flag t a }
  | "contentType" => return { s with contentType := some a.value }
  | "isELIgnored" => return { s with elIgnored := ← flag t a }
  | "deferredSyntaxAllowedAsLiteral" => return { s with deferredAsLiteral := ← flag t a }
  | "trimDirectiveWhitespaces" => return { s with trimDirectiveWhitespaces := ← flag t a }
  | other => fail t (.unknownAttribute action other) a.mark

-- A value that is given again has to be the same.
def record (t : Tree) (r : Reconciled) (a : Attribute) : Except Diagnostic Reconciled :=
  match r.seen.lookup a.name with
  | some first => if first.value = a.value then .ok r else conflict t a.name first a
  | none => .ok { r with seen := r.seen ++ [(a.name, ⟨a.value, a.mark⟩)] }

-- What a unit says about its encoding has to agree with every stronger sign.
def checkEncoding (t : Tree) (a : Attribute) (signs : EncodingInfo) : Except Diagnostic Unit :=
  let stronger :=
    [(signs.byteOrderMark, "byte order mark"), (signs.prolog, "XML prolog"),
      (signs.external, "configured page encoding")]
  stronger.forM fun (detected, sign) =>
    match detected with
    | some detected =>
      if Encoding.same a.value detected then .ok ()
      else fail t (.encodingMismatch a.value detected sign) a.mark
    | none => .ok ()

def applyEncoding (t : Tree) (id : NodeId) (r : Reconciled) (a : Attribute) :
    Except Diagnostic Reconciled := do
  let unit := a.mark.unit
  match r.encodings.lookup unit with
  | some first =>
    if Encoding.same first.value a.value then return r
    else conflict t "pageEncoding" first a
  | none =>
    let r := { r with encodings := r.encodings ++ [(unit, ⟨a.value, a.mark⟩)] }
    match (t.kind (t.unitRoot id)).root? with
    | none => return r
    | some data =>
      checkEncoding t a data.encoding
      if data.parentRoot.isNone then
        return { r with settings := { r.settings with pageEncoding := some a.value } }
      else return r

def applyAttribute (t : Tree) (id : NodeId) (r : Reconciled) (a : Attribute) :
    Except Diagnostic Reconciled := do
  if a.scripting then invalid t a.name "must be a literal" a.mark
  match a.name with
  | "import" =>
    let imports := addImports r.settings.imports a.value
    return { r with settings := { r.settings with imports } }
  | "pageEncoding" => applyEncoding t id r a
  | _ =>
    let settings ← apply t r.settings a
    record t { r with settings } a

-- A byte order mark and an XML declaration have to name one encoding.
def checkRoot (t : Tree) (id : NodeId) (data : UnitRoot) : Except Diagnostic Unit :=
  match data.encoding.byteOrderMark, data.encoding.prolog with
  | some bom, some prolog =>
    if Encoding.same bom prolog then .ok ()
    else fail t (.encodingMismatch prolog bom "byte order mark") (t.mark id)
  | _, _ => .ok ()

def applyNode (t : Tree) (r : Reconciled) (id : NodeId) : Except Diagnostic Reconciled := do
  match t.kind id with
  | .root data =>
    checkRoot t id data
    return r
  | .pageDirective => (t.node id).attributes.foldlM (applyAttribute t id) r
  | _ => return r

def isPageDirective : NodeKind → Bool
  | .pageDirective => true
  | _ => false

-- Output that is not buffered has to be flushed.
def checkFlush (t : Tree) (r : Reconciled) : Except Diagnostic Settings :=
  if r.settings.bufferSize = 0 && !r.settings.autoFlush then
    let mark := ((r.seen.lookup "autoFlush").map Seen.mark).getD (t.mark Tree.root)
    invalid t "autoFlush" "cannot be false when buffer is 'none'" mark
  else .ok r.settings

-- Takes the directives up in document order. Nothing below a page directive is one.
def reconcile (t : Tree) (o : Options) : Except Diagnostic Settings := do
  let nodes := t.entered fun kind => !isPageDirective kind
  checkFlush t (← nodes.foldlM (applyNode t) { settings := ofOptions o })

end Settings
end PageCompiler
