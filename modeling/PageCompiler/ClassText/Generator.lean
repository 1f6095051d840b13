import PageCompiler.Checking.Check
import PageCompiler.ClassText.Statement
import PageCompiler.Page.Bindings
import PageCompiler.Page.Tree

namespace PageCompiler

-- No name is given out twice, and a named attribute keeps its own.
structure Temporaries where
  next : Nat := 0
  -- The variables of named attributes.
  named : List (NodeId × String) := []
  deriving DecidableEq, Repr, Inhabited

namespace Temporaries

def fresh (t : Temporaries) : String × Temporaries :=
  ("_pagex_temp" ++ toString t.next, { t with next := t.next + 1 })

-- The variable that holds the value of a named attribute.
def ofNamed (t : Temporaries) (id : NodeId) : String × Temporaries :=
  match t.named.lookup id with
  | some name => (name, t)
  | none =>
    match t.fresh with
    | (name, t) => (name, { t with named := (id, name) :: t.named })

end Temporaries

namespace ClassText

open Text

-- The functions of each field, by its number. Expressions that call the same functions share a
-- field.
abbrev FunctionMaps := List (List MappedFunction)

namespace FunctionMaps

def mapped? (bindings : Bindings) (call : FunctionUse) : Option MappedFunction := do
  let function ← (← bindings.library? (← call.space)).function? call.name
  return { qualifiedName := call.qualifiedName, className := function.className
           method := function.methodName, parameterTypes := ← function.parameterTypes? }

-- The functions that are called, each once, in the order of their names.
def mappedSet (bindings : Bindings) (calls : List FunctionUse) : List MappedFunction :=
  ((calls.filterMap (mapped? bindings)).mergeSort fun a b =>
    decide (a.qualifiedName ≤ b.qualifiedName)).eraseDups

-- Fields are told apart by the names of their functions.
def key (functions : List MappedFunction) : String :=
  join "," (functions.map MappedFunction.qualifiedName)

-- The number of the field for some calls, which may be a new one; no field when nothing is called.
def fieldFor (maps : FunctionMaps) (bindings : Bindings) (calls : List FunctionUse) :
    Option Nat × FunctionMaps :=
  match mappedSet bindings calls with
  | [] => (none, maps)
  | functions =>
    match maps.findIdx? fun m => key m == key functions with
    | some index => (some index, maps)
    | none => (some maps.length, maps ++ [functions])

def declarations (maps : FunctionMaps) : List Line :=
  ((List.range maps.length).zip maps).map fun (index, functions) =>
    .plain (.declareFunctions index functions)

end FunctionMaps

structure Context where
  options : Options
  checked : CheckedPage

namespace Context

def tree (x : Context) : Tree := x.checked.page.tree

def settings (x : Context) : Settings := x.checked.settings

def finding (x : Context) (id : NodeId) : Finding := x.checked.findings.get id

end Context

structure State where
  -- What the page declares for the class.
  declarations : Code := []
  -- The fields of handler pools, each once.
  pools : List String := []
  charArrays : List String := []
  functionMaps : FunctionMaps := []
  -- Methods that were split off.
  methods : List Code := []
  -- Deferred bodies by their numbers; nothing while one is being generated.
  deferred : List (Option Code) := []
  temporaries : Temporaries := {}
  -- The variables declared in each enclosing block, innermost first.
  declared : List (List String) := [[]]

abbrev GenM := StateT State (Except Diagnostic)

def isDeclared (name : String) : GenM Bool := do
  return (← get).declared.any fun block => block.contains name

-- Declares a name in the innermost block, unless it is declared already; says whether it did.
def declareName (name : String) : GenM Bool := do
  if ← isDeclared name then return false
  modify fun s =>
    match s.declared with
    | block :: rest => { s with declared := (name :: block) :: rest }
    | [] => s
  return true

-- Runs something inside of a further block.
def inBlock (m : GenM α) : GenM α := do
  modify fun s => { s with declared := [] :: s.declared }
  let a ← m
  modify fun s => { s with declared := s.declared.tail }
  return a

-- Runs something for a method of its own, in which nothing is declared.
def inMethod (m : GenM α) : GenM α := do
  let outer := (← get).declared
  modify fun s => { s with declared := [[]] }
  let a ← m
  modify fun s => { s with declared := outer }
  return a

def charArray (text : String) : GenM Operand :=
  modifyGet fun s =>
    match s.charArrays.findIdx? (· == text) with
    | some index => (.charArray index, s)
    | none => (.charArray s.charArrays.length, { s with charArrays := s.charArrays ++ [text] })

def functionField (x : Context) (calls : List FunctionUse) : GenM (Option Nat) :=
  modifyGet fun s =>
    match s.functionMaps.fieldFor x.checked.page.bindings calls with
    | (field, functionMaps) => (field, { s with functionMaps })

-- Makes sure of the field of a pool, where a pool is used.
def addPool : Option String → GenM Unit
  | some pool =>
    modify fun s => if s.pools.contains pool then s else { s with pools := s.pools ++ [pool] }
  | none => return

def freshTemporary : GenM String :=
  modifyGet fun s =>
    match s.temporaries.fresh with
    | (name, temporaries) => (name, { s with temporaries })

def namedVariable (id : NodeId) : GenM String :=
  modifyGet fun s =>
    match s.temporaries.ofNamed id with
    | (name, temporaries) => (name, { s with temporaries })

-- Takes the number of the next deferred body. Bodies inside of it get later ones.
def reserveDeferred : GenM Nat :=
  modifyGet fun s => (s.deferred.length, { s with deferred := s.deferred ++ [none] })

def fillDeferred (number : Nat) (code : Code) : GenM Unit :=
  modify fun s => { s with deferred := s.deferred.set number (some code) }

inductive HandlerKind where
  | classic
  | simple
  deriving DecidableEq, Repr

-- An expression for the enclosing handler.
structure Handle where
  expr : String
  kind : HandlerKind
  deriving DecidableEq, Repr

namespace Handle

-- The handler as a classic handler accepts it.
def forClassic (h : Handle) : String :=
  match h.kind with
  | .classic => h.expr
  | .simple => "new " ++ Names.tagAdapter ++ "((" ++ Names.simpleTag ++ ") " ++ h.expr ++ ")"

-- The parameter that carries the handler into a method of its own.
def parameter (kind : HandlerKind) : Handle :=
  match kind with
  | .classic => ⟨"((" ++ Names.tag ++ ") " ++ Names.parent ++ ")", .classic⟩
  | .simple => ⟨Names.parent, .simple⟩

end Handle

structure Scope where
  parent : Option Handle
  leave : Leave
  -- The cell that counts the bodies pushed in the innermost region.
  pushCount : String
  deriving DecidableEq, Repr

-- Generates the children of a node.
abbrev BodyGen := Scope → NodeId → GenM Code

def evaluate (x : Context) (source : String) (calls : List FunctionUse) (typeName : String) :
    GenM Operand := do
  return .evaluate source typeName (← functionField x calls)

-- An attribute as a string. Named attributes have been evaluated into their variables.
def stringValue (x : Context) (a : ResolvedAttribute) : GenM Operand := do
  match a.value with
  | .literal v => return .code (quote v)
  | .scripting code => return .code ("java.lang.String.valueOf(" ++ trimmed code ++ ")")
  | .expression _ parts _ => evaluate x parts.sourceText parts.functions stringClass
  | .named id => return .code (← namedVariable id)

def stringOf (x : Context) (f : Finding) (name : String) : GenM Operand :=
  match f.attribute? name with
  | some a => stringValue x a
  | none => return .null

def isFragment (a : ResolvedAttribute) : Bool := a.contract.any AttributeContract.fragment

-- Evaluates the bodies of named attributes into their variables. Fragments are left to the handler.
def namedValues (x : Context) (body : BodyGen) (scope : Scope) (id : NodeId) : GenM Code := do
  let parts ← (x.finding id).attributes.mapM fun a => do
    match a.value with
    | .named named =>
      match x.tree.kind named with
      | .named data =>
        if isFragment a then return []
        let held ← namedVariable named
        let mark := x.tree.mark named
        let inside ← body scope named
        return [Stretch.forMark mark [.plain .pushBody]] ++ inside ++
          [Stretch.forMark mark [.plain (.capture held data.trim), .plain .popBody]]
      | _ => return []
    | _ => return []
  return parts.flatten

def writeLiteral (x : Context) (text : String) : GenM (List Line) := do
  match text.toList with
  | [c] => return [.plain (.write (.code (quoteChar c)))]
  | chars =>
    (chunks x.options.maxLiteralWrite chars).mapM fun chunk => do
      let piece := String.ofList chunk
      match x.options.literalStrategy with
      | .inline => return .plain (.write (.code (quote piece)))
      | .charArrays => return .plain (.write (← charArray piece))

end ClassText
end PageCompiler
