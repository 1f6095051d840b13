import PageCompiler.Checking.Custom
import PageCompiler.Checking.Standard
import PageCompiler.Page.View

namespace PageCompiler

namespace Checking

structure State where
  beans : Beans := {}
  -- Handlers are numbered in document order.
  nextInstance : Nat := 0
  findings : Findings

def checkInsert (x : Context) (data : Insert) (mark : Mark) : Except Diagnostic Unit :=
  if x.settings.elIgnored then .ok ()
  else if data.dialect = .deferred then
    x.fail (.invalidExpression (data.dialect.enclose data.source)
      "deferred expressions are not allowed in template text") mark
  else checkFunctions x data.tree.functions mark

def setFinding (s : State) (id : NodeId) (f : Finding) : State :=
  { s with findings := s.findings.modify id fun _ => f }

def checkNode (x : Context) (s : State) (id : NodeId) : Except Diagnostic State := do
  let n := x.tree.node id
  match n.kind with
  | .script .. =>
    checkRawCode x id n.name n.mark
    return s
  | .insert data =>
    checkInsert x data n.mark
    return s
  | .custom data =>
    let finding ← checkCustom x id data s.nextInstance
    return setFinding { s with nextInstance := s.nextInstance + 1 } id finding
  | .uninterpreted =>
    let attrs ← n.attributes.mapM (resolveUninterpreted x id)
    return setFinding s id { attributes := attrs }
  | kind =>
    match standardAttributes? kind with
    | none => return s
    | some table =>
      let (attrs, beans) ← checkStandard x s.beans id table
      return setFinding { s with beans } id { attributes := attrs }

-- Asks each library that has a validator, in the order of the prefixes.
def checkLibraries (p : Page) : Except Diagnostic Unit :=
  let view := p.view
  p.bindings.boundLibraries.forM fun (space, library) =>
    match library.validator with
    | none => .ok ()
    | some validator =>
      match validator space library.uri view with
      | [] => .ok ()
      | messages =>
        let mark := ((p.bindings.get? space).map Binding.mark).getD (p.tree.mark Tree.root)
        .error (p.tree.fault "validate" (.libraryValidation library.uri messages) mark)

end Checking

-- A page that has passed all checks, with what they found.
structure CheckedPage where
  page : Page
  settings : Settings
  beans : Beans
  findings : Findings
  deriving Inhabited

open Checking in
def Page.check (p : Page) (o : Options) : Except Diagnostic CheckedPage := do
  let settings ← Settings.reconcile p.tree o
  let x : Context := { options := o, bindings := p.bindings, settings, tree := p.tree }
  let s ← p.tree.preorder.foldlM (checkNode x) { findings := .ofTree p.tree }
  checkLibraries p
  return { page := p, settings, beans := s.beans, findings := s.findings }

end PageCompiler
