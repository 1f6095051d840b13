import PageCompiler.Page.Tree

namespace PageCompiler

structure Binding where
  ref : LibraryRef
  -- Where the prefix was bound.
  mark : Mark
  deriving DecidableEq, Repr

structure Bindings where
  -- A prefix is bound once.
  bound : List (String × Binding) := []
  -- Resolved libraries by the key of their reference.
  libraries : List (String × Library) := []
  -- In the order in which they were met.
  dependencies : List String := []
  deriving Inhabited

namespace Bindings

def get? (b : Bindings) (space : String) : Option Binding := b.bound.lookup space

def isBound (b : Bindings) (space : String) : Bool := (b.get? space).isSome

def library? (b : Bindings) (space : String) : Option Library := do
  b.libraries.lookup (← b.get? space).ref.key

-- The bound prefixes in their order.
def spaces (b : Bindings) : List (String × Binding) :=
  b.bound.mergeSort fun x y => decide (x.1 ≤ y.1)

-- Prefixes with their libraries, in the order of the prefixes.
def boundLibraries (b : Bindings) : List (String × Library) :=
  b.spaces.filterMap fun (space, binding) =>
    (b.libraries.lookup binding.ref.key).map fun library => (space, library)

def bind (b : Bindings) (space : String) (binding : Binding) : Bindings :=
  { b with bound := b.bound ++ [(space, binding)] }

def addDependency (b : Bindings) (name : String) : Bindings :=
  if b.dependencies.contains name then b
  else { b with dependencies := b.dependencies ++ [name] }

-- Keeps a resolved library; the page then depends on the file it came from.
def addLibrary (b : Bindings) (key : String) (library : Library) : Bindings :=
  let b :=
    match library.origin with
    | some origin => b.addDependency origin
    | none => b
  { b with libraries := b.libraries ++ [(key, library)] }

end Bindings

-- A page with everything it includes, as it was read.
structure Page where
  tree : Tree
  bindings : Bindings
  deriving Inhabited

end PageCompiler
