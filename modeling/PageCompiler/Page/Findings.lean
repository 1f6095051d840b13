import PageCompiler.Page.Tree

namespace PageCompiler

inductive AttributeValue where
  | literal (value : String)
  -- Raw code.
  | scripting (code : String)
  | expression (text : String) (parts : Composite) (dialect : Dialect)
  -- The value is the body of a named attribute.
  | named (node : NodeId)
  deriving Repr, BEq

namespace AttributeValue

def kindName : AttributeValue → String
  | literal _ => "literal"
  | scripting _ => "scripting"
  | expression .. => "expression"
  | named _ => "named"

def literal? : AttributeValue → Option String
  | literal v => some v
  | _ => none

def named? : AttributeValue → Option NodeId
  | named id => some id
  | _ => none

end AttributeValue

structure ResolvedAttribute where
  -- Without the prefix, when the attribute is a dynamic one.
  name : String
  qualifiedName : String
  value : AttributeValue
  mark : Mark
  -- What the value was checked against.
  contract : Option AttributeContract
  dynamic : Bool
  deriving Repr, BEq

-- The variables an action exposes, by where they can be seen.
structure ScopedVariables where
  nested : List Variable := []
  atBegin : List Variable := []
  atEnd : List Variable := []
  deriving DecidableEq, Repr

namespace ScopedVariables

def all (v : ScopedVariables) : List Variable := v.nested ++ v.atBegin ++ v.atEnd

def isEmpty (v : ScopedVariables) : Bool := v.all.isEmpty

end ScopedVariables

structure Finding where
  attributes : List ResolvedAttribute := []
  exposed : ScopedVariables := {}
  instanceId : Option String := none
  deriving Repr, BEq, Inhabited

namespace Finding

def attribute? (f : Finding) (name : String) : Option ResolvedAttribute :=
  f.attributes.find? fun a => a.name == name

def isEmpty (f : Finding) : Bool :=
  f.attributes.isEmpty && f.exposed.isEmpty && f.instanceId.isNone

end Finding

-- Findings by node. A node without an entry has an empty finding.
structure Findings where
  entries : Array Finding := #[]
  deriving Repr, BEq, Inhabited

namespace Findings

-- Empty findings for the nodes of a tree.
def ofTree (t : Tree) : Findings := ⟨Array.replicate t.size {}⟩

def get (f : Findings) (id : NodeId) : Finding := f.entries.getD id {}

def modify (f : Findings) (id : NodeId) (g : Finding → Finding) : Findings :=
  ⟨f.entries.modify id g⟩

end Findings
end PageCompiler
