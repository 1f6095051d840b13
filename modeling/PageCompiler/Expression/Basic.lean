namespace PageCompiler

-- When an embedded expression is evaluated.
inductive Dialect where
  | immediate
  | deferred
  deriving DecidableEq, Repr, Inhabited

namespace Dialect

def sign : Dialect → Char
  | immediate => '$'
  | deferred => '#'

def ofSign? (c : Char) : Option Dialect :=
  if c = '$' then some immediate else if c = '#' then some deferred else none

theorem ofSign?_sign (d : Dialect) : ofSign? d.sign = some d := by cases d <;> rfl

-- An expression of this dialect with its delimiters.
def enclose (d : Dialect) (source : String) : String :=
  d.sign.toString ++ "\x7b" ++ source ++ "\x7d"

end Dialect

inductive UnaryOp where
  | negate
  | not
  | empty
  deriving DecidableEq, Repr

inductive BinaryOp where
  | or | and | eq | ne | lt | gt | le | ge | concat | add | sub | mul | div | mod
  deriving DecidableEq, Repr

inductive Expr where
  | null
  | bool (value : Bool)
  | integer (value : Nat)
  -- A decimal literal, as the bits of the nearest double.
  | decimal (bits : UInt64)
  | text (value : String)
  | identifier (name : String)
  | property (base : Expr) (name : String)
  | index (base key : Expr)
  | method (base : Expr) (name : String) (args : List Expr)
  | call (space : Option String) (name : String) (args : List Expr)
  | unary (op : UnaryOp) (operand : Expr)
  | binary (op : BinaryOp) (lhs rhs : Expr)
  | conditional (condition yes no : Expr)
  deriving Repr, Inhabited, BEq

-- A call of a library function.
structure FunctionUse where
  space : Option String
  name : String
  arity : Nat
  deriving DecidableEq, Repr

def FunctionUse.qualifiedName (f : FunctionUse) : String :=
  match f.space with
  | some space => space ++ ":" ++ f.name
  | none => f.name

namespace Expr

mutual

-- The function calls of an expression, outermost first and then from the left.
def functions : Expr → List FunctionUse
  | null | bool _ | integer _ | decimal _ | text _ | identifier _ => []
  | property base _ => base.functions
  | index base key => base.functions ++ key.functions
  | method base _ args => base.functions ++ functionsOfAll args
  | call space name args => ⟨space, name, args.length⟩ :: functionsOfAll args
  | unary _ operand => operand.functions
  | binary _ lhs rhs => lhs.functions ++ rhs.functions
  | conditional condition yes no => condition.functions ++ yes.functions ++ no.functions

def functionsOfAll : List Expr → List FunctionUse
  | [] => []
  | e :: rest => e.functions ++ functionsOfAll rest

end

-- Whether the expression names a place that can be assigned to.
def isAssignable : Expr → Bool
  | identifier _ | property .. | index .. => true
  | _ => false

end Expr
end PageCompiler
