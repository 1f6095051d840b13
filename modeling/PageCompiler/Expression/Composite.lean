import PageCompiler.Expression.Grammar
import PageCompiler.Text.Size

namespace PageCompiler

-- Which delimiters are recognised.
structure ScanOptions where
  -- A deferred expression is plain text.
  deferredAsLiteral : Bool := false
  -- Every expression is plain text.
  ignoreExpressions : Bool := false
  deriving DecidableEq, Repr, Inhabited

def ScanOptions.recognises (o : ScanOptions) (d : Dialect) : Bool :=
  !o.ignoreExpressions && (d == .immediate || !o.deferredAsLiteral)

inductive Part where
  | text (value : String)
  -- An expression with its source between the braces and the byte it starts at.
  | expr (dialect : Dialect) (source : String) (tree : Expr) (offset : Nat)
  deriving Repr, BEq

structure Composite where
  parts : List Part
  deriving Repr, BEq, Inhabited

structure ExpressionError where
  expression : String
  reason : Expression.Reason
  offset : Nat
  deriving DecidableEq, Repr

namespace Composite

-- The text up to the brace that closes an expression, and what follows the brace. Braces nest;
-- inside quotes only the same quote counts, and a backslash there covers the next character.
def closeBrace (quote : Option Char) (depth : Nat) : List Char → Option (List Char × List Char)
  | [] => none
  | c :: cs =>
    match quote with
    | some q =>
      if c = '\\' then
        match cs with
        | [] => none
        | d :: ds => (closeBrace quote depth ds).map fun cut => (c :: d :: cut.1, cut.2)
      else
        (closeBrace (if c = q then none else quote) depth cs).map fun cut => (c :: cut.1, cut.2)
    | none =>
      if c = '\'' || c = '"' then
        (closeBrace (some c) depth cs).map fun cut => (c :: cut.1, cut.2)
      else if c = '{' then (closeBrace none (depth + 1) cs).map fun cut => (c :: cut.1, cut.2)
      else if c = '}' then
        match depth with
        | 0 => some ([], cs)
        | depth + 1 => (closeBrace none depth cs).map fun cut => (c :: cut.1, cut.2)
      else (closeBrace none depth cs).map fun cut => (c :: cut.1, cut.2)

-- Nothing is lost but the brace itself.
theorem closeBrace_append {quote : Option Char} {depth : Nat} {s body rest : List Char}
    (h : closeBrace quote depth s = some (body, rest)) : s = body ++ '}' :: rest := by
  fun_induction closeBrace quote depth s generalizing body rest <;>
    simp_all only [Option.map_eq_some_iff, Prod.exists, Prod.mk.injEq, Option.some.injEq,
      reduceCtorEq]
  all_goals first
    | (obtain ⟨rfl, rfl⟩ := h; simp)
    | (obtain ⟨b, r, hb, rfl, rfl⟩ := h; rename_i ih; simp [ih hb])

theorem length_closeBrace {quote : Option Char} {depth : Nat} {s body rest : List Char}
    (h : closeBrace quote depth s = some (body, rest)) : rest.length < s.length := by
  rw [closeBrace_append h]
  simp only [List.length_append, List.length_cons]
  omega

-- The dialect of an opening delimiter and the text behind it.
def delimiter? : List Char → Option (Dialect × List Char)
  | c :: '{' :: rest => (Dialect.ofSign? c).map fun d => (d, rest)
  | _ => none

-- The same behind a backslash.
def escaped? : List Char → Option (Dialect × List Char)
  | '\\' :: rest => delimiter? rest
  | _ => none

theorem length_delimiter? {s rest : List Char} {d : Dialect}
    (h : delimiter? s = some (d, rest)) : rest.length < s.length := by
  unfold delimiter? at h
  split at h
  · simp only [Option.map_eq_some_iff, Prod.mk.injEq] at h
    obtain ⟨_, _, _, rfl⟩ := h
    simp only [List.length_cons]
    omega
  · simp at h

theorem length_escaped? {s rest : List Char} {d : Dialect}
    (h : escaped? s = some (d, rest)) : rest.length < s.length := by
  unfold escaped? at h
  split at h
  · have := length_delimiter? h
    simp only [List.length_cons]
    omega
  · simp at h

-- Literal text gathered so far, as a part unless it is empty.
def textPart : List Char → List Part
  | [] => []
  | t => [.text (String.ofList t.reverse)]

-- The parts of a value. `text` holds the literal text since the last expression in reverse.
def scan (o : ScanOptions) (offset : Nat) (text s : List Char) :
    Except ExpressionError (List Part) :=
  match s with
  | [] => .ok (textPart text)
  | c :: cs =>
    match he : escaped? (c :: cs) with
    | some (d, rest) =>
      have := length_escaped? he
      scan o (offset + 3)
        (if o.recognises d then '{' :: d.sign :: text else '{' :: d.sign :: '\\' :: text) rest
    | none =>
      match hd : delimiter? (c :: cs) with
      | none => scan o (offset + c.utf8Size) (c :: text) cs
      | some (d, rest) =>
        if o.recognises d then
          match hb : closeBrace none 0 rest with
          | none => .error ⟨String.ofList (c :: cs), .unclosed, offset⟩
          | some (body, after) =>
            have := Nat.lt_trans (length_closeBrace hb) (length_delimiter? hd)
            match Expression.parse body with
            | .error reason => .error ⟨String.ofList body, reason, offset⟩
            | .ok tree =>
              match scan o (offset + 3 + Text.byteSize body) [] after with
              | .error e => .error e
              | .ok parts =>
                .ok (textPart text ++ .expr d (String.ofList body) tree offset :: parts)
        else scan o (offset + c.utf8Size) (c :: text) cs
termination_by s.length
decreasing_by all_goals (simp only [List.length_cons] at *; omega)

def parse (o : ScanOptions) (value : List Char) : Except ExpressionError Composite :=
  (scan o 0 [] value).map Composite.mk

def hasExpressions (c : Composite) : Bool :=
  c.parts.any fun
    | .expr .. => true
    | .text _ => false

def isSingleExpression (c : Composite) : Bool :=
  match c.parts with
  | [.expr ..] => true
  | _ => false

def uses (c : Composite) (d : Dialect) : Bool :=
  c.parts.any fun
    | .expr dialect .. => dialect == d
    | .text _ => false

-- The dialects that occur, the immediate one first.
def dialects (c : Composite) : List Dialect := [.immediate, .deferred].filter c.uses

def functions (c : Composite) : List FunctionUse :=
  c.parts.flatMap fun
    | .expr _ _ tree _ => tree.functions
    | .text _ => []

-- Literal text in which delimiters are escaped.
def escape (t : String) : String :=
  Text.replace "#\x7b" "\\#\x7b" (Text.replace "$\x7b" "\\$\x7b" t)

def Part.source : Part → String
  | .text t => escape t
  | .expr dialect source _ _ => dialect.enclose source

-- The value as the runtime evaluates it.
def sourceText (c : Composite) : String := String.join (c.parts.map Part.source)

-- The text of a value that holds no expressions.
def literalText (c : Composite) : Option String :=
  if c.hasExpressions then none
  else
    some (String.join (c.parts.map fun
      | .text t => t
      | .expr .. => ""))

end Composite
end PageCompiler
