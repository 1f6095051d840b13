import PageCompiler.Proofs.Expression.Tokens

namespace PageCompiler.Expression

open Text PageCompiler.Expr

def closers : List Token := [")".toList, "]".toList, ",".toList, ":".toList]

-- Nothing in front of these tokens is carried on by them at the given level or a tighter one.
inductive Follows (level : Nat) : List Token → Prop
  | done : Follows level []
  | closer {t : Token} (ts : List Token) (h : t ∈ closers) : Follows level (t :: ts)
  | branch (ts : List Token) (h : 0 < level) : Follows level ("?".toList :: ts)
  | operator (op : BinaryOp) (ts : List Token) (h : op.level < level) :
      Follows level (op.token.toList :: ts)
  | member (ts : List Token) (h : suffixLevel < level) : Follows level (".".toList :: ts)
  | index (ts : List Token) (h : suffixLevel < level) : Follows level ("[".toList :: ts)

namespace Follows

theorem mono {k l : Nat} (hkl : k ≤ l) {ts : List Token} (h : Follows k ts) : Follows l ts := by
  cases h with
  | done => exact done
  | closer ts h => exact closer ts h
  | branch ts h => exact branch ts (by omega)
  | operator op ts h => exact operator op ts (by omega)
  | member ts h => exact member ts (by omega)
  | index ts h => exact index ts (by omega)

theorem closer_of {t : Token} (h : t ∈ closers) (k : Nat) (ts : List Token) :
    Follows k (t :: ts) := closer ts h

end Follows

theorem level_pos (op : BinaryOp) : 0 < op.level := by cases op <;> decide

theorem level_lt_unary (op : BinaryOp) : op.level < unaryLevel := by cases op <;> decide

theorem mem_closers {t : Token} (h : t ∈ closers) :
    t = [')'] ∨ t = [']'] ∨ t = [','] ∨ t = [':'] := by
  simpa [closers] using h

-- The spellings of the operators of a level, counted from zero.
def spellings (j : Nat) : List Spelling := levels.getD j []

theorem operator_token (op : BinaryOp) (ts : List Token) :
    operator (spellings (op.level - 1)) (spaced (op.token.toList :: ts)) =
      some (op, spaced ts) := by
  cases op <;> cases ts <;> rfl

theorem operator_follows {j : Nat} (hj : j < 7) {ts : List Token} (h : Follows (j + 1) ts) :
    operator (spellings j) (spaced ts) = none := by
  cases h with
  | done => interval_cases j <;> rfl
  | closer ts h => obtain rfl | rfl | rfl | rfl := mem_closers h <;> interval_cases j <;> rfl
  | branch ts h => interval_cases j <;> rfl
  | operator op ts h =>
    interval_cases j <;> cases op <;> first | exact absurd h (by decide) | rfl
  | member ts h => exact absurd h (by simp [suffixLevel]; omega)
  | index ts h => exact absurd h (by simp [suffixLevel]; omega)

theorem symbol_open_follows {k : Nat} {ts : List Token} (h : Follows k ts) :
    symbol "(" (spaced ts) = none := by
  cases h with
  | closer ts h => obtain rfl | rfl | rfl | rfl := mem_closers h <;> rfl
  | operator op ts h => cases op <;> rfl
  | _ => rfl

variable {inner : Reader Built}

theorem arguments_follows {k : Nat} {ts : List Token} (h : Follows k ts) :
    arguments inner (spaced ts) = none := by
  rw [arguments, symbol_open_follows h]

theorem branches_follows {ts : List Token} (h : Follows 0 ts) :
    branches inner (spaced ts) = none := by
  have hs : symbol "?" (spaced ts) = none := by
    cases h with
    | done => rfl
    | closer ts h => obtain rfl | rfl | rfl | rfl := mem_closers h <;> rfl
    | operator op ts h => exact absurd h (by omega)
    | branch ts h | member ts h | index ts h => exact absurd h (by omega)
  rw [branches, hs]

theorem suffixes_follows {base : Built} {ts : List Token} (h : Follows suffixLevel ts) :
    suffixes inner base (spaced ts) = (base, spaced ts) := by
  have hs : symbol "." (spaced ts) = none ∧ symbol "[" (spaced ts) = none := by
    cases h with
    | done => exact ⟨rfl, rfl⟩
    | closer ts h => obtain rfl | rfl | rfl | rfl := mem_closers h <;> exact ⟨rfl, rfl⟩
    | branch ts h => exact ⟨rfl, rfl⟩
    | operator op ts h => cases op <;> exact ⟨rfl, rfl⟩
    | member ts h | index ts h => exact absurd h (by simp)
  rw [suffixes, memberSuffix, indexSuffix, hs.1, hs.2]
  rfl

-- The reader of what stands between the operators of a level: for levels above the last one it is
-- the reader of unary operators.
def operand (inner : Reader Built) (j : Nat) : Reader Built :=
  binary (unary inner) (levels.drop j)

theorem operand_seven : operand inner 7 = unary inner := rfl

theorem operand_chain {j : Nat} (hj : j < 7) :
    operand inner j = chain (spellings j) (operand inner (j + 1)) := by
  interval_cases j <;> rfl

theorem chainRest_follows {j : Nat} (hj : j < 7) {ts : List Token} (h : Follows (j + 1) ts)
    (r : Reader Built) (lhs : Built) :
    chainRest (spellings j) r lhs (spaced ts) = (lhs, spaced ts) := by
  rw [chainRest, operator_follows hj h]

theorem chain_of_operand {ops : List Spelling} {r : Reader Built} {s rest : List Char}
    {lhs : Built} (h : r s = some (lhs, rest)) :
    chain ops r s = some (chainRest ops r lhs rest) := by
  simp [chain, h]

-- One level up: nothing that follows is an operator of that level.
theorem operand_step {j : Nat} (hj : j < 7) {s : List Char} {e : Expr} {ts : List Token}
    (h : operand inner (j + 1) s = some (.ok e, spaced ts)) (hf : Follows (j + 1) ts) :
    operand inner j s = some (.ok e, spaced ts) := by
  rw [operand_chain hj, chain_of_operand h, chainRest_follows hj hf]

theorem operand_lift {i j : Nat} (hij : i ≤ j) (hj : j ≤ 7) {s : List Char} {e : Expr}
    {ts : List Token} (h : operand inner j s = some (.ok e, spaced ts))
    (hf : Follows (i + 1) ts) : operand inner i s = some (.ok e, spaced ts) := by
  induction j with
  | zero => rwa [Nat.le_zero.mp hij]
  | succ j ih =>
    rcases Nat.lt_or_eq_of_le hij with hlt | rfl
    · exact ih (by omega) (by omega) (operand_step (by omega) h (hf.mono (by omega)))
    · exact h

theorem conditional_lift {s : List Char} {e : Expr} {ts : List Token}
    (h : operand inner 0 s = some (.ok e, spaced ts)) (hf : Follows 0 ts) :
    conditional inner s = some (.ok e, spaced ts) := by
  have hb : binary (unary inner) levels s = some (.ok e, spaced ts) := h
  rw [conditional, hb]
  simp only [branches_follows hf]

theorem unary_lift {s : List Char} {e : Expr} {ts : List Token}
    (hu : unaryOperator s = none)
    (h : suffixed inner s = some (suffixes inner (.ok e) (spaced ts)))
    (hf : Follows unaryLevel ts) : unary inner s = some (.ok e, spaced ts) := by
  rw [unary, hu]
  simp only [h, suffixes_follows (hf.mono (by decide))]

end PageCompiler.Expression
