import PageCompiler.Proofs.Expression.Braces
import Mathlib.Logic.Function.Iterate

namespace PageCompiler

open Text Composite

theorem Composite.Takes.length_le {s rest : List Char} (h : Takes s rest) :
    rest.length ≤ s.length := by
  obtain ⟨w, rfl, -⟩ := h
  rw [List.length_append]
  omega

namespace Expression

theorem length_skipGap_le (s : List Char) : (skipGap s).length ≤ s.length :=
  (List.dropWhile_suffix _).length_le

theorem length_symbol {t : String} (ht : t.toList ≠ []) {s rest : List Char}
    (h : symbol t s = some rest) : rest.length < s.length := by
  have hs := congrArg List.length (eq_of_stripStart? h)
  have hpos := List.length_pos_iff.mpr ht
  have hle := length_skipGap_le s
  rw [List.length_append] at hs
  omega

-- Two readers do the same on every text that is shorter than this.
def SameBelow (n : Nat) (f g : Reader Built) : Prop := ∀ s : List Char, s.length < n → f s = g s

section

variable {f g : Reader Built} {n : Nat} (hf : Taking f) (hfg : SameBelow n f g)
include hf hfg

theorem moreArgs_congr {s : List Char} (hs : s.length ≤ n) : moreArgs f s = moreArgs g s := by
  fun_induction moreArgs f s with
  | case1 s hcomma => rw [moreArgs, hcomma]
  | case2 s s' hcomma hnone =>
    have hlt := length_symbol (by decide) hcomma
    rw [moreArgs, hcomma]
    dsimp only
    rw [← hfg s' (by omega), hnone]
  | case3 s s' hcomma arg rest harg hlt args rest' hmore ih =>
    have hlt' := length_symbol (by decide) hcomma
    rw [moreArgs, hcomma]
    dsimp only
    rw [← hfg s' (by omega), harg]
    dsimp only
    rw [if_pos hlt, ← ih (by omega), hmore]
  | case4 s s' hcomma arg rest harg hge =>
    have hle := (hf harg).length_le
    have hlt := length_symbol (by decide) hcomma
    omega

theorem arguments_congr {s : List Char} (hs : s.length ≤ n) : arguments f s = arguments g s := by
  unfold arguments
  cases hopen : symbol "(" s with
  | none => rfl
  | some s₁ =>
    have hlt := length_symbol (by decide) hopen
    dsimp only
    rw [← hfg s₁ (by omega)]
    cases harg : f s₁ with
    | none => rfl
    | some found =>
      obtain ⟨arg, s₂⟩ := found
      have hle := (hf harg).length_le
      dsimp only
      rw [moreArgs_congr hf hfg (by omega)]

theorem functionCall_congr {s : List Char} (hs : s.length ≤ n) :
    functionCall f s = functionCall g s := by
  unfold functionCall
  cases hname : qualifiedName s with
  | none => rfl
  | some found =>
    obtain ⟨⟨space, name⟩, s₁⟩ := found
    have hle := (takes_qualifiedName hname).length_le
    dsimp only
    rw [arguments_congr hf hfg (by omega)]

omit hf in
theorem bracketed_congr {s : List Char} (hs : s.length ≤ n) : bracketed f s = bracketed g s := by
  unfold bracketed
  cases hopen : symbol "(" s with
  | none => rfl
  | some s₁ =>
    have hlt := length_symbol (by decide) hopen
    dsimp only
    rw [hfg s₁ (by omega)]

theorem primary_congr {s : List Char} (hs : s.length ≤ n) : primary f s = primary g s := by
  unfold primary
  rw [functionCall_congr hf hfg hs, bracketed_congr hfg hs]

theorem memberSuffix_congr (base : Built) {s : List Char} (hs : s.length ≤ n) :
    memberSuffix f base s = memberSuffix g base s := by
  unfold memberSuffix
  cases hdot : symbol "." s with
  | none => rfl
  | some s₁ =>
    have hlt := length_symbol (by decide) hdot
    have hgap := (takes_skipGap s₁).length_le
    dsimp only
    cases hname : nameHere (skipGap s₁) with
    | none => rfl
    | some found =>
      obtain ⟨name, s₂⟩ := found
      have hle := (takes_nameHere hname).length_le
      dsimp only
      rw [arguments_congr hf hfg (by omega)]

omit hf in
theorem indexSuffix_congr (base : Built) {s : List Char} (hs : s.length ≤ n) :
    indexSuffix f base s = indexSuffix g base s := by
  unfold indexSuffix
  cases hopen : symbol "[" s with
  | none => rfl
  | some s₁ =>
    have hlt := length_symbol (by decide) hopen
    dsimp only
    rw [hfg s₁ (by omega)]

theorem suffixes_congr (base : Built) {s : List Char} (hs : s.length ≤ n) :
    suffixes f base s = suffixes g base s := by
  fun_induction suffixes f base s with
  | case1 base s hnone =>
    rw [suffixes, ← memberSuffix_congr hf hfg base hs, ← indexSuffix_congr hfg base hs, hnone]
  | case2 base s e rest hsome hlt ih =>
    rw [ih (by omega)]
    conv_rhs => rw [suffixes]
    rw [← memberSuffix_congr hf hfg base hs, ← indexSuffix_congr hfg base hs, hsome]
    exact (if_pos hlt).symm
  | case3 base s e rest hsome hge =>
    rw [suffixes, ← memberSuffix_congr hf hfg base hs, ← indexSuffix_congr hfg base hs, hsome]
    exact (if_neg hge).symm

theorem suffixed_congr {s : List Char} (hs : s.length ≤ n) : suffixed f s = suffixed g s := by
  unfold suffixed
  rw [← primary_congr hf hfg hs]
  cases hprimary : primary f s with
  | none => rfl
  | some found =>
    obtain ⟨base, rest⟩ := found
    have hle := (taking_primary hf hprimary).length_le
    rw [Option.map_some, Option.map_some]
    dsimp only
    rw [suffixes_congr hf hfg base (by omega)]

theorem unary_congr {s : List Char} (hs : s.length ≤ n) : unary f s = unary g s := by
  fun_induction unary f s with
  | case1 s hnone =>
    rw [unary, hnone]
    exact suffixed_congr hf hfg hs
  | case2 s op rest hsome hlt ih =>
    rw [ih (by omega)]
    conv_rhs => rw [unary, hsome]
    exact (if_pos hlt).symm
  | case3 s op rest hsome hge =>
    rw [unary, hsome]
    exact (if_neg hge).symm

end

section

variable {f g : Reader Built} {s : List Char} (hf : Taking f)
include hf

omit hf in
theorem chainRest_congr {ops : List Spelling} (ht : ∀ o ∈ ops, o.token.toList.all isBare) {n : Nat}
    (hfg : ∀ s : List Char, s.length ≤ n → f s = g s) (lhs : Built) (hs : s.length ≤ n) :
    chainRest ops f lhs s = chainRest ops g lhs s := by
  fun_induction chainRest ops f lhs s with
  | case1 lhs s hnone => rw [chainRest, hnone]
  | case2 lhs s op s' hop hnone =>
    have hle := (takes_operator ht hop).length_le
    rw [chainRest, hop]
    dsimp only
    rw [← hfg s' (by omega), hnone]
  | case3 lhs s op s' hop rhs rest hrhs hlt ih =>
    have hle := (takes_operator ht hop).length_le
    rw [ih (by omega)]
    conv_rhs => rw [chainRest, hop]
    dsimp only
    rw [← hfg s' (by omega), hrhs]
    exact (if_pos hlt).symm
  | case4 lhs s op s' hop rhs rest hrhs hge =>
    have hle := (takes_operator ht hop).length_le
    rw [chainRest, hop]
    dsimp only
    rw [← hfg s' (by omega), hrhs]
    exact (if_neg hge).symm

theorem binary_congr {all : List (List Spelling)}
    (ht : ∀ ops ∈ all, ∀ o ∈ ops, o.token.toList.all isBare) {n : Nat}
    (hfg : ∀ s : List Char, s.length ≤ n → f s = g s) (hs : s.length ≤ n) :
    binary f all s = binary g all s := by
  induction all generalizing s with
  | nil => exact hfg s hs
  | cons ops all ih =>
    obtain ⟨hops, hall⟩ := List.forall_mem_cons.mp ht
    have hoperand := taking_binary hf hall
    rw [binary, binary, chain, chain, ← ih hall hs]
    cases hfirst : binary f all s with
    | none => rfl
    | some found =>
      obtain ⟨lhs, rest⟩ := found
      have hle := (hoperand hfirst).length_le
      rw [Option.map_some, Option.map_some]
      dsimp only
      rw [chainRest_congr hops (fun s hs => ih hall hs) lhs (by omega)]

theorem branches_congr (hfg : SameBelow s.length f g) {t : List Char} (ht : t.length ≤ s.length) :
    branches f t = branches g t := by
  unfold branches
  cases hif : symbol "?" t with
  | none => rfl
  | some s₁ =>
    have hlt := length_symbol (by decide) hif
    dsimp only
    rw [← hfg s₁ (by omega)]
    cases hyes : f s₁ with
    | none => rfl
    | some found =>
      obtain ⟨yes, s₂⟩ := found
      have hle := (hf hyes).length_le
      dsimp only
      cases helse : symbol ":" s₂ with
      | none => rfl
      | some s₃ =>
        have hlt' := length_symbol (by decide) helse
        dsimp only
        rw [hfg s₃ (by omega)]

-- What an expression makes of a text depends on shorter texts alone.
theorem conditional_congr (hfg : SameBelow s.length f g) : conditional f s = conditional g s := by
  have hlevels : ∀ ops ∈ levels, ∀ o ∈ ops, o.token.toList.all isBare := by decide
  unfold conditional
  rw [← binary_congr (taking_unary hf) hlevels (fun t ht => unary_congr hf hfg ht) (Nat.le_refl _)]
  cases hcond : binary (unary f) levels s with
  | none => rfl
  | some found =>
    obtain ⟨condition, rest⟩ := found
    have hle := (taking_binary (taking_unary hf) hlevels hcond).length_le
    dsimp only
    rw [branches_congr hf hfg hle]

end

-- By induction on how often the grammar is unrolled.
theorem iterate_conditional {n depth : Nat} (left : Reader Built) {s : List Char}
    (hn : s.length < n) (hdepth : s.length < depth) :
    conditional^[n] left s = expression depth s := by
  induction n generalizing s depth with
  | zero => omega
  | succ n ih =>
    obtain ⟨depth, rfl⟩ := Nat.exists_eq_add_one_of_ne_zero (Nat.ne_zero_of_lt hdepth)
    rw [Function.iterate_succ_apply']
    refine (conditional_congr (taking_expression _) fun t ht => ?_).symm
    exact (ih (by omega) (by omega)).symm

end Expression
end PageCompiler
