import PageCompiler.Proofs.Expression.SourceText
import Mathlib.Data.List.TakeWhile
import Mathlib.Tactic.Tauto

namespace PageCompiler

open Expression

def IsName (s : String) : Prop := ∀ c ∈ s.toList, isNameChar c = true

structure FunctionUse.HasNames (f : FunctionUse) : Prop where
  name : IsName f.name
  space : ∀ space ∈ f.space, IsName space

namespace Expression

-- Whatever is built, the functions that it calls have names.
def Named {α : Type} (calls : α → List FunctionUse) (m : Except String α) : Prop :=
  ∀ a, m = .ok a → ∀ f ∈ calls a, f.HasNames

namespace Named

variable {α β : Type} {calls : α → List FunctionUse} {calls' : β → List FunctionUse}

theorem pure {a : α} (h : ∀ f ∈ calls a, f.HasNames) : Named calls (.ok a) := by
  rintro _ ⟨⟩
  exact h

theorem error (digits : String) : Named calls (.error digits) := by
  rintro _ ⟨⟩

theorem bind {m : Except String α} {k : α → Except String β} (hm : Named calls m)
    (hk : ∀ a, (∀ f ∈ calls a, f.HasNames) → Named calls' (k a)) : Named calls' (m >>= k) := by
  cases m with
  | error digits => exact error digits
  | ok a => exact hk a (hm a rfl)

end Named

attribute [local simp] Expr.functions Expr.functionsOfAll

abbrev NamedCalls (b : Built) : Prop := Named Expr.functions b

theorem namedCalls_leaf {e : Expr} (h : e.functions = []) : NamedCalls (.ok e) := by
  refine .pure ?_
  simp [h]

theorem named_collect {args : List Built} (h : ∀ b ∈ args, NamedCalls b) :
    Named Expr.functionsOfAll (collect args) := by
  induction args with
  | nil => exact .pure (by simp [Expr.functionsOfAll])
  | cons b args ih =>
    obtain ⟨hb, hargs⟩ := List.forall_mem_cons.mp h
    refine hb.bind fun e he => (ih hargs).bind fun es hes => .pure ?_
    rw [Expr.functionsOfAll]
    exact List.forall_mem_append.mpr ⟨he, hes⟩

-- A reader that builds nothing else.
def Naming (reader : Reader Built) : Prop :=
  ∀ ⦃s rest : List Char⦄ ⦃b : Built⦄, reader s = some (b, rest) → NamedCalls b

theorem isName_of_nameHere {s name rest : List Char} (h : nameHere s = some (name, rest)) :
    IsName (String.ofList name) := by
  unfold nameHere at h
  split at h
  · cases h
  · rename_i c cs
    split at h
    · rename_i hstart
      cases h
      have hfirst : isNameChar c = true := by
        unfold isNameStart at hstart
        unfold isNameChar
        simp only [Char.isAlphanum, Bool.or_eq_true] at hstart ⊢
        tauto
      rw [IsName, String.toList_ofList, List.forall_mem_cons]
      exact ⟨hfirst, fun d hd => List.mem_takeWhile_imp hd⟩
    · cases h

theorem names_of_qualifiedName {s rest : List Char} {space : Option String} {name : String}
    (h : qualifiedName s = some ((space, name), rest)) (arity : Nat) :
    FunctionUse.HasNames ⟨space, name, arity⟩ := by
  unfold qualifiedName at h
  split at h
  · cases h
  · rename_i hfirst
    split at h
    · split at h
      · rename_i hsecond
        cases h
        refine ⟨isName_of_nameHere hsecond, ?_⟩
        rintro _ ⟨⟩
        exact isName_of_nameHere hfirst
      · cases h
        exact ⟨isName_of_nameHere hfirst, by simp⟩
    · cases h
      exact ⟨isName_of_nameHere hfirst, by simp⟩

theorem functions_decimalOf (whole fraction : List Char) (e : Int) :
    (decimalOf whole fraction e).functions = [] := by
  rw [decimalOf, Expr.functions]

theorem functions_decimalLiteral {s rest : List Char} {e : Expr}
    (h : decimalLiteral s = some (e, rest)) : e.functions = [] := by
  unfold decimalLiteral at h
  split at h
  · split at h
    · cases h
    · cases h
      exact functions_decimalOf _ _ _
  · cases h
  · cases h
    exact functions_decimalOf _ _ _
  · obtain ⟨⟨e', r⟩, -, heq⟩ := Option.map_eq_some_iff.mp h
    cases heq
    exact functions_decimalOf _ _ _

theorem functions_textLiteral {s rest : List Char} {e : Expr}
    (h : textLiteral s = some (e, rest)) : e.functions = [] := by
  unfold textLiteral at h
  split at h
  · cases h
  · split at h
    · obtain ⟨⟨t, r⟩, -, heq⟩ := Option.map_eq_some_iff.mp h
      cases heq
      rw [Expr.functions]
    · cases h

theorem functions_wordLiteral {s rest : List Char} {e : Expr}
    (h : wordLiteral s = some (e, rest)) : e.functions = [] := by
  unfold wordLiteral at h
  split at h
  · cases h
    rw [Expr.functions]
  · split at h
    · cases h
      rw [Expr.functions]
    · obtain ⟨r, -, heq⟩ := Option.map_eq_some_iff.mp h
      cases heq
      rw [Expr.functions]

theorem naming_literal : Naming literal := by
  intro s rest b h
  unfold literal at h
  split at h
  · rename_i hdecimal
    cases h
    exact namedCalls_leaf (functions_decimalLiteral hdecimal)
  · split at h
    · rename_i hinteger
      cases h
      unfold integerLiteral at hinteger
      split at hinteger
      · cases hinteger
      · cases hinteger
        split
        · exact namedCalls_leaf (by rw [Expr.functions])
        · exact .error _
    · split at h
      · rename_i htext
        cases h
        exact namedCalls_leaf (functions_textLiteral htext)
      · obtain ⟨⟨e, r⟩, hword, heq⟩ := Option.map_eq_some_iff.mp h
        cases heq
        exact namedCalls_leaf (functions_wordLiteral hword)

section

variable {inner : Reader Built} (hi : Naming inner)
include hi

theorem named_moreArgs (s : List Char) : ∀ b ∈ (moreArgs inner s).1, NamedCalls b := by
  fun_induction moreArgs inner s with
  | case1 s => simp
  | case2 s => simp
  | case3 s s' hs arg rest hrest _ args rest' heq ih =>
    rw [heq] at ih
    exact List.forall_mem_cons.mpr ⟨hi hrest, ih⟩
  | case4 s => simp

theorem named_arguments {s rest : List Char} {args : List Built}
    (h : arguments inner s = some (args, rest)) : ∀ b ∈ args, NamedCalls b := by
  unfold arguments at h
  split at h
  · cases h
  · dsimp only at h
    obtain ⟨r, -, heq⟩ := Option.map_eq_some_iff.mp h
    cases heq
    split
    · rename_i hinner
      exact List.forall_mem_cons.mpr ⟨hi hinner, named_moreArgs hi _⟩
    · simp

theorem naming_functionCall : Naming (functionCall inner) := by
  intro s rest b h
  unfold functionCall at h
  split at h
  · cases h
  · rename_i hname
    obtain ⟨⟨args, r⟩, hargs, heq⟩ := Option.map_eq_some_iff.mp h
    cases heq
    refine (named_collect (named_arguments hi hargs)).bind fun es hes => .pure ?_
    rw [Expr.functions]
    exact List.forall_mem_cons.mpr ⟨names_of_qualifiedName hname _, hes⟩

omit hi in
theorem naming_identifier : Naming identifier := by
  intro s rest b h
  unfold identifier at h
  split at h
  · cases h
  · dsimp only at h
    split at h
    · cases h
    · cases h
      exact namedCalls_leaf (by simp [Expr.functions])

theorem naming_bracketed : Naming (bracketed inner) := by
  intro s rest b h
  unfold bracketed at h
  split at h
  · cases h
  · split at h
    · cases h
    · rename_i hinner
      obtain ⟨r, -, heq⟩ := Option.map_eq_some_iff.mp h
      cases heq
      exact hi hinner

theorem naming_primary : Naming (primary inner) := by
  intro s rest b h
  unfold primary at h
  split at h
  · rename_i hl
    cases h
    exact naming_literal hl
  · split at h
    · rename_i hf
      cases h
      exact naming_functionCall hi hf
    · split at h
      · rename_i hid
        cases h
        exact naming_identifier hid
      · exact naming_bracketed hi h

theorem naming_memberSuffix {base : Built} (hbase : NamedCalls base) :
    Naming (memberSuffix inner base) := by
  intro s rest b h
  unfold memberSuffix at h
  split at h
  · cases h
  · split at h
    · cases h
    · dsimp only at h
      split at h
      · rename_i hargs
        cases h
        refine hbase.bind fun e he =>
          (named_collect (named_arguments hi hargs)).bind fun es hes => .pure ?_
        rw [Expr.functions]
        exact List.forall_mem_append.mpr ⟨he, hes⟩
      · cases h
        refine hbase.bind fun e he => .pure ?_
        rwa [Expr.functions]

theorem naming_indexSuffix {base : Built} (hbase : NamedCalls base) :
    Naming (indexSuffix inner base) := by
  intro s rest b h
  unfold indexSuffix at h
  split at h
  · cases h
  · split at h
    · cases h
    · rename_i hinner
      obtain ⟨r, -, heq⟩ := Option.map_eq_some_iff.mp h
      cases heq
      refine hbase.bind fun e he => (hi hinner).bind fun key hkey => .pure ?_
      rw [Expr.functions]
      exact List.forall_mem_append.mpr ⟨he, hkey⟩

theorem named_suffixes {base : Built} (hbase : NamedCalls base) (s : List Char) :
    NamedCalls (suffixes inner base s).1 := by
  fun_induction suffixes inner base s with
  | case1 base s => exact hbase
  | case2 base s e rest h _ ih =>
    refine ih ?_
    rcases Option.or_eq_some_iff.mp h with h | ⟨-, h⟩
    · exact naming_memberSuffix hi hbase h
    · exact naming_indexSuffix hi hbase h
  | case3 base s => exact hbase

theorem naming_unary : Naming (unary inner) := by
  intro s rest b h
  fun_induction unary inner s generalizing b with
  | case1 s =>
    obtain ⟨⟨base, t⟩, ht, heq⟩ := Option.map_eq_some_iff.mp h
    have hb : b = (suffixes inner base t).1 := (congrArg Prod.fst heq).symm
    rw [hb]
    exact named_suffixes hi (naming_primary hi ht) t
  | case2 s op t hop _ ih =>
    obtain ⟨⟨v, r⟩, hr, heq⟩ := Option.map_eq_some_iff.mp h
    cases heq
    refine (ih hr).bind fun e he => .pure ?_
    rwa [Expr.functions]
  | case3 => cases h

end

theorem named_chainRest {ops : List Spelling} {operand : Reader Built} (ho : Naming operand)
    {lhs : Built} (hlhs : NamedCalls lhs) (s : List Char) :
    NamedCalls (chainRest ops operand lhs s).1 := by
  fun_induction chainRest ops operand lhs s with
  | case1 lhs s => exact hlhs
  | case2 lhs s => exact hlhs
  | case3 lhs s op s' hop rhs rest hr _ ih =>
    refine ih (hlhs.bind fun e he => (ho hr).bind fun e' he' => .pure ?_)
    rw [Expr.functions]
    exact List.forall_mem_append.mpr ⟨he, he'⟩
  | case4 lhs s => exact hlhs

theorem naming_binary {operand : Reader Built} (ho : Naming operand)
    (levels : List (List Spelling)) : Naming (binary operand levels) := by
  induction levels with
  | nil => exact ho
  | cons ops levels ih =>
    intro s rest b h
    obtain ⟨⟨lhs, t⟩, hlhs, heq⟩ := Option.map_eq_some_iff.mp h
    have hb : b = (chainRest ops (binary operand levels) lhs t).1 := (congrArg Prod.fst heq).symm
    rw [hb]
    exact named_chainRest ih (ih hlhs) t

theorem named_branches {inner : Reader Built} (hi : Naming inner) {s rest : List Char}
    {yes no : Built} (h : branches inner s = some ((yes, no), rest)) :
    NamedCalls yes ∧ NamedCalls no := by
  unfold branches at h
  split at h
  · cases h
  · split at h
    · cases h
    · rename_i hyes
      split at h
      · cases h
      · obtain ⟨⟨no', r⟩, hno, heq⟩ := Option.map_eq_some_iff.mp h
        cases heq
        exact ⟨hi hyes, hi hno⟩

theorem naming_conditional {inner : Reader Built} (hi : Naming inner) :
    Naming (conditional inner) := by
  intro s rest b h
  unfold conditional at h
  split at h
  · cases h
  · rename_i hread
    have hcondition := naming_binary (naming_unary hi) _ hread
    split at h
    · rename_i hbranches
      cases h
      obtain ⟨hyes, hno⟩ := named_branches hi hbranches
      refine hcondition.bind fun e he => hyes.bind fun y hy => hno.bind fun n hn => .pure ?_
      rw [Expr.functions]
      exact List.forall_mem_append.mpr ⟨List.forall_mem_append.mpr ⟨he, hy⟩, hn⟩
    · cases h
      exact hcondition

theorem naming_expression (depth : Nat) : Naming (expression depth) := by
  induction depth with
  | zero =>
    intro s rest b h
    cases h
  | succ depth ih => exact naming_conditional ih

theorem hasNames_of_parse {s : List Char} {e : Expr} (h : parse s = .ok e) :
    ∀ f ∈ e.functions, f.HasNames := by
  unfold parse at h
  split at h
  · cases h
  · split at h
    · cases h
    · rename_i built rest hread
      split at h
      · cases built with
        | error digits => cases h
        | ok tree =>
          cases h
          exact naming_expression _ hread _ rfl
      · cases h

end Expression

-- The same of the expressions in a value.
theorem Composite.hasNames_of_legible {parts : List Part} (h : Legible parts) :
    ∀ f ∈ (Composite.mk parts).functions, f.HasNames := by
  induction parts with
  | nil => simp [functions]
  | cons part parts ih =>
    cases part with
    | text value => exact ih h.2.1
    | expr dialect source tree offset =>
      obtain ⟨-, hparse, hrest⟩ := h
      exact List.forall_mem_append.mpr ⟨hasNames_of_parse hparse, ih hrest⟩

end PageCompiler
