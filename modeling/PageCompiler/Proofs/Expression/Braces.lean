import PageCompiler.Expression.Composite
import Mathlib.Data.List.TakeDrop
import Mathlib.Data.List.TakeWhile

-- An expression ends where the grammar says it ends: the search for the closing brace passes over
-- everything that a reader of the grammar takes, because braces and quotes stand in quoted text
-- only.
namespace PageCompiler.Composite

open Text

-- The search does not stop inside of the text, and is in the state from before when it leaves it.
def Passed (w : List Char) : Prop :=
  ∀ (depth : Nat) (rest : List Char),
    closeBrace none depth (w ++ rest) =
      (closeBrace none depth rest).map fun cut => (w ++ cut.1, cut.2)

-- Neither a brace nor a quote.
def isBare (c : Char) : Bool := c != '\'' && c != '"' && c != '{' && c != '}'

theorem passed_nil : Passed [] := by
  intro depth rest
  simp

theorem Passed.append {v w : List Char} (hv : Passed v) (hw : Passed w) : Passed (v ++ w) := by
  intro depth rest
  rw [List.append_assoc, hv, hw, Option.map_map]
  simp [Function.comp_def]

theorem closeBrace_bare {c : Char} (h : isBare c) (depth : Nat) (s : List Char) :
    closeBrace none depth (c :: s) =
      (closeBrace none depth s).map fun cut => (c :: cut.1, cut.2) := by
  simp only [isBare, Bool.and_eq_true, bne_iff_ne, ne_eq] at h
  obtain ⟨⟨⟨hq, hd⟩, ho⟩, hc⟩ := h
  rw [closeBrace.eq_def]
  simp [hq, hd, ho, hc]

theorem passed_bare {w : List Char} (h : ∀ c ∈ w, isBare c) : Passed w := by
  induction w with
  | nil => exact passed_nil
  | cons c w ih =>
    intro depth rest
    have hw := ih fun d hd => h d (List.mem_cons_of_mem _ hd)
    rw [List.cons_append, closeBrace_bare (h c (List.mem_cons_self ..)), hw, Option.map_map]
    simp [Function.comp_def]

-- Inside of quotes, up to the closing one.
theorem closeBrace_quotedText {q : Char} (hq : q ≠ '\\') {s t rest : List Char}
    (h : Expression.quotedText q s = some (t, rest)) :
    ∃ w, s = w ++ rest ∧ ∀ (depth : Nat) (tail : List Char),
      closeBrace (some q) depth (w ++ tail) =
        (closeBrace none depth tail).map fun cut => (w ++ cut.1, cut.2) := by
  fun_induction Expression.quotedText q s generalizing t with
  | case1 => cases h
  | case2 cs =>
    cases h
    refine ⟨[q], rfl, fun depth tail => ?_⟩
    rw [List.singleton_append, closeBrace.eq_def]
    simp [hq]
  | case3 => cases h
  | case4 d ds hc ih =>
    obtain ⟨⟨t', rest'⟩, hq', heq⟩ := Option.map_eq_some_iff.mp h
    cases heq
    obtain ⟨w, rfl, hw⟩ := ih hq'
    refine ⟨'\\' :: d :: w, rfl, fun depth tail => ?_⟩
    rw [List.cons_append, List.cons_append, closeBrace.eq_def]
    simp [hw, Function.comp_def]
  | case5 c cs hc he ih =>
    obtain ⟨⟨t', rest'⟩, hq', heq⟩ := Option.map_eq_some_iff.mp h
    cases heq
    obtain ⟨w, rfl, hw⟩ := ih hq'
    refine ⟨c :: w, rfl, fun depth tail => ?_⟩
    rw [List.cons_append, closeBrace.eq_def]
    simp [hc, he, hw, Function.comp_def]

-- The text in front of the rest is passed over.
def Takes (s rest : List Char) : Prop := ∃ w, s = w ++ rest ∧ Passed w

theorem Takes.refl (s : List Char) : Takes s s := ⟨[], rfl, passed_nil⟩

theorem Takes.trans {s t u : List Char} (h : Takes s t) (h' : Takes t u) : Takes s u := by
  obtain ⟨v, rfl, hv⟩ := h
  obtain ⟨w, rfl, hw⟩ := h'
  exact ⟨v ++ w, (List.append_assoc ..).symm, hv.append hw⟩

theorem takes_bare {w rest : List Char} (h : ∀ c ∈ w, isBare c) : Takes (w ++ rest) rest :=
  ⟨w, rfl, passed_bare h⟩

-- One character that is neither a brace nor a quote.
theorem takes_cons {c : Char} (h : isBare c) (s : List Char) : Takes (c :: s) s :=
  takes_bare (w := [c]) (by simpa using h)

-- A run of characters of one kind, none of which is a brace or a quote.
theorem takes_dropWhile {p : Char → Bool} (hp : ∀ c, p c → isBare c) (s : List Char) :
    Takes s (s.dropWhile p) := by
  have hs : s = s.takeWhile p ++ s.dropWhile p := (List.takeWhile_append_dropWhile ..).symm
  conv => lhs; rw [hs]
  exact takes_bare fun c hc => hp c (List.mem_takeWhile_imp hc)

theorem takes_stripStart? {p s rest : List Char} (hp : p.all isBare)
    (h : stripStart? p s = some rest) : Takes s rest := by
  rw [eq_of_stripStart? h]
  exact takes_bare (List.all_eq_true.mp hp)

end PageCompiler.Composite

namespace PageCompiler.Expression

open Text Composite

-- A character that is no brace and no quote, because one of its kind never is.
theorem isBare_of {p : Char → Bool} (hp : p '\'' = false ∧ p '"' = false ∧ p '{' = false ∧
    p '}' = false) (c : Char) (h : p c) : isBare c := by
  obtain ⟨h1, h2, h3, h4⟩ := hp
  simp only [isBare, Bool.and_eq_true, bne_iff_ne, ne_eq]
  refine ⟨⟨⟨?_, ?_⟩, ?_⟩, ?_⟩ <;> rintro rfl <;> simp_all

theorem takes_skipGap (s : List Char) : Takes s (skipGap s) :=
  takes_dropWhile (isBare_of (by decide)) s

theorem takes_digitRun {s digits rest : List Char} (h : digitRun s = (digits, rest)) :
    Takes s rest := by
  rw [digitRun, List.span_eq_takeWhile_dropWhile] at h
  cases h
  exact takes_dropWhile (isBare_of (by decide)) s

theorem takes_symbol {token : String} (ht : token.toList.all isBare) {s rest : List Char}
    (h : symbol token s = some rest) : Takes s rest :=
  (takes_skipGap s).trans (takes_stripStart? ht h)

theorem takes_word {token : String} (ht : token.toList.all isBare) {s rest : List Char}
    (h : word token s = some rest) : Takes s rest := by
  unfold word at h
  split at h
  · rename_i r hr
    split at h
    · cases h
    · cases h
      exact (takes_skipGap s).trans (takes_stripStart? ht hr)
  · cases h

theorem takes_nameHere {s name rest : List Char} (h : nameHere s = some (name, rest)) :
    Takes s rest := by
  cases s with
  | nil => cases h
  | cons c cs =>
    rw [nameHere] at h
    split at h
    · rename_i hc
      cases h
      have hhead := takes_cons (isBare_of (by decide) c hc) cs
      exact hhead.trans (takes_dropWhile (isBare_of (by decide)) cs)
    · cases h

theorem takes_operator {ops : List Spelling} (ht : ∀ o ∈ ops, o.token.toList.all isBare)
    {s rest : List Char} {op : BinaryOp} (h : operator ops s = some (op, rest)) :
    Takes s rest := by
  induction ops with
  | nil => cases h
  | cons o ops ih =>
    have hops := ih fun o ho => ht o (List.mem_cons_of_mem _ ho)
    rw [operator] at h
    split at h
    · rename_i r hr
      split at h
      · cases h
        exact takes_symbol (ht o (List.mem_cons_self ..)) hr
      · exact hops h
    · exact hops h

theorem takes_unaryOperator {s rest : List Char} {op : UnaryOp}
    (h : unaryOperator s = some (op, rest)) : Takes s rest := by
  unfold unaryOperator at h
  split at h
  · rename_i r hr
    cases h
    exact takes_symbol (by decide) hr
  · split at h
    · rename_i r hr
      cases h
      exact takes_symbol (by decide) hr
    · split at h
      · rename_i r hr
        cases h
        exact takes_word (by decide) hr
      · obtain ⟨r, hr, heq⟩ := Option.map_eq_some_iff.mp h
        cases heq
        exact takes_word (by decide) hr

theorem takes_exponent {s rest : List Char} {e : Int} (h : exponent s = some (e, rest)) :
    Takes s rest := by
  cases s with
  | nil => cases h
  | cons c s =>
    unfold exponent at h
    dsimp only at h
    split at h
    · rename_i hc
      have hbare : isBare c := by
        simp only [Bool.or_eq_true, decide_eq_true_eq] at hc
        rcases hc with rfl | rfl <;> decide
      refine (takes_cons hbare s).trans ?_
      split at h
      · cases h
      · rename_i hrun
        cases h
        have hdigits := takes_digitRun hrun
        -- The digits stand behind a sign or right here.
        split at hdigits
        · exact (takes_cons (by decide) _).trans hdigits
        · exact (takes_cons (by decide) _).trans hdigits
        · exact hdigits
    · cases h

theorem takes_exponentOrZero (s : List Char) : Takes s (exponentOrZero s).2 := by
  unfold exponentOrZero
  cases h : exponent s with
  | none => exact .refl s
  | some r => exact takes_exponent h

theorem takes_decimalLiteral {s rest : List Char} {e : Expr}
    (h : decimalLiteral s = some (e, rest)) : Takes s rest := by
  unfold decimalLiteral at h
  split at h
  · rename_i t hrun
    have ht : Takes s t := (takes_digitRun hrun).trans (takes_cons (by decide) t)
    split at h
    · cases h
    · rename_i hfraction
      cases h
      exact ht.trans ((takes_digitRun hfraction).trans (takes_exponentOrZero _))
  · cases h
  · rename_i t _ hrun
    cases h
    have ht : Takes s t := (takes_digitRun hrun).trans (takes_cons (by decide) t)
    exact ht.trans ((takes_digitRun rfl).trans (takes_exponentOrZero _))
  · rename_i hrun
    obtain ⟨⟨v, r⟩, hr, heq⟩ := Option.map_eq_some_iff.mp h
    cases heq
    exact (takes_digitRun hrun).trans (takes_exponent hr)

theorem takes_integerLiteral {s rest : List Char} {e : Built}
    (h : integerLiteral s = some (e, rest)) : Takes s rest := by
  unfold integerLiteral at h
  split at h
  · cases h
  · rename_i hrun
    cases h
    exact takes_digitRun hrun

theorem takes_textLiteral {s rest : List Char} {e : Expr}
    (h : textLiteral s = some (e, rest)) : Takes s rest := by
  cases s with
  | nil => cases h
  | cons c s =>
    rw [textLiteral] at h
    split at h
    · rename_i hc
      obtain ⟨⟨t, r⟩, hr, heq⟩ := Option.map_eq_some_iff.mp h
      cases heq
      simp only [Bool.or_eq_true, decide_eq_true_eq] at hc
      have hne : c ≠ '\\' := by rcases hc with rfl | rfl <;> decide
      obtain ⟨w, rfl, hw⟩ := closeBrace_quotedText hne hr
      refine ⟨c :: w, rfl, fun depth tail => ?_⟩
      rw [List.cons_append, closeBrace.eq_def]
      rcases hc with rfl | rfl <;> simp [hw, Function.comp_def]
    · cases h

theorem takes_wordLiteral {s rest : List Char} {e : Expr}
    (h : wordLiteral s = some (e, rest)) : Takes s rest := by
  unfold wordLiteral at h
  split at h
  · rename_i r hr
    cases h
    exact takes_word (by decide) hr
  · split at h
    · rename_i r hr
      cases h
      exact takes_word (by decide) hr
    · obtain ⟨r, hr, heq⟩ := Option.map_eq_some_iff.mp h
      cases heq
      exact takes_word (by decide) hr

theorem takes_literal {s rest : List Char} {e : Built} (h : literal s = some (e, rest)) :
    Takes s rest := by
  unfold literal at h
  split at h
  · rename_i hd
    cases h
    exact takes_decimalLiteral hd
  · split at h
    · rename_i hi
      cases h
      exact takes_integerLiteral hi
    · split at h
      · rename_i ht
        cases h
        exact takes_textLiteral ht
      · obtain ⟨⟨v, r⟩, hw, heq⟩ := Option.map_eq_some_iff.mp h
        cases heq
        exact takes_wordLiteral hw

-- A reader that takes only what the search passes over.
def Taking {α : Type} (reader : Reader α) : Prop :=
  ∀ ⦃s rest : List Char⦄ ⦃a : α⦄, reader s = some (a, rest) → Takes s rest

section
variable {inner : Reader Built} (hi : Taking inner)
include hi

theorem takes_moreArgs (s : List Char) : Takes s (moreArgs inner s).2 := by
  fun_induction moreArgs inner s with
  | case1 s => exact .refl s
  | case2 s => exact .refl s
  | case3 s s' hs arg rest hrest _ args rest' heq ih =>
    rw [heq] at ih
    exact (takes_symbol (by decide) hs).trans ((hi hrest).trans ih)
  | case4 s => exact .refl s

theorem takes_arguments {s rest : List Char} {args : List Built}
    (h : arguments inner s = some (args, rest)) : Takes s rest := by
  unfold arguments at h
  split at h
  · cases h
  · rename_i t ht
    dsimp only at h
    obtain ⟨r, hr, heq⟩ := Option.map_eq_some_iff.mp h
    cases heq
    have hopen := takes_symbol (by decide) ht
    have hclose := takes_symbol (by decide) hr
    split at hclose
    · rename_i hinner
      exact hopen.trans ((hi hinner).trans ((takes_moreArgs hi _).trans hclose))
    · exact hopen.trans hclose

omit hi in
theorem takes_qualifiedName {s rest : List Char} {name : Option String × String}
    (h : qualifiedName s = some (name, rest)) : Takes s rest := by
  unfold qualifiedName at h
  split at h
  · cases h
  · rename_i first behind hfirst
    have htake : Takes s behind := (takes_skipGap s).trans (takes_nameHere hfirst)
    split at h
    · rename_i r
      split at h
      · rename_i hsecond
        cases h
        exact htake.trans ((takes_cons (by decide) r).trans (takes_nameHere hsecond))
      · cases h
        exact htake
    · cases h
      exact htake

theorem taking_functionCall : Taking (functionCall inner) := by
  intro s rest e h
  unfold functionCall at h
  split at h
  · cases h
  · rename_i hname
    obtain ⟨⟨args, r⟩, hr, heq⟩ := Option.map_eq_some_iff.mp h
    cases heq
    exact (takes_qualifiedName hname).trans (takes_arguments hi hr)

omit hi in
theorem taking_identifier : Taking identifier := by
  intro s rest e h
  unfold identifier at h
  split at h
  · cases h
  · rename_i hname
    dsimp only at h
    split at h
    · cases h
    · cases h
      exact (takes_skipGap s).trans (takes_nameHere hname)

theorem taking_bracketed : Taking (bracketed inner) := by
  intro s rest e h
  unfold bracketed at h
  split at h
  · cases h
  · rename_i hopen
    split at h
    · cases h
    · rename_i hinner
      obtain ⟨r, hr, heq⟩ := Option.map_eq_some_iff.mp h
      cases heq
      exact (takes_symbol (by decide) hopen).trans
        ((hi hinner).trans (takes_symbol (by decide) hr))

theorem taking_primary : Taking (primary inner) := by
  intro s rest e h
  unfold primary at h
  split at h
  · rename_i hl
    cases h
    exact (takes_skipGap s).trans (takes_literal hl)
  · split at h
    · rename_i hf
      cases h
      exact taking_functionCall hi hf
    · split at h
      · rename_i hid
        cases h
        exact taking_identifier hid
      · exact taking_bracketed hi h

theorem taking_memberSuffix (base : Built) : Taking (memberSuffix inner base) := by
  intro s rest e h
  unfold memberSuffix at h
  split at h
  · cases h
  · rename_i hdot
    split at h
    · cases h
    · rename_i hname
      have hmember := (takes_symbol (by decide) hdot).trans
        ((takes_skipGap _).trans (takes_nameHere hname))
      dsimp only at h
      split at h
      · rename_i hargs
        cases h
        exact hmember.trans (takes_arguments hi hargs)
      · cases h
        exact hmember

theorem taking_indexSuffix (base : Built) : Taking (indexSuffix inner base) := by
  intro s rest e h
  unfold indexSuffix at h
  split at h
  · cases h
  · rename_i hopen
    split at h
    · cases h
    · rename_i hinner
      obtain ⟨r, hr, heq⟩ := Option.map_eq_some_iff.mp h
      cases heq
      exact (takes_symbol (by decide) hopen).trans
        ((hi hinner).trans (takes_symbol (by decide) hr))

theorem takes_suffixes (base : Built) (s : List Char) : Takes s (suffixes inner base s).2 := by
  fun_induction suffixes inner base s with
  | case1 base s => exact .refl s
  | case2 base s e rest h _ ih =>
    rcases Option.or_eq_some_iff.mp h with h | ⟨-, h⟩
    · exact (taking_memberSuffix hi base h).trans ih
    · exact (taking_indexSuffix hi base h).trans ih
  | case3 base s => exact .refl s

theorem taking_suffixed : Taking (suffixed inner) := by
  intro s rest e h
  obtain ⟨⟨base, t⟩, ht, heq⟩ := Option.map_eq_some_iff.mp h
  have hrest : rest = (suffixes inner base t).2 := (congrArg Prod.snd heq).symm
  rw [hrest]
  exact (taking_primary hi ht).trans (takes_suffixes hi base t)

theorem taking_unary : Taking (unary inner) := by
  intro s rest e h
  fun_induction unary inner s generalizing e with
  | case1 s => exact taking_suffixed hi h
  | case2 s op t hop _ ih =>
    obtain ⟨⟨v, r⟩, hr, heq⟩ := Option.map_eq_some_iff.mp h
    cases heq
    exact (takes_unaryOperator hop).trans (ih hr)
  | case3 => cases h

end

theorem takes_chainRest {ops : List Spelling} (ht : ∀ o ∈ ops, o.token.toList.all isBare)
    {operand : Reader Built} (ho : Taking operand) (lhs : Built) (s : List Char) :
    Takes s (chainRest ops operand lhs s).2 := by
  fun_induction chainRest ops operand lhs s with
  | case1 lhs s => exact .refl s
  | case2 lhs s => exact .refl s
  | case3 lhs s op s' hop rhs rest hr _ ih =>
    exact (takes_operator ht hop).trans ((ho hr).trans ih)
  | case4 lhs s => exact .refl s

-- From the tightest level outwards.
theorem taking_binary {operand : Reader Built} (ho : Taking operand)
    {all : List (List Spelling)} (ht : ∀ ops ∈ all, ∀ o ∈ ops, o.token.toList.all isBare) :
    Taking (binary operand all) := by
  induction all with
  | nil => exact ho
  | cons ops all ih =>
    have htight := ih fun ops hops => ht ops (List.mem_cons_of_mem _ hops)
    intro s rest e h
    obtain ⟨⟨lhs, t⟩, hlhs, heq⟩ := Option.map_eq_some_iff.mp h
    have hrest : rest = (chainRest ops (binary operand all) lhs t).2 := (congrArg Prod.snd heq).symm
    rw [hrest]
    exact (htight hlhs).trans (takes_chainRest (ht ops (List.mem_cons_self ..)) htight lhs t)

theorem takes_branches {inner : Reader Built} (hi : Taking inner) {s rest : List Char}
    {both : Built × Built} (h : branches inner s = some (both, rest)) : Takes s rest := by
  unfold branches at h
  split at h
  · cases h
  · rename_i hq
    split at h
    · cases h
    · rename_i hyes
      split at h
      · cases h
      · rename_i hcolon
        obtain ⟨⟨no, r⟩, hno, heq⟩ := Option.map_eq_some_iff.mp h
        cases heq
        exact (takes_symbol (by decide) hq).trans ((hi hyes).trans
          ((takes_symbol (by decide) hcolon).trans (hi hno)))

theorem taking_conditional {inner : Reader Built} (hi : Taking inner) :
    Taking (conditional inner) := by
  have hlevels : ∀ ops ∈ levels, ∀ o ∈ ops, o.token.toList.all isBare := by decide
  intro s rest e h
  unfold conditional at h
  split at h
  · cases h
  · rename_i hcondition
    have htake := taking_binary (taking_unary hi) hlevels hcondition
    split at h
    · rename_i hb
      cases h
      exact htake.trans (takes_branches hi hb)
    · cases h
      exact htake

theorem taking_expression (depth : Nat) : Taking (expression depth) := by
  induction depth with
  | zero =>
    intro s rest e h
    cases h
  | succ depth ih => exact taking_conditional ih

theorem passed_of_parse {s : List Char} {e : Expr} (h : parse s = .ok e) : Passed s := by
  unfold parse at h
  split at h
  · cases h
  · split at h
    · cases h
    · rename_i built rest hread
      split at h
      · rename_i hgap
        have htake := (taking_expression _ hread).trans (takes_skipGap rest)
        rw [hgap] at htake
        obtain ⟨w, hw, hpassed⟩ := htake
        rwa [hw, List.append_nil]
      · cases h

-- The brace behind an expression is the one that closes it, whatever comes next.
theorem closeBrace_of_parse {s : List Char} {e : Expr} (h : parse s = .ok e) (rest : List Char) :
    closeBrace none 0 (s ++ '}' :: rest) = some (s, rest) := by
  rw [passed_of_parse h]
  simp [closeBrace]

end PageCompiler.Expression
