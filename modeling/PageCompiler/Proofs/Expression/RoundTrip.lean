import PageCompiler.Proofs.Expression.Depth
import PageCompiler.Proofs.Expression.Readings

namespace PageCompiler.Expression

open Text PageCompiler.Expr

-- The first of these tokens starts with a character that is not blank.
def StartsDark (ts : List Token) : Prop :=
  ∃ (c : Char) (cs : List Char) (us : List Token), ts = (c :: cs) :: us ∧ isBlank c = false

theorem StartsDark.append {ts : List Token} (h : StartsDark ts) (us : List Token) :
    StartsDark (ts ++ us) := by
  obtain ⟨c, cs, vs, rfl, hc⟩ := h
  exact ⟨c, cs, vs ++ us, rfl, hc⟩

theorem StartsDark.tokensAt {e : Expr} (h : StartsDark e.tokens) (k : Nat) :
    StartsDark (e.tokensAt k) := by
  rw [Expr.tokensAt, enclosed]
  split
  · exact ⟨'(', [], _, rfl, rfl⟩
  · exact h

theorem isBlank_of_name {c : Char} (h : isNameChar c) : isBlank c = false := by
  have h0 : '0'.val.toNat = 48 ∧ '9'.val.toNat = 57 := ⟨rfl, rfl⟩
  have hA : 'A'.val.toNat = 65 ∧ 'Z'.val.toNat = 90 := ⟨rfl, rfl⟩
  have ha : 'a'.val.toNat = 97 ∧ 'z'.val.toNat = 122 := ⟨rfl, rfl⟩
  have h_ : '_'.val.toNat = 95 ∧ '$'.val.toNat = 36 := ⟨rfl, rfl⟩
  by_contra hb
  simp only [isNameChar, Char.isAlphanum, Char.isAlpha, Char.isUpper, Char.isLower, Char.isDigit,
    Bool.or_eq_true, Bool.and_eq_true, decide_eq_true_eq, UInt32.le_iff_toNat_le, ge_iff_le] at h
  simp only [isBlank, Char.toNat, Bool.not_eq_false, Bool.or_eq_true, Bool.and_eq_true,
    decide_eq_true_eq, beq_iff_eq] at hb
  rcases h with (h | rfl) | rfl <;> omega

theorem startsDark_name {n : List Char} (h : isName n) (tail : List Char) (ts : List Token) :
    StartsDark ((n ++ tail) :: ts) := by
  obtain ⟨c, cs, rfl, hc, -⟩ := isName_cons h
  exact ⟨c, cs ++ tail, ts, rfl, isBlank_of_name (isNameChar_of_start hc)⟩

theorem startsDark_tokens : (e : Expr) → e.Writable → StartsDark e.tokens
  | .null, _ => ⟨'n', _, [], rfl, rfl⟩
  | .bool true, _ => ⟨'t', _, [], rfl, rfl⟩
  | .bool false, _ => ⟨'f', _, [], rfl, rfl⟩
  | .integer n, _ => by
    obtain ⟨c, cs, hds⟩ := List.exists_cons_of_ne_nil (Nat.toDigits_ne_nil (n := n) (b := 10))
    have hc : c.isDigit :=
      Nat.isDigit_of_mem_toDigits (by decide) (by decide) (hds ▸ List.mem_cons_self ..)
    exact ⟨c, cs, [], by rw [tokens, hds],
      isBlank_of_name (by simp [isNameChar, Char.isAlphanum, hc])⟩
  | .decimal _, h => absurd h (by simp only [Writable, not_false_eq_true])
  | .text _, _ => ⟨'"', _, [], rfl, rfl⟩
  | .identifier name, h => by
    simp only [Writable] at h
    simpa only [tokens, List.append_nil] using startsDark_name h.1 [] []
  | .property base _, h => by
    simp only [Writable] at h
    simp only [tokens]
    exact ((startsDark_tokens base h.1).tokensAt suffixLevel).append _
  | .index base _, h => by
    simp only [Writable] at h
    simp only [tokens]
    exact ((startsDark_tokens base h.1).tokensAt suffixLevel).append _
  | .method base _ _, h => by
    simp only [Writable] at h
    simp only [tokens]
    exact ((startsDark_tokens base h.1).tokensAt suffixLevel).append _
  | .call none name _, h => by
    simp only [Writable] at h
    simpa only [tokens, functionToken, List.append_nil] using startsDark_name h.2.1 [] _
  | .call (some space) _ _, h => by
    simp only [Writable] at h
    simpa only [tokens, functionToken] using startsDark_name (h.1 space rfl) _ _
  | .unary op _, _ => by cases op <;> exact ⟨_, _, _, rfl, rfl⟩
  | .binary op lhs _, h => by
    simp only [Writable] at h
    simp only [tokens]
    exact ((startsDark_tokens lhs h.1).tokensAt op.level).append _
  | .conditional condition _ _, h => by
    simp only [Writable] at h
    simp only [tokens]
    exact ((startsDark_tokens condition h.1).tokensAt 1).append _

theorem symbol_of_word {t : String} {s rest : List Char} (h : word t s = some rest) :
    symbol t s = some rest := by
  unfold word at h
  split at h
  · rename_i r hr
    split at h
    · cases h
    · rwa [← h]
  · cases h

theorem length_unaryOperator {op : UnaryOp} {s rest : List Char}
    (h : unaryOperator s = some (op, rest)) : rest.length < s.length := by
  obtain ⟨t, ht, hs⟩ : ∃ t : String, t.toList ≠ [] ∧ symbol t s = some rest := by
    unfold unaryOperator at h
    split at h
    · cases h
      exact ⟨"-", by decide, ‹_›⟩
    · split at h
      · cases h
        exact ⟨"!", by decide, ‹_›⟩
      · split at h
        · cases h
          exact ⟨"not", by decide, symbol_of_word ‹_›⟩
        · obtain ⟨r, hr, heq⟩ := Option.map_eq_some_iff.mp h
          cases heq
          exact ⟨"empty", by decide, symbol_of_word hr⟩
  exact length_symbol ht hs

theorem unary_blank (inner : Reader Built) (s : List Char) :
    unary inner (' ' :: s) = unary inner s := by
  rw [unary, unary]
  have hu : unaryOperator (' ' :: s) = unaryOperator s := rfl
  rw [hu]
  split
  · rfl
  · rename_i op rest h
    have hlen := length_unaryOperator h
    have hlen' : rest.length < (' ' :: s).length := Nat.lt_succ_of_lt hlen
    rw [if_pos hlen, if_pos hlen']

-- Readers of whole expressions do not see a blank in front.
theorem expression_blank (d : Nat) (s : List Char) :
    expression d (' ' :: s) = expression d s := by
  cases d with
  | zero => rfl
  | succ d => simp only [expression, conditional, levels, binary, chain, unary_blank]

theorem spaced_tokens {e : Expr} (h : e.Writable) : spaced e.tokens = ' ' :: e.render := by
  obtain ⟨c, cs, us, ht, -⟩ := startsDark_tokens e h
  exact spaced_eq_cons_intercalate (by simp [ht])

theorem render_eq {e : Expr} (h : e.Writable) :
    ∃ c cs us, e.tokens = (c :: cs) :: us ∧ isBlank c = false ∧
      e.render = c :: (cs ++ spaced us) := by
  obtain ⟨c, cs, us, ht, hc⟩ := startsDark_tokens e h
  have hs := spaced_tokens h
  rw [ht, spaced_cons, List.cons.injEq] at hs
  exact ⟨c, cs, us, ht, hc, hs.2.symm⟩

-- The reader allows for as many nested levels as the text has characters, and every token has at
-- least one of its own.
theorem expression_render {e : Expr} (h : e.Writable) :
    expression (e.render.length + 1) e.render = some (.ok e, []) := by
  obtain ⟨c, cs, us, ht, -, hr⟩ := render_eq h
  have hlen : e.tokens.length ≤ e.render.length := by
    have hle := length_le_spaced us
    rw [ht, hr]
    simp only [List.length_cons, List.length_append]
    omega
  have hwhole := (reads_of_writable e h).whole e.render.length [] hlen .done
  rw [List.append_nil, spaced_tokens h] at hwhole
  rw [← expression_blank]
  exact hwhole

theorem parse_render (e : Expr) (h : e.Writable) : parse e.render = .ok e := by
  obtain ⟨c, cs, us, -, hc, hr⟩ := render_eq h
  have hdark : allBlank e.render = false := by simp [allBlank, hr, hc]
  rw [parse, hdark, expression_render h]
  rfl

-- The conditional inside the sum keeps its parentheses, and so does the right operand of the same
-- level; a method call on a literal and a qualified call need none.
def sampleExpr : Expr :=
  .binary .sub (.binary .add (.integer 1) (.conditional (.identifier "a") .null (.text "q\"")))
    (.binary .sub (.unary .empty (.method (.text "x") "and" [.integer 2, .bool true]))
      (.index (.call (some "fn") "not" []) (.property (.identifier "b") "c")))

theorem sampleExpr_writable : sampleExpr.Writable := by
  simp only [sampleExpr, Expr.Writable, Expr.AllWritable]
  decide

theorem parse_render_sampleExpr :
    sampleExpr.Writable ∧ parse sampleExpr.render = .ok sampleExpr :=
  ⟨sampleExpr_writable, parse_render sampleExpr sampleExpr_writable⟩

end PageCompiler.Expression
