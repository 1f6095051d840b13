import PageCompiler.Proofs.Expression.Levels

-- Every form is read at its own level, which gives the readings at all other levels: at weaker ones
-- without and at tighter ones with parentheses around it.
namespace PageCompiler.Expression

open Text PageCompiler.Expr

-- Every form of expression is read through the equations of these three.
attribute [local simp] Writable AllWritable tokens

theorem tokensAt_of_le {k : Nat} {e : Expr} (h : k ≤ e.level) : e.tokensAt k = e.tokens := by
  rw [tokensAt, enclosed, if_neg (by omega)]

theorem tokensAt_of_lt {k : Nat} {e : Expr} (h : e.level < k) :
    e.tokensAt k = "(".toList :: (e.tokens ++ [")".toList]) := by
  rw [tokensAt, enclosed, if_pos h]

theorem level_le_suffix (e : Expr) : e.level ≤ suffixLevel := by
  cases e with
  | binary op => exact Nat.le_of_lt (Nat.lt_trans (level_lt_unary op) (by decide))
  | _ => simp [level, suffixLevel, unaryLevel]

-- The expression is read as a whole between brackets and branches.
def ReadsWhole (e : Expr) : Prop :=
  ∀ (d : Nat) (ts : List Token), e.tokens.length ≤ d → Follows 0 ts →
    conditional (expression d) (spaced (e.tokens ++ ts)) = some (.ok e, spaced ts)

-- The expression is read as an operand of the operators of a level.
def ReadsOperand (j : Nat) (e : Expr) : Prop :=
  ∀ (d : Nat) (ts : List Token), (e.tokensAt (j + 1)).length ≤ d → Follows (j + 1) ts →
    operand (expression d) j (spaced (e.tokensAt (j + 1) ++ ts)) = some (.ok e, spaced ts)

-- The expression is read as the start of a chain of operands, which then goes on behind it.
def ReadsChain (j : Nat) (e : Expr) : Prop :=
  ∀ (d : Nat) (ts : List Token), (e.tokensAt (j + 1)).length ≤ d → Follows (j + 2) ts →
    operand (expression d) j (spaced (e.tokensAt (j + 1) ++ ts)) =
      some (chainRest (spellings j) (operand (expression d) (j + 1)) (.ok e) (spaced ts))

-- The expression is read as what suffixes stand behind.
def ReadsBase (e : Expr) : Prop :=
  ∀ (d : Nat) (ts : List Token), (e.tokensAt suffixLevel).length ≤ d →
    Follows (suffixLevel + 1) ts →
    unaryOperator (spaced (e.tokensAt suffixLevel ++ ts)) = none ∧
      suffixed (expression d) (spaced (e.tokensAt suffixLevel ++ ts)) =
        some (suffixes (expression d) (.ok e) (spaced ts))

structure Reads (e : Expr) : Prop where
  whole : ReadsWhole e
  operand : ∀ j ≤ 7, ReadsOperand j e
  chain : ∀ j < 7, ReadsChain j e
  base : ReadsBase e

-- One nesting level further in.
theorem ReadsWhole.nested {e : Expr} (h : ReadsWhole e) {d : Nat} {ts : List Token}
    (hd : e.tokens.length < d) (hf : Follows 0 ts) :
    expression d (spaced (e.tokens ++ ts)) = some (.ok e, spaced ts) := by
  cases d with
  | zero => omega
  | succ d => exact h d ts (by omega) hf

theorem suffixed_of_primary {inner : Reader Built} {s rest : List Char} {b : Built}
    (h : primary inner s = some (b, rest)) :
    suffixed inner s = some (suffixes inner b rest) := by
  simp [suffixed, h]

theorem ReadsWhole.base {e : Expr} (h : ReadsWhole e) (hl : e.level < suffixLevel) :
    ReadsBase e := by
  intro d ts hd _
  rw [tokensAt_of_lt hl] at hd ⊢
  have hlen : e.tokens.length < d := by simp at hd; omega
  have hin := h.nested hlen (.closer_of (by decide) 0 ts : Follows 0 (")".toList :: ts))
  have htext : spaced (("(".toList :: (e.tokens ++ [")".toList])) ++ ts) =
      ' ' :: '(' :: spaced (e.tokens ++ ")".toList :: ts) := by simp
  rw [htext]
  refine ⟨rfl, suffixed_of_primary ?_⟩
  have hb : bracketed (expression d) (' ' :: '(' :: spaced (e.tokens ++ ")".toList :: ts)) =
      some (.ok e, spaced ts) := by
    rw [bracketed]
    simp only [show ∀ s, symbol "(" (' ' :: '(' :: s) = some s from fun _ => rfl, hin]
    rfl
  exact hb

theorem ReadsBase.operand {e : Expr} (h : ReadsBase e) {j : Nat} (hj : j ≤ 7)
    (ht : e.tokensAt (j + 1) = e.tokensAt suffixLevel) : ReadsOperand j e := by
  intro d ts hd hf
  rw [ht] at hd ⊢
  obtain ⟨hu, hs⟩ := h d ts hd (hf.mono (by simp [suffixLevel]; omega))
  have h7 := unary_lift hu hs (hf.mono (by simp [unaryLevel]; omega))
  exact operand_lift hj le_rfl h7 hf

theorem ReadsOperand.lift {e : Expr} {i j : Nat} (h : ReadsOperand j e) (hij : i ≤ j) (hj : j ≤ 7)
    (hl : j + 1 ≤ e.level) : ReadsOperand i e := by
  intro d ts hd hf
  rw [tokensAt_of_le (by omega)] at hd ⊢
  have hj' := h d ts (by rwa [tokensAt_of_le hl]) (hf.mono (by omega))
  rw [tokensAt_of_le hl] at hj'
  exact operand_lift hij hj hj' hf

theorem ReadsOperand.whole {e : Expr} (h : ReadsOperand 0 e) (hl : 1 ≤ e.level) :
    ReadsWhole e := by
  intro d ts hd hf
  have h0 := h d ts (by rwa [tokensAt_of_le hl]) (hf.mono (by omega))
  rw [tokensAt_of_le hl] at h0
  exact conditional_lift h0 hf

theorem ReadsOperand.chain {e : Expr} {j : Nat} (h : ReadsOperand (j + 1) e) (hj : j < 7)
    (hl : e.level ≠ j + 1) : ReadsChain j e := by
  intro d ts hd hf
  have ht : e.tokensAt (j + 1) = e.tokensAt (j + 1 + 1) := by
    rcases Nat.lt_or_gt_of_ne hl with hlt | hgt
    · rw [tokensAt_of_lt hlt, tokensAt_of_lt (by omega)]
    · rw [tokensAt_of_le (by omega), tokensAt_of_le (by omega)]
  rw [operand_chain hj, ht]
  exact chain_of_operand (h d ts (ht ▸ hd) hf)

-- The readings at the levels up to the expression's own give all others.
theorem Reads.of_own {e : Expr} (hwhole : ReadsWhole e)
    (hweak : ∀ j ≤ 7, j + 1 ≤ e.level → ReadsOperand j e)
    (hown : ∀ j < 7, e.level = j + 1 → ReadsChain j e)
    (hbase : e.level = suffixLevel → ReadsBase e) : Reads e := by
  have base : ReadsBase e := by
    rcases Nat.lt_or_eq_of_le (level_le_suffix e) with hlt | heq
    · exact hwhole.base hlt
    · exact hbase heq
  have operand : ∀ j ≤ 7, ReadsOperand j e := by
    intro j hj
    by_cases hl : j + 1 ≤ e.level
    · exact hweak j hj hl
    · have hs : e.level < suffixLevel := by simp only [suffixLevel]; omega
      exact base.operand hj (by rw [tokensAt_of_lt (by omega), tokensAt_of_lt hs])
  refine ⟨hwhole, operand, fun j hj => ?_, base⟩
  by_cases hl : e.level = j + 1
  · exact hown j hj hl
  · exact ReadsOperand.chain (operand (j + 1) (by omega)) hj hl

theorem Reads.of_base {e : Expr} (hl : e.level = suffixLevel) (h : ReadsBase e) : Reads e := by
  have hop : ∀ j ≤ 7, ReadsOperand j e := fun j hj =>
    h.operand hj (by rw [tokensAt_of_le (by simp [hl, suffixLevel]; omega),
      tokensAt_of_le hl.ge])
  exact .of_own ((hop 0 (by omega)).whole (by simp [hl, suffixLevel])) (fun j hj _ => hop j hj)
    (fun j hj hj' => absurd hl (by simp only [hj', suffixLevel]; omega)) fun _ => h

-- Forms that stand for themselves are read by the first reader of operands.
theorem Reads.of_primary {e : Expr} (hl : e.level = suffixLevel)
    (h : ∀ (d : Nat) (ts : List Token), e.tokens.length ≤ d → Follows (suffixLevel + 1) ts →
      unaryOperator (spaced (e.tokens ++ ts)) = none ∧
        primary (expression d) (spaced (e.tokens ++ ts)) = some (.ok e, spaced ts)) :
    Reads e := by
  apply Reads.of_base hl
  intro d ts hd hf
  rw [tokensAt_of_le hl.ge] at hd ⊢
  obtain ⟨hu, hp⟩ := h d ts hd hf
  exact ⟨hu, suffixed_of_primary hp⟩

theorem primary_of_literal {inner : Reader Built} {s rest : List Char} {b : Built}
    (h : literal (skipGap s) = some (b, rest)) : primary inner s = some (b, rest) := by
  simp [primary, h]

theorem reads_null : Reads .null :=
  .of_primary rfl fun _ ts _ _ => by cases ts <;> exact ⟨rfl, rfl⟩

theorem reads_bool (b : Bool) : Reads (.bool b) :=
  .of_primary rfl fun _ ts _ _ => by cases b <;> cases ts <;> exact ⟨rfl, rfl⟩

theorem reads_integer {n : Nat} (h : n < 2 ^ 63) : Reads (.integer n) := by
  refine .of_primary rfl fun d ts _ _ => ?_
  obtain ⟨c, cs, hds⟩ := List.exists_cons_of_ne_nil (Nat.toDigits_ne_nil (n := n) (b := 10))
  have hc : c.isDigit :=
    Nat.isDigit_of_mem_toDigits (by decide) (by decide) (hds ▸ List.mem_cons_self ..)
  have hne : ∀ x : Char, x.isDigit = false → x ≠ c := by
    rintro x hx rfl
    exact Bool.eq_false_iff.mp hx hc
  have hg : isGap c = false := isGap_of_name (by simp [isNameChar, Char.isAlphanum, hc])
  have htext : spaced ((Expr.integer n).tokens ++ ts) =
      ' ' :: (Nat.toDigits 10 n ++ spaced ts) := rfl
  rw [htext]
  constructor
  · rw [hds]
    exact unaryOperator_head hg ⟨hne _ rfl, hne _ rfl, hne _ rfl, hne _ rfl⟩ _
  · apply primary_of_literal
    rw [skipGap_blank, hds, List.cons_append, skipGap_cons hg, ← List.cons_append, ← hds]
    exact literal_integer h ts

theorem reads_text (t : String) : Reads (.text t) :=
  .of_primary rfl fun _ ts _ _ => ⟨rfl, primary_of_literal (literal_text t (spaced ts))⟩

theorem reads_identifier {name : String} (hn : isName name.toList)
    (hk : name ∉ keywords) : Reads (.identifier name) := by
  refine .of_primary rfl fun d ts _ hf => ?_
  have htext : spaced ((Expr.identifier name).tokens ++ ts) =
      ' ' :: (name.toList ++ spaced ts) := rfl
  have hne : ∀ w ∈ keywords, w.toList ≠ name.toList := by
    rintro w hw heq
    exact hk (String.toList_inj.mp heq ▸ hw)
  rw [htext]
  refine ⟨unaryOperator_name hn (ends_spaced ts) ⟨hne _ (by decide), hne _ (by decide)⟩, ?_⟩
  have hlit : literal (skipGap (' ' :: (name.toList ++ spaced ts))) = none := by
    rw [skipGap_blank, skipGap_name hn]
    exact literal_name hn (ends_spaced ts)
      ⟨hne _ (by decide), hne _ (by decide), hne _ (by decide)⟩
  have hcall : functionCall (expression d) (' ' :: (name.toList ++ spaced ts)) = none := by
    simp only [functionCall, qualifiedName_plain hn, arguments_follows hf]
    rfl
  have hid : identifier (' ' :: (name.toList ++ spaced ts)) =
      some (.ok (.identifier name), spaced ts) := by
    simp only [identifier, skipGap_blank, skipGap_name hn, nameHere_name hn (ends_spaced ts),
      String.ofList_toList]
    simpa using hk
  simp only [primary, hlit, hcall, hid]

theorem collect_ok (es : List Expr) : collect (es.map .ok) = .ok es := by
  induction es with
  | nil => rfl
  | cons e es ih =>
    simp only [List.map_cons, collect, ih]
    rfl

-- What follows the arguments starts no argument of its own.
theorem expression_close (d : Nat) (ts : List Token) :
    expression d (spaced (")".toList :: ts)) = none := by
  cases d with
  | zero => rfl
  | succ d =>
    have hu : unary (expression d) (spaced (")".toList :: ts)) = none := by
      rw [unary]
      rfl
    simp only [expression, conditional, binary, chain, levels, hu, Option.map_none]

theorem moreArgs_written {d : Nat} (args : List Expr) (ts : List Token)
    (h : ∀ e ∈ args, ReadsWhole e) (hd : (moreTokens args).length ≤ d) :
    moreArgs (expression d) (spaced (moreTokens args ++ ")".toList :: ts)) =
      (args.map .ok, spaced (")".toList :: ts)) := by
  induction args with
  | nil =>
    rw [moreArgs]
    rfl
  | cons e rest ih =>
    simp only [moreTokens, List.length_cons, List.length_append] at hd
    have hrest := ih (fun x hx => h x (List.mem_cons_of_mem _ hx)) (by omega)
    have hf : Follows 0 (moreTokens rest ++ ")".toList :: ts) := by
      cases rest with
      | nil => exact .closer_of (by decide) 0 ts
      | cons f rest => exact .closer_of (by decide) 0 _
    have hfirst := (h e (List.mem_cons_self ..)).nested (d := d) (by omega) hf
    have htext : spaced (moreTokens (e :: rest) ++ ")".toList :: ts) =
        ' ' :: ',' :: spaced (e.tokens ++ (moreTokens rest ++ ")".toList :: ts)) := by
      simp [moreTokens]
    have hlen : (spaced (moreTokens rest ++ ")".toList :: ts)).length <
        (' ' :: ',' :: spaced (e.tokens ++ (moreTokens rest ++ ")".toList :: ts))).length := by
      rw [spaced_append e.tokens]
      simp only [List.length_cons, List.length_append]
      omega
    rw [htext, moreArgs]
    simp only [show ∀ s, symbol "," (' ' :: ',' :: s) = some s from fun _ => rfl, hfirst,
      if_pos hlen, hrest, List.map_cons]

theorem arguments_written {d : Nat} (args : List Expr) (ts : List Token)
    (h : ∀ e ∈ args, ReadsWhole e) (hd : (argTokens args).length < d) :
    arguments (expression d) (spaced ("(".toList :: (argTokens args ++ ")".toList :: ts))) =
      some (args.map .ok, spaced ts) := by
  have hopen : symbol "(" (spaced ("(".toList :: (argTokens args ++ ")".toList :: ts))) =
      some (spaced (argTokens args ++ ")".toList :: ts)) := rfl
  rw [arguments, hopen]
  cases args with
  | nil =>
    simp only [argTokens, List.nil_append, expression_close]
    rfl
  | cons e rest =>
    simp only [argTokens, List.length_append] at hd
    have hf : Follows 0 (moreTokens rest ++ ")".toList :: ts) := by
      cases rest with
      | nil => exact .closer_of (by decide) 0 ts
      | cons f rest => exact .closer_of (by decide) 0 _
    have hfirst := (h e (List.mem_cons_self ..)).nested (d := d) (by omega) hf
    have hmore := moreArgs_written rest ts (fun x hx => h x (List.mem_cons_of_mem _ hx))
      (d := d) (by omega)
    simp only [argTokens, List.append_assoc, hfirst, hmore]
    rfl

theorem reads_call {space : Option String} {name : String} {args : List Expr}
    (hs : ∀ s ∈ space, isName s.toList) (hn : isName name.toList)
    (hl : space.getD name ∉ leadingWords) (ha : ∀ e ∈ args, ReadsWhole e) :
    Reads (.call space name args) := by
  refine .of_primary rfl fun d ts hd _ => ?_
  have hargs : arguments (expression d)
      (spaced ("(".toList :: (argTokens args ++ ")".toList :: ts))) =
      some (args.map .ok, spaced ts) := by
    apply arguments_written args ts ha
    simp only [tokens, List.length_cons, List.length_append] at hd
    omega
  have hne : ∀ w ∈ leadingWords, w.toList ≠ (space.getD name).toList := by
    rintro w hw heq
    exact hl (String.toList_inj.mp heq ▸ hw)
  -- The name that leads the call and what stands behind it.
  obtain ⟨rest, hends, htext, hq⟩ : ∃ rest, Ends rest ∧
      spaced ((Expr.call space name args).tokens ++ ts) =
        ' ' :: ((space.getD name).toList ++ rest) ∧
      qualifiedName (' ' :: ((space.getD name).toList ++ rest)) =
        some ((space, name), spaced ("(".toList :: (argTokens args ++ ")".toList :: ts))) := by
    cases space with
    | none =>
      exact ⟨_, ends_spaced _, by simp [tokens, functionToken], qualifiedName_plain hn _⟩
    | some s =>
      exact ⟨_, ends_colon _, by simp [tokens, functionToken],
        qualifiedName_spaced (hs s rfl) hn _⟩
  have hlead : isName (space.getD name).toList := by
    cases space with
    | none => exact hn
    | some s => exact hs s rfl
  rw [htext]
  refine ⟨unaryOperator_name hlead hends ⟨hne _ (by decide), hne _ (by decide)⟩, ?_⟩
  have hlit : literal (skipGap (' ' :: ((space.getD name).toList ++ rest))) = none := by
    rw [skipGap_blank, skipGap_name hlead]
    exact literal_name hlead hends ⟨hne _ (by decide), hne _ (by decide), hne _ (by decide)⟩
  simp only [primary, hlit, functionCall, hq, hargs, Option.map_some, collect_ok]
  rfl

-- One suffix is read and the next ones are looked for behind it.
theorem suffixes_step {inner : Reader Built} {base e : Built} {s rest : List Char}
    (h : (memberSuffix inner base s).or (indexSuffix inner base s) = some (e, rest))
    (hlen : rest.length < s.length) : suffixes inner base s = suffixes inner e rest := by
  rw [suffixes, h]
  simp only [if_pos hlen]

-- A suffix behind an expression: its own tokens and what it makes of the expression.
theorem Reads.of_suffix {base e : Expr} (suffix : List Token) (hb : ReadsBase base)
    (hl : e.level = suffixLevel) (ht : e.tokens = base.tokensAt suffixLevel ++ suffix)
    (hf : ∀ ts, Follows (suffixLevel + 1) (suffix ++ ts))
    (h : ∀ (d : Nat) (ts : List Token), suffix.length ≤ d → Follows (suffixLevel + 1) ts →
      (memberSuffix (expression d) (.ok base) (spaced (suffix ++ ts))).or
        (indexSuffix (expression d) (.ok base) (spaced (suffix ++ ts))) =
          some (.ok e, spaced ts)) (hne : suffix ≠ []) : Reads e := by
  apply Reads.of_base hl
  intro d ts hd hts
  rw [tokensAt_of_le hl.ge, ht] at hd ⊢
  rw [List.length_append] at hd
  obtain ⟨hu, hs⟩ := hb d (suffix ++ ts) (by omega) (hf ts)
  have hlen : (spaced ts).length < (spaced (suffix ++ ts)).length := by
    have hpos := List.length_pos_iff.mpr hne
    have hle := length_le_spaced suffix
    rw [spaced_append, List.length_append]
    omega
  rw [List.append_assoc]
  exact ⟨hu, hs.trans (congrArg some (suffixes_step (h d ts (by omega) hts) hlen))⟩

theorem symbol_point (s : List Char) : symbol "." (' ' :: '.' :: s) = some s := rfl

theorem nameHere_member {name : String} (hn : isName name.toList) (ts : List Token) :
    nameHere (skipGap (spaced (name.toList :: ts))) = some (name.toList, spaced ts) := by
  rw [spaced_cons, skipGap_blank, skipGap_name hn, nameHere_name hn (ends_spaced ts)]

theorem reads_property {base : Expr} {name : String} (hb : ReadsBase base)
    (hn : isName name.toList) : Reads (.property base name) := by
  refine .of_suffix [".".toList, name.toList] hb rfl (by simp only [tokens, tokensAt])
    (fun ts => .member _ (by decide)) (fun d ts _ hf => ?_) (by simp)
  have htext : spaced ([".".toList, name.toList] ++ ts) =
      ' ' :: '.' :: spaced (name.toList :: ts) := by simp
  have hm : memberSuffix (expression d) (.ok base) (' ' :: '.' :: spaced (name.toList :: ts)) =
      some (.ok (.property base name), spaced ts) := by
    simp only [memberSuffix, symbol_point, nameHere_member hn, String.ofList_toList,
      arguments_follows hf]
    rfl
  rw [htext, hm, Option.some_or]

theorem reads_method {base : Expr} {name : String} {args : List Expr} (hb : ReadsBase base)
    (hn : isName name.toList) (ha : ∀ e ∈ args, ReadsWhole e) :
    Reads (.method base name args) := by
  refine .of_suffix (".".toList :: name.toList :: "(".toList :: (argTokens args ++ [")".toList]))
    hb rfl (by simp only [tokens, tokensAt]) (fun ts => .member _ (by decide))
    (fun d ts hd _ => ?_) (by simp)
  simp only [List.length_cons, List.length_append] at hd
  have htext : spaced ((".".toList :: name.toList :: "(".toList ::
        (argTokens args ++ [")".toList])) ++ ts) =
      ' ' :: '.' :: spaced (name.toList :: "(".toList :: (argTokens args ++ ")".toList :: ts)) := by
    simp
  have hm : memberSuffix (expression d) (.ok base) (' ' :: '.' ::
        spaced (name.toList :: "(".toList :: (argTokens args ++ ")".toList :: ts))) =
      some (.ok (.method base name args), spaced ts) := by
    simp only [memberSuffix, symbol_point, nameHere_member hn, String.ofList_toList,
      arguments_written args ts ha (d := d) (by omega), collect_ok]
    rfl
  rw [htext, hm, Option.some_or]

theorem reads_index {base key : Expr} (hb : ReadsBase base) (hk : ReadsWhole key) :
    Reads (.index base key) := by
  refine .of_suffix ("[".toList :: (key.tokens ++ ["]".toList])) hb rfl
    (by simp only [tokens, tokensAt]) (fun ts => .index _ (by decide)) (fun d ts hd _ => ?_)
    (by simp)
  simp only [List.length_cons, List.length_append] at hd
  have htext : spaced (("[".toList :: (key.tokens ++ ["]".toList])) ++ ts) =
      ' ' :: '[' :: spaced (key.tokens ++ "]".toList :: ts) := by simp
  have hkey := hk.nested (d := d) (by omega)
    (.closer_of (by decide) 0 ts : Follows 0 ("]".toList :: ts))
  have hm : memberSuffix (expression d) (.ok base)
      (' ' :: '[' :: spaced (key.tokens ++ "]".toList :: ts)) = none := rfl
  have hi : indexSuffix (expression d) (.ok base)
      (' ' :: '[' :: spaced (key.tokens ++ "]".toList :: ts)) =
      some (.ok (.index base key), spaced ts) := by
    simp only [indexSuffix, show ∀ s, symbol "[" (' ' :: '[' :: s) = some s from fun _ => rfl,
      hkey]
    rfl
  rw [htext, hm, hi, Option.none_or]

theorem unaryOperator_token (op : UnaryOp) (ts : List Token) :
    unaryOperator (spaced (op.token.toList :: ts)) = some (op, spaced ts) := by
  cases op <;> cases ts <;> rfl

theorem reads_unary {op : UnaryOp} {e : Expr} (h : ReadsOperand 7 e) : Reads (.unary op e) := by
  have hown : ReadsOperand 7 (.unary op e) := by
    intro d ts hd hf
    have hl : 7 + 1 ≤ (Expr.unary op e).level := Nat.le_refl _
    rw [tokensAt_of_le hl] at hd ⊢
    have ht : (Expr.unary op e).tokens = op.token.toList :: e.tokensAt (7 + 1) := by
      simp only [tokens, tokensAt, unaryLevel]
    rw [ht] at hd ⊢
    simp only [List.length_cons] at hd
    have hin := h d ts (by omega) hf
    rw [operand_seven] at hin ⊢
    have hlen : (spaced (e.tokensAt (7 + 1) ++ ts)).length <
        (spaced (op.token.toList :: (e.tokensAt (7 + 1) ++ ts))).length := by
      simp only [spaced_cons, List.length_cons, List.length_append]
      omega
    rw [List.cons_append, unary, unaryOperator_token]
    simp only [if_pos hlen, hin]
    rfl
  have hl : (Expr.unary op e).level = unaryLevel := rfl
  have hweak : ∀ j ≤ 7, ReadsOperand j (.unary op e) := fun j hj =>
    hown.lift hj (Nat.le_refl _) (Nat.le_refl _)
  exact .of_own ((hweak 0 (by omega)).whole (by simp [hl, unaryLevel]))
    (fun j hj _ => hweak j hj) (fun j hj h => absurd h (by simp only [hl, unaryLevel]; omega))
    (fun h => absurd h (by simp [hl, unaryLevel, suffixLevel]))

-- The left operand starts the chain, and the operator carries it on.
theorem readsChain_binary {op : BinaryOp} {lhs rhs : Expr} {j : Nat} (hj : op.level = j + 1)
    (hl : ReadsChain j lhs) (hr : ReadsOperand (j + 1) rhs) :
    ReadsChain j (.binary op lhs rhs) := by
  intro d ts hd hf
  have hlevel : j + 1 ≤ (Expr.binary op lhs rhs).level := hj.ge
  have ht : (Expr.binary op lhs rhs).tokens =
      lhs.tokensAt (j + 1) ++ op.token.toList :: rhs.tokensAt (j + 1 + 1) := by
    simp only [tokens, tokensAt, hj]
  rw [tokensAt_of_le hlevel, ht] at hd ⊢
  simp only [List.length_append, List.length_cons] at hd
  have hleft := hl d (op.token.toList :: (rhs.tokensAt (j + 1 + 1) ++ ts)) (by omega)
    (.operator op _ (by omega))
  have hright := hr d ts (by omega) hf
  have hop := operator_token op (rhs.tokensAt (j + 1 + 1) ++ ts)
  have hlen : (spaced ts).length <
      (spaced (op.token.toList :: (rhs.tokensAt (j + 1 + 1) ++ ts))).length := by
    rw [spaced_cons, spaced_append]
    simp only [List.length_cons, List.length_append]
    omega
  rw [hj, Nat.add_sub_cancel] at hop
  rw [List.append_assoc, List.cons_append, hleft, chainRest, hop]
  simp only [hright, if_pos hlen]
  rfl

theorem reads_binary {op : BinaryOp} {lhs rhs : Expr} (hl : Reads lhs) (hr : Reads rhs) :
    Reads (.binary op lhs rhs) := by
  obtain ⟨j, hj⟩ : ∃ j, op.level = j + 1 := ⟨op.level - 1, by have := level_pos op; omega⟩
  have hlt : j < 7 := by
    have h := level_lt_unary op
    simp only [unaryLevel] at h
    omega
  have hchain := readsChain_binary hj (hl.chain j hlt) (hr.operand (j + 1) (by omega))
  have hlevel : (Expr.binary op lhs rhs).level = j + 1 := hj
  have hown : ReadsOperand j (.binary op lhs rhs) := by
    intro d ts hd hf
    rw [hchain d ts hd (hf.mono (by omega)), chainRest_follows hlt hf]
  have hweak : ∀ i ≤ j, ReadsOperand i (.binary op lhs rhs) := fun i hi =>
    hown.lift hi (by omega) hlevel.ge
  refine .of_own ((hweak 0 (by omega)).whole (by omega)) (fun i _ hi => hweak i (by omega))
    (fun i _ hi => ?_) (fun h => absurd h (by simp only [hlevel, suffixLevel]; omega))
  obtain rfl : i = j := by omega
  exact hchain

theorem reads_conditional {condition yes no : Expr} (hc : ReadsOperand 0 condition)
    (hy : ReadsWhole yes) (hn : ReadsWhole no) : Reads (.conditional condition yes no) := by
  have hwhole : ReadsWhole (.conditional condition yes no) := by
    intro d ts hd hf
    have ht : (Expr.conditional condition yes no).tokens =
        condition.tokensAt 1 ++ "?".toList :: (yes.tokens ++ ":".toList :: no.tokens) := by
      simp only [tokens, tokensAt]
    rw [ht] at hd ⊢
    simp only [List.length_append, List.length_cons] at hd
    have hcond : binary (unary (expression d)) levels
        (spaced (condition.tokensAt 1 ++
          "?".toList :: (yes.tokens ++ ":".toList :: (no.tokens ++ ts)))) =
        some (.ok condition,
          ' ' :: '?' :: spaced (yes.tokens ++ ":".toList :: (no.tokens ++ ts))) :=
      hc d _ (by simp only [Nat.zero_add]; omega) (.branch _ (by decide))
    have hyes := hy.nested (d := d) (by omega)
      (.closer_of (by decide) 0 (no.tokens ++ ts) : Follows 0 (":".toList :: (no.tokens ++ ts)))
    have hno := hn.nested (d := d) (by omega) hf
    have hbranches : branches (expression d)
        (' ' :: '?' :: spaced (yes.tokens ++ ":".toList :: (no.tokens ++ ts))) =
        some ((.ok yes, .ok no), spaced ts) := by
      simp only [branches, show ∀ s, symbol "?" (' ' :: '?' :: s) = some s from fun _ => rfl,
        hyes, show ∀ ts, symbol ":" (spaced (":".toList :: ts)) = some (spaced ts) from
          fun _ => rfl, hno]
      rfl
    simp only [List.append_assoc, List.cons_append, conditional, hcond, hbranches]
    rfl
  exact .of_own hwhole (fun j _ h => absurd h (by simp [level]))
    (fun j _ h => absurd h (by simp [level])) (fun h => absurd h (by simp [level, suffixLevel]))

mutual

theorem reads_of_writable : (e : Expr) → e.Writable → Reads e
  | .null, _ => reads_null
  | .bool b, _ => reads_bool b
  | .integer _, h => reads_integer (by simpa only [Writable] using h)
  | .decimal _, h => absurd h (by simp only [Writable, not_false_eq_true])
  | .text t, _ => reads_text t
  | .identifier name, h => by
    simp only [Writable] at h
    exact reads_identifier h.1 h.2
  | .property base name, h => by
    simp only [Writable] at h
    exact reads_property (reads_of_writable base h.1).base h.2
  | .index base key, h => by
    simp only [Writable] at h
    exact reads_index (reads_of_writable base h.1).base (reads_of_writable key h.2).whole
  | .method base name args, h => by
    simp only [Writable] at h
    exact reads_method (reads_of_writable base h.1).base h.2.1 (readsAll_of_writable args h.2.2)
  | .call space name args, h => by
    simp only [Writable] at h
    exact reads_call h.1 h.2.1 h.2.2.1 (readsAll_of_writable args h.2.2.2)
  | .unary _ operand, h => by
    simp only [Writable] at h
    exact reads_unary ((reads_of_writable operand h).operand 7 (Nat.le_refl _))
  | .binary _ lhs rhs, h => by
    simp only [Writable] at h
    exact reads_binary (reads_of_writable lhs h.1) (reads_of_writable rhs h.2)
  | .conditional condition yes no, h => by
    simp only [Writable] at h
    exact reads_conditional ((reads_of_writable condition h.1).operand 0 (by omega))
      (reads_of_writable yes h.2.1).whole (reads_of_writable no h.2.2).whole

theorem readsAll_of_writable : (es : List Expr) → AllWritable es → ∀ e ∈ es, ReadsWhole e
  | [], _ => by simp
  | e :: es, h => by
    simp only [AllWritable] at h
    have he := (reads_of_writable e h.1).whole
    have hes := readsAll_of_writable es h.2
    simpa using ⟨he, hes⟩

end

end PageCompiler.Expression
