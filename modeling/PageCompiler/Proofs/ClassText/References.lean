import PageCompiler.Proofs.ClassText.Actions

-- Fields are only ever added, and the place of a deferred body is filled once, so that a line that
-- is right when it is written stays right.
namespace PageCompiler.ClassText

-- A later state of the same run: nothing that lines can refer to has been taken away.
structure Extends (s s' : State) : Prop where
  pools : s.pools ⊆ s'.pools
  charArrays : s.charArrays.length ≤ s'.charArrays.length
  functionMaps : s.functionMaps <+: s'.functionMaps
  deferred : ∀ {k : Nat} {code : Code}, s.deferred[k]? = some (some code) →
    s'.deferred[k]? = some (some code)

namespace Extends

theorem refl (s : State) : Extends s s :=
  ⟨fun _ h => h, Nat.le_refl _, List.prefix_refl _, fun h => h⟩

theorem trans {s s₁ s₂ : State} (h : Extends s s₁) (h' : Extends s₁ s₂) : Extends s s₂ :=
  ⟨fun _ hp => h'.pools (h.pools hp), h.charArrays.trans h'.charArrays,
    h.functionMaps.trans h'.functionMaps, fun hk => h'.deferred (h.deferred hk)⟩

end Extends

-- Every line that a state has collected.
def State.lines (s : State) : List Line :=
  s.declarations.lines ++ s.methods.flatMap Code.lines ++
    s.deferred.flatMap fun code => (code.getD []).lines

-- The field of an expression is the one for the functions that it calls.
def Field (x : Context) (maps : FunctionMaps) (source : String) (field : Option Nat) : Prop :=
  ∃ calls, Evaluated x source calls ∧
    match field with
    | none => FunctionMaps.mappedSet x.checked.page.bindings calls = []
    | some k => FunctionMaps.mappedSet x.checked.page.bindings calls ≠ [] ∧
      ∃ functions, maps[k]? = some functions ∧ FunctionMaps.key functions =
        FunctionMaps.key (FunctionMaps.mappedSet x.checked.page.bindings calls)

-- A value that waits for its line; deferred bodies never do.
def Waits (x : Context) (s : State) : Operand → Prop
  | .code _ => True
  | .charArray index => index < s.charArrays.length
  | .evaluate source _ field | .valueExpression source _ field
  | .methodExpression source _ _ field => Field x s.functionMaps source field
  | .deferredBody .. => False

-- A deferred body is the one that the statement hands to its handler.
def Deferred (x : Context) (s : State) (st : Statement) : Operand → Prop
  | .deferredBody k handler count =>
    ∃ owner nested hand code, Hands x handler owner nested hand ∧
      st = hand (.deferredBody k handler count) ∧ Generated x owner nested code ∧
      s.deferred[k]? = some (some code)
  | _ => False

-- Everything that a line refers to is there.
def Justified (x : Context) (s : State) : Line → Prop
  | .plain st => (∀ op ∈ st.operands, Waits x s op ∨ Deferred x s st op) ∧
    ∀ pool ∈ st.pool?, pool ∈ s.pools
  | _ => True

-- The field of each set of functions is for an expression of the page, and no two are for the same
-- names.
structure Sound (x : Context) (c : Point) : Prop where
  lines : ∀ line ∈ c.state.lines, Justified x c.state line
  pending : ∀ op ∈ c.pending, Waits x c.state op
  functions : ∀ functions ∈ c.state.functionMaps, functions ≠ [] ∧
    ∃ source calls, Evaluated x source calls ∧
      functions = FunctionMaps.mappedSet x.checked.page.bindings calls
  keys : (c.state.functionMaps.map FunctionMaps.key).Nodup
  pools : c.state.pools.Nodup

variable {x : Context} {s s' : State}

theorem Field.extends (h : Extends s s') {source : String} {field : Option Nat}
    (hf : Field x s.functionMaps source field) : Field x s'.functionMaps source field := by
  obtain ⟨calls, hcalls, hfield⟩ := hf
  refine ⟨calls, hcalls, ?_⟩
  cases field with
  | none => exact hfield
  | some k =>
    obtain ⟨hne, functions, hk, hkey⟩ := hfield
    have hlt := (List.getElem?_eq_some_iff.mp hk).1
    obtain ⟨more, hmore⟩ := h.functionMaps
    exact ⟨hne, functions, by rwa [← hmore, List.getElem?_append_left hlt], hkey⟩

theorem Waits.extends (h : Extends s s') {op : Operand} (hop : Waits x s op) : Waits x s' op := by
  cases op with
  | code t => trivial
  | charArray index => exact Nat.lt_of_lt_of_le hop h.charArrays
  | evaluate | valueExpression | methodExpression => exact Field.extends h hop
  | deferredBody => exact hop

theorem Deferred.extends (h : Extends s s') {st : Statement} {op : Operand}
    (hop : Deferred x s st op) : Deferred x s' st op := by
  cases op with
  | deferredBody k handler count =>
    obtain ⟨owner, nested, hand, code, hhand, hst, hcode, hk⟩ := hop
    exact ⟨owner, nested, hand, code, hhand, hst, hcode, h.deferred hk⟩
  | _ => exact hop

theorem Justified.extends (h : Extends s s') {line : Line} (hl : Justified x s line) :
    Justified x s' line := by
  cases line with
  | plain st =>
    refine ⟨fun op hop => ?_, fun pool hpool => h.pools (hl.2 pool hpool)⟩
    exact (hl.1 op hop).imp (Waits.extends h) (Deferred.extends h)
  | _ => trivial

-- A statement with no values and no pool.
theorem justified_of_none {st : Statement} (hops : st.operands = []) (hpool : st.pool? = none) :
    Justified x s (.plain st) :=
  ⟨by simp [hops], by simp [hpool]⟩

theorem Hands.operands {handler : String} {owner : NodeId} {nested : List Variable}
    {hand : Operand → Statement} (h : Hands x handler owner nested hand) (op : Operand) :
    (hand op).operands = [op] ∧ (hand op).pool? = none := by
  cases h with
  | body => exact ⟨rfl, rfl⟩
  | fragment => exact ⟨rfl, rfl⟩

theorem Statement.pool?_of_isPlain {st : Statement} (h : st.isPlain = true) : st.pool? = none := by
  cases st with
  | acquire | reuse => cases h
  | _ => rfl

-- The places that were there keep what is in them, and the next one is filled.
theorem prefix_set {deferred deferred' : List (Option Code)} {code : Option Code}
    (h : deferred ++ [none] <+: deferred') :
    deferred ++ [code] <+: deferred'.set deferred.length code := by
  obtain ⟨more, rfl⟩ := h
  exact ⟨more, by simp⟩

theorem Writes.deferred_prefix {e : Leave} {v : Multiset NodeId} {c c' : Point}
    {l : List Line} (h : Writes x e v c l c') : c.state.deferred <+: c'.state.deferred := by
  induction h with
  | append _ _ ih ih' => exact ih.trans ih'
  | block _ _ _ _ _ ih _ => exact ih
  | frame _ _ ih => exact ih
  | loop _ _ _ _ _ _ ih ih' _ => exact ih.trans ih'
  | action _ _ hsaves _ _ _ ih ih' =>
    rw [hsaves.eq_declared] at ih
    exact ih.trans ih'
  | split _ _ _ _ ih => exact ih
  | defers _ _ _ _ ih => exact (List.prefix_append _ _).trans (prefix_set ih)
  | _ => exact List.prefix_refl _

-- The field for some calls: none without functions, one with the same names, or a new one.
inductive Chosen (functions : List MappedFunction) (maps : FunctionMaps) :
    Option Nat → FunctionMaps → Prop
  | none (hempty : functions = []) : Chosen functions maps none maps
  | known {k : Nat} {entries : List MappedFunction} (hne : functions ≠ [])
      (hk : maps[k]? = some entries)
      (hkey : FunctionMaps.key entries = FunctionMaps.key functions) :
      Chosen functions maps (some k) maps
  | new (hne : functions ≠ [])
      (hkey : ∀ entries ∈ maps, FunctionMaps.key entries ≠ FunctionMaps.key functions) :
      Chosen functions maps (some maps.length) (maps ++ [functions])

theorem chosen_of_fieldFor {maps maps' : FunctionMaps} {bindings : Bindings}
    {calls : List FunctionUse} {field : Option Nat}
    (h : maps.fieldFor bindings calls = (field, maps')) :
    Chosen (FunctionMaps.mappedSet bindings calls) maps field maps' := by
  unfold FunctionMaps.fieldFor at h
  split at h
  · rename_i hempty
    cases h
    exact .none hempty
  · rename_i hne
    split at h
    · rename_i k hk
      cases h
      rw [List.findIdx?_eq_some_iff_getElem] at hk
      obtain ⟨hlt, hkey, -⟩ := hk
      exact .known hne (List.getElem?_eq_getElem hlt) (by simpa using hkey)
    · rename_i hnew
      cases h
      rw [List.findIdx?_eq_none_iff] at hnew
      exact .new hne fun entries hentries => by simpa using hnew entries hentries

theorem lines_codeLines (mark : Mark) (code : String) :
    (codeLines mark code).lines =
      (Text.linesOf code).map fun line => .plain (.raw (Text.trimmedEnd line)) := by
  unfold codeLines Code.lines
  dsimp only
  rw [List.flatMap_map]
  change ((List.range _).zip _).flatMap (fun entry => [Line.plain (.raw (Text.trimmedEnd entry.2))])
    = _
  rw [← List.map_eq_flatMap]
  conv =>
    rhs
    rw [← List.map_snd_zip (show (Text.linesOf code).length ≤
      (List.range (Text.linesOf code).length).length by simp), List.map_map]
  rfl

theorem justified_codeLines {mark : Mark} {code : String} {line : Line}
    (h : line ∈ (codeLines mark code).lines) : Justified x s line := by
  rw [lines_codeLines] at h
  obtain ⟨text, -, rfl⟩ := List.mem_map.mp h
  exact justified_of_none rfl rfl

namespace Sound

variable {p : Multiset Operand}

-- The state may grow by lines that are right already.
theorem grow (h : Sound x ⟨s, p⟩) (hext : Extends s s')
    (hlines : ∀ line ∈ s'.lines, line ∈ s.lines ∨ Justified x s line)
    (hmaps : s'.functionMaps = s.functionMaps) (hpools : s'.pools.Nodup) : Sound x ⟨s', p⟩ where
  lines line hline := ((hlines line hline).elim (h.lines line) id).extends hext
  pending op hop := (h.pending op hop).extends hext
  functions := by
    rw [hmaps]
    exact h.functions
  keys := by
    rw [hmaps]
    exact h.keys
  pools := hpools

-- Variables and temporaries do not matter.
theorem still (h : Sound x ⟨s, p⟩) (s' : State) (hlines : s'.lines = s.lines) (hpools : s'.pools = s.pools)
    (harrays : s'.charArrays = s.charArrays) (hmaps : s'.functionMaps = s.functionMaps)
    (hdeferred : s'.deferred = s.deferred) : Sound x ⟨s', p⟩ ∧ Extends s s' := by
  have hext : Extends s s' := by
    refine ⟨?_, ?_, ?_, ?_⟩
    · rw [hpools]
      exact fun _ h => h
    · rw [harrays]
    · exact hmaps ▸ List.prefix_refl _
    · rw [hdeferred]
      exact fun h => h
  exact ⟨h.grow hext (fun line hline => .inl (hlines ▸ hline)) hmaps (hpools ▸ h.pools), hext⟩

theorem wait (h : Sound x ⟨s, p⟩) {op : Operand} (hop : Waits x s op) : Sound x ⟨s, op ::ₘ p⟩ :=
  ⟨h.lines, fun o ho => (Multiset.mem_cons.mp ho).elim (fun he => he ▸ hop) (h.pending o),
    h.functions, h.keys, h.pools⟩

theorem used {ops : List Operand} (h : Sound x ⟨s, ops + p⟩) :
    Sound x ⟨s, p⟩ ∧ ∀ op ∈ ops, Waits x s op :=
  ⟨⟨h.lines, fun op hop => h.pending op (Multiset.mem_add.mpr (.inr hop)), h.functions, h.keys,
      h.pools⟩, fun op hop => h.pending op (Multiset.mem_add.mpr (.inl (Multiset.mem_coe.mpr hop)))⟩

theorem withPending {q : Multiset Operand} (h : Sound x ⟨s, p⟩) (hq : ∀ op ∈ q, Waits x s op) :
    Sound x ⟨s, q⟩ := ⟨h.lines, hq, h.functions, h.keys, h.pools⟩

theorem alone (h : Sound x ⟨s, p⟩) : Sound x ⟨s, 0⟩ := h.withPending (by simp)

theorem addMethod {code : Code} (handler : String) (h : Sound x ⟨s, p⟩)
    (hcode : ∀ line ∈ code.lines, Justified x s line) (declared : List (List String)) :
    Sound x ⟨{ s with declared, methods := s.methods ++ [methodCode handler code] }, p⟩ ∧
      Extends s { s with declared, methods := s.methods ++ [methodCode handler code] } := by
  have hext : Extends s { s with declared, methods := s.methods ++ [methodCode handler code] } :=
    ⟨fun _ h => h, Nat.le_refl _, List.prefix_refl _, fun h => h⟩
  have hmethod : ∀ line ∈ (methodCode handler code).lines, Justified x s line := by
    simp only [methodCode, Code.lines_append, Code.lines_cons, Code.lines_nil,
      Stretch.lines_plain, List.cons_append, List.forall_mem_append, List.forall_mem_cons]
    exact ⟨justified_of_none rfl rfl, trivial, justified_of_none rfl rfl, by simp, hcode,
      justified_of_none rfl rfl, trivial, by simp⟩
  refine ⟨h.grow hext (fun line hline => ?_) rfl h.pools, hext⟩
  simp only [State.lines, List.flatMap_append, List.flatMap_singleton, List.mem_append] at hline ⊢
  rcases hline with (hdeclared | hmethods | hnew) | hdeferred
  · exact .inl (.inl (.inl hdeclared))
  · exact .inl (.inl (.inr hmethods))
  · exact .inr (hmethod line hnew)
  · exact .inl (.inr hdeferred)

theorem addDeclaration (h : Sound x ⟨s, p⟩) (mark : Mark) (code : String) :
    Sound x ⟨{ s with declarations := s.declarations ++ codeLines mark code }, p⟩ ∧
      Extends s { s with declarations := s.declarations ++ codeLines mark code } := by
  have hext : Extends s { s with declarations := s.declarations ++ codeLines mark code } :=
    ⟨fun _ h => h, Nat.le_refl _, List.prefix_refl _, fun h => h⟩
  refine ⟨h.grow hext (fun line hline => ?_) rfl h.pools, hext⟩
  simp only [State.lines, Code.lines_append, List.mem_append] at hline ⊢
  rcases hline with ((hdeclared | hnew) | hmethods) | hdeferred
  · exact .inl (.inl (.inl hdeclared))
  · exact .inr (justified_codeLines hnew)
  · exact .inl (.inl (.inr hmethods))
  · exact .inl (.inr hdeferred)

-- A place that is taken holds no lines yet.
theorem reserve (h : Sound x ⟨s, p⟩) :
    Sound x ⟨{ s with deferred := s.deferred ++ [none], declared := [[]] }, p⟩ ∧
      Extends s { s with deferred := s.deferred ++ [none], declared := [[]] } := by
  have hext : Extends s { s with deferred := s.deferred ++ [none], declared := [[]] } := by
    refine ⟨fun _ h => h, Nat.le_refl _, List.prefix_refl _, fun hk => ?_⟩
    have hlt := (List.getElem?_eq_some_iff.mp hk).1
    rwa [List.getElem?_append_left hlt]
  have hsame : State.lines { s with deferred := s.deferred ++ [none], declared := [[]] } =
      s.lines := by
    simp [State.lines]
  exact ⟨h.grow hext (fun line hline => .inl (hsame ▸ hline)) rfl h.pools, hext⟩

theorem fill {taken : List (Option Code)} {code : Code} (h : Sound x ⟨s, p⟩)
    (htaken : taken ++ [none] <+: s.deferred) (hcode : ∀ line ∈ code.lines, Justified x s line)
    (declared : List (List String)) :
    Sound x ⟨{ s with declared, deferred := s.deferred.set taken.length (some code) }, p⟩ ∧
      Extends s { s with declared, deferred := s.deferred.set taken.length (some code) } ∧
      (s.deferred.set taken.length (some code))[taken.length]? = some (some code) := by
  have hempty : s.deferred[taken.length]? = some none := by
    obtain ⟨more, hmore⟩ := htaken
    simp [← hmore]
  have hext : Extends s
      { s with declared, deferred := s.deferred.set taken.length (some code) } := by
    refine ⟨fun _ h => h, Nat.le_refl _, List.prefix_refl _, fun {k c} hk => ?_⟩
    have hne : taken.length ≠ k := by
      rintro rfl
      rw [hempty] at hk
      cases hk
    simpa [List.getElem?_set_ne hne] using hk
  refine ⟨h.grow hext (fun line hline => ?_) rfl h.pools, hext, ?_⟩
  · simp only [State.lines, List.mem_append, List.mem_flatMap] at hline ⊢
    rcases hline with hline | ⟨place, hplace, hline⟩
    · exact .inl (.inl hline)
    · rcases List.mem_or_eq_of_mem_set hplace with hplace | rfl
      · exact .inl (.inr ⟨place, hplace, hline⟩)
      · exact .inr (hcode line hline)
  · have hlt := (List.getElem?_eq_some_iff.mp hempty).1
    simp [hlt]

end Sound

theorem Sound.evaluation {p : Multiset Operand} {source : String} {calls : List FunctionUse}
    {field : Option Nat} {maps : FunctionMaps} (h : Sound x ⟨s, p⟩)
    (hsource : Evaluated x source calls)
    (hfield : s.functionMaps.fieldFor x.checked.page.bindings calls = (field, maps)) :
    Sound x ⟨{ s with functionMaps := maps }, p⟩ ∧ Extends s { s with functionMaps := maps } ∧
      Field x maps source field := by
  generalize hmaps : s.functionMaps = old at hfield
  cases chosen_of_fieldFor hfield with
  | none hempty =>
    subst hmaps
    exact ⟨h, .refl s, calls, hsource, hempty⟩
  | known hne hk hkey =>
    subst hmaps
    exact ⟨h, .refl s, calls, hsource, hne, _, hk, hkey⟩
  | new hne hkey =>
    subst hmaps
    have hext : Extends s { s with functionMaps := s.functionMaps ++
        [FunctionMaps.mappedSet x.checked.page.bindings calls] } :=
      ⟨fun _ h => h, Nat.le_refl _, List.prefix_append _ _, fun h => h⟩
    refine ⟨⟨fun line hline => (h.lines line hline).extends hext,
      fun op hop => (h.pending op hop).extends hext, ?_, ?_, h.pools⟩, hext, calls, hsource, hne, _,
      by simp, rfl⟩
    · refine List.forall_mem_append.mpr ⟨h.functions, List.forall_mem_singleton.mpr ?_⟩
      exact ⟨hne, source, calls, hsource, rfl⟩
    · rw [List.map_append, List.map_singleton, List.nodup_append]
      refine ⟨h.keys, by simp, ?_⟩
      rintro _ hold _ hnew rfl
      obtain ⟨entries, hentries, hsame⟩ := List.mem_map.mp hold
      exact hkey entries hentries (hsame.trans (List.mem_singleton.mp hnew))

-- Every run keeps what the lines so far refer to, and the lines it writes are right at its end.
theorem Writes.sound {e : Leave} {v : Multiset NodeId} {c c' : Point} {l : List Line}
    (h : Writes x e v c l c') (hc : Sound x c) :
    Sound x c' ∧ Extends c.state c'.state ∧ ∀ line ∈ l, Justified x c'.state line := by
  induction h with
  | nil => exact ⟨hc, .refl _, by simp⟩
  | append _ _ ih ih' =>
    obtain ⟨hc, hext, hl⟩ := ih hc
    obtain ⟨hc, hext', hl'⟩ := ih' hc
    refine ⟨hc, hext.trans hext', List.forall_mem_append.mpr ⟨fun line hline => ?_, hl'⟩⟩
    exact (hl line hline).extends hext'
  | text t => exact ⟨hc.wait trivial, .refl _, by simp⟩
  | @array _ s p arrays index hprefix hindex =>
    have hext : Extends s { s with charArrays := arrays } :=
      ⟨fun _ h => h, hprefix.length_le, List.prefix_refl _, fun h => h⟩
    exact ⟨(hc.grow hext (fun _ => .inl) rfl hc.pools).wait hindex, hext, by simp⟩
  | @evaluation _ s p source calls field maps op hsource hfield hop =>
    obtain ⟨hgrown, hext, hfield⟩ := hc.evaluation hsource hfield
    refine ⟨hgrown.wait ?_, hext, by simp⟩
    cases op with
    | evaluate | valueExpression | methodExpression =>
      cases hop
      exact hfield
    | code | charArray | deferredBody => cases hop
  | @temporaries _ s p t =>
    obtain ⟨hc, hext⟩ := hc.still { s with temporaries := t } rfl rfl rfl rfl rfl
    exact ⟨hc, hext, by simp⟩
  | statement hst =>
    obtain ⟨hc, hops⟩ := hc.used
    refine ⟨hc, .refl _, List.forall_mem_singleton.mpr ⟨fun op hop => .inl (hops op hop), ?_⟩⟩
    simp [Statement.pool?_of_isPlain hst]
  | inner t => exact ⟨hc, .refl _, List.forall_mem_singleton.mpr trivial⟩
  | leave => exact ⟨hc, .refl _, List.forall_mem_singleton.mpr (justified_of_none rfl rfl)⟩
  | scriptlet _ _ => exact ⟨hc, .refl _, fun _ => justified_codeLines⟩
  | declaration mark code =>
    obtain ⟨hc, hext⟩ := hc.addDeclaration mark code
    exact ⟨hc, hext, by simp⟩
  | @declare _ s p typeName name _ =>
    obtain ⟨hc, hext⟩ := hc.still (s.declare name) rfl rfl rfl rfl rfl
    exact ⟨hc, hext, List.forall_mem_singleton.mpr (justified_of_none rfl rfl)⟩
  | sync _ => exact ⟨hc, .refl _, List.forall_mem_singleton.mpr (justified_of_none rfl rfl)⟩
  | @block _ _ c c' l head clauses _ _ _ ih ihclauses =>
    obtain ⟨hc, hext, hl⟩ := ih hc
    refine ⟨hc, hext, ?_⟩
    rw [List.forall_mem_append, List.forall_mem_append, List.forall_mem_cons,
      List.forall_mem_singleton, List.forall_mem_flatMap]
    refine ⟨⟨⟨trivial, hl⟩, fun clause hclause => ?_⟩, trivial⟩
    exact List.forall_mem_cons.mpr ⟨trivial, (ihclauses clause hclause hc).2.2⟩
  | @frame _ _ s s' p p' l head _ ih =>
    obtain ⟨hc, hext⟩ := hc.still s.push rfl rfl rfl rfl rfl
    obtain ⟨hc, hext', hl⟩ := ih hc
    obtain ⟨hc, hext''⟩ := hc.still s'.pop rfl rfl rfl rfl rfl
    refine ⟨hc, hext.trans (hext'.trans hext''), ?_⟩
    rw [List.forall_mem_append, List.forall_mem_cons, List.forall_mem_singleton]
    exact ⟨⟨trivial, fun line hline => (hl line hline).extends hext''⟩, trivial⟩
  | @loop _ _ _ s s' p p' c before l behind head again tail _ _ _ ih ih' ihbehind =>
    obtain ⟨hc, hext⟩ := hc.still s.push rfl rfl rfl rfl rfl
    obtain ⟨hc, hext', hl⟩ := ih hc
    obtain ⟨hc, hext'', hl'⟩ := ih' hc
    obtain ⟨hc, hpop⟩ := hc.still s'.pop rfl rfl rfl rfl rfl
    have hbehind := (ihbehind _ hc).2.2
    refine ⟨hc, hext.trans (hext'.trans (hext''.trans hpop)), ?_⟩
    have hrest : ∀ line ∈ before ++ l, Justified x s'.pop line :=
      List.forall_mem_append.mpr ⟨fun line hline => (hl line hline).extends (hext''.trans hpop),
        fun line hline => (hl' line hline).extends hpop⟩
    rw [List.forall_mem_append] at hrest
    simp only [List.forall_mem_append, List.forall_mem_cons]
    exact ⟨⟨⟨⟨trivial, hrest.1⟩, trivial, hrest.2⟩, trivial, hbehind⟩, trivial, by simp⟩
  | @pool _ s p name =>
    have hext : Extends s (s.addPool name) :=
      ⟨State.pools_subset_addPool s name, Nat.le_refl _, List.prefix_refl _, fun h => h⟩
    exact ⟨hc.grow hext (fun _ => .inl) rfl (State.nodup_pools_addPool hc.pools name), hext,
      by simp⟩
  | @reuse _ c pool handler hpool =>
    refine ⟨hc, .refl _, List.forall_mem_singleton.mpr ⟨by simp [Statement.operands], ?_⟩⟩
    rintro _ ⟨⟩
    exact hpool
  | @action _ _ _ s s₁ p c c' l l' id data handler saved pool hid hlevel hsaves _ hpool _ ih ih' =>
    have heq := hsaves.eq_declared
    obtain ⟨hc, hext⟩ : Sound x ⟨s₁, p⟩ ∧ Extends s s₁ := by
      rw [heq]
      exact hc.still _ rfl rfl rfl rfl rfl
    obtain ⟨hc, hext', hl⟩ := ih hc
    obtain ⟨hc', hext'', hl'⟩ := ih' hc
    refine ⟨hc', hext.trans (hext'.trans hext''), ?_⟩
    have hsave : ∀ line ∈ saveLines data.nestingLevel saved, Justified x c'.state line := by
      rw [saveLines, List.forall_mem_map]
      exact fun _ _ => justified_of_none rfl rfl
    have hrestore : ∀ line ∈ restoreLines data.nestingLevel saved, Justified x c'.state line := by
      rw [restoreLines, List.forall_mem_map]
      exact fun _ _ => justified_of_none rfl rfl
    have hacquire : Justified x c'.state (.plain (.acquire data.tag.handlerClass handler pool)) :=
      ⟨by simp [Statement.operands], fun name hname => hext''.pools (hpool name hname)⟩
    simp only [List.forall_mem_append, List.forall_mem_cons]
    exact ⟨⟨hsave, fun line hline => (hl line hline).extends hext'', hacquire, hl'⟩, hrestore⟩
  | @split _ _ s s' p id data handler code parent count hid _ ih =>
    obtain ⟨hstart, -⟩ := hc.alone.still { s with declared := [[]] } rfl rfl rfl rfl rfl
    obtain ⟨hdone, hext, hl⟩ := ih hstart
    obtain ⟨hdone, hext'⟩ := hdone.addMethod handler hl s.declared
    have hall : Extends s { s' with declared := s.declared
                                    methods := s'.methods ++ [methodCode handler code] } :=
      ⟨hext.pools, hext.charArrays, hext.functionMaps, hext.deferred⟩
    refine ⟨hdone.withPending fun op hop => (hc.pending op hop).extends hall, hall, ?_⟩
    simp only [List.forall_mem_cons]
    exact ⟨trivial, justified_of_none rfl rfl, trivial, by simp⟩
  | @defers _ _ s s' p owner nested hand handler code count hhand hcode hinner ih =>
    obtain ⟨hstart, hext⟩ := hc.alone.reserve
    obtain ⟨hdone, hext', hl⟩ := ih hstart
    obtain ⟨hdone, hfill, hk⟩ := hdone.fill hinner.deferred_prefix hl s.declared
    have hall : Extends s { s' with declared := s.declared
                                    deferred := s'.deferred.set s.deferred.length (some code) } :=
      hext.trans (hext'.trans hfill)
    refine ⟨hdone.withPending fun op hop => (hc.pending op hop).extends hall, hall, ?_⟩
    obtain ⟨hops, hpool⟩ := hhand.operands (.deferredBody s.deferred.length handler count)
    refine List.forall_mem_singleton.mpr ⟨?_, by simp [hpool]⟩
    rw [hops, List.forall_mem_singleton]
    exact .inr ⟨owner, nested, hand, code, hhand, rfl, hcode, hk⟩

end PageCompiler.ClassText
