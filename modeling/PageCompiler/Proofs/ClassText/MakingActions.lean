import PageCompiler.Proofs.ClassText.Actions
import PageCompiler.Proofs.ClassText.Making

namespace PageCompiler.ClassText

open Text

variable {x : Context}

-- What a scope is written with stands on one line.
structure Scope.Even (scope : Scope) : Prop where
  pushCount : Unbroken scope.pushCount
  parent : ∀ p ∈ scope.parent, Unbroken p.expr

theorem Handle.unbroken_parameter (kind : HandlerKind) : Unbroken (Handle.parameter kind).expr := by
  cases kind with
  | classic => exact .append (.append (.append (.append (.literal rfl) (.literal rfl)) (.literal rfl))
      (.literal rfl)) (.literal rfl)
  | simple => exact .literal rfl

theorem Handle.unbroken_forClassic {h : Handle} (he : Unbroken h.expr) : Unbroken h.forClassic := by
  unfold forClassic
  split
  · exact he
  · delta Names.tagAdapter Names.simpleTag
    simp only [unbroken_append, he, and_true]
    and_intros
    all_goals exact .literal rfl

theorem Annotated.unbroken_handler (hx : Annotated x) {id : NodeId} (hid : id ∈ x.tree.preorder)
    {data : CustomAction} (hk : x.tree.kind id = .custom data) {handler : String}
    (h : (x.finding id).instanceId = some handler) : Unbroken handler := by
  have hest := hx.established id hid
  rw [Checking.Established, show (x.checked.context x.options).tree.kind id = .custom data from hk]
    at hest
  obtain ⟨number, hest⟩ := hest
  rw [(Checking.checkCustom_eq_ok hest).instanceId] at h
  obtain rfl := Option.some.inj h
  delta Checking.instanceId
  simp only [unbroken_append, unbroken_identifier, unbroken_toString, and_true]
  and_intros
  all_goals exact .literal rfl

theorem gives_isDeclared (name : String) : Gives x (isDeclared name) fun _ => True := by
  intro s s' known hs h
  obtain ⟨-, rfl⟩ := isDeclared_run_eq_ok h
  exact ⟨⟨rfl, rfl, rfl, fun h => h⟩, fun _ => trivial⟩

theorem gives_declareName (name : String) : Gives x (declareName name) fun _ => True := by
  intro s s' new hs h
  obtain ⟨-, -, rfl⟩ | ⟨-, -, rfl⟩ := declareName_run_eq_ok h
  · exact ⟨⟨rfl, rfl, rfl, fun h => ⟨h.temporaries, h.pools⟩⟩, fun _ => trivial⟩
  · exact ⟨⟨rfl, rfl, rfl, fun h => h⟩, fun _ => trivial⟩

section

variable {n : NodeId} {reached : Prop} {held : Code} {α : Type} {m : GenM α} {o : α → Code}
  {P : α → Prop}

-- Blocks and methods keep variables apart, and nothing else.
theorem Makes.inBlock (h : Makes x n reached held m o P) :
    Makes x n reached held (inBlock m) o P := by
  intro s s' a hs h₁
  obtain ⟨s₁, hrun, rfl⟩ := inBlock_run_eq_ok h₁
  obtain ⟨hmade, hgood⟩ := h s.push s₁ a ⟨hs.temporaries, hs.pools⟩ hrun
  have hregular := hmade.regular
  exact ⟨⟨⟨hregular.temporaries, hregular.pools⟩, hmade.deferred, hmade.kept, hmade.made,
    hmade.present⟩, hgood⟩

theorem Makes.inMethod (h : Makes x n reached held m o P) :
    Makes x n reached held (inMethod m) o P := by
  intro s s' a hs h₁
  obtain ⟨s₁, hrun, rfl⟩ := inMethod_run_eq_ok h₁
  obtain ⟨hmade, hgood⟩ := h { s with declared := [[]] } s₁ a ⟨hs.temporaries, hs.pools⟩ hrun
  have hregular := hmade.regular
  exact ⟨⟨⟨hregular.temporaries, hregular.pools⟩, hmade.deferred, hmade.kept, hmade.made,
    hmade.present⟩, hgood⟩

-- A body that may not be there.
theorem Makes.onlyIf {c : Bool} {m : GenM Code} {P : Code → Prop}
    (h : Makes x n reached [] m (fun inside => inside) P) (held : Code) :
    Makes x n (c = true ∧ reached) held (if c then m else pure []) (fun inside => held ++ inside)
      fun _ => True := by
  cases c with
  | true => exact fun s s' a hs hrun =>
      ⟨((h.frame held) s s' a hs hrun).1.weaken And.right, fun _ => trivial⟩
  | false => exact .give [] (by simp) (by simp) (by simp) fun _ => trivial

end

section

variable {n id : NodeId} (hid : id ∈ x.tree.preorder) (hk : isContent (x.tree.kind id) = false)
  {f inside : Code} {first last : List Line}
include hid hk

-- An action adds lines around the stretches of its body, or behind those of its values.
theorem makes_around (hfirst : Tidy x → Even first) (hlast : Tidy x → Even last) :
    Makes x n False (f ++ inside)
      (pure (f ++ [Stretch.forMark (x.tree.mark id) first] ++ inside ++
        [Stretch.forMark (x.tree.mark id) last]) : GenM Code) (fun c => c) fun _ => True := by
  refine .give [.forMark (x.tree.mark id) first, .forMark (x.tree.mark id) last] ?_ ?_ False.elim
    fun _ => trivial
  · simp only [List.mem_append, List.mem_cons, List.not_mem_nil, or_false]
    tauto
  · simp only [List.forall_mem_cons]
    exact ⟨.forMark hid hk hfirst, .forMark hid hk hlast, by simp⟩

theorem makes_behind (hlast : Tidy x → Even last) :
    Makes x n False f (pure (f ++ [Stretch.forMark (x.tree.mark id) last]) : GenM Code)
      (fun c => c) fun _ => True :=
  .give [.forMark (x.tree.mark id) last] (by simp)
    (List.forall_mem_singleton.mpr (.forMark hid hk hlast)) False.elim fun _ => trivial

end

theorem exists_mem_content {B : NodeId → Prop} {id : NodeId} {named : List NodeId} {c : Bool} :
    (∃ m ∈ named ++ (if c then [id] else []), B m) ↔ (∃ m ∈ named, B m) ∨ (c = true ∧ B id) := by
  cases c <;> simp [or_and_right, exists_or]

theorem even_operands {ops : List Operand} (h : ∀ op ∈ ops, op.Even) :
    ∀ t ∈ ops.flatMap Operand.parts, Unbroken t := by
  intro t ht
  obtain ⟨op, hop, ht⟩ := List.mem_flatMap.mp ht
  exact h op hop t ht

theorem unbroken_scopeConstant (name : String) : Unbroken (scopeConstant name) := by
  unfold scopeConstant
  split <;> exact .literal rfl

theorem unbroken_scopeLock (name : String) : Unbroken (scopeLock name) := by
  unfold scopeLock
  split
  · exact .append (.literal rfl) (.literal rfl)
  · exact .append (.literal rfl) (.literal rfl)
  · exact .append (.literal rfl) (.literal rfl)
  · exact .literal rfl

section

variable {body : BodyGen} {B : NodeId → Prop} {n id : NodeId} (hx : Annotated x)
  (hb : ∀ scope m, scope.Even → m ∈ x.tree.preorder →
    Makes x n (B m) [] (body scope m) (fun c => c) fun _ => True)
  (hid : id ∈ x.tree.preorder) {scope : Scope} (hscope : scope.Even)

include hx hb hid hscope

theorem makes_namedValues :
    Makes x n
      (∃ a ∈ (x.finding id).attributes, ∃ m, a.value = .named m ∧ isFragment a = false ∧ B m) []
      (namedValues x body scope id) (fun c => c) fun _ => True := by
  refine (Makes.mapM (o := fun c => c) (P := fun _ => True) (fun a ha => ?_) []).before
    fun parts _ => .give [] (by simp) (by simp) False.elim fun _ => trivial
  cases hv : a.value with
  | named m =>
    have hm := (hx.established id hid).named ha hv
    obtain ⟨data, hk⟩ := hm.2
    replace hk : x.tree.kind m = .named data := hk
    have hmem : m ∈ x.tree.preorder := hx.wellFormed.child_mem_preorder hid hm.1
    simp only [hk]
    split
    · rename_i hf
      exact .give [] (by simp) (by simp) (by simp [hf]) fun _ => trivial
    · rename_i hf
      have hcontent : isContent (x.tree.kind m) = false := by rw [hk]; rfl
      refine .weaken (.after (gives_namedVariable _) fun name hname =>
        .before (hb scope m hscope hmem) fun inside _ => makes_around (f := []) hmem hcontent
          (fun htidy => ?_) fun htidy => ?_) ?_
      · simp [even_cons, even_nil, Line.parts, Statement.parts]
      · simp [even_cons, even_nil, Line.parts, Statement.parts, hname htidy]
      · rintro ⟨m', hm', -, hB⟩
        cases hm'
        exact hB
  | _ => exact .give [] (by simp) (by simp) (by simp) fun _ => trivial

theorem makes_namedValues_of_standard (hk : ∀ data, x.tree.kind id ≠ .custom data) :
    Makes x n (∃ m ∈ (x.finding id).named, B m) [] (namedValues x body scope id) (fun c => c)
      fun _ => True := by
  refine (makes_namedValues hx hb hid hscope).weaken ?_
  rintro ⟨m, hm, hB⟩
  obtain ⟨a, ha, hv⟩ := Finding.mem_named.mp hm
  exact ⟨a, ha, m, hv, hx.isFragment_eq_false hid hk ha, hB⟩

omit hx hb hscope in
theorem gives_makeBean {name typeName : String} (hk : x.tree.kind id = .useBean)
    (hname : Tidy x → Unbroken name) (htype : Tidy x → Unbroken typeName) :
    Gives x (makeBean x (x.finding id) name typeName) fun line => ∀ t ∈ line.parts, Unbroken t := by
  unfold makeBean
  split
  · rename_i a ha
    have hmem := List.mem_of_find?_eq_some ha
    refine .bind (gives_stringValue hid hmem) fun op hop => .pure fun htidy => ?_
    exact List.forall_mem_cons.mpr ⟨hname htidy, List.forall_mem_cons.mpr ⟨htype htidy, hop htidy⟩⟩
  · rename_i className hclass
    refine .pure fun htidy => List.forall_mem_singleton.mpr ?_
    have hclass := htidy.bean hid hk (by simp) hclass
    exact .append (.append (.append (hname htidy) (.literal rfl)) hclass) (.literal rfl)
  · refine .pure fun htidy => List.forall_mem_singleton.mpr ?_
    exact .append (.append (.literal rfl) (unbroken_quote _)) (.literal rfl)

theorem makes_useBeanCode (hk : x.tree.kind id = .useBean) :
    Makes x n (∃ m ∈ bodies x id, B m) [] (useBeanCode x body scope id) (fun c => c)
      fun _ => True := by
  have hvalues := makes_namedValues_of_standard hx hb hid hscope (by simp [hk])
  have hliteral : ∀ name ∈ ["id", "type", "class"], Tidy x →
      ∀ t ∈ literalOf (x.finding id) name, Unbroken t :=
    fun name hname htidy t ht => htidy.bean hid hk hname ht
  have hname : Tidy x → Unbroken ((literalOf (x.finding id) "id").getD "") := by
    intro htidy
    cases hv : literalOf (x.finding id) "id" with
    | none => exact .literal rfl
    | some t => exact hliteral _ (by simp) htidy t hv
  have htype : Tidy x → Unbroken (((literalOf (x.finding id) "type").or
      (literalOf (x.finding id) "class")).getD "java.lang.Object") := by
    intro htidy
    cases hv : literalOf (x.finding id) "type" with
    | some t => exact hliteral _ (by simp) htidy t hv
    | none =>
      cases hc : literalOf (x.finding id) "class" with
      | none => exact .literal rfl
      | some t => exact hliteral _ (by simp) htidy t hc
  unfold useBeanCode
  dsimp only
  generalize (literalOf (x.finding id) "id").getD "" = name at hname ⊢
  generalize ((literalOf (x.finding id) "type").or (literalOf (x.finding id) "class")).getD
    "java.lang.Object" = typeName at htype ⊢
  generalize (literalOf (x.finding id) "scope").getD "page" = beanScope
  refine .weaken (.bind hvalues fun values _ => .after (gives_declareName name) fun new _ =>
    .after (gives_makeBean hid hk hname htype) fun made hmade =>
      .ite_bind ((hb scope id hscope hid).inBlock.onlyIf values) fun inside _ =>
        makes_around hid (by rw [hk]; rfl) (fun htidy => ?_) fun htidy => ?_) ?_
  · have hdeclare : Even (if new then [.plain (.declare typeName name)] else []) := by
      cases new with
      | true => simp [even_cons, even_nil, Line.parts, Statement.parts, hname htidy, htype htidy]
      | false => exact even_nil
    simp only [even_append, even_block, even_code, hdeclare, even_cons (l := made),
      unbroken_append, unbroken_scopeLock, unbroken_scopeConstant, unbroken_quote, hname htidy,
      htype htidy, even_nil, and_true, true_and]
    and_intros
    all_goals first | exact .literal rfl | exact hmade htidy
  · exact even_close.mpr (even_close.mpr even_nil)
  · rw [bodies, hk]
    exact fun h => (exists_mem_content.mp h).imp_right .inl

theorem makes_setPropertyCode (hk : x.tree.kind id = .setProperty) :
    Makes x n (∃ m ∈ bodies x id, B m) [] (setPropertyCode x body scope id) (fun c => c)
      fun _ => True := by
  have hvalues := makes_namedValues_of_standard hx hb hid hscope (by simp [hk])
  have hpure : ∀ {front : Code} {line : Line}, (Tidy x → ∀ t ∈ line.parts, Unbroken t) →
      Makes x n False front (pure (front ++ [Stretch.forMark (x.tree.mark id) [line]]) : GenM Code)
        (fun c => c) fun _ => True := fun hline =>
    makes_behind hid (by rw [hk]; rfl) fun htidy => even_cons.mpr ⟨hline htidy, even_nil⟩
  rw [bodies, hk]
  refine .before hvalues fun values _ => ?_
  dsimp only
  split
  · refine .after (.pure (P := fun line => ∀ t ∈ line.parts, Unbroken t) fun _ =>
      List.forall_mem_singleton.mpr ?_) fun _ => hpure
    simp only [unbroken_append, unbroken_lookupBean, and_true]
    and_intros
    all_goals exact .literal rfl
  · split
    · rename_i a ha
      have hmem := List.mem_of_find?_eq_some ha
      exact .after (gives_propertyValue hid hmem) fun op hop => .after (.pure hop) fun _ hline => hpure hline
    · refine .after (.pure (P := fun line => ∀ t ∈ line.parts, Unbroken t) fun _ =>
        List.forall_mem_singleton.mpr ?_) fun _ => hpure
      simp only [unbroken_append, unbroken_lookupBean, unbroken_quote, and_true]
      and_intros
      all_goals exact .literal rfl

omit hb hscope hx in
theorem makes_getPropertyCode (hk : x.tree.kind id = .getProperty) :
    Makes x n False [] (getPropertyCode x id) (fun c => c) fun _ => True := by
  have hcode : ∀ {value : String}, (Tidy x → Unbroken value) → Makes x n False []
      (pure [.forMark (x.tree.mark id)
        [.code ("out.write(" ++ Names.runtime ++ ".toString(" ++ value ++ "));")]] : GenM Code)
      (fun c => c) fun _ => True := by
    intro value hvalue
    refine makes_behind (f := []) hid (by rw [hk]; rfl) fun htidy => even_code.mpr ⟨?_, even_nil⟩
    simp only [unbroken_append, hvalue htidy, and_true]
    and_intros
    all_goals exact .literal rfl
  unfold getPropertyCode
  dsimp only
  split
  · rename_i className hclass
    refine hcode fun htidy => ?_
    simp only [unbroken_append, unbroken_lookupBean, unbroken_getterName, htidy.beanClass hclass,
      and_true]
    and_intros
    all_goals exact .literal rfl
  · refine hcode fun _ => ?_
    simp only [unbroken_append, unbroken_lookupBean, unbroken_quote, and_true]
    and_intros
    all_goals exact .literal rfl

theorem makes_paramCode (hk : x.tree.kind id = .param) :
    Makes x n (∃ m ∈ (x.finding id).named, B m) [] (paramCode x body scope id) Prod.fst
      fun r => ∀ op ∈ r.2, op.Even := by
  have hvalues := makes_namedValues_of_standard hx hb hid hscope (by simp [hk])
  refine .before hvalues fun values _ => .after (gives_stringOf hid _) fun name hname =>
    .after (gives_stringOf hid _) fun value hvalue => .give [] (by simp) (by simp) False.elim
      fun htidy => ?_
  simp [hname htidy, hvalue htidy]

theorem makes_paramsCode (fuel : Nat) :
    Makes x n (∃ m ∈ (paramsOf x.tree fuel id).flatMap (fun p => (x.finding p).named), B m) []
      (paramsCode x body scope fuel id) Prod.fst fun r => ∀ op ∈ r.2, op.Even := by
  induction fuel generalizing id with
  | zero => exact .give [] (by simp) (by simp) (by simp [paramsOf]) fun _ => by simp
  | succ fuel ih =>
    refine .weaken (.before (.mapM (o := Prod.fst) (P := fun r => ∀ op ∈ r.2, op.Even)
      (R := fun c => (x.tree.kind c = .param ∧ ∃ m ∈ (x.finding c).named, B m) ∨
        (x.tree.kind c = .params ∧
          ∃ m ∈ (paramsOf x.tree fuel c).flatMap (fun p => (x.finding p).named), B m))
      (fun c hc => ?_) []) fun parts hparts => .give [] (by simp [List.mem_flatMap]) (by simp)
        False.elim fun htidy => ?_) ?_
    · have hmem := hx.wellFormed.child_mem_preorder hid hc
      split
      · rename_i hk
        exact (makes_paramCode hx hb hmem hscope hk).weaken (by simp [hk])
      · rename_i hk
        exact (ih hmem).weaken (by simp [hk])
      · exact .give [] (by simp) (by simp) (by simp_all) fun _ => by simp
    · intro op hop
      obtain ⟨ops, hops, hop⟩ := List.mem_flatten.mp hop
      obtain ⟨part, hpart, rfl⟩ := List.mem_map.mp hops
      exact hparts htidy part hpart op hop
    · rintro ⟨m, hm, hB⟩
      obtain ⟨p, hp, hm⟩ := List.mem_flatMap.mp hm
      rw [paramsOf] at hp
      obtain ⟨c, hc, hp⟩ := List.mem_flatMap.mp hp
      refine ⟨c, hc, ?_⟩
      split at hp
      · obtain rfl := List.mem_singleton.mp hp
        exact .inl ⟨‹_›, m, hm, hB⟩
      · exact .inr ⟨‹_›, m, List.mem_flatMap.mpr ⟨p, hp, hm⟩, hB⟩
      · cases hp

-- Two lists of nodes, of which each is gone into by a part of an action.
omit hx hb hid hscope in
theorem exists_mem_append {l l' : List NodeId} :
    (∃ m ∈ l ++ l', B m) ↔ (∃ m ∈ l, B m) ∨ ∃ m ∈ l', B m := by
  simp only [List.mem_append, or_and_right, exists_or]

theorem makes_includeCode (hk : x.tree.kind id = .includeAction) :
    Makes x n (∃ m ∈ bodies x id, B m) [] (includeCode x body scope id) (fun c => c)
      fun _ => True := by
  have hvalues := makes_namedValues_of_standard hx hb hid hscope (by simp [hk])
  have hparams := makes_paramsCode hx hb hid hscope x.tree.size
  rw [bodies, hk]
  refine .weaken (.bind hvalues fun values _ => .before (hparams.frame values) fun r hr =>
    .after (gives_stringOf hid _) fun page hpage => makes_behind hid (by rw [hk]; rfl)
      fun htidy => ?_) exists_mem_append.mp
  exact even_cons.mpr ⟨List.forall_mem_append.mpr ⟨hpage htidy, even_operands (hr htidy)⟩, even_nil⟩

theorem makes_forwardCode (hk : x.tree.kind id = .forward) :
    Makes x n (∃ m ∈ bodies x id, B m) [] (forwardCode x body scope id) (fun c => c)
      fun _ => True := by
  have hvalues := makes_namedValues_of_standard hx hb hid hscope (by simp [hk])
  have hparams := makes_paramsCode hx hb hid hscope x.tree.size
  rw [bodies, hk]
  refine .weaken (.bind hvalues fun values _ => .before (hparams.frame values) fun r hr =>
    .after (gives_stringOf hid _) fun page hpage => makes_behind hid (by rw [hk]; rfl)
      fun htidy => ?_) exists_mem_append.mp
  refine even_block.mpr ⟨.literal rfl, even_cons.mpr ⟨List.forall_mem_append.mpr
    ⟨hpage htidy, even_operands (hr htidy)⟩, even_cons.mpr ⟨?_, even_close.mpr even_nil⟩⟩⟩
  simp [Line.parts, Statement.parts]

theorem makes_fallbackCode :
    Makes x n
      (∃ m ∈ ((x.tree.children id).find? fun c => isFallback (x.tree.kind c)).toList, B m) []
      (fallbackCode x body scope id) (fun c => c) fun _ => True := by
  unfold fallbackCode
  split
  · rename_i hnone
    exact .give [] (by simp) (by simp) (by simp [hnone]) fun _ => trivial
  · rename_i c hc
    have hmem := hx.wellFormed.child_mem_preorder hid (List.mem_of_find?_eq_some hc)
    have hkind : isFallback (x.tree.kind c) = true :=
      List.find?_some (p := fun c => isFallback (x.tree.kind c)) hc
    have hcontent : isContent (x.tree.kind c) = false := by
      unfold isFallback at hkind
      split at hkind
      · rename_i hk
        rw [hk]
        rfl
      · cases hkind
    have hline : ∀ {method : String}, Unbroken method → Even [pluginLine method] := fun h =>
      even_code.mpr ⟨.append (.append (.append (.literal rfl) (.literal rfl)) h) (.literal rfl),
        even_nil⟩
    refine .weaken (.before (hb scope c hscope hmem) fun inside _ => makes_around (f := []) hmem
      hcontent (fun _ => hline (.literal rfl)) fun _ => hline (.literal rfl)) ?_
    simp [hc]

theorem makes_pluginCode (hk : x.tree.kind id = .plugin) :
    Makes x n (∃ m ∈ bodies x id, B m) [] (pluginCode x body scope id) (fun c => c)
      fun _ => True := by
  have hvalues := makes_namedValues_of_standard hx hb hid hscope (by simp [hk])
  have hparams := makes_paramsCode hx hb hid hscope x.tree.size
  have hfallback := makes_fallbackCode hx hb hid hscope
  rw [bodies, hk]
  refine .weaken (.bind hvalues fun values _ => .bind (hparams.frame values) fun r hr =>
    .after (.mapM (P := fun ops => ∀ op ∈ ops, op.Even) fun a ha => ?_) fun extra hextra =>
      .after (gives_stringOf hid _) fun kind hkind => .after (gives_stringOf hid _) fun className hclass =>
        .after (gives_stringOf hid _) fun base hbase => .before (hfallback.frame _) fun inside _ =>
          makes_around hid (by rw [hk]; rfl) (fun htidy => ?_) fun htidy => ?_) ?_
  · refine .bind (gives_stringValue hid (List.mem_filter.mp ha).1) fun op hop => .pure fun htidy => ?_
    simp [even_codeOperand, unbroken_quote, hop htidy]
  · refine even_cons.mpr ⟨?_, even_nil⟩
    have hall : ∀ op ∈ extra.flatten, op.Even := fun op hop => by
      obtain ⟨ops, hops, hop⟩ := List.mem_flatten.mp hop
      exact hextra htidy ops hops op hop
    simp only [Line.parts, Statement.parts, List.forall_mem_append]
    exact ⟨⟨⟨⟨hkind htidy, hclass htidy⟩, hbase htidy⟩, even_operands hall⟩, even_operands (hr htidy)⟩
  · exact even_code.mpr ⟨.append (.append (.append (.literal rfl) (.literal rfl)) (.literal rfl))
      (.literal rfl), even_nil⟩
  · rw [exists_mem_append, exists_mem_append, or_assoc]
    exact fun h => h

omit hx hb hscope in
theorem gives_elementAttribute {a : ResolvedAttribute} (ha : a ∈ (x.finding id).attributes) :
    Gives x (elementAttribute x a) Even := by
  refine .bind (gives_stringValue hid ha) fun value hvalue => ?_
  have hlines : Tidy x → Even [.plain (.write (.code (quote (" " ++ a.qualifiedName ++ "=\"")))),
      .plain (.writeEscaped value), .plain (.write (.code "'\"'"))] := fun htidy =>
    even_cons.mpr ⟨even_codeOperand.mpr (unbroken_quote _), even_cons.mpr ⟨hvalue htidy,
      even_cons.mpr ⟨even_codeOperand.mpr (.literal rfl), even_nil⟩⟩⟩
  dsimp only
  split
  · refine .pure fun htidy => even_append.mpr ⟨even_append.mpr ⟨even_block.mpr ⟨?_, even_nil⟩,
      hlines htidy⟩, even_close.mpr even_nil⟩
    simp only [unbroken_append, Operand.unbroken (hvalue htidy), and_true]
    and_intros
    all_goals exact .literal rfl
  · exact .pure hlines

theorem makes_elementCode (hk : x.tree.kind id = .element) :
    Makes x n (∃ m ∈ bodies x id, B m) [] (elementCode x body scope id) (fun c => c)
      fun _ => True := by
  have hvalues := makes_namedValues_of_standard hx hb hid hscope (by simp [hk])
  have hcontent : isContent (x.tree.kind id) = false := by rw [hk]; rfl
  have hwrite : ∀ {t : String} {lines : List Line},
      Even (.plain (.write (.code t)) :: lines) ↔ Unbroken t ∧ Even lines := by
    intro t lines
    rw [even_cons]
    exact and_congr_left fun _ => even_codeOperand
  rw [bodies, hk]
  refine .weaken (.bind hvalues fun values _ => .after (gives_stringOf hid _) fun name hname =>
    .after gives_freshTemporary fun element helement => .after (.mapM (P := Even) fun a ha =>
      gives_elementAttribute hid (List.mem_filter.mp ha).1) fun attrs hattrs =>
        (?_ : Makes x n (x.tree.hasContent id = true ∧ B id) _ _ _ _)) exists_mem_content.mp
  have hopening : Tidy x → Even ([Line.plain (.hold element name),
      Line.plain (.write (.code "'<'")), Line.plain (.write (.code element))] ++
        attrs.flatten) := fun htidy =>
    even_append.mpr ⟨even_cons.mpr ⟨List.forall_mem_cons.mpr ⟨helement htidy, hname htidy⟩,
      hwrite.mpr ⟨.literal rfl, hwrite.mpr ⟨helement htidy, even_nil⟩⟩⟩, even_flatten.mpr (hattrs htidy)⟩
  dsimp only
  split
  · refine .weaken (.before ((hb scope id hscope hid).frame values) fun inside _ =>
      makes_around hid hcontent (fun htidy => ?_) fun htidy => ?_) And.right
    · exact even_append.mpr ⟨hopening htidy, hwrite.mpr ⟨.literal rfl, even_nil⟩⟩
    · exact hwrite.mpr ⟨.literal rfl, hwrite.mpr ⟨helement htidy, hwrite.mpr ⟨.literal rfl, even_nil⟩⟩⟩
  · rename_i hno
    refine (makes_behind hid hcontent fun htidy => ?_).weaken fun h => hno h.1
    exact even_append.mpr ⟨hopening htidy, hwrite.mpr ⟨.literal rfl, even_nil⟩⟩

omit hx in
theorem makes_markupCode (hk : x.tree.kind id = .uninterpreted) :
    Makes x n (∃ m ∈ bodies x id, B m) [] (markupCode x body scope id) (fun c => c)
      fun _ => True := by
  have hcontent : isContent (x.tree.kind id) = false := by rw [hk]; rfl
  refine .after (.mapM (P := fun pieces => ∀ p ∈ pieces, p.Even) fun a ha =>
    gives_attributePieces hid ha) fun attrs hattrs => ?_
  dsimp only
  refine .after (.mapM (P := Even) fun p hp => gives_pieceLines fun htidy =>
    even_joinLiterals ?_ p hp) fun head hhead => ?_
  · simp only [List.forall_mem_append, List.forall_mem_singleton]
    refine ⟨⟨trivial, fun p hp => ?_⟩, trivial⟩
    obtain ⟨pieces, hpieces, hp⟩ := List.mem_flatten.mp hp
    exact hattrs htidy pieces hpieces p hp
  have hopening : Tidy x → Even head.flatten := fun htidy => even_flatten.mpr (hhead htidy)
  rw [bodies, hk]
  change Makes x n (∃ m ∈ if (x.tree.children id).isEmpty = true then [] else [id], B m) []
    (if (!(x.tree.children id).isEmpty) = true then _ else _) _ _
  cases (x.tree.children id).isEmpty with
  | false =>
    rw [if_pos Bool.not_false, if_neg Bool.false_ne_true]
    refine .weaken (.before (hb scope id hscope hid) fun inside _ => .after (gives_writeLiteral _)
      fun tail htail => makes_around (f := []) hid hcontent hopening htail) ?_
    simp
  | true =>
    rw [if_neg (show ¬(!true) = true by simp), if_pos (show true = true from rfl)]
    exact (makes_behind (f := []) hid hcontent hopening).weaken (by simp)

end

end PageCompiler.ClassText
