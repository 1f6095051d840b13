import PageCompiler.Proofs.ClassText.Outcome
import PageCompiler.Proofs.Checking.Attributes
import PageCompiler.Proofs.Page.Preorder

namespace PageCompiler

-- The elements that attributes are given as.
def Finding.named (f : Finding) : List NodeId := f.attributes.filterMap fun a => a.value.named?

theorem Finding.mem_named {f : Finding} {n : Nat} :
    n ∈ f.named ↔ ∃ a ∈ f.attributes, a.value = .named n := by
  rw [named, List.mem_filterMap]
  refine exists_congr fun a => and_congr_right fun _ => ?_
  cases a.value <;> simp [AttributeValue.named?]

namespace ClassText

-- The parameters of an action, in its body or in groups in its body.
def paramsOf (t : Tree) : Nat → NodeId → List NodeId
  | 0, _ => []
  | fuel + 1, id =>
    (t.children id).flatMap fun child =>
      match t.kind child with
      | .param => [child]
      | .params => paramsOf t fuel child
      | _ => []

-- The nodes whose bodies are generated for a node.
def bodies (x : Context) (id : NodeId) : List NodeId :=
  let t := x.tree
  let named := (x.finding id).named
  let content := if t.hasContent id then [id] else []
  let params := (paramsOf t t.size id).flatMap fun p => (x.finding p).named
  match t.kind id with
  | .root _ | .xmlRoot | .includeDirective | .body | .jspText => [id]
  | .useBean | .element | .custom _ => named ++ content
  | .setProperty => named
  | .forward | .includeAction => named ++ params
  | .plugin =>
    named ++ params ++ ((t.children id).find? fun c => isFallback (t.kind c)).toList
  | .uninterpreted => if (t.children id).isEmpty then [] else [id]
  | _ => []

-- The contract of a deferred method whose parameters an attribute asks for: literals and
-- expressions do, raw code and elements do not.
def methodOf? (a : ResolvedAttribute) : Option AttributeContract :=
  match a.value with
  | .literal _ | .expression .. => a.contract.filter AttributeContract.deferredMethod
  | .scripting _ | .named _ => none

-- The parameters of every method that an attribute of a custom action takes can be told.
def Legible (x : Context) (id : NodeId) : Prop :=
  ∀ data, x.tree.kind id = .custom data →
    ∀ a ∈ (x.finding id).attributes, ∀ c ∈ methodOf? a, c.parameterTypes?.isSome

-- What a checked page comes to the generator with.
structure Annotated (x : Context) : Prop where
  wellFormed : x.tree.WellFormed
  established : ∀ id ∈ x.tree.preorder,
    Checking.Established (x.checked.context x.options) id (x.finding id)

namespace Annotated

variable {x : Context} {id n : Nat}

theorem mem_children_of_named (hx : Annotated x) (hid : id ∈ x.tree.preorder)
    (h : n ∈ (x.finding id).named) :
    n ∈ x.tree.children id ∧ ∃ data, x.tree.kind n = .named data := by
  obtain ⟨a, ha, hv⟩ := Finding.mem_named.mp h
  exact (hx.established id hid).named ha hv

theorem instanceId (hx : Annotated x) (hid : id ∈ x.tree.preorder) {data : CustomAction}
    (hk : x.tree.kind id = .custom data) : ∃ handler, (x.finding id).instanceId = some handler :=
  (hx.established id hid).instanceId hk

theorem isFragment_eq_false (hx : Annotated x) (hid : id ∈ x.tree.preorder)
    (hk : ∀ data, x.tree.kind id ≠ .custom data) {a : ResolvedAttribute}
    (ha : a ∈ (x.finding id).attributes) : isFragment a = false := by
  rw [isFragment, (hx.established id hid).contract_eq_none hk ha]
  rfl

theorem paramsOf_mem_preorder (hx : Annotated x) (fuel : Nat) (hid : id ∈ x.tree.preorder)
    (h : n ∈ paramsOf x.tree fuel id) : n ∈ x.tree.preorder ∧ x.tree.kind n = .param ∧ id < n := by
  induction fuel generalizing id with
  | zero => cases h
  | succ fuel ih =>
    rw [paramsOf, List.mem_flatMap] at h
    obtain ⟨c, hc, h⟩ := h
    have hlt := (hx.wellFormed.child_lt hc).1
    have hmem := hx.wellFormed.child_mem_preorder hid hc
    split at h
    · obtain rfl : n = c := by simpa using h
      exact ⟨hmem, ‹_›, hlt⟩
    · obtain ⟨h1, h2, h3⟩ := ih hmem h
      exact ⟨h1, h2, Nat.lt_trans hlt h3⟩
    · cases h

-- Where the bodies that are generated for a node stand.
theorem mem_bodies_cases (h : n ∈ bodies x id) :
    n = id ∨ n ∈ (x.finding id).named ∨
      (∃ p ∈ paramsOf x.tree x.tree.size id, n ∈ (x.finding p).named) ∨
      (n ∈ x.tree.children id ∧ isFallback (x.tree.kind n) = true) := by
  have hparams : n ∈ (paramsOf x.tree x.tree.size id).flatMap (fun p => (x.finding p).named) →
      ∃ p ∈ paramsOf x.tree x.tree.size id, n ∈ (x.finding p).named := List.mem_flatMap.mp
  unfold bodies at h
  dsimp only at h
  split at h
  case h_6 | h_7 | h_8 =>
    rcases List.mem_append.mp h with h | h
    · exact .inr (.inl h)
    · split at h
      · exact .inl (by simpa using h)
      · cases h
  case h_9 => exact .inr (.inl h)
  case h_10 | h_11 =>
    exact .inr ((List.mem_append.mp h).imp_right fun h => .inl (hparams h))
  case h_12 =>
    rcases List.mem_append.mp h with h | h
    · exact .inr ((List.mem_append.mp h).imp_right fun h => .inl (hparams h))
    · have hfind := Option.mem_toList.mp h
      exact .inr (.inr (.inr ⟨List.mem_of_find?_eq_some hfind,
        List.find?_some (p := fun c => isFallback (x.tree.kind c)) hfind⟩))
  case h_13 =>
    split at h
    · cases h
    · exact .inl (by simpa using h)
  case h_14 => cases h
  all_goals exact .inl (by simpa using h)

-- The generator stays in the tree and never goes back to a smaller number.
theorem mem_bodies (hx : Annotated x) (hid : id ∈ x.tree.preorder) (h : n ∈ bodies x id) :
    n ∈ x.tree.preorder ∧ id ≤ n := by
  have hchild : ∀ {i m : Nat}, i ∈ x.tree.preorder → m ∈ x.tree.children i →
      m ∈ x.tree.preorder ∧ i ≤ m := fun hi hm =>
    ⟨hx.wellFormed.child_mem_preorder hi hm, Nat.le_of_lt (hx.wellFormed.child_lt hm).1⟩
  rcases mem_bodies_cases h with rfl | hn | ⟨p, hp, hn⟩ | ⟨hn, -⟩
  · exact ⟨hid, Nat.le_refl _⟩
  · exact hchild hid (hx.mem_children_of_named hid hn).1
  · obtain ⟨hmem, -, hlt⟩ := hx.paramsOf_mem_preorder _ hid hp
    obtain ⟨h1, h2⟩ := hchild hmem (hx.mem_children_of_named hmem hn).1
    exact ⟨h1, Nat.le_trans (Nat.le_of_lt hlt) h2⟩
  · exact hchild hid hn

end Annotated

section

variable {x : Context} {body : BodyGen} {B : Nat → Prop} {id : Nat} (hx : Annotated x)
  (hb : ∀ scope n, n ∈ x.tree.preorder → Outcome (B n) (body scope n))
  (hid : id ∈ x.tree.preorder) (scope : Scope)
include hx hb hid

-- Fragments are left out here.
theorem outcome_namedValues :
    Outcome (∀ a ∈ (x.finding id).attributes, ∀ n, a.value = .named n → isFragment a = false → B n)
      (namedValues x body scope id) := by
  refine .before (.mapM fun a ha => ?_) fun _ => .pure _
  cases hv : a.value with
  | named n =>
    have hn := (hx.established id hid).named ha hv
    obtain ⟨data, hk⟩ := hn.2
    have hmem : n ∈ x.tree.preorder := hx.wellFormed.child_mem_preorder hid hn.1
    simp only [show x.tree.kind n = .named data from hk]
    split
    · rename_i hf
      exact (Outcome.pure _).congr (by simp [hf])
    · rename_i hf
      refine Outcome.congr (P := B n) ?_ (by simp [hf])
      exact .after (total_namedVariable _) fun _ => .before (hb scope n hmem) fun _ => .pure _
  | _ => exact (Outcome.pure _).congr (by simp)

theorem outcome_namedValues_of_standard (hk : ∀ data, x.tree.kind id ≠ .custom data) :
    Outcome (∀ n ∈ (x.finding id).named, B n) (namedValues x body scope id) := by
  refine (outcome_namedValues hx hb hid scope).congr ⟨fun h n hn => ?_, fun h a ha n hv _ => ?_⟩
  · obtain ⟨a, ha, hv⟩ := Finding.mem_named.mp hn
    exact h a ha n hv (hx.isFragment_eq_false hid hk ha)
  · exact h n (Finding.mem_named.mpr ⟨a, ha, hv⟩)

omit hx hb hid in
theorem forall_mem_content {named : List Nat} {c : Bool} :
    (∀ n ∈ named ++ (if c then [id] else []), B n) ↔ (∀ n ∈ named, B n) ∧ (c = true → B id) := by
  cases c <;> simp [or_imp, forall_and]

theorem outcome_useBeanCode (hk : x.tree.kind id = .useBean) :
    Outcome (∀ n ∈ bodies x id, B n) (useBeanCode x body scope id) := by
  have hvalues := outcome_namedValues_of_standard hx hb hid scope (by simp [hk])
  have hcode : Outcome _ (useBeanCode x body scope id) :=
    hvalues.bind fun _ => .after (total_declareName _) fun _ =>
      .after (total_makeBean x _ _ _) fun _ =>
        .onlyIf (.before (.inBlock (hb scope id hid)) fun _ => .pure _)
          (.after (.pure _) fun _ => .pure _)
  refine hcode.congr ?_
  rw [bodies, hk]
  exact forall_mem_content.symm

theorem outcome_setPropertyCode (hk : x.tree.kind id = .setProperty) :
    Outcome (∀ n ∈ bodies x id, B n) (setPropertyCode x body scope id) := by
  have hvalues := outcome_namedValues_of_standard hx hb hid scope (by simp [hk])
  rw [bodies, hk]
  refine hvalues.before fun _ => ?_
  dsimp only
  with_reducible repeat' first
    | exact .pure _
    | exact total_propertyValue x _
    | refine .after ?_ fun _ => ?_
    | split

theorem outcome_elementCode (hk : x.tree.kind id = .element) :
    Outcome (∀ n ∈ bodies x id, B n) (elementCode x body scope id) := by
  have hvalues := outcome_namedValues_of_standard hx hb hid scope (by simp [hk])
  have hcode : Outcome _ (elementCode x body scope id) :=
    hvalues.bind fun _ => .after (total_stringOf x _ _) fun _ => .after (.modifyGet _) fun _ =>
      .after (.mapM_total fun a => total_elementAttribute x a) fun _ =>
        .onlyIf (.before (hb scope id hid) fun _ => .pure _) (.pure _)
  refine hcode.congr ?_
  rw [bodies, hk]
  exact forall_mem_content.symm

-- Parameters in groups are found by going down from group to group.
theorem outcome_paramsCode (fuel : Nat) :
    Outcome (∀ n ∈ (paramsOf x.tree fuel id).flatMap (fun p => (x.finding p).named), B n)
      (paramsCode x body scope fuel id) := by
  induction fuel generalizing id with
  | zero => exact (Outcome.pure _).congr (by simp [paramsOf])
  | succ fuel ih =>
    have hchildren : Outcome (∀ c ∈ x.tree.children id,
        ∀ n ∈ (match x.tree.kind c with
          | .param => [c]
          | .params => paramsOf x.tree fuel c
          | _ => []).flatMap (fun p => (x.finding p).named), B n)
        ((x.tree.children id).mapM fun child =>
          match x.tree.kind child with
          | .param => paramCode x body scope child
          | .params => paramsCode x body scope fuel child
          | _ => return ([], [])) := by
      refine .mapM fun c hc => ?_
      have hmem := hx.wellFormed.child_mem_preorder hid hc
      split
      · rename_i hk
        have hvalues := outcome_namedValues_of_standard hx hb hmem scope (by simp [hk])
        have hcode : Outcome _ (paramCode x body scope c) :=
          hvalues.before fun _ => .after (total_stringOf x _ _) fun _ =>
            .after (total_stringOf x _ _) fun _ => .pure _
        exact hcode.congr (by simp)
      · exact ih hmem
      · exact (Outcome.pure _).congr (by simp)
    refine (hchildren.before fun _ => .pure _).congr ?_
    rw [paramsOf, List.flatMap_assoc]
    simp only [List.mem_flatMap, forall_exists_index, and_imp]
    exact ⟨fun h n c hc => h c hc n, fun h c hc n => h n c hc⟩

theorem outcome_includeCode (hk : x.tree.kind id = .includeAction) :
    Outcome (∀ n ∈ bodies x id, B n) (includeCode x body scope id) := by
  have hvalues := outcome_namedValues_of_standard hx hb hid scope (by simp [hk])
  have hparams := outcome_paramsCode hx hb hid scope x.tree.size
  have hcode : Outcome _ (includeCode x body scope id) :=
    hvalues.bind fun _ => .before hparams fun _ => .after (total_stringOf x _ _) fun _ => .pure _
  refine hcode.congr ?_
  rw [bodies, hk]
  simp only [List.mem_append, or_imp, forall_and]

theorem outcome_forwardCode (hk : x.tree.kind id = .forward) :
    Outcome (∀ n ∈ bodies x id, B n) (forwardCode x body scope id) := by
  have hvalues := outcome_namedValues_of_standard hx hb hid scope (by simp [hk])
  have hparams := outcome_paramsCode hx hb hid scope x.tree.size
  have hcode : Outcome _ (forwardCode x body scope id) :=
    hvalues.bind fun _ => .before hparams fun _ => .after (total_stringOf x _ _) fun _ => .pure _
  refine hcode.congr ?_
  rw [bodies, hk]
  simp only [List.mem_append, or_imp, forall_and]

theorem outcome_fallbackCode :
    Outcome (∀ n ∈ ((x.tree.children id).find? fun c => isFallback (x.tree.kind c)).toList, B n)
      (fallbackCode x body scope id) := by
  unfold fallbackCode
  split
  · rename_i hnone
    exact (Outcome.pure _).congr (by simp [hnone])
  · rename_i c hc
    have hmem := hx.wellFormed.child_mem_preorder hid (List.mem_of_find?_eq_some hc)
    have hcode := (hb scope c hmem).before fun inside => .pure
      (Stretch.forMark (x.tree.mark c) [pluginLine ".pluginFallbackStart"] :: inside ++
        [Stretch.forMark (x.tree.mark c) [pluginLine ".pluginFallbackEnd"]])
    exact hcode.congr (by simp [hc])

theorem outcome_pluginCode (hk : x.tree.kind id = .plugin) :
    Outcome (∀ n ∈ bodies x id, B n) (pluginCode x body scope id) := by
  have hvalues := outcome_namedValues_of_standard hx hb hid scope (by simp [hk])
  have hparams := outcome_paramsCode hx hb hid scope x.tree.size
  have hfallback := outcome_fallbackCode hx hb hid scope
  have hcode : Outcome _ (pluginCode x body scope id) :=
    hvalues.bind fun _ => hparams.bind fun _ =>
      .after (.mapM_total fun a => .after (total_stringValue x a) fun _ => .pure _) fun _ =>
        .after (total_stringOf x _ _) fun _ => .after (total_stringOf x _ _) fun _ =>
          .after (total_stringOf x _ _) fun _ => .before hfallback fun _ => .pure _
  refine hcode.congr ?_
  rw [bodies, hk]
  simp only [List.mem_append, or_imp, forall_and, and_assoc]

omit hx in
theorem outcome_markupCode (hk : x.tree.kind id = .uninterpreted) :
    Outcome (∀ n ∈ bodies x id, B n) (markupCode x body scope id) := by
  have hcode : Outcome _ (markupCode x body scope id) :=
    .after (.mapM_total fun a => total_attributePieces x a) fun _ =>
      .after (.mapM_total fun p => total_pieceLines x p) fun _ =>
        .onlyIf (.before (hb scope id hid) fun _ => .after (total_writeLiteral x _) fun _ => .pure _)
          (.pure _)
  refine hcode.congr ?_
  rw [bodies, hk]
  change ((!(x.tree.children id).isEmpty) = true → B id) ↔ _
  cases (x.tree.children id).isEmpty <;> simp

omit hx in
theorem outcome_deferBody (kind : HandlerKind) (nested : List Variable) :
    Outcome (B id) (deferBody body id kind nested) :=
  .after (.modifyGet _) fun _ => .before
    (.inMethod (.after (total_declareVariables _) fun _ => .after (total_syncVariables _) fun _ =>
      .before (hb _ id hid) fun _ => .pure _))
    fun _ => .after (.of_modify _) fun _ => .pure _

omit hx hb hid in
theorem outcome_methodParameters (c : AttributeContract) :
    Outcome (c.parameterTypes?.isSome = true) (methodParameters c) := by
  unfold methodParameters
  cases hc : c.parameterTypes? with
  | some types => exact (Outcome.pure _).congr (by simp)
  | none => exact ⟨by simp, fun _ s => ⟨_, rfl⟩⟩

omit hx hb hid in
theorem outcome_expressionValue (contract : Option AttributeContract) (parts : Composite)
    (dialect : Dialect) :
    Outcome (∀ c ∈ contract.filter AttributeContract.deferredMethod,
      c.parameterTypes?.isSome = true) (expressionValue x contract parts dialect) := by
  refine .after (total_functionField x _) fun _ => ?_
  dsimp only
  split
  · rename_i c
    split
    · rename_i hc
      refine ((outcome_methodParameters c).before fun _ => .pure _).congr ?_
      simp [Option.filter_some, hc]
    · rename_i hc
      split
      · exact (Outcome.pure _).congr (by simp [Option.filter_some, hc])
      · exact (Outcome.pure _).congr (by simp [Option.filter_some, hc])
  · split
    · exact (Outcome.pure _).congr (by simp)
    · exact (Outcome.pure _).congr (by simp)

omit hx hb hid in
theorem outcome_literalValue (a : ResolvedAttribute) (value : String) :
    Outcome (∀ c ∈ a.contract.filter AttributeContract.deferredMethod,
      c.parameterTypes?.isSome = true) (literalValue a value) := by
  unfold literalValue
  split
  · rename_i c hcontract
    rw [hcontract]
    split
    · rename_i hc
      refine ((outcome_methodParameters c).before fun _ => .pure _).congr ?_
      simp [Option.filter_some, hc]
    · rename_i hc
      split
      · exact (Outcome.pure _).congr (by simp [Option.filter_some, hc])
      · exact (Outcome.pure _).congr (by simp [Option.filter_some, hc])
  · rename_i hcontract
    exact (Outcome.pure _).congr (by simp [hcontract])

theorem outcome_attributeValue (handler : String) (kind : HandlerKind) {a : ResolvedAttribute}
    (ha : a ∈ (x.finding id).attributes) :
    Outcome ((∀ c ∈ methodOf? a, c.parameterTypes?.isSome = true) ∧
      ∀ n, a.value = .named n → isFragment a = true → B n)
      (attributeValue x body scope handler kind a) := by
  cases hv : a.value with
  | literal v =>
    simp only [attributeValue, methodOf?, hv]
    exact (outcome_literalValue a v).congr (by simp)
  | scripting code =>
    simp only [attributeValue, methodOf?, hv]
    exact (Outcome.pure _).congr (by simp)
  | expression source parts dialect =>
    simp only [attributeValue, methodOf?, hv]
    exact (outcome_expressionValue a.contract parts dialect).congr (by simp)
  | named n =>
    have hmem := hx.wellFormed.child_mem_preorder hid ((hx.established id hid).named ha hv).1
    have hbody := outcome_deferBody hb hmem kind []
    simp only [attributeValue, methodOf?, hv]
    split
    · rename_i hf
      exact (hbody.before fun _ => .pure _).congr (by simp [hf])
    · rename_i hf
      exact (Outcome.after (total_namedVariable n) fun _ => .pure _).congr (by simp [hf])

theorem outcome_setters (handler : String) (kind : HandlerKind) :
    Outcome (∀ a ∈ (x.finding id).attributes, (∀ c ∈ methodOf? a, c.parameterTypes?.isSome = true) ∧
      ∀ n, a.value = .named n → isFragment a = true → B n)
      (setters x body scope (x.finding id) handler kind) := by
  refine .mapM fun a ha => .before (outcome_attributeValue hx hb hid scope handler kind ha) ?_
  intro value
  split
  · exact .pure _
  · exact .pure _

omit hx hb hid in
-- The condition of a custom action: each element is gone into, as a value or as a fragment.
theorem custom_condition_iff {data : CustomAction} (hk : x.tree.kind id = .custom data) :
    ((∀ a ∈ (x.finding id).attributes, ∀ n, a.value = .named n → isFragment a = false → B n) ∧
      (∀ a ∈ (x.finding id).attributes, (∀ c ∈ methodOf? a, c.parameterTypes?.isSome = true) ∧
        ∀ n, a.value = .named n → isFragment a = true → B n) ∧
      (x.tree.hasContent id = true → B id)) ↔
    Legible x id ∧ ∀ n ∈ bodies x id, B n := by
  rw [bodies, hk]
  simp only [forall_mem_content]
  constructor
  · rintro ⟨hvalues, hset, hcontent⟩
    refine ⟨fun _ _ a ha => (hset a ha).1, fun n hn => ?_, hcontent⟩
    obtain ⟨a, ha, hv⟩ := Finding.mem_named.mp hn
    cases hf : isFragment a with
    | false => exact hvalues a ha n hv hf
    | true => exact (hset a ha).2 n hv hf
  · rintro ⟨hlegible, hnamed, hcontent⟩
    have hall : ∀ a ∈ (x.finding id).attributes, ∀ n, a.value = .named n → B n :=
      fun a ha n hv => hnamed n (Finding.mem_named.mpr ⟨a, ha, hv⟩)
    exact ⟨fun a ha n hv _ => hall a ha n hv,
      fun a ha => ⟨hlegible data hk a ha, fun n hv _ => hall a ha n hv⟩, hcontent⟩

theorem outcome_simpleCode {data : CustomAction} (hk : x.tree.kind id = .custom data)
    (handler : String) :
    Outcome (Legible x id ∧ ∀ n ∈ bodies x id, B n) (simpleCode x body scope id data handler) := by
  have hvalues := outcome_namedValues hx hb hid scope
  have hset := outcome_setters hx hb hid scope handler .simple
  have hbody := outcome_deferBody hb hid .simple (x.finding id).exposed.nested
  have hsetter : Outcome (x.tree.hasContent id = true → B id)
      (bodySetter x body scope id handler) :=
    .onlyIf (hbody.before fun _ => .pure _) (.pure _)
  have hcode : Outcome _ (simpleCode x body scope id data handler) :=
    hvalues.bind fun _ => hset.bind fun _ => hsetter.before fun _ =>
      .after (total_syncVariables _) fun _ => .pure _
  exact hcode.congr (custom_condition_iff hk)

omit hx in
theorem outcome_classicBody (handler count : String) (c : Capabilities) :
    Outcome (B id) (classicBody x body scope id handler count c) :=
  .inBlock (.after (total_declareVariables _) fun _ => .after (total_syncVariables _) fun _ =>
    .before (hb _ id hid) fun _ => .after (total_syncVariables _) fun _ => .pure _)

theorem outcome_classicCode {data : CustomAction} (hk : x.tree.kind id = .custom data)
    (handler : String) :
    Outcome (Legible x id ∧ ∀ n ∈ bodies x id, B n)
      (classicCode x body scope id data handler) := by
  have hvalues := outcome_namedValues hx hb hid scope
  have hset := outcome_setters hx hb hid scope handler .classic
  have hbody := fun count => outcome_classicBody hb hid scope handler count data.tag.capabilities
  have hcode : Outcome _ (classicCode x body scope id data handler) :=
    hvalues.bind fun _ => .after (total_addPool _) fun _ => hset.bind fun _ =>
      .after (total_syncVariables _) fun _ =>
        .onlyIf ((hbody _).before fun _ => .after (total_syncVariables _) fun _ => .pure _)
          (.after (.pure _) fun _ => .after (total_syncVariables _) fun _ => .pure _)
  exact hcode.congr (custom_condition_iff hk)

theorem outcome_inlineCode {data : CustomAction} (hk : x.tree.kind id = .custom data) :
    Outcome (Legible x id ∧ ∀ n ∈ bodies x id, B n) (inlineCode x body scope id data) := by
  obtain ⟨handler, hhandler⟩ := hx.instanceId hid hk
  have hsimple := outcome_simpleCode hx hb hid scope hk handler
  have hclassic := outcome_classicCode hx hb hid scope hk handler
  unfold inlineCode
  simp only [hhandler]
  refine .after (total_saveVariables _ _) fun saved => .after (total_declareVariables _) fun _ =>
    .after (total_declareVariables _) fun _ => ?_
  split
  · exact hsimple.before fun _ => .pure _
  · exact hclassic.before fun _ => .pure _

theorem outcome_customCode {data : CustomAction} (hk : x.tree.kind id = .custom data) :
    Outcome (Legible x id ∧ ∀ n ∈ bodies x id, B n) (customCode x body scope id data) := by
  have hinline := fun scope => outcome_inlineCode hx hb hid scope hk
  unfold customCode
  split
  · split
    · exact .before (.inMethod (hinline _)) fun _ => .after (.of_modify _) fun _ => .pure _
    · exact hinline scope
  · exact hinline scope

-- The statements of a node come to an end exactly if those of the bodies it goes into do, and a
-- custom action can tell the parameters of its methods.
theorem outcome_nodeCode :
    Outcome (Legible x id ∧ ∀ n ∈ bodies x id, B n) (nodeCode x body scope id) := by
  have hlegible : (∀ data, x.tree.kind id ≠ .custom data) → Legible x id := fun h data hk =>
    absurd hk (h data)
  have hstandard : ∀ {m : GenM Code}, (∀ data, x.tree.kind id ≠ .custom data) →
      Outcome (∀ n ∈ bodies x id, B n) m → Outcome (Legible x id ∧ ∀ n ∈ bodies x id, B n) m :=
    fun h hm => hm.congr (by simp [hlegible h])
  have hquiet : ∀ {m : GenM Code}, (∀ data, x.tree.kind id ≠ .custom data) → bodies x id = [] →
      Total m → Outcome (Legible x id ∧ ∀ n ∈ bodies x id, B n) m :=
    fun h hnone hm => hstandard h (hm.congr (by simp [hnone]))
  have hself := hb scope id hid
  unfold nodeCode
  cases hk : x.tree.kind id with
  | root _ | xmlRoot | includeDirective | body | jspText =>
    exact hstandard (by simp [hk]) (hself.congr (by simp [bodies, hk]))
  | pageDirective | taglibDirective | comment _ | param | params | fallback | output | named _ =>
    exact hquiet (by simp [hk]) (by simp [bodies, hk]) (.pure _)
  | script kind code =>
    exact hquiet (by simp [hk]) (by simp [bodies, hk]) (total_scriptCode x kind id)
  | insert data =>
    exact hquiet (by simp [hk]) (by simp [bodies, hk]) (total_insertCode x _ data)
  | text run =>
    refine hquiet (by simp [hk]) (by simp [bodies, hk]) ?_
    dsimp only
    split
    · exact .pure _
    · exact total_textCode x _ run
  | useBean => exact hstandard (by simp [hk]) (outcome_useBeanCode hx hb hid scope hk)
  | setProperty => exact hstandard (by simp [hk]) (outcome_setPropertyCode hx hb hid scope hk)
  | getProperty =>
    exact hquiet (by simp [hk]) (by simp [bodies, hk]) (total_getPropertyCode x id)
  | forward => exact hstandard (by simp [hk]) (outcome_forwardCode hx hb hid scope hk)
  | includeAction => exact hstandard (by simp [hk]) (outcome_includeCode hx hb hid scope hk)
  | plugin => exact hstandard (by simp [hk]) (outcome_pluginCode hx hb hid scope hk)
  | element => exact hstandard (by simp [hk]) (outcome_elementCode hx hb hid scope hk)
  | custom data => exact outcome_customCode hx hb hid scope hk
  | uninterpreted => exact hstandard (by simp [hk]) (outcome_markupCode hb hid scope hk)

end
end ClassText
end PageCompiler
