import PageCompiler.Proofs.Checking.Established

namespace PageCompiler.Checking

variable {x : Context} {id : Nat}

theorem nodup_of_repeated?_eq_none {earlier all : List Supplied}
    (h : Supplied.repeated? earlier all = none) :
    (all.map Supplied.name).Nodup ∧ ∀ s ∈ all, ∀ e ∈ earlier, e.name ≠ s.name := by
  induction all generalizing earlier with
  | nil => simp
  | cons s rest ih =>
    unfold Supplied.repeated? at h
    split at h
    · cases h
    · rename_i hnew
      obtain ⟨hnodup, hother⟩ := ih h
      have hself : ∀ e ∈ earlier, e.name ≠ s.name := by simpa using hnew
      refine ⟨?_, List.forall_mem_cons.mpr ⟨hself, fun r hr e he => ?_⟩⟩
      · rw [List.map_cons, List.nodup_cons]
        refine ⟨fun hmem => ?_, hnodup⟩
        obtain ⟨r, hr, hname⟩ := List.mem_map.mp hmem
        exact hother r hr s (by simp) hname.symm
      · exact hother r hr e (List.mem_append_left _ he)

theorem supplied_eq_ok {all : List Supplied} (h : supplied x id = .ok all) :
    all = Supplied.ofNode x.tree id ∧ (all.map Supplied.name).Nodup := by
  unfold supplied at h
  dsimp only at h
  split at h
  · cases h
  · rename_i hnew
    cases h
    exact ⟨rfl, (nodup_of_repeated?_eq_none hnew).1⟩

theorem mem_ofNode {s : Supplied} {n : Nat} (h : s ∈ Supplied.ofNode x.tree id)
    (hs : s.given = .inr n) :
    n ∈ x.tree.children id ∧ ∃ data, x.tree.kind n = .named data := by
  rw [Supplied.ofNode, List.mem_append, List.mem_map, List.mem_filterMap] at h
  rcases h with ⟨a, -, rfl⟩ | ⟨c, hc, h⟩
  · cases hs
  · split at h
    · rename_i data hk
      cases h
      cases hs
      exact ⟨hc, data, hk⟩
    · cases h

-- What a value that was supplied has been taken for, and what the policy had to allow for that.
inductive Classified (x : Context) (id : NodeId) (s : Supplied) (p : Policy) :
    AttributeValue → Prop
  | named {n : NodeId} (hgiven : s.given = .inr n) : Classified x id s p (.named n)
  | scripting {a : Attribute} {construct : String} {mark : Mark} (hgiven : s.given = .inl a)
      (hfragment : p.fragment = false) (hcode : a.scripting = true) (hruntime : p.runtime = true)
      (hraw : checkRawCode x id construct mark = .ok ()) :
      Classified x id s p (.scripting a.value)
  | literal {a : Attribute} {o : ScanOptions} {parts : Composite} (hgiven : s.given = .inl a)
      (hfragment : p.fragment = false) (hcode : a.scripting = false)
      (hparse : Composite.parse o a.value.toList = .ok parts) (hdialects : parts.dialects = [])
      (hvoid : p.voidMethod = false) :
      Classified x id s p (.literal (parts.literalText.getD ""))
  | expression {a : Attribute} {o : ScanOptions} {parts : Composite} {dialect : Dialect}
      (hgiven : s.given = .inl a) (hfragment : p.fragment = false) (hcode : a.scripting = false)
      (hparse : Composite.parse o a.value.toList = .ok parts)
      (hdialects : parts.dialects = [dialect])
      (himmediate : dialect = .immediate → p.runtime = true)
      (hdeferred : dialect = .deferred → p.deferred = true ∧
        (p.method = true → parts.isSingleExpression = true))
      (hfunctions : checkFunctions x parts.functions a.mark = .ok ()) :
      Classified x id s p (.expression a.value parts dialect)

theorem classified_of_classifyText {reject : String → Except Diagnostic AttributeValue}
    {action : String} {s : Supplied} {a : Attribute} {p : Policy} {v : AttributeValue}
    (hr : ∀ reason v, reject reason ≠ .ok v) (hgiven : s.given = .inl a)
    (hfragment : p.fragment = false) (hcode : a.scripting = false)
    (h : classifyText x reject action a p = .ok v) : Classified x id s p v := by
  unfold classifyText at h
  dsimp only at h
  split at h
  · cases h
  · rename_i parts hparse
    split at h
    · rename_i hdialects
      split at h
      · exact absurd h (hr _ _)
      · rename_i hvoid
        cases h
        exact .literal hgiven hfragment hcode hparse hdialects (by simpa using hvoid)
    · rename_i dialect hdialects
      split at h
      · exact absurd h (hr _ _)
      · rename_i himmediate
        split at h
        · exact absurd h (hr _ _)
        · rename_i hdeferred
          split at h
          · exact absurd h (hr _ _)
          · rename_i hsingle
            obtain ⟨_, hfunctions, h⟩ := bind_eq_ok.mp h
            cases h
            refine .expression hgiven hfragment hcode hparse hdialects (fun hd => ?_)
              (fun hd => ⟨?_, fun hm => ?_⟩) hfunctions
            · simpa [hd] using himmediate
            · simpa [hd] using hdeferred
            · simpa [hd, hm] using hsingle
    · cases h

theorem classified_of_classify {s : Supplied} {p : Policy} {v : AttributeValue}
    (h : classify x id s p = .ok v) : Classified x id s p v := by
  unfold classify at h
  dsimp only at h
  split at h
  · rename_i n hgiven
    split at h
    · cases h
      exact .named hgiven
    · cases h
  · rename_i a hgiven
    split at h
    · cases h
    · rename_i hfragment
      have hfragment : p.fragment = false := by simpa using hfragment
      split at h
      · rename_i hcode
        split at h
        · rename_i hruntime
          obtain ⟨_, hraw, h⟩ := bind_eq_ok.mp h
          cases h
          exact .scripting hgiven hfragment hcode hruntime hraw
        · cases h
      · rename_i hcode
        exact classified_of_classifyText (fun _ _ => by rintro ⟨⟩) hgiven hfragment
          (by simpa using hcode) h

theorem given_of_classify_named {s : Supplied} {policy : Policy} {n : Nat}
    (h : classify x id s policy = .ok (.named n)) : s.given = .inr n := by
  cases classified_of_classify h with
  | named hgiven => exact hgiven

-- What the check of a custom action has made sure of.
structure PassedCustom (x : Context) (id : NodeId) (data : CustomAction) (number : Nat)
    (f : Finding) : Prop where
  attributes : (Supplied.ofNode x.tree id).mapM (resolveCustom x id data) = .ok f.attributes
  instanceId : f.instanceId = some (instanceId data number)
  distinct : ((Supplied.ofNode x.tree id).map Supplied.name).Nodup
  dynamic : data.tag.dynamicAttributes = true → data.tag.capabilities.dynamicAttributes = true
  valid : ∀ hook, data.tag.hook = some hook → hook.validate (tagData f.attributes) = []
  exposed : exposedVariables x data.tag (tagData f.attributes) data.qualifiedName (x.tree.mark id) =
    .ok f.exposed

theorem checkCustom_eq_ok {data : CustomAction} {number : Nat} {f : Finding}
    (h : checkCustom x id data number = .ok f) : PassedCustom x id data number f := by
  unfold checkCustom at h
  dsimp only at h
  split at h
  · obtain ⟨_, hfail, -⟩ := bind_eq_ok.mp h
    cases hfail
  · rename_i hdynamic
    split at h
    · obtain ⟨_, hfail, -⟩ := bind_eq_ok.mp h
      cases hfail
    · obtain ⟨all, hall, h⟩ := bind_eq_ok.mp h
      obtain ⟨attrs, hattrs, h⟩ := bind_eq_ok.mp h
      obtain ⟨hsupplied, hdistinct⟩ := supplied_eq_ok hall
      rw [hsupplied] at hattrs hdistinct
      split at h
      · cases h
      · split at h
        · rename_i hvalid
          obtain ⟨exposed, hexposed, h⟩ := bind_eq_ok.mp h
          cases h
          refine ⟨hattrs, rfl, hdistinct, fun hd => by simpa [hd] using hdynamic, fun hook hhook => ?_,
            hexposed⟩
          simpa [hhook] using hvalid
        · cases h

theorem checkStandard_eq_ok {beans beans' : Beans} {table : List StandardAttribute}
    {attrs : List ResolvedAttribute} (h : checkStandard x beans id table = .ok (attrs, beans')) :
    (Supplied.ofNode x.tree id).mapM (resolveStandard x id table) = .ok attrs := by
  unfold checkStandard at h
  obtain ⟨all, hall, h⟩ := bind_eq_ok.mp h
  obtain ⟨attrs', hattrs, h⟩ := bind_eq_ok.mp h
  rw [(supplied_eq_ok hall).1] at hattrs
  split at h
  · cases h
  · obtain ⟨_, _, h⟩ := bind_eq_ok.mp h
    cases h
    exact hattrs

theorem classify_of_resolveCustom {data : CustomAction} {s : Supplied} {a : ResolvedAttribute}
    (h : resolveCustom x id data s = .ok a) : ∃ policy, classify x id s policy = .ok a.value := by
  unfold resolveCustom at h
  dsimp only at h
  split at h
  · cases h
  · rename_i policy _
    obtain ⟨value, hvalue, h⟩ := bind_eq_ok.mp h
    cases h
    exact ⟨policy, hvalue⟩

theorem name_of_resolveCustom {data : CustomAction} {s : Supplied} {a : ResolvedAttribute}
    (h : resolveCustom x id data s = .ok a) :
    a.name = ((Text.cutString? ':' s.name).map Prod.snd).getD s.name := by
  unfold resolveCustom at h
  dsimp only at h
  split at h
  · cases h
  · obtain ⟨value, -, h⟩ := bind_eq_ok.mp h
    cases h
    rfl

theorem classify_of_resolveStandard {table : List StandardAttribute} {s : Supplied}
    {a : ResolvedAttribute} (h : resolveStandard x id table s = .ok a) :
    (∃ policy, classify x id s policy = .ok a.value) ∧ a.contract = none := by
  unfold resolveStandard at h
  dsimp only at h
  split at h
  · cases h
  · rename_i policy _
    obtain ⟨value, hvalue, h⟩ := bind_eq_ok.mp h
    cases h
    exact ⟨⟨policy, hvalue⟩, rfl⟩

theorem classify_of_resolveUninterpreted {b : Attribute} {a : ResolvedAttribute}
    (h : resolveUninterpreted x id b = .ok a) :
    (∃ policy, classify x id (.inline b) policy = .ok a.value) ∧ a.contract = none := by
  unfold resolveUninterpreted at h
  obtain ⟨value, hvalue, h⟩ := bind_eq_ok.mp h
  cases h
  exact ⟨⟨_, hvalue⟩, rfl⟩

variable {f : Finding}

theorem Established.instanceId {data : CustomAction} (h : Established x id f)
    (hk : x.tree.kind id = .custom data) : ∃ handler, f.instanceId = some handler := by
  rw [Established, hk] at h
  obtain ⟨number, h⟩ := h
  exact ⟨_, (checkCustom_eq_ok h).instanceId⟩

-- Only a custom action checks attributes against contracts.
theorem Established.contract_eq_none (h : Established x id f)
    (hk : ∀ data, x.tree.kind id ≠ .custom data) {a : ResolvedAttribute}
    (ha : a ∈ f.attributes) : a.contract = none := by
  by_cases hu : x.tree.kind id = .uninterpreted
  · rw [Established, hu] at h
    obtain ⟨attrs, hattrs, rfl⟩ := h
    obtain ⟨b, -, hb⟩ := mem_of_mapM_eq_ok hattrs ha
    exact (classify_of_resolveUninterpreted hb).2
  · rw [established_iff_of_table hk hu] at h
    split at h
    · subst h
      cases ha
    · obtain ⟨_, attrs, _, hattrs, rfl⟩ := h
      obtain ⟨s, -, hs⟩ := mem_of_mapM_eq_ok (checkStandard_eq_ok hattrs) ha
      exact (classify_of_resolveStandard hs).2

-- Every attribute that was found comes from one that was supplied.
theorem Established.exists_supplied (h : Established x id f) {a : ResolvedAttribute}
    (ha : a ∈ f.attributes) :
    ∃ s ∈ Supplied.ofNode x.tree id, ∃ policy, classify x id s policy = .ok a.value := by
  unfold Established at h
  split at h
  · obtain ⟨number, h⟩ := h
    obtain ⟨s, hs, hr⟩ := mem_of_mapM_eq_ok (checkCustom_eq_ok h).attributes ha
    exact ⟨s, hs, classify_of_resolveCustom hr⟩
  · obtain ⟨attrs, hattrs, rfl⟩ := h
    obtain ⟨b, hb, hr⟩ := mem_of_mapM_eq_ok hattrs ha
    exact ⟨.inline b, List.mem_append_left _ (List.mem_map_of_mem hb),
      (classify_of_resolveUninterpreted hr).1⟩
  · split at h
    · subst h
      cases ha
    · obtain ⟨_, attrs, _, hattrs, rfl⟩ := h
      obtain ⟨s, hs, hr⟩ := mem_of_mapM_eq_ok (checkStandard_eq_ok hattrs) ha
      exact ⟨s, hs, (classify_of_resolveStandard hr).1⟩

theorem Established.named (h : Established x id f) {a : ResolvedAttribute}
    (ha : a ∈ f.attributes) {n : Nat} (hv : a.value = .named n) :
    n ∈ x.tree.children id ∧ ∃ data, x.tree.kind n = .named data := by
  obtain ⟨s, hs, policy, hp⟩ := h.exists_supplied ha
  rw [hv] at hp
  exact mem_ofNode hs (given_of_classify_named hp)

end PageCompiler.Checking
