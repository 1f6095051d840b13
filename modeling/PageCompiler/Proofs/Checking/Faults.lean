import PageCompiler.Proofs.Checking.Reconciling
import PageCompiler.Proofs.Reading.PageFaults

namespace PageCompiler

open Checking (bind_eq_ok)

theorem failing_fault {t : Tree} {mark : Mark} {α : Type} (phase : String) (fault : Fault)
    (hmark : t.sources.Covers mark) :
    Failing (·.Within t.sources) (.error (t.fault phase fault mark) : Except Diagnostic α) :=
  .error (Diagnostic.within_place hmark _ _)

theorem failing_fault_bind {t : Tree} {mark : Mark} {α β : Type} (phase : String)
    (fault : Fault) (hmark : t.sources.Covers mark) (f : α → Except Diagnostic β) :
    Failing (·.Within t.sources)
      ((.error (t.fault phase fault mark) : Except Diagnostic α) >>= f) :=
  .error_bind (Diagnostic.within_place hmark _ _) f

namespace Settings

variable {t : Tree} {a : Attribute} {r r' : Reconciled}

theorem failing_flag (ha : t.sources.Covers a.mark) :
    Failing (·.Within t.sources) (flag t a) := by
  unfold flag
  split
  · exact .ok _
  · exact .ok _
  · exact failing_fault _ _ ha

theorem failing_size (ha : t.sources.Covers a.mark) :
    Failing (·.Within t.sources) (size t a) := by
  unfold size
  split
  · split
    · exact .ok _
    · exact failing_fault _ _ ha
  · exact failing_fault _ _ ha

theorem failing_apply (s : Settings) (ha : t.sources.Covers a.mark) :
    Failing (·.Within t.sources) (apply t s a) := by
  unfold apply
  split
  · split
    · exact .ok _
    · exact failing_fault _ _ ha
  case h_4 => exact .bind (failing_size ha) fun _ _ => .ok _
  case h_3 | h_5 | h_6 | h_9 | h_11 | h_12 | h_13 =>
    exact .bind (failing_flag ha) fun _ _ => .ok _
  case h_14 => exact failing_fault _ _ ha
  all_goals exact .ok _

-- What has been seen stands where it can be pointed at.
def Reconciled.Covered (t : Tree) (r : Reconciled) : Prop :=
  ∀ entry ∈ r.seen, t.sources.Covers entry.2.mark

theorem failing_record (r : Reconciled) (ha : t.sources.Covers a.mark) :
    Failing (·.Within t.sources) (record t r a) := by
  unfold record
  split
  · split
    · exact .ok _
    · exact failing_fault _ _ ha
  · exact .ok _

theorem covered_record (h : record t r a = .ok r') (hr : r.Covered t)
    (ha : t.sources.Covers a.mark) : r'.Covered t := by
  unfold record at h
  split at h
  · split at h
    · cases h
      exact hr
    · cases h
  · cases h
    rintro entry hentry
    rcases List.mem_append.mp hentry with hentry | hentry
    · exact hr entry hentry
    · rw [List.mem_singleton.mp hentry]
      exact ha

theorem failing_checkEncoding (signs : EncodingInfo) (ha : t.sources.Covers a.mark) :
    Failing (·.Within t.sources) (checkEncoding t a signs) := by
  unfold checkEncoding
  refine .forM fun stronger _ => ?_
  obtain ⟨detected, sign⟩ := stronger
  dsimp only
  split
  · split
    · exact .ok _
    · exact failing_fault _ _ ha
  · exact .ok _

theorem failing_applyEncoding (id : NodeId) (r : Reconciled) (ha : t.sources.Covers a.mark) :
    Failing (·.Within t.sources) (applyEncoding t id r a) := by
  unfold applyEncoding
  dsimp only
  split
  · split
    · exact .ok _
    · exact failing_fault _ _ ha
  · split
    · exact .ok _
    · refine .bind (failing_checkEncoding _ ha) fun _ _ => ?_
      split
      · exact .ok _
      · exact .ok _

theorem failing_applyAttribute (id : NodeId) (hr : r.Covered t) (ha : t.sources.Covers a.mark) :
    Failing (·.Within t.sources) (applyAttribute t id r a) ∧
      ∀ r', applyAttribute t id r a = .ok r' → r'.Covered t := by
  unfold applyAttribute
  dsimp only
  split
  · exact ⟨failing_fault_bind _ _ ha _, fun _ h => nomatch h⟩
  · split
    · refine ⟨.ok _, ?_⟩
      rintro _ ⟨⟩
      exact hr
    · refine ⟨failing_applyEncoding id r ha, fun r' h => ?_⟩
      rw [Reconciled.Covered, (applyEncoding_settings h).1]
      exact hr
    · refine ⟨.bind (failing_apply _ ha) fun _ _ => failing_record _ ha, fun r' h => ?_⟩
      obtain ⟨settings, -, hrecord⟩ := bind_eq_ok.mp h
      exact covered_record hrecord hr ha

theorem failing_checkRoot {id : NodeId} (data : UnitRoot) (hid : t.sources.Covers (t.mark id)) :
    Failing (·.Within t.sources) (checkRoot t id data) := by
  unfold checkRoot
  split
  · split
    · exact .ok _
    · exact failing_fault _ _ hid
  · exact .ok _

theorem failing_applyNode {id : NodeId} (hid : (t.node id).Marked t.sources.Covers)
    (hr : r.Covered t) : Failing (·.Within t.sources) (applyNode t r id) ∧
      ∀ r', applyNode t r id = .ok r' → r'.Covered t := by
  unfold applyNode
  split
  · refine ⟨.bind (failing_checkRoot _ hid.1) fun _ _ => .ok _, fun r' h => ?_⟩
    obtain ⟨_, -, h⟩ := bind_eq_ok.mp h
    cases h
    exact hr
  · exact Failing.foldlM hr fun r hr a ha => failing_applyAttribute id hr (hid.2 a ha)
  · refine ⟨.ok _, ?_⟩
    rintro _ ⟨⟩
    exact hr

theorem failing_checkFlush (ht : t.Covered) (hr : r.Covered t) :
    Failing (·.Within t.sources) (checkFlush t r) := by
  unfold checkFlush
  split
  · refine failing_fault _ _ ?_
    cases hseen : r.seen.lookup "autoFlush" with
    | none => exact (ht.node _ ht.wellFormed.root_lt).1
    | some seen =>
      obtain ⟨l₁, l₂, heq, -⟩ := List.lookup_eq_some_iff.mp hseen
      exact hr _ (heq ▸ List.mem_append_right _ (List.mem_cons_self ..))
  · exact .ok _

theorem failing_reconcile (ht : t.Covered) (o : Options) :
    Failing (·.Within t.sources) (reconcile t o) := by
  have hstart : Reconciled.Covered t { settings := ofOptions o } := fun _ hentry => nomatch hentry
  obtain ⟨hnodes, hcovered⟩ := Failing.foldlM (P := (·.Within t.sources)) hstart
    fun r hr id hid =>
      failing_applyNode (ht.node id (Tree.lt_size_of_mem_entered ht.wellFormed _ hid)) hr
  exact hnodes.bind fun r hread => failing_checkFlush ht (hcovered r hread)

end Settings

namespace Checking

variable {x : Context} {id : NodeId} {mark : Mark}

-- What an action is given is marked at an attribute of its own or at a child of it.
theorem covers_of_mem_ofNode {t : Tree} (ht : t.Covered) (hid : id < t.size) {s : Supplied}
    (hs : s ∈ Supplied.ofNode t id) :
    t.sources.Covers s.mark ∧ ∀ a, s.given = .inl a → t.sources.Covers a.mark := by
  rcases List.mem_append.mp hs with hs | hs
  · obtain ⟨a, ha, rfl⟩ := List.mem_map.mp hs
    have hmark := (ht.node id hid).2 a ha
    refine ⟨hmark, ?_⟩
    rintro _ ⟨⟩
    exact hmark
  · obtain ⟨child, hchild, hs⟩ := List.mem_filterMap.mp hs
    have hmark := (ht.node child (ht.wellFormed.child_lt hchild).2).1
    split at hs
    · cases hs
      exact ⟨hmark, fun _ h => nomatch h⟩
    · cases hs

theorem mem_of_repeated? {earlier all : List Supplied} {s : Supplied}
    (h : Supplied.repeated? earlier all = some s) : s ∈ all := by
  induction all generalizing earlier with
  | nil => cases h
  | cons first rest ih =>
    unfold Supplied.repeated? at h
    split at h
    · cases h
      exact List.mem_cons_self ..
    · exact List.mem_cons_of_mem _ (ih h)

theorem failing_supplied (ht : x.tree.Covered) (hid : id < x.tree.size) :
    Failing (·.Within x.tree.sources) (supplied x id) := by
  unfold supplied
  dsimp only
  split
  · rename_i s hs
    exact failing_fault _ _ (covers_of_mem_ofNode ht hid (mem_of_repeated? hs)).1
  · exact .ok _

theorem mem_of_supplied {all : List Supplied} (h : supplied x id = .ok all) {s : Supplied}
    (hs : s ∈ all) : s ∈ Supplied.ofNode x.tree id := by
  unfold supplied at h
  dsimp only at h
  split at h
  · cases h
  · cases h
    exact hs

theorem failing_checkFunctions (calls : List FunctionUse) (hmark : x.tree.sources.Covers mark) :
    Failing (·.Within x.tree.sources) (checkFunctions x calls mark) := by
  refine .forM fun call _ => ?_
  unfold checkFunction
  dsimp only
  split
  · exact failing_fault _ _ hmark
  · split
    · exact failing_fault _ _ hmark
    · split
      · exact failing_fault _ _ hmark
      · split
        · exact .ok _
        · exact failing_fault _ _ hmark

theorem failing_checkRawCode (construct : String) (hmark : x.tree.sources.Covers mark) :
    Failing (·.Within x.tree.sources) (checkRawCode x id construct mark) := by
  unfold checkRawCode
  dsimp only
  split
  · exact failing_fault _ _ hmark
  · exact .ok _

theorem failing_classifyText {reject : String → Except Diagnostic AttributeValue}
    (hreject : ∀ reason, Failing (·.Within x.tree.sources) (reject reason)) (action : String)
    {a : Attribute} (ha : x.tree.sources.Covers a.mark) (policy : Policy) :
    Failing (·.Within x.tree.sources) (classifyText x reject action a policy) := by
  unfold classifyText
  dsimp only
  split
  · exact failing_fault _ _ ha
  · split
    · split
      · exact hreject _
      · exact .ok _
    · split
      · exact hreject _
      · split
        · exact hreject _
        · split
          · exact hreject _
          · exact .bind (failing_checkFunctions _ ha) fun _ _ => .ok _
    · exact failing_fault _ _ ha

theorem failing_classify {s : Supplied} (hs : x.tree.sources.Covers s.mark)
    (hgiven : ∀ a, s.given = .inl a → x.tree.sources.Covers a.mark) (policy : Policy) :
    Failing (·.Within x.tree.sources) (classify x id s policy) := by
  unfold classify
  dsimp only
  split
  · split
    · exact .ok _
    · exact failing_fault _ _ hs
  · rename_i a ha
    split
    · exact failing_fault _ _ hs
    · split
      · split
        · exact .bind (failing_checkRawCode _ hs) fun _ _ => .ok _
        · exact failing_fault _ _ hs
      · exact failing_classifyText (fun _ => failing_fault _ _ hs) _ (hgiven a ha) policy

theorem failing_resolveCustom (data : CustomAction) {s : Supplied}
    (hs : x.tree.sources.Covers s.mark)
    (hgiven : ∀ a, s.given = .inl a → x.tree.sources.Covers a.mark) :
    Failing (·.Within x.tree.sources) (resolveCustom x id data s) := by
  unfold resolveCustom
  dsimp only
  split
  · exact failing_fault _ _ hs
  · exact .bind (failing_classify hs hgiven _) fun _ _ => .ok _

theorem failing_exposedVariables (tag : Tag) (data : TagData) (name : String)
    (hmark : x.tree.sources.Covers mark) :
    Failing (·.Within x.tree.sources) (exposedVariables x tag data name mark) := by
  unfold exposedVariables
  split
  · exact failing_fault _ _ hmark
  · dsimp only
    split
    · exact failing_fault _ _ hmark
    · exact .ok _

-- What an action is given, one by one.
theorem failing_resolveAll {f : Supplied → Except Diagnostic ResolvedAttribute}
    (ht : x.tree.Covered) (hid : id < x.tree.size)
    (hf : ∀ s : Supplied, x.tree.sources.Covers s.mark →
      (∀ a, s.given = .inl a → x.tree.sources.Covers a.mark) →
        Failing (·.Within x.tree.sources) (f s)) :
    Failing (·.Within x.tree.sources) (do (← supplied x id).mapM f) := by
  refine .bind (failing_supplied ht hid) fun all hall => .mapM fun s hs => ?_
  obtain ⟨hmark, hgiven⟩ := covers_of_mem_ofNode ht hid (mem_of_supplied hall hs)
  exact hf s hmark hgiven

theorem failing_checkCustom (ht : x.tree.Covered) (hid : id < x.tree.size) (data : CustomAction)
    (number : Nat) : Failing (·.Within x.tree.sources) (checkCustom x id data number) := by
  have hmark : x.tree.sources.Covers (x.tree.mark id) := (ht.node id hid).1
  unfold checkCustom
  dsimp only
  split
  · exact failing_fault_bind _ _ hmark _
  split
  · exact failing_fault_bind _ _ hmark _
  rw [← bind_assoc]
  refine .bind (failing_resolveAll ht hid fun s => failing_resolveCustom data) fun attrs _ => ?_
  split
  · exact failing_fault _ _ hmark
  · split
    · exact .bind (failing_exposedVariables _ _ _ hmark) fun _ _ => .ok _
    · exact failing_fault _ _ hmark

theorem failing_resolveStandard (table : List StandardAttribute) {s : Supplied}
    (hs : x.tree.sources.Covers s.mark)
    (hgiven : ∀ a, s.given = .inl a → x.tree.sources.Covers a.mark) :
    Failing (·.Within x.tree.sources) (resolveStandard x id table s) := by
  unfold resolveStandard
  dsimp only
  split
  · exact failing_fault _ _ hs
  · exact .bind (failing_classify hs hgiven _) fun _ _ => .ok _

variable {n : Node}

theorem failing_checkUseBean (beans : Beans) (attrs : List ResolvedAttribute)
    (hmark : x.tree.sources.Covers n.mark) :
    Failing (·.Within x.tree.sources) (checkUseBean x beans n attrs) := by
  unfold checkUseBean
  extract_lets invalid name className rest
  have hrest : ∀ u, Failing (·.Within x.tree.sources) (rest u) := by
    intro u
    dsimp -zeta only [rest]
    split
    · exact failing_fault _ _ hmark
    · rename_i declared _
      extract_lets declare
      have hdeclare : ∀ u, Failing (·.Within x.tree.sources) (declare u) := by
        intro u
        dsimp only [declare]
        split
        · exact .ok _
        · exact failing_fault _ _ hmark
      split
      · exact hdeclare ()
      · exact hdeclare ()
      · exact hdeclare ()
      · split
        · exact hdeclare ()
        · exact failing_fault_bind _ _ hmark _
      · exact failing_fault_bind _ _ hmark _
  split
  · exact failing_fault_bind _ _ hmark _
  · exact hrest ()

theorem failing_checkSetProperty (attrs : List ResolvedAttribute)
    (hmark : x.tree.sources.Covers n.mark) :
    Failing (·.Within x.tree.sources) (checkSetProperty x n attrs) := by
  unfold checkSetProperty
  split
  · exact failing_fault _ _ hmark
  · split
    · exact failing_fault _ _ hmark
    · exact .ok _

theorem failing_checkFlush (attrs : List ResolvedAttribute)
    (hmark : x.tree.sources.Covers n.mark) :
    Failing (·.Within x.tree.sources) (checkFlush x n attrs) := by
  unfold checkFlush
  split
  case h_4 => exact failing_fault _ _ hmark
  all_goals exact .ok _

theorem failing_checkParent (fits : NodeKind → Bool) (reason : String)
    (hmark : x.tree.sources.Covers n.mark) :
    Failing (·.Within x.tree.sources) (checkParent x n fits reason) := by
  unfold checkParent
  split
  · exact .ok _
  · exact failing_fault _ _ hmark

theorem failing_checkTextOnly (ht : x.tree.Covered) (id : NodeId) :
    Failing (·.Within x.tree.sources) (checkTextOnly x (x.tree.node id)) := by
  unfold checkTextOnly
  split
  · rename_i stray hstray
    have hchild : stray ∈ x.tree.children id := List.mem_of_find?_eq_some hstray
    exact failing_fault _ _ (ht.node stray (ht.wellFormed.child_lt hchild).2).1
  · exact .ok _

theorem failing_checkRules (ht : x.tree.Covered) (hid : id < x.tree.size) (beans : Beans)
    (attrs : List ResolvedAttribute) :
    Failing (·.Within x.tree.sources) (checkRules x beans (x.tree.node id) attrs) := by
  have hmark := (ht.node id hid).1
  have hparent : ∀ fits reason,
      Failing (·.Within x.tree.sources) (do
        checkParent x (x.tree.node id) fits reason
        return beans) :=
    fun _ _ => .bind (failing_checkParent _ _ hmark) fun _ _ => .ok _
  unfold checkRules
  split
  · exact failing_checkUseBean _ _ hmark
  · exact .bind (failing_checkSetProperty _ hmark) fun _ _ => .ok _
  · exact .bind (failing_checkFlush _ hmark) fun _ _ => .ok _
  case h_9 => exact .bind (failing_checkTextOnly ht id) fun _ _ => .ok _
  case h_10 => exact .ok _
  all_goals exact hparent _ _

theorem failing_checkStandard (ht : x.tree.Covered) (hid : id < x.tree.size) (beans : Beans)
    (table : List StandardAttribute) :
    Failing (·.Within x.tree.sources) (checkStandard x beans id table) := by
  unfold checkStandard
  dsimp only
  rw [← bind_assoc]
  refine .bind (failing_resolveAll ht hid fun s => failing_resolveStandard table) fun attrs _ => ?_
  split
  · exact failing_fault _ _ (ht.node id hid).1
  · exact .bind (failing_checkRules ht hid _ _) fun _ _ => .ok _

theorem failing_resolveUninterpreted {a : Attribute} (ha : x.tree.sources.Covers a.mark) :
    Failing (·.Within x.tree.sources) (resolveUninterpreted x id a) := by
  have hgiven : ∀ a', (Supplied.inline a).given = .inl a' → x.tree.sources.Covers a'.mark := by
    rintro _ ⟨⟩
    exact ha
  exact .bind (failing_classify ha hgiven _) fun _ _ => .ok _

theorem failing_checkInsert (data : Insert) (hmark : x.tree.sources.Covers mark) :
    Failing (·.Within x.tree.sources) (checkInsert x data mark) := by
  unfold checkInsert
  split
  · exact .ok _
  · split
    · exact failing_fault _ _ hmark
    · exact failing_checkFunctions _ hmark

theorem failing_checkNode (ht : x.tree.Covered) (hid : id < x.tree.size) (s : State) :
    Failing (·.Within x.tree.sources) (checkNode x s id) := by
  obtain ⟨hmark, hattrs⟩ := ht.node id hid
  unfold checkNode
  dsimp only
  split
  · exact .bind (failing_checkRawCode _ hmark) fun _ _ => .ok _
  · exact .bind (failing_checkInsert _ hmark) fun _ _ => .ok _
  · exact .bind (failing_checkCustom ht hid _ _) fun _ _ => .ok _
  · exact .bind (.mapM fun a ha => failing_resolveUninterpreted (hattrs a ha)) fun _ _ => .ok _
  · split
    · exact .ok _
    · exact .bind (failing_checkStandard ht hid _ _) fun _ _ => .ok _

-- A library that rejects the page is pointed at where its prefix has been bound.
theorem failing_checkLibraries {p : Page} (hp : p.Covered) :
    Failing (·.Within p.tree.sources) (checkLibraries p) := by
  unfold checkLibraries
  dsimp only
  refine .forM fun entry _ => ?_
  obtain ⟨space, library⟩ := entry
  dsimp only
  split
  · exact .ok _
  · split
    · exact .ok _
    · refine failing_fault _ _ ?_
      cases hbinding : p.bindings.get? space with
      | none => exact (hp.tree.node _ hp.tree.wellFormed.root_lt).1
      | some binding => exact hp.binding _ (Builder.mem_of_get? hbinding)

end Checking

theorem Page.failing_check {p : Page} (hp : p.Covered) (o : Options) :
    Failing (·.Within p.tree.sources) (p.check o) := by
  unfold check
  refine .bind (Settings.failing_reconcile hp.tree o) fun settings _ => ?_
  refine .bind ?_ fun s _ => .bind (Checking.failing_checkLibraries hp) fun _ _ => .ok _
  exact (Failing.foldlM (I := fun _ => True) trivial fun s _ id hid =>
    ⟨Checking.failing_checkNode hp.tree (hp.tree.wellFormed.lt_size_of_mem_preorder hid) s,
      fun _ _ => trivial⟩).1

end PageCompiler
