import PageCompiler.Proofs.Checking.Established
import PageCompiler.Proofs.Page.Shedding

namespace PageCompiler

open Checking (bind_eq_ok)

variable {t u : Tree} {gone : NodeId → Bool} {id : NodeId}

theorem Tree.Sheds.fault_eq (h : t.Sheds gone u) : u.fault = t.fault := by
  funext phase fault mark
  rw [Tree.fault, Tree.fault, h.sources_eq]

namespace Settings

theorem invalid_of_sheds (h : t.Sheds gone u) {α : Type} (name reason : String) (mark : Mark) :
    (invalid u name reason mark : Except Diagnostic α) = invalid t name reason mark := by
  simp only [invalid, fail, h.fault_eq]

theorem flag_of_sheds (h : t.Sheds gone u) (a : Attribute) : flag u a = flag t a := by
  simp only [flag, invalid_of_sheds h]

theorem size_of_sheds (h : t.Sheds gone u) (a : Attribute) : size u a = size t a := by
  simp only [size, invalid_of_sheds h, fail, h.fault_eq]

theorem apply_of_sheds (h : t.Sheds gone u) (s : Settings) (a : Attribute) :
    apply u s a = apply t s a := by
  simp only [apply, flag_of_sheds h, size_of_sheds h, invalid_of_sheds h, fail, h.fault_eq]

theorem record_of_sheds (h : t.Sheds gone u) (r : Reconciled) (a : Attribute) :
    record u r a = record t r a := by
  simp only [record, conflict, fail, h.fault_eq]

theorem applyEncoding_of_sheds (h : t.Sheds gone u) (id : NodeId) (r : Reconciled) (a : Attribute) :
    applyEncoding u id r a = applyEncoding t id r a := by
  have hroot : (u.kind (t.unitRoot id)).root? = (t.kind (t.unitRoot id)).root? :=
    h.apply_kind NodeKind.root? none (fun _ => rfl) _
  simp only [applyEncoding, checkEncoding, conflict, fail, h.fault_eq, h.unitRoot_eq, hroot]

theorem applyAttribute_of_sheds (h : t.Sheds gone u) (id : NodeId) :
    applyAttribute u id = applyAttribute t id := by
  funext r a
  simp only [applyAttribute, invalid_of_sheds h, applyEncoding_of_sheds h, apply_of_sheds h,
    record_of_sheds h]

theorem applyNode_of_sheds (h : t.Sheds gone u) (r : Reconciled) (hid : gone id = false) :
    applyNode u r id = applyNode t r id := by
  simp only [applyNode, checkRoot, fail, h.fault_eq, h.kind_eq hid, h.mark_eq, h.attributes_eq,
    applyAttribute_of_sheds h]

-- A text says nothing about the settings.
theorem applyNode_of_gone (h : t.Sheds gone u) (r : Reconciled) (hid : gone id) :
    applyNode t r id = .ok r := by
  obtain ⟨run, hrun, -⟩ := h.text_of_gone hid
  rw [applyNode, hrun]
  rfl

end Settings

-- Nodes for which nothing is done may be left out.
theorem foldlM_filter {ε α β : Type} {f g : β → α → Except ε β} {gone : α → Bool}
    (hkept : ∀ s a, gone a = false → f s a = g s a) (hgone : ∀ s a, gone a → g s a = .ok s)
    (l : List α) (s : β) : (l.filter fun a => !gone a).foldlM f s = l.foldlM g s := by
  induction l generalizing s with
  | nil => rfl
  | cons a l ih =>
    rw [List.foldlM_cons]
    cases ha : gone a with
    | true =>
      rw [List.filter_cons_of_neg (by rw [ha]; decide), hgone s a ha, ih]
      rfl
    | false =>
      rw [List.filter_cons_of_pos (by rw [ha]; rfl), List.foldlM_cons, hkept s a ha]
      exact bind_congr fun s => ih s

theorem Settings.reconcile_of_sheds (h : t.Sheds gone u) (hroot : gone Tree.root = false)
    (o : Options) : reconcile u o = reconcile t o := by
  have hnodes : ∀ r, (u.entered fun kind => !isPageDirective kind).foldlM (applyNode u) r =
      (t.entered fun kind => !isPageDirective kind).foldlM (applyNode t) r := fun r => by
    rw [h.entered_eq hroot]
    exact foldlM_filter (fun r _ => applyNode_of_sheds h r) (fun r _ => applyNode_of_gone h r) _ r
  have hflush : checkFlush u = checkFlush t := by
    funext r
    simp only [checkFlush, invalid_of_sheds h, h.mark_eq]
  unfold reconcile
  dsimp only
  rw [hnodes, hflush]

namespace Settings

-- The same settings but for what is done with blanks.
def trimming (s : Settings) (v : Bool) : Settings := { s with trimDirectiveWhitespaces := v }

def Reconciled.trimming (r : Reconciled) (v : Bool) : Reconciled :=
  { r with settings := r.settings.trimming v }

theorem apply_trimming {s s' : Settings} {a : Attribute} (h : apply t s a = .ok s') (v : Bool) :
    ∃ w, apply t (s.trimming v) a = .ok (s'.trimming w) := by
  have hvalue : ∀ {α : Type} {m : Except Diagnostic α} {f g : α → Settings},
      (do let value ← m; return f value : Except Diagnostic Settings) = .ok s' →
      (∀ value, ∃ w, g value = (f value).trimming w) →
      ∃ w, (do let value ← m; return g value : Except Diagnostic Settings) =
        .ok (s'.trimming w) := by
    intro α m f g h hg
    obtain ⟨value, hvalue, h⟩ := bind_eq_ok.mp h
    cases h
    obtain ⟨w, hw⟩ := hg value
    exact ⟨w, bind_eq_ok.mpr ⟨value, hvalue, congrArg Except.ok hw⟩⟩
  unfold apply at h
  split at h
  case h_14 => cases h
  all_goals
    rename_i hname
    unfold apply
    rw [hname]
  case h_1 =>
    split at h
    · cases h
      rename_i hjava
      simp only [hjava]
      exact ⟨v, rfl⟩
    · cases h
  case h_2 | h_7 | h_8 | h_10 =>
    cases h
    exact ⟨v, rfl⟩
  all_goals exact hvalue h fun _ => ⟨_, rfl⟩

theorem record_trimming {r r' : Reconciled} {a : Attribute} (h : record t r a = .ok r') (v : Bool) :
    record t (r.trimming v) a = .ok (r'.trimming v) := by
  unfold record at h ⊢
  dsimp only [Reconciled.trimming]
  cases hseen : r.seen.lookup a.name with
  | none =>
    rw [hseen] at h
    cases h
    rfl
  | some first =>
    rw [hseen] at h
    dsimp only at h ⊢
    split at h
    · rename_i hvalue
      cases h
      rw [if_pos hvalue]
    · cases h

theorem applyEncoding_trimming {r r' : Reconciled} {a : Attribute}
    (h : applyEncoding t id r a = .ok r') (v : Bool) :
    applyEncoding t id (r.trimming v) a = .ok (r'.trimming v) := by
  have hencodings : (r.trimming v).encodings = r.encodings := rfl
  unfold applyEncoding at h ⊢
  dsimp only at h ⊢
  rw [hencodings]
  cases hseen : r.encodings.lookup a.mark.unit with
  | some first =>
    rw [hseen] at h
    dsimp only at h ⊢
    split at h
    · rename_i hsame
      cases h
      rw [if_pos hsame]
      rfl
    · cases h
  | none =>
    rw [hseen] at h
    dsimp only at h ⊢
    cases hroot : (t.kind (t.unitRoot id)).root? with
    | none =>
      rw [hroot] at h
      cases h
      rfl
    | some data =>
      rw [hroot] at h
      obtain ⟨_, hcheck, h⟩ := bind_eq_ok.mp h
      refine bind_eq_ok.mpr ⟨_, hcheck, ?_⟩
      cases hparent : data.parentRoot <;> rw [hparent] at h <;> cases h <;> rfl

-- Whatever is done with blanks, the same attributes are accepted.
theorem applyAttribute_trimming {r r' : Reconciled} {a : Attribute}
    (h : applyAttribute t id r a = .ok r') (v : Bool) :
    ∃ w, applyAttribute t id (r.trimming v) a = .ok (r'.trimming w) := by
  unfold applyAttribute at h
  cases hliteral : a.scripting with
  | true =>
    rw [hliteral] at h
    exact nomatch h
  | false =>
    simp only [hliteral, Bool.false_eq_true, if_false] at h
    unfold applyAttribute
    simp only [hliteral, Bool.false_eq_true, if_false]
    split at h
    · cases h
      exact ⟨v, rfl⟩
    · exact ⟨v, applyEncoding_trimming h v⟩
    · obtain ⟨s, hs, h⟩ := bind_eq_ok.mp h
      obtain ⟨w, hw⟩ := apply_trimming hs v
      exact ⟨w, bind_eq_ok.mpr ⟨_, hw, record_trimming h w⟩⟩

theorem foldlM_trimming {α : Type} {step : Reconciled → α → Except Diagnostic Reconciled}
    {l : List α} {r r' : Reconciled} (h : l.foldlM step r = .ok r')
    (hstep : ∀ {r r' a}, step r a = .ok r' →
      ∀ v, ∃ w, step (r.trimming v) a = .ok (r'.trimming w)) (v : Bool) :
    ∃ w, l.foldlM step (r.trimming v) = .ok (r'.trimming w) := by
  induction l generalizing r v with
  | nil =>
    cases h
    exact ⟨v, rfl⟩
  | cons a l ih =>
    rw [List.foldlM_cons] at h
    obtain ⟨r₁, hone, h⟩ := bind_eq_ok.mp h
    obtain ⟨w, hw⟩ := hstep hone v
    obtain ⟨w', hw'⟩ := ih h w
    exact ⟨w', by rw [List.foldlM_cons]; exact bind_eq_ok.mpr ⟨_, hw, hw'⟩⟩

theorem applyNode_trimming {r r' : Reconciled} (h : applyNode t r id = .ok r') (v : Bool) :
    ∃ w, applyNode t (r.trimming v) id =
      .ok (r'.trimming w) := by
  unfold applyNode at h ⊢
  cases hkind : t.kind id with
  | root data =>
    rw [hkind] at h
    obtain ⟨_, hcheck, h⟩ := bind_eq_ok.mp h
    cases h
    exact ⟨v, bind_eq_ok.mpr ⟨_, hcheck, rfl⟩⟩
  | pageDirective =>
    rw [hkind] at h
    exact foldlM_trimming h applyAttribute_trimming v
  | _ =>
    rw [hkind] at h
    cases h
    exact ⟨v, rfl⟩

-- The settings do not depend on the option for blanks in any other respect.
theorem reconcile_trimming {o : Options} {s : Settings} (h : reconcile t o = .ok s) (v : Bool) :
    ∃ w, reconcile t { o with trimDirectiveWhitespaces := v } = .ok (s.trimming w) := by
  obtain ⟨r, hnodes, hflush⟩ := bind_eq_ok.mp h
  obtain ⟨w, hw⟩ := foldlM_trimming hnodes applyNode_trimming v
  refine ⟨w, bind_eq_ok.mpr ⟨_, hw, ?_⟩⟩
  unfold checkFlush at hflush ⊢
  dsimp only at hflush ⊢
  split at hflush
  · cases hflush
  · rename_i hgood
    cases hflush
    exact if_neg hgood

end Settings

namespace Checking

-- Two contexts in which everything but blanks is checked against the same.
structure Context.Sheds (x : Context) (gone : NodeId → Bool) (y : Context) : Prop where
  tree : x.tree.Sheds gone y.tree
  options_eq : ∃ v, y.options = { x.options with trimDirectiveWhitespaces := v }
  bindings_eq : y.bindings = x.bindings
  settings_eq : ∃ v, y.settings = x.settings.trimming v

namespace Context.Sheds

variable {x y : Context} (h : x.Sheds gone y)
include h

-- What is checked depends on these settings, of which none is about blanks.
theorem elIgnored_eq : y.settings.elIgnored = x.settings.elIgnored := by
  obtain ⟨v, hsettings⟩ := h.settings_eq
  rw [hsettings, Settings.trimming]

theorem deferredAsLiteral_eq : y.settings.deferredAsLiteral = x.settings.deferredAsLiteral := by
  obtain ⟨v, hsettings⟩ := h.settings_eq
  rw [hsettings, Settings.trimming]

theorem session_eq : y.settings.session = x.settings.session := by
  obtain ⟨v, hsettings⟩ := h.settings_eq
  rw [hsettings, Settings.trimming]

theorem fail_eq {α : Type} (fault : Fault) (mark : Mark) :
    (y.fail fault mark : Except Diagnostic α) = x.fail fault mark := by
  rw [Context.fail, Context.fail, h.tree.fault_eq]

theorem checkFunctions_eq : checkFunctions y = checkFunctions x := by
  have hone : checkFunction y = checkFunction x := by
    funext mark call
    simp only [checkFunction, h.fail_eq, h.bindings_eq]
  funext calls mark
  rw [checkFunctions, checkFunctions, hone]

theorem checkRawCode_eq (id : NodeId) (construct : String) (mark : Mark) :
    checkRawCode y id construct mark = checkRawCode x id construct mark := by
  have hscriptless : (fun a => isScriptless (y.tree.kind a)) =
      fun a => isScriptless (x.tree.kind a) :=
    funext fun a => h.tree.apply_kind isScriptless false (fun _ => rfl) a
  have hdisabled : y.options.scriptingDisabled = x.options.scriptingDisabled := by
    obtain ⟨v, hoptions⟩ := h.options_eq
    rw [hoptions]
  simp only [checkRawCode, hdisabled, h.tree.ancestors_eq, hscriptless, h.fail_eq]

theorem classify_eq : classify y = classify x := by
  funext id s policy
  simp only [classify, classifyText, h.tree.name_eq, h.fail_eq, h.checkRawCode_eq, h.elIgnored_eq,
    h.deferredAsLiteral_eq, h.checkFunctions_eq]

theorem ofNode_eq (id : NodeId) : Supplied.ofNode y.tree id = Supplied.ofNode x.tree id := by
  rw [Supplied.ofNode, Supplied.ofNode, h.tree.attributes_eq]
  congr 1
  refine h.tree.filterMap_children (fun c hc => ?_) (fun c hc => ?_) id
  · rw [h.tree.kind_eq hc, h.tree.mark_eq]
  · obtain ⟨run, hrun, -⟩ := h.tree.text_of_gone hc
    rw [hrun]

theorem supplied_eq (id : NodeId) : supplied y id = supplied x id := by
  simp only [supplied, h.ofNode_eq, h.tree.name_eq, h.fail_eq]

theorem checkCustom_eq (id : NodeId) (data : CustomAction) (number : Nat) :
    checkCustom y id data number = checkCustom x id data number := by
  have hresolve : resolveCustom y id data = resolveCustom x id data := by
    funext s
    simp only [resolveCustom, h.classify_eq, h.fail_eq]
  simp only [checkCustom, exposedVariables, h.tree.mark_eq, h.tree.hasContent_eq, h.supplied_eq,
    hresolve, h.fail_eq]

theorem resolveUninterpreted_eq (id : NodeId) :
    resolveUninterpreted y id = resolveUninterpreted x id := by
  funext a
  simp only [resolveUninterpreted, h.classify_eq]

theorem checkParent_eq (id : NodeId) (fits : NodeKind → Bool)
    (hfits : ∀ run, fits (.text run) = false)
    (reason : String) :
    checkParent y (y.tree.node id) fits reason = checkParent x (x.tree.node id) fits reason := by
  have hparent : (y.tree.node id).parent = (x.tree.node id).parent := h.tree.parent_eq id
  have hmark : (y.tree.node id).mark = (x.tree.node id).mark := h.tree.mark_eq id
  have hkind : (fun p => fits (y.tree.kind p)) = fun p => fits (x.tree.kind p) :=
    funext fun p => h.tree.apply_kind fits false hfits p
  simp only [checkParent, hparent, hmark, hkind, h.tree.name_eq, h.fail_eq]

-- Blanks are text, which a text element may have.
theorem checkTextOnly_eq (id : NodeId) :
    checkTextOnly y (y.tree.node id) = checkTextOnly x (x.tree.node id) := by
  have hfind : (y.tree.node id).children.find? (fun c => !isPlainText (y.tree.kind c)) =
      (x.tree.node id).children.find? (fun c => !isPlainText (x.tree.kind c)) := by
    refine h.tree.find?_children (fun c hc => ?_) (fun c hc => ?_) id
    · rw [h.tree.kind_eq hc]
    · obtain ⟨run, hrun, -⟩ := h.tree.text_of_gone hc
      rw [hrun]
      rfl
  simp only [checkTextOnly, hfind, h.tree.name_eq, h.tree.mark_eq, h.fail_eq]

theorem checkRules_eq (beans : Beans) (hid : gone id = false) (attrs : List ResolvedAttribute) :
    checkRules y beans (y.tree.node id) attrs = checkRules x beans (x.tree.node id) attrs := by
  have hkind : (y.tree.node id).kind = (x.tree.node id).kind := h.tree.kind_eq hid
  have hmark : (y.tree.node id).mark = (x.tree.node id).mark := h.tree.mark_eq id
  have hparams := h.checkParent_eq id takesParams fun _ => rfl
  have hplugin := h.checkParent_eq id isPlugin fun _ => rfl
  have hnamed := h.checkParent_eq id takesNamed fun _ => rfl
  unfold checkRules
  rw [hkind]
  simp only [checkUseBean, checkSetProperty, checkFlush, hparams, hplugin, hnamed,
    h.checkTextOnly_eq, hmark, h.tree.name_eq, h.fail_eq, h.session_eq]

theorem checkStandard_eq (beans : Beans) (hid : gone id = false) (table : List StandardAttribute) :
    checkStandard y beans id table = checkStandard x beans id table := by
  have hkind : (y.tree.node id).kind = (x.tree.node id).kind := h.tree.kind_eq hid
  have hmark : (y.tree.node id).mark = (x.tree.node id).mark := h.tree.mark_eq id
  have hresolve : resolveStandard y id table = resolveStandard x id table := by
    funext s
    simp only [resolveStandard, hkind, h.tree.name_eq, h.classify_eq, h.fail_eq]
  simp only [checkStandard, h.supplied_eq, hresolve, h.tree.name_eq, hmark, h.fail_eq,
    h.checkRules_eq beans hid]

theorem checkNode_eq (s : State) (hid : gone id = false) : checkNode y s id = checkNode x s id := by
  have hkind : (y.tree.node id).kind = (x.tree.node id).kind := h.tree.kind_eq hid
  have hmark : (y.tree.node id).mark = (x.tree.node id).mark := h.tree.mark_eq id
  simp only [checkNode, hkind, hmark, h.tree.name_eq, h.tree.attributes_eq, h.checkRawCode_eq,
    checkInsert, h.elIgnored_eq, h.fail_eq, h.checkFunctions_eq, h.checkCustom_eq,
    h.resolveUninterpreted_eq, h.checkStandard_eq s.beans hid]

theorem checkNode_of_gone (s : State) (hid : gone id) : checkNode x s id = .ok s := by
  obtain ⟨run, hrun, -⟩ := h.tree.text_of_gone hid
  have hkind : (x.tree.node id).kind = .text run := hrun
  unfold checkNode
  dsimp only
  rw [hkind]
  rfl

end Context.Sheds
end Checking

open Checking in
-- A page passes the checks that it passes without some of its blanks, whatever is to be done with
-- them, and the same is found out about it. Only the validators of libraries, which get to see the
-- text of the page, may object to one of them.
theorem Page.check_of_sheds (h : t.Sheds gone u) (hroot : gone Tree.root = false) {bs : Bindings}
    {o : Options} {c : CheckedPage} (hc : Page.check ⟨u, bs⟩ o = .ok c) (v : Bool) :
    ∃ w, Page.check ⟨t, bs⟩ { o with trimDirectiveWhitespaces := v } =
      (checkLibraries ⟨t, bs⟩).map fun _ =>
        { c with page := ⟨t, bs⟩, settings := c.settings.trimming w } := by
  obtain ⟨settings, hsettings, hc⟩ := bind_eq_ok.mp hc
  obtain ⟨s, hs, hc⟩ := bind_eq_ok.mp hc
  obtain ⟨_, -, hc⟩ := bind_eq_ok.mp hc
  cases hc
  rw [Settings.reconcile_of_sheds h hroot] at hsettings
  obtain ⟨w, hw⟩ := Settings.reconcile_trimming hsettings v
  have hx : (⟨{ o with trimDirectiveWhitespaces := v }, bs, settings.trimming w, t⟩ : Context).Sheds
      gone ⟨o, bs, settings, u⟩ := ⟨h, ⟨_, rfl⟩, rfl, ⟨_, rfl⟩⟩
  have hstart : Findings.ofTree u = Findings.ofTree t := by
    rw [Findings.ofTree, Findings.ofTree, h.size_eq]
  have hnodes : ∀ s₀, u.preorder.foldlM (checkNode ⟨o, bs, settings, u⟩) s₀ =
      t.preorder.foldlM (checkNode
        ⟨{ o with trimDirectiveWhitespaces := v }, bs, settings.trimming w, t⟩) s₀ := fun s₀ => by
    rw [h.preorder_eq hroot]
    exact foldlM_filter (fun s _ => hx.checkNode_eq s) (fun s _ => hx.checkNode_of_gone s) _ s₀
  dsimp only at hs
  rw [hnodes, hstart] at hs
  refine ⟨w, ?_⟩
  unfold check
  dsimp only
  rw [hw]
  change (t.preorder.foldlM (checkNode
    ⟨{ o with trimDirectiveWhitespaces := v }, bs, settings.trimming w, t⟩) _ >>= fun _ => _ :
    Except Diagnostic CheckedPage) = _
  rw [hs]
  cases checkLibraries ⟨t, bs⟩ <;> rfl

end PageCompiler
