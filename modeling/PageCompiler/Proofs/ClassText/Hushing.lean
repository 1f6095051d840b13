import PageCompiler.Compilation
import PageCompiler.Proofs.Page.Shedding

namespace PageCompiler.ClassText

-- What adds nothing may be left out of a sequence.
theorem mapM_filter {α β γ : Type} {f g : α → GenM β} {gone : α → Bool} {e : β}
    {k : List β → GenM γ} {l : List α} (hkept : ∀ a ∈ l, gone a = false → f a = g a)
    (hgone : ∀ a, gone a → g a = pure e) (hk : ∀ r r', k (r ++ e :: r') = k (r ++ r')) :
    (l.filter fun a => !gone a).mapM f >>= k = l.mapM g >>= k := by
  induction l generalizing k with
  | nil => rfl
  | cons a l ih =>
    obtain ⟨ha, hrest⟩ := List.forall_mem_cons.mp hkept
    cases hcase : gone a with
    | true =>
      have hskip : (fun r => k (e :: r)) = k := funext (hk [])
      rw [List.filter_cons_of_neg (by rw [hcase]; decide), ih hrest hk, List.mapM_cons,
        hgone a hcase]
      simp only [pure_bind, bind_assoc]
      rw [hskip]
    | false =>
      rw [List.filter_cons_of_pos (by rw [hcase]; rfl), List.mapM_cons, List.mapM_cons, ha hcase]
      simp only [bind_assoc, pure_bind]
      exact bind_congr fun b => ih hrest fun r r' => hk (b :: r) r'

variable {x y : Context} {gone : NodeId → Bool} {id : NodeId}

-- Pages that are generated alike but for some blanks. In the first one these are empty texts, which
-- do not stand in markup; in the second one they have been taken out.
structure Context.Hushes (x : Context) (gone : NodeId → Bool) (y : Context) : Prop where
  tree : x.tree.Sheds gone y.tree
  empty : ∀ id, gone id → ∃ run : TextRun, x.tree.kind id = .text run ∧ run.text = ""
  markup : ∀ id, x.tree.kind id = .uninterpreted → y.tree.children id = x.tree.children id
  root : gone Tree.root = false
  -- All other blanks are written.
  written : ∀ id, isDirectiveBlank x id = false
  written_root : isDirectiveBlank y Tree.root = false
  written_child : ∀ id, ∀ c ∈ y.tree.children id, isDirectiveBlank y c = false
  options_eq : ∃ v, y.options = { x.options with trimDirectiveWhitespaces := v }
  bindings_eq : y.checked.page.bindings = x.checked.page.bindings
  beans_eq : y.checked.beans = x.checked.beans
  findings_eq : y.checked.findings = x.checked.findings
  unfound : ∀ id, gone id → x.finding id = {}
  settings_eq : ∃ v, y.settings = { x.settings with trimDirectiveWhitespaces := v }

namespace Context.Hushes

variable (h : x.Hushes gone y)
include h

theorem finding_eq (id : NodeId) : y.finding id = x.finding id := by
  rw [finding, finding, h.findings_eq]

theorem functionField_eq : functionField y = functionField x := by
  funext calls
  simp only [functionField, h.bindings_eq]

theorem evaluate_eq : evaluate y = evaluate x := by
  funext source calls typeName
  simp only [evaluate, h.functionField_eq]

theorem stringValue_eq : stringValue y = stringValue x := by
  funext a
  simp only [stringValue, h.evaluate_eq]

theorem stringOf_eq : stringOf y = stringOf x := by
  funext f name
  simp only [stringOf, h.stringValue_eq]

theorem writeLiteral_eq : writeLiteral y = writeLiteral x := by
  obtain ⟨v, hoptions⟩ := h.options_eq
  funext text
  simp only [writeLiteral, hoptions]

theorem namedValues_eq : namedValues y = namedValues x := by
  funext body scope id
  unfold namedValues
  rw [h.finding_eq]
  refine congrArg (· >>= _) (congrArg (List.mapM · _) (funext fun a => ?_))
  cases a.value with
  | named n =>
    rcases h.tree.kind_cases n with hn | ⟨r, r', hr, hr'⟩
    · simp only [hn, h.tree.mark_eq]
    · simp only [hr, hr']
  | literal | scripting | expression => rfl

theorem textCode_eq : textCode y = textCode x := by
  funext mark run
  simp only [textCode, h.writeLiteral_eq]

theorem insertCode_eq : insertCode y = insertCode x := by
  obtain ⟨v, hsettings⟩ := h.settings_eq
  have hignored : y.settings.elIgnored = x.settings.elIgnored := by rw [hsettings]
  funext mark data
  simp only [insertCode, hignored, h.writeLiteral_eq, h.evaluate_eq]

-- In code that is written as text an empty text makes no difference.
theorem join_eq (id : NodeId) :
    String.join ((y.tree.children id).filterMap fun c => (y.tree.kind c).run?.map TextRun.text) =
      String.join
        ((x.tree.children id).filterMap fun c => (x.tree.kind c).run?.map TextRun.text) := by
  rw [h.tree.children_eq]
  induction x.tree.children id with
  | nil => rfl
  | cons c ids ih =>
    cases hc : gone c with
    | true =>
      obtain ⟨run, hrun, hempty⟩ := h.empty c hc
      rw [List.filter_cons_of_neg (by rw [hc]; decide), ih, List.filterMap_cons, hrun]
      simp [NodeKind.run?, hempty, String.join_cons]
    | false =>
      rw [List.filter_cons_of_pos (by rw [hc]; rfl), List.filterMap_cons, List.filterMap_cons,
        h.tree.kind_eq hc]
      cases (x.tree.kind c).run? with
      | none => exact ih
      | some run =>
        simp only [Option.map_some, String.join_cons]
        rw [ih]

theorem scriptCode_eq (kind : ScriptKind) (hid : gone id = false) :
    scriptCode y kind id = scriptCode x kind id := by
  have htext : y.tree.scriptText id = x.tree.scriptText id := by
    rw [Tree.scriptText, Tree.scriptText, Tree.scriptText?, Tree.scriptText?, h.tree.kind_eq hid,
      h.join_eq]
  simp only [scriptCode, h.tree.mark_eq, htext]

theorem markupCode_eq (hk : x.tree.kind id = .uninterpreted) (body : BodyGen) (scope : Scope) :
    markupCode y body scope id = markupCode x body scope id := by
  have hpieces : attributePieces y = attributePieces x := by
    funext a
    simp only [attributePieces, h.evaluate_eq]
  have hlines : pieceLines y = pieceLines x := by
    funext piece
    cases piece <;> simp only [pieceLines, h.writeLiteral_eq]
  have hchildren : (y.tree.node id).children = (x.tree.node id).children := h.markup id hk
  have hmark : (y.tree.node id).mark = (x.tree.node id).mark := h.tree.mark_eq id
  simp only [markupCode, h.finding_eq, hpieces, hlines, hchildren, hmark, h.tree.name_eq,
    h.writeLiteral_eq]

theorem useBeanCode_eq : useBeanCode y = useBeanCode x := by
  have hmade : makeBean y = makeBean x := by
    funext f name typeName
    simp only [makeBean, h.stringValue_eq]
  funext body scope id
  simp only [useBeanCode, h.finding_eq, h.tree.mark_eq, h.namedValues_eq, hmade,
    h.tree.hasContent_eq]

theorem setPropertyCode_eq : setPropertyCode y = setPropertyCode x := by
  have hvalue : propertyValue y = propertyValue x := by
    funext a
    simp only [propertyValue, h.evaluate_eq, h.stringValue_eq]
  funext body scope id
  simp only [setPropertyCode, h.finding_eq, h.tree.mark_eq, h.namedValues_eq, hvalue]

theorem getPropertyCode_eq : getPropertyCode y = getPropertyCode x := by
  funext id
  simp only [getPropertyCode, h.finding_eq, h.tree.mark_eq, h.beans_eq]

theorem paramsCode_eq (body : BodyGen) (scope : Scope) (fuel : Nat) (id : NodeId) :
    paramsCode y body scope fuel id = paramsCode x body scope fuel id := by
  have hparam : paramCode y = paramCode x := by
    funext body scope id
    simp only [paramCode, h.namedValues_eq, h.finding_eq, h.stringOf_eq]
  induction fuel generalizing id with
  | zero => rfl
  | succ fuel ih =>
    rw [paramsCode, paramsCode, h.tree.children_eq]
    refine mapM_filter (e := ([], [])) (fun c _ hc => ?_) (fun c hc => ?_) fun r r' => by simp
    · simp only [h.tree.kind_eq hc, hparam, ih]
    · obtain ⟨run, hrun, -⟩ := h.empty c hc
      rw [hrun]

theorem allParams_eq : allParams y = allParams x := by
  funext body scope id
  rw [allParams, allParams, h.tree.size_eq, h.paramsCode_eq]

theorem includeCode_eq : includeCode y = includeCode x := by
  funext body scope id
  simp only [includeCode, h.finding_eq, h.tree.mark_eq, h.namedValues_eq, h.allParams_eq,
    h.stringOf_eq]

theorem forwardCode_eq : forwardCode y = forwardCode x := by
  funext body scope id
  simp only [forwardCode, h.finding_eq, h.tree.mark_eq, h.namedValues_eq, h.allParams_eq,
    h.stringOf_eq]

theorem fallbackCode_eq : fallbackCode y = fallbackCode x := by
  funext body scope id
  have hfind : (y.tree.children id).find? (fun c => isFallback (y.tree.kind c)) =
      (x.tree.children id).find? (fun c => isFallback (x.tree.kind c)) := by
    refine h.tree.find?_children (fun c hc => ?_) (fun c hc => ?_) id
    · rw [h.tree.kind_eq hc]
    · obtain ⟨run, hrun, -⟩ := h.empty c hc
      rw [hrun]
      rfl
  simp only [fallbackCode, hfind, h.tree.mark_eq]

theorem pluginCode_eq : pluginCode y = pluginCode x := by
  funext body scope id
  simp only [pluginCode, h.finding_eq, h.tree.mark_eq, h.namedValues_eq, h.allParams_eq,
    h.stringValue_eq, h.stringOf_eq, h.fallbackCode_eq]

theorem elementCode_eq : elementCode y = elementCode x := by
  have homits : omitsEmpty y = omitsEmpty x := by
    funext a
    unfold omitsEmpty
    cases a.value with
    | named n =>
      rcases h.tree.kind_cases n with hn | ⟨r, r', hr, hr'⟩
      · simp only [hn]
      · simp only [hr, hr']
    | literal | scripting | expression => rfl
  have hattribute : elementAttribute y = elementAttribute x := by
    funext a
    simp only [elementAttribute, h.stringValue_eq, homits]
  funext body scope id
  simp only [elementCode, h.finding_eq, h.tree.mark_eq, h.namedValues_eq, h.stringOf_eq, hattribute,
    h.tree.hasContent_eq]

theorem setters_eq : setters y = setters x := by
  have hexpression : expressionValue y = expressionValue x := by
    funext contract parts dialect
    simp only [expressionValue, h.functionField_eq]
  have hvalue : attributeValue y = attributeValue x := by
    funext body scope handler kind a
    simp only [attributeValue, hexpression]
  funext body scope f handler kind
  simp only [setters, hvalue]

theorem simpleCode_eq : simpleCode y = simpleCode x := by
  have hsetter : bodySetter y = bodySetter x := by
    funext body scope id handler
    simp only [bodySetter, h.tree.hasContent_eq, h.finding_eq]
  funext body scope id data handler
  simp only [simpleCode, h.finding_eq, h.tree.mark_eq, h.namedValues_eq, h.setters_eq, hsetter]

theorem classicCode_eq : classicCode y = classicCode x := by
  have hbody : classicBody y = classicBody x := by
    funext body scope id handler count c
    simp only [classicBody, h.tree.mark_eq, h.finding_eq]
  obtain ⟨v, hoptions⟩ := h.options_eq
  funext body scope id data handler
  simp only [classicCode, h.finding_eq, h.tree.mark_eq, h.namedValues_eq, h.tree.hasContent_eq,
    hoptions, h.setters_eq, hbody]

theorem inlineCode_eq : inlineCode y = inlineCode x := by
  have hwithout : withoutInstance y = withoutInstance x := by
    funext id data
    simp only [withoutInstance, h.tree.sources_eq, h.tree.mark_eq]
  funext body scope id data
  simp only [inlineCode, h.finding_eq, hwithout, h.simpleCode_eq, h.classicCode_eq, h.tree.mark_eq]

theorem isSplittable_eq (id : NodeId) : isSplittable y id = isSplittable x id := by
  rw [isSplittable, isSplittable, h.tree.size_eq]
  refine h.tree.all_subtree (fun c hc => ?_) (fun c hc => ?_) _ id
  · simp only [bindsCaller, h.tree.kind_eq hc, h.finding_eq]
  · obtain ⟨run, hrun, -⟩ := h.empty c hc
    rcases h.tree.kind_cases c with hkind | ⟨r, r', -, hr'⟩
    · simp [bindsCaller, hkind, hrun, h.finding_eq, h.unfound c hc, NodeKind.isScript, isUseBean,
        ScopedVariables.isEmpty, ScopedVariables.all]
    · simp [bindsCaller, hrun, hr', h.finding_eq, h.unfound c hc, NodeKind.isScript, isUseBean,
        ScopedVariables.isEmpty, ScopedVariables.all]

theorem customCode_eq : customCode y = customCode x := by
  have hsplit : splitCode y = splitCode x := by
    funext body scope id data handler
    simp only [splitCode, h.inlineCode_eq, h.tree.mark_eq]
  obtain ⟨v, hoptions⟩ := h.options_eq
  funext body scope id data
  simp only [customCode, h.finding_eq, hoptions, h.isSplittable_eq, hsplit, h.inlineCode_eq]

theorem nodeCode_eq (hid : gone id = false) (hwritten : isDirectiveBlank y id = false)
    (body : BodyGen) (scope : Scope) : nodeCode y body scope id = nodeCode x body scope id := by
  unfold nodeCode
  rw [h.tree.kind_eq hid]
  cases hk : x.tree.kind id
  case uninterpreted => exact h.markupCode_eq hk body scope
  all_goals simp only [h.tree.mark_eq, hwritten, h.written id, h.scriptCode_eq _ hid,
    h.insertCode_eq, h.textCode_eq, h.useBeanCode_eq, h.setPropertyCode_eq, h.getPropertyCode_eq,
    h.forwardCode_eq, h.includeCode_eq, h.pluginCode_eq, h.elementCode_eq, h.customCode_eq]

-- An empty text has no statements.
theorem subtreeCode_of_gone (hid : gone id) (fuel : Nat) (scope : Scope) :
    subtreeCode x fuel scope id = pure [] := by
  obtain ⟨run, hrun, hempty⟩ := h.empty id hid
  cases fuel with
  | zero => rfl
  | succ fuel => simp [subtreeCode, nodeCode, hrun, h.written id, textCode, hempty]

-- By induction on the depth. The bodies of all nodes are alike, as those of blanks are empty.
theorem subtreeCode_eq (hid : gone id = false) (hwritten : isDirectiveBlank y id = false)
    (fuel : Nat) (scope : Scope) : subtreeCode y fuel scope id = subtreeCode x fuel scope id := by
  induction fuel generalizing id scope with
  | zero => rfl
  | succ fuel ih =>
    have hbody : (fun (scope : Scope) (id : NodeId) => do
          return (← (y.tree.children id).mapM (subtreeCode y fuel scope)).flatten : BodyGen) =
        fun (scope : Scope) (id : NodeId) => do
          return (← (x.tree.children id).mapM (subtreeCode x fuel scope)).flatten := by
      funext scope id
      have hmem : ∀ c ∈ x.tree.children id, gone c = false → c ∈ y.tree.children id := by
        intro c hc hcase
        rw [h.tree.children_eq, List.mem_filter]
        exact ⟨hc, by rw [hcase]; rfl⟩
      rw [h.tree.children_eq]
      exact mapM_filter (e := [])
        (fun c hc hcase => ih hcase (h.written_child id c (hmem c hc hcase)) scope)
        (fun c hcase => h.subtreeCode_of_gone hcase fuel scope) fun r r' => by simp
    rw [subtreeCode, subtreeCode, hbody]
    exact h.nodeCode_eq hid hwritten _ scope

theorem pageCode_eq : pageCode y = pageCode x := by
  rw [pageCode, pageCode, h.tree.size_eq]
  exact h.subtreeCode_eq h.root h.written_root _ _

theorem isStrictPage_eq : isStrictPage y.tree = isStrictPage x.tree := by
  have hroot : (y.tree.kind Tree.root).root? = (x.tree.kind Tree.root).root? :=
    h.tree.apply_kind NodeKind.root? none (fun _ => rfl) _
  rw [isStrictPage, isStrictPage, hroot]

theorem charset_eq : charset y = charset x := by
  obtain ⟨v, hsettings⟩ := h.settings_eq
  obtain ⟨w, hoptions⟩ := h.options_eq
  rw [charset, charset, hsettings, hoptions]

-- The output element may have lost blanks, but it says the same.
theorem outputElement_cases : outputElement? y.tree = none ∧ outputElement? x.tree = none ∨
    ∃ id, outputElement? y.tree = some (y.tree.node id) ∧
      outputElement? x.tree = some (x.tree.node id) := by
  have hfind : y.tree.preorder.find?
      (fun id => y.tree.unitRoot id == Tree.root && isOutput (y.tree.kind id)) =
      x.tree.preorder.find?
        (fun id => x.tree.unitRoot id == Tree.root && isOutput (x.tree.kind id)) := by
    rw [h.tree.preorder_eq h.root]
    refine Tree.Sheds.find?_filter (fun c hc => ?_) (fun c hc => ?_) _
    · rw [h.tree.unitRoot_eq, h.tree.kind_eq hc]
    · obtain ⟨run, hrun, -⟩ := h.empty c hc
      rw [hrun]
      exact Bool.and_false _
  rw [outputElement?, outputElement?, hfind]
  cases x.tree.preorder.find? _ with
  | none => exact .inl ⟨rfl, rfl⟩
  | some id => exact .inr ⟨id, rfl, rfl⟩

theorem xmlProlog_eq : xmlProlog y = xmlProlog x := by
  have hoffered : (y.tree.children Tree.root).any (fun c => isXmlRoot (y.tree.kind c)) =
      (x.tree.children Tree.root).any (fun c => isXmlRoot (x.tree.kind c)) := by
    refine h.tree.any_children (fun c hc => ?_) (fun c hc => ?_) _
    · rw [h.tree.kind_eq hc]
    · obtain ⟨run, hrun, -⟩ := h.empty c hc
      rw [hrun]
      rfl
  rcases h.outputElement_cases with ⟨hy, hx⟩ | ⟨id, hy, hx⟩
  · simp only [xmlProlog, h.isStrictPage_eq, hy, hx, h.charset_eq, hoffered]
  · have hvalue : (y.tree.node id).value? = (x.tree.node id).value? :=
      funext fun name => by rw [Node.value?, Node.value?, h.tree.attributes_eq]
    have hdocument : documentType (y.tree.node id) = documentType (x.tree.node id) := by
      simp only [documentType, hvalue]
    simp only [xmlProlog, h.isStrictPage_eq, hy, hx, h.charset_eq, hoffered, Option.bind_some,
      hvalue, Option.map_some, hdocument]

theorem sections_eq : sections y = sections x := by
  obtain ⟨v, hsettings⟩ := h.settings_eq
  have hhead : headLines y = headLines x := by
    funext package name s
    simp only [headLines, hsettings, h.bindings_eq]
    rfl
  have hstart : serviceStart y = serviceStart x := by
    have htype : contentType y = contentType x := by
      rw [contentType, contentType, hsettings, h.isStrictPage_eq, h.charset_eq]
    simp only [serviceStart, h.xmlProlog_eq, htype, hsettings]
    rfl
  funext package name body s
  rw [sections, sections, hhead, hsettings, hstart]
  rfl

end Context.Hushes

-- The classes are the same.
theorem Context.Hushes.generate_eq {o o' : Options} {c c' : CheckedPage}
    (h : (⟨o, c⟩ : Context).Hushes gone ⟨o', c'⟩) : c'.generate o' = c.generate o := by
  have hroot : (c'.page.tree.kind Tree.root).root? = (c.page.tree.kind Tree.root).root? :=
    h.tree.apply_kind NodeKind.root? none (fun _ => rfl) _
  have hbindings : c'.page.bindings = c.page.bindings := h.bindings_eq
  have himports : allImports c'.settings = allImports c.settings := by
    obtain ⟨v, hsettings⟩ := h.settings_eq
    rw [show c'.settings = _ from hsettings]
    rfl
  have hpackage : o'.package = o.package := by
    obtain ⟨v, hoptions⟩ := h.options_eq
    rw [show o' = _ from hoptions]
  unfold CheckedPage.generate
  dsimp only [Context.tree]
  rw [hroot, h.pageCode_eq, h.sections_eq, hbindings, himports, hpackage]

end PageCompiler.ClassText
