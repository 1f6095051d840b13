import PageCompiler.Proofs.ClassText.Inlining

namespace PageCompiler.ClassText

namespace Context

def withStrategy (x : Context) (l : LiteralStrategy) : Context :=
  { x with options := x.options.withStrategy l }

variable (x : Context) (l : LiteralStrategy)

@[simp] theorem tree_withStrategy : (x.withStrategy l).tree = x.tree := rfl

@[simp] theorem finding_withStrategy : (x.withStrategy l).finding = x.finding := rfl

end Context

variable {arrays : List String}

-- Named for the rules, which take what happens to a result from the statement.
abbrev inlinedLines (arrays : List String) : List Line → List Line := List.map (Line.inlined arrays)

@[simp] theorem map_inlined_onlyIf (holds : Bool) (lines : List Line) :
    (onlyIf holds lines).map (Line.inlined arrays) =
      onlyIf holds (lines.map (Line.inlined arrays)) := by
  cases holds <;> rfl

theorem inlines_declareVariables (vars : List Variable) :
    Inlines inlinedLines (fun _ => declareVariables vars) (declareVariables vars) := by
  refine .flatMapM (fun _ _ => List.map_flatten) fun v => ?_
  refine .bind (steady_declareName _) fun declared => ?_
  cases declared with
  | true => exact .pure fun _ => rfl
  | false => exact .pure fun _ => rfl

theorem inlines_syncVariables (vars : List Variable) :
    Inlines inlinedLines (fun _ => syncVariables vars) (syncVariables vars) := by
  refine .flatMapM (fun _ _ => List.map_flatten) fun v => ?_
  refine .bind (steady_isDeclared _) fun declared => ?_
  cases declared with
  | true => exact .pure fun _ => rfl
  | false => exact .pure fun _ => rfl

theorem inlines_saveVariables (vars : ScopedVariables) (depth : Nat) :
    Inlines (fun all => Prod.map (inlinedLines all) id) (fun _ => saveVariables vars depth)
      (saveVariables vars depth) := by
  unfold saveVariables
  split
  · exact .pure fun _ => rfl
  · refine .bind (v := fun all => List.map (List.map (Prod.map (Line.inlined all) id)))
      (.mapM fun v _ => ?_) fun saved => .pure fun all => ?_
    · refine .bind (steady_isDeclared _) fun declared => ?_
      cases declared with
      | true => exact .bind (steady_declareName _) fun _ => .pure fun _ => rfl
      | false => exact .pure fun _ => rfl
    · refine Prod.ext ?_ ?_ <;> simp [List.map_flatten, List.map_map, Function.comp_def]

-- The field of a text stays its field when others come behind it.
theorem inlines_charArray (text : String) :
    Inlines Operand.inlined (fun _ => pure (.code (quote text))) (charArray text) where
  ok {s op t} h := by
    obtain ⟨k, arrays, hrun, hadds, hk⟩ := charArray_run text s
    obtain ⟨rfl, rfl⟩ := Prod.mk.inj (Except.ok.inj (hrun.symm.trans h))
    refine ⟨hadds, fun all hall => ?_⟩
    obtain ⟨hlt, htext⟩ := List.getElem?_eq_some_iff.mp hk
    have hall : all.getD k "" = text := by
      rw [List.getD_eq_getElem?_getD, List.prefix_iff_getElem?.mp hall k hlt, htext,
        Option.getD_some]
    rw [Operand.inlined, hall]
    rfl
  error {s d} h := by
    obtain ⟨k, arrays, hrun, -⟩ := charArray_run text s
    rw [hrun] at h
    cases h

variable (x : Context)

theorem inlines_writeLiteral (text : String) :
    Inlines inlinedLines (fun _ => writeLiteral (x.withStrategy .inline) text)
      (writeLiteral (x.withStrategy .charArrays) text) := by
  unfold writeLiteral
  split
  · exact .pure fun _ => rfl
  · refine .mapM fun chunk _ => ?_
    exact .bind (v := Operand.inlined) (m := fun _ => pure _)
      (f := fun _ op => pure (Line.plain (.write op)))
      (inlines_charArray _) fun _ => .pure fun _ => rfl

theorem inlines_textCode (mark : Mark) (run : TextRun) :
    Inlines Code.inlined (fun _ => textCode (x.withStrategy .inline) mark run)
      (textCode (x.withStrategy .charArrays) mark run) := by
  unfold textCode
  split
  · exact .pure fun _ => rfl
  · exact .bind (inlines_writeLiteral x run.text) fun _ => .pure fun _ => rfl

theorem inlines_insertCode (mark : Mark) (data : Insert) :
    Inlines Code.inlined (fun _ => insertCode (x.withStrategy .inline) mark data)
      (insertCode (x.withStrategy .charArrays) mark data) :=
  .ite (.bind (inlines_writeLiteral x _) fun _ => .pure fun _ => rfl)
    (.bind (inlines_evaluate x _ _ _) fun _ => .pure fun _ => rfl)

-- The page's own code is written as it is.
theorem inlined_codeLines (mark : Mark) (code : String) :
    Code.inlined arrays (codeLines mark code) = codeLines mark code := by
  simp only [codeLines, Code.inlined, List.map_map]
  rfl

theorem inlined_printCode (mark : Mark) (code : String) :
    Code.inlined arrays (printCode mark code) = printCode mark code := by
  unfold printCode
  dsimp only
  split
  · simp only [Code.inlined_cons, Code.inlined_nil, Stretch.inlined_forMark, List.map_append,
      List.map_map]
    rfl
  · rfl

theorem inlines_scriptCode (kind : ScriptKind) (id : NodeId) :
    Inlines Code.inlined (fun _ => scriptCode x kind id) (scriptCode x kind id) := by
  unfold scriptCode
  cases kind with
  | declaration =>
    refine .bind (.modify (fun all s => ?_) fun _ => rfl) fun _ => .pure fun _ => rfl
    simp only [State.inlined, Code.inlined_append, inlined_codeLines]
  | expression => exact .pure fun _ => (inlined_printCode _ _).symm
  | scriptlet => exact .pure fun _ => (inlined_codeLines _ _).symm

def Piece.inlined (arrays : List String) : Piece → Piece
  | .write value => .write (value.inlined arrays)
  | p => p

-- Literals are joined alike, whatever is written between them.
theorem joinLiterals_inlined (ps : List Piece) :
    joinLiterals (ps.map (Piece.inlined arrays)) =
      (joinLiterals ps).map (Piece.inlined arrays) := by
  induction ps with
  | nil => rfl
  | cons p ps ih =>
    cases p with
    | literal a =>
      change joinLiterals (.literal a :: ps.map (Piece.inlined arrays)) = _
      rw [joinLiterals, joinLiterals, ih]
      cases joinLiterals ps with
      | nil => rfl
      | cons p rest => cases p <;> rfl
    | write value => simp only [List.map_cons, Piece.inlined, joinLiterals, ih]
    | print code => simp only [List.map_cons, Piece.inlined, joinLiterals, ih]

theorem inlines_pieceLines (p : Piece) :
    Inlines inlinedLines (fun all => pieceLines (x.withStrategy .inline) (p.inlined all))
      (pieceLines (x.withStrategy .charArrays) p) := by
  cases p with
  | literal text => exact inlines_writeLiteral x text
  | write value => exact .pure fun _ => rfl
  | print code => exact .pure fun _ => rfl

theorem inlines_attributePieces (a : ResolvedAttribute) :
    Inlines (fun all => List.map (Piece.inlined all))
      (fun _ => attributePieces (x.withStrategy .inline) a)
      (attributePieces (x.withStrategy .charArrays) a) := by
  unfold attributePieces
  cases a.value with
  | literal v => exact .pure fun _ => rfl
  | scripting code => exact .pure fun _ => rfl
  | expression source parts dialect =>
    dsimp only
    exact .ite (.bind (inlines_evaluate x _ _ _) fun _ => .pure fun _ => rfl) (.pure fun _ => rfl)
  | named id => exact .pure fun _ => rfl

-- What is generated for children, in either class.
abbrev InlinedBodies (body body' : BodyGen) : Prop :=
  ∀ scope id, Inlines Code.inlined (fun _ => body scope id) (body' scope id)

variable {body body' : BodyGen} (hbody : InlinedBodies body body') (scope : Scope) (id : NodeId)
include hbody

theorem inlines_markupCode :
    Inlines Code.inlined (fun _ => markupCode (x.withStrategy .inline) body scope id)
      (markupCode (x.withStrategy .charArrays) body' scope id) := by
  unfold markupCode
  dsimp only
  refine .bind (.mapM fun a _ => inlines_attributePieces x a) fun attrs => ?_
  have hpieces : ∀ (all : List String) (before behind : String),
      joinLiterals ([Piece.literal before] ++ (attrs.map (List.map (Piece.inlined all))).flatten ++
          [Piece.literal behind]) =
        (joinLiterals ([Piece.literal before] ++ attrs.flatten ++ [Piece.literal behind])).map
          (Piece.inlined all) := by
    intro all before behind
    rw [← joinLiterals_inlined, List.map_append, List.map_append, List.map_flatten]
    rfl
  simp only [Context.tree_withStrategy, hpieces, List.mapM_map]
  refine .bind (v := fun all => List.map (inlinedLines all))
    (.mapM fun p _ => inlines_pieceLines x p) fun head => ?_
  refine .ite (.bind (hbody scope id) fun inside => ?_) (.pure fun all => ?_)
  · refine .bind (inlines_writeLiteral x _) fun tail => .pure fun all => ?_
    simp only [Code.inlined_append, Code.inlined_cons, Code.inlined_nil, Stretch.inlined_forMark,
      List.map_flatten]
  · simp only [Code.inlined_cons, Code.inlined_nil, Stretch.inlined_forMark, List.map_flatten]

theorem inlines_namedValues :
    Inlines Code.inlined (fun _ => namedValues (x.withStrategy .inline) body scope id)
      (namedValues (x.withStrategy .charArrays) body' scope id) := by
  refine .flatMapM (fun _ => Code.inlined_flatten) fun a => ?_
  cases a.value with
  | literal | scripting | expression => exact .pure fun _ => rfl
  | named named =>
    dsimp only [Context.tree_withStrategy]
    cases x.tree.kind named with
    | named data =>
      refine .ite (.pure fun _ => rfl) (.bind (steady_namedVariable named) fun held => ?_)
      exact .bind (hbody scope named) fun inside => .pure fun all => by simp [Line.inlined]
    | _ => exact .pure fun _ => rfl

omit hbody in
theorem inlines_makeBean (f : Finding) (name typeName : String) :
    Inlines Line.inlined (fun _ => makeBean x f name typeName) (makeBean x f name typeName) := by
  unfold makeBean
  cases f.attribute? "beanName" with
  | some beanName => exact .bind (steady_stringValue x _) fun _ => .pure fun _ => rfl
  | none =>
    cases literalOf f "class" with
    | some className => exact .pure fun _ => rfl
    | none => exact .pure fun _ => rfl

theorem inlines_useBeanCode :
    Inlines Code.inlined (fun _ => useBeanCode (x.withStrategy .inline) body scope id)
      (useBeanCode (x.withStrategy .charArrays) body' scope id) := by
  refine .bind (inlines_namedValues x hbody scope id) fun values => ?_
  refine .bind (steady_declareName _) fun declared => ?_
  refine .bind (inlines_makeBean x _ _ _) fun made => ?_
  refine .ite (.bind (.inBlock (hbody scope id)) fun inside => .pure fun all => ?_)
    (.bind (.pure (v := Code.inlined) fun _ => rfl) fun inside => .pure fun all => ?_)
  all_goals
    simp only [Code.inlined_append]
    cases declared <;> rfl

theorem inlines_setPropertyCode :
    Inlines Code.inlined (fun _ => setPropertyCode (x.withStrategy .inline) body scope id)
      (setPropertyCode (x.withStrategy .charArrays) body' scope id) := by
  refine .bind (inlines_namedValues x hbody scope id) fun values => ?_
  refine .ite (.pure fun all => by simp only [Code.inlined_append]; rfl) ?_
  dsimp only [Context.finding_withStrategy]
  cases (x.finding id).attribute? "value" with
  | some a =>
    exact .bind (steady_propertyValue x a) fun _ => .pure fun all => by
      simp only [Code.inlined_append]
      rfl
  | none => exact .pure fun all => by simp only [Code.inlined_append]; rfl

omit hbody in
theorem inlines_getPropertyCode :
    Inlines Code.inlined (fun _ => getPropertyCode x id) (getPropertyCode x id) :=
  .pure fun _ => rfl

theorem inlines_paramCode :
    Inlines (fun all => Prod.map (Code.inlined all) fun ops => ops)
      (fun _ => paramCode (x.withStrategy .inline) body scope id)
      (paramCode (x.withStrategy .charArrays) body' scope id) :=
  .bind (inlines_namedValues x hbody scope id) fun _ => .bind (steady_stringOf x _ _) fun _ =>
    .bind (steady_stringOf x _ _) fun _ => .pure fun _ => rfl

theorem inlines_paramsCode (fuel : Nat) :
    Inlines (fun all => Prod.map (Code.inlined all) fun ops => ops)
      (fun _ => paramsCode (x.withStrategy .inline) body scope fuel id)
      (paramsCode (x.withStrategy .charArrays) body' scope fuel id) := by
  induction fuel generalizing id with
  | zero => exact .pure fun _ => rfl
  | succ fuel ih =>
    refine .bind (v := fun all => List.map (Prod.map (Code.inlined all) fun ops => ops))
      (.mapM fun child _ => ?_) fun parts => .pure fun all => ?_
    · dsimp only [Context.tree_withStrategy]
      cases x.tree.kind child with
      | param => exact inlines_paramCode x hbody scope child
      | params => exact ih child
      | _ => exact .pure fun _ => rfl
    · simp [List.map_map, Function.comp_def]

theorem inlines_includeCode :
    Inlines Code.inlined (fun _ => includeCode (x.withStrategy .inline) body scope id)
      (includeCode (x.withStrategy .charArrays) body' scope id) :=
  .bind (inlines_namedValues x hbody scope id) fun values =>
    .bind (inlines_paramsCode x hbody scope id _) fun params =>
      .bind (steady_stringOf x _ _) fun page => .pure fun all => by
        simp only [Code.inlined_append]
        rfl

theorem inlines_forwardCode :
    Inlines Code.inlined (fun _ => forwardCode (x.withStrategy .inline) body scope id)
      (forwardCode (x.withStrategy .charArrays) body' scope id) :=
  .bind (inlines_namedValues x hbody scope id) fun values =>
    .bind (inlines_paramsCode x hbody scope id _) fun params =>
      .bind (steady_stringOf x _ _) fun page => .pure fun all => by
        simp only [Code.inlined_append]
        rfl

theorem inlines_fallbackCode :
    Inlines Code.inlined (fun _ => fallbackCode (x.withStrategy .inline) body scope id)
      (fallbackCode (x.withStrategy .charArrays) body' scope id) := by
  unfold fallbackCode
  dsimp only [Context.tree_withStrategy]
  cases (x.tree.children id).find? fun c => isFallback (x.tree.kind c) with
  | none => exact .pure fun _ => rfl
  | some fallback =>
    exact .bind (hbody scope fallback) fun inside => .pure fun all => by
      simp only [Code.inlined_append, Code.inlined_cons]
      rfl

theorem inlines_pluginCode :
    Inlines Code.inlined (fun _ => pluginCode (x.withStrategy .inline) body scope id)
      (pluginCode (x.withStrategy .charArrays) body' scope id) := by
  refine .bind (inlines_namedValues x hbody scope id) fun values => ?_
  refine .bind (inlines_paramsCode x hbody scope id _) fun params => ?_
  refine .bind (Steady.mapM fun a => .bind (steady_stringValue x a) fun _ => .pure _)
    fun extra => ?_
  refine .bind (steady_stringOf x _ _) fun kind => .bind (steady_stringOf x _ _) fun className =>
    .bind (steady_stringOf x _ _) fun base => ?_
  exact .bind (inlines_fallbackCode x hbody scope id) fun fallback => .pure fun all => by
    simp only [Code.inlined_append]
    rfl

omit hbody in
theorem inlines_elementAttribute (a : ResolvedAttribute) :
    Inlines inlinedLines (fun _ => elementAttribute x a) (elementAttribute x a) :=
  .bind (steady_stringValue x a) fun _ => .ite (.pure fun _ => rfl) (.pure fun _ => rfl)

theorem inlines_elementCode :
    Inlines Code.inlined (fun _ => elementCode (x.withStrategy .inline) body scope id)
      (elementCode (x.withStrategy .charArrays) body' scope id) := by
  refine .bind (inlines_namedValues x hbody scope id) fun values => ?_
  refine .bind (steady_stringOf x _ _) fun name => .bind steady_freshTemporary fun element => ?_
  refine .bind (.mapM fun a _ => inlines_elementAttribute x a) fun attrs => ?_
  refine .ite (.bind (hbody scope id) fun inside => .pure fun all => ?_) (.pure fun all => ?_)
  · simp only [Code.inlined_append, Code.inlined_cons, Code.inlined_nil, Stretch.inlined_forMark,
      List.map_append, List.map_flatten]
    rfl
  · simp only [Code.inlined_append, Code.inlined_cons, Code.inlined_nil, Stretch.inlined_forMark,
      List.map_append, List.map_flatten]
    rfl

omit hbody in
@[simp] theorem map_inlined_releaseLines (handler : String) (pool : Option String) :
    (releaseLines handler pool).map (Line.inlined arrays) = releaseLines handler pool := by
  cases pool <;> rfl

omit hbody in
theorem steady_reserveDeferred : Steady reserveDeferred :=
  .modifyGet (fun all s => by simp [State.inlined]) fun _ => rfl

omit hbody in
theorem inlines_fillDeferred (number : Nat) (code : Code) :
    Inlines (fun _ u => u) (fun all => fillDeferred number (code.inlined all))
      (fillDeferred number code) :=
  .modify (fun all s => by simp [State.inlined, List.map_set]) fun _ => rfl

theorem inlines_deferredCode (kind : HandlerKind) (nested : List Variable) :
    Inlines Code.inlined (fun _ => deferredCode body id kind nested)
      (deferredCode body' id kind nested) := by
  refine .inMethod (.bind (inlines_declareVariables nested) fun declared => ?_)
  refine .bind (inlines_syncVariables nested) fun synced => ?_
  refine .bind (hbody _ id) fun inside => .pure fun all => ?_
  simp only [Code.inlined_cons, Stretch.inlined_plain, List.map_append]

theorem inlines_deferBody (kind : HandlerKind) (nested : List Variable) :
    Inlines (fun _ number => number) (fun _ => deferBody body id kind nested)
      (deferBody body' id kind nested) := by
  refine .bind steady_reserveDeferred fun number => ?_
  refine .bind (inlines_deferredCode hbody id kind nested) fun code => ?_
  exact .bind (inlines_fillDeferred number code) fun _ => .pure fun _ => rfl

theorem inlines_attributeValue (handler : String) (kind : HandlerKind) (a : ResolvedAttribute) :
    Inlines (fun _ op => op)
      (fun _ => attributeValue (x.withStrategy .inline) body scope handler kind a)
      (attributeValue (x.withStrategy .charArrays) body' scope handler kind a) := by
  unfold attributeValue
  cases a.value with
  | literal v => exact steady_literalValue a v
  | scripting code => exact .pure fun _ => rfl
  | expression source parts dialect => exact steady_expressionValue x _ parts dialect
  | named named =>
    exact .ite (.bind (inlines_deferBody hbody named kind []) fun _ => .pure fun _ => rfl)
      (.bind (steady_namedVariable named) fun _ => .pure fun _ => rfl)

theorem inlines_setters (f : Finding) (handler : String) (kind : HandlerKind) :
    Inlines inlinedLines (fun _ => setters (x.withStrategy .inline) body scope f handler kind)
      (setters (x.withStrategy .charArrays) body' scope f handler kind) :=
  .mapM fun a _ => .bind (inlines_attributeValue x hbody scope handler kind a) fun _ =>
    .ite (.pure fun _ => rfl) (.pure fun _ => rfl)

theorem inlines_bodySetter (handler : String) :
    Inlines inlinedLines (fun _ => bodySetter (x.withStrategy .inline) body scope id handler)
      (bodySetter (x.withStrategy .charArrays) body' scope id handler) :=
  .ite (.bind (inlines_deferBody hbody id .simple _) fun _ => .pure fun _ => rfl)
    (.pure fun _ => rfl)

theorem inlines_simpleCode (data : CustomAction) (handler : String) :
    Inlines Code.inlined
      (fun _ => simpleCode (x.withStrategy .inline) body scope id data handler)
      (simpleCode (x.withStrategy .charArrays) body' scope id data handler) := by
  refine .bind (inlines_namedValues x hbody scope id) fun values => ?_
  refine .bind (inlines_setters x hbody scope _ handler .simple) fun attrs => ?_
  refine .bind (inlines_bodySetter x hbody scope id handler) fun deferred => ?_
  refine .bind (inlines_syncVariables _) fun synced => .pure fun all => ?_
  simp only [Code.inlined_append, Code.inlined_cons, Code.inlined_nil, Stretch.inlined_forMark,
    List.map_flatten, List.map_cons, List.map_nil, List.map_map]
  rfl

theorem inlines_classicBody (handler count : String) (c : Capabilities) :
    Inlines Code.inlined
      (fun _ => classicBody (x.withStrategy .inline) body scope id handler count c)
      (classicBody (x.withStrategy .charArrays) body' scope id handler count c) := by
  refine .inBlock ?_
  refine .bind (inlines_declareVariables _) fun declared => ?_
  refine .bind (inlines_syncVariables _) fun synced => ?_
  refine .bind (hbody _ id) fun inside => ?_
  refine .bind (inlines_syncVariables _) fun syncedAgain => .pure fun all => ?_
  simp only [Code.inlined_append, Code.inlined_cons, Code.inlined_nil, Stretch.inlined_forMark,
    List.map_flatten, List.map_cons, List.map_nil, map_inlined_onlyIf, againLines]
  rfl

theorem inlines_classicCode (data : CustomAction) (handler : String) :
    Inlines Code.inlined
      (fun _ => classicCode (x.withStrategy .inline) body scope id data handler)
      (classicCode (x.withStrategy .charArrays) body' scope id data handler) := by
  refine .bind (inlines_namedValues x hbody scope id) fun values => ?_
  refine .bind (steady_addPool _) fun _ => ?_
  refine .bind (inlines_setters x hbody scope _ handler .classic) fun attrs => ?_
  refine .bind (inlines_syncVariables _) fun synced => ?_
  refine .ite (.bind (inlines_classicBody x hbody scope id handler _ _) fun inside => ?_)
    (.bind (.pure (v := Code.inlined) fun _ => rfl) fun inside => ?_)
  all_goals
    refine .bind (inlines_syncVariables _) fun syncedAgain => .pure fun all => ?_
    simp only [Code.inlined_append, Code.inlined_cons, Code.inlined_nil, Stretch.inlined_forMark,
      List.map_flatten, List.map_cons, List.map_nil, map_inlined_onlyIf, map_inlined_releaseLines]
    rfl

theorem inlines_inlineCode (data : CustomAction) :
    Inlines Code.inlined (fun _ => inlineCode (x.withStrategy .inline) body scope id data)
      (inlineCode (x.withStrategy .charArrays) body' scope id data) := by
  unfold inlineCode
  dsimp only [Context.finding_withStrategy]
  cases (x.finding id).instanceId with
  | none => exact .throw _
  | some handler =>
    refine .bind (inlines_saveVariables _ _) fun saves => ?_
    refine .bind (inlines_declareVariables _) fun atBegin => ?_
    refine .bind (inlines_declareVariables _) fun atEnd => ?_
    refine .ite (.bind (inlines_simpleCode x hbody scope id data handler) fun code => ?_)
      (.bind (inlines_classicCode x hbody scope id data handler) fun code => ?_)
    all_goals
      refine .pure fun all => ?_
      simp only [Code.inlined_append, Code.inlined_cons, Code.inlined_nil, Stretch.inlined_forMark,
        Stretch.inlined_plain, List.map_append, List.map_map]
      rfl

theorem inlines_splitCode (data : CustomAction) (handler : String) :
    Inlines Code.inlined
      (fun _ => splitCode (x.withStrategy .inline) body scope id data handler)
      (splitCode (x.withStrategy .charArrays) body' scope id data handler) := by
  refine .bind (.inMethod (inlines_inlineCode x hbody _ id data)) fun code => ?_
  refine .bind (.modify (fun all s => ?_) fun _ => rfl) fun _ => .pure fun _ => rfl
  simp only [State.inlined, List.map_append, List.map_cons, List.map_nil, Code.inlined_append,
    Code.inlined_cons, Code.inlined_nil, Stretch.inlined_plain]
  rfl

theorem inlines_customCode (data : CustomAction) :
    Inlines Code.inlined (fun _ => customCode (x.withStrategy .inline) body scope id data)
      (customCode (x.withStrategy .charArrays) body' scope id data) := by
  unfold customCode
  dsimp only [Context.finding_withStrategy]
  cases (x.finding id).instanceId with
  | none => exact inlines_inlineCode x hbody scope id data
  | some handler =>
    exact .ite (inlines_splitCode x hbody scope id data handler)
      (inlines_inlineCode x hbody scope id data)

theorem inlines_nodeCode :
    Inlines Code.inlined (fun _ => nodeCode (x.withStrategy .inline) body scope id)
      (nodeCode (x.withStrategy .charArrays) body' scope id) := by
  unfold nodeCode
  dsimp only [Context.tree_withStrategy]
  cases x.tree.kind id with
  | root | xmlRoot | includeDirective | body | jspText => exact hbody scope id
  | pageDirective | taglibDirective | comment | param | params | fallback | output | named =>
    exact .pure fun _ => rfl
  | script kind code => exact inlines_scriptCode x kind id
  | insert data => exact inlines_insertCode x _ data
  | text run => exact .ite (.pure fun _ => rfl) (inlines_textCode x _ run)
  | useBean => exact inlines_useBeanCode x hbody scope id
  | setProperty => exact inlines_setPropertyCode x hbody scope id
  | getProperty => exact inlines_getPropertyCode x id
  | forward => exact inlines_forwardCode x hbody scope id
  | includeAction => exact inlines_includeCode x hbody scope id
  | plugin => exact inlines_pluginCode x hbody scope id
  | element => exact inlines_elementCode x hbody scope id
  | custom data => exact inlines_customCode x hbody scope id data
  | uninterpreted => exact inlines_markupCode x hbody scope id

omit hbody in
theorem inlines_subtreeCode (fuel : Nat) :
    InlinedBodies (subtreeCode (x.withStrategy .inline) fuel)
      (subtreeCode (x.withStrategy .charArrays) fuel) := by
  induction fuel with
  | zero => exact fun _ _ => .pure fun _ => rfl
  | succ fuel ih =>
    refine fun scope id => inlines_nodeCode x (fun scope id => ?_) scope id
    exact .flatMapM (fun _ => Code.inlined_flatten) fun child => ih scope child

omit hbody in
theorem inlines_pageCode :
    Inlines Code.inlined (fun _ => pageCode (x.withStrategy .inline))
      (pageCode (x.withStrategy .charArrays)) :=
  inlines_subtreeCode x _ serviceScope Tree.root

end PageCompiler.ClassText
