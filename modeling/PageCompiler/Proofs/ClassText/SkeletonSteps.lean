import PageCompiler.Proofs.ClassText.Skeletons

namespace PageCompiler

open Text

namespace ClassText

-- A run has such a result, and collects well.
def Builds {α : Type} (m : GenM α) (good : α → Prop) : Prop :=
  ∀ s s' a, m s = .ok (a, s') → (s.Formed → s'.Formed) ∧ good a

namespace Builds

variable {α β : Type} {m m' : GenM α} {k : α → GenM β} {P P' : α → Prop} {Q : β → Prop}

theorem pure {a : α} (h : P a) : Builds (pure a) P := by
  intro s s' b hrun
  cases pure_run_eq_ok.mp hrun
  exact ⟨id, h⟩

theorem bind (h : Builds m P) (h' : ∀ a, P a → Builds (k a) Q) : Builds (m >>= k) Q := by
  intro s s' b hrun
  obtain ⟨a, s₁, ha, hrun⟩ := bind_run_eq_ok.mp hrun
  obtain ⟨hformed, hgood⟩ := h s s₁ a ha
  exact (h' a hgood s₁ s' b hrun).imp_left fun hrest hs => hrest (hformed hs)

-- What follows a choice comes behind both of its branches.
theorem ite_bind {c : Prop} [Decidable c] (h : Builds (if c then m else m') P)
    (h' : ∀ a, P a → Builds (k a) Q) : Builds (if c then m >>= k else m' >>= k) Q := by
  have hbind := h.bind h'
  split_ifs at hbind ⊢
  · exact hbind
  · exact hbind

theorem imp (h : Builds m P) (hgood : ∀ a, P a → P' a) : Builds m P' :=
  fun s s' a hrun => (h s s' a hrun).imp_right (hgood a)

theorem mapM {f : β → GenM α} {l : List β} (h : ∀ b ∈ l, Builds (f b) P) :
    Builds (l.mapM f) fun r => ∀ a ∈ r, P a := by
  induction l with
  | nil =>
    rw [List.mapM_nil]
    exact .pure (by simp)
  | cons b l ih =>
    rw [List.mapM_cons]
    obtain ⟨hfirst, hrest⟩ := List.forall_mem_cons.mp h
    exact .bind hfirst fun a ha => .bind (ih hrest) fun as has =>
      .pure (List.forall_mem_cons.mpr ⟨ha, has⟩)

theorem modifyGet {g : State → α × State} (hformed : ∀ s, s.Formed → (g s).2.Formed)
    (hgood : ∀ s, P (g s).1) : Builds (modifyGet g) P := by
  intro s s' a hrun
  obtain ⟨rfl, rfl⟩ := Prod.mk.inj (modifyGet_run_eq_ok.mp hrun)
  exact ⟨hformed s, hgood s⟩

theorem inBlock (h : Builds m P) : Builds (inBlock m) P := by
  intro s s' a hrun
  obtain ⟨s₁, hm, rfl⟩ := inBlock_run_eq_ok hrun
  refine (h s.push s₁ a hm).imp_left fun hformed hs => ?_
  have hs₁ := hformed ⟨hs.declarations, hs.methods, hs.deferred⟩
  exact ⟨hs₁.declarations, hs₁.methods, hs₁.deferred⟩

theorem inMethod (h : Builds m P) : Builds (inMethod m) P := by
  intro s s' a hrun
  obtain ⟨s₁, hm, rfl⟩ := inMethod_run_eq_ok hrun
  refine (h _ s₁ a hm).imp_left fun hformed hs => ?_
  have hs₁ := hformed ⟨hs.declarations, hs.methods, hs.deferred⟩
  exact ⟨hs₁.declarations, hs₁.methods, hs₁.deferred⟩

end Builds

variable {x : Context}

theorem straight_nil : Straight [] := fun _ h => nomatch h

theorem straight_cons {line : Line} {lines : List Line} (hline : line.isStraight = true)
    (h : Straight lines) : Straight (line :: lines) := List.forall_mem_cons.mpr ⟨hline, h⟩

theorem straight_flatten {parts : List (List Line)} (h : ∀ lines ∈ parts, Straight lines) :
    Straight parts.flatten := fun line hline => by
  obtain ⟨lines, hlines, hline⟩ := List.mem_flatten.mp hline
  exact h lines hlines line hline

theorem builds_isDeclared (name : String) : Builds (isDeclared name) fun _ => True := by
  intro s s' known hrun
  obtain ⟨-, rfl⟩ := isDeclared_run_eq_ok hrun
  exact ⟨id, trivial⟩

theorem builds_declareName (name : String) : Builds (declareName name) fun _ => True := by
  intro s s' new hrun
  obtain ⟨-, -, rfl⟩ | ⟨-, -, rfl⟩ := declareName_run_eq_ok hrun
  · exact ⟨fun hs => ⟨hs.declarations, hs.methods, hs.deferred⟩, trivial⟩
  · exact ⟨id, trivial⟩

theorem builds_charArray (text : String) : Builds (charArray text) fun _ => True :=
  .modifyGet (fun s hs => by split <;> exact ⟨hs.declarations, hs.methods, hs.deferred⟩)
    fun _ => trivial

theorem builds_functionField (calls : List FunctionUse) :
    Builds (functionField x calls) fun _ => True :=
  .modifyGet (fun _ hs => ⟨hs.declarations, hs.methods, hs.deferred⟩) fun _ => trivial

theorem builds_addPool (pool : Option String) : Builds (addPool pool) fun _ => True := by
  cases pool with
  | none => exact .pure trivial
  | some name =>
    refine .modifyGet (fun s hs => ?_) fun _ => trivial
    dsimp only
    split <;> exact ⟨hs.declarations, hs.methods, hs.deferred⟩

theorem builds_freshTemporary : Builds freshTemporary fun _ => True :=
  .modifyGet (fun _ hs => ⟨hs.declarations, hs.methods, hs.deferred⟩) fun _ => trivial

theorem builds_namedVariable (id : NodeId) : Builds (namedVariable id) fun _ => True :=
  .modifyGet (fun _ hs => ⟨hs.declarations, hs.methods, hs.deferred⟩) fun _ => trivial

theorem builds_evaluate (source typeName : String) (calls : List FunctionUse) :
    Builds (evaluate x source calls typeName) fun _ => True :=
  .bind (builds_functionField calls) fun _ _ => .pure trivial

theorem builds_stringValue (a : ResolvedAttribute) : Builds (stringValue x a) fun _ => True := by
  unfold stringValue
  split
  · exact .pure trivial
  · exact .pure trivial
  · exact builds_evaluate _ _ _
  · exact .bind (builds_namedVariable _) fun _ _ => .pure trivial

theorem builds_stringOf (f : Finding) (name : String) :
    Builds (stringOf x f name) fun _ => True := by
  unfold stringOf
  split
  · exact builds_stringValue _
  · exact .pure trivial

theorem builds_propertyValue (a : ResolvedAttribute) :
    Builds (propertyValue x a) fun _ => True := by
  unfold propertyValue
  split
  · exact .pure trivial
  · exact builds_evaluate _ _ _
  · exact builds_stringValue _

theorem builds_methodParameters (c : AttributeContract) :
    Builds (methodParameters c) fun _ => True := by
  intro s s' types hrun
  cases methodParameters_run_eq_ok hrun
  exact ⟨id, trivial⟩

theorem builds_expressionValue (contract : Option AttributeContract) (parts : Composite)
    (dialect : Dialect) : Builds (expressionValue x contract parts dialect) fun _ => True := by
  refine .bind (builds_functionField _) fun field _ => ?_
  dsimp only
  cases contract with
  | some c =>
    dsimp only
    split
    · exact .bind (builds_methodParameters c) fun _ _ => .pure trivial
    · split <;> exact .pure trivial
  | none =>
    dsimp only
    split <;> exact .pure trivial

theorem builds_literalValue (a : ResolvedAttribute) (value : String) :
    Builds (literalValue a value) fun _ => True := by
  unfold literalValue
  split
  · split
    · exact .bind (builds_methodParameters _) fun _ _ => .pure trivial
    · split <;> exact .pure trivial
  · exact .pure trivial

theorem builds_writeLiteral (text : String) : Builds (writeLiteral x text) Straight := by
  unfold writeLiteral
  split
  · exact .pure (straight_cons rfl straight_nil)
  · refine .mapM fun chunk _ => ?_
    dsimp only
    split
    · exact .pure rfl
    · exact .bind (builds_charArray _) fun _ _ => .pure rfl

theorem builds_textCode (mark : Mark) (run : TextRun) :
    Builds (textCode x mark run) fun code => Straight code.lines := by
  unfold textCode
  split
  · exact .pure straight_nil
  · refine .bind (builds_writeLiteral _) fun lines hlines => .pure ?_
    simpa [Code.lines] using hlines

theorem builds_insertCode (mark : Mark) (data : Insert) :
    Builds (insertCode x mark data) fun code => Straight code.lines := by
  unfold insertCode
  dsimp only
  split
  · refine .bind (builds_writeLiteral _) fun lines hlines => .pure ?_
    simpa using hlines
  · exact .bind (builds_evaluate _ _ _) fun op _ => .pure (straight_cons rfl straight_nil)

theorem straight_codeLines (mark : Mark) (code : String) :
    Straight (codeLines mark code).lines := by
  rw [lines_codeLines]
  intro line hline
  obtain ⟨text, -, rfl⟩ := List.mem_map.mp hline
  rfl

theorem straight_printCode (mark : Mark) (code : String) :
    Straight (printCode mark code).lines := by
  unfold printCode
  dsimp only
  split
  · intro line hline
    simp only [Code.lines_cons, Code.lines_nil, Stretch.lines_forMark, List.append_nil,
      List.mem_append, List.mem_singleton, List.mem_map] at hline
    obtain (rfl | ⟨text, -, rfl⟩) | rfl := hline
    · rfl
    · rfl
    · rfl
  · exact straight_cons rfl straight_nil

theorem builds_scriptCode (kind : ScriptKind) (id : NodeId) :
    Builds (scriptCode x kind id) fun code => Straight code.lines := by
  unfold scriptCode
  cases kind with
  | declaration =>
    refine .bind (P := fun _ => True) (.modifyGet (fun s hs => ⟨?_, hs.methods, hs.deferred⟩)
      fun _ => trivial) fun _ _ => .pure straight_nil
    rw [Code.lines_append]
    exact hs.declarations.append (straight_codeLines _ _).skeleton
  | expression => exact .pure (straight_printCode _ _)
  | scriptlet => exact .pure (straight_codeLines _ _)

theorem builds_attributePieces (a : ResolvedAttribute) :
    Builds (attributePieces x a) fun _ => True := by
  have hpieces : ∀ pieces : List Piece, Builds (pure pieces) fun _ => True := fun _ => .pure trivial
  unfold attributePieces
  split
  · exact .bind (hpieces _) fun _ _ => hpieces _
  · exact .bind (hpieces _) fun _ _ => hpieces _
  · split
    · exact .bind (builds_evaluate _ _ _) fun _ _ => .bind (hpieces _) fun _ _ => hpieces _
    · exact .bind (hpieces _) fun _ _ => hpieces _
  · exact .bind (hpieces _) fun _ _ => hpieces _

theorem builds_pieceLines (piece : Piece) : Builds (pieceLines x piece) Straight := by
  cases piece with
  | literal text => exact builds_writeLiteral text
  | write value => exact .pure (straight_cons rfl straight_nil)
  | print code => exact .pure (straight_cons rfl straight_nil)

-- The statements that are generated for a place.
def Scope.Formed (scope : Scope) (code : Code) : Prop :=
  Skeleton (some scope.leave) false code.lines

theorem Scope.formed_nil (scope : Scope) : scope.Formed [] := .nil

theorem Scope.formed_flatten {scope : Scope} {parts : List Code}
    (h : ∀ code ∈ parts, scope.Formed code) : scope.Formed parts.flatten := by
  rw [Scope.Formed, Code.lines_flatten, List.flatMap]
  exact .flatten (List.forall_mem_map.mpr h)

section

variable {body : BodyGen} {id : NodeId} (hb : ∀ scope n, Builds (body scope n) scope.Formed)
  (scope : Scope)

include hb in
theorem builds_markupCode : Builds (markupCode x body scope id) scope.Formed := by
  unfold markupCode
  refine .bind (.mapM fun a _ => builds_attributePieces a) fun attrs _ => ?_
  dsimp only
  refine .bind (.mapM fun piece _ => builds_pieceLines piece) fun head hhead => ?_
  have hopening := (straight_flatten hhead).skeleton (e := some scope.leave) (b := false)
  split
  · refine .bind (hb scope id) fun inside hinside =>
      .bind (builds_writeLiteral _) fun tail htail => .pure ?_
    simpa [Scope.Formed] using hopening.append (hinside.append htail.skeleton)
  · exact .pure (by simpa [Scope.Formed] using hopening)

include hb in
theorem builds_namedValues : Builds (namedValues x body scope id) scope.Formed := by
  refine .bind (.mapM (P := scope.Formed) fun a _ => ?_) fun parts hparts =>
    .pure (Scope.formed_flatten hparts)
  split
  · rename_i n _
    split
    · rename_i data _
      split
      · exact .pure scope.formed_nil
      · refine .bind (builds_namedVariable n) fun held _ => .bind (hb scope n)
          fun inside hinside => .pure ?_
        have hvalue : Skeleton (some scope.leave) false (Line.plain .pushBody :: inside.lines ++
            [Line.plain (.capture held data.trim), Line.plain .popBody]) :=
          .cons _ rfl (hinside.append (.cons _ rfl (.cons _ rfl .nil)))
        simpa [Scope.Formed] using hvalue
    · exact .pure scope.formed_nil
  · exact .pure scope.formed_nil

theorem builds_makeBean (f : Finding) (name typeName : String) :
    Builds (makeBean x f name typeName) fun line => line.isStraight = true := by
  unfold makeBean
  split
  · exact .bind (builds_stringValue _) fun _ _ => .pure rfl
  · exact .pure rfl
  · exact .pure rfl

theorem isCommon_lock (beanScope : String) :
    IsCommon ("synchronized (" ++ scopeLock beanScope ++ ")") := by
  unfold scopeLock
  split
  case h_4 =>
    rw [String.append_assoc]
    exact isCommon_append _ (by decide)
  all_goals
    rw [← String.append_assoc, String.append_assoc]
    exact isCommon_append _ (by decide)

include hb in
theorem builds_useBeanCode : Builds (useBeanCode x body scope id) scope.Formed := by
  have hbody : Builds (if x.tree.hasContent id then inBlock (body scope id) else pure [])
      scope.Formed := by
    split
    · exact (hb scope id).inBlock
    · exact .pure scope.formed_nil
  refine .bind (builds_namedValues hb scope) fun values hvalues =>
    .bind (builds_declareName _) fun new _ => .bind (builds_makeBean _ _ _) fun made hmade =>
      .ite_bind hbody fun inside hinside => .pure ?_
  have hdeclaration : Skeleton (some scope.leave) false (if new then
      [Line.plain (.declare (((literalOf (x.finding id) "type").or
        (literalOf (x.finding id) "class")).getD "java.lang.Object")
          ((literalOf (x.finding id) "id").getD ""))] else []) := by
    split
    · exact .line _ rfl
    · exact .nil
  -- The bean is made, and its body written, in a block inside of the one with the lock.
  have hmake := fun name t => Skeleton.block (e := some scope.leave) (b := true)
    ("if (" ++ name ++ " == null)") "\x7d" (isCommon_append _ (by decide))
    (.cons _ hmade ((Skeleton.code t).append (Skeleton.inside hinside)))
  have hlocked := fun beanScope first name t =>
    Skeleton.block (b := false) _ "\x7d" (isCommon_lock beanScope)
      ((Skeleton.code first).append (hmake name t))
  simpa [Scope.Formed, Line.close] using hvalues.append (hdeclaration.append (hlocked _ _ _ _))

include hb in
theorem builds_setPropertyCode : Builds (setPropertyCode x body scope id) scope.Formed := by
  -- One line is made and stands behind the values.
  have hset : ∀ {values : Code} {line : Line}, scope.Formed values → line.isStraight = true →
      Builds (pure line >>= fun line => pure (values ++ [Stretch.forMark (x.tree.mark id) [line]]))
        scope.Formed := by
    intro values line hvalues hline
    refine .bind (P := fun line => line.isStraight = true) (.pure hline) fun line hline => .pure ?_
    simpa [Scope.Formed] using hvalues.append (.line _ hline)
  refine .bind (builds_namedValues hb scope) fun values hvalues => ?_
  dsimp only
  split
  · exact hset hvalues rfl
  · split
    · exact .bind (builds_propertyValue _) fun op _ => hset hvalues rfl
    · exact hset hvalues rfl

theorem builds_getPropertyCode : Builds (getPropertyCode x id) scope.Formed := by
  unfold getPropertyCode
  dsimp only
  split <;> exact .pure (.code _)

include hb in
theorem builds_paramCode : Builds (paramCode x body scope id) fun r => scope.Formed r.1 :=
  .bind (builds_namedValues hb scope) fun _ hvalues => .bind (builds_stringOf _ _)
    fun _ _ => .bind (builds_stringOf _ _) fun _ _ => .pure hvalues

include hb in
theorem builds_paramsCode (fuel : Nat) (id : NodeId) :
    Builds (paramsCode x body scope fuel id) fun r => scope.Formed r.1 := by
  induction fuel generalizing id with
  | zero => exact .pure scope.formed_nil
  | succ fuel ih =>
    refine .bind (.mapM (P := fun r => scope.Formed r.1) fun child _ => ?_)
      fun parts hparts => .pure (Scope.formed_flatten (List.forall_mem_map.mpr hparts))
    split
    · exact builds_paramCode hb scope
    · exact ih _
    · exact .pure scope.formed_nil

include hb in
theorem builds_includeCode : Builds (includeCode x body scope id) scope.Formed := by
  refine .bind (builds_namedValues hb scope) fun values hvalues =>
    .bind (builds_paramsCode hb scope _ _) fun params hparams =>
      .bind (builds_stringOf _ _) fun page _ => .pure ?_
  have hline := fun flush => Skeleton.line (e := some scope.leave) (b := false)
    (.plain (.includePage page params.2 flush)) rfl
  simpa [Scope.Formed] using hvalues.append (hparams.append (hline _))

include hb in
theorem builds_forwardCode : Builds (forwardCode x body scope id) scope.Formed := by
  refine .bind (builds_namedValues hb scope) fun values hvalues =>
    .bind (builds_paramsCode hb scope _ _) fun params hparams =>
      .bind (builds_stringOf _ _) fun page _ => .pure ?_
  have hexit := Skeleton.exit (e := scope.leave) (b := false) (.forward page params.2)
  simpa [Scope.Formed, Line.block] using hvalues.append (hparams.append hexit)

include hb in
theorem builds_fallbackCode : Builds (fallbackCode x body scope id) scope.Formed := by
  unfold fallbackCode
  split
  · exact .pure scope.formed_nil
  · refine .bind (hb scope _) fun inside hinside => .pure ?_
    have hlines := fun t t' => (Skeleton.code t).append (Skeleton.append hinside (.code t'))
    simpa [Scope.Formed, pluginLine] using hlines _ _

include hb in
theorem builds_pluginCode : Builds (pluginCode x body scope id) scope.Formed := by
  refine .bind (builds_namedValues hb scope) fun values hvalues =>
    .bind (builds_paramsCode hb scope _ _) fun params hparams =>
      .bind (.mapM (P := fun _ => True) fun a _ => .bind (builds_stringValue _)
        fun _ _ => .pure trivial) fun extra _ => .bind (builds_stringOf _ _) fun kind _ =>
          .bind (builds_stringOf _ _) fun className _ => .bind (builds_stringOf _ _)
            fun base _ => .bind (builds_fallbackCode hb scope) fun fallback hfallback =>
              .pure ?_
  have hlines := fun t => hvalues.append (hparams.append (.cons
    (.plain (.startPlugin kind className base extra.flatten params.2)) rfl
      (hfallback.append (.code t))))
  simpa [Scope.Formed, pluginLine] using hlines _

theorem builds_elementAttribute {e : Option Leave} {b : Bool} (a : ResolvedAttribute) :
    Builds (elementAttribute x a) (Skeleton e b) := by
  unfold elementAttribute
  refine .bind (builds_stringValue a) fun op _ => ?_
  dsimp only
  have hlines : ∀ b t t', Skeleton e b [.plain (.write (.code t)),
      .plain (.writeEscaped op), .plain (.write (.code t'))] := fun _ _ _ =>
    .cons _ rfl (.cons _ rfl (.cons _ rfl .nil))
  split
  · exact .pure (.block _ _ (isCommon_append _ (by decide)) (hlines _ _ _))
  · exact .pure (hlines _ _ _)

include hb in
theorem builds_elementCode : Builds (elementCode x body scope id) scope.Formed := by
  refine .bind (builds_namedValues hb scope) fun values hvalues =>
    .bind (builds_stringOf _ _) fun name _ => .bind builds_freshTemporary
      fun element _ => .bind (.mapM (P := Skeleton (some scope.leave) false) fun a _ =>
        builds_elementAttribute a) fun attrs hattrs => ?_
  dsimp only
  have hopening : Skeleton (some scope.leave) false ([Line.plain (.hold element name),
      .plain (.write (.code "'<'")), .plain (.write (.code element))] ++ attrs.flatten) :=
    .append (.cons _ rfl (.cons _ rfl (.cons _ rfl .nil))) (.flatten hattrs)
  have hwrite : ∀ t, Skeleton (some scope.leave) false [.plain (.write (.code t))] :=
    fun _ => .line _ rfl
  split
  · refine .bind (hb scope id) fun inside hinside => .pure ?_
    have hall := fun t t₁ t₂ t₃ => hvalues.append (hopening.append ((hwrite t).append
      (hinside.append ((hwrite t₁).append ((hwrite t₂).append (hwrite t₃))))))
    simpa [Scope.Formed] using hall _ _ _ _
  · have hall := fun t => hvalues.append (hopening.append (hwrite t))
    exact .pure (by simpa [Scope.Formed] using hall _)

theorem builds_declareVariables (vars : List Variable) :
    Builds (declareVariables vars) Straight := by
  refine .bind (.mapM (P := Straight) fun v _ => .bind (builds_declareName _) fun new _ => ?_)
    fun parts hparts => .pure (straight_flatten hparts)
  split
  · exact .pure (straight_cons rfl straight_nil)
  · exact .pure straight_nil

theorem builds_syncVariables (vars : List Variable) : Builds (syncVariables vars) Straight := by
  refine .bind (.mapM (P := Straight) fun v _ => .bind (builds_isDeclared _) fun known _ => ?_)
    fun parts hparts => .pure (straight_flatten hparts)
  split
  · exact .pure (straight_cons rfl straight_nil)
  · exact .pure straight_nil

theorem builds_saveVariables (vars : ScopedVariables) (depth : Nat) :
    Builds (saveVariables vars depth) fun r => Straight r.1 := by
  unfold saveVariables
  split
  · exact .pure straight_nil
  · refine .bind (.mapM (P := fun entries => ∀ entry ∈ entries, entry.1.isStraight = true)
      fun v _ => .bind (builds_isDeclared _) fun known _ => ?_) fun parts hparts => .pure ?_
    · split
      · exact .bind (builds_declareName _) fun _ _ => .pure (List.forall_mem_singleton.mpr rfl)
      · exact .pure fun _ h => nomatch h
    · refine List.forall_mem_map.mpr fun entry hentry => ?_
      obtain ⟨entries, hentries, hentry⟩ := List.mem_flatten.mp hentry
      exact hparts entries hentries entry hentry

include hb in
theorem builds_deferredCode (kind : HandlerKind) (nested : List Variable) :
    Builds (deferredCode body id kind nested) fun code =>
      Skeleton (some .throws) false code.lines :=
  .inMethod <| .bind (builds_declareVariables _) fun declared hdeclared =>
    .bind (builds_syncVariables _) fun synced hsynced => .bind (hb _ id)
      fun inside hinside => .pure <| by
        simpa using hdeclared.skeleton.append (hsynced.skeleton.append hinside)

include hb in
-- A number is taken, and its place is filled when the body has been generated.
theorem builds_deferBody (kind : HandlerKind) (nested : List Variable) :
    Builds (deferBody body id kind nested) fun _ => True := by
  refine .bind (P := fun _ => True) (.modifyGet (fun s hs => ?_) fun _ => trivial)
    fun number _ => .bind (builds_deferredCode hb kind nested) fun code hcode =>
      .bind (P := fun _ => True) (.modifyGet (fun s hs => ?_) fun _ => trivial)
        fun _ _ => .pure trivial
  · refine ⟨hs.declarations, hs.methods, List.forall_mem_append.mpr ⟨hs.deferred, ?_⟩⟩
    exact List.forall_mem_singleton.mpr .nil
  · refine ⟨hs.declarations, hs.methods, fun filled hfilled => ?_⟩
    rcases List.mem_or_eq_of_mem_set hfilled with hold | rfl
    · exact hs.deferred filled hold
    · exact hcode

include hb in
theorem builds_attributeValue (handler : String) (kind : HandlerKind) (a : ResolvedAttribute) :
    Builds (attributeValue x body scope handler kind a) fun _ => True := by
  unfold attributeValue
  split
  · exact builds_literalValue a _
  · exact .pure trivial
  · exact builds_expressionValue _ _ _
  · split
    · exact .bind (builds_deferBody hb kind _) fun _ _ => .pure trivial
    · exact .bind (builds_namedVariable _) fun _ _ => .pure trivial

include hb in
theorem builds_setters (f : Finding) (handler : String) (kind : HandlerKind) :
    Builds (setters x body scope f handler kind) Straight := by
  refine .mapM fun a _ => .bind (builds_attributeValue hb scope handler kind a) fun op _ => ?_
  split <;> exact .pure rfl

include hb in
theorem builds_bodySetter (handler : String) :
    Builds (bodySetter x body scope id handler) Straight := by
  unfold bodySetter
  split
  · exact .bind (builds_deferBody hb .simple _) fun number _ =>
      .pure (straight_cons rfl straight_nil)
  · exact .pure straight_nil

include hb in
theorem builds_simpleCode (data : CustomAction) (handler : String) :
    Builds (simpleCode x body scope id data handler) scope.Formed := by
  refine .bind (builds_namedValues hb scope) fun values hvalues =>
    .bind (builds_setters hb scope _ handler .simple) fun attrs hattrs =>
      .bind (builds_bodySetter hb scope handler) fun deferred hdeferred =>
        .bind (builds_syncVariables _) fun synced hsynced => .pure ?_
  have hparent : Skeleton (some scope.leave) false (scope.parent.toList.map fun parent =>
      Line.code (handler ++ ".setParent(" ++ parent.expr ++ ");")) :=
    .of_straight (List.forall_mem_map.mpr fun _ _ => rfl)
  have hlines := fun t t₁ t₂ => Skeleton.cons
    (.plain (.acquire data.tag.handlerClass handler none)) rfl <|
      (Skeleton.code t).append <| hparent.append <| hattrs.skeleton.append <|
        hdeferred.skeleton.append <| (Skeleton.code t₁).append <|
          hsynced.skeleton.append (.code t₂)
  simpa [Scope.Formed] using hvalues.append (hlines _ _ _)

theorem block_evalOtherThan {e : Option Leave} {b : Bool} {l : List Line}
    (handler constant : String) (hconstant : constant ∈ ["SKIP_BODY", "EVAL_BODY_INCLUDE"])
    (h : Skeleton e true l) :
    Skeleton e b (evalOtherThan handler constant :: l ++ [Line.close]) := by
  refine .block _ _ ?_ h
  rw [String.append_assoc]
  refine isCommon_append _ ?_
  revert constant
  decide

-- A body that is not taken in place is pushed and popped around what is inside.
theorem Skeleton.buffered {e : Option Leave} {b : Bool} {l : List Line} (buffers : Bool)
    (handler count : String) (h : Skeleton e b l) :
    Skeleton e b (onlyIf buffers (pushLines handler count) ++ l ++
      onlyIf buffers (popLines handler count)) := by
  have hpush := fun t t' => block_evalOtherThan (e := e) (b := b) handler
    "EVAL_BODY_INCLUDE" (by decide) <|
      .cons (.plain .pushBody) rfl <| .cons (.plain (.countUp count)) rfl <|
        (Skeleton.code t).append (.code t')
  have hpop := block_evalOtherThan (e := e) (b := b) handler
    "EVAL_BODY_INCLUDE" (by decide) <|
      .cons (.plain .popBody) rfl <| .line (.plain (.countDown count)) rfl
  cases buffers with
  | false => simpa [onlyIf] using h
  | true => simpa [onlyIf, pushLines, popLines] using (hpush _ _).append (h.append hpop)

theorem Skeleton.repeated {e : Option Leave} {b : Bool} {l again : List Line}
    (loops : Bool) (handler : String) (h : Skeleton e b l)
    (hagain : Skeleton e b again) :
    Skeleton e b (onlyIf loops [.block "do"] ++ l ++
      onlyIf loops (againLines handler again)) := by
  have hbreak := Skeleton.block (e := e) (b := true) ("if (" ++ handler ++
    "_after != " ++ Names.bodyTag ++ ".EVAL_BODY_AGAIN)") "\x7d"
    (isCommon_append _ (by decide)) (.code "break;")
  have hloop := fun t => Skeleton.block (e := e) (b := b) "do"
    "\x7d while (true);" (by decide) <|
      h.inside.append ((Skeleton.code t).append (hagain.inside.append hbreak))
  cases loops with
  | false => simpa [onlyIf] using h
  | true => simpa [onlyIf, againLines, Line.close] using hloop _

include hb in
theorem builds_classicBody (handler count : String) (c : Capabilities) :
    Builds (classicBody x body scope id handler count c) scope.Formed := by
  refine .inBlock (.bind (builds_declareVariables _) fun declared hdeclared =>
    .bind (builds_syncVariables _) fun synced hsynced => .bind (hb _ id)
      fun inside hinside => .bind (builds_syncVariables _) fun again hagain => .pure ?_)
  have hloop := Skeleton.repeated (c.bodyBuffering || c.iteration) handler
    (hsynced.skeleton.append hinside) hagain.skeleton
  have hbody := block_evalOtherThan (b := false) handler "SKIP_BODY"
    (by decide) <| hdeclared.skeleton.append (hloop.buffered c.bodyBuffering handler count).inside
  simpa [Scope.Formed] using hbody

-- A handler recovers from failures at its end.
theorem Skeleton.recovering {e : Option Leave} {b : Bool} {l : List Line} (recovers : Bool)
    (handler count : String) (h : Skeleton e b l) :
    Skeleton e b (onlyIf recovers
        [.code ("int[] " ++ count ++ " = new int[] \x7b 0 \x7d;"), .block "try"] ++ l ++
      onlyIf recovers (recovery handler count)) := by
  have hpop := Skeleton.block (e := e) (b := true)
    ("while (" ++ count ++ "[0]-- > 0)") "\x7d" (isCommon_append _ (by decide))
    (.line (.plain .popBody) rfl)
  have htry := fun t t' => Skeleton.block (e := e) (b := b) "try" "\x7d"
    (by decide) <| h.inside.append <|
      (Skeleton.turn "catch (java.lang.Throwable _pagex_exception)").append <| hpop.append <|
        (Skeleton.code t).append <| (Skeleton.turn "finally").append (.code t')
  have hall := fun t => Skeleton.append (.code ("int[] " ++ count ++ " = new int[] \x7b 0 \x7d;"))
    (htry t (handler ++ ".doFinally();"))
  cases recovers with
  | false => simpa [onlyIf] using h
  | true => simpa [onlyIf, recovery, Line.close] using hall _

-- A handler is released in any case.
theorem Skeleton.released {e : Option Leave} {b : Bool} {l : List Line} (handler : String)
    (pool : Option String) (h : Skeleton e b l) :
    Skeleton e b (.block "try" :: l ++ releaseLines handler pool) := by
  have hreuse : Skeleton e true (pool.toList.flatMap fun pool =>
      [.plain (.reuse pool handler), .code (handler ++ "_reused = true;")]) := by
    cases pool with
    | none => exact .nil
    | some name => exact .cons _ rfl (.cons _ rfl .nil)
  have htry := fun t => Skeleton.block (b := b) "try" "\x7d"
    (by decide) <| h.inside.append <| hreuse.append <|
      (Skeleton.turn "finally").append (.code t)
  simpa [releaseLines, Line.close] using htry _

include hb in
theorem builds_classicCode (data : CustomAction) (handler : String) :
    Builds (classicCode x body scope id data handler) scope.Formed := by
  have hinside : Builds (if x.tree.hasContent id then classicBody x body scope id handler
        (if data.tag.capabilities.tryCatchFinally then handler ++ "_push_body_count"
          else scope.pushCount) data.tag.capabilities
      else pure []) scope.Formed := by
    split
    · exact builds_classicBody hb scope handler _ _
    · exact .pure scope.formed_nil
  refine .bind (builds_namedValues hb scope) fun values hvalues =>
    .bind (builds_addPool _) fun _ _ =>
      .bind (builds_setters hb scope _ handler .classic) fun attrs hattrs =>
        .bind (builds_syncVariables _) fun synced hsynced => .ite_bind hinside
          fun inside hinside => .bind (builds_syncVariables _) fun again hagain => .pure ?_
  -- From the start tag to the end tag; the page may be left behind the latter.
  have hlife := fun start => (Skeleton.code start).append <| hsynced.skeleton.append <|
    Skeleton.append hinside <| (Skeleton.exit (.endTag handler)).append hagain.skeleton
  have hready := fun t u count start => (Skeleton.code t).append <| (Skeleton.code u).append <|
    hattrs.skeleton.append <|
      (hlife start).recovering data.tag.capabilities.tryCatchFinally handler count
  have hhandler := fun pool t u count start => (hready t u count start).released handler pool
  have hall := fun pool first t u count start => hvalues.append <| Skeleton.cons
    (.plain (.acquire data.tag.handlerClass handler pool)) rfl <|
      (Skeleton.code first).append (hhandler pool t u count start)
  simpa [Scope.Formed, acquireLines, startLine, Line.block] using hall _ _ _ _ _ _

include hb in
theorem builds_inlineCode (data : CustomAction) :
    Builds (inlineCode x body scope id data) scope.Formed := by
  unfold inlineCode
  dsimp only
  split
  · intro s s' code hrun
    cases hrun
  · rename_i handler _
    have hcode : Builds (if data.tag.capabilities.simple then
        simpleCode x body scope id data handler else classicCode x body scope id data handler)
        scope.Formed := by
      split
      · exact builds_simpleCode hb scope data handler
      · exact builds_classicCode hb scope data handler
    refine .bind (builds_saveVariables _ _) fun saved hsaved =>
      .bind (builds_declareVariables _) fun atBegin hbegin =>
        .bind (builds_declareVariables _) fun atEnd hend => .ite_bind hcode
          fun code hcode => .pure ?_
    have hrestores : Skeleton (some scope.leave) false
        (saved.2.map fun entry => Line.plain (.restore entry.1 entry.2)) :=
      .of_straight (List.forall_mem_map.mpr fun _ _ => rfl)
    simpa [Scope.Formed] using hsaved.skeleton.append <| hbegin.skeleton.append <|
      hend.skeleton.append (Skeleton.append hcode hrestores)

include hb in
-- The call leaves in the way of the place, the method in its own.
theorem builds_splitCode (data : CustomAction) (handler : String) :
    Builds (splitCode x body scope id data handler) scope.Formed := by
  refine .bind (Builds.inMethod (builds_inlineCode hb _ data)) fun code hcode =>
    .bind (P := fun _ => True) (.modifyGet (fun s hs => ⟨hs.declarations, ?_, hs.deferred⟩)
      fun _ => trivial) fun _ _ => .pure (.exit (.call _ _ _))
  refine List.forall_mem_append.mpr ⟨hs.methods, List.forall_mem_singleton.mpr
    ⟨methodName handler, code.lines, ?_, hcode⟩⟩
  simp [splitLines]

include hb in
theorem builds_customCode (data : CustomAction) :
    Builds (customCode x body scope id data) scope.Formed := by
  have hinline : Builds (inlineCode x body scope id data) scope.Formed :=
    builds_inlineCode hb scope data
  unfold customCode
  split
  · split
    · exact builds_splitCode hb scope data _
    · exact hinline
  · exact hinline

include hb in
theorem builds_nodeCode : Builds (nodeCode x body scope id) scope.Formed := by
  have hstraight : ∀ {m : GenM Code}, Builds m (fun code => Straight code.lines) →
      Builds m scope.Formed := fun h => h.imp fun code hcode => hcode.skeleton
  have hself := hb scope id
  unfold nodeCode
  cases x.tree.kind id with
  | root _ | xmlRoot | includeDirective | body | jspText => exact hself
  | pageDirective | taglibDirective | comment _ | param | params | fallback | output | named _ =>
    exact .pure scope.formed_nil
  | script kind script => exact hstraight (builds_scriptCode kind id)
  | insert data => exact hstraight (builds_insertCode _ data)
  | text run =>
    dsimp only
    split
    · exact .pure scope.formed_nil
    · exact hstraight (builds_textCode _ run)
  | useBean => exact builds_useBeanCode hb scope
  | setProperty => exact builds_setPropertyCode hb scope
  | getProperty => exact builds_getPropertyCode scope
  | forward => exact builds_forwardCode hb scope
  | includeAction => exact builds_includeCode hb scope
  | plugin => exact builds_pluginCode hb scope
  | element => exact builds_elementCode hb scope
  | custom data => exact builds_customCode hb scope data
  | uninterpreted => exact builds_markupCode hb scope

end

-- By induction on the fuel.
theorem builds_subtreeCode (fuel : Nat) (scope : Scope) (id : NodeId) :
    Builds (subtreeCode x fuel scope id) scope.Formed := by
  induction fuel generalizing scope id with
  | zero => exact .pure scope.formed_nil
  | succ fuel ih =>
    refine builds_nodeCode (fun scope n => ?_) scope
    exact .bind (.mapM fun c _ => ih scope c) fun parts hparts =>
      .pure (Scope.formed_flatten hparts)

theorem formed_pageCode {s : State} {body : Code} (h : pageCode x {} = .ok (body, s)) :
    serviceScope.Formed body ∧ s.Formed := by
  have hstart : State.Formed {} := ⟨.nil, by simp, by simp⟩
  obtain ⟨hformed, hbody⟩ := builds_subtreeCode _ serviceScope Tree.root _ _ _ h
  exact ⟨hbody, hformed hstart⟩

end ClassText

open ClassText

-- The class of a page, and the statements of each subtree in it, are nested: what is opened is
-- closed, with clauses in between, so that the indentation is never too small, and is in the end
-- what it was. The whole class reads as if it was printed by one writer. The service method, the
-- methods that were split off, and the deferred bodies are each left in their own way, behind an
-- end tag, a forward or a call, and nowhere else.
theorem CompiledPage.skeleton_ofUnit {o : Options} {loader : Loader}
    {resolver resolver' : Resolver} {name : String} {p : CompiledPage}
    (h : CompiledPage.ofUnit o loader resolver name = (.ok p, resolver')) :
    ∃ c body s, Assembled o loader resolver name p c body s ∧
      (∀ fuel scope id t t' code, subtreeCode ⟨o, c⟩ fuel scope id t = .ok (code, t') →
        Skeleton (some scope.leave) false code.lines ∧ LeavesBy scope.leave code.lines ∧
          ∀ n, indentAfter? n code.lines = some n ∧ (renderLines n code.lines).2 = n) ∧
      LeavesBy .returns body.lines ∧
      (∀ code ∈ s.methods, ∃ method l, Code.lines code = splitLines method l ∧
        LeavesBy .returnsTrue l) ∧
      (∀ code ∈ s.deferred, LeavesBy .throws (code.getD []).lines) ∧
      let lines := classLines ⟨o, c⟩ p.package p.className body s
      Skeleton none false lines ∧ indentAfter? 0 lines = some 0 ∧
        p.source = String.join (renderLines 0 lines).1 ∧ (renderLines 0 lines).2 = 0 := by
  obtain ⟨c, body, s, hassembled⟩ := exists_assembled h
  obtain ⟨hbody, hs⟩ := formed_pageCode hassembled.generated
  have hskeleton : Skeleton none false (classLines ⟨o, c⟩ p.package p.className body s) :=
    skeleton_classLines hbody hs
  have hplaced : sectionsAfter? 0 (sections ⟨o, c⟩ p.package p.className body s) = some 0 :=
    sectionsAfter?_sections hbody hs
  refine ⟨c, body, s, hassembled, fun fuel scope id t t' code hcode => ?_, hbody.leavesBy,
    fun code hcode => ?_, fun code hcode => (hs.deferred code hcode).leavesBy, hskeleton,
    hskeleton.indentAfter?_self 0, ?_, snd_renderLines (hskeleton.indentAfter?_self 0)⟩
  · have hformed := (builds_subtreeCode fuel scope id t t' code hcode).2
    exact ⟨hformed, hformed.leavesBy, fun n => ⟨hformed.indentAfter?_self n,
      snd_renderLines (hformed.indentAfter?_self n)⟩⟩
  · obtain ⟨method, l, heq, hl⟩ := hs.methods code hcode
    exact ⟨method, l, heq, hl.leavesBy⟩
  · rw [hassembled.source_eq]
    exact join_assembleFrom hplaced 1

-- A forward in an action of each kind, which become methods of their own.
def exitLibrary : Library :=
  { uri := "urn:sample", shortName := "sample"
    tags := [
      { name := "loop", handlerClass := "sample.LoopTag" },
      { name := "show", handlerClass := "sample.ShowTag", bodyContent := .scriptless
        capabilities := { simple := true } }] }

def exitUnits : Loader :=
  .ofUnits
    [("main.page", Utf8.ofString
      ("<%@ taglib prefix=\"s\" uri=\"urn:sample\" %><s:loop><jsp:forward page=\"a\"/></s:loop>" ++
        "<s:show><jsp:forward page=\"b\"/></s:show>"))]

-- The page is left in all three ways, each time in the way of the method.
theorem CompiledPage.skeleton_ofUnit_exits :
    ∃ p resolver c body s, CompiledPage.ofUnit {} exitUnits (.ofLibraries [exitLibrary])
        "main.page" = (.ok p, resolver) ∧
      Assembled {} exitUnits (.ofLibraries [exitLibrary]) "main.page" p c body s ∧
      (.plain (.leave .returns) ∈ body.lines ∧ LeavesBy .returns body.lines) ∧
      (∃ code ∈ s.methods, ∃ method l, Code.lines code = splitLines method l ∧
        .plain (.leave .returnsTrue) ∈ l ∧ LeavesBy .returnsTrue l) ∧
      (∃ code ∈ s.deferred, .plain (.leave .throws) ∈ (code.getD []).lines ∧
        LeavesBy .throws (code.getD []).lines) ∧
      indentAfter? 0 (classLines ⟨{}, c⟩ p.package p.className body s) = some 0 := by
  have hrun : passes {} exitUnits (.ofLibraries [exitLibrary]) "main.page" (fun _ _ body s =>
      body.lines.contains (.plain (.leave .returns)) &&
        s.methods.any (fun code => (Code.lines code).contains (.plain (.leave .returnsTrue))) &&
        s.deferred.any fun code => (code.getD []).lines.contains (.plain (.leave .throws))) =
      true := by
    rw [exitUnits, Utf8.ofString_append, Utf8.ofString_ofList, Utf8.ofString_ofList]
    decide +kernel
  obtain ⟨p, resolver, hp, htest⟩ := of_passes hrun
  obtain ⟨c, body, s, hassembled, -, hbody, hmethods, hdeferred, -, hindent, -, -⟩ :=
    skeleton_ofUnit hp
  have htest := htest hassembled
  simp only [Bool.and_eq_true, List.any_eq_true, List.contains_iff_mem] at htest
  obtain ⟨⟨hreturns, code, hcode, htrue⟩, inside, hinside, hthrows⟩ := htest
  obtain ⟨method, l, hlines, hl⟩ := hmethods code hcode
  have hmem : .plain (.leave .returnsTrue) ∈ l := by
    rw [hlines] at htrue
    simpa [splitLines, Line.blank, Line.code, Line.close] using htrue
  exact ⟨p, resolver, c, body, s, hp, hassembled, ⟨hreturns, hbody⟩,
    ⟨code, hcode, method, l, hlines, hmem, hl⟩, ⟨inside, hinside, hthrows,
      hdeferred inside hinside⟩, hindent⟩

end PageCompiler
