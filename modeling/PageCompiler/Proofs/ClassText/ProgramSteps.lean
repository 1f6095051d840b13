import PageCompiler.Proofs.ClassText.Programs

namespace PageCompiler.ClassText

open Text

variable {x : Context}

-- A value that is no deferred body.
def Operand.IsOwn (op : Operand) : Prop := ∀ cell, op.countsIn cell = true

-- Lines that are calm in every region.
def Calm (lines : List Line) : Prop := ∀ line ∈ lines, ∀ cell, line.isCalm cell = true

theorem Calm.composed {e : Leave} {cell : String} {lines : List Line} (h : Calm lines) :
    Composed x e cell lines := .of_calm fun line hline => h line hline cell

theorem calm_nil : Calm [] := fun _ h => nomatch h

theorem calm_cons {line : Line} {lines : List Line} (hline : ∀ cell, line.isCalm cell = true)
    (h : Calm lines) : Calm (line :: lines) := List.forall_mem_cons.mpr ⟨hline, h⟩

theorem calm_flatten {parts : List (List Line)} (h : ∀ lines ∈ parts, Calm lines) :
    Calm parts.flatten := fun line hline => by
  obtain ⟨lines, hlines, hline⟩ := List.mem_flatten.mp hline
  exact h lines hlines line hline

theorem calm_write {op : Operand} (h : op.IsOwn) : Calm [.plain (.write op)] :=
  calm_cons (fun cell => by simp [Line.isCalm, Statement.isCalm, Statement.operands, h cell]) calm_nil

theorem composes_isDeclared (name : String) : Composes x (isDeclared name) fun _ => True := by
  intro s s' known hrun hs
  obtain ⟨-, rfl⟩ := isDeclared_run_eq_ok hrun
  exact ⟨hs, trivial⟩

theorem composes_declareName (name : String) : Composes x (declareName name) fun _ => True := by
  intro s s' new hrun hs
  obtain ⟨-, -, rfl⟩ | ⟨-, -, rfl⟩ := declareName_run_eq_ok hrun
  · exact ⟨⟨hs.methods, hs.deferred⟩, trivial⟩
  · exact ⟨hs, trivial⟩

theorem composes_charArray (text : String) : Composes x (charArray text) Operand.IsOwn := by
  refine .modifyGet (fun s => ?_) (fun s => ?_) fun s => ?_
  · split <;> rfl
  · split <;> rfl
  · split <;> exact fun _ => rfl

theorem composes_functionField (calls : List FunctionUse) :
    Composes x (functionField x calls) fun _ => True :=
  .modifyGet (fun _ => rfl) (fun _ => rfl) fun _ => trivial

theorem composes_addPool (pool : Option String) : Composes x (addPool pool) fun _ => True := by
  cases pool with
  | none => exact .pure trivial
  | some name =>
    refine .modifyGet (fun s => ?_) (fun s => ?_) fun _ => trivial
    · dsimp only
      split <;> rfl
    · dsimp only
      split <;> rfl

theorem composes_freshTemporary : Composes x freshTemporary fun _ => True :=
  .modifyGet (fun _ => rfl) (fun _ => rfl) fun _ => trivial

theorem composes_namedVariable (id : NodeId) : Composes x (namedVariable id) fun _ => True :=
  .modifyGet (fun _ => rfl) (fun _ => rfl) fun _ => trivial

theorem composes_evaluate (source typeName : String) (calls : List FunctionUse) :
    Composes x (evaluate x source calls typeName) Operand.IsOwn :=
  .bind (composes_functionField calls) fun _ _ => .pure fun _ => rfl

theorem composes_stringValue (a : ResolvedAttribute) :
    Composes x (stringValue x a) Operand.IsOwn := by
  unfold stringValue
  split
  · exact .pure fun _ => rfl
  · exact .pure fun _ => rfl
  · exact composes_evaluate _ _ _
  · exact .bind (composes_namedVariable _) fun _ _ => .pure fun _ => rfl

theorem composes_stringOf (f : Finding) (name : String) :
    Composes x (stringOf x f name) Operand.IsOwn := by
  unfold stringOf
  split
  · exact composes_stringValue _
  · exact .pure fun _ => rfl

theorem composes_propertyValue (a : ResolvedAttribute) :
    Composes x (propertyValue x a) Operand.IsOwn := by
  unfold propertyValue
  split
  · exact .pure fun _ => rfl
  · exact composes_evaluate _ _ _
  · exact composes_stringValue _

theorem composes_writeLiteral (text : String) : Composes x (writeLiteral x text) Calm := by
  unfold writeLiteral
  split
  · exact .pure (calm_write fun _ => rfl)
  · refine .mapM fun chunk _ => ?_
    dsimp only
    split
    · exact .pure fun _ => rfl
    · exact .bind (composes_charArray _) fun op hop => .pure fun cell => by
        simp [Line.isCalm, Statement.isCalm, Statement.operands, hop cell]

-- Stretches of calm lines.
def CalmCode (code : Code) : Prop := Calm code.lines

theorem composes_textCode (mark : Mark) (run : TextRun) :
    Composes x (textCode x mark run) CalmCode := by
  unfold textCode
  split
  · exact .pure calm_nil
  · refine .bind (composes_writeLiteral _) fun lines hlines => .pure ?_
    simpa [CalmCode, Code.lines] using hlines

theorem composes_insertCode (mark : Mark) (data : Insert) :
    Composes x (insertCode x mark data) CalmCode := by
  unfold insertCode
  dsimp only
  split
  · refine .bind (composes_writeLiteral _) fun lines hlines => .pure ?_
    simpa [CalmCode] using hlines
  · exact .bind (composes_evaluate _ _ _) fun op hop => .pure (calm_write hop)

theorem calm_codeLines (mark : Mark) (code : String) : CalmCode (codeLines mark code) := by
  rw [CalmCode, lines_codeLines]
  intro line hline cell
  obtain ⟨text, -, rfl⟩ := List.mem_map.mp hline
  rfl

theorem calm_printCode (mark : Mark) (code : String) : CalmCode (printCode mark code) := by
  unfold printCode
  dsimp only
  split
  · intro line hline cell
    simp only [Code.lines_cons, Code.lines_nil, Stretch.lines_forMark, List.append_nil,
      List.mem_append, List.mem_singleton, List.mem_map] at hline
    obtain (rfl | ⟨text, -, rfl⟩) | rfl := hline
    · rfl
    · rfl
    · rfl
  · exact calm_cons (fun _ => rfl) calm_nil

theorem composes_scriptCode (kind : ScriptKind) (id : NodeId) :
    Composes x (scriptCode x kind id) CalmCode := by
  unfold scriptCode
  cases kind with
  | declaration =>
    exact .bind (.modifyGet (fun _ => rfl) (fun _ => rfl) (P := fun _ => True) fun _ => trivial)
      fun _ _ => .pure calm_nil
  | expression => exact .pure (calm_printCode _ _)
  | scriptlet => exact .pure (calm_codeLines _ _)

-- What a piece of a tag writes is no deferred body.
def Piece.IsOwn (piece : Piece) : Prop := ∀ op ∈ piece.value?, op.IsOwn

theorem Piece.isOwn_literal (text : String) : (Piece.literal text).IsOwn := fun _ h => nomatch h

theorem composes_attributePieces (a : ResolvedAttribute) :
    Composes x (attributePieces x a) fun pieces => ∀ piece ∈ pieces, piece.IsOwn := by
  have hpieces : ∀ value : List Piece, (∀ piece ∈ value, piece.IsOwn) →
      Composes x (pure ([Piece.literal (" " ++ a.qualifiedName ++ "=\"")] ++ value ++
        [Piece.literal "\""])) fun pieces => ∀ piece ∈ pieces, piece.IsOwn := by
    intro value hvalue
    refine .pure ?_
    simp only [List.forall_mem_append, List.forall_mem_singleton]
    exact ⟨⟨Piece.isOwn_literal _, hvalue⟩, Piece.isOwn_literal _⟩
  unfold attributePieces
  split
  · exact .bind (.pure (List.forall_mem_singleton.mpr (Piece.isOwn_literal _))) hpieces
  · exact .bind (.pure (List.forall_mem_singleton.mpr fun _ h => nomatch h)) hpieces
  · split
    · refine .bind (composes_evaluate _ _ _) fun op hop => .bind (.pure ?_) hpieces
      refine List.forall_mem_singleton.mpr ?_
      rintro _ ⟨⟩
      exact hop
    · exact .bind (.pure (List.forall_mem_singleton.mpr (Piece.isOwn_literal _))) hpieces
  · exact .bind (.pure fun _ h => nomatch h) hpieces

-- Joining changes nothing but literals.
theorem mem_of_mem_joinLiterals {pieces : List Piece} {piece : Piece}
    (h : piece ∈ joinLiterals pieces) : piece ∈ pieces ∨ ∃ text, piece = .literal text := by
  fun_induction joinLiterals pieces with
  | case1 => exact .inl h
  | case2 a rest b rest' hjoin ih =>
    rcases List.mem_cons.mp h with rfl | h
    · exact .inr ⟨_, rfl⟩
    · exact (ih (hjoin ▸ List.mem_cons_of_mem _ h)).imp_left (List.mem_cons_of_mem _)
  | case3 a rest _ ih | case4 a rest _ ih =>
    rcases List.mem_cons.mp h with rfl | h
    · exact .inl (List.mem_cons_self ..)
    · exact (ih h).imp_left (List.mem_cons_of_mem _)

theorem isOwn_joinLiterals {pieces : List Piece} (h : ∀ piece ∈ pieces, piece.IsOwn) :
    ∀ piece ∈ joinLiterals pieces, piece.IsOwn := by
  intro piece hpiece
  rcases mem_of_mem_joinLiterals hpiece with hmem | ⟨text, rfl⟩
  · exact h piece hmem
  · exact Piece.isOwn_literal text

theorem composes_pieceLines {piece : Piece} (h : piece.IsOwn) :
    Composes x (pieceLines x piece) Calm := by
  cases piece with
  | literal text => exact composes_writeLiteral text
  | write value => exact .pure (calm_write (h value rfl))
  | print code => exact .pure (calm_cons (fun _ => rfl) calm_nil)

-- The statements that are generated for a place.
def Scope.Composed (scope : Scope) (x : Context) (code : Code) : Prop :=
  ClassText.Composed x scope.leave scope.pushCount code.lines

theorem Scope.composed_nil (scope : Scope) : scope.Composed x [] := .nil

theorem CalmCode.composed {code : Code} (h : CalmCode code) (scope : Scope) :
    scope.Composed x code := Calm.composed h

theorem Scope.composed_flatten {scope : Scope} {parts : List Code}
    (h : ∀ code ∈ parts, scope.Composed x code) : scope.Composed x parts.flatten := by
  rw [Scope.Composed, Code.lines_flatten]
  exact .flatMap h

section

variable {body : BodyGen} {id : NodeId} (hx : Annotated x)
  (hb : ∀ scope n, n ∈ x.tree.preorder → Composes x (body scope n) (scope.Composed x))
  (hid : id ∈ x.tree.preorder) (scope : Scope)

include hb hid in
theorem composes_markupCode : Composes x (markupCode x body scope id) (scope.Composed x) := by
  unfold markupCode
  refine .bind (.mapM fun a _ => composes_attributePieces a) fun attrs hattrs => ?_
  dsimp only
  refine .bind (.mapM (P := Calm) fun piece hpiece => composes_pieceLines ?_) fun head hhead => ?_
  · refine isOwn_joinLiterals (List.forall_mem_append.mpr ⟨List.forall_mem_append.mpr ⟨?_, ?_⟩, ?_⟩)
      piece hpiece
    · exact List.forall_mem_singleton.mpr (Piece.isOwn_literal _)
    · intro piece hpiece
      obtain ⟨pieces, hpieces, hpiece⟩ := List.mem_flatten.mp hpiece
      exact hattrs pieces hpieces piece hpiece
    · exact List.forall_mem_singleton.mpr (Piece.isOwn_literal _)
  · have hopening := calm_flatten hhead
    split
    · refine .bind (hb scope id hid) fun inside hinside =>
        .bind (composes_writeLiteral _) fun tail htail => .pure ?_
      simpa [Scope.Composed] using hopening.composed.append (hinside.append htail.composed)
    · exact .pure (by simpa [Scope.Composed] using hopening.composed)

include hx hb hid in
-- The body of an attribute is pushed without being counted.
theorem composes_namedValues : Composes x (namedValues x body scope id) (scope.Composed x) := by
  refine .bind (.mapM (P := scope.Composed x) fun a ha => ?_) fun parts hparts =>
    .pure (Scope.composed_flatten hparts)
  cases hv : a.value with
  | named n =>
    have hn := (hx.established id hid).named ha hv
    obtain ⟨data, hk⟩ := hn.2
    replace hk : x.tree.kind n = .named data := hk
    simp only [hk]
    split
    · exact .pure scope.composed_nil
    · rename_i hfragment
      have hvalue : HasValues x := ⟨id, hid, a, ha, n, hv, by simpa using hfragment⟩
      refine .bind (composes_namedVariable n) fun held _ =>
        .bind (hb scope n (hx.wellFormed.child_mem_preorder hid hn.1)) fun inside hinside =>
          .pure ?_
      obtain ⟨p, hp⟩ := hinside
      exact ⟨.value hvalue p held data.trim, by simp [Program.lines, hp]⟩
  | _ => exact .pure scope.composed_nil

theorem composes_makeBean (f : Finding) (name typeName : String) :
    Composes x (makeBean x f name typeName) fun line => ∀ cell, line.isCalm cell = true := by
  unfold makeBean
  split
  · exact .bind (composes_stringValue _) fun op hop => .pure fun cell => by
      simp [Line.isCalm, Statement.isCalm, Statement.operands, hop cell]
  · exact .pure fun _ => rfl
  · exact .pure fun _ => rfl

include hx hb hid in
theorem composes_useBeanCode (hk : x.tree.kind id = .useBean) :
    Composes x (useBeanCode x body scope id) (scope.Composed x) := by
  have hbean : IsVariable x ((literalOf (x.finding id) "id").getD "") := .bean hid hk
  have hbody : Composes x (if x.tree.hasContent id then inBlock (body scope id) else pure [])
      (scope.Composed x) := by
    split
    · exact (hb scope id hid).inBlock
    · exact .pure scope.composed_nil
  refine .bind (composes_namedValues hx hb hid scope) fun values hvalues =>
    .bind (composes_declareName _) fun new _ => .bind (composes_makeBean _ _ _) fun made hmade =>
      .ite_bind hbody fun inside hinside => .pure ?_
  have hdeclaration : Composed x scope.leave scope.pushCount (if new then
      [Line.plain (.declare (((literalOf (x.finding id) "type").or
        (literalOf (x.finding id) "class")).getD "java.lang.Object")
          ((literalOf (x.finding id) "id").getD ""))] else []) := by
    split
    · exact .declare _ hbean
    · exact .nil
  -- The bean is made, and its body written, in a block inside of the one with the lock.
  have hmake := fun head t => Composed.block head <|
    (Composed.cons (hmade scope.pushCount) (Composed.code t)).append hinside
  have hlocked := fun lock first head t => Composed.block lock <|
    (Composed.code first).append (hmake head t)
  simpa [Scope.Composed] using hvalues.append (hdeclaration.append (hlocked _ _ _ _))

include hx hb hid in
theorem composes_setPropertyCode :
    Composes x (setPropertyCode x body scope id) (scope.Composed x) := by
  have hpure : ∀ {values : Code} {line : Line}, scope.Composed x values →
      (∀ cell, line.isCalm cell = true) →
      Composes x (pure (values ++ [Stretch.forMark (x.tree.mark id) [line]]) : GenM Code)
        (scope.Composed x) := fun hvalues hline => .pure <| by
    simpa [Scope.Composed] using hvalues.append (.cons (hline _) .nil)
  refine .bind (composes_namedValues hx hb hid scope) fun values hvalues => ?_
  dsimp only
  split
  · exact .bind (.pure (P := fun line => ∀ cell, Line.isCalm cell line = true) fun _ => rfl)
      fun line hline => hpure hvalues hline
  · split
    · refine .bind (composes_propertyValue _) fun op hop => .bind (.pure
        (P := fun line => ∀ cell, Line.isCalm cell line = true) fun cell => ?_)
          fun line hline => hpure hvalues hline
      simp [Line.isCalm, Statement.isCalm, Statement.operands, hop cell]
    · exact .bind (.pure (P := fun line => ∀ cell, Line.isCalm cell line = true) fun _ => rfl)
        fun line hline => hpure hvalues hline

theorem composes_getPropertyCode : Composes x (getPropertyCode x id) (scope.Composed x) := by
  unfold getPropertyCode
  dsimp only
  split <;> exact .pure (.code _)

-- The statements of parameters, and their operands.
def Scope.ComposedParams (scope : Scope) (x : Context) (r : Code × List Operand) : Prop :=
  scope.Composed x r.1 ∧ ∀ op ∈ r.2, op.IsOwn

include hx hb hid in
theorem composes_paramCode :
    Composes x (paramCode x body scope id) (scope.ComposedParams x) :=
  .bind (composes_namedValues hx hb hid scope) fun values hvalues =>
    .bind (composes_stringOf _ _) fun name hname => .bind (composes_stringOf _ _)
      fun value hvalue => .pure ⟨hvalues, by simp [hname, hvalue]⟩

include hx hb hid in
theorem composes_paramsCode (fuel : Nat) :
    Composes x (paramsCode x body scope fuel id) (scope.ComposedParams x) := by
  induction fuel generalizing id with
  | zero => exact .pure ⟨scope.composed_nil, fun _ h => nomatch h⟩
  | succ fuel ih =>
    refine .bind (.mapM (P := scope.ComposedParams x) fun child hchild => ?_)
      fun parts hparts => .pure ⟨?_, ?_⟩
    · have hmem := hx.wellFormed.child_mem_preorder hid hchild
      split
      · exact composes_paramCode hx hb hmem scope
      · exact ih hmem
      · exact .pure ⟨scope.composed_nil, fun _ h => nomatch h⟩
    · refine Scope.composed_flatten fun code hcode => ?_
      obtain ⟨part, hpart, rfl⟩ := List.mem_map.mp hcode
      exact (hparts part hpart).1
    · intro op hop
      obtain ⟨ops, hops, hop⟩ := List.mem_flatten.mp hop
      obtain ⟨part, hpart, rfl⟩ := List.mem_map.mp hops
      exact (hparts part hpart).2 op hop

include hx hb hid in
theorem composes_includeCode :
    Composes x (includeCode x body scope id) (scope.Composed x) := by
  refine .bind (composes_namedValues hx hb hid scope) fun values hvalues =>
    .bind (composes_paramsCode hx hb hid scope _) fun params hparams =>
      .bind (composes_stringOf _ _) fun page hpage => .pure ?_
  have hline : ∀ flush, Line.isCalm scope.pushCount (.plain (.includePage page params.2 flush)) =
      true := fun flush => by
    simpa [Line.isCalm, Statement.isCalm, Statement.operands, hpage _] using
      fun op hop => hparams.2 op hop _
  simpa [Scope.Composed] using hvalues.append (hparams.1.append (.cons (hline _) .nil))

include hx hb hid in
theorem composes_forwardCode :
    Composes x (forwardCode x body scope id) (scope.Composed x) := by
  refine .bind (composes_namedValues hx hb hid scope) fun values hvalues =>
    .bind (composes_paramsCode hx hb hid scope _) fun params hparams =>
      .bind (composes_stringOf _ _) fun page hpage => .pure ?_
  have hline : Line.isCalm scope.pushCount (.plain (.forwardPage page params.2)) = true := by
    simpa [Line.isCalm, Statement.isCalm, Statement.operands, hpage _] using
      fun op hop => hparams.2 op hop _
  have hleave : Composed x scope.leave scope.pushCount _ :=
    .block "if (true)" (.cons hline .leave)
  simpa [Scope.Composed] using hvalues.append (hparams.1.append hleave)

include hx hb hid in
theorem composes_fallbackCode :
    Composes x (fallbackCode x body scope id) (scope.Composed x) := by
  unfold fallbackCode
  split
  · exact .pure scope.composed_nil
  · rename_i fallback hfallback
    have hmem := hx.wellFormed.child_mem_preorder hid (List.mem_of_find?_eq_some hfallback)
    refine .bind (hb scope fallback hmem) fun inside hinside => .pure ?_
    have hlines := fun t t' => (Composed.code t).append (hinside.append (.code t'))
    simpa [Scope.Composed, pluginLine] using hlines _ _

include hx hb hid in
theorem composes_pluginCode :
    Composes x (pluginCode x body scope id) (scope.Composed x) := by
  refine .bind (composes_namedValues hx hb hid scope) fun values hvalues =>
    .bind (composes_paramsCode hx hb hid scope _) fun params hparams =>
      .bind (.mapM (P := fun ops => ∀ op ∈ ops, op.IsOwn) fun a _ =>
        .bind (composes_stringValue _) fun op hop => .pure ?_) fun extra hextra =>
          .bind (composes_stringOf _ _) fun kind hkind => .bind (composes_stringOf _ _)
            fun className hclass => .bind (composes_stringOf _ _) fun base hbase =>
              .bind (composes_fallbackCode hx hb hid scope) fun fallback hfallback => .pure ?_
  · simp only [List.forall_mem_cons]
    exact ⟨fun _ => rfl, hop, fun _ h => nomatch h⟩
  · have hline : Line.isCalm scope.pushCount
        (.plain (.startPlugin kind className base extra.flatten params.2)) = true := by
      simp only [Line.isCalm, Statement.isCalm, Statement.operands, List.all_append, List.all_cons,
        List.all_nil, hkind _, hclass _, hbase _, Bool.and_true, Bool.true_and, Bool.and_eq_true,
        List.all_eq_true]
      refine ⟨fun op hop => ?_, fun op hop => hparams.2 op hop _⟩
      obtain ⟨ops, hops, hop⟩ := List.mem_flatten.mp hop
      exact hextra ops hops op hop _
    have hlines := fun t => hvalues.append (hparams.1.append
      (.append (.cons hline .nil) (hfallback.append (.code t))))
    simpa [Scope.Composed, pluginLine] using hlines _

theorem composes_elementAttribute {e : Leave} {cell : String} (a : ResolvedAttribute) :
    Composes x (elementAttribute x a) (Composed x e cell) := by
  unfold elementAttribute
  refine .bind (composes_stringValue a) fun op hop => ?_
  dsimp only
  have hlines : ∀ t t', Composed x e cell [.plain (.write (.code t)), .plain (.writeEscaped op),
      .plain (.write (.code t'))] := fun t t' => .of_calm <| by
    simp [Line.isCalm, Statement.isCalm, Statement.operands, hop cell]
  split
  · exact .pure (.block _ (hlines _ _))
  · exact .pure (hlines _ _)

include hx hb hid in
theorem composes_elementCode :
    Composes x (elementCode x body scope id) (scope.Composed x) := by
  refine .bind (composes_namedValues hx hb hid scope) fun values hvalues =>
    .bind (composes_stringOf _ _) fun name hname => .bind composes_freshTemporary
      fun element _ => .bind (.mapM (P := Composed x scope.leave scope.pushCount) fun a _ =>
        composes_elementAttribute a) fun attrs hattrs => ?_
  dsimp only
  have hwrite : ∀ t, Line.isCalm scope.pushCount (.plain (.write (.code t))) = true := fun _ => rfl
  have hopening : Composed x scope.leave scope.pushCount ([Line.plain (.hold element name),
      .plain (.write (.code "'<'")), .plain (.write (.code element))] ++ attrs.flatten) := by
    refine .append (.of_calm ?_) ?_
    · simp [Line.isCalm, Statement.isCalm, Statement.operands, hname _]
    · rw [← List.flatMap_id]
      exact .flatMap hattrs
  split
  · refine .bind (hb scope id hid) fun inside hinside => .pure ?_
    have hall := fun t t₁ t₂ t₃ => hvalues.append (hopening.append (.append (.cons (hwrite t) .nil)
      (hinside.append (.cons (hwrite t₁) (.cons (hwrite t₂) (.cons (hwrite t₃) .nil))))))
    simpa [Scope.Composed] using hall _ _ _ _
  · have hall := fun t => hvalues.append (hopening.append (.cons (hwrite t) .nil))
    exact .pure (by simpa [Scope.Composed] using hall _)

end

theorem composes_declareVariables {e : Leave} {cell : String} {vars : List Variable}
    (h : ∀ v ∈ vars, IsVariable x v.name) :
    Composes x (declareVariables vars) (Composed x e cell) := by
  refine .bind (.mapM (P := Composed x e cell) fun v hv =>
    .bind (composes_declareName _) fun new _ => ?_) fun parts hparts => .pure ?_
  · split
    · exact .pure (.declare _ (h v (List.mem_filter.mp hv).1))
    · exact .pure .nil
  · rw [← List.flatMap_id]
    exact .flatMap hparts

theorem composes_syncVariables (vars : List Variable) :
    Composes x (syncVariables vars) Calm := by
  refine .bind (.mapM (P := Calm) fun v _ => .bind (composes_isDeclared _) fun known _ => ?_)
    fun parts hparts => .pure (calm_flatten hparts)
  split
  · exact .pure (calm_cons (fun _ => rfl) calm_nil)
  · exact .pure calm_nil

-- What is saved is among the variables.
theorem exists_of_mem_saveVariables {vars : ScopedVariables} {depth : Nat} {s s' : State}
    {lines : List Line} {pairs : List (String × String)}
    (h : saveVariables vars depth s = .ok ((lines, pairs), s')) :
    ∀ line ∈ lines, ∃ v ∈ vars.nested ++ vars.atBegin, ∃ newOf copy,
      line = .plain (.save newOf copy v.name) := by
  unfold saveVariables at h
  split at h
  · cases pure_run_eq_ok.mp h
    simp
  · obtain ⟨saved, s₁, hsaved, h⟩ := bind_run_eq_ok.mp h
    cases pure_run_eq_ok.mp h
    intro line hline
    obtain ⟨entry, hentry, rfl⟩ := List.mem_map.mp hline
    obtain ⟨entries, hentries, hentry⟩ := List.mem_flatten.mp hentry
    obtain ⟨v, hv, s₂, s₃, hrun⟩ := mem_of_mapM_run hsaved hentries
    obtain ⟨known, s₄, -, hrun⟩ := bind_run_eq_ok.mp hrun
    split at hrun
    · obtain ⟨new, s₅, -, hrun⟩ := bind_run_eq_ok.mp hrun
      cases pure_run_eq_ok.mp hrun
      obtain rfl := List.mem_singleton.mp hentry
      exact ⟨v, hv, _, _, rfl⟩
    · cases pure_run_eq_ok.mp hrun
      cases hentry

theorem composes_saveVariables {id : NodeId} {data : CustomAction} {handler : String}
    (hid : Handles x id data handler) :
    Composes x (saveVariables (x.finding id).exposed data.nestingLevel) fun r =>
      ∃ k : Saving x, k.saves = r.1 ∧
        k.restores = r.2.map fun pair => .plain (.restore pair.1 pair.2) := by
  intro s s' r hrun hs
  obtain ⟨saved, hlines, hpairs, hlevel, hsaves⟩ := saveVariables_run_eq_ok hrun
  refine ⟨?_, ⟨id, data, handler, saved, hid, fun entry hentry => ⟨fun h => ?_, ?_⟩⟩, hlines.symm,
    hpairs.symm⟩
  · rw [hsaves.eq_declared]
    exact ⟨hs.methods, hs.deferred⟩
  · rw [hlevel h] at hentry
    cases hentry
  · have hline : .plain (.save entry.1 (copyName data.nestingLevel entry.2) entry.2) ∈ r.1 := by
      rw [hlines]
      exact List.mem_map_of_mem hentry
    obtain ⟨v, hv, newOf, copy, heq⟩ := exists_of_mem_saveVariables hrun _ hline
    simp only [Line.plain.injEq, Statement.save.injEq] at heq
    exact ⟨v, hv, heq.2.2.symm⟩

theorem isVariable_nested {id : NodeId} (hid : id ∈ x.tree.preorder) :
    ∀ v ∈ (x.finding id).exposed.nested, IsVariable x v.name := fun _ hv =>
  .exposed hid (List.mem_append_left _ (List.mem_append_left _ hv))

theorem isVariable_atBegin {id : NodeId} (hid : id ∈ x.tree.preorder) :
    ∀ v ∈ (x.finding id).exposed.atBegin, IsVariable x v.name := fun _ hv =>
  .exposed hid (List.mem_append_left _ (List.mem_append_right _ hv))

theorem isVariable_atEnd {id : NodeId} (hid : id ∈ x.tree.preorder) :
    ∀ v ∈ (x.finding id).exposed.atEnd, IsVariable x v.name := fun _ hv =>
  .exposed hid (List.mem_append_right _ hv)

theorem composes_methodParameters (c : AttributeContract) :
    Composes x (methodParameters c) fun _ => True := by
  intro s s' types hrun hs
  cases methodParameters_run_eq_ok hrun
  exact ⟨hs, trivial⟩

theorem composes_expressionValue (contract : Option AttributeContract) (parts : Composite)
    (dialect : Dialect) :
    Composes x (expressionValue x contract parts dialect) Operand.IsOwn := by
  refine .bind (composes_functionField _) fun field _ => ?_
  dsimp only
  cases contract with
  | some c =>
    dsimp only
    split
    · exact .bind (composes_methodParameters c) fun _ _ => .pure fun _ => rfl
    · split <;> exact .pure fun _ => rfl
  | none =>
    dsimp only
    split <;> exact .pure fun _ => rfl

theorem composes_literalValue (a : ResolvedAttribute) (value : String) :
    Composes x (literalValue a value) Operand.IsOwn := by
  unfold literalValue
  split
  · split
    · exact .bind (composes_methodParameters _) fun _ _ => .pure fun _ => rfl
    · split <;> exact .pure fun _ => rfl
  · exact .pure fun _ => rfl

section

variable {body : BodyGen} {id : NodeId} (hx : Annotated x)
  (hb : ∀ scope n, n ∈ x.tree.preorder → Composes x (body scope n) (scope.Composed x))
  (hid : id ∈ x.tree.preorder) (scope : Scope)

include hb hid in
theorem composes_deferredCode (kind : HandlerKind) {nested : List Variable}
    (hnested : ∀ v ∈ nested, IsVariable x v.name) :
    Composes x (deferredCode body id kind nested) fun code =>
      Composed x .throws Names.pushCount code.lines :=
  .inMethod <| .bind (composes_declareVariables hnested) fun declared hdeclared =>
    .bind (composes_syncVariables _) fun synced hsynced => .bind (hb _ id hid)
      fun inside hinside => .pure <| by
        simpa using (hdeclared.append hsynced.composed).append hinside

include hb hid in
-- A number is taken, and its place is filled when the body has been generated.
theorem composes_deferBody (kind : HandlerKind) {nested : List Variable}
    (hnested : ∀ v ∈ nested, IsVariable x v.name) :
    Composes x (deferBody body id kind nested) fun _ => True := by
  intro s s' number hrun hs
  obtain ⟨number, s₁, hnumber, hrun⟩ := bind_run_eq_ok.mp hrun
  obtain ⟨code, s₂, hcode, hrun⟩ := bind_run_eq_ok.mp hrun
  obtain ⟨_, s₃, hfill, hrun⟩ := bind_run_eq_ok.mp hrun
  cases modifyGet_run_eq_ok.mp hnumber
  cases modify_run_eq_ok.mp hfill
  cases pure_run_eq_ok.mp hrun
  have hreserved : State.Composed x { s with deferred := s.deferred ++ [none] } :=
    ⟨hs.methods, List.forall_mem_append.mpr
      ⟨hs.deferred, List.forall_mem_singleton.mpr ⟨.skip, rfl⟩⟩⟩
  obtain ⟨hs₂, p, hp⟩ := composes_deferredCode hb hid kind hnested _ _ _ hcode hreserved
  refine ⟨⟨hs₂.methods, fun filled hfilled => ?_⟩, trivial⟩
  rcases List.mem_or_eq_of_mem_set hfilled with hold | rfl
  · exact hs₂.deferred filled hold
  · exact ⟨p, hp.symm⟩

include hx hb hid in
-- A fragment is handed over with the cell of the place.
theorem composes_attributeValue (handler : String) (kind : HandlerKind) {a : ResolvedAttribute}
    (ha : a ∈ (x.finding id).attributes) :
    Composes x (attributeValue x body scope handler kind a) fun op =>
      op.countsIn scope.pushCount = true := by
  unfold attributeValue
  split
  · exact (composes_literalValue a _).imp fun op hop => hop _
  · exact .pure rfl
  · exact (composes_expressionValue _ _ _).imp fun op hop => hop _
  · rename_i n hv
    have hn := ((hx.established id hid).named ha hv).1
    split
    · exact .bind (composes_deferBody hb (hx.wellFormed.child_mem_preorder hid hn) kind (by simp))
        fun number _ => .pure (by simp [Operand.countsIn])
    · exact .bind (composes_namedVariable n) fun _ _ => .pure rfl

include hx hb hid in
theorem composes_setters (handler : String) (kind : HandlerKind) :
    Composes x (setters x body scope (x.finding id) handler kind) fun lines =>
      ∀ line ∈ lines, line.isCalm scope.pushCount = true := by
  refine .mapM fun a ha => .bind (composes_attributeValue hx hb hid scope handler kind ha)
    fun op hop => ?_
  split <;> exact .pure (by simp [Line.isCalm, Statement.isCalm, Statement.operands, hop])

include hb hid in
theorem composes_bodySetter (handler : String) :
    Composes x (bodySetter x body scope id handler) fun lines =>
      ∀ line ∈ lines, line.isCalm scope.pushCount = true := by
  unfold bodySetter
  split
  · exact .bind (composes_deferBody hb hid .simple (isVariable_nested hid)) fun number _ =>
      .pure (by simp [Line.isCalm, Statement.isCalm, Statement.operands, Operand.countsIn])
  · exact .pure (by simp)

theorem Composed.acquired {e : Leave} {cell : String} {l : List Line} (className handler : String)
    (pool : Option String) (h : Composed x e cell l) :
    Composed x e cell (.plain (.acquire className handler pool) :: l) :=
  .cons rfl h

include hx hb hid in
theorem composes_simpleCode (data : CustomAction) (handler : String) :
    Composes x (simpleCode x body scope id data handler) (scope.Composed x) := by
  refine .bind (composes_namedValues hx hb hid scope) fun values hvalues =>
    .bind (composes_setters hx hb hid scope handler .simple) fun attrs hattrs =>
      .bind (composes_bodySetter hb hid scope handler) fun deferred hdeferred =>
        .bind (composes_syncVariables _) fun synced hsynced => .pure ?_
  have hparent : Composed x scope.leave scope.pushCount (scope.parent.toList.map fun parent =>
      Line.code (handler ++ ".setParent(" ++ parent.expr ++ ");")) := .of_calm <| by
    simp [Line.code, Line.isCalm, Statement.isCalm, Statement.operands]
  have hlines := fun t t₁ t₂ => Composed.acquired data.tag.handlerClass handler none <|
    (Composed.code t).append <| hparent.append <| (Composed.of_calm hattrs).append <|
      (Composed.of_calm hdeferred).append <| (Composed.code t₁).append <|
        hsynced.composed.append (.code t₂)
  simpa [Scope.Composed] using hvalues.append (hlines _ _ _)

-- A body that is not taken in place is pushed and popped around what is inside.
theorem Composed.buffered {e : Leave} {cell : String} {l : List Line} (buffers : Bool)
    (handler : String) (h : Composed x e cell l) :
    Composed x e cell (onlyIf buffers (pushLines handler cell) ++ l ++
      onlyIf buffers (popLines handler cell)) := by
  cases buffers with
  | false => simpa [onlyIf] using h
  | true =>
    obtain ⟨p, rfl⟩ := h
    exact ⟨.buffered handler p, rfl⟩

theorem Composed.repeated {e : Leave} {cell : String} {l again : List Line} (loops : Bool)
    (handler : String) (h : Composed x e cell l) (hagain : Composed x e cell again) :
    Composed x e cell (onlyIf loops [.block "do"] ++ l ++
      onlyIf loops (againLines handler again)) := by
  cases loops with
  | false => simpa [onlyIf] using h
  | true =>
    obtain ⟨p, hp⟩ := h.append ((Composed.code
      ("int " ++ handler ++ "_after = " ++ handler ++ ".doAfterBody();")).append hagain)
    exact ⟨.repeated handler p, by simp [Program.lines, hp, onlyIf, againLines]⟩

include hb hid in
theorem composes_classicBody (handler count : String) (c : Capabilities) :
    Composes x (classicBody x body scope id handler count c) fun code =>
      Composed x scope.leave count code.lines := by
  have hdeclares : Composes x (declareVariables (x.finding id).exposed.nested)
      (Composed x scope.leave count) := composes_declareVariables (isVariable_nested hid)
  refine .inBlock (.bind hdeclares fun declared hdeclared => .bind (composes_syncVariables _)
    fun synced hsynced => .bind (hb _ id hid) fun inside hinside =>
      .bind (composes_syncVariables _) fun again hagain => .pure ?_)
  have hloop := Composed.repeated (c.bodyBuffering || c.iteration) handler
    (hsynced.composed.append hinside) hagain.composed
  have hbody := fun head => Composed.block head
    (hdeclared.append (hloop.buffered c.bodyBuffering handler))
  simpa [evalOtherThan, Scope.Composed] using hbody _

-- A handler that recovers from failures has a region of its own, with its own cell.
theorem Composed.recovering {e : Leave} {cell : String} {l : List Line} (recovers : Bool)
    (handler : String) (h : Composed x e (if recovers then regionCell handler else cell) l) :
    Composed x e cell (onlyIf recovers
        [.code ("int[] " ++ regionCell handler ++ " = new int[] \x7b 0 \x7d;"), .block "try"] ++ l ++
      onlyIf recovers (recovery handler (regionCell handler))) := by
  cases recovers with
  | false => simpa [onlyIf] using h
  | true =>
    obtain ⟨p, rfl⟩ := h
    exact ⟨.region handler p, rfl⟩

-- A handler is released in any case.
theorem Composed.released {e : Leave} {cell : String} {l : List Line} (handler : String)
    (pool : Option String) (h : Composed x e cell l) :
    Composed x e cell (.block "try" :: l ++ releaseLines handler pool) := by
  have hreuse : Composed x e cell (pool.toList.flatMap fun pool =>
      [.plain (.reuse pool handler), .code (handler ++ "_reused = true;")]) := by
    cases pool with
    | none => exact .nil
    | some name => exact .cons rfl (.code _)
  obtain ⟨p, hp⟩ := h.append hreuse
  exact ⟨.ensured p (Names.runtime ++ ".releaseTag(" ++ handler ++ ", " ++ handler ++ "_reused);"),
    by simp [Program.lines, hp, releaseLines]⟩

include hx hb hid in
theorem composes_classicCode (data : CustomAction) (handler : String) :
    Composes x (classicCode x body scope id data handler) (scope.Composed x) := by
  have hinside : Composes x (if x.tree.hasContent id then classicBody x body scope id handler
        (if data.tag.capabilities.tryCatchFinally then handler ++ "_push_body_count"
          else scope.pushCount) data.tag.capabilities
      else pure []) fun code => Composed x scope.leave
        (if data.tag.capabilities.tryCatchFinally then regionCell handler else scope.pushCount)
          code.lines := by
    split
    · exact composes_classicBody hb hid scope handler _ _
    · exact .pure .nil
  refine .bind (composes_namedValues hx hb hid scope) fun values hvalues =>
    .bind (composes_addPool _) fun _ _ =>
      .bind (composes_setters hx hb hid scope handler .classic) fun attrs hattrs =>
        .bind (composes_syncVariables _) fun synced hsynced => .ite_bind hinside
          fun inside hinside => .bind (composes_syncVariables _) fun again hagain => .pure ?_
  -- From the start tag to the end tag; the page may be left behind the latter.
  have hlife := fun start head => (Composed.code start).append <| hsynced.composed.append <|
    hinside.append <| (Composed.block head .leave).append hagain.composed
  have hready := fun t u start head => (Composed.code t).append <| (Composed.code u).append <|
    (Composed.of_calm hattrs).append <| (hlife start head).recovering _ handler
  have hhandler := fun pool t u start head => (hready t u start head).released handler pool
  have hall := fun pool first t u start head => hvalues.append <|
    Composed.acquired data.tag.handlerClass handler pool <|
      (Composed.code first).append (hhandler pool t u start head)
  have hcells : ∀ holds : Bool, ∀ first : List Line,
      onlyIf holds (recovery handler (if holds then handler ++ "_push_body_count"
        else scope.pushCount)) = onlyIf holds (recovery handler (regionCell handler)) ∧
      onlyIf holds (.code ("int[] " ++ (if holds then handler ++ "_push_body_count"
        else scope.pushCount) ++ " = new int[] \x7b 0 \x7d;") :: first) =
        onlyIf holds (.code ("int[] " ++ regionCell handler ++ " = new int[] \x7b 0 \x7d;") ::
          first) := by
    intro holds first
    cases holds <;> exact ⟨rfl, rfl⟩
  simp only [(hcells _ []).1, (hcells _ _).2]
  simpa [Scope.Composed, acquireLines, startLine] using hall _ _ _ _ _ _

include hx hb hid in
theorem composes_inlineCode {data : CustomAction} (hk : x.tree.kind id = .custom data) :
    Composes x (inlineCode x body scope id data) (scope.Composed x) := by
  obtain ⟨handler, hhandler⟩ := hx.instanceId hid hk
  have hcode : Composes x (if data.tag.capabilities.simple then
      simpleCode x body scope id data handler else classicCode x body scope id data handler)
      (scope.Composed x) := by
    split
    · exact composes_simpleCode hx hb hid scope data handler
    · exact composes_classicCode hx hb hid scope data handler
  have hbegins : Composes x (declareVariables (x.finding id).exposed.atBegin)
      (Composed x scope.leave scope.pushCount) := composes_declareVariables (isVariable_atBegin hid)
  have hends : Composes x (declareVariables (x.finding id).exposed.atEnd)
      (Composed x scope.leave scope.pushCount) := composes_declareVariables (isVariable_atEnd hid)
  unfold inlineCode
  simp only [hhandler]
  refine .bind (composes_saveVariables ⟨hid, hk, hhandler⟩) fun saved hsaved =>
    .bind hbegins fun atBegin hbegin => .bind hends fun atEnd hend => .ite_bind hcode
      fun code hcode => .pure ?_
  obtain ⟨k, hsaves, hrestores⟩ := hsaved
  obtain ⟨p, hp⟩ := hbegin.append (hend.append hcode)
  refine ⟨.action k p, ?_⟩
  simp [Program.lines, hp, hsaves, hrestores]

include hx hb hid in
-- A method counts in the cell that it is called with.
theorem composes_splitCode {data : CustomAction} (hk : x.tree.kind id = .custom data)
    (handler : String) :
    Composes x (splitCode x body scope id data handler) (scope.Composed x) := by
  intro s s' code hrun hs
  obtain ⟨own, s₁, hown, hrun⟩ := bind_run_eq_ok.mp hrun
  obtain ⟨_, s₂, hmethod, hrun⟩ := bind_run_eq_ok.mp hrun
  cases modify_run_eq_ok.mp hmethod
  cases pure_run_eq_ok.mp hrun
  have hinline := composes_inlineCode hx hb hid ⟨scope.parent.map fun p => .parameter p.kind,
    .returnsTrue, Names.pushCount⟩ hk
  obtain ⟨hs₁, p, hp⟩ := hinline.inMethod s s₁ own hown hs
  refine ⟨⟨List.forall_mem_append.mpr ⟨hs₁.methods, List.forall_mem_singleton.mpr
    ⟨methodName handler, p, ?_⟩⟩, hs₁.deferred⟩,
      .call (methodName handler) ((scope.parent.map Handle.expr).getD "null"), rfl⟩
  simp [splitLines, hp]

include hx hb hid in
theorem composes_customCode {data : CustomAction} (hk : x.tree.kind id = .custom data) :
    Composes x (customCode x body scope id data) (scope.Composed x) := by
  have hinline := composes_inlineCode hx hb hid scope hk
  unfold customCode
  split
  · split
    · exact composes_splitCode hx hb hid scope hk _
    · exact hinline
  · exact hinline

include hx hb hid in
theorem composes_nodeCode : Composes x (nodeCode x body scope id) (scope.Composed x) := by
  have hcalm : ∀ {m : GenM Code}, Composes x m CalmCode → Composes x m (scope.Composed x) :=
    fun h => h.imp fun code hcode => hcode.composed scope
  have hself := hb scope id hid
  unfold nodeCode
  cases hk : x.tree.kind id with
  | root _ | xmlRoot | includeDirective | body | jspText => exact hself
  | pageDirective | taglibDirective | comment _ | param | params | fallback | output | named _ =>
    exact .pure scope.composed_nil
  | script kind script => exact hcalm (composes_scriptCode kind id)
  | insert data => exact hcalm (composes_insertCode _ data)
  | text run =>
    dsimp only
    split
    · exact .pure scope.composed_nil
    · exact hcalm (composes_textCode _ run)
  | useBean => exact composes_useBeanCode hx hb hid scope hk
  | setProperty => exact composes_setPropertyCode hx hb hid scope
  | getProperty => exact composes_getPropertyCode scope
  | forward => exact composes_forwardCode hx hb hid scope
  | includeAction => exact composes_includeCode hx hb hid scope
  | plugin => exact composes_pluginCode hx hb hid scope
  | element => exact composes_elementCode hx hb hid scope
  | custom data => exact composes_customCode hx hb hid scope hk
  | uninterpreted => exact composes_markupCode hb hid scope

end

namespace Annotated

variable (hx : Annotated x)
include hx

-- By induction on the fuel.
theorem composes_subtreeCode (fuel : Nat) (scope : Scope) {id : NodeId}
    (hid : id ∈ x.tree.preorder) :
    Composes x (subtreeCode x fuel scope id) (scope.Composed x) := by
  induction fuel generalizing scope id with
  | zero => exact .pure scope.composed_nil
  | succ fuel ih =>
    refine composes_nodeCode hx (fun scope n hn => ?_) hid scope
    exact .bind (.mapM fun c hc => ih scope (hx.wellFormed.child_mem_preorder hn hc))
      fun parts hparts => .pure (Scope.composed_flatten hparts)

-- All methods of a page are programs.
theorem composed_pageCode {s : State} {body : Code} (h : pageCode x {} = .ok (body, s)) :
    Composed x .returns Names.pushCount body.lines ∧ s.Composed x := by
  have hstart : State.Composed x {} := ⟨by simp, by simp⟩
  exact (hx.composes_subtreeCode _ serviceScope hx.wellFormed.root_mem_preorder _ _ _ h hstart).symm

end Annotated

end PageCompiler.ClassText
