import PageCompiler.Proofs.ClassText.Generation
import PageCompiler.Proofs.ClassText.MakingActions

namespace PageCompiler.ClassText

open Text

variable {x : Context}

-- Variables that are written without quotes.
def Named (vars : List Variable) : Prop := ∀ v ∈ vars, Unbroken v.name ∧ Unbroken v.className

theorem gives_declareVariables {vars : List Variable} (h : Tidy x → Named vars) :
    Gives x (declareVariables vars) Even := by
  refine .bind (.mapM (P := Even) fun v hv => .bind (gives_declareName _) fun new _ => ?_)
    fun parts hparts => .pure fun htidy => even_flatten.mpr (hparts htidy)
  split
  · refine .pure fun htidy => even_cons.mpr ⟨?_, even_nil⟩
    obtain ⟨hname, hclass⟩ := h htidy v (List.mem_filter.mp hv).1
    simp [Line.parts, Statement.parts, hname, hclass]
  · exact .pure fun _ => even_nil

theorem gives_syncVariables {vars : List Variable} (h : Tidy x → Named vars) :
    Gives x (syncVariables vars) Even := by
  refine .bind (.mapM (P := Even) fun v hv => .bind (gives_isDeclared _) fun known _ => ?_)
    fun parts hparts => .pure fun htidy => even_flatten.mpr (hparts htidy)
  split
  · refine .pure fun htidy => even_cons.mpr ⟨?_, even_nil⟩
    obtain ⟨hname, hclass⟩ := h htidy v hv
    simp [Line.parts, Statement.parts, hname, hclass]
  · exact .pure fun _ => even_nil

theorem gives_saveVariables {vars : ScopedVariables} (depth : Nat) (h : Tidy x → Named vars.all) :
    Gives x (saveVariables vars depth) fun r =>
      Even r.1 ∧ ∀ pair ∈ r.2, Unbroken pair.1 ∧ Unbroken pair.2 := by
  unfold saveVariables
  split
  · exact .pure fun _ => ⟨even_nil, by simp⟩
  refine .bind (.mapM (P := fun entries => ∀ entry ∈ entries, Even [entry.1] ∧
    Unbroken entry.2.1 ∧ Unbroken entry.2.2) fun v hv => .bind (gives_isDeclared _)
      fun known _ => ?_) fun saved hsaved => .pure fun htidy => ?_
  · split
    · refine .bind (gives_declareName _) fun new _ => .pure fun htidy => ?_
      obtain ⟨hname, hclass⟩ := h htidy v (List.mem_append_left _ hv)
      have hcopy : Unbroken (v.name ++ "_" ++ toString depth) :=
        .append (.append hname (.literal rfl)) (unbroken_toString depth)
      refine List.forall_mem_singleton.mpr ⟨even_cons.mpr ⟨?_, even_nil⟩, hname, hcopy⟩
      generalize v.name ++ "_" ++ toString depth = copy at hcopy ⊢
      cases new <;> simp [Line.parts, Statement.parts, hname, hclass, hcopy]
    · exact .pure fun _ => by simp
  · have hall : ∀ entry ∈ saved.flatten, Even [entry.1] ∧ Unbroken entry.2.1 ∧
        Unbroken entry.2.2 := fun entry hentry => by
      obtain ⟨entries, hentries, hentry⟩ := List.mem_flatten.mp hentry
      exact hsaved htidy entries hentries entry hentry
    refine ⟨fun line hline => ?_, fun pair hpair => ?_⟩
    · obtain ⟨entry, hentry, rfl⟩ := List.mem_map.mp hline
      exact (hall entry hentry).1 _ (List.mem_singleton_self _)
    · obtain ⟨entry, hentry, rfl⟩ := List.mem_map.mp hpair
      exact (hall entry hentry).2

section

variable {id : NodeId} (hid : id ∈ x.tree.preorder)
include hid

theorem named_of_subset {vars : List Variable} (h : vars ⊆ (x.finding id).exposed.all) :
    Tidy x → Named vars := fun htidy _ hv => htidy.variable hid (h hv)

theorem named_nested : Tidy x → Named (x.finding id).exposed.nested :=
  named_of_subset hid fun _ h => List.mem_append_left _ (List.mem_append_left _ h)

theorem named_atBegin : Tidy x → Named (x.finding id).exposed.atBegin :=
  named_of_subset hid fun _ h => List.mem_append_left _ (List.mem_append_right _ h)

theorem named_atEnd : Tidy x → Named (x.finding id).exposed.atEnd :=
  named_of_subset hid fun _ h => List.mem_append_right _ h

end

theorem Named.append {vars vars' : List Variable} (h : Tidy x → Named vars)
    (h' : Tidy x → Named vars') : Tidy x → Named (vars ++ vars') := fun htidy =>
  List.forall_mem_append.mpr ⟨h htidy, h' htidy⟩

theorem mem_fill {deferred more : List (Option Code)} {code : Code} {stretch : Stretch} :
    stretch ∈ ((deferred ++ [none] ++ more).set deferred.length (some code)).flatMap
        (fun code : Option Code => code.getD []) ↔
      stretch ∈ code ∨
        stretch ∈ (deferred ++ [none] ++ more).flatMap fun code : Option Code => code.getD [] := by
  simp [or_left_comm]

section

variable {body : BodyGen} {B : NodeId → Prop} {n id : NodeId} (hx : Annotated x)
  (hb : ∀ scope m, scope.Even → m ∈ x.tree.preorder →
    Makes x n (B m) [] (body scope m) (fun c => c) fun _ => True)
  (hid : id ∈ x.tree.preorder) {scope : Scope} (hscope : scope.Even)

include hb hid in
theorem makes_deferredCode (kind : HandlerKind) {nested : List Variable}
    (hnested : Tidy x → Named nested) :
    Makes x n (B id) [] (deferredCode body id kind nested) (fun c => c) fun _ => True := by
  have hscope : Scope.Even ⟨some (.parameter kind), .throws, Names.pushCount⟩ := by
    refine ⟨.literal rfl, ?_⟩
    rintro _ ⟨⟩
    exact Handle.unbroken_parameter kind
  refine .inMethod (.after (gives_declareVariables hnested) fun declared hdeclared =>
    .after (gives_syncVariables hnested) fun synced hsynced =>
      .before (hb _ id hscope hid) fun inside _ => .give [.plain (declared ++ synced)] ?_ ?_ False.elim
        fun _ => trivial)
  · simp [or_comm]
  · exact List.forall_mem_singleton.mpr
      (.plain fun htidy => even_append.mpr ⟨hdeclared htidy, hsynced htidy⟩)

include hb hid in
-- A number is taken, and its place is filled when the body has been generated.
theorem makes_deferBody (kind : HandlerKind) {nested : List Variable}
    (hnested : Tidy x → Named nested) :
    Makes x n (B id) [] (deferBody body id kind nested) (fun _ => []) fun _ => True := by
  intro s s' number hs h
  obtain ⟨number, s₁, hnumber, h⟩ := bind_run_eq_ok.mp h
  obtain ⟨code, s₂, hcode, h⟩ := bind_run_eq_ok.mp h
  obtain ⟨_, s₃, hfill, h⟩ := bind_run_eq_ok.mp h
  cases modifyGet_run_eq_ok.mp hnumber
  cases modify_run_eq_ok.mp hfill
  cases pure_run_eq_ok.mp h
  have hstart : State.Regular { s with deferred := s.deferred ++ [none] } :=
    ⟨hs.temporaries, hs.pools⟩
  obtain ⟨hmade, -⟩ := makes_deferredCode hb hid kind hnested _ _ _ hstart hcode
  have hregular := hmade.regular
  obtain ⟨more, hmore⟩ : s.deferred ++ [none] <+: s₂.deferred := hmade.deferred
  have hfilled : ∀ stretch, stretch ∈ State.stretches
        { s₂ with deferred := s₂.deferred.set s.deferred.length (some code) } ↔
      stretch ∈ code ++ s₂.stretches := by
    intro stretch
    simp only [State.stretches, ← hmore, List.mem_append, mem_fill]
    tauto
  have hreserved : State.stretches { s with deferred := s.deferred ++ [none] } = s.stretches := by
    simp [State.stretches]
  refine ⟨⟨⟨hregular.temporaries, hregular.pools⟩, ?_, fun stretch hmem => ?_, fun stretch hmem => ?_,
    fun hreached => ?_⟩, fun _ => trivial⟩
  · exact (List.prefix_append _ _).trans (prefix_set hmade.deferred)
  · exact (hfilled stretch).mpr (hmade.kept (hreserved ▸ hmem))
  · have hnew := hmade.made stretch ((hfilled stretch).mp hmem)
    rwa [hreserved] at hnew
  · exact (hmade.present hreached).mono fun stretch hmem => (hfilled stretch).mpr hmem

theorem gives_methodParameters {c : AttributeContract}
    (h : Tidy x → ∀ t ∈ c.types, Unbroken t) :
    Gives x (methodParameters c) fun types => ∀ t ∈ types, Unbroken t := by
  unfold methodParameters
  split
  · rename_i types htypes
    refine .pure fun htidy t ht => h htidy t (List.mem_cons_of_mem _ (List.mem_append_right _ ?_))
    rwa [htypes]
  · intro s s' types hs h
    cases h

theorem unbroken_returnType (c : AttributeContract) : Unbroken c.returnType := by
  unfold AttributeContract.returnType
  cases hr : c.methodSignature.bind Signature.returnType? with
  | none => exact .literal rfl
  | some t =>
    obtain ⟨signature, -, hsignature⟩ := Option.bind_eq_some_iff.mp hr
    exact unbroken_of_mem_wordsOf (List.mem_of_mem_head? hsignature)

section

variable {c : AttributeContract} (h : Tidy x → ∀ t ∈ c.types, Unbroken t)
include h

theorem unbroken_typeName : Tidy x → Unbroken c.typeName := fun htidy =>
  h htidy _ (List.mem_append_left _ (List.mem_cons_self ..))

theorem unbroken_valueType : Tidy x → Unbroken (c.deferredValueType.getD "java.lang.Object") := by
  intro htidy
  cases hv : c.deferredValueType with
  | none => exact .literal rfl
  | some t =>
    refine h htidy t (List.mem_append_left _ (List.mem_cons_of_mem _ ?_))
    simp [hv]

end

section

variable {contract : Option AttributeContract}
  (h : Tidy x → ∀ c ∈ contract, ∀ t ∈ c.types, Unbroken t)
include h

theorem gives_expressionValue (parts : Composite) (dialect : Dialect) :
    Gives x (expressionValue x contract parts dialect) Operand.Even := by
  have htype : ∀ {t : String}, Unbroken t → ∀ t' ∈ [t], Unbroken t' := fun ht =>
    List.forall_mem_singleton.mpr ht
  refine .bind (gives_functionField _) fun functions _ => ?_
  cases contract with
  | none =>
    dsimp only
    split
    · exact .pure fun _ => htype (.literal rfl)
    · exact .pure fun _ => htype (.literal rfl)
  | some c =>
    have hc : Tidy x → ∀ t ∈ c.types, Unbroken t := fun htidy => h htidy c rfl
    dsimp only
    split
    · refine .bind (gives_methodParameters hc) fun types htypes => .pure fun htidy => ?_
      exact List.forall_mem_cons.mpr ⟨unbroken_returnType c, htypes htidy⟩
    · split
      · exact .pure fun htidy => htype (unbroken_valueType hc htidy)
      · exact .pure fun htidy => htype (unbroken_typeName hc htidy)

end

theorem gives_literalValue {a : ResolvedAttribute} (value : String)
    (h : Tidy x → ∀ c ∈ a.contract, ∀ t ∈ c.types, Unbroken t) :
    Gives x (literalValue a value) Operand.Even := by
  unfold literalValue
  split
  · rename_i c hcontract
    have hc : Tidy x → ∀ t ∈ c.types, Unbroken t := fun htidy => h htidy c hcontract
    split
    · refine .bind (gives_methodParameters hc) fun types htypes => .pure fun htidy =>
        even_codeOperand.mpr ?_
      simp only [unbroken_append, unbroken_quote, unbroken_boxedType (unbroken_returnType c),
        unbroken_classArray (htypes htidy), and_true]
      and_intros
      all_goals exact .literal rfl
    · split
      · refine .pure fun htidy => even_codeOperand.mpr ?_
        simp only [unbroken_append, unbroken_quote, unbroken_boxedType (unbroken_valueType hc htidy),
          and_true]
        and_intros
        all_goals exact .literal rfl
      · refine .pure fun htidy => even_codeOperand.mpr ?_
        split
        · exact unbroken_quote value
        · exact unbroken_coerce value (unbroken_typeName hc htidy)
  · refine .pure fun _ => even_codeOperand.mpr ?_
    split
    · exact unbroken_quote value
    · exact unbroken_coerce value (.literal rfl)

section

variable {handler : String} (hhandler : Unbroken handler)
include hx hb hid hscope hhandler

-- Fragments are gone into here.
theorem makes_attributeValue (kind : HandlerKind) {a : ResolvedAttribute}
    (ha : a ∈ (x.finding id).attributes) :
    Makes x n (∃ m, a.value = .named m ∧ isFragment a = true ∧ B m) []
      (attributeValue x body scope handler kind a) (fun _ => []) Operand.Even := by
  have htypes : Tidy x → ∀ c ∈ a.contract, ∀ t ∈ c.types, Unbroken t := fun htidy c hc t ht =>
    htidy.types hid ha hc ht
  unfold attributeValue
  cases hv : a.value with
  | literal v => exact (Makes.of_gives (gives_literalValue v htypes)).weaken (by simp)
  | scripting code =>
    exact .give [] (by simp) (by simp) (by simp) fun htidy =>
      even_codeOperand.mpr (htidy.scripting hid ha hv)
  | expression source parts dialect =>
    exact (Makes.of_gives (gives_expressionValue htypes parts dialect)).weaken (by simp)
  | named m =>
    have hmem := hx.wellFormed.child_mem_preorder hid ((hx.established id hid).named ha hv).1
    dsimp only
    split
    · refine .weaken (.before (makes_deferBody hb hmem kind fun _ => by simp [Named])
        fun number _ => .give [] (by simp) (by simp) False.elim fun _ => ?_) ?_
      · simp [Operand.Even, Operand.parts, hhandler, hscope.pushCount]
      · rintro ⟨m', hm', -, hB⟩
        cases hm'
        exact hB
    · rename_i hf
      refine .weaken (.of_gives (.bind (gives_namedVariable m) fun name hname => .pure fun htidy =>
        even_codeOperand.mpr ?_)) (by rintro ⟨-, -, h, -⟩; exact hf h)
      have htype : Unbroken ((a.contract.map AttributeContract.typeName).getD
          "java.lang.Object") := by
        cases hc : a.contract with
        | none => exact .literal rfl
        | some c => exact unbroken_typeName (fun htidy => htypes htidy c hc) htidy
      split
      · exact hname htidy
      · exact unbroken_convert (hname htidy) htype

theorem makes_setter (kind : HandlerKind) {a : ResolvedAttribute}
    (ha : a ∈ (x.finding id).attributes) :
    Makes x n (∃ m, a.value = .named m ∧ isFragment a = true ∧ B m) []
      (do
        let value ← attributeValue x body scope handler kind a
        if a.dynamic then return Line.plain (.setDynamic handler a.qualifiedName value)
        else return Line.plain (.set handler (setterName a.name) value))
      (fun _ => []) fun line => ∀ t ∈ line.parts, Unbroken t := by
  refine .before (makes_attributeValue hx hb hid hscope hhandler kind ha) fun value hvalue => ?_
  split
  · exact .give [] (by simp) (by simp) False.elim fun htidy =>
      List.forall_mem_cons.mpr ⟨hhandler, hvalue htidy⟩
  · exact .give [] (by simp) (by simp) False.elim fun htidy =>
      List.forall_mem_cons.mpr ⟨hhandler, List.forall_mem_cons.mpr ⟨unbroken_setterName _,
        hvalue htidy⟩⟩

theorem makes_setters (kind : HandlerKind) :
    Makes x n
      (∃ a ∈ (x.finding id).attributes, ∃ m, a.value = .named m ∧ isFragment a = true ∧ B m) []
      (setters x body scope (x.finding id) handler kind) (fun _ => []) Even := by
  have hall := Makes.mapM
    (fun a ha => makes_setter hx hb hid hscope hhandler kind (a := a) ha) []
  simp only [List.nil_append, flatMap_none] at hall
  exact hall

omit hx in
theorem makes_bodySetter :
    Makes x n (x.tree.hasContent id = true ∧ B id) [] (bodySetter x body scope id handler)
      (fun _ => []) Even := by
  unfold bodySetter
  split
  · refine .weaken (.before (makes_deferBody hb hid .simple (named_nested hid)) fun number _ =>
      .give [] (by simp) (by simp) False.elim fun _ => even_cons.mpr ⟨?_, even_nil⟩) And.right
    simp [Line.parts, Statement.parts, Operand.parts, hhandler, hscope.pushCount]
  · rename_i hno
    exact .give [] (by simp) (by simp) (fun h => absurd h.1 hno) fun _ => even_nil

omit hx hb hid hscope hhandler in
-- The bodies that a custom action goes into: as values, as fragments, and its own.
theorem exists_mem_bodies_custom {data : CustomAction} (hk : x.tree.kind id = .custom data) :
    (∃ m ∈ bodies x id, B m) →
      (∃ a ∈ (x.finding id).attributes, ∃ m, a.value = .named m ∧ isFragment a = false ∧ B m) ∨
        (∃ a ∈ (x.finding id).attributes, ∃ m, a.value = .named m ∧ isFragment a = true ∧ B m) ∨
        (x.tree.hasContent id = true ∧ B id) := by
  rw [bodies, hk]
  dsimp only
  rw [exists_mem_content]
  rintro (⟨m, hm, hB⟩ | h)
  · obtain ⟨a, ha, hv⟩ := Finding.mem_named.mp hm
    cases hf : isFragment a with
    | false => exact .inl ⟨a, ha, m, hv, hf, hB⟩
    | true => exact .inr (.inl ⟨a, ha, m, hv, hf, hB⟩)
  · exact .inr (.inr h)

theorem makes_simpleCode {data : CustomAction} (hk : x.tree.kind id = .custom data) :
    Makes x n (∃ m ∈ bodies x id, B m) [] (simpleCode x body scope id data handler) (fun c => c)
      fun _ => True := by
  have hvalues := makes_namedValues hx hb hid hscope
  have hset := makes_setters hx hb hid hscope hhandler .simple
  have hbody := makes_bodySetter hb hid hscope hhandler
  refine .weaken (.bind hvalues fun values _ => .bind ((hset.frame values)) fun attrs hattrs =>
    .before (hbody.frame _) fun deferred hdeferred =>
      .after (gives_syncVariables (.append (named_atBegin hid) (named_atEnd hid)))
        fun synced hsynced => ?_) (exists_mem_bodies_custom hk)
  simp only [List.append_nil]
  refine makes_behind hid (by rw [hk]; rfl) fun htidy => even_flatten.mpr ?_
  have hparent : Even (scope.parent.toList.map fun parent =>
      Line.code (handler ++ ".setParent(" ++ parent.expr ++ ");")) := by
    intro line hline
    obtain ⟨parent, hparent, rfl⟩ := List.mem_map.mp hline
    have hexpr := hscope.parent parent (Option.mem_toList.mp hparent)
    exact List.forall_mem_singleton.mpr
      (.append (.append (.append hhandler (.literal rfl)) hexpr) (.literal rfl))
  have hacquire : Even [.plain (.acquire data.tag.handlerClass handler none)] :=
    even_cons.mpr ⟨by simp [Line.parts, Statement.parts, hhandler, htidy.handlerClass hid hk],
      even_nil⟩
  have hset : Even [.code (handler ++ ".setJspContext(" ++ Names.context ++ ");")] := by
    simp only [even_code, even_nil, unbroken_append, hhandler, and_true, true_and]
    and_intros
    all_goals exact .literal rfl
  have hdo : Even [.code (handler ++ ".doTag();")] :=
    even_code.mpr ⟨.append hhandler (.literal rfl), even_nil⟩
  have hrelease : Even [.code (Names.runtime ++ ".releaseTag(" ++ handler ++ ", false);")] := by
    simp only [even_code, even_nil, unbroken_append, hhandler, and_true]
    and_intros
    all_goals exact .literal rfl
  simp only [List.forall_mem_cons]
  exact ⟨even_append.mpr ⟨hacquire, hset⟩, hparent, hattrs htidy, hdeferred htidy, hdo,
    hsynced htidy, hrelease, by simp⟩

omit hx hb hid hscope in
theorem even_pushLines {count : String} (hcount : Unbroken count) :
    Even (pushLines handler count) := by
  unfold pushLines evalOtherThan
  simp only [even_cons, even_nil, Line.code, Line.block, Line.close, Line.parts, Statement.parts,
    Head.parts, List.forall_mem_singleton, unbroken_append, hhandler, hcount, and_true, true_and]
  and_intros
  all_goals first | exact .literal rfl | simp

omit hx hb hid hscope in
theorem even_popLines {count : String} (hcount : Unbroken count) :
    Even (popLines handler count) := by
  unfold popLines evalOtherThan
  simp only [even_cons, even_nil, Line.block, Line.close, Line.parts, Statement.parts,
    Head.parts, List.forall_mem_singleton, unbroken_append, hhandler, hcount, and_true, true_and]
  and_intros
  all_goals first | exact .literal rfl | simp

omit hx hb hid hscope in
theorem even_againLines {synced : List Line} (hsynced : Even synced) :
    Even (againLines handler synced) := by
  unfold againLines
  simp only [even_flatten, List.forall_mem_cons, even_cons, even_nil, hsynced, Line.code, Line.block,
    Line.close, Line.parts, Statement.parts, Head.parts, unbroken_append, hhandler, and_true,
    true_and]
  and_intros
  all_goals first | exact .literal rfl | simp

omit hx hb hid hscope in
theorem even_recovery {count : String} (hcount : Unbroken count) :
    Even (recovery handler count) := by
  unfold recovery
  simp only [even_cons, even_nil, Line.code, Line.block, Line.close, Line.parts, Statement.parts,
    Head.parts, List.forall_mem_singleton, unbroken_append, hhandler, hcount, and_true, true_and]
  and_intros
  all_goals first | exact .literal rfl | simp

omit hx hb hid in
theorem even_acquireLines {tag : Tag} {pool : Option String} (htag : Unbroken tag.handlerClass)
    (hpool : ∀ name ∈ pool, Unbroken name) : Even (acquireLines scope tag handler pool) := by
  have hparent : Unbroken ((scope.parent.map Handle.forClassic).getD "null") := by
    cases hp : scope.parent with
    | none => exact .literal rfl
    | some p => exact Handle.unbroken_forClassic (hscope.parent p hp)
  unfold acquireLines
  simp only [even_cons, even_nil, Line.code, Line.block, Line.parts, Statement.parts, Head.parts,
    List.forall_mem_cons, Option.mem_toList, unbroken_append, hhandler, htag, hparent, and_true,
    true_and]
  and_intros
  all_goals first | exact .literal rfl | exact hpool | simp

omit hx hb hid hscope in
theorem even_startLine (hasBody : Bool) : Even [startLine handler hasBody] := by
  have hresult : Unbroken (if hasBody then "int " ++ handler ++ "_eval = " else "") :=
    unbroken_ite (.append (.append (.literal rfl) hhandler) (.literal rfl)) (.literal rfl)
  exact even_code.mpr ⟨.append (.append hresult hhandler) (.literal rfl), even_nil⟩

omit hx hb hid hscope in
theorem even_releaseLines {pool : Option String} (hpool : ∀ name ∈ pool, Unbroken name) :
    Even (releaseLines handler pool) := by
  have hreuse : Even (pool.toList.flatMap fun pool =>
      [.plain (.reuse pool handler), .code (handler ++ "_reused = true;")]) := by
    intro line hline
    obtain ⟨name, hname, hline⟩ := List.mem_flatMap.mp hline
    refine (?_ : Even [.plain (.reuse name handler), .code (handler ++ "_reused = true;")]) line hline
    refine even_cons.mpr ⟨?_, even_code.mpr ⟨.append hhandler (.literal rfl), even_nil⟩⟩
    simp [Line.parts, Statement.parts, hhandler, hpool name (Option.mem_toList.mp hname)]
  have hrelease : Even [.turns "finally", .code (Names.runtime ++ ".releaseTag(" ++ handler ++ ", " ++
      handler ++ "_reused);"), .close] := by
    simp only [even_cons (l := .turns _), even_code, even_close, even_nil, unbroken_append,
      hhandler, and_true]
    and_intros
    all_goals first | exact .literal rfl | exact List.forall_mem_singleton.mpr (.literal rfl)
  refine even_flatten.mpr ?_
  simp only [List.forall_mem_cons]
  exact ⟨hreuse, hrelease, by simp⟩

omit hx hscope in
theorem makes_classicBody {count : String} (hcount : Unbroken count) (c : Capabilities)
    (hk : isContent (x.tree.kind id) = false) :
    Makes x n (B id) [] (classicBody x body scope id handler count c) (fun c => c)
      fun _ => True := by
  have hscope : Scope.Even ⟨some ⟨handler, .classic⟩, scope.leave, count⟩ := by
    refine ⟨hcount, ?_⟩
    rintro _ ⟨⟩
    exact hhandler
  have hvisible := Named.append (named_nested hid) (named_atBegin hid)
  refine .inBlock (.after (gives_declareVariables (named_nested hid)) fun declared hdeclared =>
    .after (gives_syncVariables hvisible) fun synced hsynced =>
      .before (hb _ id hscope hid) fun inside _ => .after (gives_syncVariables hvisible)
        fun again hagain => makes_around (f := []) hid hk (fun htidy => ?_) fun htidy => ?_)
  · have hskip : Even [evalOtherThan handler "SKIP_BODY"] := by
      unfold evalOtherThan
      simp only [even_block, even_nil, unbroken_append, hhandler, and_true]
      and_intros
      all_goals exact .literal rfl
    refine even_flatten.mpr ?_
    simp only [List.forall_mem_cons]
    exact ⟨hskip, hdeclared htidy, even_onlyIf (even_pushLines hhandler hcount),
      even_onlyIf (even_block.mpr ⟨.literal rfl, even_nil⟩), hsynced htidy, by simp⟩
  · refine even_flatten.mpr ?_
    simp only [List.forall_mem_cons]
    exact ⟨even_onlyIf (even_againLines hhandler (hagain htidy)),
      even_onlyIf (even_popLines hhandler hcount), even_close.mpr even_nil, by simp⟩

omit hx hb hid hscope hhandler in
theorem gives_addPool {pool : Option String} (hpool : ∀ name ∈ pool, Unbroken name) :
    Gives x (addPool pool) fun _ => True := by
  cases pool with
  | none => exact .pure fun _ => trivial
  | some name =>
    refine gives_modifyGet (fun s => ?_) fun _ _ => trivial
    dsimp only
    split
    · exact ⟨rfl, rfl, rfl, fun h => h⟩
    · exact ⟨rfl, rfl, rfl, fun h => ⟨h.temporaries, List.forall_mem_append.mpr
        ⟨h.pools, List.forall_mem_singleton.mpr (hpool name rfl)⟩⟩⟩

theorem makes_classicCode {data : CustomAction} (hk : x.tree.kind id = .custom data) :
    Makes x n (∃ m ∈ bodies x id, B m) [] (classicCode x body scope id data handler) (fun c => c)
      fun _ => True := by
  have hcontent : isContent (x.tree.kind id) = false := by rw [hk]; rfl
  have hvalues := makes_namedValues hx hb hid hscope
  have hset := makes_setters hx hb hid hscope hhandler .classic
  have hbody : ∀ {count : String}, Unbroken count → Makes x n (B id) []
      (classicBody x body scope id handler count data.tag.capabilities) (fun c => c)
      fun _ => True := fun hcount =>
    makes_classicBody hb hid hhandler hcount data.tag.capabilities hcontent
  have hatBegin := named_atBegin hid
  have hends := Named.append hatBegin (named_atEnd hid)
  unfold classicCode
  dsimp only
  have hpool : ∀ name ∈ (if x.options.poolTagHandlers then
      some (poolField data.space data.name
        ((x.finding id).attributes.map ResolvedAttribute.qualifiedName) (x.tree.hasContent id))
      else none), Unbroken name := by
    intro name hname
    split at hname
    · obtain rfl := Option.some.inj hname
      exact unbroken_poolField _ _ _ _
    · cases hname
  have hcount : Unbroken (if data.tag.capabilities.tryCatchFinally then
      handler ++ "_push_body_count" else scope.pushCount) :=
    unbroken_ite (.append hhandler (.literal rfl)) hscope.pushCount
  generalize (if x.options.poolTagHandlers then some (poolField data.space data.name
    ((x.finding id).attributes.map ResolvedAttribute.qualifiedName) (x.tree.hasContent id))
    else none) = pool at hpool ⊢
  generalize (if data.tag.capabilities.tryCatchFinally then
      handler ++ "_push_body_count" else scope.pushCount) = count at hcount ⊢
  refine .weaken (.bind hvalues fun values _ => .after (gives_addPool hpool) fun _ _ =>
    .bind (hset.frame values) fun attrs hattrs => .after (gives_syncVariables hatBegin)
      fun synced hsynced => .ite_bind ((hbody hcount).onlyIf _) fun inside _ =>
        .after (gives_syncVariables hends) fun again hagain => ?_) fun h =>
          (exists_mem_bodies_custom hk h).imp_right (.imp_right (.inl (b := False)))
  rw [List.append_nil]
  refine makes_around hid hcontent (fun htidy => even_flatten.mpr ?_) fun htidy =>
    even_flatten.mpr ?_
  · have htry : Even [.code ("int[] " ++ count ++ " = new int[] \x7b 0 \x7d;"), .block "try"] :=
      even_code.mpr ⟨.append (.append (.literal rfl) hcount) (.literal rfl),
        even_block.mpr ⟨.literal rfl, even_nil⟩⟩
    simp only [List.forall_mem_cons]
    exact ⟨even_acquireLines hscope hhandler (htidy.handlerClass hid hk) hpool, hattrs htidy,
      even_onlyIf htry, even_startLine hhandler _, hsynced htidy, by simp⟩
  · have hend : Even [.block ("if (" ++ handler ++ ".doEndTag() == " ++ Names.tag ++
        ".SKIP_PAGE)"), .plain (.leave scope.leave), .close] := by
      simp only [even_block, even_cons (l := .plain (.leave _)), even_close, even_nil,
        unbroken_append, hhandler, and_true]
      and_intros
      all_goals first | exact .literal rfl | simp [Line.parts, Statement.parts]
    simp only [List.forall_mem_cons]
    exact ⟨hend, hagain htidy, even_onlyIf (even_recovery hhandler hcount),
      even_releaseLines hhandler hpool, by simp⟩

end

include hx hb hid hscope in
theorem makes_inlineCode {data : CustomAction} (hk : x.tree.kind id = .custom data) :
    Makes x n (∃ m ∈ bodies x id, B m) [] (inlineCode x body scope id data) (fun c => c)
      fun _ => True := by
  obtain ⟨handler, hhandler⟩ := hx.instanceId hid hk
  have hunbroken := hx.unbroken_handler hid hk hhandler
  have hsimple := makes_simpleCode hx hb hid hscope hunbroken hk
  have hclassic := makes_classicCode hx hb hid hscope hunbroken hk
  have hcode : Makes x n (∃ m ∈ bodies x id, B m) []
      (if data.tag.capabilities.simple then simpleCode x body scope id data handler
        else classicCode x body scope id data handler) (fun c => c) fun _ => True := by
    split
    · exact hsimple
    · exact hclassic
  unfold inlineCode
  simp only [hhandler]
  refine .weaken (.after (gives_saveVariables _ fun htidy => fun v hv => htidy.variable hid hv)
    fun saved hsaved => .after (gives_declareVariables (named_atBegin hid)) fun atBegin hbegin =>
      .after (gives_declareVariables (named_atEnd hid)) fun atEnd hend =>
        .ite_bind hcode fun code _ => .give [.plain (saved.1 ++ atBegin ++ atEnd),
          .forMark (x.tree.mark id) (saved.2.map fun pair => .plain (.restore pair.1 pair.2))]
          ?_ ?_ False.elim fun _ => trivial) .inl
  · simp [or_left_comm, or_comm]
  · simp only [List.forall_mem_cons]
    refine ⟨.plain fun htidy => ?_, .forMark hid (by rw [hk]; rfl) fun htidy => ?_, by simp⟩
    · exact even_append.mpr ⟨even_append.mpr ⟨(hsaved htidy).1, hbegin htidy⟩, hend htidy⟩
    · intro line hline
      obtain ⟨pair, hpair, rfl⟩ := List.mem_map.mp hline
      obtain ⟨hname, hcopy⟩ := (hsaved htidy).2 pair hpair
      simp [Line.parts, Statement.parts, hname, hcopy]

theorem unbroken_methodName {handler : String} (h : Unbroken handler) :
    Unbroken (methodName handler) := by
  unfold methodName
  split
  · rename_i before after hcut
    have hhandler := eq_of_cutAt? hcut
    have hnot : '\n' ∉ handler.toList := h
    rw [hhandler] at hnot
    simp only [List.mem_append, not_or] at hnot
    refine unbroken_ofList.mpr ?_
    simp only [List.mem_append, not_or]
    exact ⟨⟨hnot.1.1, (.literal rfl : Unbroken "_pagex_meth_")⟩, hnot.2⟩
  · exact h

theorem makes_addMethod {code : Code} {head tail : List Line} (hhead : Even head)
    (htail : Even tail) :
    Makes x n False code (modify fun s => { s with
      methods := s.methods ++ [Stretch.plain head :: code ++ [Stretch.plain tail]] } : GenM Unit)
      (fun _ => []) fun _ => True := by
  refine .modify [.plain head, .plain tail] (fun s hs => ⟨hs.temporaries, hs.pools⟩) (fun s => rfl)
    (fun s stretch => ?_) ?_ False.elim
  · simp only [State.stretches, List.flatten_append, List.flatten_singleton, List.mem_append,
      List.mem_cons, List.not_mem_nil, false_or, or_assoc, or_comm, or_left_comm]
  · simp only [List.forall_mem_cons]
    exact ⟨.plain fun _ => hhead, .plain fun _ => htail, by simp⟩

include hx hb hid hscope in
-- The statements of an action move into a method, and a call of it stays.
theorem makes_splitCode {data : CustomAction} (hk : x.tree.kind id = .custom data)
    {handler : String} (hhandler : Unbroken handler) :
    Makes x n (∃ m ∈ bodies x id, B m) [] (splitCode x body scope id data handler) (fun c => c)
      fun _ => True := by
  have hinner : Scope.Even ⟨scope.parent.map fun p => .parameter p.kind, .returnsTrue,
      Names.pushCount⟩ := by
    refine ⟨.literal rfl, fun p hp => ?_⟩
    obtain ⟨outer, -, rfl⟩ := Option.mem_map.mp hp
    exact Handle.unbroken_parameter outer.kind
  have hmethod := unbroken_methodName hhandler
  have hcode := makes_inlineCode hx hb hid hinner hk
  unfold splitCode
  dsimp only
  generalize methodName handler = method at hmethod ⊢
  refine .before hcode.inMethod fun code _ => .before (makes_addMethod ?_ ?_) fun _ _ =>
    makes_behind (f := []) hid (by rw [hk]; rfl) fun htidy => ?_
  · refine even_cons.mpr ⟨List.forall_mem_singleton.mpr (.literal rfl), even_cons.mpr
      ⟨List.forall_mem_singleton.mpr hmethod, even_code.mpr ⟨?_, even_nil⟩⟩⟩
    exact .append (.append (.append (.literal rfl) (.literal rfl)) (.literal rfl)) (.literal rfl)
  · exact even_code.mpr ⟨.literal rfl, even_close.mpr even_nil⟩
  · have hparent : Unbroken ((scope.parent.map Handle.expr).getD "null") := by
      cases hp : scope.parent with
      | none => exact .literal rfl
      | some p => exact hscope.parent p hp
    refine even_cons.mpr ⟨?_, even_cons.mpr ⟨?_, even_close.mpr even_nil⟩⟩
    · simp [Line.parts, Head.parts, hmethod, hparent, hscope.pushCount]
    · simp [Line.parts, Statement.parts]

include hx hb hid hscope in
theorem makes_customCode {data : CustomAction} (hk : x.tree.kind id = .custom data) :
    Makes x n (∃ m ∈ bodies x id, B m) [] (customCode x body scope id data) (fun c => c)
      fun _ => True := by
  have hinline := makes_inlineCode hx hb hid hscope hk
  unfold customCode
  split
  · rename_i handler hhandler
    split
    · exact makes_splitCode hx hb hid hscope hk (hx.unbroken_handler hid hk hhandler)
    · exact hinline
  · exact hinline

include hx hb hid hscope in
-- What a node says, it says in a stretch of its own; everything else it leaves to the bodies that
-- it goes into.
theorem makes_nodeCode :
    Makes x n ((n = id ∧ Speaks x id) ∨ ∃ m ∈ bodies x id, B m) [] (nodeCode x body scope id)
      (fun c => c) fun _ => True := by
  have haction : ∀ {m : GenM Code}, ¬Speaks x id →
      Makes x n (∃ m ∈ bodies x id, B m) [] m (fun c => c) (fun _ => True) →
      Makes x n ((n = id ∧ Speaks x id) ∨ ∃ m ∈ bodies x id, B m) [] m (fun c => c)
        fun _ => True := fun hs hm => hm.weaken fun h => h.resolve_left fun h => hs h.2
  have hcontent : ∀ {m : GenM Code}, bodies x id = [] →
      Makes x n (n = id ∧ Speaks x id) [] m (fun c => c) (fun _ => True) →
      Makes x n ((n = id ∧ Speaks x id) ∨ ∃ m ∈ bodies x id, B m) [] m (fun c => c)
        fun _ => True := fun hnone hm => hm.weaken (by simp [hnone])
  have hself := hb scope id hscope hid
  unfold nodeCode
  cases hk : x.tree.kind id with
  | root _ | xmlRoot | includeDirective | body | jspText =>
    refine haction (by simp [Speaks, hk]) ?_
    simpa [bodies, hk] using hself
  | pageDirective | taglibDirective | comment _ | param | params | fallback | output | named _ =>
    exact haction (by simp [Speaks, hk]) (.give [] (by simp) (by simp) (by simp [bodies, hk])
      fun _ => trivial)
  | script kind script => exact hcontent (by simp [bodies, hk]) (makes_scriptCode hid hk)
  | insert data =>
    exact hcontent (by simp [bodies, hk]) ((makes_insertCode hid hk).weaken And.left)
  | text run =>
    refine hcontent (by simp [bodies, hk]) ?_
    dsimp only
    split
    · rename_i hblank
      exact .give [] (by simp) (by simp) (by simp [Speaks, hk, hblank]) fun _ => trivial
    · exact makes_textCode hid hk
  | useBean =>
    exact haction (by simp [Speaks, hk]) (makes_useBeanCode hx hb hid hscope hk)
  | setProperty =>
    exact haction (by simp [Speaks, hk]) (makes_setPropertyCode hx hb hid hscope hk)
  | getProperty =>
    exact haction (by simp [Speaks, hk]) ((makes_getPropertyCode hid hk).weaken
      (by simp [bodies, hk]))
  | forward => exact haction (by simp [Speaks, hk]) (makes_forwardCode hx hb hid hscope hk)
  | includeAction => exact haction (by simp [Speaks, hk]) (makes_includeCode hx hb hid hscope hk)
  | plugin => exact haction (by simp [Speaks, hk]) (makes_pluginCode hx hb hid hscope hk)
  | element => exact haction (by simp [Speaks, hk]) (makes_elementCode hx hb hid hscope hk)
  | custom data => exact haction (by simp [Speaks, hk]) (makes_customCode hx hb hid hscope hk)
  | uninterpreted => exact haction (by simp [Speaks, hk]) (makes_markupCode hb hid hscope hk)

end

-- By induction on the fuel. What can be reached with the fuel left is presented.
theorem Annotated.makes_subtreeCode (hx : Annotated x) {n : NodeId} (fuel : Nat) {scope : Scope}
    (hscope : scope.Even) {id : NodeId} (hid : id ∈ x.tree.preorder) :
    Makes x n (x.tree.size ≤ id + fuel ∧ Relation.ReflTransGen (Leads x) id n ∧ Speaks x n) []
      (subtreeCode x fuel scope id) (fun c => c) fun _ => True := by
  induction fuel generalizing scope id with
  | zero =>
    have hlt := hx.wellFormed.lt_size_of_mem_preorder hid
    exact .give [] (by simp) (by simp) (by omega) fun _ => trivial
  | succ fuel ih =>
    refine .weaken (makes_nodeCode (B := fun m => ∃ c ∈ x.tree.children m, x.tree.size ≤ c + fuel ∧
      Relation.ReflTransGen (Leads x) c n ∧ Speaks x n) hx (fun scope m hscope hm => ?_) hid hscope) ?_
    · refine .before (.mapM (o := fun c => c) (P := fun _ => True) (fun c hc =>
        ih hscope (hx.wellFormed.child_mem_preorder hm hc)) []) fun parts _ =>
          .give [] (by simp) (by simp) False.elim fun _ => trivial
    · rintro ⟨hsize, hway, hspeaks⟩
      rcases Relation.ReflTransGen.cases_head hway with rfl | ⟨c, hc, hway⟩
      · exact .inl ⟨rfl, hspeaks⟩
      · obtain ⟨-, hlt⟩ := hx.leads hid hc
        obtain ⟨host, hhost, hchild⟩ := hc
        exact .inr ⟨host, hhost, c, hchild, by omega, hway, hspeaks⟩

-- What the generator has made when it is done, for the service method and for the class.
theorem Annotated.made_pageCode (hx : Annotated x) (n : NodeId) {s : State} {body : Code}
    (h : pageCode x {} = .ok (body, s)) :
    Made x n (Visits x n ∧ Speaks x n) [] {} body s := by
  have hroot := hx.wellFormed.root_mem_preorder
  have hscope : serviceScope.Even := by
    refine ⟨.literal rfl, ?_⟩
    rintro _ ⟨⟩
  have hstart : State.Regular {} := ⟨by simp, by simp⟩
  have hmakes := hx.makes_subtreeCode (n := n) (x.tree.size + 1) hscope hroot
  exact (hmakes _ _ _ hstart h).1.weaken fun ⟨hvisits, hspeaks⟩ => ⟨by omega, hvisits, hspeaks⟩

end PageCompiler.ClassText
