import PageCompiler.Proofs.ClassText.Writing

namespace PageCompiler.ClassText

namespace Code

@[simp] theorem lines_nil : Code.lines [] = [] := rfl

@[simp] theorem lines_cons (s : Stretch) (c : Code) : Code.lines (s :: c) = s.lines ++ c.lines := rfl

@[simp] theorem lines_append (c d : Code) : (c ++ d).lines = c.lines ++ d.lines :=
  List.flatMap_append

theorem lines_flatten (parts : List Code) : Code.lines parts.flatten = parts.flatMap Code.lines := by
  induction parts with
  | nil => rfl
  | cons c parts ih => rw [List.flatten_cons, lines_append, ih, List.flatMap_cons]

end Code

@[simp] theorem Stretch.lines_forMark (mark : Mark) (lines : List Line) :
    (Stretch.forMark mark lines).lines = lines := rfl

@[simp] theorem Stretch.lines_plain (lines : List Line) : (Stretch.plain lines).lines = lines := rfl

-- The value a piece of a tag writes.
def Piece.value? : Piece → Option Operand
  | .write value => some value
  | _ => none

variable {x : Context} {e : Leave}

theorem values_pure (t : String) : Values x e (pure (.code t)) fun op => [op] := by
  intro s s' a p h
  cases pure_run_eq_ok.mp h
  exact .text t

theorem values_charArray (text : String) : Values x e (charArray text) fun op => [op] := by
  intro s s' a p h
  have hrun := modifyGet_run_eq_ok.mp h
  split at hrun
  · rename_i index hindex
    cases hrun
    exact .array (List.prefix_refl _) (List.findIdx?_eq_some_iff_findIdx_eq.mp hindex).1
  · cases hrun
    exact .array (List.prefix_append _ _) (by simp)

theorem functionField_run_eq_ok {calls : List FunctionUse} {s s' : State} {field : Option Nat}
    (h : functionField x calls s = .ok (field, s')) :
    ∃ maps, s.functionMaps.fieldFor x.checked.page.bindings calls = (field, maps) ∧
      s' = { s with functionMaps := maps } := by
  have hrun := modifyGet_run_eq_ok.mp h
  split at hrun
  rename_i field' maps hfield
  cases hrun
  exact ⟨maps, hfield, rfl⟩

theorem values_evaluate {source typeName : String} {calls : List FunctionUse}
    (hsource : Evaluated x source calls) :
    Values x e (evaluate x source calls typeName) fun op => [op] := by
  intro s s' a p h
  obtain ⟨field, s₁, hfield, h⟩ := bind_run_eq_ok.mp h
  obtain ⟨maps, hmaps, rfl⟩ := functionField_run_eq_ok hfield
  cases pure_run_eq_ok.mp h
  exact .evaluation hsource hmaps rfl

theorem prints_namedVariable (id : NodeId) : Prints x e (namedVariable id) 0 fun _ => [] := by
  refine .of_run fun h => ?_
  have hrun := modifyGet_run_eq_ok.mp h
  split at hrun
  cases hrun
  exact .temporaries _

section

variable {id : NodeId} (hid : id ∈ x.tree.preorder) {a : ResolvedAttribute}
  (ha : a ∈ (x.finding id).attributes)
include hid ha

theorem values_stringValue : Values x e (stringValue x a) fun op => [op] := by
  unfold stringValue
  split
  · exact values_pure _
  · exact values_pure _
  · rename_i hv
    exact values_evaluate (.inAttribute hid ha hv)
  · intro s s' op p h
    obtain ⟨name, s₁, hname, h⟩ := bind_run_eq_ok.mp h
    exact ((prints_namedVariable _).run hname).after (values_pure _ _ _ _ _ h)

theorem values_propertyValue : Values x e (propertyValue x a) fun op => [op] := by
  unfold propertyValue
  split
  · exact values_pure _
  · rename_i hv
    exact values_evaluate (.inAttribute hid ha hv)
  · exact values_stringValue hid ha

theorem values_attributePieces :
    Values x e (attributePieces x a) fun pieces => pieces.filterMap Piece.value? := by
  intro s s' pieces p h
  unfold attributePieces at h
  cases hv : a.value with
  | literal t | scripting t | named n =>
    simp only [hv] at h
    obtain ⟨value, s₁, hvalue, h⟩ := bind_run_eq_ok.mp h
    cases pure_run_eq_ok.mp hvalue
    cases pure_run_eq_ok.mp h
    simpa [List.filterMap_cons, Piece.value?] using Writes.nil
  | expression source parts dialect =>
    simp only [hv] at h
    split at h
    · obtain ⟨op, s₁, hop, h⟩ := bind_run_eq_ok.mp h
      obtain ⟨value, s₂, hvalue, h⟩ := bind_run_eq_ok.mp h
      cases pure_run_eq_ok.mp hvalue
      cases pure_run_eq_ok.mp h
      have hw := values_evaluate (e := e) (.inAttribute hid ha hv) s _ op p hop
      simpa [List.filterMap_cons, Piece.value?] using hw
    · obtain ⟨value, s₁, hvalue, h⟩ := bind_run_eq_ok.mp h
      cases pure_run_eq_ok.mp hvalue
      cases pure_run_eq_ok.mp h
      simpa [List.filterMap_cons, Piece.value?] using Writes.nil

end

theorem values_stringOf {id : NodeId} (hid : id ∈ x.tree.preorder) (name : String) :
    Values x e (stringOf x (x.finding id) name) fun op => [op] := by
  unfold stringOf
  split
  · rename_i a ha
    exact values_stringValue hid (List.mem_of_find?_eq_some ha)
  · exact values_pure _

theorem prints_writeChunk (chunk : List Char) :
    Prints x e (match x.options.literalStrategy with
      | .inline => pure (Line.plain (.write (.code (quote (String.ofList chunk)))))
      | .charArrays => do return .plain (.write (← charArray (String.ofList chunk)))) 0
      fun line => [line] := by
  split
  · exact prints_pure fun _ => .writeText _
  · refine .of_run fun h => ?_
    obtain ⟨op, s₁, hop, h⟩ := bind_run_eq_ok.mp h
    cases pure_run_eq_ok.mp h
    exact (values_charArray _ _ _ _ _ hop).after (.use rfl rfl)

theorem prints_writeLiteral (text : String) : Prints x e (writeLiteral x text) 0 id := by
  unfold writeLiteral
  split
  · exact prints_pure fun _ => .writeText _
  · refine .of_run fun {s s' lines p} h => ?_
    have hall := (Emits.mapM_prints fun chunk _ => prints_writeChunk chunk).run (e := e) (p := p) h
    simpa using hall

theorem prints_textCode (mark : Mark) (run : TextRun) :
    Prints x e (textCode x mark run) 0 Code.lines := by
  unfold textCode
  split
  · exact prints_pure fun _ => .nil
  · refine .of_run fun h => ?_
    obtain ⟨lines, s₁, hlines, h⟩ := bind_run_eq_ok.mp h
    cases pure_run_eq_ok.mp h
    simpa using (prints_writeLiteral _).run hlines

theorem prints_insertCode {id : NodeId} (hid : id ∈ x.tree.preorder) {data : Insert}
    (hk : x.tree.kind id = .insert data) (mark : Mark) :
    Prints x e (insertCode x mark data) 0 Code.lines := by
  unfold insertCode
  dsimp only
  split
  · refine .of_run fun h => ?_
    obtain ⟨lines, s₁, hlines, h⟩ := bind_run_eq_ok.mp h
    cases pure_run_eq_ok.mp h
    simpa using (prints_writeLiteral _).run hlines
  · rename_i hel
    refine .of_run fun h => ?_
    obtain ⟨op, s₁, hop, h⟩ := bind_run_eq_ok.mp h
    cases pure_run_eq_ok.mp h
    exact (values_evaluate (.inText hid hk (by simpa using hel)) _ _ _ _ hop).after (.use rfl rfl)

theorem writes_printCode {c : Point} (mark : Mark) (code : String) :
    Writes x e 0 c (printCode mark code).lines c := by
  have hinner : ∀ lines : List String,
      Writes x e 0 c (lines.map fun line => Line.inner (Text.trimmedEnd line)) c := by
    intro lines
    induction lines with
    | nil => exact .nil
    | cons line lines ih => exact .cons (.inner _) ih
  unfold printCode
  dsimp only
  split
  · simpa using ((Writes.code "out.print(").after (hinner _)).after (Writes.code ");")
  · exact .quiet rfl rfl

theorem prints_scriptCode {id : NodeId} (hid : id ∈ x.tree.preorder) {kind : ScriptKind}
    {script : Script} (hk : x.tree.kind id = .script kind script) :
    Prints x e (scriptCode x kind id) 0 Code.lines := by
  cases kind with
  | declaration =>
    simp only [scriptCode]
    refine .of_run fun h => ?_
    obtain ⟨_, s₁, hmodify, h⟩ := bind_run_eq_ok.mp h
    cases modify_run_eq_ok.mp hmodify
    cases pure_run_eq_ok.mp h
    exact .declaration _ _
  | expression =>
    simp only [scriptCode]
    exact prints_pure fun _ => writes_printCode _ _
  | scriptlet =>
    simp only [scriptCode]
    exact prints_pure fun _ => .scriptlet hid hk

-- Joining literals keeps the values.
theorem values_joinLiterals (pieces : List Piece) :
    (joinLiterals pieces).filterMap Piece.value? = pieces.filterMap Piece.value? := by
  fun_induction joinLiterals pieces with
  | case1 => rfl
  | case2 a rest b rest' hrest ih =>
    rw [hrest] at ih
    simpa [List.filterMap_cons, Piece.value?] using ih
  | case3 a rest hrest ih => simpa [List.filterMap_cons, Piece.value?] using ih
  | case4 p rest hp ih => rw [List.filterMap_cons, List.filterMap_cons, ih]

-- The values of the pieces are waiting, and are used up one after the other.
theorem writes_pieces {pieces : List Piece} {s s' : State} {r : List (List Line)}
    {p : Multiset Operand} (h : pieces.mapM (pieceLines x) s = .ok (r, s')) :
    Writes x e 0 ⟨s, pieces.filterMap Piece.value? + p⟩ r.flatten ⟨s', p⟩ := by
  induction pieces generalizing s r with
  | nil =>
    cases pure_run_eq_ok.mp h
    simpa using Writes.nil
  | cons piece pieces ih =>
    rw [List.mapM_cons] at h
    obtain ⟨lines, s₁, hlines, h⟩ := bind_run_eq_ok.mp h
    obtain ⟨rest, s₂, hrest, h⟩ := bind_run_eq_ok.mp h
    cases pure_run_eq_ok.mp h
    refine Writes.after ?_ (ih hrest)
    cases piece with
    | literal text => exact (prints_writeLiteral text).run hlines
    | write value =>
      cases pure_run_eq_ok.mp hlines
      have hvalue : (Piece.write value :: pieces).filterMap Piece.value? =
          value :: pieces.filterMap Piece.value? := rfl
      rw [hvalue, ← Multiset.cons_coe, Multiset.cons_add]
      exact .use rfl rfl
    | print code =>
      cases pure_run_eq_ok.mp hlines
      exact .quiet rfl rfl

section

variable {fuel : Nat} {V : NodeId → Multiset NodeId} {id : NodeId} (hx : Annotated x)
  (hb : ∀ scope n, InReach x fuel n →
    Prints x scope.leave (childrenCode x fuel scope n) (V n) Code.lines)
  (hid : InReach x fuel id) (scope : Scope)

include hb hid in
theorem prints_markupCode (hk : x.tree.kind id = .uninterpreted) :
    Prints x scope.leave (markupCode x (childrenCode x fuel) scope id)
      ((bodies x id).map V).sum Code.lines := by
  refine .of_run fun {s s' code p} h => ?_
  obtain ⟨attrs, s₁, hattrs, h⟩ := bind_run_eq_ok.mp h
  obtain ⟨head, s₂, hhead, h⟩ := bind_run_eq_ok.mp h
  have hpieces := Emits.mapM_values (e := scope.leave)
    (fun a ha => values_attributePieces hid.mem_preorder ha) _ _ _ p hattrs
  have hlines := writes_pieces (e := scope.leave) (p := p) hhead
  have hopening : Writes x scope.leave 0 ⟨s, p⟩ head.flatten ⟨s₂, p⟩ := by
    refine hpieces.after ?_
    rw [values_joinLiterals] at hlines
    simpa [List.filterMap_cons, Piece.value?, List.filterMap_flatten, List.flatMap_def] using hlines
  have hbodies : bodies x id = if (x.tree.children id).isEmpty then [] else [id] := by
    rw [bodies, hk]
  change (if (!(x.tree.children id).isEmpty) = true then _ else _ : GenM Code) s₂ = _ at h
  cases hempty : (x.tree.children id).isEmpty with
  | true =>
    rw [hempty] at h hbodies
    cases pure_run_eq_ok.mp h
    rw [hbodies]
    simpa using hopening
  | false =>
    rw [hempty] at h hbodies
    obtain ⟨inside, s₃, hinside, h⟩ := bind_run_eq_ok.mp h
    obtain ⟨tail, s₄, htail, h⟩ := bind_run_eq_ok.mp h
    cases pure_run_eq_ok.mp h
    have hin := (hb scope id hid).run (p := p) hinside
    rw [hbodies]
    simpa using hopening.after (hin.before ((prints_writeLiteral _).run htail))

-- What is split off in the body of an attribute that is evaluated into its variable, and in one
-- that is handed on as a fragment.
def valueNodes (V : NodeId → Multiset NodeId) (a : ResolvedAttribute) : Multiset NodeId :=
  match a.value with
  | .named n => if isFragment a then 0 else V n
  | _ => 0

def fragmentNodes (V : NodeId → Multiset NodeId) (a : ResolvedAttribute) : Multiset NodeId :=
  match a.value with
  | .named n => if isFragment a then V n else 0
  | _ => 0

-- Each element is one or the other.
theorem sum_named (f : Finding) :
    (f.named.map V).sum =
      (f.attributes.map (valueNodes V)).sum + (f.attributes.map (fragmentNodes V)).sum := by
  unfold Finding.named
  rw [← List.sum_map_add]
  induction f.attributes with
  | nil => rfl
  | cons a attrs ih =>
    rw [List.map_cons, List.sum_cons, ← ih, List.filterMap_cons]
    cases hv : a.value with
    | named n => cases hf : isFragment a <;> simp [AttributeValue.named?, valueNodes, fragmentNodes, hv, hf]
    | _ => simp [AttributeValue.named?, valueNodes, fragmentNodes, hv]

include hx hb hid in
theorem prints_namedValues :
    Prints x scope.leave (namedValues x (childrenCode x fuel) scope id)
      ((x.finding id).attributes.map (valueNodes V)).sum Code.lines := by
  refine .of_run fun {s s' code p} h => ?_
  obtain ⟨parts, s₁, hparts, h⟩ := bind_run_eq_ok.mp h
  cases pure_run_eq_ok.mp h
  rw [Code.lines_flatten]
  refine (Emits.mapM_prints fun a ha => ?_).run hparts
  unfold valueNodes
  cases hv : a.value with
  | named n =>
    have hn := (hx.established id hid.mem_preorder).named ha hv
    obtain ⟨data, hk⟩ := hn.2
    have hmem : InReach x fuel n := hx.inReach_child hid hn.1
    simp only [show x.tree.kind n = .named data from hk]
    split
    · exact prints_pure fun _ => .nil
    · refine .of_run fun {s s' code p} h => ?_
      obtain ⟨held, s₁, hheld, h⟩ := bind_run_eq_ok.mp h
      obtain ⟨inside, s₂, hinside, h⟩ := bind_run_eq_ok.mp h
      cases pure_run_eq_ok.mp h
      have hvariable := (prints_namedVariable (x := x) n).run (e := scope.leave) (p := p) hheld
      have hpush : Writes x scope.leave 0 ⟨s₁, p⟩ [.plain .pushBody] ⟨s₁, p⟩ := .quiet rfl rfl
      have hin := (hb scope n hmem).run (p := p) hinside
      have hpop : Writes x scope.leave 0 ⟨s', p⟩
          [.plain (.capture held data.trim), .plain .popBody] ⟨s', p⟩ :=
        .cons (.quiet rfl rfl) (.quiet rfl rfl)
      simpa using hvariable.after (hpush.after (hin.before hpop))
  | _ => exact prints_pure fun _ => .nil

include hx hb hid in
theorem prints_namedValues_of_standard (hk : ∀ data, x.tree.kind id ≠ .custom data) :
    Prints x scope.leave (namedValues x (childrenCode x fuel) scope id)
      ((x.finding id).named.map V).sum Code.lines := by
  have hvalues := prints_namedValues hx hb hid scope
  have hnone : (x.finding id).attributes.map (fragmentNodes V) =
      (x.finding id).attributes.map fun _ => 0 := by
    refine List.map_congr_left fun a ha => ?_
    unfold fragmentNodes
    rw [hx.isFragment_eq_false hid.mem_preorder hk ha]
    split <;> rfl
  rwa [sum_named, hnone, List.map_const', List.sum_replicate, nsmul_zero, add_zero]

theorem declareName_run_eq_ok {name : String} {s s' : State} {new : Bool}
    (h : declareName name s = .ok (new, s')) :
    (new = true ∧ s.isDeclared name = false ∧ s' = s.declare name) ∨
      (new = false ∧ s.isDeclared name = true ∧ s' = s) := by
  obtain ⟨known, s₁, hknown, h⟩ := bind_run_eq_ok.mp h
  obtain ⟨s₂, s₃, hget, hknown⟩ := bind_run_eq_ok.mp hknown
  cases hget
  have hknown := pure_run_eq_ok.mp hknown
  cases hknown
  cases hd : s.isDeclared name with
  | true =>
    simp only [show (s.declared.any fun block => block.contains name) = true from hd] at h
    cases pure_run_eq_ok.mp h
    exact .inr ⟨rfl, rfl, rfl⟩
  | false =>
    simp only [show (s.declared.any fun block => block.contains name) = false from hd] at h
    obtain ⟨_, s₁, hmodify, h⟩ := bind_run_eq_ok.mp h
    cases modify_run_eq_ok.mp hmodify
    cases pure_run_eq_ok.mp h
    refine .inl ⟨rfl, rfl, ?_⟩
    obtain ⟨_, _, _, _, _, _, _, declared⟩ := s
    cases declared <;> rfl

theorem inBlock_run_eq_ok {α : Type} {m : GenM α} {s s' : State} {a : α}
    (h : inBlock m s = .ok (a, s')) : ∃ s₁, m s.push = .ok (a, s₁) ∧ s' = s₁.pop := by
  obtain ⟨_, s₁, hpush, h⟩ := bind_run_eq_ok.mp h
  obtain ⟨b, s₂, hm, h⟩ := bind_run_eq_ok.mp h
  obtain ⟨_, s₃, hpop, h⟩ := bind_run_eq_ok.mp h
  cases modify_run_eq_ok.mp hpush
  cases modify_run_eq_ok.mp hpop
  cases pure_run_eq_ok.mp h
  exact ⟨s₂, hm, rfl⟩

theorem inMethod_run_eq_ok {α : Type} {m : GenM α} {s s' : State} {a : α}
    (h : inMethod m s = .ok (a, s')) :
    ∃ s₁, m { s with declared := [[]] } = .ok (a, s₁) ∧
      s' = { s₁ with declared := s.declared } := by
  obtain ⟨outer, s₁, hget, h⟩ := bind_run_eq_ok.mp h
  obtain ⟨_, s₂, hstart, h⟩ := bind_run_eq_ok.mp h
  obtain ⟨b, s₃, hm, h⟩ := bind_run_eq_ok.mp h
  obtain ⟨_, s₄, hend, h⟩ := bind_run_eq_ok.mp h
  cases hget
  cases modify_run_eq_ok.mp hstart
  cases modify_run_eq_ok.mp hend
  cases pure_run_eq_ok.mp h
  exact ⟨s₃, hm, rfl⟩

-- A declaration is written where the name is new.
theorem prints_declareName (typeName name : String) :
    Prints x e (declareName name) 0 fun new =>
      if new then [.plain (.declare typeName name)] else [] := by
  refine .of_run fun h => ?_
  obtain ⟨rfl, hnew, rfl⟩ | ⟨rfl, -, rfl⟩ := declareName_run_eq_ok h
  · exact .declare hnew
  · exact .nil

include hid in
-- How a bean is made is one statement, whose values are waiting for it.
theorem makeBean_run_eq_ok {name typeName : String} {s s' : State} {line : Line}
    (p : Multiset Operand) (h : makeBean x (x.finding id) name typeName s = .ok (line, s')) :
    ∃ st, line = .plain st ∧ st.isPlain = true ∧
      Writes x e 0 ⟨s, p⟩ [] ⟨s', st.operands + p⟩ := by
  have hcode : ∀ {t : String}, (pure (Line.code t) : GenM Line) s = .ok (line, s') →
      ∃ st, line = .plain st ∧ st.isPlain = true ∧
        Writes x e 0 ⟨s, p⟩ [] ⟨s', st.operands + p⟩ := by
    intro t h
    cases pure_run_eq_ok.mp h
    exact ⟨.code t, rfl, rfl, by simpa [Statement.operands] using Writes.nil⟩
  unfold makeBean at h
  cases hname : (x.finding id).attribute? "beanName" with
  | some a =>
    simp only [hname] at h
    obtain ⟨op, s₁, hop, h⟩ := bind_run_eq_ok.mp h
    cases pure_run_eq_ok.mp h
    exact ⟨_, rfl, rfl, values_stringValue hid.mem_preorder (List.mem_of_find?_eq_some hname) _ _ _ _ hop⟩
  | none =>
    cases hclass : literalOf (x.finding id) "class" with
    | some className =>
      simp only [hname, hclass] at h
      exact hcode h
    | none =>
      simp only [hname, hclass] at h
      exact hcode h

-- The bodies of the attributes and the content of an action.
theorem sum_bodies_content {named : List NodeId} :
    ((named ++ if x.tree.hasContent id then [id] else []).map V).sum =
      (named.map V).sum + if x.tree.hasContent id then V id else 0 := by
  cases x.tree.hasContent id <;> simp

include hx hb hid in
theorem prints_useBeanCode (hk : x.tree.kind id = .useBean) :
    Prints x scope.leave (useBeanCode x (childrenCode x fuel) scope id)
      ((bodies x id).map V).sum Code.lines := by
  refine .of_run fun {s s' code p} h => ?_
  obtain ⟨values, s₁, hvalues, h⟩ := bind_run_eq_ok.mp h
  obtain ⟨new, s₂, hnew, h⟩ := bind_run_eq_ok.mp h
  obtain ⟨made, s₃, hmade, h⟩ := bind_run_eq_ok.mp h
  obtain ⟨inside, s₄, hinside, h⟩ := ite_bind_run_eq_ok h
  cases pure_run_eq_ok.mp h
  have hvalues := (prints_namedValues_of_standard hx hb hid scope (by simp [hk])).run (p := p)
    hvalues
  have hdeclaration := (prints_declareName (x := x) (e := scope.leave)
    (((literalOf (x.finding id) "type").or (literalOf (x.finding id) "class")).getD
      "java.lang.Object") _).run (p := p) hnew
  obtain ⟨st, rfl, hst, hops⟩ := makeBean_run_eq_ok (e := scope.leave) hid p hmade
  have hbodies : bodies x id =
      (x.finding id).named ++ if x.tree.hasContent id then [id] else [] := by
    rw [bodies, hk]
  rw [hbodies, sum_bodies_content]
  -- The bean is made, and its body written, in a block inside of the one with the lock.
  have hmake : ∀ head t, Writes x scope.leave (if x.tree.hasContent id then V id else 0)
      ⟨s₃, st.operands + p⟩ (.block head :: ([.plain st, .code t] ++ inside.lines) ++ [.close])
      ⟨s', p⟩ ∧ s'.declared = s₃.declared := by
    intro head t
    have hstart : ∀ s, Writes x scope.leave 0 ⟨s, st.operands + p⟩ [.plain st, .code t] ⟨s, p⟩ :=
      fun s => .cons (.statement hst) (.code t)
    split at hinside
    · rename_i hcontent
      obtain ⟨s₅, hbody, rfl⟩ := inBlock_run_eq_ok hinside
      have hin := (hb scope id hid).run (p := p) hbody
      rw [if_pos hcontent]
      exact ⟨.frame head ((hstart _).after hin), hin.tail_declared⟩
    · rename_i hcontent
      cases pure_run_eq_ok.mp hinside
      rw [if_neg hcontent]
      exact ⟨.enclosed head ((hstart _).before .nil) rfl, rfl⟩
  have hlocked : ∀ lock first head t, Writes x scope.leave
      (if x.tree.hasContent id then V id else 0) ⟨s₃, st.operands + p⟩
      (.block lock :: .code first :: .block head :: .plain st :: .code t ::
        (inside.lines ++ [.close, .close])) ⟨s', p⟩ := by
    intro lock first head t
    obtain ⟨hmake, hsame⟩ := hmake head t
    simpa using Writes.enclosed lock ((Writes.code first).after hmake) hsame
  simpa using hvalues.append (hdeclaration.after (hops.after (hlocked _ _ _ _)))

include hx hb hid in
theorem prints_setPropertyCode (hk : x.tree.kind id = .setProperty) :
    Prints x scope.leave (setPropertyCode x (childrenCode x fuel) scope id)
      ((bodies x id).map V).sum Code.lines := by
  refine .of_run fun {s s' code p} h => ?_
  obtain ⟨values, s₁, hvalues, h⟩ := bind_run_eq_ok.mp h
  have hvalues := (prints_namedValues_of_standard hx hb hid scope (by simp [hk])).run (p := p)
    hvalues
  have hbodies : bodies x id = (x.finding id).named := by rw [bodies, hk]
  rw [hbodies]
  have hpure : ∀ {line : Line} {s : State}, (do
      let line ← pure line
      return values ++ [Stretch.forMark (x.tree.mark id) [line]] : GenM Code) s = .ok (code, s') →
      s' = s ∧ code.lines = values.lines ++ [line] := by
    intro line s h
    cases h
    exact ⟨rfl, by simp⟩
  dsimp only at h
  split at h
  · obtain ⟨rfl, hlines⟩ := hpure h
    rw [hlines]
    exact hvalues.before (.code _)
  · cases ha : (x.finding id).attribute? "value" with
    | some a =>
      simp only [ha] at h
      obtain ⟨op, s₂, hop, h⟩ := bind_run_eq_ok.mp h
      obtain ⟨rfl, hlines⟩ := hpure h
      have hvalue := values_propertyValue (e := scope.leave) hid.mem_preorder
        (List.mem_of_find?_eq_some ha) _ _ _ p hop
      rw [hlines]
      exact hvalues.before (hvalue.after (.use rfl rfl))
    | none =>
      simp only [ha] at h
      obtain ⟨rfl, hlines⟩ := hpure h
      rw [hlines]
      exact hvalues.before (.code _)

theorem prints_getPropertyCode : Prints x e (getPropertyCode x id) 0 Code.lines :=
  prints_pure fun _ => .code _

-- The parameters of an action, in groups or not: their values wait until the action uses them.
include hx hb hid in
theorem emits_paramCode (hk : x.tree.kind id = .param) :
    Emits x scope.leave (paramCode x (childrenCode x fuel) scope id)
      ((x.finding id).named.map V).sum (fun r => r.1.lines) Prod.snd := by
  intro s s' r p h
  obtain ⟨values, s₁, hvalues, h⟩ := bind_run_eq_ok.mp h
  obtain ⟨name, s₂, hname, h⟩ := bind_run_eq_ok.mp h
  obtain ⟨value, s₃, hvalue, h⟩ := bind_run_eq_ok.mp h
  cases pure_run_eq_ok.mp h
  have hvalues := (prints_namedValues_of_standard hx hb hid scope (by simp [hk])).run (p := p)
    hvalues
  have hname := values_stringOf (e := scope.leave) hid.mem_preorder "name" _ _ _ p hname
  have hvalue := values_stringOf (e := scope.leave) hid.mem_preorder "value" _ _ _ ([name] + p) hvalue
  rw [add_waiting] at hvalue
  simpa using hvalues.before (hname.after hvalue)

omit fuel in
theorem sum_map_flatMap {α : Type} (l : List α) (f : α → List NodeId) :
    ((l.flatMap f).map V).sum = (l.map fun a => ((f a).map V).sum).sum := by
  induction l with
  | nil => rfl
  | cons a l ih => rw [List.flatMap_cons, List.map_append, List.sum_append, ih]; rfl

include hx hb in
theorem emits_paramPart {depth : Nat} {child : NodeId} (hchild : InReach x fuel child)
    (hparams : Emits x scope.leave (paramsCode x (childrenCode x fuel) scope depth child)
      (((paramsOf x.tree depth child).flatMap fun p => (x.finding p).named).map V).sum
      (fun r => r.1.lines) Prod.snd) :
    Emits x scope.leave
      (match x.tree.kind child with
        | .param => paramCode x (childrenCode x fuel) scope child
        | .params => paramsCode x (childrenCode x fuel) scope depth child
        | _ => return ([], []))
      (((match x.tree.kind child with
        | .param => [child]
        | .params => paramsOf x.tree depth child
        | _ => []).flatMap fun p => (x.finding p).named).map V).sum
      (fun r => r.1.lines) Prod.snd := by
  split
  · rename_i hk
    simpa using emits_paramCode hx hb hchild scope hk
  · exact hparams
  · intro s s' r p h
    cases pure_run_eq_ok.mp h
    simpa using Writes.nil

-- Parameters in groups are found by going down from group to group.
include hx hb in
theorem emits_paramsCode (depth : Nat) {id : NodeId} (hid : InReach x fuel id) :
    Emits x scope.leave (paramsCode x (childrenCode x fuel) scope depth id)
      (((paramsOf x.tree depth id).flatMap fun p => (x.finding p).named).map V).sum
      (fun r => r.1.lines) Prod.snd := by
  induction depth generalizing id with
  | zero =>
    intro s s' r p h
    cases pure_run_eq_ok.mp h
    simpa [paramsOf] using Writes.nil
  | succ depth ih =>
    intro s s' r p h
    obtain ⟨parts, s₁, hparts, h⟩ := bind_run_eq_ok.mp h
    cases pure_run_eq_ok.mp h
    have hall := Emits.mapM (fun child hchild =>
      have hreach := hx.inReach_child hid hchild
      emits_paramPart hx hb scope hreach (ih hreach)) _ _ _ p hparts
    have hlines : Code.lines (parts.map Prod.fst).flatten = parts.flatMap fun r => r.1.lines := by
      rw [Code.lines_flatten, List.flatMap_map]
    rw [paramsOf, List.flatMap_assoc, sum_map_flatMap]
    beta_reduce
    rw [hlines]
    exact hall

include hx hb hid in
theorem prints_includeCode (hk : x.tree.kind id = .includeAction) :
    Prints x scope.leave (includeCode x (childrenCode x fuel) scope id)
      ((bodies x id).map V).sum Code.lines := by
  refine .of_run fun {s s' code p} h => ?_
  obtain ⟨values, s₁, hvalues, h⟩ := bind_run_eq_ok.mp h
  obtain ⟨⟨paramValues, params⟩, s₂, hparams, h⟩ := bind_run_eq_ok.mp h
  obtain ⟨page, s₃, hpage, h⟩ := bind_run_eq_ok.mp h
  cases pure_run_eq_ok.mp h
  have hvalues := (prints_namedValues_of_standard hx hb hid scope (by simp [hk])).run (p := p)
    hvalues
  have hparams := emits_paramsCode hx hb scope x.tree.size hid _ _ _ p hparams
  have hpage := values_stringOf (e := scope.leave) hid.mem_preorder "page" _ _ _ (params + p) hpage
  rw [add_waiting] at hpage
  have huse : Writes x scope.leave 0 ⟨s', (params ++ [page] : List Operand) + p⟩
      [.plain (.includePage page params (literalOf (x.finding id) "flush" == some "true"))]
      ⟨s', p⟩ := .usePerm rfl (List.perm_append_singleton _ _)
  rw [bodies, hk]
  simpa using hvalues.append (hparams.before (hpage.after huse))

include hx hb hid in
theorem prints_forwardCode (hk : x.tree.kind id = .forward) :
    Prints x scope.leave (forwardCode x (childrenCode x fuel) scope id)
      ((bodies x id).map V).sum Code.lines := by
  refine .of_run fun {s s' code p} h => ?_
  obtain ⟨values, s₁, hvalues, h⟩ := bind_run_eq_ok.mp h
  obtain ⟨⟨paramValues, params⟩, s₂, hparams, h⟩ := bind_run_eq_ok.mp h
  obtain ⟨page, s₃, hpage, h⟩ := bind_run_eq_ok.mp h
  cases pure_run_eq_ok.mp h
  have hvalues := (prints_namedValues_of_standard hx hb hid scope (by simp [hk])).run (p := p)
    hvalues
  have hparams := emits_paramsCode hx hb scope x.tree.size hid _ _ _ p hparams
  have hpage := values_stringOf (e := scope.leave) hid.mem_preorder "page" _ _ _ (params + p) hpage
  rw [add_waiting] at hpage
  have huse : Writes x scope.leave 0 ⟨s', (params ++ [page] : List Operand) + p⟩
      [.plain (.forwardPage page params), .plain (.leave scope.leave)] ⟨s', p⟩ :=
    .cons (.usePerm rfl (List.perm_append_singleton _ _)) .leave
  have hblock := Writes.enclosed "if (true)" huse rfl
  rw [bodies, hk]
  simpa using hvalues.append (hparams.before (hpage.after hblock))

include hx hb hid in
theorem prints_fallbackCode :
    Prints x scope.leave (fallbackCode x (childrenCode x fuel) scope id)
      ((((x.tree.children id).find? fun c => isFallback (x.tree.kind c)).toList).map V).sum
      Code.lines := by
  unfold fallbackCode
  split
  · rename_i hnone
    rw [hnone]
    exact prints_pure fun _ => .nil
  · rename_i c hc
    have hmem := hx.inReach_child hid (List.mem_of_find?_eq_some hc)
    refine .of_run fun {s s' code p} h => ?_
    obtain ⟨inside, s₁, hinside, h⟩ := bind_run_eq_ok.mp h
    cases pure_run_eq_ok.mp h
    have hin := (hb scope c hmem).run (p := p) hinside
    have hline : ∀ {c : Point} (method : String), Writes x scope.leave 0 c [pluginLine method] c :=
      fun _ => .code _
    rw [hc]
    simpa using (hline ".pluginFallbackStart").after (hin.before (hline ".pluginFallbackEnd"))

include hx hb hid in
theorem prints_pluginCode (hk : x.tree.kind id = .plugin) :
    Prints x scope.leave (pluginCode x (childrenCode x fuel) scope id)
      ((bodies x id).map V).sum Code.lines := by
  refine .of_run fun {s s' code p} h => ?_
  obtain ⟨values, s₁, hvalues, h⟩ := bind_run_eq_ok.mp h
  obtain ⟨⟨paramValues, params⟩, s₂, hparams, h⟩ := bind_run_eq_ok.mp h
  obtain ⟨extra, s₃, hextra, h⟩ := bind_run_eq_ok.mp h
  obtain ⟨kind, s₄, hkind, h⟩ := bind_run_eq_ok.mp h
  obtain ⟨className, s₅, hclass, h⟩ := bind_run_eq_ok.mp h
  obtain ⟨base, s₆, hbase, h⟩ := bind_run_eq_ok.mp h
  obtain ⟨fallback, s₇, hfallback, h⟩ := bind_run_eq_ok.mp h
  cases pure_run_eq_ok.mp h
  have hvalues := (prints_namedValues_of_standard hx hb hid scope (by simp [hk])).run (p := p)
    hvalues
  have hparams := emits_paramsCode hx hb scope x.tree.size hid _ _ _ p hparams
  have hattribute : ∀ a ∈ (x.finding id).attributes.filter fun a => !isPluginName a.name,
      Values x scope.leave (do return [.code (quote a.name), ← stringValue x a]) fun ops => ops := by
    intro a ha s s' ops p h
    obtain ⟨op, s₁, hop, h⟩ := bind_run_eq_ok.mp h
    cases pure_run_eq_ok.mp h
    have hname : Writes x scope.leave 0 ⟨s, p⟩ [] ⟨s, [Operand.code (quote a.name)] + p⟩ := .text _
    have hvalue := values_stringValue (e := scope.leave) hid.mem_preorder (List.mem_of_mem_filter ha) _ _ _
      ([Operand.code (quote a.name)] + p) hop
    rw [add_waiting] at hvalue
    exact hname.after hvalue
  have hextra := Emits.mapM_values hattribute _ _ _ (params + p) hextra
  beta_reduce at hextra
  rw [List.flatMap_id'] at hextra
  have hkind := values_stringOf (e := scope.leave) hid.mem_preorder "type" _ _ _
    (extra.flatten + (params + p)) hkind
  have hclass := values_stringOf (e := scope.leave) hid.mem_preorder "code" _ _ _
    ([kind] + (extra.flatten + (params + p))) hclass
  have hbase := values_stringOf (e := scope.leave) hid.mem_preorder "codebase" _ _ _
    ([className] + ([kind] + (extra.flatten + (params + p)))) hbase
  have hfallback := (prints_fallbackCode hx hb hid scope).run (p := p) hfallback
  have huse : Writes x scope.leave 0
      ⟨s₆, [base] + ([className] + ([kind] + (extra.flatten + (params + p))))⟩
      [.plain (.startPlugin kind className base extra.flatten params)] ⟨s₆, p⟩ := by
    simp only [add_waiting]
    refine .usePerm rfl (List.perm_iff_count.mpr fun op => ?_)
    simp only [Statement.operands, List.count_append, List.count_cons, List.count_nil]
    omega
  have hend : Writes x scope.leave 0 ⟨s', p⟩ [pluginLine ".pluginEnd"] ⟨s', p⟩ := .code _
  have hstart := hextra.after (hkind.after (hclass.after (hbase.after huse)))
  rw [bodies, hk]
  simpa [add_assoc] using
    hvalues.append (hparams.append (hstart.after (hfallback.before hend)))

include hid in
theorem prints_elementAttribute {a : ResolvedAttribute} (ha : a ∈ (x.finding id).attributes) :
    Prints x e (elementAttribute x a) 0 fun lines => lines := by
  refine .of_run fun {s s' lines p} h => ?_
  obtain ⟨op, s₁, hop, h⟩ := bind_run_eq_ok.mp h
  have hvalue := values_stringValue (e := e) hid.mem_preorder ha _ _ _ p hop
  have hwrite : ∀ t u, Writes x e 0 ⟨s₁, op ::ₘ p⟩
      [.plain (.write (.code t)), .plain (.writeEscaped op), .plain (.write (.code u))] ⟨s₁, p⟩ :=
    fun t u => .cons (.writeText t) (.cons (.use rfl rfl) (.writeText u))
  split at h
  · cases pure_run_eq_ok.mp h
    simpa using hvalue.after (.enclosed _ (hwrite _ _) rfl)
  · cases pure_run_eq_ok.mp h
    exact hvalue.after (hwrite _ _)

include hx hb hid in
theorem prints_elementCode (hk : x.tree.kind id = .element) :
    Prints x scope.leave (elementCode x (childrenCode x fuel) scope id)
      ((bodies x id).map V).sum Code.lines := by
  refine .of_run fun {s s' code p} h => ?_
  obtain ⟨values, s₁, hvalues, h⟩ := bind_run_eq_ok.mp h
  obtain ⟨name, s₂, hname, h⟩ := bind_run_eq_ok.mp h
  obtain ⟨element, s₃, helement, h⟩ := bind_run_eq_ok.mp h
  obtain ⟨attrs, s₄, hattrs, h⟩ := bind_run_eq_ok.mp h
  have hvalues := (prints_namedValues_of_standard hx hb hid scope (by simp [hk])).run (p := p)
    hvalues
  have hname := values_stringOf (e := scope.leave) hid.mem_preorder "name" _ _ _ p hname
  have hfresh : Writes x scope.leave 0 ⟨s₂, [name] + p⟩ [] ⟨s₃, [name] + p⟩ := by
    have hrun := modifyGet_run_eq_ok.mp helement
    split at hrun
    cases hrun
    exact .temporaries _
  have hstart : Writes x scope.leave 0 ⟨s₃, [name] + p⟩
      [.plain (.hold element name), .plain (.write (.code "'<'")),
        .plain (.write (.code element))] ⟨s₃, p⟩ :=
    .cons (.use rfl rfl) (.cons (.writeText _) (.writeText _))
  have hattrs := (Emits.mapM_prints fun a ha =>
    prints_elementAttribute (e := scope.leave) hid (List.mem_of_mem_filter ha)).run (p := p)
    hattrs
  rw [List.map_const', List.sum_replicate, nsmul_zero] at hattrs
  have hopening := hname.after (hfresh.after (hstart.after hattrs))
  have hbodies : bodies x id =
      (x.finding id).named ++ if x.tree.hasContent id then [id] else [] := by
    rw [bodies, hk]
  rw [hbodies, sum_bodies_content]
  split at h
  · rename_i hcontent
    obtain ⟨inside, s₅, hinside, h⟩ := bind_run_eq_ok.mp h
    cases pure_run_eq_ok.mp h
    have hin := (hb scope id hid).run (p := p) hinside
    have hend : Writes x scope.leave 0 ⟨s', p⟩ [.plain (.write (.code "\"</\"")),
        .plain (.write (.code element)), .plain (.write (.code "'>'"))] ⟨s', p⟩ :=
      .cons (.writeText _) (.cons (.writeText _) (.writeText _))
    rw [if_pos hcontent]
    simpa using hvalues.append
      (hopening.after ((Writes.writeText "'>'").after (hin.before hend)))
  · rename_i hcontent
    cases pure_run_eq_ok.mp h
    rw [if_neg hcontent]
    simpa using hvalues.append (hopening.before (Writes.writeText "\"/>\""))

end

end PageCompiler.ClassText
