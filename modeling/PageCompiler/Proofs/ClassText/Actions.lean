import PageCompiler.Proofs.Checking.Contracts
import PageCompiler.Proofs.ClassText.Written

namespace PageCompiler.ClassText

variable {x : Context} {e : Leave}

theorem isDeclared_run_eq_ok {name : String} {s s' : State} {known : Bool}
    (h : isDeclared name s = .ok (known, s')) : known = s.isDeclared name ∧ s' = s := by
  obtain ⟨s₁, s₂, hget, h⟩ := bind_run_eq_ok.mp h
  cases hget
  cases pure_run_eq_ok.mp h
  exact ⟨rfl, rfl⟩

theorem prints_declareVariables (vars : List Variable) :
    Prints x e (declareVariables vars) 0 fun lines => lines := by
  have hvariable : ∀ v ∈ vars.filter Variable.declare, Prints x e (do
      if ← declareName v.name then return [Line.plain (.declare v.className v.name)]
      else return []) 0 fun lines => lines := by
    intro v _
    refine .of_run fun {s s' lines p} h => ?_
    obtain ⟨new, s₁, hnew, h⟩ := bind_run_eq_ok.mp h
    have hline := (prints_declareName (x := x) (e := e) v.className v.name).run (p := p)
      hnew
    cases new with
    | true =>
      cases pure_run_eq_ok.mp h
      exact hline
    | false =>
      cases pure_run_eq_ok.mp h
      exact hline
  refine .of_run fun {s s' lines p} h => ?_
  obtain ⟨parts, s₁, hparts, h⟩ := bind_run_eq_ok.mp h
  cases pure_run_eq_ok.mp h
  have hall := (Emits.mapM_prints hvariable).run (p := p) hparts
  simpa using hall

theorem syncs_of_mapM {vars : List Variable} {s s' : State} {parts : List (List Line)}
    (h : (vars.mapM fun v => do
      if ← isDeclared v.name then return [Line.plain (.sync v.className v.name)] else return [] :
      GenM (List (List Line))) s = .ok (parts, s')) :
    s' = s ∧ ∀ p, Writes x e 0 ⟨s, p⟩ parts.flatten ⟨s, p⟩ := by
  induction vars generalizing parts with
  | nil =>
    cases pure_run_eq_ok.mp h
    exact ⟨rfl, fun p => .nil⟩
  | cons v vars ih =>
    rw [List.mapM_cons] at h
    obtain ⟨line, s₁, hline, h⟩ := bind_run_eq_ok.mp h
    obtain ⟨rest, s₂, hrest, h⟩ := bind_run_eq_ok.mp h
    cases pure_run_eq_ok.mp h
    obtain ⟨known, s₂, hknown, hline⟩ := bind_run_eq_ok.mp hline
    obtain ⟨rfl, rfl⟩ := isDeclared_run_eq_ok hknown
    cases hd : s₂.isDeclared v.name with
    | true =>
      rw [hd] at hline
      cases pure_run_eq_ok.mp hline
      obtain ⟨rfl, hrest⟩ := ih hrest
      exact ⟨rfl, fun p => (Writes.sync hd).after (hrest p)⟩
    | false =>
      rw [hd] at hline
      cases pure_run_eq_ok.mp hline
      obtain ⟨hsame, hrest⟩ := ih hrest
      exact ⟨hsame, hrest⟩

-- Only what is declared is fetched, and nothing changes by that.
theorem syncVariables_run_eq_ok {vars : List Variable} {s s' : State} {lines : List Line}
    (h : syncVariables vars s = .ok (lines, s')) :
    s' = s ∧ ∀ p, Writes x e 0 ⟨s, p⟩ lines ⟨s, p⟩ := by
  obtain ⟨parts, s₁, hparts, h⟩ := bind_run_eq_ok.mp h
  cases pure_run_eq_ok.mp h
  exact syncs_of_mapM hparts

-- By induction on the variables: each is saved in the state that those before it have left.
theorem saves_of_mapM {depth : Nat} {vars : List Variable} {s s' : State}
    {saved : List (List (Line × (String × String)))}
    (h : (vars.mapM fun v => do
      if ← isDeclared v.name then
        let copy := v.name ++ "_" ++ toString depth
        let newOf := if ← declareName copy then some v.className else none
        return [(Line.plain (.save newOf copy v.name), (v.name, copy))]
      else return [] : GenM (List (List (Line × (String × String))))) s = .ok (saved, s')) :
    ∃ entries, saved.flatten = entries.map (fun entry : Option String × String =>
        (Line.plain (.save entry.1 (copyName depth entry.2) entry.2),
          (entry.2, copyName depth entry.2))) ∧
      Saves depth s entries s' := by
  induction vars generalizing s saved with
  | nil =>
    cases pure_run_eq_ok.mp h
    exact ⟨[], rfl, .nil⟩
  | cons v vars ih =>
    rw [List.mapM_cons] at h
    obtain ⟨first, s₁, hfirst, h⟩ := bind_run_eq_ok.mp h
    obtain ⟨rest, s₂, hrest, h⟩ := bind_run_eq_ok.mp h
    cases pure_run_eq_ok.mp h
    obtain ⟨entries, hentries, hsaves⟩ := ih hrest
    obtain ⟨known, s₃, hknown, hfirst⟩ := bind_run_eq_ok.mp hfirst
    obtain ⟨rfl, rfl⟩ := isDeclared_run_eq_ok hknown
    cases hd : s₃.isDeclared v.name with
    | false =>
      rw [hd] at hfirst
      cases pure_run_eq_ok.mp hfirst
      exact ⟨entries, hentries, hsaves⟩
    | true =>
      rw [hd] at hfirst
      obtain ⟨new, s₄, hnew, hfirst⟩ := bind_run_eq_ok.mp hfirst
      cases pure_run_eq_ok.mp hfirst
      obtain ⟨rfl, hcopy, rfl⟩ | ⟨rfl, hcopy, rfl⟩ := declareName_run_eq_ok hnew
      · exact ⟨(some v.className, v.name) :: entries, by rw [List.flatten_cons, hentries]; rfl,
          .new hd hcopy hsaves⟩
      · exact ⟨(none, v.name) :: entries, by rw [List.flatten_cons, hentries]; rfl,
          .again hd hcopy hsaves⟩

theorem saveVariables_run_eq_ok {vars : ScopedVariables} {depth : Nat} {s s' : State}
    {lines : List Line} {pairs : List (String × String)}
    (h : saveVariables vars depth s = .ok ((lines, pairs), s')) :
    ∃ saved, lines = saveLines depth saved ∧
      pairs.map (fun pair => Line.plain (.restore pair.1 pair.2)) = restoreLines depth saved ∧
      (depth = 0 → saved = []) ∧ Saves depth s saved s' := by
  unfold saveVariables at h
  by_cases hdepth : depth = 0
  · rw [if_pos hdepth] at h
    cases pure_run_eq_ok.mp h
    exact ⟨[], rfl, rfl, fun _ => rfl, .nil⟩
  · rw [if_neg hdepth] at h
    obtain ⟨saved, s₁, hsaved, h⟩ := bind_run_eq_ok.mp h
    cases pure_run_eq_ok.mp h
    obtain ⟨entries, hentries, hsaves⟩ := saves_of_mapM hsaved
    refine ⟨entries, ?_, ?_, fun h => absurd h hdepth, hsaves⟩
    · rw [hentries, List.map_map]
      rfl
    · rw [hentries, List.map_map, List.map_map]
      rfl

theorem methodParameters_run_eq_ok {c : AttributeContract} {types : List String} {s s' : State}
    (h : methodParameters c s = .ok (types, s')) : s' = s := by
  unfold methodParameters at h
  cases hc : c.parameterTypes? with
  | some types =>
    rw [hc] at h
    cases pure_run_eq_ok.mp h
    rfl
  | none =>
    rw [hc] at h
    cases h

theorem values_literalValue (a : ResolvedAttribute) (value : String) :
    Values x e (literalValue a value) fun op => [op] := by
  unfold literalValue
  split
  · split
    · intro s s' op p h
      obtain ⟨types, s₁, htypes, h⟩ := bind_run_eq_ok.mp h
      cases pure_run_eq_ok.mp h
      cases methodParameters_run_eq_ok htypes
      exact .text _
    · split
      · exact values_pure _
      · exact values_pure _
  · exact values_pure _

section

variable {id : NodeId} (hid : id ∈ x.tree.preorder) {a : ResolvedAttribute}
  (ha : a ∈ (x.finding id).attributes)
include hid ha

theorem values_expressionValue {source : String} {parts : Composite} {dialect : Dialect}
    (hv : a.value = .expression source parts dialect) (contract : Option AttributeContract) :
    Values x e (expressionValue x contract parts dialect) fun op => [op] := by
  intro s s' op p h
  obtain ⟨field, s₁, hfield, h⟩ := bind_run_eq_ok.mp h
  obtain ⟨maps, hmaps, rfl⟩ := functionField_run_eq_ok hfield
  have hvalue : ∀ {op : Operand}, op.evaluation? = some (parts.sourceText, field) →
      Writes x e 0 ⟨s, p⟩ [] ⟨{ s with functionMaps := maps }, [op] + p⟩ :=
    fun hop => .evaluation (.inAttribute hid ha hv) hmaps hop
  cases contract with
  | some c =>
    dsimp only at h
    split at h
    · obtain ⟨types, s₁, htypes, h⟩ := bind_run_eq_ok.mp h
      cases pure_run_eq_ok.mp h
      cases methodParameters_run_eq_ok htypes
      exact hvalue rfl
    · split at h
      · cases pure_run_eq_ok.mp h
        exact hvalue rfl
      · cases pure_run_eq_ok.mp h
        exact hvalue rfl
  | none =>
    dsimp only at h
    split at h
    · cases pure_run_eq_ok.mp h
      exact hvalue rfl
    · cases pure_run_eq_ok.mp h
      exact hvalue rfl

end

section

variable {fuel : Nat} {V : NodeId → Multiset NodeId} {id : NodeId} (hx : Annotated x)
  (hb : ∀ scope n, InReach x fuel n →
    Prints x scope.leave (childrenCode x fuel scope n) (V n) Code.lines)
  (hid : InReach x fuel id) (scope : Scope)

include hb hid in
theorem deferredCode_run_eq_ok {kind : HandlerKind} {nested : List Variable} {s s' : State}
    {code : Code} (h : deferredCode (childrenCode x fuel) id kind nested s = .ok (code, s')) :
    ∃ s₁, s' = { s₁ with declared := s.declared } ∧
      Writes x .throws (V id) ⟨{ s with declared := [[]] }, 0⟩ code.lines ⟨s₁, 0⟩ := by
  obtain ⟨s₁, hrun, rfl⟩ := inMethod_run_eq_ok h
  obtain ⟨declared, s₂, hdeclared, hrun⟩ := bind_run_eq_ok.mp hrun
  obtain ⟨synced, s₃, hsynced, hrun⟩ := bind_run_eq_ok.mp hrun
  obtain ⟨inside, s₄, hinside, hrun⟩ := bind_run_eq_ok.mp hrun
  cases pure_run_eq_ok.mp hrun
  have hdeclared := (prints_declareVariables (x := x) (e := .throws) nested).run (p := 0)
    hdeclared
  obtain ⟨rfl, hsynced⟩ := syncVariables_run_eq_ok (x := x) (e := .throws) hsynced
  have hin := (hb _ id hid).run (p := 0) hinside
  refine ⟨s₁, rfl, ?_⟩
  simpa using hdeclared.after ((hsynced 0).after hin)

include hb hid in
-- The body of a node is deferred: a number is taken, the body is generated, and its place is
-- filled.
theorem writes_deferBody {kind : HandlerKind} {nested : List Variable} {s s' : State}
    {number : Nat} {handler : String} {hand : Operand → Statement}
    (hhand : Hands x handler id nested hand) (count : String) (p : Multiset Operand)
    (h : deferBody (childrenCode x fuel) id kind nested s = .ok (number, s')) :
    Writes x e (V id) ⟨s, p⟩ [.plain (hand (.deferredBody number handler count))] ⟨s', p⟩ := by
  obtain ⟨number, s₁, hnumber, h⟩ := bind_run_eq_ok.mp h
  obtain ⟨code, s₂, hcode, h⟩ := bind_run_eq_ok.mp h
  obtain ⟨_, s₃, hfill, h⟩ := bind_run_eq_ok.mp h
  cases modifyGet_run_eq_ok.mp hnumber
  cases modify_run_eq_ok.mp hfill
  cases pure_run_eq_ok.mp h
  obtain ⟨s₄, rfl, hwrites⟩ := deferredCode_run_eq_ok hb hid hcode
  exact .defers (t := s₄) count hhand ⟨fuel, kind, _, _, hid.size_le, hcode⟩ hwrites

end

-- An attribute with a contract has a setter of its own.
theorem Handles.dynamic_eq_false (hx : Annotated x) {id : NodeId} {data : CustomAction}
    {handler : String} (h : Handles x id data handler) {a : ResolvedAttribute}
    (ha : a ∈ (x.finding id).attributes) (hfragment : isFragment a = true) : a.dynamic = false := by
  have hest := hx.established id h.mem_preorder
  rw [Checking.Established, show (x.checked.context x.options).tree.kind id = .custom data from
    h.kind_eq] at hest
  obtain ⟨number, hest⟩ := hest
  obtain ⟨s, -, hs⟩ :=
    Checking.mem_of_mapM_eq_ok (Checking.checkCustom_eq_ok hest).attributes ha
  rw [(Checking.resolveCustom_eq_ok hs).2.2.2.1]
  cases hc : a.contract with
  | some c => rfl
  | none => simp [isFragment, hc] at hfragment

section

variable {fuel : Nat} {V : NodeId → Multiset NodeId} {id : NodeId} {data : CustomAction}
  {handler : String} (hx : Annotated x)
  (hb : ∀ scope n, InReach x fuel n →
    Prints x scope.leave (childrenCode x fuel scope n) (V n) Code.lines)
  (hid : Handles x id data handler) (hreach : InReach x fuel id) (scope : Scope)

include hx hb hid hreach

theorem prints_setter (kind : HandlerKind) {a : ResolvedAttribute}
    (ha : a ∈ (x.finding id).attributes) :
    Prints x e (do
      let value ← attributeValue x (childrenCode x fuel) scope handler kind a
      if a.dynamic then return .plain (.setDynamic handler a.qualifiedName value)
      else return .plain (.set handler (setterName a.name) value))
      (fragmentNodes V a) fun line => [line] := by
  refine .of_run fun {s s' line p} h => ?_
  obtain ⟨value, s₁, hvalue, h⟩ := bind_run_eq_ok.mp h
  -- A value that is there already is used in either of the two ways.
  have huse : Writes x e 0 ⟨s, p⟩ [] ⟨s₁, [value] + p⟩ →
      Writes x e 0 ⟨s, p⟩ [line] ⟨s', p⟩ := by
    intro hw
    split at h
    · cases pure_run_eq_ok.mp h
      exact hw.after (.use rfl rfl)
    · cases pure_run_eq_ok.mp h
      exact hw.after (.use rfl rfl)
  unfold attributeValue at hvalue
  unfold fragmentNodes
  cases hv : a.value with
  | literal v =>
    simp only [hv] at hvalue
    exact huse (values_literalValue a v _ _ _ p hvalue)
  | scripting code =>
    simp only [hv] at hvalue
    exact huse (values_pure _ _ _ _ p hvalue)
  | expression source parts dialect =>
    simp only [hv] at hvalue
    exact huse (values_expressionValue hid.mem_preorder ha hv a.contract _ _ _ p hvalue)
  | named n =>
    simp only [hv] at hvalue
    have hn := ((hx.established id hid.mem_preorder).named ha hv).1
    have hmem : InReach x fuel n := hx.inReach_child hreach hn
    cases hf : isFragment a with
    | true =>
      simp only [hf, if_true] at hvalue
      obtain ⟨number, s₂, hnumber, hvalue⟩ := bind_run_eq_ok.mp hvalue
      cases pure_run_eq_ok.mp hvalue
      rw [hid.dynamic_eq_false hx ha hf] at h
      cases pure_run_eq_ok.mp h
      exact writes_deferBody hb hmem (.fragment hid ha hf hv) _ p hnumber
    | false =>
      simp only [hf, Bool.false_eq_true, if_false] at hvalue
      obtain ⟨name, s₂, hname, hvalue⟩ := bind_run_eq_ok.mp hvalue
      exact huse (((prints_namedVariable n).run hname).after (values_pure _ _ _ _ p hvalue))

theorem prints_setters (kind : HandlerKind) :
    Prints x e (setters x (childrenCode x fuel) scope (x.finding id) handler kind)
      ((x.finding id).attributes.map (fragmentNodes V)).sum fun lines => lines := by
  refine .of_run fun {s s' lines p} h => ?_
  have hall := (Emits.mapM_prints fun a ha =>
    prints_setter (e := e) hx hb hid hreach scope kind ha).run (p := p) h
  simpa using hall

end

-- Setters declare nothing.
theorem declares_setters {body : BodyGen} {scope : Scope} {f : Finding} {handler : String}
    {kind : HandlerKind} {s s' : State} {lines : List Line}
    (h : setters x body scope f handler kind s = .ok (lines, s')) :
    ∀ line ∈ lines, line.declares = false := by
  intro line hline
  obtain ⟨a, -, s₁, s₂, hrun⟩ := mem_of_mapM_run h hline
  obtain ⟨value, s₃, -, hrun⟩ := bind_run_eq_ok.mp hrun
  split at hrun
  · cases pure_run_eq_ok.mp hrun
    rfl
  · cases pure_run_eq_ok.mp hrun
    rfl

section

variable {fuel : Nat} {V : NodeId → Multiset NodeId} {id : NodeId} {data : CustomAction}
  {handler : String} (hx : Annotated x)
  (hb : ∀ scope n, InReach x fuel n →
    Prints x scope.leave (childrenCode x fuel scope n) (V n) Code.lines)
  (hid : Handles x id data handler) (hreach : InReach x fuel id) (scope : Scope)

-- What is split off in the bodies of an action.
theorem sum_bodies_custom (hid : Handles x id data handler) :
    ((bodies x id).map V).sum = ((x.finding id).attributes.map (valueNodes V)).sum +
      (((x.finding id).attributes.map (fragmentNodes V)).sum +
        if x.tree.hasContent id then V id else 0) := by
  rw [bodies, hid.kind_eq, sum_bodies_content, sum_named, add_assoc]

include hb hid hreach in
theorem prints_bodySetter :
    Prints x e (bodySetter x (childrenCode x fuel) scope id handler)
      (if x.tree.hasContent id then V id else 0) fun lines => lines := by
  unfold bodySetter
  split
  · refine .of_run fun {s s' lines p} h => ?_
    obtain ⟨number, s₁, hnumber, h⟩ := bind_run_eq_ok.mp h
    cases pure_run_eq_ok.mp h
    exact writes_deferBody hb hreach (.body hid) _ p hnumber
  · exact prints_pure fun _ => .nil

-- The own statements of an action: it gets its handler, and all that it does with it comes behind.
inductive Runs (x : Context) (e : Leave) (data : CustomAction) (handler : String) :
    Multiset NodeId → Point → List Line → Point → Prop
  | intro {v w : Multiset NodeId} {c c₁ c' : Point} {l l' : List Line} {pool : Option String}
      (h : Writes x e v c l c₁) (hpool : ∀ name ∈ pool, name ∈ c₁.state.pools)
      (h' : Writes x e w c₁ l' c') :
      Runs x e data handler (v + w) c
        (l ++ .plain (.acquire data.tag.handlerClass handler pool) :: l') c'

include hx hb hid hreach in
theorem runs_simpleCode {s s' : State} {code : Code} (p : Multiset Operand)
    (h : simpleCode x (childrenCode x fuel) scope id data handler s = .ok (code, s')) :
    Runs x scope.leave data handler ((bodies x id).map V).sum ⟨s, p⟩ code.lines ⟨s', p⟩ := by
  obtain ⟨values, s₁, hvalues, h⟩ := bind_run_eq_ok.mp h
  obtain ⟨attrs, s₂, hattrs, h⟩ := bind_run_eq_ok.mp h
  obtain ⟨deferred, s₃, hdeferred, h⟩ := bind_run_eq_ok.mp h
  obtain ⟨synced, s₄, hsynced, h⟩ := bind_run_eq_ok.mp h
  cases pure_run_eq_ok.mp h
  have hvalues := (prints_namedValues hx hb hreach scope).run (p := p) hvalues
  have hattrs := (prints_setters (e := scope.leave) hx hb hid hreach scope .simple).run (p := p)
    hattrs
  have hdeferred := (prints_bodySetter (e := scope.leave) hb hid hreach scope).run (p := p)
    hdeferred
  obtain ⟨rfl, hsynced⟩ := syncVariables_run_eq_ok (x := x) (e := scope.leave) hsynced
  have hcontext : Writes x scope.leave 0 ⟨s₁, p⟩
      [.code (handler ++ ".setJspContext(" ++ Names.context ++ ");")] ⟨s₁, p⟩ := .code _
  have hparent : Writes x scope.leave 0 ⟨s₁, p⟩ (scope.parent.toList.map fun parent =>
      Line.code (handler ++ ".setParent(" ++ parent.expr ++ ");")) ⟨s₁, p⟩ := by
    cases scope.parent with
    | none => exact .nil
    | some parent => exact .code _
  have hend := (Writes.code (handler ++ ".doTag();")).after
    ((hsynced p).after (.code (Names.runtime ++ ".releaseTag(" ++ handler ++ ", false);")))
  have hrest := hcontext.after (hparent.after (hattrs.append (hdeferred.before hend)))
  rw [sum_bodies_custom hid]
  have hpool : ∀ name ∈ (none : Option String), name ∈ s₁.pools := by simp
  have hruns : Runs x scope.leave data handler _ _ _ _ := .intro hvalues hpool hrest
  simpa using hruns

-- Blocks that push and pop a body change nothing else.
theorem writes_pushLines {c : Point} (handler count : String) :
    Writes x e 0 c (pushLines handler count) c :=
  .enclosed _ (.cons (.quiet rfl rfl) (.cons (.quiet rfl rfl) (.cons (.code _) (.code _)))) rfl

theorem writes_popLines {c : Point} (handler count : String) :
    Writes x e 0 c (popLines handler count) c :=
  .enclosed _ (.cons (.quiet rfl rfl) (.quiet rfl rfl)) rfl

include hb hreach in
-- Variables that are declared in the body end with it, and the blocks around it keep theirs.
theorem writes_classicBody {count : String} {c : Capabilities} {s s' : State} {code : Code}
    (p : Multiset Operand)
    (h : classicBody x (childrenCode x fuel) scope id handler count c s = .ok (code, s')) :
    Writes x scope.leave (V id) ⟨s, p⟩ code.lines ⟨s', p⟩ ∧ s'.declared = s.declared := by
  obtain ⟨s₁, hrun, rfl⟩ := inBlock_run_eq_ok h
  obtain ⟨declared, s₂, hdeclared, hrun⟩ := bind_run_eq_ok.mp hrun
  obtain ⟨synced, s₃, hsynced, hrun⟩ := bind_run_eq_ok.mp hrun
  obtain ⟨inside, s₄, hinside, hrun⟩ := bind_run_eq_ok.mp hrun
  obtain ⟨again, s₅, hagain, hrun⟩ := bind_run_eq_ok.mp hrun
  cases pure_run_eq_ok.mp hrun
  have hdeclared := (prints_declareVariables (x := x) (e := scope.leave) _).run (p := p)
    hdeclared
  obtain ⟨rfl, hsynced⟩ := syncVariables_run_eq_ok (x := x) (e := scope.leave) hsynced
  have hin := (hb _ id hreach).run (p := p) hinside
  obtain ⟨rfl, hagain⟩ := syncVariables_run_eq_ok (x := x) (e := scope.leave) hagain
  refine ⟨?_, (hdeclared.append hin).tail_declared⟩
  cases hloops : c.bodyBuffering || c.iteration with
  | false =>
    have hbuffering : c.bodyBuffering = false := by
      rw [Bool.or_eq_false_iff] at hloops
      exact hloops.1
    simpa [evalOtherThan, hloops, hbuffering, onlyIf] using
      Writes.frame _ (hdeclared.after ((hsynced p).after hin))
  | true =>
    have hbefore : Writes x scope.leave 0 ⟨s.push, p⟩
        (declared ++ onlyIf c.bodyBuffering (pushLines handler count)) ⟨s₃, p⟩ :=
      hdeclared.after (.onlyIf (writes_pushLines handler count))
    have hend : ∀ first head, Writes x scope.leave 0 ⟨s₁, p⟩
        (Line.code first :: again ++ [Line.block head, Line.code "break;", Line.close])
        ⟨s₁, p⟩ := fun first head =>
      (Writes.cons (.code first) (hagain p)).after (.enclosed head (.code _) rfl)
    have hloop := fun first head => (hsynced p).after (hin.before (hend first head))
    have hbehind : ∀ q, Writes x scope.leave 0 q
        (onlyIf c.bodyBuffering (popLines handler count)) q :=
      fun q => .onlyIf (writes_popLines handler count)
    simpa [evalOtherThan, againLines, hloops, onlyIf] using
      Writes.loop _ "do" "\x7d while (true);" hbefore (hloop _ _) hbehind

omit hid in
theorem addPool_run_eq_ok {pool : Option String} {s s' : State} {r : Unit}
    (h : addPool pool s = .ok (r, s')) (p : Multiset Operand) :
    Writes x e 0 ⟨s, p⟩ [] ⟨s', p⟩ ∧ ∀ name ∈ pool, name ∈ s'.pools := by
  cases pool with
  | some name =>
    have hrun := modify_run_eq_ok.mp h
    have hadd : s' = s.addPool name := by
      cases hrun
      unfold State.addPool
      split <;> rfl
    subst hadd
    refine ⟨.pool name, ?_⟩
    rintro _ ⟨⟩
    exact State.mem_pools_addPool s name
  | none =>
    cases pure_run_eq_ok.mp h
    exact ⟨.nil, by simp⟩

-- What a handler that recovers from failures does around the rest.
theorem writes_recovery {v : Multiset NodeId} {c c' : Point} {l : List Line}
    (holds : Bool) (first head handler count : String) (h : Writes x e v c l c')
    (hdeclared : c'.state.declared = c.state.declared) :
    Writes x e v c (onlyIf holds [.code first, .block head] ++ l ++
      onlyIf holds (recovery handler count)) c' := by
  cases holds with
  | false => simpa [onlyIf] using h
  | true =>
    have hclauses : ∀ clause ∈ [("catch (java.lang.Throwable _pagex_exception)",
          [Line.block ("while (" ++ count ++ "[0]-- > 0)"), .plain .popBody, .close,
            .code (handler ++ ".doCatch(_pagex_exception);")]),
        ("finally", [Line.code (handler ++ ".doFinally();")])],
        Writes x e 0 c' clause.2 c' := by
      have hcatch : Writes x e 0 c' [.block ("while (" ++ count ++ "[0]-- > 0)"),
          .plain .popBody, .close, .code (handler ++ ".doCatch(_pagex_exception);")] c' :=
        (Writes.enclosed _ (.quiet rfl rfl) rfl).after (.code _)
      simp only [List.mem_cons, List.not_mem_nil, or_false, forall_eq_or_imp, forall_eq]
      exact ⟨hcatch, .code _⟩
    simpa [onlyIf, recovery] using (Writes.code first).after (.block head _ h hdeclared hclauses)

-- A handler that was got is made ready, led through its life and given back.
theorem writes_handler {v : Multiset NodeId} {s s' : State} {p : Multiset Operand} {l : List Line}
    (scope : Scope) (tag : Tag) (handler : String) {pool : Option String}
    (hpool : ∀ name ∈ pool, name ∈ s.pools) (h : Writes x e v ⟨s, p⟩ l ⟨s', p⟩)
    (hdeclared : s'.declared = s.declared) :
    Writes x e v ⟨s, p⟩
      ((acquireLines scope tag handler pool).tail ++ l ++ releaseLines handler pool) ⟨s', p⟩ := by
  have hreuse : Writes x e 0 ⟨s', p⟩ (pool.toList.flatMap fun pool =>
      [.plain (.reuse pool handler), .code (handler ++ "_reused = true;")]) ⟨s', p⟩ := by
    cases pool with
    | none => exact .nil
    | some name => exact .cons (.reuse (h.pools_subset (hpool name rfl))) (.code _)
  have hrelease : ∀ clause ∈ [("finally", [Line.code (Names.runtime ++ ".releaseTag(" ++ handler ++
      ", " ++ handler ++ "_reused);")])], Writes x e 0 ⟨s', p⟩ clause.2 ⟨s', p⟩ := by
    simp only [List.mem_singleton, forall_eq]
    exact .code _
  have hready : ∀ t u, Writes x e v ⟨s, p⟩ (.code t :: .code u :: l) ⟨s', p⟩ := fun t u =>
    .cons (.code t) (.cons (.code u) h)
  have htry := fun t u => Writes.block "try" _ ((hready t u).before hreuse) hdeclared hrelease
  simpa [acquireLines, releaseLines] using
    (Writes.code ("boolean " ++ handler ++ "_reused = false;")).after (htry _ _)

include hx hb hid hreach in
theorem runs_classicCode {s s' : State} {code : Code} (p : Multiset Operand)
    (h : classicCode x (childrenCode x fuel) scope id data handler s = .ok (code, s')) :
    Runs x scope.leave data handler ((bodies x id).map V).sum ⟨s, p⟩ code.lines ⟨s', p⟩ := by
  obtain ⟨values, s₁, hvalues, h⟩ := bind_run_eq_ok.mp h
  obtain ⟨_, s₂, hpool, h⟩ := bind_run_eq_ok.mp h
  obtain ⟨attrs, s₃, hattrs, h⟩ := bind_run_eq_ok.mp h
  obtain ⟨synced, s₄, hsynced, h⟩ := bind_run_eq_ok.mp h
  obtain ⟨inside, s₅, hinside, h⟩ := ite_bind_run_eq_ok h
  obtain ⟨again, s₆, hagain, h⟩ := bind_run_eq_ok.mp h
  cases pure_run_eq_ok.mp h
  have hvalues := (prints_namedValues hx hb hreach scope).run (p := p) hvalues
  obtain ⟨haddPool, hpool⟩ := addPool_run_eq_ok (x := x) (e := scope.leave) hpool p
  have hsame := declares_setters hattrs
  have hattrs := (prints_setters (e := scope.leave) hx hb hid hreach scope .classic).run (p := p)
    hattrs
  obtain ⟨rfl, hsynced⟩ := syncVariables_run_eq_ok (x := x) (e := scope.leave) hsynced
  obtain ⟨rfl, hagain⟩ := syncVariables_run_eq_ok (x := x) (e := scope.leave) hagain
  have hbody : Writes x scope.leave (if x.tree.hasContent id then V id else 0) ⟨s₄, p⟩
      inside.lines ⟨s', p⟩ ∧ s'.declared = s₄.declared := by
    split at hinside
    · rename_i hcontent
      rw [if_pos hcontent]
      exact writes_classicBody hb hreach scope p hinside
    · rename_i hcontent
      cases pure_run_eq_ok.mp hinside
      rw [if_neg hcontent]
      exact ⟨.nil, rfl⟩
  have hend : ∀ head, Writes x scope.leave 0 ⟨s', p⟩
      ([Line.block head, Line.plain (.leave scope.leave), Line.close] ++ again)
      ⟨s', p⟩ := fun head =>
    (Writes.enclosed head .leave rfl).after (hagain p)
  have hlife := fun start head => (Writes.code start).after
    ((hsynced p).after (hbody.1.before (hend head)))
  have hall := fun start head first try' count => hattrs.append
    (writes_recovery data.tag.capabilities.tryCatchFinally first try' handler count
      (hlife start head) hbody.2)
  have hhandler := fun start head first try' count => writes_handler scope data.tag handler hpool
    (hall start head first try' count) (hbody.2.trans (hattrs.declared_eq hsame))
  rw [sum_bodies_custom hid]
  have hruns : ∀ start head first try' count, Runs x scope.leave data handler _ _ _ _ :=
    fun start head first try' count =>
      .intro (hvalues.before haddPool) hpool (hhandler start head first try' count)
  simpa [acquireLines, startLine] using hruns _ _ _ _ _

include hx hb hid hreach in
theorem prints_inlineCode :
    Prints x scope.leave (inlineCode x (childrenCode x fuel) scope id data)
      ((bodies x id).map V).sum Code.lines := by
  unfold inlineCode
  simp only [hid.instanceId_eq]
  refine .of_run fun {s s' code p} h => ?_
  obtain ⟨⟨saves, pairs⟩, s₁, hsaves, h⟩ := bind_run_eq_ok.mp h
  obtain ⟨atBegin, s₂, hbegin, h⟩ := bind_run_eq_ok.mp h
  obtain ⟨atEnd, s₃, hend, h⟩ := bind_run_eq_ok.mp h
  obtain ⟨own, s₄, hown, h⟩ := ite_bind_run_eq_ok h
  cases pure_run_eq_ok.mp h
  obtain ⟨saved, rfl, hrestores, hlevel, hsaves⟩ := saveVariables_run_eq_ok hsaves
  have hbegin := (prints_declareVariables (x := x) (e := scope.leave) _).run (p := p) hbegin
  have hend := (prints_declareVariables (x := x) (e := scope.leave) _).run (p := p) hend
  have hcode : Runs x scope.leave data handler ((bodies x id).map V).sum ⟨s₃, p⟩ own.lines
      ⟨s', p⟩ := by
    split at hown
    · exact runs_simpleCode hx hb hid hreach scope p hown
    · exact runs_classicCode hx hb hid hreach scope p hown
  generalize ((bodies x id).map V).sum = v at hcode ⊢
  generalize hlines : own.lines = lines at hcode
  cases hcode with
  | intro hbefore hpool hbehind =>
    have haction := Writes.action hid hlevel hsaves (hbegin.after (hend.after hbefore)) hpool
      hbehind
    rw [← hrestores] at haction
    simpa [hlines] using haction

-- Whether an action becomes a method of its own.
def isSplitOff (x : Context) (id : NodeId) : Bool :=
  match x.tree.kind id with
  | .custom _ => x.options.splitMethods && isSplittable x id
  | _ => false

-- The node itself, if it is such an action.
def ownNode (x : Context) (id : NodeId) : Multiset NodeId := if isSplitOff x id then {id} else 0

include hx hb hid hreach in
theorem prints_customCode :
    Prints x scope.leave (customCode x (childrenCode x fuel) scope id data)
      (ownNode x id + ((bodies x id).map V).sum) Code.lines := by
  have hsplit : isSplitOff x id = (x.options.splitMethods && isSplittable x id) := by
    rw [isSplitOff, hid.kind_eq]
  unfold customCode
  simp only [hid.instanceId_eq]
  rw [ownNode, hsplit]
  split
  · refine .of_run fun {s s' code p} h => ?_
    obtain ⟨own, s₁, hown, h⟩ := bind_run_eq_ok.mp h
    obtain ⟨_, s₂, hmethod, h⟩ := bind_run_eq_ok.mp h
    obtain ⟨s₃, hinline, rfl⟩ := inMethod_run_eq_ok hown
    cases modify_run_eq_ok.mp hmethod
    cases pure_run_eq_ok.mp h
    have hwrites := (prints_inlineCode hx hb hid hreach _).run (p := 0) hinline
    rw [Multiset.singleton_add]
    exact .split (t := s₃) _ _ hid hwrites
  · rw [zero_add]
    exact prints_inlineCode hx hb hid hreach scope

end

section

variable {fuel : Nat} {V : NodeId → Multiset NodeId} {id : NodeId} (hx : Annotated x)
  (hb : ∀ scope n, InReach x fuel n →
    Prints x scope.leave (childrenCode x fuel scope n) (V n) Code.lines)
  (hid : InReach x fuel id) (scope : Scope)

include hx hb hid in
theorem prints_nodeCode :
    Prints x scope.leave (nodeCode x (childrenCode x fuel) scope id)
      (ownNode x id + ((bodies x id).map V).sum) Code.lines := by
  have hstandard : ∀ {m : GenM Code}, (∀ data, x.tree.kind id ≠ .custom data) →
      Prints x scope.leave m ((bodies x id).map V).sum Code.lines →
      Prints x scope.leave m (ownNode x id + ((bodies x id).map V).sum) Code.lines := by
    intro m hk hm
    have hown : isSplitOff x id = false := by
      unfold isSplitOff
      split
      · exact absurd ‹_› (hk _)
      · rfl
    rwa [ownNode, hown, if_neg Bool.false_ne_true, zero_add]
  have hquiet : ∀ {m : GenM Code}, (∀ data, x.tree.kind id ≠ .custom data) → bodies x id = [] →
      Prints x scope.leave m 0 Code.lines →
      Prints x scope.leave m (ownNode x id + ((bodies x id).map V).sum) Code.lines := by
    intro m hk hnone hm
    refine hstandard hk ?_
    rwa [hnone]
  have hself := hb scope id hid
  unfold nodeCode
  cases hk : x.tree.kind id with
  | root _ | xmlRoot | includeDirective | body | jspText =>
    refine hstandard (by simp [hk]) ?_
    simpa [bodies, hk] using hself
  | pageDirective | taglibDirective | comment _ | param | params | fallback | output | named _ =>
    exact hquiet (by simp [hk]) (by simp [bodies, hk]) (prints_pure fun _ => .nil)
  | script kind script =>
    exact hquiet (by simp [hk]) (by simp [bodies, hk]) (prints_scriptCode hid.mem_preorder hk)
  | insert data =>
    exact hquiet (by simp [hk]) (by simp [bodies, hk]) (prints_insertCode hid.mem_preorder hk _)
  | text run =>
    refine hquiet (by simp [hk]) (by simp [bodies, hk]) ?_
    dsimp only
    split
    · exact prints_pure fun _ => .nil
    · exact prints_textCode _ run
  | useBean => exact hstandard (by simp [hk]) (prints_useBeanCode hx hb hid scope hk)
  | setProperty => exact hstandard (by simp [hk]) (prints_setPropertyCode hx hb hid scope hk)
  | getProperty => exact hquiet (by simp [hk]) (by simp [bodies, hk]) prints_getPropertyCode
  | forward => exact hstandard (by simp [hk]) (prints_forwardCode hx hb hid scope hk)
  | includeAction => exact hstandard (by simp [hk]) (prints_includeCode hx hb hid scope hk)
  | plugin => exact hstandard (by simp [hk]) (prints_pluginCode hx hb hid scope hk)
  | element => exact hstandard (by simp [hk]) (prints_elementCode hx hb hid scope hk)
  | custom data =>
    obtain ⟨handler, hhandler⟩ := hx.instanceId hid.mem_preorder hk
    exact prints_customCode hx hb ⟨hid.mem_preorder, hk, hhandler⟩ hid scope
  | uninterpreted => exact hstandard (by simp [hk]) (prints_markupCode hb hid scope hk)

end

-- The actions below a node that become methods of their own, each as often as the generator comes
-- to it.
def splitNodes (x : Context) : Nat → NodeId → Multiset NodeId
  | 0, _ => 0
  | fuel + 1, id =>
    ownNode x id + ((bodies x id).map fun host =>
      ((x.tree.children host).map (splitNodes x fuel)).sum).sum

-- By induction on the fuel: every way down leads to greater numbers.
theorem Annotated.prints_subtreeCode (hx : Annotated x) (fuel : Nat) (scope : Scope) {id : Nat}
    (hid : id ∈ x.tree.preorder) (hfuel : x.tree.size < id + fuel) :
    Prints x scope.leave (subtreeCode x fuel scope id) (splitNodes x fuel id) Code.lines := by
  induction fuel generalizing scope id with
  | zero =>
    have hlt := hx.wellFormed.lt_size_of_mem_preorder hid
    omega
  | succ fuel ih =>
    have hb : ∀ scope n, InReach x fuel n → Prints x scope.leave (childrenCode x fuel scope n)
        ((x.tree.children n).map (splitNodes x fuel)).sum Code.lines := by
      intro scope n hn
      refine .of_run fun {s s' code p} h => ?_
      obtain ⟨parts, s₁, hparts, h⟩ := bind_run_eq_ok.mp h
      cases pure_run_eq_ok.mp h
      rw [Code.lines_flatten]
      refine (Emits.mapM_prints fun c hc => ?_).run hparts
      have hlt := (hx.wellFormed.child_lt hc).1
      have hsize := hn.size_le
      exact ih scope (hx.wellFormed.child_mem_preorder hn.mem_preorder hc) (by omega)
    exact prints_nodeCode hx hb ⟨hid, by omega⟩ scope

theorem Annotated.writes_pageCode (hx : Annotated x) {s : State} {code : Code}
    (h : pageCode x {} = .ok (code, s)) :
    Writes x .returns (splitNodes x (x.tree.size + 1) Tree.root) ⟨{}, 0⟩ code.lines ⟨s, 0⟩ := by
  have hroot := hx.wellFormed.root_mem_preorder
  have hprints := hx.prints_subtreeCode (x.tree.size + 1) serviceScope hroot (by omega)
  exact hprints.run h

end PageCompiler.ClassText
