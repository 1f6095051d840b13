import PageCompiler.Proofs.Checking.Instances
import PageCompiler.Proofs.ClassText.Tally
import PageCompiler.Proofs.ClassText.Visits
import PageCompiler.Proofs.Expression.Tokens

namespace PageCompiler

namespace ClassText

-- The name of a method is that of its handler with another start.
theorem toList_methodName (data : CustomAction) (n : Nat) : ∃ rest : List Char,
    (Checking.instanceId data n).toList = "_pagex_th_".toList ++ rest ∧
      (methodName (Checking.instanceId data n)).toList = "_pagex_meth_".toList ++ rest := by
  refine ⟨_, Checking.toList_instanceId data n, ?_⟩
  rw [methodName, Checking.toList_instanceId, Text.cutAt?_append (by decide)]
  simp

theorem methodName_injective {data data' : CustomAction} {n n' : Nat}
    (h : methodName (Checking.instanceId data n) = methodName (Checking.instanceId data' n')) :
    Checking.instanceId data n = Checking.instanceId data' n' := by
  obtain ⟨rest, hname, hmethod⟩ := toList_methodName data n
  obtain ⟨rest', hname', hmethod'⟩ := toList_methodName data' n'
  rw [h, hmethod'] at hmethod
  rw [← String.toList_inj, hname, hname', List.append_cancel_left hmethod]

end ClassText

open ClassText

-- Neither do two nodes share the name of a method.
theorem CheckedPage.eq_of_methodName {o : Options} {loader : Loader}
    {resolver resolver' : Resolver} {name : String} {c : CheckedPage}
    (h : CheckedPage.ofUnit o loader resolver name = (.ok c, resolver')) {id id' : NodeId}
    {handler handler' : String} (hid : (c.findings.get id).instanceId = some handler)
    (hid' : (c.findings.get id').instanceId = some handler')
    (hname : methodName handler = methodName handler') : id = id' := by
  obtain ⟨page, hread, hcheck⟩ := ofUnit_eq_ok h
  have hwell := Page.wellFormed_read hread
  obtain ⟨s, hnumbered, hfindings⟩ := Page.check_numbered hcheck fun id hid =>
    hwell.lt_size_of_mem_preorder hid
  rw [← hfindings] at hid hid'
  obtain ⟨data, n, -, rfl⟩ := hnumbered.below hid
  obtain ⟨data', n', -, rfl⟩ := hnumbered.below hid'
  rw [methodName_injective hname] at hid
  exact hnumbered.distinct hid hid'

namespace ClassText

namespace Line

-- The methods that were split off, where they are called and where they are declared.
def calls : Line → List String
  | opens (.call name _ _) => [name]
  | _ => []

def methods : Line → List String
  | opens (.method name) => [name]
  | _ => []

-- Deferred bodies by their numbers: where a handler gets one, its method, and its label.
def hands (line : Line) : List Nat := line.operands.filterMap Operand.number?

def invoked : Line → List Nat
  | opens (.deferred number) => [number]
  | _ => []

def labels : Line → List Nat
  | plain (.caseLabel number) => [number]
  | _ => []

-- Pools, where they are made and where they are given up.
def inits : Line → List String
  | plain (.initPool pool) => [pool]
  | _ => []

def releases : Line → List String
  | plain (.releasePool pool) => [pool]
  | _ => []

end Line

-- The deferred bodies of a class are numbered from zero on. Each number is handed out once, by the
-- statement that gives the body to its handler; the method of that number holds the statements of
-- this body and is called under this number.
structure Dispatched (x : Context) (lines : List Line) (count : Nat) : Prop where
  handed : (lines.flatMap Line.hands).Perm (List.range count)
  invoked : (lines.flatMap Line.invoked).Perm (List.range count)
  labelled : (lines.flatMap Line.labels).Perm (List.range count)
  cases : ∀ k < count, caseLines k <:+: lines
  held : ∀ {st : Statement} {k : Nat} {handler pushed : String}, .plain st ∈ lines →
    .deferredBody k handler pushed ∈ st.operands →
    ∃ owner nested hand code, Hands x handler owner nested hand ∧
      st = hand (.deferredBody k handler pushed) ∧ Generated x owner nested code ∧
      (deferredSections k (some code)).flatMap Section.lines <:+: lines

-- The pools of a class are made when it starts and given up when it ends, and nowhere else.
structure KeepsPools (lines : List Line) (pools : List String) : Prop where
  declared : ∀ pool, .pool pool ∈ lines.flatMap Line.defines ↔ pool ∈ pools
  init : method "public void pageInit()" (pools.map fun pool => .plain (.initPool pool)) <:+: lines
  inits : (lines.flatMap Line.inits).Perm pools
  destroy :
    method "public void pageDestroy()" (pools.map fun pool => .plain (.releasePool pool)) <:+: lines
  releases : (lines.flatMap Line.releases).Perm pools

structure ClosedNames (x : Context) (lines : List Line) : Prop where
  -- Every custom action has a handler with a name of its own.
  handles : ∀ {id : NodeId} {data : CustomAction}, id ∈ x.tree.preorder →
    x.tree.kind id = .custom data → ∃ handler, Handles x id data handler
  distinct : ∀ {id id' : NodeId} {data data' : CustomAction} {handler : String},
    Handles x id data handler → Handles x id' data' handler → id = id'
  -- Methods that were split off are declared once and called once.
  methods : (lines.flatMap Line.methods).Nodup
  calls : (lines.flatMap Line.calls).Perm (lines.flatMap Line.methods)
  dispatched : ∃ count, Dispatched x lines count
  -- Whatever is referred to is declared once.
  defined : (lines.flatMap Line.defines).Nodup
  referred : lines.flatMap Line.refersTo ⊆ lines.flatMap Line.defines
  pooled : ∃ pools : List String, pools.Nodup ∧ KeepsPools lines pools

section

variable {x : Context}

-- The method of a node.
def methodOf (x : Context) (id : NodeId) : String := methodName ((x.finding id).instanceId.getD "")

theorem Handles.methodOf_eq {id : NodeId} {data : CustomAction} {handler : String}
    (h : Handles x id data handler) : methodOf x id = methodName handler := by
  rw [methodOf, h.instanceId_eq, Option.getD_some]

theorem counts_calls : Counts x Line.calls (fun id => {methodOf x id}) (fun _ => 0) where
  bare line h := by unfold Line.isBare at h; split at h <;> first | rfl | cases h
  plain st _ _ := rfl
  split _ _ h := by rw [h.methodOf_eq]; rfl
  hand _ _ h := by cases h <;> rfl

theorem counts_methods : Counts x Line.methods (fun id => {methodOf x id}) (fun _ => 0) where
  bare line h := by unfold Line.isBare at h; split at h <;> first | rfl | cases h
  plain st _ _ := rfl
  split _ _ h := by rw [h.methodOf_eq]; rfl
  hand _ _ h := by cases h <;> rfl

theorem counts_defines :
    Counts x Line.defines (fun id => {.method (methodOf x id)}) (fun _ => 0) where
  bare line h := by unfold Line.isBare at h; split at h <;> first | rfl | cases h
  plain st hst _ := by cases st <;> first | rfl | cases hst
  split _ _ h := by rw [h.methodOf_eq]; rfl
  hand _ _ h := by cases h <;> rfl

theorem counts_hands : Counts x Line.hands (fun _ => 0) (fun number => {number}) where
  bare line h := by rw [Line.hands, isBare_operands line h]; rfl
  plain st _ hops := List.filterMap_eq_nil_iff.mpr hops
  split _ _ _ := rfl
  hand _ _ h := by cases h <;> rfl

-- Every action that becomes a method has a handler.
theorem Writes.handles {e : Leave} {v : Multiset NodeId} {c c' : Point} {l : List Line}
    (h : Writes x e v c l c') : ∀ id ∈ v, ∃ data handler, Handles x id data handler := by
  induction h with
  | append _ _ ih ih' | loop _ _ _ _ _ _ ih ih' _ | action _ _ _ _ _ _ ih ih' =>
    intro id hid
    exact (Multiset.mem_add.mp hid).elim (ih id) (ih' id)
  | block _ _ _ _ _ ih _ => exact ih
  | frame _ _ ih => exact ih
  | split _ _ hid _ ih => exact Multiset.forall_mem_cons.mpr ⟨⟨_, _, hid⟩, ih⟩
  | defers _ _ _ _ ih => exact ih
  | _ => simp

end

section

variable {x : Context} {package name : String} {body : Code} {s : State}

theorem infix_flatMap {α β : Type} {a : α} {l : List α} (f : α → List β) (h : a ∈ l) :
    f a <:+: l.flatMap f :=
  List.infix_of_mem_flatten (List.mem_map_of_mem h)

theorem methodLines_infix :
    methodLines x.settings (poolNames s) <:+: classLines x package name body s := by
  have hmem : Section.own (methodLines x.settings (poolNames s)) ∈
      sections x package name body s := by
    simp [sections]
  exact infix_flatMap Section.lines hmem

theorem helperSections_infix :
    (helperSections s.deferred).flatMap Section.lines <:+: classLines x package name body s := by
  have hparts : helperSections s.deferred <:+: sections x package name body s :=
    List.infix_of_mem_flatten (by simp)
  exact hparts.flatMap Section.lines

theorem caseLines_infix {k : Nat} (hk : k < s.deferred.length) :
    caseLines k <:+: classLines x package name body s := by
  have hhelper : Section.own (helperEnd s.deferred.length) ∈ helperSections s.deferred := by
    have hne : s.deferred ≠ [] := List.ne_nil_of_length_pos (by omega)
    simp [helperSections, hne]
  have hend : caseLines k <:+: helperEnd s.deferred.length := by
    refine (infix_flatMap caseLines (List.mem_range.mpr hk)).trans ?_
    exact List.infix_of_mem_flatten (by simp)
  exact hend.trans ((infix_flatMap Section.lines hhelper).trans helperSections_infix)

theorem deferredSections_infix {k : Nat} {code : Option Code} (hk : s.deferred[k]? = some code) :
    (deferredSections k code).flatMap Section.lines <:+: classLines x package name body s := by
  have hne : s.deferred ≠ [] := by
    rintro hnil
    rw [hnil] at hk
    cases hk
  have hentry : (k, code) ∈ (List.range s.deferred.length).zip s.deferred := mem_range_zip.mpr hk
  have hbodies := infix_flatMap (fun entry => (deferredSections entry.1 entry.2).flatMap
    Section.lines) hentry
  refine (hbodies.trans ?_).trans helperSections_infix
  refine ⟨helperStart, helperEnd s.deferred.length, ?_⟩
  simp [helperSections, hne, List.flatMap_assoc, Section.lines]

end

-- The members that a class itself declares.
def ownDefines (s : State) : List Member :=
  (List.range s.functionMaps.length).map .functions ++
    (List.range s.charArrays.length).map .array ++ (poolNames s).map .pool ++
    (List.range s.deferred.length).map .body

theorem flatMap_defines_ownMembers (s : State) :
    (ownMembers s).flatMap Line.defines = ownDefines s := by
  have hzip : ∀ {α : Type} (l : List α) (f : Nat → Member),
      ((List.range l.length).zip l).flatMap (fun entry => [f entry.1]) =
        (List.range l.length).map f := by
    intro α l f
    rw [← List.map_eq_flatMap]
    conv =>
      rhs
      rw [← List.map_fst_zip (show (List.range l.length).length ≤ l.length by simp), List.map_map]
    rfl
  have hmap : ∀ {α : Type} (l : List α) (f : α → Member),
      l.flatMap (fun a => [f a]) = l.map f := fun l f => (List.map_eq_flatMap ..).symm
  simp [flatMap_ownMembers, ownDefines, Line.defines, Statement.defines, flatMap_none, hzip, hmap]

theorem nodup_ownDefines {s : State} (h : (poolNames s).Nodup) : (ownDefines s).Nodup := by
  have hmap : ∀ {α : Type} {l : List α} {f : α → Member}, Function.Injective f → l.Nodup →
      (l.map f).Nodup := fun hf hl => hl.map hf
  simp only [ownDefines, List.nodup_append, List.mem_append, List.mem_map]
  refine ⟨⟨⟨?_, ?_, ?_⟩, ?_, ?_⟩, ?_, ?_⟩
  · exact hmap (fun _ _ => Member.functions.inj) List.nodup_range
  · exact hmap (fun _ _ => Member.array.inj) List.nodup_range
  · rintro _ ⟨_, -, rfl⟩ _ ⟨_, -, rfl⟩ ⟨⟩
  · exact hmap (fun _ _ => Member.pool.inj) h
  · rintro _ (⟨_, -, rfl⟩ | ⟨_, -, rfl⟩) _ ⟨_, -, rfl⟩ ⟨⟩
  · exact hmap (fun _ _ => Member.body.inj) List.nodup_range
  · rintro _ ((⟨_, -, rfl⟩ | ⟨_, -, rfl⟩) | ⟨_, -, rfl⟩) _ ⟨_, -, rfl⟩ ⟨⟩

theorem pool_mem_ownDefines {s : State} {pool : String} :
    .pool pool ∈ ownDefines s ↔ pool ∈ poolNames s := by
  simp [ownDefines]

theorem Statement.mem_pool?_of_mem_pools {st : Statement} (h : st.isField = false) {pool : String}
    (hpool : pool ∈ st.pools) : pool ∈ st.pool? := by
  cases st with
  | acquire _ _ name => exact Option.mem_toList.mp hpool
  | reuse name handler => exact congrArg some (List.mem_singleton.mp hpool).symm
  | initPool | releasePool => cases h
  | _ => cases hpool

theorem Waits.refersTo_subset {x : Context} {s : State} {op : Operand} (h : Waits x s op) :
    op.refersTo ⊆ ownDefines s := by
  have hfield : ∀ {source : String} {field : Option Nat}, Field x s.functionMaps source field →
      field.toList.map Member.functions ⊆ ownDefines s := by
    rintro source (_ | k) ⟨calls, -, hk⟩ m hm
    · cases hm
    · obtain ⟨-, functions, hk, -⟩ := hk
      obtain ⟨hlt, -⟩ := List.getElem?_eq_some_iff.mp hk
      rw [List.mem_singleton.mp hm]
      simpa [ownDefines] using hlt
  cases op with
  | code => simp [Operand.refersTo]
  | charArray index =>
    have hlt : index < s.charArrays.length := h
    simpa [Operand.refersTo, ownDefines] using hlt
  | evaluate | valueExpression | methodExpression => exact hfield h
  | deferredBody => exact h.elim

theorem Deferred.refersTo_subset {x : Context} {s : State} {st : Statement} {op : Operand}
    (h : Deferred x s st op) : op.refersTo ⊆ ownDefines s := by
  cases op with
  | deferredBody k handler count =>
    obtain ⟨_, _, _, _, -, -, -, hk⟩ := h
    obtain ⟨hlt, -⟩ := List.getElem?_eq_some_iff.mp hk
    simpa [Operand.refersTo, ownDefines] using hlt
  | _ => exact h.elim

section

variable {x : Context} {package name : String} {body : Code} {s : State} {e : Leave}
  {v : Multiset NodeId} (h : Writes x e v ⟨{}, 0⟩ body.lines ⟨s, 0⟩)

include h

theorem Writes.dispatched (hlines : ∀ line ∈ body.lines ++ s.lines, Justified x s line) :
    Dispatched x (classLines x package name body s) s.deferred.length where
  handed := by
    have hall := h.tally_classLines package name counts_hands
    have hown : tally Line.hands (ownMembers s) = 0 := by
      simp [tally, flatMap_ownMembers, Line.hands, Line.operands, Statement.operands, flatMap_none]
    rw [hown, Multiset.bind_zero, zero_add, zero_add, Finset.sum_multiset_singleton] at hall
    exact Multiset.coe_eq_coe.mp hall
  invoked := by
    have hown : (ownMembers s).flatMap Line.invoked = List.range s.deferred.length := by
      simp [flatMap_ownMembers, Line.invoked, flatMap_none]
    rw [← hown]
    refine h.perm_ownMembers fun line hline => ?_
    unfold Line.invoked
    split <;> first | rfl | cases hline
  labelled := by
    have hown : (ownMembers s).flatMap Line.labels = List.range s.deferred.length := by
      simp [flatMap_ownMembers, Line.labels, flatMap_none]
    rw [← hown]
    refine h.perm_ownMembers fun line hline => ?_
    unfold Line.labels
    split <;> first | rfl | cases hline
  cases k hk := caseLines_infix hk
  held {st k handler pushed} hst hop := by
    have hline := mem_lines_of_operands hst hop
    rcases (hlines _ hline).1 _ hop with hwaits | hdeferred
    · exact hwaits.elim
    · obtain ⟨owner, nested, hand, code, hhand, heq, hcode, hk⟩ := hdeferred
      exact ⟨owner, nested, hand, code, hhand, heq, hcode, deferredSections_infix hk⟩

theorem Writes.coe_calls :
    ((classLines x package name body s).flatMap Line.calls : Multiset String) =
      v.map (methodOf x) := by
  have hall := h.tally_classLines package name counts_calls
  have hown : tally Line.calls (ownMembers s) = 0 := by
    simp [tally, flatMap_ownMembers, Line.calls, flatMap_none]
  rwa [hown, Multiset.bind_singleton, Finset.sum_const_zero, add_zero, zero_add] at hall

theorem Writes.coe_methods :
    ((classLines x package name body s).flatMap Line.methods : Multiset String) =
      v.map (methodOf x) := by
  have hall := h.tally_classLines package name counts_methods
  have hown : tally Line.methods (ownMembers s) = 0 := by
    simp [tally, flatMap_ownMembers, Line.methods, flatMap_none]
  rwa [hown, Multiset.bind_singleton, Finset.sum_const_zero, add_zero, zero_add] at hall

theorem Writes.coe_defines :
    ((classLines x package name body s).flatMap Line.defines : Multiset Member) =
      (ownDefines s : Multiset Member) + v.map fun id => Member.method (methodOf x id) := by
  have hall := h.tally_classLines package name counts_defines
  rwa [tally, tally, flatMap_defines_ownMembers, Multiset.bind_singleton, Finset.sum_const_zero,
    add_zero] at hall

theorem Writes.keepsPools : KeepsPools (classLines x package name body s) (poolNames s) where
  declared pool := by
    rw [← Multiset.mem_coe, h.coe_defines, Multiset.mem_add, Multiset.mem_coe, pool_mem_ownDefines]
    simp
  init := (List.infix_of_mem_flatten (by simp)).trans methodLines_infix
  inits := by
    have hown : (ownMembers s).flatMap Line.inits = poolNames s := by
      simp [flatMap_ownMembers, Line.inits, flatMap_none]
    rw [← hown]
    refine h.perm_ownMembers fun line hline => ?_
    unfold Line.inits
    split <;> first | rfl | cases hline
  destroy := (List.infix_of_mem_flatten (by simp)).trans methodLines_infix
  releases := by
    have hown : (ownMembers s).flatMap Line.releases = poolNames s := by
      simp [flatMap_ownMembers, Line.releases, flatMap_none]
    rw [← hown]
    refine h.perm_ownMembers fun line hline => ?_
    unfold Line.releases
    split <;> first | rfl | cases hline

-- The page has no lines like those of the class itself.
theorem Writes.isOwn_eq_false : ∀ line ∈ body.lines ++ s.lines, line.isOwn = false := by
  intro line hline
  let g : Line → List Line := fun line => if line.isOwn then [line] else []
  have hg : ∀ line : Line, line.isOwn = false → g line = [] := fun line h => by simp [g, h]
  have hall := h.tally_lines (.of_isOwn hg)
  rw [Multiset.bind_zero, Finset.sum_const_zero, add_zero, tally, Multiset.coe_eq_zero] at hall
  by_contra hown
  have hnone := List.flatMap_eq_nil_iff.mp hall line hline
  simp [g, hown] at hnone

theorem Writes.referred (hlines : ∀ line ∈ body.lines ++ s.lines, Justified x s line) :
    (classLines x package name body s).flatMap Line.refersTo ⊆
      (classLines x package name body s).flatMap Line.defines := by
  intro m hm
  rw [← Multiset.mem_coe, h.coe_defines, Multiset.mem_add, Multiset.mem_coe]
  obtain ⟨line, hline, hm⟩ := List.mem_flatMap.mp hm
  have hbare : line.isBare = false := by
    by_contra hbare
    unfold Line.isBare at hbare
    split at hbare <;> first | cases hm | exact hbare rfl
  rcases List.mem_append.mp ((mem_classLines hbare ..).mp hline) with hown | hpage
  · have hpools : ∃ pool ∈ poolNames s, m = .pool pool := by
      simpa [flatMap_ownMembers, Line.refersTo, Statement.operands, Statement.pools,
        flatMap_none] using List.mem_flatMap.mpr ⟨line, hown, hm⟩
    obtain ⟨pool, hpool, rfl⟩ := hpools
    exact .inl (pool_mem_ownDefines.mpr hpool)
  · cases line with
    | plain st =>
      left
      obtain ⟨hops, hpool⟩ := hlines _ hpage
      rcases List.mem_append.mp hm with hm | hm
      · obtain ⟨op, hop, hm⟩ := List.mem_flatMap.mp hm
        rcases hops op hop with hwaits | hdeferred
        · exact hwaits.refersTo_subset hm
        · exact hdeferred.refersTo_subset hm
      · obtain ⟨pool, hmem, rfl⟩ := List.mem_map.mp hm
        have hown := h.isOwn_eq_false _ hpage
        have hpools := hpool pool (Statement.mem_pool?_of_mem_pools hown hmem)
        exact pool_mem_ownDefines.mpr ((List.mergeSort_perm ..).mem_iff.mpr hpools)
    | opens head =>
      right
      cases head with
      | call callee parent count =>
        have hcall : callee ∈ (classLines x package name body s).flatMap Line.calls :=
          List.mem_flatMap.mpr ⟨_, hline, List.mem_singleton_self _⟩
        rw [← Multiset.mem_coe, h.coe_calls] at hcall
        obtain ⟨id, hid, rfl⟩ := Multiset.mem_map.mp hcall
        rw [List.mem_singleton.mp hm]
        exact Multiset.mem_map_of_mem _ hid
      | _ => cases hm
    | _ => cases hm

end

end ClassText

-- In the class of a page that compiles, handlers have names of their own, methods that were split
-- off are called once, each deferred body is run under the number that its handler was given and
-- under no other, and every field that is referred to is declared once; pools are made and given up
-- once.
theorem CompiledPage.closedNames_ofUnit {o : Options} {loader : Loader}
    {resolver resolver' : Resolver} {name : String} {p : CompiledPage}
    (h : CompiledPage.ofUnit o loader resolver name = (.ok p, resolver')) :
    ∃ c body s, Assembled o loader resolver name p c body s ∧
      ClosedNames ⟨o, c⟩ (classLines ⟨o, c⟩ p.package p.className body s) := by
  obtain ⟨c, body, s, hassembled⟩ := exists_assembled h
  obtain ⟨_, hc⟩ := hassembled.checked
  obtain ⟨hsound, hlines⟩ := hassembled.sound
  have hx := hassembled.annotated
  have hwrites := hassembled.writes
  have hnodup : (splitNodes ⟨o, c⟩ (c.page.tree.size + 1) Tree.root).Nodup :=
    nodup_splitNodes hx _ hx.wellFormed.root_mem_preorder
  have hpools : (poolNames s).Nodup := (List.mergeSort_perm ..).nodup_iff.mpr hsound.pools
  -- No two of the actions that become methods have the same method.
  have hmethods : ((splitNodes ⟨o, c⟩ (c.page.tree.size + 1) Tree.root).map
      (methodOf ⟨o, c⟩)).Nodup := by
    refine hnodup.map_on fun id hid id' hid' heq => ?_
    obtain ⟨data, handler, hhandles⟩ := hwrites.handles id hid
    obtain ⟨data', handler', hhandles'⟩ := hwrites.handles id' hid'
    rw [hhandles.methodOf_eq, hhandles'.methodOf_eq] at heq
    exact CheckedPage.eq_of_methodName hc hhandles.instanceId_eq hhandles'.instanceId_eq heq
  refine ⟨c, body, s, hassembled, ⟨fun hid hk => ?_, fun hid hid' => ?_, ?_, ?_,
    ⟨_, hwrites.dispatched hlines⟩, ?_, hwrites.referred hlines, _, hpools, hwrites.keepsPools⟩⟩
  · obtain ⟨handler, hhandler⟩ := hx.instanceId hid hk
    exact ⟨handler, hid, hk, hhandler⟩
  · exact CheckedPage.eq_of_methodName hc hid.instanceId_eq hid'.instanceId_eq rfl
  · rw [← Multiset.coe_nodup, hwrites.coe_methods]
    exact hmethods
  · rw [← Multiset.coe_eq_coe, hwrites.coe_calls, hwrites.coe_methods]
  · rw [← Multiset.coe_nodup, hwrites.coe_defines, Multiset.nodup_add]
    refine ⟨nodup_ownDefines hpools, ?_, ?_⟩
    · rw [← Function.comp_def Member.method, ← Multiset.map_map]
      exact hmethods.map fun _ _ => Member.method.inj
    · rw [Multiset.disjoint_left]
      intro m hm hm'
      obtain ⟨id, -, rfl⟩ := Multiset.mem_map.mp hm'
      simp [ownDefines] at hm

-- Actions that take their bodies as deferred ones, with another kind of action inside and behind
-- them.
def nameLibrary : Library :=
  { uri := "urn:sample", shortName := "sample"
    tags := [
      { name := "box", handlerClass := "sample.BoxTag", bodyContent := .scriptless
        capabilities := { simple := true }, attributes := [{ name := "head", fragment := true }] },
      { name := "item", handlerClass := "sample.ItemTag" }] }

def nameUnits : Loader :=
  .ofUnits
    [("main.page", Text.Utf8.ofString
      ("<%@ taglib prefix=\"s\" uri=\"urn:sample\" %>" ++
        "<s:box><jsp:attribute name=\"head\">h</jsp:attribute>" ++
        "<jsp:body>a<s:box>b</s:box><s:item/></jsp:body></s:box><s:item/>"))]

theorem CompiledPage.closedNames_ofUnit_sample :
    ∃ p resolver c body s, CompiledPage.ofUnit {} nameUnits (.ofLibraries [nameLibrary])
        "main.page" = (.ok p, resolver) ∧
      Assembled {} nameUnits (.ofLibraries [nameLibrary]) "main.page" p c body s ∧
      ClosedNames ⟨{}, c⟩ (classLines ⟨{}, c⟩ p.package p.className body s) ∧
      (classLines ⟨{}, c⟩ p.package p.className body s).flatMap Line.hands = [2, 0, 1] ∧
      (classLines ⟨{}, c⟩ p.package p.className body s).flatMap Line.calls =
        ["_pagex_meth_s_box_0", "_pagex_meth_s_item_3", "_pagex_meth_s_box_1",
          "_pagex_meth_s_item_2"] := by
  have hrun : passes {} nameUnits (.ofLibraries [nameLibrary]) "main.page"
      (fun p c body s =>
        (classLines ⟨{}, c⟩ p.package p.className body s).flatMap Line.hands == [2, 0, 1] &&
        (classLines ⟨{}, c⟩ p.package p.className body s).flatMap Line.calls ==
          ["_pagex_meth_s_box_0", "_pagex_meth_s_item_3", "_pagex_meth_s_box_1",
            "_pagex_meth_s_item_2"]) = true := by
    rw [nameUnits, Text.Utf8.ofString_append, Text.Utf8.ofString_append]
    repeat rw [Text.Utf8.ofString_ofList]
    decide +kernel
  obtain ⟨p, resolver, hp, htest⟩ := of_passes hrun
  obtain ⟨c, body, s, hassembled, hclosed⟩ := closedNames_ofUnit hp
  have hlines := htest hassembled
  rw [Bool.and_eq_true, beq_iff_eq, beq_iff_eq] at hlines
  exact ⟨p, resolver, c, body, s, hp, hassembled, hclosed, hlines⟩

end PageCompiler
