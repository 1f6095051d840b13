import PageCompiler.Proofs.Forms.Shown
import PageCompiler.Proofs.Reading.Growth

namespace PageCompiler.Builder

open Text PageCompiler.Tree Template

-- Text is read as usual, and one prefix is bound. Its library has been resolved or will be by the
-- resolver from the start.
structure Ready (resolver : Resolver) (space : String) (ref : LibraryRef) (b : Builder) :
    Prop where
  scan_eq : b.scan = {}
  trimBlanks_eq : b.trimBlanks = false
  bound_eq : ∃ mark, b.bindings.bound = [(space, ⟨ref, mark⟩)]
  library : (b.bindings.libraries = [] ∧ b.resolver = resolver) ∨
    ∃ library, b.bindings.libraries = [(ref.key, library)] ∧
      (resolver.resolve ref).1 = .ok (some library)

-- A part of a template has been read under a parent.
structure Extends (resolver : Resolver) (space : String) (ref : LibraryRef) (b : Builder)
    (parent : Nat) (s : Shape) (b' : Builder) : Prop where
  adds : Adds b.tree parent s b'.tree
  ready : Ready resolver space ref b'

variable {resolver : Resolver} {space : String} {ref : LibraryRef} {b b' b'' : Builder}
  {parent : Nat} {s s' : Shape}

theorem Ready.withTree (h : Ready resolver space ref b) (t : Tree) :
    Ready resolver space ref { b with tree := t } :=
  ⟨h.scan_eq, h.trimBlanks_eq, h.bound_eq, h.library⟩

theorem Ready.withUnits (h : Ready resolver space ref b) (units : List String) :
    Ready resolver space ref { b with units } :=
  ⟨h.scan_eq, h.trimBlanks_eq, h.bound_eq, h.library⟩

theorem Ready.isBound (h : Ready resolver space ref b) : b.bindings.isBound space := by
  obtain ⟨mark, hbound⟩ := h.bound_eq
  simp [Bindings.isBound, Bindings.get?, hbound]

theorem Extends.refl (h : Ready resolver space ref b) (parent : Nat) :
    Extends resolver space ref b parent .nil b :=
  ⟨.refl _ _, h⟩

theorem Extends.trans (hp : parent < b.tree.size) (h : Extends resolver space ref b parent s b')
    (h' : Extends resolver space ref b' parent s' b'') :
    Extends resolver space ref b parent (s.append s') b'' :=
  ⟨h.adds.trans hp h'.adds, h'.ready⟩

theorem adds_text {t : Tree} {n : Node} {run : TextRun} (hp : parent < t.size)
    (hn : n.children = []) (hk : n.kind = .text run) :
    Adds t parent (.text run.text .nil) (t.append parent n).2 := by
  have hopen := opened_append hp hn
  have hinner := Adds.refl (t.append parent n).2 t.size
  obtain ⟨body, hnode⟩ := hopen.new_node hinner
  refine hopen.adds hp hinner (by rw [hk]; rfl) ?_
  exact .text (Nat.le_refl _) (by rw [hopen.size_eq]; omega) (by rw [kind, hnode]; exact hk) rfl
    .nil

theorem adds_insert {t : Tree} {n : Node} {data : Insert} (hp : parent < t.size)
    (hn : n.children = []) (hk : n.kind = .insert data) (hname : n.name = "") :
    Adds t parent (.insert data.dialect data.source .nil) (t.append parent n).2 := by
  have hopen := opened_append hp hn
  have hinner := Adds.refl (t.append parent n).2 t.size
  obtain ⟨body, hnode⟩ := hopen.new_node hinner
  refine hopen.adds hp hinner (by rw [hk]; rfl) ?_
  exact .insert (Nat.le_refl _) (by rw [hopen.size_eq]; omega) (by rw [kind, hnode]; exact hk)
    (by rw [hnode]; exact hname) hopen.new_children .nil

theorem adds_partNodes {t : Tree} (hp : parent < t.size) (mark : Mark) (text : List Char)
    (consumed : Nat) (parts : List Part) :
    Adds t parent (partsShape parts) (appendAll t parent (partNodes mark text consumed parts)) := by
  induction parts generalizing t consumed with
  | nil => exact .refl _ _
  | cons part parts ih =>
    cases part with
    | text value =>
      have hsize : parent < (t.append parent
          { kind := .text (.ofText value)
            mark := mark.advance (takeBytes consumed text) }).2.size := by
        rw [size_append]
        omega
      exact (adds_text hp rfl rfl).trans hp (ih hsize consumed)
    | expr dialect source tree offset =>
      have hsize : parent < (t.append parent
          { kind := .insert { dialect, source, tree }
            mark := mark.advance (takeBytes offset text) }).2.size := by
        rw [size_append]
        omega
      exact (adds_insert hp rfl rfl rfl).trans hp (ih hsize _)

theorem addText_extends {text : List Char} {mark : Mark} {u : Unit}
    (h : addText parent text mark b = .ok u b') (hr : Ready resolver space ref b)
    (hp : parent < b.tree.size) :
    Extends resolver space ref b parent (runShape true text) b' := by
  rw [addText_eq] at h
  cases hparse : Composite.parse b.scan text with
  | error e =>
    rw [hparse] at h
    exact absurd h fail_ne_ok
  | ok composite =>
    rw [hparse] at h
    rw [hr.scan_eq] at hparse
    rw [runShape, if_neg (by simp), hparse]
    cases h
    exact ⟨adds_partNodes hp mark text 0 _, hr.withTree _⟩

theorem adds_script {t : Tree} {n : Node} {kind : ScriptKind} {code written : String}
    (hp : parent < t.size) (hn : n.children = []) (hk : n.kind = .script kind (.inline written))
    (ht : trimmed written = trimmed code) :
    Adds t parent (.script kind code .nil) (t.append parent n).2 := by
  have hopen := opened_append hp hn
  have hinner := Adds.refl (t.append parent n).2 t.size
  obtain ⟨body, hnode⟩ := hopen.new_node hinner
  have hkind : (t.append parent n).2.kind t.size = .script kind (.inline written) := by
    rw [Tree.kind, hnode]
    exact hk
  refine hopen.adds hp hinner (by rw [hk]; rfl) ?_
  refine .script (Nat.le_refl _) (by rw [hopen.size_eq]; omega) hkind (fun c hc => ?_) ?_ .nil
  · rw [hopen.new_children] at hc
    cases hc
  · rw [scriptText, scriptText?, hkind]
    exact ht

-- The code stands in a text below the node, unless there is none.
theorem adds_scriptBody {t u v : Tree} {n : Node} {kind : ScriptKind} {code : String}
    {inner : Shape} (hopen : Opened t parent n u) (hp : parent < t.size)
    (hk : n.kind = .script kind .children)
    (hcode : inner = .nil ∧ code = "" ∨ inner = .text code .nil) (hi : Adds u t.size inner v) :
    Adds t parent (.script kind code .nil) v := by
  obtain ⟨body, hnode⟩ := hopen.new_node hi
  have hkind : v.kind t.size = .script kind .children := by
    rw [Tree.kind, hnode]
    exact hk
  have hlt : t.size < v.size := by
    have := hopen.size_eq
    have := hi.size_le
    omega
  have hshown := hopen.new_shown hi
  refine hopen.adds hp hi (by rw [hk]; rfl) ?_
  suffices htext : v.scriptText t.size = code by
    refine .script (Nat.le_refl _) hlt hkind (fun c hc => ?_) (by rw [htext]) .nil
    have := hshown.bounds hc
    omega
  rw [scriptText, scriptText?, hkind]
  generalize v.children t.size = ids at hshown
  rcases hcode with ⟨rfl, rfl⟩ | rfl
  · cases hshown
    rfl
  · obtain ⟨⟩ | ⟨-, -, htext, hvalue, ⟨⟩⟩ := hshown
    simp [htext, NodeKind.run?, hvalue]

theorem libraries_addLibrary (x : Bindings) (key : String) (library : Library) :
    (x.addLibrary key library).bound = x.bound ∧
      (x.addLibrary key library).libraries = x.libraries ++ [(key, library)] := by
  unfold Bindings.addLibrary
  cases library.origin with
  | none => exact ⟨rfl, rfl⟩
  | some origin =>
    dsimp only [Bindings.addDependency]
    split <;> exact ⟨rfl, rfl⟩

theorem libraryOf_ready {mark : Mark} {library : Library} (hr : Ready resolver space ref b)
    (h : libraryOf space mark b = .ok library b') :
    (resolver.resolve ref).1 = .ok (some library) ∧ Ready resolver space ref b' ∧
      b'.tree = b.tree := by
  obtain ⟨bound, hbound⟩ := hr.bound_eq
  have hget : b.bindings.get? space = some ⟨ref, bound⟩ := by
    simp [Bindings.get?, hbound]
  unfold libraryOf at h
  obtain ⟨b₀, s₀, hstate, h⟩ := BuildM.bind_eq_ok.mp h
  cases hstate
  rw [hget] at h
  dsimp only at h
  rcases hr.library with ⟨hnone, hres⟩ | ⟨known, hone, hres⟩
  · -- The library is resolved now.
    rw [hnone, List.lookup_nil] at h
    obtain ⟨found, s₁, hresolve, h⟩ := BuildM.bind_eq_ok.mp h
    obtain ⟨hfound, rfl⟩ := resolve_eq_ok hresolve
    rw [hres] at hfound
    cases found with
    | none => exact absurd h fail_ne_ok
    | some found =>
      obtain ⟨_, s₂, hmodify, h⟩ := BuildM.bind_eq_ok.mp h
      cases hmodify
      cases h
      obtain ⟨hb, hl⟩ := libraries_addLibrary b.bindings ref.key library
      rw [hnone, List.nil_append] at hl
      exact ⟨hfound, ⟨hr.scan_eq, hr.trimBlanks_eq, ⟨bound, hb.trans hbound⟩,
        .inr ⟨library, hl, hfound⟩⟩, rfl⟩
  · have hlookup : b.bindings.libraries.lookup ref.key = some known := by simp [hone]
    rw [hlookup] at h
    cases h
    exact ⟨hres, hr, rfl⟩

-- The node that an action starts with.
theorem startAction_ready {name : String} {attrs : List Attribute} {mark : Mark} {form : UnitForm}
    {id : Nat} (hr : Ready resolver space ref b) (hspace : space ≠ standardSpace)
    {inner : String} (hname : cutString? ':' name = some (space, inner))
    (h : startAction parent name attrs mark form b = .ok id b') :
    ∃ library tag data, (resolver.resolve ref).1 = .ok (some library) ∧
      library.tag? inner = some tag ∧ data.tag = tag ∧ id = b.tree.size ∧
      b'.tree = (b.tree.append parent
        { kind := .custom data, mark, name, attributes := attrs }).2 ∧
      Ready resolver space ref b' := by
  unfold startAction at h
  obtain ⟨_, s₁, hdistinct, h⟩ := BuildM.bind_eq_ok.mp h
  rw [checkDistinct_eq_ok hdistinct, hname] at h
  dsimp only [Option.getD_some] at h
  rw [if_neg hspace] at h
  obtain ⟨kind, s₂, hkind, h⟩ := BuildM.bind_eq_ok.mp h
  unfold customKind at hkind
  obtain ⟨library, s₃, hlibrary, hkind⟩ := BuildM.bind_eq_ok.mp hkind
  obtain ⟨hres, hready, htree⟩ := libraryOf_ready hr hlibrary
  cases htag : library.tag? inner with
  | none =>
    rw [htag] at hkind
    exact absurd hkind fail_ne_ok
  | some tag =>
    rw [htag] at hkind
    obtain ⟨_, s₄, hget, hkind⟩ := BuildM.bind_eq_ok.mp hkind
    cases hget
    cases hkind
    obtain ⟨rfl, rfl⟩ := append_eq_ok h
    rw [htree]
    exact ⟨library, tag, _, hres, htag, rfl, rfl, rfl, hready.withTree _⟩

-- An action with what has been added below it is one addition to its parent.
theorem adds_action {t u v : Tree} {n : Node} {data : CustomAction} {body : Shape}
    (hopen : Opened t parent n u) (hp : parent < t.size) (hk : n.kind = .custom data)
    (hn : n.name ≠ "") (hs : ∀ a ∈ n.attributes, a.scripting = false)
    (hi : Adds u t.size body v) :
    Adds t parent (.action n.name (n.attributes.map fun a => (a.name, a.value)) body .nil) v := by
  obtain ⟨ids, hnode⟩ := hopen.new_node hi
  have hlt : t.size < v.size := by
    have := hopen.size_eq
    have := hi.size_le
    omega
  refine hopen.adds hp hi (by rw [hk]; rfl) ?_
  have hself := Shows.action (t := v) (Nat.le_refl _) hlt (by rw [kind, hnode]; exact hk)
    (by rw [hnode]; exact hn) (by rw [hnode]; exact hs) (hopen.new_shown hi) .nil
  rwa [hnode] at hself

-- An action has its node, and its body is still to come.
structure Begun (resolver : Resolver) (space : String) (ref : LibraryRef) (b : Builder)
    (parent : Nat) (name : String) (attrs : List Attribute) (b' : Builder) : Prop where
  opened : ∃ n data, Opened b.tree parent n b'.tree ∧ n.kind = .custom data ∧ n.name = name ∧
    n.attributes = attrs
  not_verbatim : bodyContent? b'.tree b.tree.size ≠ some .verbatim
  ready : Ready resolver space ref b'

theorem startAction_begun {name inner : String} {attrs : List Attribute} {mark : Mark}
    {form : UnitForm} {id : Nat} (hr : Ready resolver space ref b)
    (hspace : space ≠ standardSpace) (hname : cutString? ':' name = some (space, inner))
    (hstructured : Structured resolver ref [inner]) (hp : parent < b.tree.size)
    (h : startAction parent name attrs mark form b = .ok id b') :
    id = b.tree.size ∧ Begun resolver space ref b parent name attrs b' := by
  obtain ⟨library, tag, data, hlibrary, htag, hdata, hid, htree, hready⟩ :=
    startAction_ready hr hspace hname h
  have hopen :=
    opened_append (n := { kind := .custom data, mark, name, attributes := attrs }) hp rfl
  rw [← htree] at hopen
  refine ⟨hid, ⟨_, data, hopen, rfl, rfl, rfl⟩, ?_, hready⟩
  obtain ⟨body, hnew⟩ := hopen.new_eq
  have hcontent := hstructured library hlibrary inner (List.mem_singleton_self _) tag htag
  rw [bodyContent?, kind, hnew]
  simpa [NodeKind.custom?, hdata] using hcontent

namespace Begun

variable {name : String} {attrs : List Attribute} {body : Shape}

theorem openBody (hp : parent < b.tree.size) (h : Begun resolver space ref b parent name attrs b') :
    Begun resolver space ref b parent name attrs
      { b' with tree := b'.tree.openBody b.tree.size } := by
  obtain ⟨n, data, hopen, hk, hname, hattrs⟩ := h.opened
  refine ⟨⟨n, data, hopen.openBody hp, hk, hname, hattrs⟩, ?_, h.ready.withTree _⟩
  have hkind : (b'.tree.openBody b.tree.size).kind b.tree.size = b'.tree.kind b.tree.size := by
    rw [kind, Tree.openBody, node_modify, if_pos ⟨rfl, by rw [hopen.size_eq]; omega⟩]
    rfl
  have hcontent := h.not_verbatim
  rwa [bodyContent?, ← hkind] at hcontent

-- The node is that of an action for as long as nodes are added below it.
theorem kind_eq (h : Begun resolver space ref b parent name attrs b')
    (hi : Extends resolver space ref b' b.tree.size body b'') :
    ∃ data, b''.tree.kind b.tree.size = .custom data := by
  obtain ⟨n, data, hopen, hk, -, -⟩ := h.opened
  obtain ⟨ids, hnode⟩ := hopen.new_node hi.adds
  exact ⟨data, by rw [kind, hnode]; exact hk⟩

-- What the body adds and the end of the action make one addition to the parent.
theorem finish (hp : parent < b.tree.size) (hname : name ≠ "")
    (hattrs : ∀ a ∈ attrs, a.scripting = false)
    (h : Begun resolver space ref b parent name attrs b')
    (hi : Extends resolver space ref b' b.tree.size body b'') {b₃ : Builder} {u : Unit}
    (hf : finishElement b.tree.size b'' = .ok u b₃) :
    Extends resolver space ref b parent
      (.action name (attrs.map fun a => (a.name, a.value)) body .nil) b₃ := by
  obtain ⟨_, hkind⟩ := h.kind_eq hi
  obtain ⟨n, data, hopen, hk, rfl, rfl⟩ := h.opened
  have hnamed : ∀ c ∈ b''.tree.children b.tree.size, (b''.tree.kind c).isNamed = false :=
    fun c hc => (hopen.new_shown hi.adds).isNamed_eq_false hc
  rw [finishElement_eq (by rw [hkind]; rfl) hnamed hf]
  exact ⟨adds_action hopen hp hk hname hattrs hi.adds, hi.ready⟩

end Begun

end PageCompiler.Builder
