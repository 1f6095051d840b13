import PageCompiler.Proofs.Reading.Growth
import PageCompiler.Reading.Unit

-- Prefixes are bound and libraries resolved in between making nodes, and a node is made only when
-- what it says about them is known; so that whatever has been said is true of the finished page.
namespace PageCompiler

-- The file on which a page depends that includes a unit.
def Loader.located (loader : Loader) (unit : String) : String := (loader.locate? unit).getD unit

namespace Bindings

variable {bs bs' bs'' : Bindings}

-- What is known of prefixes, libraries and dependencies stays known.
structure Extends (bs bs' : Bindings) : Prop where
  get? : ∀ {space binding}, bs.get? space = some binding → bs'.get? space = some binding
  lookup : ∀ {key library}, bs.libraries.lookup key = some library →
    bs'.libraries.lookup key = some library
  subset : bs.dependencies ⊆ bs'.dependencies

theorem Extends.refl (bs : Bindings) : Extends bs bs := ⟨id, id, List.Subset.refl _⟩

theorem Extends.trans (h : Extends bs bs') (h' : Extends bs' bs'') : Extends bs bs'' :=
  ⟨fun hb => h'.get? (h.get? hb), fun hl => h'.lookup (h.lookup hl),
    fun _ hmem => h'.subset (h.subset hmem)⟩

theorem library?_eq_some {space : String} {library : Library} :
    bs.library? space = some library ↔
      ∃ binding, bs.get? space = some binding ∧ bs.libraries.lookup binding.ref.key = some library := by
  simp only [library?, Option.bind_eq_bind, Option.bind_eq_some_iff]

theorem Extends.library? (h : Extends bs bs') {space : String} {library : Library}
    (hl : bs.library? space = some library) : bs'.library? space = some library := by
  obtain ⟨binding, hb, hl⟩ := library?_eq_some.mp hl
  exact library?_eq_some.mpr ⟨binding, h.get? hb, h.lookup hl⟩

theorem get?_bind_self {space : String} {binding : Binding} (h : bs.get? space = none) :
    (bs.bind space binding).get? space = some binding := by
  rw [get?] at h
  rw [get?, bind, List.lookup_append, h, Option.none_or, List.lookup_cons_self]

theorem extends_bind (bs : Bindings) (space : String) (binding : Binding) :
    Extends bs (bs.bind space binding) where
  get? hb := by
    rw [Bindings.get?] at hb ⊢
    rw [bind, List.lookup_append, hb, Option.some_or]
  lookup := id
  subset := List.Subset.refl _

@[simp] theorem bound_addDependency (bs : Bindings) (name : String) :
    (bs.addDependency name).bound = bs.bound := by
  unfold addDependency
  split <;> rfl

@[simp] theorem libraries_addDependency (bs : Bindings) (name : String) :
    (bs.addDependency name).libraries = bs.libraries := by
  unfold addDependency
  split <;> rfl

theorem mem_addDependency {name other : String} :
    other ∈ (bs.addDependency name).dependencies ↔ other ∈ bs.dependencies ∨ other = name := by
  unfold addDependency
  split
  · rename_i hknown
    refine (or_iff_left_of_imp ?_).symm
    rintro rfl
    simpa using hknown
  · rw [List.mem_append, List.mem_singleton]

theorem nodup_addDependency {name : String} (h : bs.dependencies.Nodup) :
    (bs.addDependency name).dependencies.Nodup := by
  unfold addDependency
  split
  · exact h
  · rename_i hnew
    refine List.nodup_append.mpr ⟨h, List.nodup_singleton name, ?_⟩
    rintro a ha b hb rfl
    rw [List.mem_singleton.mp hb] at ha
    simp [ha] at hnew

theorem extends_addDependency (bs : Bindings) (name : String) :
    Extends bs (bs.addDependency name) where
  get? hb := by rwa [Bindings.get?, bound_addDependency]
  lookup hl := by rwa [libraries_addDependency]
  subset := fun _ hmem => mem_addDependency.mpr (.inl hmem)

@[simp] theorem bound_addLibrary (bs : Bindings) (key : String) (library : Library) :
    (bs.addLibrary key library).bound = bs.bound := by
  unfold addLibrary
  dsimp only
  split
  · exact bound_addDependency _ _
  · rfl

theorem libraries_addLibrary (bs : Bindings) (key : String) (library : Library) :
    (bs.addLibrary key library).libraries = bs.libraries ++ [(key, library)] := by
  unfold addLibrary
  dsimp only
  split
  · rw [libraries_addDependency]
  · rfl

theorem mem_dependencies_addLibrary {key other : String} {library : Library} :
    other ∈ (bs.addLibrary key library).dependencies ↔
      other ∈ bs.dependencies ∨ library.origin = some other := by
  unfold addLibrary
  dsimp only
  split
  · rename_i origin horigin
    rw [mem_addDependency, horigin, Option.some.injEq, eq_comm]
  · rename_i hnone
    simp [hnone]

theorem nodup_addLibrary {key : String} {library : Library} (h : bs.dependencies.Nodup) :
    (bs.addLibrary key library).dependencies.Nodup := by
  unfold addLibrary
  dsimp only
  split
  · exact nodup_addDependency h
  · exact h

theorem extends_addLibrary (bs : Bindings) (key : String) (library : Library) :
    Extends bs (bs.addLibrary key library) where
  get? hb := by rwa [Bindings.get?, bound_addLibrary]
  lookup hl := by rw [libraries_addLibrary, List.lookup_append, hl, Option.some_or]
  subset := fun _ hmem => mem_dependencies_addLibrary.mpr (.inl hmem)

end Bindings

-- The library that the attributes of a directive name.
def LibraryRef.NamedBy (ref : LibraryRef) (attrs : List Attribute) : Prop :=
  match ref with
  | .uri name => Attribute.find? attrs "uri" = some name
  | .tagDirectory directory => Attribute.find? attrs "tagdir" = some directory

-- What a node says about prefixes, libraries and units is true of the bindings.
structure Node.Backed (loader : Loader) (bs : Bindings) (n : Node) : Prop where
  root : ∀ data, n.kind.root? = some data → loader.located data.unit ∈ bs.dependencies
  custom : ∀ data, n.kind.custom? = some data →
    bs.library? data.space = some data.library ∧ data.uri = data.library.uri
  taglib : n.kind = .taglibDirective → ∃ space binding,
    Attribute.find? n.attributes "prefix" = some space ∧ bs.get? space = some binding ∧
      binding.ref.NamedBy n.attributes

theorem Node.Backed.of_extends {loader : Loader} {bs bs' : Bindings} {n : Node}
    (h : n.Backed loader bs) (hext : bs.Extends bs') : n.Backed loader bs' where
  root data hdata := hext.subset (h.root data hdata)
  custom data hdata := ⟨hext.library? (h.custom data hdata).1, (h.custom data hdata).2⟩
  taglib hkind := by
    obtain ⟨space, binding, hspace, hbound, href⟩ := h.taglib hkind
    exact ⟨space, binding, hspace, hext.get? hbound, href⟩

theorem Node.Alike.backed {loader : Loader} {bs : Bindings} {n m : Node} (h : n.Alike m)
    (hn : n.Backed loader bs) : m.Backed loader bs := by
  obtain ⟨hkind, -, -, hattributes, -⟩ := h
  generalize hk : n.kind = k at hkind
  generalize hk' : m.kind = k' at hkind
  cases hkind with
  | same =>
    have heq : m.kind = n.kind := hk'.trans hk.symm
    exact ⟨heq ▸ hn.root, heq ▸ hn.custom, by rw [heq, hattributes]; exact hn.taglib⟩
  | text => exact ⟨by simp [hk', NodeKind.root?], by simp [hk', NodeKind.custom?], by simp [hk']⟩

-- A node that says nothing about them.
theorem Node.backed_of_plain {loader : Loader} {bs : Bindings} {n : Node}
    (hroot : n.kind.root? = none) (hcustom : n.kind.custom? = none)
    (htaglib : n.kind ≠ .taglibDirective) : n.Backed loader bs :=
  ⟨by simp [hroot], by simp [hcustom], fun hkind => absurd hkind htaglib⟩

-- What is seen from outside: prefixes bound to libraries, and libraries given by the resolver.
inductive BindingAct where
  | binds (space : String) (ref : LibraryRef)
  | resolves (ref : LibraryRef) (library : Library)

def BindingAct.resolved? : BindingAct → Option (LibraryRef × Library)
  | .resolves ref library => some (ref, library)
  | _ => none

namespace Builder

inductive Step (loader : Loader) : Builder → List BindingAct → Builder → Prop
  -- Neither the tree nor what is known of libraries changes.
  | mode {b b' : Builder} (htree : b'.tree = b.tree) (hbindings : b'.bindings = b.bindings)
      (hresolver : b'.resolver = b.resolver) : Step loader b [] b'
  | tidy {b : Builder} {t : Tree} (h : b.tree.Alike t) : Step loader b [] { b with tree := t }
  | node {b : Builder} (parent : NodeId) {n : Node} (h : n.Backed loader b.bindings) :
      Step loader b [] { b with tree := (b.tree.append parent n).2 }
  | depend (b : Builder) (name : String) :
      Step loader b [] { b with bindings := b.bindings.addDependency name }
  | bind {b : Builder} {space : String} (ref : LibraryRef) (mark : Mark)
      (hnew : b.bindings.get? space = none) :
      Step loader b [.binds space ref] { b with bindings := b.bindings.bind space ⟨ref, mark⟩ }
  | again {b : Builder} {space : String} {binding : Binding}
      (hbound : b.bindings.get? space = some binding) :
      Step loader b [.binds space binding.ref] b
  -- The resolver is asked in vain.
  | miss {b : Builder} {ref : LibraryRef} (hnew : b.bindings.libraries.lookup ref.key = none)
      (hasked : (b.resolver.resolve ref).1 = .ok none) :
      Step loader b [] { b with resolver := (b.resolver.resolve ref).2 }
  | resolve {b : Builder} {ref : LibraryRef} {library : Library}
      (hnew : b.bindings.libraries.lookup ref.key = none)
      (hasked : (b.resolver.resolve ref).1 = .ok (some library)) :
      Step loader b [.resolves ref library]
        { b with
          resolver := (b.resolver.resolve ref).2
          bindings := b.bindings.addLibrary ref.key library }

-- Steps one after the other, with what is seen of them.
inductive Run (loader : Loader) : Builder → List BindingAct → Builder → Prop
  | refl (b : Builder) : Run loader b [] b
  | tail {b c d : Builder} {acts more : List BindingAct} (h : Run loader b acts c)
      (hstep : Step loader c more d) : Run loader b (acts ++ more) d

variable {loader : Loader} {b b' c d : Builder} {acts more : List BindingAct}

theorem Run.single (h : Step loader b acts c) : Run loader b acts c := (Run.refl b).tail h

theorem Run.trans (h : Run loader b acts c) (h' : Run loader c more d) :
    Run loader b (acts ++ more) d := by
  induction h' with
  | refl =>
    rw [List.append_nil]
    exact h
  | tail _ hstep ih =>
    rw [← List.append_assoc]
    exact ih.tail hstep

theorem Step.extends (h : Step loader b acts c) : b.bindings.Extends c.bindings := by
  cases h with
  | mode _ hbindings _ =>
    rw [hbindings]
    exact .refl _
  | depend => exact Bindings.extends_addDependency _ _
  | bind => exact Bindings.extends_bind _ _ _
  | resolve => exact Bindings.extends_addLibrary _ _ _
  | _ => exact .refl _

theorem Run.extends (h : Run loader b acts c) : b.bindings.Extends c.bindings := by
  induction h with
  | refl => exact .refl _
  | tail _ hstep ih => exact ih.trans hstep.extends

theorem Step.tree_extends (h : Step loader b acts c) : b.tree.Extends c.tree := by
  cases h with
  | mode htree _ _ =>
    rw [htree]
    exact .refl _
  | tidy halike => exact halike.extends
  | node parent _ => exact Tree.extends_append _ _ _
  | _ => exact .refl _

theorem Run.tree_extends (h : Run loader b acts c) : b.tree.Extends c.tree := by
  induction h with
  | refl => exact .refl _
  | tail _ hstep ih => exact ih.trans hstep.tree_extends

-- What is known of the state behind a run that started with nothing.
structure Kept (loader : Loader) (b : Builder) (acts : List BindingAct) : Prop where
  nodes : ∀ id < b.tree.size, id ≠ Tree.root → (b.tree.node id).Backed loader b.bindings
  bound : ∀ space ref, .binds space ref ∈ acts →
    ∃ mark, b.bindings.get? space = some ⟨ref, mark⟩
  libraries_eq : b.bindings.libraries =
    (acts.filterMap BindingAct.resolved?).map fun r => (r.1.key, r.2)
  keys : (b.bindings.libraries.map Prod.fst).Nodup
  dependencies : b.bindings.dependencies.Nodup
  origins : ∀ entry ∈ b.bindings.libraries, ∀ origin, entry.2.origin = some origin →
    origin ∈ b.bindings.dependencies

-- A node was there before, or the bindings tell what it says.
theorem Step.nodes (h : Step loader b acts c) {id : NodeId} (hid : id < c.tree.size) :
    id < b.tree.size ∧ (b.tree.node id).Alike (c.tree.node id) ∨
      (c.tree.node id).Backed loader c.bindings := by
  cases h with
  | mode htree _ _ =>
    rw [htree] at hid ⊢
    exact .inl ⟨hid, .refl _⟩
  | tidy halike => exact .inl ⟨hid.trans_eq halike.size_eq, halike.node id⟩
  | node parent hbacked =>
    rcases Nat.lt_succ_iff_lt_or_eq.mp (hid.trans_eq Tree.size_append) with hold | rfl
    · exact .inl ⟨hold, (Tree.extends_append _ _ _).node id hold⟩
    · right
      rw [Tree.node_append_last]
      exact ⟨hbacked.root, hbacked.custom, hbacked.taglib⟩
  | _ => exact .inl ⟨hid, .refl _⟩

theorem Step.binds (h : Step loader b acts c) {space : String} {ref : LibraryRef}
    (hmem : .binds space ref ∈ acts) : ∃ mark, c.bindings.get? space = some ⟨ref, mark⟩ := by
  cases h with
  | bind ref' mark hnew =>
    obtain ⟨rfl, rfl⟩ : space = _ ∧ ref = _ := by simpa using hmem
    exact ⟨mark, Bindings.get?_bind_self hnew⟩
  | again hbound =>
    obtain ⟨rfl, rfl⟩ : space = _ ∧ ref = _ := by simpa using hmem
    exact ⟨_, hbound⟩
  | resolve => simp at hmem
  | _ => cases hmem

theorem Step.libraries_eq (h : Step loader b acts c) : c.bindings.libraries =
    b.bindings.libraries ++
      (acts.filterMap BindingAct.resolved?).map fun r => (r.1.key, r.2) := by
  cases h with
  | mode _ hbindings _ => simp [hbindings]
  | depend => simp
  | bind => simp [Bindings.bind, BindingAct.resolved?]
  | again => simp [BindingAct.resolved?]
  | resolve => simp [Bindings.libraries_addLibrary, BindingAct.resolved?]
  | _ => simp

-- The resolver is asked only for what is not known yet.
theorem Step.keys (h : Step loader b acts c) (hkeys : (b.bindings.libraries.map Prod.fst).Nodup) :
    (c.bindings.libraries.map Prod.fst).Nodup := by
  cases h with
  | mode _ hbindings _ => rwa [hbindings]
  | depend => rwa [Bindings.libraries_addDependency]
  | resolve hnew _ =>
    rw [Bindings.libraries_addLibrary, List.map_append]
    refine List.nodup_append.mpr ⟨hkeys, List.nodup_singleton _, ?_⟩
    rintro key hmem _ hlast rfl
    rw [List.mem_singleton.mp hlast] at hmem
    obtain ⟨entry, hentry, hkey⟩ := List.mem_map.mp hmem
    have hnone := List.lookup_eq_none_iff.mp hnew entry hentry
    simp [hkey] at hnone
  | _ => exact hkeys

theorem Step.dependencies (h : Step loader b acts c) (hnodup : b.bindings.dependencies.Nodup) :
    c.bindings.dependencies.Nodup := by
  cases h with
  | mode _ hbindings _ => rwa [hbindings]
  | depend => exact Bindings.nodup_addDependency hnodup
  | resolve => exact Bindings.nodup_addLibrary hnodup
  | _ => exact hnodup

theorem Step.origins (h : Step loader b acts c)
    (horigins : ∀ entry ∈ b.bindings.libraries, ∀ origin, entry.2.origin = some origin →
      origin ∈ b.bindings.dependencies) :
    ∀ entry ∈ c.bindings.libraries, ∀ origin, entry.2.origin = some origin →
      origin ∈ c.bindings.dependencies := by
  intro entry hentry origin horigin
  rw [h.libraries_eq] at hentry
  rcases List.mem_append.mp hentry with hentry | hentry
  · exact h.extends.subset (horigins entry hentry origin horigin)
  · cases h with
    | @resolve ref library _ _ =>
      obtain rfl : entry = (ref.key, library) := by simpa [BindingAct.resolved?] using hentry
      exact Bindings.mem_dependencies_addLibrary.mpr (.inr horigin)
    | _ => simp [BindingAct.resolved?] at hentry

theorem Kept.step (h : Kept loader b acts) (hstep : Step loader b more c) :
    Kept loader c (acts ++ more) where
  nodes id hid hne := by
    rcases hstep.nodes hid with ⟨hold, halike⟩ | hbacked
    · exact halike.backed ((h.nodes id hold hne).of_extends hstep.extends)
    · exact hbacked
  bound space ref hmem := by
    rcases List.mem_append.mp hmem with hmem | hmem
    · obtain ⟨mark, hm⟩ := h.bound space ref hmem
      exact ⟨mark, hstep.extends.get? hm⟩
    · exact hstep.binds hmem
  libraries_eq := by
    rw [hstep.libraries_eq, h.libraries_eq, List.filterMap_append, List.map_append]
  keys := hstep.keys h.keys
  dependencies := hstep.dependencies h.dependencies
  origins := hstep.origins h.origins

-- Before anything is read there is nothing but the root.
theorem kept_ofRoot (o : Options) (root : UnitRoot) (text : String) (resolver : Resolver) :
    Kept loader (.ofOptions o (Tree.ofRoot root text) resolver) [] where
  nodes _ hid hne := absurd (Nat.lt_one_iff.mp hid) hne
  bound _ _ hmem := nomatch hmem
  libraries_eq := rfl
  keys := List.nodup_nil
  dependencies := List.nodup_nil
  origins _ hentry := nomatch hentry

-- By induction on the steps.
theorem Kept.run (h : Kept loader b acts) (hrun : Run loader b more c) :
    Kept loader c (acts ++ more) := by
  induction hrun with
  | refl =>
    rw [List.append_nil]
    exact h
  | tail _ hstep ih =>
    rw [← List.append_assoc]
    exact ih.step hstep

end Builder
end PageCompiler
