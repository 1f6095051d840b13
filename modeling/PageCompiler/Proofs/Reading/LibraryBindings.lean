import PageCompiler.Proofs.Reading.BindingRuns

namespace PageCompiler

open Builder (Run Step)

namespace Bindings

-- The bound prefixes are those for which a binding is found.
theorem get?_eq_some_of_spaces {bs : Bindings} {space : String} {binding : Binding}
    (h : bs.get? space = some binding) : (space, binding) ∈ bs.spaces := by
  obtain ⟨before, behind, hbound, -⟩ := List.lookup_eq_some_iff.mp h
  rw [spaces, List.mem_mergeSort, hbound]
  simp

end Bindings

namespace Builder

variable {loader : Loader} {b b' : Builder}

-- By induction on the prefixes. What has been resolved stays resolved.
theorem libraries_run (loader : Loader) {entries : List (String × Binding)} {u : PUnit}
    (h : (forIn entries PUnit.unit fun entry _ => do
      discard (libraryOf entry.1 entry.2.mark)
      pure (ForInStep.yield PUnit.unit) : BuildM PUnit) b = .ok u b') :
    (∃ acts, Run loader b acts b') ∧ b'.bindings.bound = b.bindings.bound ∧
      ∀ entry ∈ entries, ∃ library, b'.bindings.library? entry.1 = some library := by
  induction entries generalizing b with
  | nil =>
    cases h
    exact ⟨⟨[], .refl _⟩, rfl, fun _ hentry => nomatch hentry⟩
  | cons entry entries ih =>
    rw [List.forIn_cons] at h
    obtain ⟨_, b₁, hfirst, hrest⟩ := BuildM.bind_eq_ok.mp h
    obtain ⟨_, b₂, hlibrary, hyield⟩ := BuildM.bind_eq_ok.mp hfirst
    cases hyield
    obtain ⟨library, hlibrary⟩ := BuildM.discard_eq_ok hlibrary
    obtain ⟨⟨acts, hrun⟩, hknown, hbound⟩ := libraryOf_run loader hlibrary
    obtain ⟨⟨more, hrun'⟩, hbound', hall⟩ := ih hrest
    refine ⟨⟨_, hrun.trans hrun'⟩, hbound'.trans hbound, List.forall_mem_cons.mpr ⟨?_, hall⟩⟩
    exact ⟨library, hrun'.extends.library? hknown⟩

-- In the end every bound prefix has its library.
theorem finish_run (loader : Loader) {page : Page} (h : finish b = .ok page b') :
    (∃ acts, Run loader b acts b') ∧ page.bindings = b'.bindings ∧ b'.tree.Alike page.tree ∧
      ∀ space, b'.bindings.isBound space →
        ∃ library, b'.bindings.library? space = some library := by
  unfold finish at h
  obtain ⟨_, _, hget, h₁⟩ := BuildM.bind_eq_ok.mp h
  cases hget
  obtain ⟨_, b₁, hloop, h₂⟩ := BuildM.bind_eq_ok.mp h₁
  obtain ⟨_, _, hget, h₃⟩ := BuildM.bind_eq_ok.mp h₂
  cases hget
  cases h₃
  obtain ⟨hrun, hbound, hall⟩ := libraries_run loader hloop
  refine ⟨hrun, rfl, ?_, fun space hspace => ?_⟩
  · dsimp only
    split
    · exact alike_prune _
    · exact .refl _
  · obtain ⟨binding, hget⟩ := Option.isSome_iff_exists.mp hspace
    have hsame : b.bindings.get? space = some binding := by
      rw [Bindings.get?] at hget ⊢
      rw [← hbound, hget]
    exact hall _ (Bindings.get?_eq_some_of_spaces hsame)

end Builder

namespace Page

open Builder

variable {o : Options} {loader : Loader}

theorem readAll_run {reader : UnitReader} (hr : FollowsUnits loader reader) {unit : String}
    {text : List Char} {form : UnitForm} {page : Page} {b b' : Builder}
    (h : readAll o loader reader unit text form b = .ok page b') :
    ∃ c acts more, Run loader b acts c ∧ Run loader c more b' ∧ finish c = .ok page b' := by
  have hinclude : ∀ {names : List String} {origin : UnitOrigin},
      Follows loader (forIn names PUnit.unit fun name _ => do
        discard (includeUnit o loader reader Tree.root name origin (.start unit))
        pure (ForInStep.yield PUnit.unit) : BuildM PUnit) := fun {names origin} =>
    .forIn (fun name _ _ => .bind (.discard (follows_includeUnit hr _ _ _ _)) fun _ => .pure _) _
  unfold readAll at h
  obtain ⟨_, b₁, hprelude, h₁⟩ := BuildM.bind_eq_ok.mp h
  obtain ⟨_, b₂, hunit, h₂⟩ := BuildM.bind_eq_ok.mp h₁
  obtain ⟨_, b₃, hcoda, hfinish⟩ := BuildM.bind_eq_ok.mp h₂
  obtain ⟨acts₁, hrun₁⟩ := hinclude hprelude
  obtain ⟨acts₂, hrun₂⟩ := hr _ _ _ _ hunit
  obtain ⟨acts₃, hrun₃⟩ := hinclude hcoda
  obtain ⟨⟨more, hrun⟩, -⟩ := finish_run loader hfinish
  exact ⟨b₃, _, more, (hrun₁.trans hrun₂).trans hrun₃, hrun, hfinish⟩

-- Where the reading of a page starts: the tree with nothing but its root.
def begin (o : Options) (root : UnitRoot) (text : List Char) (resolver : Resolver) : Builder :=
  .ofOptions o (Tree.ofRoot root (String.ofList text)) resolver

-- The page has been read by steps from the tree with nothing but its root.
theorem exists_run_read {resolver resolver' : Resolver} {name : String} {page : Page}
    (h : read o loader resolver name = (.ok page, resolver')) :
    ∃ root text b acts, root.unit = UnitName.normalize name ∧
      readAll o loader (readUnit o loader (loader.capacity + 1)) root.unit text root.form
        (begin o root text resolver) = .ok page b ∧
      Run loader (begin o root text resolver) acts b ∧ b.resolver = resolver' ∧
      b.bindings = page.bindings ∧ b.tree.Alike page.tree ∧
      ∀ space, page.bindings.isBound space →
        ∃ library, page.bindings.library? space = some library := by
  unfold read readWith at h
  dsimp only at h
  split at h
  · cases h
  · split at h
    · rename_i decoded _ _ _ b hrun
      cases h
      obtain ⟨c, acts, more, hacts, hmore, hfinish⟩ :=
        readAll_run (follows_readUnit o loader _) hrun
      obtain ⟨-, hbindings, halike, hlibraries⟩ := finish_run loader hfinish
      let root : UnitRoot :=
        { unit := UnitName.normalize name
          form := UnitForm.choose (UnitName.normalize name) decoded.text o.forceStrict
          origin := .page, encoding := decoded.encoding, parentRoot := none }
      refine ⟨root, decoded.text, b, _, rfl, hrun, hacts.trans hmore, rfl, hbindings.symm, halike, ?_⟩
      rw [hbindings]
      exact hlibraries
    · cases h

-- Prefixes, libraries and dependencies of a page that has been read.
theorem bindings_read {resolver resolver' : Resolver} {name : String} {page : Page}
    (h : read o loader resolver name = (.ok page, resolver')) :
    ∃ root text b acts, root.unit = UnitName.normalize name ∧
      -- The steps are those of the reading of all units.
      readAll o loader (readUnit o loader (loader.capacity + 1)) root.unit text root.form
        (begin o root text resolver) = .ok page b ∧
      Run loader (begin o root text resolver) acts b ∧
      b.resolver = resolver' ∧ b.bindings = page.bindings ∧
      (∀ space, page.bindings.isBound space →
        ∃ library, page.bindings.library? space = some library) ∧
      -- A binding stays as it was made, and no other one is made of its prefix.
      (∀ before c behind, Run loader (begin o root text resolver) before c →
        Run loader c behind b → ∀ space binding, c.bindings.get? space = some binding →
          page.bindings.get? space = some binding) ∧
      (∀ space ref, .binds space ref ∈ acts →
        ∃ mark, page.bindings.get? space = some ⟨ref, mark⟩) ∧
      -- The resolver has given each library once.
      page.bindings.libraries =
        (acts.filterMap BindingAct.resolved?).map (fun r => (r.1.key, r.2)) ∧
      ((acts.filterMap BindingAct.resolved?).map fun r => r.1.key).Nodup ∧
      -- Nodes say what the bindings say in the end.
      (∀ id < page.tree.size, ∀ data, page.tree.kind id = .custom data →
        page.bindings.library? data.space = some data.library ∧ data.uri = data.library.uri) ∧
      (∀ id < page.tree.size, page.tree.kind id = .taglibDirective → ∃ space binding,
        (page.tree.node id).value? "prefix" = some space ∧
          page.bindings.get? space = some binding ∧
          binding.ref.NamedBy (page.tree.node id).attributes) ∧
      page.bindings.dependencies.Nodup ∧
      (∀ id < page.tree.size, id ≠ Tree.root → ∀ data, page.tree.kind id = .root data →
        loader.located data.unit ∈ page.bindings.dependencies) ∧
      ∀ ref library, .resolves ref library ∈ acts → ∀ origin, library.origin = some origin →
        origin ∈ page.bindings.dependencies := by
  obtain ⟨root, text, b, acts, hunit, hread, hrun, hresolver, hbindings, halike, hlibraries⟩ :=
    exists_run_read h
  have hkept := (kept_ofRoot o root (String.ofList text) resolver).run hrun
  rw [List.nil_append] at hkept
  have hroot : page.tree.kind Tree.root = .root root := by
    have hstart := hrun.tree_extends.node Tree.root Nat.zero_lt_one
    exact (hstart.trans (halike.node Tree.root)).kind.eq_of_run? rfl
  have hbacked : ∀ id < page.tree.size, id ≠ Tree.root →
      (page.tree.node id).Backed loader page.bindings := fun id hid hne =>
    hbindings ▸ (halike.node id).backed (hkept.nodes id (hid.trans_eq halike.size_eq) hne)
  have hne : ∀ {id kind}, page.tree.kind id = kind → kind.root? = none → id ≠ Tree.root := by
    rintro _ _ hkind hnone rfl
    rw [hroot] at hkind
    rw [← hkind] at hnone
    cases hnone
  refine ⟨root, text, b, acts, hunit, hread, hrun, hresolver, hbindings, hlibraries,
    ?_, ?_, ?_, ?_, ?_, ?_, ?_, ?_, ?_⟩
  · intro _ c _ _ hbehind space binding hget
    exact hbindings ▸ hbehind.extends.get? hget
  · rw [← hbindings]
    exact hkept.bound
  · rw [← hbindings]
    exact hkept.libraries_eq
  · have hkeys := hkept.keys
    rw [hkept.libraries_eq, List.map_map] at hkeys
    exact hkeys
  · intro id hid data hkind
    exact (hbacked id hid (hne hkind rfl)).custom data (congrArg NodeKind.custom? hkind)
  · intro id hid hkind
    exact (hbacked id hid (hne hkind rfl)).taglib hkind
  · rw [← hbindings]
    exact hkept.dependencies
  · intro id hid hne data hkind
    exact (hbacked id hid hne).root data (congrArg NodeKind.root? hkind)
  · intro ref library hmem origin horigin
    rw [← hbindings]
    refine hkept.origins (ref.key, library) ?_ origin horigin
    rw [hkept.libraries_eq]
    exact List.mem_map.mpr ⟨(ref, library), List.mem_filterMap.mpr ⟨_, hmem, rfl⟩, rfl⟩

end Page

-- A library from a file.
def filedLibrary : Library := { layoutLibrary with origin := some "sample.tld.yaml" }

-- A page that binds a prefix, and includes a document that binds it once more and is the first to
-- use it.
def boundTwice : Loader :=
  .ofUnits
    [("main.page", Text.Utf8.ofString
        "<%@ taglib prefix=\"s\" uri=\"urn:sample\" %><%@ include file=\"part.pagx\" %><s:panel/>"),
      ("part.pagx", Text.Utf8.ofString "<b xmlns:s=\"urn:sample\"><s:panel/></b>")]

-- The library has been resolved once, by the document.
theorem Page.bindings_read_sample :
    ∃ page resolver, Page.read {} boundTwice (.ofLibraries [filedLibrary]) "main.page" =
        (.ok page, resolver) ∧
      ∃ root text b acts,
        Run boundTwice (Page.begin {} root text (.ofLibraries [filedLibrary])) acts b ∧
        (acts.filterMap BindingAct.resolved?).length = 1 ∧
        (∃ library, page.bindings.library? "s" = some library) ∧
        ∃ id < page.tree.size, ∃ data, page.tree.kind id = .custom data ∧
          page.bindings.library? data.space = some data.library ∧
          page.bindings.dependencies = ["/part.pagx", "sample.tld.yaml"] := by
  have hrun : Page.passes {} boundTwice (.ofLibraries [filedLibrary]) "main.page" (fun page =>
      page.bindings.isBound "s" && page.bindings.libraries.length == 1 &&
        page.bindings.dependencies == ["/part.pagx", "sample.tld.yaml"] &&
        (List.range page.tree.size).any fun id => (page.tree.kind id).custom?.isSome) := by
    rw [boundTwice, Text.Utf8.ofString_ofList, Text.Utf8.ofString_ofList]
    decide +kernel
  obtain ⟨page, resolver, h, htest⟩ := Page.of_passes hrun
  simp only [Bool.and_eq_true, beq_iff_eq] at htest
  obtain ⟨⟨⟨hs, hone⟩, hdependencies⟩, hcustom⟩ := htest
  obtain ⟨root, text, b, acts, -, -, hrun, -, -, hlibraries, -, -, hresolved, -, hcustoms, -⟩ :=
    Page.bindings_read h
  obtain ⟨id, hid, hcustom⟩ := List.any_eq_true.mp hcustom
  obtain ⟨data, hdata⟩ := Option.isSome_iff_exists.mp hcustom
  rw [NodeKind.custom?_eq_some] at hdata
  rw [hresolved, List.length_map] at hone
  exact ⟨page, resolver, h, root, text, b, acts, hrun, hone, hlibraries "s" hs, id,
    List.mem_range.mp hid, data, hdata, (hcustoms id (List.mem_range.mp hid) data hdata).1,
    hdependencies⟩

end PageCompiler
