import PageCompiler.Proofs.Checking.Established
import PageCompiler.Proofs.Reading.DocumentStages
import PageCompiler.Proofs.Reading.Pages

namespace PageCompiler

open Text

-- The root of a node's unit is no younger than the node.
theorem Tree.unitRoot_le (t : Tree) (id : NodeId) : t.unitRoot id ≤ id := by
  unfold unitRoot
  cases hfind : (t.selfAndAncestors id).find? fun a => (t.kind a).isRoot with
  | none => exact Nat.zero_le _
  | some a => exact le_of_mem_selfAndAncestors (List.mem_of_find?_eq_some hfind)

namespace Builder

end Builder

namespace Page

open Builder

variable {o : Options} {loader : Loader} {b b' : Builder}

-- A unit that has been loaded is read stage by stage.
def ReadsStages (o : Options) (loader : Loader) (reader : UnitReader) : Prop :=
  ∀ {root : NodeId} {data : UnitRoot} {text : List Char} {b b' : Builder} {u : Unit},
    Loaded o loader data text → b.Holds data root →
      reader root data.unit text data.form b = .ok u b' → Stages (Loaded o loader) b b'

theorem includeUnit_stages {reader : UnitReader} (hr : ReadsStages o loader reader)
    {parent root : NodeId} {target : String} {origin : UnitOrigin} {mark : Mark}
    (h : includeUnit o loader reader parent target origin mark b = .ok root b')
    (hhost : b.tree.Hosts parent) : Stages (Loaded o loader) b b' := by
  unfold includeUnit at h
  obtain ⟨⟨root', unit, text, form⟩, b₂, henter, hrest⟩ := BuildM.bind_eq_ok.mp h
  obtain ⟨-, -, data, b₁, hloaded, rfl, rfl, rfl, hb₁, happend⟩ := enterUnit_eq_ok henter
  obtain ⟨_, b₃, hread, hend⟩ := BuildM.bind_eq_ok.mp hrest
  cases hend
  have hroot : b₂.tree.Hosts root := hosts_append happend (by simp)
  obtain ⟨-, rfl⟩ := append_eq_ok happend
  exact (hb₁.stages.tail (.root b₁ parent hloaded (hhost.of_extends hb₁.alike.extends))).trans
    (hr hloaded (fun _ => hroot) hread)

theorem readLevel_stages {inner : UnitReader} (hinner : ReadsStages o loader inner) :
    ReadsStages o loader (readLevel o loader inner) := by
  intro root data text b b' u hloaded hheld h
  have hi : IncludesStages (Loaded o loader) (includeUnit o loader inner) :=
    includeUnit_stages hinner
  unfold readLevel at h
  obtain ⟨_, _, hget, h⟩ := BuildM.bind_eq_ok.mp h
  cases hget
  obtain ⟨_, _, henter, h⟩ := BuildM.bind_eq_ok.mp h
  cases henter
  have hinside : Stages (Loaded o loader) b { b with units := data.unit :: b.units } :=
    .single (.enter b _)
  cases hform : data.form with
  | relaxed =>
    rw [hform] at h
    obtain ⟨_, b₁, hread, h⟩ := BuildM.bind_eq_ok.mp h
    cases h
    exact (hinside.trans (Relaxed.read_stages hi hform hloaded hheld hread)).tail (.enter b₁ _)
  | strict =>
    rw [hform] at h
    obtain ⟨_, b₁, hread, h⟩ := BuildM.bind_eq_ok.mp h
    cases h
    have hx : Strict.Context.Reads
        { root, unit := data.unit, text, keepBlanks := o.preserveXmlWhitespace
          includeUnit := includeUnit o loader inner } (Loaded o loader) data :=
      ⟨hi, rfl, hform, hloaded⟩
    exact (hinside.trans (Strict.readDocument_stages hx hread)).tail (.enter b₁ _)

-- By induction on how deep units may still include each other.
theorem readUnit_stages (o : Options) (loader : Loader) (depth : Nat) :
    ReadsStages o loader (readUnit o loader depth) := by
  induction depth with
  | zero => exact fun _ _ h => absurd h fail_ne_ok
  | succ depth ih => exact readLevel_stages ih

-- Units put in front of or behind the page.
theorem forIn_stages {reader : UnitReader} (hr : ReadsStages o loader reader) {origin : UnitOrigin}
    {mark : Mark} {names : List String} {u : PUnit}
    (hhost : b.tree.Hosts Tree.root) (h : (forIn names PUnit.unit fun name _ => do
      discard (includeUnit o loader reader Tree.root name origin mark)
      pure (ForInStep.yield PUnit.unit) : BuildM PUnit) b = .ok u b') :
    Stages (Loaded o loader) b b' := by
  have : IsPreorder Builder fun b b' => b.tree.Hosts Tree.root → Stages (Loaded o loader) b b' :=
    isPreorder_of_keeps fun hhost hb => hhost.of_extends hb.extends
  have hunit : ∀ name, Relates (fun b b' => b.tree.Hosts Tree.root → Stages (Loaded o loader) b b')
      (includeUnit o loader reader Tree.root name origin mark) :=
    fun _ _ _ _ h hhost => includeUnit_stages hr h hhost
  exact Relates.forIn hunit names h hhost

theorem hosts_ofRoot (o : Options) (data : UnitRoot) (source : String) (resolver : Resolver) :
    (ofOptions o (.ofRoot data source) resolver).tree.Hosts Tree.root :=
  ⟨Nat.zero_lt_one, nofun⟩

theorem readUnits_stages {reader : UnitReader} (hr : ReadsStages o loader reader) {data : UnitRoot}
    {text : List Char} {u : Unit} (hloaded : Loaded o loader data text)
    (hhost : b.tree.Hosts Tree.root)
    (h : readUnits o loader reader data.unit text data.form b = .ok u b') :
    Stages (Loaded o loader) b b' := by
  obtain ⟨_, b₁, _, b₂, _, hprelude, hread, hcoda⟩ := readUnits_eq_ok h
  have hbefore := forIn_stages hr hhost hprelude
  have hhost₁ := hhost.of_extends hbefore.extends
  have hpage := hr hloaded (fun _ => hhost₁) hread
  exact hbefore.trans (hpage.trans (forIn_stages hr (hhost₁.of_extends hpage.extends) hcoda))

-- The units of a page are read stage by stage from the root of the outermost one.
theorem ReadTo.stages {resolver : Resolver} {name : String} (h : ReadTo o loader resolver name b) :
    ∃ data text, Loaded o loader data text ∧
      Stages (Loaded o loader) (ofOptions o (.ofRoot data (String.ofList text)) resolver) b := by
  obtain ⟨data, text, hloaded, -, -, -, hunits⟩ := h
  exact ⟨data, text, hloaded, readUnits_stages (readUnit_stages o loader _) hloaded
    (hosts_ofRoot o data _ resolver) hunits⟩

-- A page that has been read has come about stage by stage from the root of its outermost unit.
theorem stages_read {resolver resolver' : Resolver} {name : String} {page : Page}
    (h : read o loader resolver name = (.ok page, resolver')) :
    ∃ data text b, Loaded o loader data text ∧
      Stages (Loaded o loader) (ofOptions o (.ofRoot data (String.ofList text)) resolver) b ∧
      b.tree.Alike page.tree := by
  obtain ⟨b, b', hb, hfinish⟩ := readTo_of_read h
  obtain ⟨data, text, hloaded, hstages⟩ := hb.stages
  exact ⟨data, text, b, hloaded, hstages, (finish_eq_ok hfinish).2⟩

-- What every stage gives its nodes, all nodes of the page have.
theorem forall_node_read {P : Node → Prop} (hP : Founded (Loaded o loader) P)
    {resolver resolver' : Resolver} {name : String} {page : Page}
    (h : read o loader resolver name = (.ok page, resolver')) :
    ∀ id < page.tree.size, P (page.tree.node id) := by
  obtain ⟨data, text, b, hloaded, hb, halike⟩ := stages_read h
  have hroot : ∀ id < (Tree.ofRoot data (String.ofList text)).size,
      P ((Tree.ofRoot data (String.ofList text)).node id) := by
    intro id hid
    obtain rfl : id = 0 := Nat.lt_one_iff.mp hid
    exact hP.root none hloaded
  intro id hid
  rw [halike.size_eq] at hid
  exact hP.lasting _ _ (halike.node id) (hP.stages hb hroot id hid)

-- The root of a unit tells the unit as it has been loaded.
def RootLoaded (o : Options) (loader : Loader) (n : Node) : Prop :=
  ∀ data, n.kind = .root data → ∃ text, Loaded o loader data text

theorem rootLoaded_of_ne {n : Node} (h : n.kind.root? = none) : RootLoaded o loader n :=
  fun data hdata => by
    rw [hdata] at h
    cases h

theorem founded_rootLoaded : Founded (Loaded o loader) (RootLoaded o loader) where
  lasting n m halike hn data hdata := hn data ((halike.kind.eq (by rw [hdata]; rfl)).trans hdata)
  root {data text} _ hloaded := by
    rintro _ ⟨⟩
    exact ⟨text, hloaded⟩
  run _ _ _ hparse n hn :=
    rootLoaded_of_ne (partNodes_spec _ _ _ (Composite.legible_of_parse hparse) n hn).2.1
  verbatim _ _ _ := rootLoaded_of_ne rfl
  directive _ _ _ _ _ _ _ := rootLoaded_of_ne rfl
  other _ hroot _ _ _ := rootLoaded_of_ne hroot

theorem rootLoaded_read {resolver resolver' : Resolver} {name : String} {page : Page}
    (h : read o loader resolver name = (.ok page, resolver')) {id : NodeId}
    (hid : id < page.tree.size) {data : UnitRoot} (hdata : page.tree.kind id = .root data) :
    ∃ text, Loaded o loader data text :=
  forall_node_read founded_rootLoaded h id hid data hdata

-- The root above a node tells the unit that the node is marked in.
theorem unitRoot_read {resolver resolver' : Resolver} {name : String} {page : Page}
    (h : read o loader resolver name = (.ok page, resolver')) {id : NodeId}
    (hid : id < page.tree.size) :
    ∃ data text, page.tree.kind (page.tree.unitRoot id) = .root data ∧
      (page.tree.mark id).unit = data.unit ∧ Loaded o loader data text := by
  obtain ⟨data, hdata, hunit⟩ := Tree.head?_unitsAround ((arranged_read h).unit id hid)
  obtain ⟨text, hloaded⟩ := rootLoaded_read h ((page.tree.unitRoot_le id).trans_lt hid) hdata
  exact ⟨data, text, hdata, hunit.symm, hloaded⟩

-- The attributes of a page directive are marked in its unit, and written there.
def Directed (o : Options) (loader : Loader) (n : Node) : Prop :=
  n.kind = .pageDirective → ∀ a ∈ n.attributes, a.mark.unit = n.mark.unit ∧
    ∃ (root : UnitRoot) (text raw t : List Char), Loaded o loader root text ∧
      root.unit = n.mark.unit ∧ t <:+ text ∧ a.WrittenAs raw t

theorem ne_pageDirective_of_mem_partNodes {mark : Mark}
    {text : List Char} {consumed : Nat} {parts : List Part} {n : Node}
    (h : n ∈ partNodes mark text consumed parts) : n.kind ≠ .pageDirective := by
  fun_induction partNodes mark text consumed parts with
  | case1 => cases h
  | case2 _ _ _ ih | case3 _ _ _ _ _ _ ih =>
    rcases List.mem_cons.mp h with rfl | h
    · simp
    · exact ih h

theorem founded_directed : Founded (Loaded o loader) (Directed o loader) where
  lasting n m halike hn hm := by
    have hkind : n.kind = .pageDirective := (halike.kind.eq (by rw [hm]; rfl)).trans hm
    rw [halike.attributes_eq, halike.mark_eq]
    exact hn hkind
  root _ _ h := nomatch h
  run _ _ _ _ n hn h := absurd (show n.kind = _ from h) (ne_pageDirective_of_mem_partNodes hn)
  verbatim _ _ _ h := nomatch h
  directive {data text} _ _ _ _ hloaded hmark hattrs _ a ha := by
    obtain ⟨hunit, raw, t, ht, hwritten⟩ := hattrs a ha
    exact ⟨hunit.trans hmark.symm, data, text, raw, t, hloaded, hmark.symm, ht, hwritten⟩
  other _ _ _ hpage _ h := absurd h hpage

theorem directed_read {resolver resolver' : Resolver} {name : String} {page : Page}
    (h : read o loader resolver name = (.ok page, resolver')) :
    ∀ id < page.tree.size, Directed o loader (page.tree.node id) :=
  forall_node_read founded_directed h

end Page
end PageCompiler
