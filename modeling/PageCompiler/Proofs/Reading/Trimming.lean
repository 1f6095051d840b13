import PageCompiler.Proofs.Checking.ScannedRuns

namespace PageCompiler

-- No unit is a document.
def Tree.IsRelaxed (t : Tree) : Prop :=
  ∀ id < t.size, ∀ data, t.kind id = .root data → data.form = .relaxed

theorem Tree.Alike.isRelaxed_iff {t u : Tree} (h : t.Alike u) : u.IsRelaxed ↔ t.IsRelaxed := by
  constructor
  · intro hu id hid data hk
    have hkind : u.kind id = t.kind id := (h.node id).kind.eq_of_run? (by rw [← kind, hk]; rfl)
    exact hu id (h.size_eq ▸ hid) data (hkind.trans hk)
  · intro ht id hid data hk
    have hkind : t.kind id = u.kind id := (h.node id).kind.eq (by rw [← kind, hk]; rfl)
    exact ht id (h.size_eq ▸ hid) data (hkind.trans hk)

theorem Tree.Extends.pageDirective_iff {t u : Tree} (h : t.Extends u) {id : NodeId}
    (hid : id < t.size) : u.kind id = .pageDirective ↔ t.kind id = .pageDirective := by
  rw [← Settings.isPageDirective_iff, Tree.kind, (h.node id hid).kind.isPageDirective_eq,
    Settings.isPageDirective_iff]
  rfl

namespace Builder

def trimName : String := "trimDirectiveWhitespaces"

variable {o : Options} {units : Units} {b b' : Builder}

-- A page directive has told whether blanks are trimmed, or none has and it is as configured.
def TrimTold (o : Options) (b : Builder) : Prop :=
  (∃ id < b.tree.size, b.tree.kind id = .pageDirective ∧
    ∃ a ∈ (b.tree.node id).attributes, a.name = trimName ∧ Text.isTrue a.value = b.trimBlanks) ∨
  b.trimBlanks = o.trimDirectiveWhitespaces ∧ ∀ id < b.tree.size, b.tree.kind id = .pageDirective →
    ∀ a ∈ (b.tree.node id).attributes, a.name ≠ trimName

-- Nodes that do not tell it change nothing.
theorem TrimTold.of_extends (h : b.TrimTold o) (he : b.tree.Extends b'.tree)
    (htrim : b'.trimBlanks = b.trimBlanks)
    (hnew : ∀ id, b.tree.size ≤ id → id < b'.tree.size → b'.tree.kind id = .pageDirective →
      ∀ a ∈ (b'.tree.node id).attributes, a.name ≠ trimName) : b'.TrimTold o := by
  rcases h with ⟨id, hid, hkind, a, ha, hname, hvalue⟩ | ⟨hconfigured, hnone⟩
  · refine .inl ⟨id, hid.trans_le he.size_le, (he.pageDirective_iff hid).mpr hkind, a, ?_, hname,
      hvalue.trans htrim.symm⟩
    rwa [(he.node id hid).attributes_eq]
  · refine .inr ⟨htrim.trans hconfigured, fun id hid hkind a ha => ?_⟩
    rcases Nat.lt_or_ge id b.tree.size with hlt | hge
    · rw [(he.node id hlt).attributes_eq] at ha
      exact hnone id hlt ((he.pageDirective_iff hlt).mp hkind) a ha
    · exact hnew id hge hid hkind a ha

theorem trimBlanks_applyPageAttribute (b : Builder) (a : Attribute) :
    (applyPageAttribute b a).trimBlanks =
      if a.name = trimName then Text.isTrue a.value else b.trimBlanks := by
  unfold applyPageAttribute
  split
  case h_3 hname => exact (if_pos hname).symm
  case h_4 hname => exact (if_neg hname).symm
  all_goals
    rename_i hname
    rw [hname]
    rfl

-- The last attribute that tells it counts.
theorem trimBlanks_applyPageAttributes (b : Builder) (attrs : List Attribute) :
    (∃ a ∈ attrs, a.name = trimName ∧
      Text.isTrue a.value = (attrs.foldl applyPageAttribute b).trimBlanks) ∨
    (attrs.foldl applyPageAttribute b).trimBlanks = b.trimBlanks ∧
      ∀ a ∈ attrs, a.name ≠ trimName := by
  induction attrs generalizing b with
  | nil => exact .inr ⟨rfl, fun _ ha => nomatch ha⟩
  | cons a attrs ih =>
    rw [List.foldl_cons]
    rcases ih (applyPageAttribute b a) with ⟨c, hc, hname, hvalue⟩ | ⟨hkept, hnone⟩
    · exact .inl ⟨c, List.mem_cons_of_mem _ hc, hname, hvalue⟩
    · rw [trimBlanks_applyPageAttribute] at hkept
      by_cases hname : a.name = trimName
      · rw [if_pos hname] at hkept
        exact .inl ⟨a, List.mem_cons_self .., hname, hkept.symm⟩
      · rw [if_neg hname] at hkept
        exact .inr ⟨hkept, List.forall_mem_cons.mpr ⟨hname, hnone⟩⟩

theorem node_append_new {t : Tree} {parent : NodeId} {n : Node} {id : NodeId} (hle : t.size ≤ id)
    (hlt : id < (t.append parent n).2.size) :
    (t.append parent n).2.node id = { n with parent := some parent } := by
  rw [Tree.size_append] at hlt
  obtain rfl : id = t.size := Nat.le_antisymm (Nat.le_of_lt_succ hlt) hle
  exact Tree.node_append_last ..

theorem TrimTold.append (h : b.TrimTold o) {parent : NodeId} {n : Node}
    (hn : n.kind ≠ .pageDirective) :
    TrimTold o { b with tree := (b.tree.append parent n).2 } := by
  refine h.of_extends (Tree.extends_append ..) rfl fun id hle hlt hkind => absurd ?_ hn
  rwa [Tree.kind, node_append_new hle hlt] at hkind

theorem Stage.trimTold (hs : Stage units b b') (h : b.TrimTold o) : b'.TrimTold o := by
  have hextends := hs.extends
  cases hs with
  | quiet hq =>
    refine h.of_extends hextends hq.trimBlanks_eq fun id hle hlt => ?_
    rw [hq.alike.size_eq] at hlt
    exact absurd hlt (Nat.not_lt.mpr hle)
  | enter => exact h
  | root => exact h.append (by simp)
  | verbatim => exact h.append (by simp)
  | other parent n hunit hheld hmark hroot htext hpage hinsert => exact h.append hpage
  | @run parent data text mark ls c hunit hheld hrun hparse =>
    refine h.of_extends hextends rfl fun id hle hlt hkind => absurd hkind ?_
    obtain ⟨k, rfl⟩ := Nat.exists_eq_add_of_le hle
    have hk : k < (partNodes mark ls.values 0 c.parts).length := by
      rw [size_appendAll] at hlt
      exact Nat.lt_of_add_lt_add_left hlt
    have halike := alike_appendAll b.tree parent (List.getElem?_eq_getElem hk)
    rw [← Settings.isPageDirective_iff, Tree.kind, halike.kind.isPageDirective_eq,
      Settings.isPageDirective_iff]
    have hne := Page.ne_pageDirective_of_mem_partNodes (List.getElem_mem hk)
    exact hne
  | @directive parent data text name attrs mark =>
    rcases trimBlanks_applyPageAttributes b attrs with ⟨a, ha, hname, hvalue⟩ | ⟨hkept, hnone⟩
    · refine .inl ⟨b.tree.size, ?_, ?_, a, ?_, hname, hvalue⟩
      · rw [Tree.size_append]
        exact Nat.lt_succ_self _
      · rw [Tree.kind, Tree.node_append_last]
      · rwa [Tree.node_append_last]
    · refine h.of_extends hextends hkept fun id hle hlt _ a ha => hnone a ?_
      rwa [node_append_new hle hlt] at ha

theorem Stages.trimTold (hs : Stages units b b') (h : b.TrimTold o) : b'.TrimTold o := by
  induction hs with
  | refl => exact h
  | tail _ hs ih => exact hs.trimTold ih

end Builder

namespace Page

variable {o : Options} {loader : Loader} {resolver resolver' : Resolver} {name : String}
  {page : Page} {b b' : Builder}

theorem ReadTo.trimTold (h : ReadTo o loader resolver name b) : b.TrimTold o := by
  obtain ⟨data, text, -, hstages⟩ := h.stages
  refine hstages.trimTold (.inr ⟨rfl, fun id hid hkind => ?_⟩)
  obtain rfl : id = 0 := Nat.lt_one_iff.mp hid
  cases hkind

-- In a page whose units are no documents all page directives are reconciled, and blanks are trimmed
-- at the end of reading exactly if the settings of the page say so.
theorem trimBlanks_eq_settings (h : read o loader resolver name = (.ok page, resolver'))
    (hread : ReadTo o loader resolver name b) (hfinish : Builder.finish b = .ok page b')
    {settings : Settings} (hreconcile : Settings.reconcile page.tree o = .ok settings)
    (hrelaxed : page.tree.IsRelaxed) : settings.trimDirectiveWhitespaces = b.trimBlanks := by
  have hwf := wellFormed_read h
  have halike := (Builder.finish_eq_ok hfinish).2
  have hiff : ∀ {id : NodeId}, id < b.tree.size →
      (page.tree.kind id = .pageDirective ↔ b.tree.kind id = .pageDirective) :=
    halike.extends.pageDirective_iff
  obtain ⟨htold, huntold⟩ :=
    Settings.value_of_reconcile Settings.governs_trimDirectiveWhitespaces hreconcile
  rcases hread.trimTold with ⟨id, hid, hkind, a, ha, hname, hvalue⟩ | ⟨hconfigured, hnone⟩
  · have hid' : id < page.tree.size := halike.size_eq ▸ hid
    have hpage := (hiff hid).mpr hkind
    have hreach : page.tree.Reachable id := by
      refine (reachable_or_blank (arranged_read h) hid').resolve_right fun hblank => ?_
      rw [hpage] at hblank
      cases hblank
    have hentered := Settings.mem_entered_of_flat hwf (flat_read h hrelaxed) hreach
    rw [← (halike.node id).attributes_eq] at ha
    rw [← hvalue]
    exact htold ⟨id, a⟩ (Tree.mem_directed.mpr ⟨hentered, hpage, ha⟩) hname
  · rw [hconfigured]
    refine huntold fun d hd hname => ?_
    obtain ⟨hentered, hkind, ha⟩ := Tree.mem_directed.mp hd
    have hid : d.directive < b.tree.size :=
      halike.size_eq ▸ Tree.lt_size_of_mem_entered hwf _ hentered
    rw [(halike.node d.directive).attributes_eq] at ha
    exact hnone d.directive hid ((hiff hid).mp hkind) d.attr ha hname

end Page
end PageCompiler
