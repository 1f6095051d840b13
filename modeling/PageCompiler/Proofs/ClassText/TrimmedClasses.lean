import PageCompiler.Proofs.Checking.Shedding
import PageCompiler.Proofs.ClassText.Hushing
import PageCompiler.Proofs.Reading.Pruning
import PageCompiler.Proofs.Reading.TrimIndependence
import PageCompiler.Proofs.Reading.Trimming

-- Classes of pages that trim their blanks. Such a page has the class that it has without trimming,
-- with nothing written for any blank outside of text elements. The test for blanks behind
-- directives never applies, since no such blank is left when the class is written.
namespace PageCompiler

variable {o : Options} {loader : Loader} {resolver resolver' : Resolver} {name : String}
  {page : Page} {c : CheckedPage} {b b' : Builder}

-- A text element that has passed the checks holds only text.
theorem Page.isPlainText_of_check (h : page.check o = .ok c) (ht : page.tree.WellFormed)
    {id child : NodeId} (hid : id ∈ page.tree.preorder) (hk : page.tree.kind id = .jspText)
    (hchild : child ∈ page.tree.children id) :
    Checking.isPlainText (page.tree.kind child) = true := by
  obtain ⟨rfl, hfound⟩ := check_established h fun _ => ht.lt_size_of_mem_preorder
  have hfound := hfound id hid
  have hkind : (c.context o).tree.kind id = .jspText := hk
  have hcustom : ∀ data, (c.context o).tree.kind id ≠ .custom data := fun data hdata => by
    rw [hkind] at hdata
    cases hdata
  have hmarkup : (c.context o).tree.kind id ≠ .uninterpreted := fun hmarkup => by
    rw [hkind] at hmarkup
    cases hmarkup
  rw [Checking.established_iff_of_table hcustom hmarkup, hkind] at hfound
  obtain ⟨beans, attrs, beans', hchecked, -⟩ := hfound
  obtain ⟨_, -, hchecked⟩ := Checking.bind_eq_ok.mp hchecked
  obtain ⟨_, -, hchecked⟩ := Checking.bind_eq_ok.mp hchecked
  split at hchecked
  · cases hchecked
  · obtain ⟨_, hrules, -⟩ := Checking.bind_eq_ok.mp hchecked
    have hnode : ((c.context o).tree.node id).kind = .jspText := hk
    unfold Checking.checkRules at hrules
    rw [hnode] at hrules
    obtain ⟨_, honly, -⟩ := Checking.bind_eq_ok.mp hrules
    unfold Checking.checkTextOnly at honly
    split at honly
    · cases honly
    · rename_i hnone
      have hplain : ¬(!Checking.isPlainText (c.page.tree.kind child)) = true :=
        List.find?_eq_none.mp hnone child hchild
      simpa using hplain

namespace ClassText

theorem mem_of_previous? {ids : List NodeId} {id before : NodeId}
    (h : previous? ids id = some before) : before ∈ ids := by
  unfold previous? at h
  split at h
  · cases h
  · exact List.mem_of_getElem? h

theorem isDirective_of_isPlainText {kind : NodeKind} (h : Checking.isPlainText kind = true) :
    isDirective kind = false := by
  cases kind <;> first | rfl | cases h

-- Where nothing is trimmed, all blanks are written.
theorem isDirectiveBlank_of_untrimmed {x : Context}
    (h : x.settings.trimDirectiveWhitespaces = false) (id : NodeId) :
    isDirectiveBlank x id = false := by
  rw [isDirectiveBlank, h]
  rfl

-- The blanks that pruning leaves stand between texts.
theorem isDirectiveBlank_of_prune {t : Tree} (ht : t.Arranged) (htree : page.tree = Builder.prune t)
    (hpage : page.tree.Arranged) (h : page.check o = .ok c) (o' : Options) {id child : NodeId}
    (hchild : child ∈ c.page.tree.children id) : isDirectiveBlank ⟨o', c⟩ child = false := by
  obtain ⟨rfl, -⟩ := Page.check_established h fun _ => hpage.wellFormed.lt_size_of_mem_preorder
  have hparent : c.page.tree.parent child = some id := hpage.wellFormed.parent_eq hchild
  unfold isDirectiveBlank
  cases hblank : (c.page.tree.kind child).isBlankText with
  | false => simp [Context.tree, hblank]
  | true =>
    have hkind : c.page.tree.kind id = .jspText := by
      rw [htree] at hchild hblank ⊢
      exact Tree.kind_of_blank_prune ht hchild hblank
    have hmem : id ∈ c.page.tree.preorder := Page.mem_preorder_of_child hpage hchild
    have hnone : (previous? (c.page.tree.children id) child).any
        (fun before => isDirective (c.page.tree.kind before)) = false := by
      cases hbefore : previous? (c.page.tree.children id) child with
      | none => rfl
      | some before =>
        exact isDirective_of_isPlainText (Page.isPlainText_of_check h hpage.wellFormed hmem hkind
          (mem_of_previous? hbefore))
    simp [Context.tree, hparent, hnone]

end ClassText

-- The same page with another tree, in which nothing is to be trimmed.
def CheckedPage.untrimmed (c : CheckedPage) (t : Tree) : CheckedPage :=
  { c with page := { c.page with tree := t }, settings := c.settings.trimming false }

open ClassText in
theorem CheckedPage.hushes_untrimmed {t : Tree} (ht : t.Arranged)
    (htree : page.tree = Builder.prune t) (hpage : page.tree.Arranged) (h : page.check o = .ok c)
    (v : Bool) :
    (⟨{ o with trimDirectiveWhitespaces := v }, c.untrimmed t.hushed⟩ : Context).Hushes t.isLoose
      ⟨o, c⟩ := by
  have hblank : ∀ id, ∀ child ∈ c.page.tree.children id, isDirectiveBlank ⟨o, c⟩ child = false :=
    fun _ _ hchild => isDirectiveBlank_of_prune ht htree hpage h o hchild
  obtain ⟨rfl, s₀, s, -, hdone, -, hfindings⟩ :=
    Page.check_progress h fun _ => hpage.wellFormed.lt_size_of_mem_preorder
  have hsheds := Tree.sheds_hushed ht
  have hroot := Tree.isLoose_root ht
  rw [← htree] at hsheds
  refine
    { tree := hsheds
      empty := fun id hid => ⟨.ofText "", (Tree.kind_hushed t id).trans (if_pos hid), rfl⟩
      markup := fun id hid => ?_
      root := hroot
      written := isDirectiveBlank_of_untrimmed rfl
      written_root := ?_
      written_child := hblank
      options_eq := ⟨_, rfl⟩
      bindings_eq := rfl
      beans_eq := rfl
      findings_eq := rfl
      unfound := fun id hid => ?_
      settings_eq := ⟨_, rfl⟩ }
  · have hkind : t.hushed.kind id = .uninterpreted := hid
    have hmarkup : (t.kind id).isMarkup := by
      rw [Tree.kind_hushed] at hkind
      split at hkind
      · cases hkind
      · rw [hkind]
        rfl
    refine (hsheds.children_eq id).trans ?_
    change _ = t.hushed.children id
    rw [Tree.children_hushed, if_pos hmarkup, List.filter_filter]
    simp only [Bool.and_self]
  · have hparent : c.page.tree.parent Tree.root = none := hpage.parent_root
    simp [isDirectiveBlank, Context.tree, hparent]
  · have hout : id ∉ c.page.tree.preorder.reverse := by
      rw [List.mem_reverse, hsheds.preorder_eq hroot, List.mem_filter, hid]
      exact fun hmem => nomatch hmem.2
    exact (congrArg (fun f => Findings.get f id) hfindings.symm).trans (hdone.untouched id hout)

namespace CheckedPage

-- What the end of reading makes of the units that have been read, and what the checks say of it.
theorem readTo_of_ofUnit (h : CheckedPage.ofUnit o loader resolver name = (.ok c, resolver')) :
    ∃ b b', Page.ReadTo o loader resolver name b ∧ Builder.finish b = .ok c.page b' ∧
      c.page.tree.Arranged ∧ c.page.check o = .ok c ∧
      (c.page.tree.IsRelaxed → c.page.tree =
        if c.settings.trimDirectiveWhitespaces then Builder.prune b.tree else b.tree) := by
  obtain ⟨page, hread, hcheck⟩ := ofUnit_eq_ok h
  obtain ⟨b, b', hb, hfinish⟩ := Page.readTo_of_read hread
  have harranged := Page.arranged_read hread
  obtain ⟨rfl, -⟩ := Page.check_established hcheck fun _ =>
    harranged.wellFormed.lt_size_of_mem_preorder
  refine ⟨b, b', hb, hfinish, harranged, hcheck, fun hrelaxed => ?_⟩
  rw [Page.trimBlanks_eq_settings hread hb hfinish (Page.check_settings hcheck) hrelaxed]
  exact Builder.tree_of_finish hfinish

-- Where the option for blanks alone is changed and nothing is trimmed any more, the page is the one
-- that has been read, and everything else that is known about it is the same.
theorem eq_untrimmed (h : CheckedPage.ofUnit o loader resolver name = (.ok c, resolver'))
    (hrelaxed : c.page.tree.IsRelaxed) (hb : Page.ReadTo o loader resolver name b) {v : Bool}
    {c₀ : CheckedPage} {resolver₀ : Resolver}
    (h₀ : CheckedPage.ofUnit { o with trimDirectiveWhitespaces := v } loader resolver name =
      (.ok c₀, resolver₀))
    (hoff : c₀.settings.trimDirectiveWhitespaces = false) : c₀ = c.untrimmed b.tree := by
  obtain ⟨b₁, b', hb₁, hfinish, -, hcheck, htree⟩ := readTo_of_ofUnit h
  obtain rfl := hb.unique hb₁
  obtain ⟨b₂, b'', hb₂, hfinish₀, -, hcheck₀, htree₀⟩ := readTo_of_ofUnit h₀
  obtain ⟨w, hw⟩ := hb.of_trim v
  obtain rfl := hw.unique hb₂
  have hrelaxed₀ : c₀.page.tree.IsRelaxed :=
    (Builder.finish_eq_ok hfinish₀).2.isRelaxed_iff.mpr
      ((Builder.finish_eq_ok hfinish).2.isRelaxed_iff.mp hrelaxed)
  have hpage₀ : c₀.page = ⟨b₁.tree, c.page.bindings⟩ := by
    have htree₀ := htree₀ hrelaxed₀
    rw [hoff, if_neg Bool.false_ne_true] at htree₀
    rw [← htree₀, ← Page.bindings_of_finish hfinish hfinish₀]
  have hsheds : ∃ gone, b₁.tree.Sheds gone c.page.tree ∧ gone Tree.root = false := by
    rw [htree hrelaxed]
    split
    · exact ⟨_, Tree.sheds_prune hb.arranged, Tree.isLoose_root hb.arranged⟩
    · exact ⟨_, .refl hb.arranged.wellFormed, rfl⟩
  obtain ⟨gone, hsheds, hroot⟩ := hsheds
  obtain ⟨w', hw'⟩ := Page.check_of_sheds hsheds hroot hcheck v
  rw [hpage₀, hw'] at hcheck₀
  cases hlibraries : Checking.checkLibraries ⟨b₁.tree, c.page.bindings⟩ with
  | error d =>
    rw [hlibraries] at hcheck₀
    cases hcheck₀
  | ok =>
    rw [hlibraries] at hcheck₀
    have hcheck₀ := Except.ok.inj hcheck₀
    rw [← hcheck₀] at hoff
    have hw' : w' = false := hoff
    rw [← hcheck₀, hw', untrimmed]

-- The units of a page are read without regard to trimming, if none of them is a document. Where
-- nothing is trimmed, the tree they make is the page, also when only the option is changed for
-- that. Where blanks are trimmed, all blank texts outside of text elements are taken out of their
-- bodies, whatever stands in front of them, and nothing else is. The class is then the one that is
-- written without trimming when these texts are empty and all others are as they were.
theorem trimmed_ofUnit (h : CheckedPage.ofUnit o loader resolver name = (.ok c, resolver'))
    (hrelaxed : c.page.tree.IsRelaxed) :
    ∃ b, Page.ReadTo o loader resolver name b ∧
      (c.settings.trimDirectiveWhitespaces = false → c = c.untrimmed b.tree) ∧
      (∀ (v : Bool) (c₀ : CheckedPage) (resolver₀ : Resolver),
        CheckedPage.ofUnit { o with trimDirectiveWhitespaces := v } loader resolver name =
          (.ok c₀, resolver₀) →
        c₀.settings.trimDirectiveWhitespaces = false → c₀ = c.untrimmed b.tree) ∧
      (c.settings.trimDirectiveWhitespaces = true →
        (∀ id, c.page.tree.node id = (b.tree.node id).without b.tree.isLoose) ∧
        ∀ v, c.generate o =
          (c.untrimmed b.tree.hushed).generate { o with trimDirectiveWhitespaces := v }) := by
  obtain ⟨b, b', hb, -, harranged, hcheck, htree⟩ := readTo_of_ofUnit h
  have htree := htree hrelaxed
  refine ⟨b, hb, fun hoff => ?_, fun v c₀ resolver₀ h₀ => eq_untrimmed h hrelaxed hb h₀,
    fun hon => ?_⟩
  · exact eq_untrimmed h hrelaxed hb (v := o.trimDirectiveWhitespaces) h hoff
  · rw [hon, if_pos rfl] at htree
    refine ⟨fun id => ?_, fun v => ?_⟩
    · rw [htree]
      exact Tree.node_prune hb.arranged id
    · exact (hushes_untrimmed hb.arranged htree harranged hcheck v).generate_eq

end CheckedPage

-- Two values with a blank between them, and no directive anywhere.
def apart : Loader :=
  .ofUnits [("main.page", Text.Utf8.ofString "${a} ${b}")]

-- The blank is gone, although it follows no directive and no raw code.
theorem CheckedPage.trimmed_ofUnit_sample :
    ∃ c resolver b,
      CheckedPage.ofUnit { trimDirectiveWhitespaces := true } apart (.ofLibraries []) "main.page" =
        (.ok c, resolver) ∧
      c.page.tree.IsRelaxed ∧ c.settings.trimDirectiveWhitespaces = true ∧
      Page.ReadTo { trimDirectiveWhitespaces := true } apart (.ofLibraries []) "main.page" b ∧
      b.tree.children Tree.root = [1, 2, 3] ∧ b.tree.isLoose 2 = true ∧
      (b.tree.kind 1).insert?.isSome = true ∧ c.page.tree.children Tree.root = [1, 3] ∧
      c.generate { trimDirectiveWhitespaces := true } =
        (c.untrimmed b.tree.hushed).generate { trimDirectiveWhitespaces := false } := by
  have hon : (CheckedPage.ofUnit { trimDirectiveWhitespaces := true } apart (.ofLibraries [])
      "main.page").1.toOption.any (fun c =>
        c.settings.trimDirectiveWhitespaces && c.page.tree.children Tree.root == [1, 3] &&
        (List.range c.page.tree.size).all fun id =>
          (c.page.tree.kind id).root?.all fun data => data.form == .relaxed) := by
    decide +kernel
  have hoff : (CheckedPage.ofUnit { trimDirectiveWhitespaces := false } apart (.ofLibraries [])
      "main.page").1.toOption.any (fun c => !c.settings.trimDirectiveWhitespaces &&
        c.page.tree.children Tree.root == [1, 2, 3] && c.page.tree.isLoose 2 &&
        (c.page.tree.kind 1).insert?.isSome) := by
    decide +kernel
  obtain ⟨c, resolver, h, hc⟩ := Page.of_any hon
  obtain ⟨c₀, resolver₀, h₀, hc₀⟩ := Page.of_any hoff
  simp only [Bool.and_eq_true, beq_iff_eq] at hc
  simp only [Bool.and_eq_true, Bool.not_eq_true', beq_iff_eq] at hc₀
  obtain ⟨⟨htrim, hkept⟩, hroots⟩ := hc
  obtain ⟨⟨⟨huntrimmed, hchildren⟩, hloose⟩, hinsert⟩ := hc₀
  have hrelaxed : c.page.tree.IsRelaxed := by
    intro id hid data hk
    have hroot := List.all_eq_true.mp hroots id (List.mem_range.mpr hid)
    rw [hk] at hroot
    simpa [NodeKind.root?] using hroot
  obtain ⟨b, hb, -, hbefore, htrimmed⟩ := trimmed_ofUnit h hrelaxed
  obtain rfl := hbefore false c₀ resolver₀ h₀ huntrimmed
  exact ⟨c, resolver, b, h, hrelaxed, htrim, hb, hchildren, hloose, hinsert, hkept,
    (htrimmed htrim).2 false⟩

end PageCompiler
