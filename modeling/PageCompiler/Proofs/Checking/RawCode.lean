import PageCompiler.Proofs.Checking.Attributes
import PageCompiler.Proofs.Reading.Pages

namespace PageCompiler

namespace Tree

-- One node stands somewhere below another.
def Below (t : Tree) : NodeId → NodeId → Prop :=
  Relation.TransGen fun parent child => t.parent child = some parent

theorem Arranged.mem_ancestors {t : Tree} (h : t.Arranged) {a id : NodeId} (hbelow : t.Below a id) :
    a ∈ t.ancestors id := by
  induction hbelow with
  | single hp =>
    rw [ancestors_eq_cons hp (h.parent_lt_size hp).2.2]
    exact List.mem_cons_self ..
  | tail _ hp ih =>
    rw [ancestors_eq_cons hp (h.parent_lt_size hp).2.2]
    exact List.mem_cons_of_mem _ ih

end Tree

namespace Checking

variable {x : Context} {id : Nat}

-- Nothing refuses raw code at this node.
structure AllowsCode (x : Context) (id : NodeId) : Prop where
  enabled : x.options.scriptingDisabled = false
  outside : ∀ a ∈ x.tree.ancestors id, isScriptless (x.tree.kind a) = false

theorem checkRawCode_eq_ok {construct : String} {mark : Mark}
    (h : checkRawCode x id construct mark = .ok ()) : AllowsCode x id := by
  unfold checkRawCode at h
  dsimp only at h
  split at h
  · cases h
  · rename_i hrefused
    simp only [Bool.or_eq_true, not_or, Bool.not_eq_true, List.any_eq_false] at hrefused
    exact ⟨hrefused.1, hrefused.2⟩

theorem Established.allowsCode {f : Finding} (h : Established x id f) {a : ResolvedAttribute}
    (ha : a ∈ f.attributes) {code : String} (hv : a.value = .scripting code) : AllowsCode x id := by
  obtain ⟨s, -, policy, hp⟩ := h.exists_supplied ha
  rw [hv] at hp
  cases classified_of_classify hp with
  | scripting _ _ _ _ hraw => exact checkRawCode_eq_ok hraw

theorem checkNode_script {s s' : State} (h : checkNode x s id = .ok s')
    (hk : (x.tree.kind id).isScript) : AllowsCode x id := by
  unfold checkNode at h
  dsimp only at h
  cases hkind : (x.tree.node id).kind with
  | script kind code =>
    rw [hkind] at h
    obtain ⟨_, hraw, -⟩ := bind_eq_ok.mp h
    exact checkRawCode_eq_ok hraw
  | _ =>
    rw [Tree.kind, hkind] at hk
    cases hk

-- Every node of a list that was checked has passed its check.
theorem checked_of_mem {ids : List NodeId} {s s' : State}
    (h : ids.foldlM (checkNode x) s = .ok s') (hid : id ∈ ids) :
    ∃ s₁ s₂, checkNode x s₁ id = .ok s₂ := by
  induction ids generalizing s with
  | nil => cases hid
  | cons first ids ih =>
    rw [List.foldlM_cons] at h
    obtain ⟨s₁, hfirst, h⟩ := bind_eq_ok.mp h
    rcases List.mem_cons.mp hid with rfl | hid
    · exact ⟨s, s₁, hfirst⟩
    · exact ih h hid

end Checking

open Checking

-- In a page that has passed all checks no raw code that can be reached and no attribute whose value
-- is raw code stands below a custom action whose body takes none, and where raw code is switched
-- off there is none at all.
theorem CheckedPage.rawCode_ofUnit {o : Options} {loader : Loader} {resolver resolver' : Resolver}
    {name : String} {c : CheckedPage}
    (h : CheckedPage.ofUnit o loader resolver name = (.ok c, resolver')) (id : NodeId)
    (hcode : (c.page.tree.Reachable id ∧ (c.page.tree.kind id).isScript) ∨
      ∃ a ∈ (c.findings.get id).attributes, ∃ code, a.value = .scripting code) :
    o.scriptingDisabled = false ∧
      ∀ above data, c.page.tree.Below above id → c.page.tree.kind above = .custom data →
        data.tag.bodyContent ≠ .scriptless := by
  obtain ⟨page, hread, hcheck⟩ := ofUnit_eq_ok h
  have ht := Page.arranged_read hread
  obtain ⟨rfl, s₀, s, -, hdone, hrun, hfindings⟩ := Page.check_progress hcheck fun id hid =>
    ht.wellFormed.lt_size_of_mem_preorder hid
  have hallowed : AllowsCode (c.context o) id := by
    rcases hcode with ⟨hreach, hscript⟩ | ⟨a, ha, code, hv⟩
    · have hmem := ht.wellFormed.mem_preorder_of_reachable hreach
      obtain ⟨s₁, s₂, hnode⟩ := checked_of_mem hrun hmem
      exact checkNode_script hnode hscript
    · rw [← hfindings] at ha
      by_cases hmem : id ∈ c.page.tree.preorder.reverse
      · exact (hdone.established id hmem).allowsCode ha hv
      · -- Nothing has been found about a node out of reach.
        rw [hdone.untouched id hmem] at ha
        cases ha
  refine ⟨hallowed.enabled, fun above data hbelow hkind hscriptless => ?_⟩
  have houtside := hallowed.outside above (ht.mem_ancestors hbelow)
  rw [show (c.context o).tree.kind above = .custom data from hkind, isScriptless,
    hscriptless] at houtside
  cases houtside

-- One action whose body takes raw code, and one whose body takes none.
def codeLibrary : Library :=
  { uri := "urn:sample", shortName := "sample"
    tags := [
      { name := "each", handlerClass := "sample.EachTag" },
      { name := "plain", handlerClass := "sample.PlainTag", bodyContent := .scriptless }] }

-- A document with raw code, included in the body of an action next to one that takes none.
def codeUnits : Loader :=
  .ofUnits
    [("main.page", Text.Utf8.ofString
        ("<%@ taglib prefix=\"s\" uri=\"urn:sample\" %><s:plain>x</s:plain>" ++
          "<s:each><%@ include file=\"part.pagx\" %></s:each>")),
      ("part.pagx", Text.Utf8.ofString
        ("<jsp:root xmlns:jsp=\"http://java.sun.com/JSP/Page\" version=\"2.0\">" ++
          "<jsp:scriptlet>run();</jsp:scriptlet></jsp:root>"))]

theorem CheckedPage.rawCode_ofUnit_sample :
    ∃ c resolver id, CheckedPage.ofUnit {} codeUnits (.ofLibraries [codeLibrary]) "main.page" =
        (.ok c, resolver) ∧
      (c.page.tree.Reachable id ∧ (c.page.tree.kind id).isScript) ∧
      ∀ above data, c.page.tree.Below above id → c.page.tree.kind above = .custom data →
        data.tag.bodyContent ≠ .scriptless := by
  have hrun : (CheckedPage.ofUnit {} codeUnits (.ofLibraries [codeLibrary])
      "main.page").1.toOption.any (fun c =>
        c.page.tree.preorder.any fun id => (c.page.tree.kind id).isScript) = true := by
    rw [codeUnits, Text.Utf8.ofString_append, Text.Utf8.ofString_append]
    repeat rw [Text.Utf8.ofString_ofList]
    decide +kernel
  obtain ⟨c, resolver, h, hscripts⟩ := Page.of_any hrun
  obtain ⟨id, hid, hscript⟩ := List.any_eq_true.mp hscripts
  obtain ⟨page, hread, hcheck⟩ := ofUnit_eq_ok h
  obtain ⟨rfl, -⟩ := Page.check_progress hcheck fun id hid =>
    (Page.wellFormed_read hread).lt_size_of_mem_preorder hid
  have hreach := (Page.wellFormed_read hread).mem_preorder_iff.mp hid
  exact ⟨c, resolver, id, h, ⟨hreach, hscript⟩,
    (rawCode_ofUnit h id (.inl ⟨hreach, hscript⟩)).2⟩

end PageCompiler
