import PageCompiler.Proofs.Page.Preorder

namespace PageCompiler

theorem NodeKind.exists_of_isBlankText {kind : NodeKind} (h : kind.isBlankText) :
    ∃ run : TextRun, kind = .text run ∧ run.isBlank = true := by
  cases kind <;> first | exact ⟨_, rfl, h⟩ | cases h

namespace Tree

-- Some blank texts have been taken out of their bodies, and may have become other blanks. All other
-- nodes are as they were.
structure Sheds (t : Tree) (gone : NodeId → Bool) (u : Tree) : Prop where
  wellFormed : t.WellFormed
  size_eq : u.size = t.size
  sources_eq : u.sources = t.sources
  kind_eq : ∀ {id : NodeId}, gone id = false → u.kind id = t.kind id
  blank : ∀ {id : NodeId}, gone id → (t.kind id).isBlankText ∧ (u.kind id).isBlankText
  bare : ∀ {id : NodeId}, gone id → t.children id = []
  mark_eq : ∀ id : NodeId, u.mark id = t.mark id
  name_eq : ∀ id : NodeId, (u.node id).name = (t.node id).name
  attributes_eq : ∀ id : NodeId, (u.node id).attributes = (t.node id).attributes
  parent_eq : ∀ id : NodeId, u.parent id = t.parent id
  children_eq : ∀ id : NodeId, u.children id = (t.children id).filter fun c => !gone c

namespace Sheds

variable {t u : Tree} {gone : NodeId → Bool} {id : NodeId}

-- Nothing has been taken out.
theorem refl (ht : t.WellFormed) : t.Sheds (fun _ => false) t where
  wellFormed := ht
  size_eq := rfl
  sources_eq := rfl
  kind_eq _ := rfl
  blank := nofun
  bare := nofun
  mark_eq _ := rfl
  name_eq _ := rfl
  attributes_eq _ := rfl
  parent_eq _ := rfl
  children_eq _ := by simp

-- What is gone was blank text.
theorem text_of_gone (h : t.Sheds gone u) (hid : gone id) :
    ∃ run : TextRun, t.kind id = .text run ∧ run.isBlank = true :=
  NodeKind.exists_of_isBlankText (h.blank hid).1

theorem kind_cases (h : t.Sheds gone u) (id : NodeId) :
    u.kind id = t.kind id ∨ ∃ r r', t.kind id = .text r ∧ u.kind id = .text r' := by
  cases hgone : gone id with
  | true =>
    obtain ⟨r, hr, -⟩ := h.text_of_gone hgone
    obtain ⟨r', hr', -⟩ := NodeKind.exists_of_isBlankText (h.blank hgone).2
    exact .inr ⟨r, r', hr, hr'⟩
  | false => exact .inl (h.kind_eq hgone)

-- What is the same for all texts does not change.
theorem apply_kind {α : Type} (h : t.Sheds gone u) (f : NodeKind → α) (a : α)
    (hf : ∀ run, f (.text run) = a) (id : NodeId) : f (u.kind id) = f (t.kind id) := by
  rcases h.kind_cases id with heq | ⟨r, r', hr, hr'⟩
  · rw [heq]
  · rw [hr, hr', hf, hf]

theorem wellFormed_right (h : t.Sheds gone u) : u.WellFormed :=
  h.wellFormed.of_sublist h.size_eq
    (fun id => by rw [h.children_eq]; exact List.filter_sublist) h.parent_eq

theorem ancestors_eq (h : t.Sheds gone u) (id : NodeId) : u.ancestors id = t.ancestors id := by
  induction id using Nat.strongRecOn with
  | ind id ih =>
    rw [ancestors, ancestors, h.parent_eq]
    cases t.parent id with
    | none => rfl
    | some p =>
      dsimp only
      split_ifs with hp
      · rw [ih p hp]
      · rfl

theorem unitRoot_eq (h : t.Sheds gone u) (id : NodeId) : u.unitRoot id = t.unitRoot id := by
  have hroot : (fun a => (u.kind a).isRoot) = fun a => (t.kind a).isRoot :=
    funext fun a => h.apply_kind NodeKind.isRoot false (fun _ => rfl) a
  rw [unitRoot, unitRoot, selfAndAncestors, selfAndAncestors, h.ancestors_eq, hroot]

theorem filterMap_children {α : Type} (h : t.Sheds gone u) {f g : NodeId → Option α}
    (hkept : ∀ c, gone c = false → f c = g c) (hgone : ∀ c, gone c → g c = none) (id : NodeId) :
    (u.children id).filterMap f = (t.children id).filterMap g := by
  rw [h.children_eq, List.filterMap_filter]
  refine List.filterMap_congr fun c _ => ?_
  cases hc : gone c with
  | true => rw [hgone c hc]; rfl
  | false => exact hkept c hc

theorem any_children (h : t.Sheds gone u) {f g : NodeId → Bool}
    (hkept : ∀ c, gone c = false → f c = g c) (hgone : ∀ c, gone c → g c = false) (id : NodeId) :
    (u.children id).any f = (t.children id).any g := by
  rw [h.children_eq, List.any_filter]
  congr 1
  funext c
  cases hc : gone c with
  | true => rw [hgone c hc]; rfl
  | false => rw [hkept c hc]; rfl

theorem find?_filter {f g : NodeId → Bool} (hkept : ∀ c, gone c = false → f c = g c)
    (hgone : ∀ c, gone c → g c = false) (ids : List NodeId) :
    (ids.filter fun c => !gone c).find? f = ids.find? g := by
  rw [List.find?_filter]
  congr 1
  funext c
  cases hc : gone c with
  | true => rw [hgone c hc]; rfl
  | false => rw [hkept c hc]; simp

theorem find?_children (h : t.Sheds gone u) {f g : NodeId → Bool}
    (hkept : ∀ c, gone c = false → f c = g c) (hgone : ∀ c, gone c → g c = false) (id : NodeId) :
    (u.children id).find? f = (t.children id).find? g := by
  rw [h.children_eq, find?_filter hkept hgone]

theorem hasContent_eq (h : t.Sheds gone u) (id : NodeId) : u.hasContent id = t.hasContent id := by
  refine h.any_children (fun c hc => ?_) (fun c hc => ?_) id
  · rw [h.kind_eq hc]
  · obtain ⟨run, hrun, hblank⟩ := h.text_of_gone hc
    simp [hrun, hblank]

-- By induction on the fuel of the longer walk. Where it takes a node that is gone, the other one
-- does nothing: such a node has no body.
theorem walk_eq (h : t.Sheds gone u) (enter : NodeKind → Bool) {fuel fuel' : Nat}
    {visited visited' stack : List Nat} (ht : Walking t enter visited stack)
    (hu : Walking u enter visited' (stack.filter fun c => !gone c))
    (hfuel : t.size ≤ visited.length + fuel) (hfuel' : t.size ≤ visited'.length + fuel') :
    u.walk enter fuel' (stack.filter fun c => !gone c) =
      (t.walk enter fuel stack).filter fun c => !gone c := by
  have hnil : ∀ fuel', u.walk enter fuel' [] = [] := fun fuel' => by cases fuel' <;> rfl
  induction fuel generalizing fuel' visited visited' stack with
  | zero =>
    have hlength := ht.length_le
    obtain rfl : stack = [] := List.length_eq_zero_iff.mp (by omega)
    exact hnil _
  | succ fuel ih =>
    cases stack with
    | nil => exact hnil _
    | cons id stack =>
      have hstep := ht.step h.wellFormed
      have hless : t.size ≤ (visited ++ [id]).length + fuel := by
        rw [List.length_append, List.length_singleton]
        omega
      rw [walk]
      cases hgone : gone id with
      | true =>
        have hbody : (if enter (t.kind id) then t.children id else []) = [] := by
          rw [h.bare hgone, ite_self]
        rw [hbody, List.nil_append] at hstep ⊢
        rw [List.filter_cons_of_neg (by rw [hgone]; decide)] at hu ⊢
        rw [List.filter_cons_of_neg (by rw [hgone]; decide)]
        exact ih hstep hu hless hfuel'
      | false =>
        rw [List.filter_cons_of_pos (by rw [hgone]; rfl)] at hu ⊢
        rw [List.filter_cons_of_pos (by rw [hgone]; rfl)]
        obtain ⟨fuel', rfl⟩ : ∃ n, fuel' = n + 1 := by
          have hlength := hu.length_le
          rw [List.length_cons, h.size_eq] at hlength
          exact Nat.exists_eq_add_one.mpr (by omega)
        have hbody : (if enter (u.kind id) then u.children id else []) =
            (if enter (t.kind id) then t.children id else []).filter fun c => !gone c := by
          rw [h.kind_eq hgone, h.children_eq]
          split <;> rfl
        have hstep' := hu.step h.wellFormed_right
        rw [hbody, ← List.filter_append] at hstep'
        rw [walk, hbody, ← List.filter_append, ih hstep hstep' hless]
        rw [List.length_append, List.length_singleton]
        omega

theorem entered_eq (h : t.Sheds gone u) (hroot : gone root = false) (enter : NodeKind → Bool) :
    u.entered enter = (t.entered enter).filter fun c => !gone c := by
  have hfilter : [root].filter (fun c => !gone c) = [root] := by
    rw [List.filter_cons_of_pos (by rw [hroot]; rfl)]
    rfl
  have hstart : Walking u enter [] ([root].filter fun c => !gone c) := by
    rw [hfilter]
    exact .start h.wellFormed_right
  have hwalk : u.walk enter u.size ([root].filter fun c => !gone c) =
      (t.walk enter t.size [root]).filter fun c => !gone c :=
    h.walk_eq enter (.start h.wellFormed) hstart (by simp) (by rw [h.size_eq]; simp)
  rwa [hfilter] at hwalk

theorem preorder_eq (h : t.Sheds gone u) (hroot : gone root = false) :
    u.preorder = t.preorder.filter fun c => !gone c :=
  h.entered_eq hroot _

-- A test that all nodes pass that are gone is passed below a node as before.
theorem all_subtree (h : t.Sheds gone u) {f g : NodeId → Bool}
    (hkept : ∀ c, gone c = false → f c = g c) (hgone : ∀ c, gone c → f c ∧ g c) (depth : Nat)
    (id : NodeId) : (u.subtree depth id).all f = (t.subtree depth id).all g := by
  have hsame : ∀ c, f c = g c := fun c => by
    cases hc : gone c with
    | true => rw [(hgone c hc).1, (hgone c hc).2]
    | false => exact hkept c hc
  induction depth generalizing id with
  | zero => simp only [subtree, List.all_cons, List.all_nil, hsame]
  | succ depth ih =>
    simp only [subtree, List.all_cons, hsame, List.all_flatMap, ih]
    congr 1
    rw [h.children_eq, List.all_filter]
    congr 1
    funext c
    cases hc : gone c with
    | true =>
      have hall : (t.subtree depth c).all g = true := by
        cases depth <;> simp [subtree, (hgone c hc).2, h.bare hc]
      rw [hall]
      rfl
    | false => rfl

end Sheds
end Tree
end PageCompiler
