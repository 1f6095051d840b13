import PageCompiler.Proofs.Page.Ancestry
import Mathlib.Logic.Relation

-- There are five kinds of steps, and every step keeps the tree in order: a node stands in one body
-- at most, behind its parent and in the order of numbers; it belongs to the unit of its root, and
-- only blank text is out of reach.
namespace PageCompiler

-- An expression in the text is what its source is read as, and the source goes up to its own brace.
structure Insert.FromSource (data : Insert) : Prop where
  closes : Composite.closeBrace none 0 (data.source.toList ++ ['}']) = some (data.source.toList, [])
  parse_eq : Expression.parse data.source.toList = .ok data.tree

namespace Tree

variable {t : Tree} {id parent child i : Nat} {f : Node → Node} {n : Node}

@[simp] theorem size_modify : (t.modify id f).size = t.size := by simp [modify, size]

theorem node_modify :
    (t.modify id f).node i = if i = id ∧ i < t.size then f (t.node i) else t.node i := by
  simp only [node, modify, size, Array.getD_eq_getD_getElem?, Array.getElem?_modify]
  by_cases hi : id = i
  · subst hi
    by_cases hs : id < t.nodes.size <;> simp [hs]
  · simp [hi, Ne.symm hi]

theorem node_of_size_le (h : t.size ≤ i) : t.node i = default := by
  simp only [size] at h
  simp [node, Array.getD_eq_getD_getElem?, h]

@[simp] theorem size_append : (t.append parent n).2.size = t.size + 1 := by
  simp [append, modify, size]

theorem node_append :
    (t.append parent n).2.node i =
      if i = t.size then { n with parent := some parent }
      else if i = parent ∧ i < t.size then
        { t.node i with body := some (t.children i ++ [t.size]) }
      else t.node i := by
  have hm : (t.modify parent fun p => { p with body := some (p.children ++ [t.size]) }).node i =
      if i = parent ∧ i < t.size then
        { t.node i with body := some ((t.node i).children ++ [t.size]) }
      else t.node i := node_modify
  simp only [append, node, modify, Array.getD_eq_getD_getElem?, size, children] at hm ⊢
  rw [Array.getElem?_push]
  simp only [Array.size_modify]
  split
  · rfl
  · exact hm

-- A node that can be put under a parent: it comes without children, it belongs to the unit of its
-- parent unless it is the root of another one, an expression is read from its own source, and a
-- custom action knows how deep it stands.
structure Fits (t : Tree) (parent : NodeId) (n : Node) : Prop where
  parent_lt : parent < t.size
  not_text : (t.kind parent).run? = none
  childless : n.children = []
  root : ∀ data, n.kind.root? = some data → n.mark.unit = data.unit ∧
    (data.origin = .included → data.unit ∉ t.unitsAround parent)
  mark : n.kind.root? = none → (t.unitsAround parent).head? = some n.mark.unit
  insert : ∀ data, n.kind = .insert data → data.FromSource
  nesting : ∀ data, n.kind.custom? = some data →
    data.nestingLevel = t.nestingLevel parent data.qualifiedName

-- One change to a tree. Only blank text is taken out, and blank text stays blank.
inductive Step : Tree → Tree → Prop
  | append (t : Tree) (parent : NodeId) (n : Node) (h : Fits t parent n) :
      Step t (t.append parent n).2
  | openBody (t : Tree) (id : NodeId) : Step t (t.openBody id)
  | removeBlank (t : Tree) (parent child : NodeId) (h : (t.kind child).isBlankText) :
      Step t (t.removeChild parent child)
  | modifyText (t : Tree) (id : NodeId) (f : TextRun → TextRun)
      (h : ∀ r, r.isBlank → (f r).isBlank) : Step t (t.modifyText id f)
  | addSource (t : Tree) (unit text : String) : Step t (t.addSource unit text)

-- What reading makes of a tree.
abbrev Grows : Tree → Tree → Prop := Relation.ReflTransGen Step

-- A property that every step keeps is kept by growing.
theorem Grows.keeps {P : Tree → Prop} (hstep : ∀ {t u : Tree}, Step t u → P t → P u)
    {t u : Tree} (h : Grows t u) (ht : P t) : P u := by
  induction h with
  | refl => exact ht
  | tail _ hs ih => exact hstep hs ih

structure WellFormed (t : Tree) : Prop where
  root_lt : 0 < t.size
  child_lt : ∀ {id child : Nat}, child ∈ t.children id → id < child ∧ child < t.size
  parent_eq : ∀ {id child : Nat}, child ∈ t.children id → t.parent child = some id
  increasing : ∀ id : Nat, (t.children id).Pairwise (· < ·)

-- A change that takes children away at most, and leaves every parent as it is.
theorem WellFormed.of_sublist {t u : Tree} (h : t.WellFormed) (hsize : u.size = t.size)
    (hchildren : ∀ id : Nat, List.Sublist (u.children id) (t.children id))
    (hparent : ∀ id : Nat, u.parent id = t.parent id) : u.WellFormed where
  root_lt := by rw [hsize]; exact h.root_lt
  child_lt hc := by rw [hsize]; exact h.child_lt ((hchildren _).subset hc)
  parent_eq hc := by rw [hparent]; exact h.parent_eq ((hchildren _).subset hc)
  increasing id := (h.increasing id).sublist (hchildren id)

theorem WellFormed.modify (h : t.WellFormed)
    (hchildren : ∀ n : Node, List.Sublist (f n).children n.children)
    (hparent : ∀ n : Node, (f n).parent = n.parent) : (t.modify id f).WellFormed := by
  refine h.of_sublist size_modify (fun i => ?_) (fun i => ?_)
  · rw [children, children, node_modify]
    split
    · exact hchildren _
    · exact List.Sublist.refl _
  · rw [Tree.parent, Tree.parent, node_modify]
    split
    · exact hparent _
    · rfl

theorem WellFormed.append (h : t.WellFormed) (hn : n.children = []) :
    (t.append parent n).2.WellFormed := by
  have hold : ∀ {i c : Nat}, c ∈ (t.append parent n).2.children i →
      c ∈ t.children i ∨ (c = t.size ∧ i = parent ∧ i < t.size) := by
    intro i c hc
    rw [children, node_append] at hc
    split_ifs at hc with h1 h2
    · exact absurd hc (by rw [Node.children] at hn ⊢; simp [hn])
    · simp only [Node.children, Option.getD_some, List.mem_append, List.mem_singleton] at hc
      rcases hc with hc | hc
      · exact .inl hc
      · exact .inr ⟨hc, h2⟩
    · exact .inl hc
  refine ⟨?_, ?_, ?_, ?_⟩
  · have := h.root_lt
    rw [size_append]
    omega
  · intro i c hc
    rw [size_append]
    rcases hold hc with hc | ⟨rfl, rfl, hlt⟩
    · have := h.child_lt hc
      omega
    · omega
  · intro i c hc
    rw [Tree.parent, node_append]
    rcases hold hc with hc | ⟨rfl, rfl, hlt⟩
    · have hlt := h.child_lt hc
      have hp := h.parent_eq hc
      rw [if_neg (by omega)]
      split
      · exact hp
      · exact hp
    · rw [if_pos rfl]
  · intro i
    rw [children, node_append]
    split_ifs with h1 h2
    · rw [Node.children] at hn ⊢
      simp [hn]
    · simp only [Node.children, Option.getD_some]
      rw [List.pairwise_append]
      refine ⟨h.increasing i, List.pairwise_singleton _ _, ?_⟩
      intro c hc d hd
      rw [List.mem_singleton] at hd
      rw [hd]
      exact (h.child_lt hc).2
    · exact h.increasing i

theorem WellFormed.step {t u : Tree} (hs : Step t u) (h : t.WellFormed) : u.WellFormed := by
  cases hs with
  | append parent n hn => exact h.append hn.childless
  | openBody id => exact h.modify (fun n => List.Sublist.refl _) (fun _ => rfl)
  | removeBlank parent child _ =>
    refine h.modify (fun n => ?_) (fun _ => rfl)
    cases hb : n.body with
    | none => simp [Node.children, hb]
    | some ids => simp [Node.children, hb]
  | modifyText id f _ =>
    refine h.modify (fun n => ?_) (fun n => ?_)
    · cases hk : n.kind <;> exact List.Sublist.refl _
    · cases hk : n.kind <;> rfl
  | addSource unit text => exact ⟨h.root_lt, h.child_lt, h.parent_eq, h.increasing⟩

theorem wellFormed_ofRoot (r : UnitRoot) (text : String) : (ofRoot r text).WellFormed := by
  have hc : ∀ id : Nat, (ofRoot r text).children id = [] := by
    intro id
    cases id with
    | zero => rfl
    | succ id => rw [children, node_of_size_le (by simp [ofRoot, size])]; rfl
  refine ⟨by simp [ofRoot, size], ?_, ?_, ?_⟩ <;> simp [hc]

-- Every expression in the text is read from its own source.
def Sourced (t : Tree) : Prop := ∀ id data, t.kind id = .insert data → data.FromSource

theorem Sourced.modify (h : t.Sourced)
    (hkind : ∀ (n : Node) data, (f n).kind = .insert data → n.kind = .insert data) :
    (t.modify id f).Sourced := by
  intro i data hk
  rw [kind, node_modify] at hk
  split at hk
  · exact h i data (hkind _ data hk)
  · exact h i data hk

theorem Sourced.step {t u : Tree} (hs : Step t u) (h : t.Sourced) : u.Sourced := by
  cases hs with
  | append parent n hn =>
    intro i data hk
    rw [kind, node_append] at hk
    split_ifs at hk
    · exact hn.insert data hk
    · exact h i data hk
    · exact h i data hk
  | openBody id => exact h.modify fun _ _ hk => hk
  | removeBlank parent child _ => exact h.modify fun _ _ hk => hk
  | modifyText id f _ =>
    refine h.modify fun n data hk => ?_
    cases hn : n.kind with
    | text run =>
      simp only [hn] at hk
      cases hk
    | _ => simpa only [hn] using hk
  | addSource unit text => exact h

theorem sourced_ofRoot (r : UnitRoot) (text : String) : (ofRoot r text).Sourced := by
  intro id data hk
  cases id with
  | zero => cases hk
  | succ id =>
    rw [kind, node_of_size_le (by simp [ofRoot, size])] at hk
    cases hk

theorem keeps_modify
    (hparent : ∀ n : Node, (f n).parent = n.parent) (hmark : ∀ n : Node, (f n).mark = n.mark)
    (hroot : ∀ n : Node, (f n).kind.root? = n.kind.root?)
    (hcustom : ∀ n : Node, (f n).kind.custom? = n.kind.custom?)
    (htext : ∀ n : Node, (f n).kind.run?.isSome = n.kind.run?.isSome) :
    Keeps t (t.modify id f) := by
  refine ⟨size_modify.ge, ?_, ?_, ?_, ?_, ?_⟩ <;> intro i _
  · rw [Tree.parent, node_modify]
    split
    · exact hparent _
    · rfl
  · rw [Tree.mark, node_modify]
    split
    · exact hmark _
    · rfl
  · rw [kind, node_modify]
    split
    · exact hroot _
    · rfl
  · rw [kind, node_modify]
    split
    · exact hcustom _
    · rfl
  · rw [kind, node_modify]
    split
    · exact htext _
    · rfl

theorem keeps_append : Keeps t (t.append parent n).2 := by
  have hnode : ∀ i < t.size, ∃ body, (t.append parent n).2.node i = { t.node i with body } := by
    intro i hi
    rw [node_append, if_neg (by omega)]
    split
    · exact ⟨_, rfl⟩
    · exact ⟨(t.node i).body, rfl⟩
  refine ⟨by rw [size_append]; omega, ?_, ?_, ?_, ?_, ?_⟩ <;> intro i hi <;>
    obtain ⟨body, h⟩ := hnode i hi <;> simp only [Tree.parent, Tree.mark, kind, h]

theorem Step.keeps {t u : Tree} (h : Step t u) : Keeps t u := by
  cases h with
  | append parent n _ => exact keeps_append
  | openBody id =>
    exact keeps_modify (fun _ => rfl) (fun _ => rfl) (fun _ => rfl) (fun _ => rfl) (fun _ => rfl)
  | removeBlank parent child _ =>
    exact keeps_modify (fun _ => rfl) (fun _ => rfl) (fun _ => rfl) (fun _ => rfl) (fun _ => rfl)
  | modifyText id f _ =>
    refine keeps_modify ?_ ?_ ?_ ?_ ?_ <;> intro n <;> split
    all_goals first
      | rfl
      | (rename_i run hk; rw [hk]; rfl)
  | addSource unit text => exact ⟨Nat.le_refl _, fun _ _ => rfl, fun _ _ => rfl, fun _ _ => rfl,
      fun _ _ => rfl, fun _ _ => rfl⟩

theorem Grows.keeps_places {t u : Tree} (h : Grows t u) : Keeps t u := by
  induction h with
  | refl => exact .refl _
  | tail _ hs ih => exact ih.trans hs.keeps

theorem ancestors_append (hp : parent < t.size) :
    (t.append parent n).2.ancestors t.size = t.selfAndAncestors parent := by
  have hparent : (t.append parent n).2.parent t.size = some parent := by
    rw [Tree.parent, node_append, if_pos rfl]
  rw [ancestors_eq_cons hparent hp, keeps_append.selfAndAncestors_eq hp]

theorem kind_append : (t.append parent n).2.kind t.size = n.kind := by
  rw [kind, node_append, if_pos rfl]

theorem unitsAround_append (hp : parent < t.size) :
    (t.append parent n).2.unitsAround t.size =
      match n.kind.root? with
      | some data => data.unit :: if data.origin = .included then t.unitsAround parent else []
      | none => t.unitsAround parent := by
  have hroots : (t.append parent n).2.roots t.size = n.kind.root?.toList ++ t.roots parent := by
    rw [roots, selfAndAncestors, ancestors_append hp, List.filterMap_cons, kind_append]
    have habove := (keeps_append : Keeps t (t.append parent n).2).roots_eq hp
    rw [roots, keeps_append.selfAndAncestors_eq hp] at habove
    rw [habove]
    cases n.kind.root? <;> rfl
  rw [unitsAround, hroots]
  cases n.kind.root? <;> rfl

structure Arranged (t : Tree) : Prop where
  wellFormed : t.WellFormed
  parent_root : t.parent root = none
  parent_lt : ∀ id : Nat, 0 < id → id < t.size → ∃ p, t.parent id = some p ∧ p < id
  -- Only blank text has been taken out of a body.
  listed : ∀ {id p : Nat}, t.parent id = some p → id ∈ t.children p ∨ (t.kind id).isBlankText
  parent_not_text : ∀ {id p : Nat}, t.parent id = some p → (t.kind p).run? = none
  unit : ∀ id < t.size, (t.unitsAround id).head? = some (t.mark id).unit
  units_nodup : ∀ id < t.size, (t.unitsAround id).Nodup
  nesting : ∀ id < t.size, ∀ data, (t.kind id).custom? = some data →
    data.nestingLevel = (t.ancestors id).countP (t.isNamedAction data.qualifiedName)

namespace Arranged

theorem parent_lt_size (h : t.Arranged) {p : Nat} (hp : t.parent id = some p) :
    0 < id ∧ id < t.size ∧ p < id := by
  have hlt : id < t.size := by
    by_contra hge
    rw [Tree.parent, node_of_size_le (by omega)] at hp
    cases hp
  have hpos : 0 < id := by
    by_contra hzero
    obtain rfl : id = root := by
      rw [root]
      omega
    rw [h.parent_root] at hp
    cases hp
  obtain ⟨q, hq, hqid⟩ := h.parent_lt id hpos hlt
  rw [hp] at hq
  cases hq
  exact ⟨hpos, hlt, hqid⟩

-- A change that puts no node in.
theorem of_keeps {u : Tree} (h : t.Arranged) (hkeeps : Keeps t u) (hsize : u.size = t.size)
    (hu : u.WellFormed) (hlisted : ∀ {id p : Nat}, t.parent id = some p →
      id ∈ t.children p ∨ (t.kind id).isBlankText → id ∈ u.children p ∨ (u.kind id).isBlankText) :
    u.Arranged := by
  have hparent : ∀ i : Nat, u.parent i = t.parent i := by
    intro i
    by_cases hi : i < t.size
    · exact hkeeps.parent_eq i hi
    · have hnew : u.node i = default := node_of_size_le (by omega)
      have hold : t.node i = default := node_of_size_le (by omega)
      rw [Tree.parent, Tree.parent, hnew, hold]
  refine ⟨hu, ?_, ?_, ?_, ?_, ?_, ?_, ?_⟩
  · rw [hparent, h.parent_root]
  · intro i hpos hi
    rw [hparent]
    exact h.parent_lt i hpos (hsize ▸ hi)
  · intro i p hp
    rw [hparent] at hp
    exact hlisted hp (h.listed hp)
  · intro i p hp
    rw [hparent] at hp
    have hlt := h.parent_lt_size hp
    have htext := hkeeps.isText_eq p (by omega)
    rw [h.parent_not_text hp] at htext
    simpa using htext
  · intro i hi
    rw [hsize] at hi
    rw [hkeeps.unitsAround_eq hi, hkeeps.mark_eq i hi]
    exact h.unit i hi
  · intro i hi
    rw [hsize] at hi
    rw [hkeeps.unitsAround_eq hi]
    exact h.units_nodup i hi
  · intro i hi data hdata
    rw [hsize] at hi
    rw [hkeeps.custom?_eq i hi] at hdata
    rw [hkeeps.countP_eq hi]
    exact h.nesting i hi data hdata

theorem append (h : t.Arranged) (hn : Fits t parent n) : (t.append parent n).2.Arranged := by
  have hkeeps : Keeps t (t.append parent n).2 := keeps_append
  have hnew : ∀ i < t.size + 1, i < t.size ∨ i = t.size := by omega
  have hparent : (t.append parent n).2.parent t.size = some parent := by
    rw [Tree.parent, node_append, if_pos rfl]
  have hchild : ∀ {i p : Nat}, (t.append parent n).2.parent i = some p →
      (i < t.size ∧ t.parent i = some p) ∨ (i = t.size ∧ p = parent) := by
    intro i p hp
    have hlt : i < t.size + 1 := by
      by_contra hge
      rw [Tree.parent, node_of_size_le (by rw [size_append]; omega)] at hp
      cases hp
    rcases hnew i hlt with hi | rfl
    · exact .inl ⟨hi, hkeeps.parent_eq i hi ▸ hp⟩
    · exact .inr ⟨rfl, Option.some.inj (hp.symm.trans hparent)⟩
  refine ⟨h.wellFormed.append hn.childless, ?_, ?_, ?_, ?_, ?_, ?_, ?_⟩
  · rw [hkeeps.parent_eq root h.wellFormed.root_lt, h.parent_root]
  · intro i hpos hi
    rw [size_append] at hi
    rcases hnew i hi with hi | rfl
    · rw [hkeeps.parent_eq i hi]
      exact h.parent_lt i hpos hi
    · exact ⟨parent, hparent, hn.parent_lt⟩
  · intro i p hp
    rcases hchild hp with ⟨hi, hp⟩ | ⟨rfl, rfl⟩
    · have hkind : (t.append parent n).2.kind i = t.kind i := by
        rw [kind, node_append, if_neg (by omega)]
        split <;> rfl
      have hmem : i ∈ t.children p → i ∈ (t.append parent n).2.children p := by
        intro hmem
        have hplt := h.parent_lt_size hp
        rw [children, node_append, if_neg (by omega)]
        split
        · exact List.mem_append_left _ hmem
        · exact hmem
      rw [hkind]
      exact (h.listed hp).imp hmem id
    · refine .inl ?_
      rw [children, node_append, if_neg hn.parent_lt.ne,
        if_pos ⟨rfl, hn.parent_lt⟩]
      exact List.mem_append_right _ (List.mem_singleton_self _)
  · intro i p hp
    have htext : p < t.size → (t.kind p).run? = none →
        ((t.append parent n).2.kind p).run? = none := by
      intro hlt hnone
      have hsome := hkeeps.isText_eq p hlt
      rw [hnone] at hsome
      simpa using hsome
    rcases hchild hp with ⟨hi, hp⟩ | ⟨rfl, rfl⟩
    · have hplt := h.parent_lt_size hp
      exact htext (by omega) (h.parent_not_text hp)
    · exact htext hn.parent_lt hn.not_text
  · intro i hi
    rw [size_append] at hi
    rcases hnew i hi with hi | rfl
    · rw [hkeeps.unitsAround_eq hi, hkeeps.mark_eq i hi]
      exact h.unit i hi
    · have hmark : (t.append parent n).2.mark t.size = n.mark := by
        rw [Tree.mark, node_append, if_pos rfl]
      rw [unitsAround_append hn.parent_lt, hmark]
      cases hroot : n.kind.root? with
      | none => exact hn.mark hroot
      | some data => exact congrArg some (hn.root data hroot).1.symm
  · intro i hi
    rw [size_append] at hi
    rcases hnew i hi with hi | rfl
    · rw [hkeeps.unitsAround_eq hi]
      exact h.units_nodup i hi
    · rw [unitsAround_append hn.parent_lt]
      have habove := h.units_nodup parent hn.parent_lt
      cases hroot : n.kind.root? with
      | none => exact habove
      | some data =>
        dsimp only
        split
        · exact List.nodup_cons.mpr ⟨(hn.root data hroot).2 ‹_›, habove⟩
        · simp
  · intro i hi data hdata
    rw [size_append] at hi
    rcases hnew i hi with hi | rfl
    · rw [hkeeps.custom?_eq i hi] at hdata
      rw [hkeeps.countP_eq hi]
      exact h.nesting i hi data hdata
    · rw [kind_append] at hdata
      rw [hn.nesting data hdata, nestingLevel_eq, ancestors_append hn.parent_lt]
      refine List.countP_congr fun a ha => ?_
      have hle := le_of_mem_selfAndAncestors ha
      rw [isNamedAction, isNamedAction, hkeeps.custom?_eq a (hle.trans_lt hn.parent_lt)]

theorem step {t u : Tree} (hs : Step t u) (h : t.Arranged) : u.Arranged := by
  have hu := h.wellFormed.step hs
  have hkeeps := hs.keeps
  cases hs with
  | append parent n hn => exact h.append hn
  | openBody id =>
    refine h.of_keeps hkeeps size_modify hu fun {i p} hp hlisted => ?_
    have hnode : ∀ j, (t.openBody id).kind j = t.kind j ∧
        (t.openBody id).children j = t.children j := by
      intro j
      rw [openBody, kind, children, node_modify]
      split <;> exact ⟨rfl, rfl⟩
    rwa [(hnode i).1, (hnode p).2]
  | removeBlank parent child hblank =>
    refine h.of_keeps hkeeps size_modify hu fun {i p} hp hlisted => ?_
    have hkind : ∀ j, (t.removeChild parent child).kind j = t.kind j := by
      intro j
      rw [removeChild, kind, node_modify]
      split <;> rfl
    rw [hkind]
    by_cases hi : i = child
    · exact .inr (hi ▸ hblank)
    · refine hlisted.imp_left fun hmem => ?_
      rw [removeChild, children, node_modify]
      split
      · rw [children] at hmem
        cases hbody : (t.node p).body with
        | none =>
          rw [Node.children, hbody] at hmem
          cases hmem
        | some ids =>
          rw [Node.children, hbody] at hmem
          simpa [Node.children, hi] using hmem
      · exact hmem
  | modifyText id f hf =>
    refine h.of_keeps hkeeps size_modify hu fun {i p} hp hlisted => ?_
    refine hlisted.imp (fun hmem => ?_) fun hblank => ?_
    · rw [modifyText, children, node_modify]
      split
      · cases hk : (t.node p).kind <;> exact hmem
      · exact hmem
    · rw [modifyText, kind, node_modify]
      split
      · rw [kind] at hblank
        cases hk : (t.node i).kind with
        | text run =>
          rw [hk] at hblank
          exact hf run hblank
        | _ =>
          rw [hk] at hblank
          cases hblank
      · exact hblank
  | addSource unit text => exact h.of_keeps hkeeps rfl hu fun _ hlisted => hlisted

end Arranged

theorem parent_ofRoot (r : UnitRoot) (text : String) (id : NodeId) :
    (ofRoot r text).parent id = none := by
  cases id with
  | zero => rfl
  | succ id => rw [Tree.parent, node_of_size_le (by simp [ofRoot, size])]; rfl

theorem unitsAround_ofRoot {r : UnitRoot} (hr : r.origin ≠ .included) (text : String) :
    (ofRoot r text).unitsAround root = [r.unit] := by
  rw [unitsAround, roots, selfAndAncestors, ancestors_eq_nil (parent_ofRoot r text root)]
  exact congrArg (r.unit :: ·) (if_neg hr)

theorem arranged_ofRoot {r : UnitRoot} (hr : r.origin ≠ .included) (text : String) :
    (ofRoot r text).Arranged := by
  have hparent := parent_ofRoot r text
  have hunits := unitsAround_ofRoot hr text
  have hroot : ∀ id < (ofRoot r text).size, id = root := by
    intro id hid
    have hone : (ofRoot r text).size = 1 := rfl
    rw [root]
    omega
  refine ⟨wellFormed_ofRoot r text, hparent root, ?_, ?_, ?_, ?_, ?_, ?_⟩
  · intro id hpos hid
    exact absurd (hroot id hid) hpos.ne'
  · intro id p hp
    rw [hparent] at hp
    cases hp
  · intro id p hp
    rw [hparent] at hp
    cases hp
  · intro id hid
    rw [hroot id hid, hunits]
    rfl
  · intro id hid
    rw [hroot id hid, hunits]
    simp
  · intro id hid data hdata
    rw [hroot id hid] at hdata
    cases hdata

end Tree
end PageCompiler
