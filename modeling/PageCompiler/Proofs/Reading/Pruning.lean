import PageCompiler.Proofs.Page.Shedding
import PageCompiler.Proofs.Reading.Pages

namespace PageCompiler

open Builder (prune removeBlanks)

-- The node with a body from which some nodes have been taken.
def Node.without (n : Node) (gone : NodeId → Bool) : Node :=
  { n with body := n.body.map fun ids => ids.filter fun c => !gone c }

namespace Node

variable {n : Node} {f g : NodeId → Bool}

@[simp] theorem children_without (n : Node) (gone : NodeId → Bool) :
    (n.without gone).children = n.children.filter fun c => !gone c := by
  unfold without children
  cases n.body <;> rfl

theorem without_congr (h : ∀ c ∈ n.children, f c = g c) : n.without f = n.without g := by
  unfold without
  unfold children at h
  cases hbody : n.body with
  | none => rfl
  | some ids =>
    rw [hbody] at h
    have hfilter : (ids.filter fun c => !f c) = ids.filter fun c => !g c :=
      List.filter_congr fun c hc => by rw [h c hc]
    simp only [Option.map_some, hfilter]

theorem without_eq_self (h : ∀ c ∈ n.children, f c = false) : n.without f = n := by
  rw [without_congr (g := fun _ => false) h]
  cases n with
  | mk kind mark name attributes parent body => cases body <;> simp [without]

theorem without_without (n : Node) (f g : NodeId → Bool) :
    (n.without f).without g = n.without fun c => f c || g c := by
  unfold without
  cases n.body with
  | none => rfl
  | some ids => simp [List.filter_filter, Bool.and_comm]

end Node

namespace Tree

variable {t : Tree} {id : NodeId}

theorem node_removeChild (t : Tree) (parent child i : NodeId) :
    (t.removeChild parent child).node i =
      if i = parent then (t.node i).without (· == child) else t.node i := by
  rw [removeChild, node_modify]
  by_cases hi : i = parent
  · by_cases hlt : i < t.size
    · rw [if_pos ⟨hi, hlt⟩, if_pos hi]
      rfl
    · rw [if_neg fun h => hlt h.2, if_pos hi, node_of_size_le (Nat.le_of_not_lt hlt)]
      rfl
  · rw [if_neg fun h => hi h.1, if_neg hi]

theorem kind_removeChild (t : Tree) (parent child i : NodeId) :
    (t.removeChild parent child).kind i = t.kind i := by
  rw [kind, node_removeChild]
  split <;> rfl

def isBlankNode (t : Tree) (id : NodeId) : Bool := (t.kind id).isBlankText

theorem node_removeBlanksFrom (l : List NodeId) (t : Tree) (id i : NodeId) :
    (l.foldl (fun t c => if (t.kind c).isBlankText then t.removeChild id c else t) t).node i =
      if i = id then (t.node i).without fun c => l.contains c && t.isBlankNode c else t.node i := by
  induction l generalizing t with
  | nil =>
    rw [List.foldl_nil]
    split
    · exact (Node.without_eq_self fun _ _ => rfl).symm
    · rfl
  | cons c l ih =>
    rw [List.foldl_cons, ih]
    cases hblank : (t.kind c).isBlankText with
    | false =>
      rw [if_neg Bool.false_ne_true]
      split
      · refine Node.without_congr fun d _ => ?_
        by_cases hd : d = c
        · rw [hd, isBlankNode, hblank, Bool.and_false, Bool.and_false]
        · rw [List.contains_cons, beq_eq_false_iff_ne.mpr hd, Bool.false_or]
      · rfl
    | true =>
      rw [if_pos rfl, node_removeChild]
      split
      · rw [Node.without_without]
        refine Node.without_congr fun d _ => ?_
        rw [isBlankNode, kind_removeChild, List.contains_cons]
        by_cases hd : d = c
        · simp [hd, isBlankNode, hblank]
        · rw [beq_eq_false_iff_ne.mpr hd, Bool.false_or, Bool.false_or]
          rfl
      · rfl

theorem node_removeBlanks (t : Tree) (id i : NodeId) : (removeBlanks t id).node i =
    if i = id then (t.node i).without t.isBlankNode else t.node i := by
  rw [removeBlanks, node_removeBlanksFrom]
  split
  · rename_i hi
    refine Node.without_congr fun c hc => ?_
    rw [List.contains_iff_mem.mpr (hi ▸ hc), Bool.true_and]
  · rfl

end Tree

-- Text elements, whose text is kept.
def NodeKind.isTextElement : NodeKind → Bool
  | .jspText => true
  | _ => false

namespace Tree

variable {t : Tree} {id : NodeId}

-- What pruning does to one body.
def pruneBody (t : Tree) (id : NodeId) : Tree :=
  if (t.kind id).isTextElement then t else removeBlanks t id

theorem prune_eq_foldl (t : Tree) : prune t = t.preorder.foldl pruneBody t := by
  unfold prune
  congr 1
  funext t id
  unfold pruneBody
  cases t.kind id <;> rfl

theorem node_pruneBody (t : Tree) (id i : NodeId) : (t.pruneBody id).node i =
    if i = id ∧ (t.kind i).isTextElement = false then (t.node i).without t.isBlankNode
    else t.node i := by
  unfold pruneBody
  by_cases hi : i = id
  · subst hi
    cases htext : (t.kind i).isTextElement with
    | true => simp
    | false => simp [node_removeBlanks]
  · have hno : ¬(i = id ∧ (t.kind i).isTextElement = false) := fun h => hi h.1
    rw [if_neg hno]
    split
    · rfl
    · rw [node_removeBlanks, if_neg hi]

theorem kind_pruneBody (t : Tree) (id i : NodeId) : (t.pruneBody id).kind i = t.kind i := by
  rw [kind, node_pruneBody]
  split <;> rfl

theorem node_pruneBodies (l : List NodeId) (t : Tree) (i : NodeId) :
    (l.foldl pruneBody t).node i =
      if i ∈ l ∧ (t.kind i).isTextElement = false then (t.node i).without t.isBlankNode
      else t.node i := by
  induction l generalizing t with
  | nil => rw [List.foldl_nil, if_neg fun h => nomatch h.1]
  | cons id l ih =>
    have hblank : (t.pruneBody id).isBlankNode = t.isBlankNode :=
      funext fun c => congrArg NodeKind.isBlankText (kind_pruneBody t id c)
    rw [List.foldl_cons, ih, hblank, kind_pruneBody, node_pruneBody]
    cases htext : (t.kind i).isTextElement with
    | true => simp
    | false =>
      by_cases hi : i = id
      · have htwice : ((t.node i).without t.isBlankNode).without t.isBlankNode =
            (t.node i).without t.isBlankNode := by
          rw [Node.without_without]
          simp only [Bool.or_self]
        simp [hi, hi ▸ htwice]
      · simp [hi]

-- Blank text outside of text elements.
def isLoose (t : Tree) (id : NodeId) : Bool :=
  t.isBlankNode id && (t.parent id).any fun p => !(t.kind p).isTextElement

-- Pruning takes all loose blanks out of their bodies and does nothing else. What is out of reach of
-- it has no body.
theorem node_prune (ht : t.Arranged) (id : NodeId) :
    (prune t).node id = (t.node id).without t.isLoose := by
  have hparent : ∀ c ∈ (t.node id).children, t.parent c = some id := fun c hc =>
    ht.wellFormed.parent_eq hc
  rw [prune_eq_foldl, node_pruneBodies]
  split
  · rename_i h
    refine Node.without_congr fun c hc => ?_
    rw [isLoose, hparent c hc, Option.any_some, h.2, Bool.not_false, Bool.and_true]
  · rename_i h
    rw [Node.without_eq_self fun c hc => ?_]
    rw [isLoose, hparent c hc, Option.any_some]
    suffices (t.kind id).isTextElement = true by rw [this, Bool.not_true, Bool.and_false]
    rw [not_and, Bool.not_eq_false] at h
    exact h (Page.mem_preorder_of_child ht hc)

theorem sources_foldl {α : Type} {f : Tree → α → Tree} (hf : ∀ t a, (f t a).sources = t.sources)
    (l : List α) (t : Tree) : (l.foldl f t).sources = t.sources := by
  induction l generalizing t with
  | nil => rfl
  | cons a l ih => rw [List.foldl_cons, ih, hf]

theorem sources_prune (t : Tree) : (prune t).sources = t.sources := by
  refine sources_foldl (fun t id => ?_) _ t
  split
  · rfl
  · refine sources_foldl (fun t c => ?_) _ t
    split <;> rfl

-- A loose blank has no body.
theorem bare_of_isLoose (ht : t.Arranged) (h : t.isLoose id) : t.children id = [] := by
  refine List.eq_nil_iff_forall_not_mem.mpr fun c hc => ?_
  have hblank : (t.kind id).isBlankText := (Bool.and_eq_true_iff.mp h).1
  rw [Page.not_blank_of_parent ht (ht.wellFormed.parent_eq hc)] at hblank
  cases hblank

theorem isLoose_root (ht : t.Arranged) : t.isLoose root = false := by
  rw [isLoose, ht.parent_root, Option.any_none, Bool.and_false]

theorem sheds_prune (ht : t.Arranged) : t.Sheds t.isLoose (prune t) where
  wellFormed := ht.wellFormed
  size_eq := (Builder.alike_prune t).size_eq
  sources_eq := sources_prune t
  kind_eq _ := by rw [kind, node_prune ht]; rfl
  blank {id} h := by
    have hblank : (t.kind id).isBlankText := (Bool.and_eq_true_iff.mp h).1
    refine ⟨hblank, ?_⟩
    rw [kind, node_prune ht]
    exact hblank
  bare := bare_of_isLoose ht
  mark_eq id := by rw [mark, node_prune ht]; rfl
  name_eq id := by rw [node_prune ht]; rfl
  attributes_eq id := by rw [node_prune ht]; rfl
  parent_eq id := by rw [parent, node_prune ht]; rfl
  children_eq id := by rw [children, node_prune ht, Node.children_without]; rfl

-- A blank that is left stands in a text element.
theorem kind_of_blank_prune (ht : t.Arranged) {child : NodeId}
    (hchild : child ∈ (prune t).children id) (hblank : ((prune t).kind child).isBlankText) :
    (prune t).kind id = .jspText := by
  have hsheds := sheds_prune ht
  rw [hsheds.children_eq, List.mem_filter, Bool.not_eq_true'] at hchild
  obtain ⟨hchild, hkept⟩ := hchild
  have htext : (t.kind id).isTextElement := by
    rw [hsheds.kind_eq hkept] at hblank
    rw [isLoose, isBlankNode, hblank, Bool.true_and, ht.wellFormed.parent_eq hchild,
      Option.any_some, Bool.not_eq_false'] at hkept
    exact hkept
  have hkind : t.kind id = .jspText := by
    cases hk : t.kind id <;> rw [hk] at htext <;> first | rfl | cases htext
  have hid : t.isLoose id = false := by
    rw [isLoose, isBlankNode, hkind]
    rfl
  rw [hsheds.kind_eq hid, hkind]

end Tree

-- Elements that are no actions.
def NodeKind.isMarkup : NodeKind → Bool
  | .uninterpreted => true
  | _ => false

namespace Tree

variable {t : Tree}

-- A node of a tree with its loose blanks emptied. Markup elements lose theirs, since an element
-- with nothing in its body is written in another way.
def hushedNode (t : Tree) (id : NodeId) (n : Node) : Node :=
  { (if n.kind.isMarkup then n.without t.isLoose else n) with
    kind := if t.isLoose id then .text (.ofText "") else n.kind }

-- The tree in which nothing is written for loose blanks.
def hushed (t : Tree) : Tree := { t with nodes := t.nodes.mapIdx t.hushedNode }

theorem node_hushed (t : Tree) (id : NodeId) : t.hushed.node id = t.hushedNode id (t.node id) := by
  by_cases hid : id < t.size
  · have hlt : id < t.nodes.size := hid
    simp [hushed, node, Array.getD_eq_getD_getElem?, hlt]
  · have hsize : t.hushed.size = t.size := Array.size_mapIdx
    have hnode := node_of_size_le (t := t) (Nat.le_of_not_lt hid)
    have hloose : t.isLoose id = false := by
      rw [isLoose, parent, hnode]
      exact Bool.and_false _
    rw [node_of_size_le (hsize.trans_le (Nat.le_of_not_lt hid)), hnode, hushedNode, hloose]
    rfl

theorem children_hushed (t : Tree) (id : NodeId) : t.hushed.children id =
    if (t.kind id).isMarkup then (t.children id).filter fun c => !t.isLoose c
    else t.children id := by
  rw [children, node_hushed]
  unfold hushedNode kind children
  split
  · exact Node.children_without ..
  · rfl

theorem kind_hushed (t : Tree) (id : NodeId) :
    t.hushed.kind id = if t.isLoose id then .text (.ofText "") else t.kind id := by
  rw [kind, node_hushed]
  rfl

-- What a node of the tree has besides its kind and its body, it keeps.
theorem hushed_eq (t : Tree) (id : NodeId) : t.hushed.mark id = t.mark id ∧
    (t.hushed.node id).name = (t.node id).name ∧
    (t.hushed.node id).attributes = (t.node id).attributes ∧ t.hushed.parent id = t.parent id := by
  rw [mark, parent, node_hushed]
  unfold hushedNode
  split <;> exact ⟨rfl, rfl, rfl, rfl⟩

theorem wellFormed_hushed (ht : t.Arranged) : t.hushed.WellFormed := by
  refine ht.wellFormed.of_sublist Array.size_mapIdx (fun id => ?_) fun id => (t.hushed_eq id).2.2.2
  rw [children_hushed]
  split
  · exact List.filter_sublist
  · exact List.Sublist.refl _

theorem sheds_hushed (ht : t.Arranged) : t.hushed.Sheds t.isLoose (prune t) := by
  have hp := sheds_prune ht
  refine
    { wellFormed := wellFormed_hushed ht
      size_eq := hp.size_eq.trans Array.size_mapIdx.symm
      sources_eq := hp.sources_eq
      kind_eq := fun {id} hid => ?_
      blank := fun {id} hid => ⟨?_, (hp.blank hid).2⟩
      bare := fun {id} hid => ?_
      mark_eq := fun id => (hp.mark_eq id).trans (t.hushed_eq id).1.symm
      name_eq := fun id => (hp.name_eq id).trans (t.hushed_eq id).2.1.symm
      attributes_eq := fun id => (hp.attributes_eq id).trans (t.hushed_eq id).2.2.1.symm
      parent_eq := fun id => (hp.parent_eq id).trans (t.hushed_eq id).2.2.2.symm
      children_eq := fun id => ?_ }
  · rw [hp.kind_eq hid, kind_hushed, if_neg (by rw [hid]; decide)]
  · rw [kind_hushed, if_pos hid]
    rfl
  · rw [children_hushed, bare_of_isLoose ht hid, List.filter_nil, ite_self]
  · rw [hp.children_eq, children_hushed]
    split
    · rw [List.filter_filter]
      simp only [Bool.and_self]
    · rfl

end Tree

end PageCompiler
