import PageCompiler.Page.Tree
import Mathlib.Data.List.Basic
import Mathlib.Order.Basic
import Mathlib.Order.Nat
import Mathlib.Tactic.SplitIfs

namespace PageCompiler.Tree

variable {t u : Tree} {id p i : Nat}

theorem ancestors_eq_nil (h : t.parent id = none) : t.ancestors id = [] := by
  rw [ancestors, h]

theorem ancestors_eq_cons (h : t.parent id = some p) (hlt : p < id) :
    t.ancestors id = t.selfAndAncestors p := by
  rw [ancestors, h]
  exact if_pos hlt

theorem lt_of_mem_ancestors {a : Nat} (h : a ∈ t.ancestors id) : a < id := by
  fun_induction ancestors t id with
  | case1 id p hp hlt ih =>
    rcases List.mem_cons.mp h with rfl | h
    · exact hlt
    · exact (ih h).trans hlt
  | case2 => cases h
  | case3 => cases h

theorem le_of_mem_selfAndAncestors {a : Nat} (h : a ∈ t.selfAndAncestors id) : a ≤ id := by
  rcases List.mem_cons.mp h with rfl | h
  · exact Nat.le_refl _
  · exact Nat.le_of_lt (lt_of_mem_ancestors h)

-- The roots of the units that a node belongs to, innermost first.
def roots (t : Tree) (id : NodeId) : List UnitRoot :=
  (t.selfAndAncestors id).filterMap fun a => (t.kind a).root?

-- The units that are read while the innermost one is: a unit that is not included stands alone.
def openUnits : List UnitRoot → List String
  | [] => []
  | r :: rest => r.unit :: if r.origin = .included then openUnits rest else []

-- The names of the units around a node, from its own unit up to the first one that is not
-- included.
def unitsAround (t : Tree) (id : NodeId) : List String := openUnits (t.roots id)

theorem head?_openUnits (l : List UnitRoot) : (openUnits l).head? = l.head?.map UnitRoot.unit := by
  cases l <;> rfl

theorem isRoot_eq (k : NodeKind) : k.isRoot = k.root?.isSome := by cases k <;> rfl

-- The innermost of the units around a node is the one of its root.
theorem head?_unitsAround {unit : String} (h : (t.unitsAround id).head? = some unit) :
    ∃ data, t.kind (t.unitRoot id) = .root data ∧ data.unit = unit := by
  rw [unitsAround, head?_openUnits, roots, List.head?_filterMap] at h
  obtain ⟨data, hdata, rfl⟩ := Option.map_eq_some_iff.mp h
  refine ⟨data, ?_, rfl⟩
  rw [List.findSome?_eq_some_iff] at hdata
  obtain ⟨before, a, after, hsplit, ha, hbefore⟩ := hdata
  have hfind : (t.selfAndAncestors id).find? (fun a => (t.kind a).isRoot) = some a := by
    rw [hsplit, List.find?_append]
    have hnone : before.find? (fun a => (t.kind a).isRoot) = none := by
      rw [List.find?_eq_none]
      intro c hc
      rw [isRoot_eq, hbefore c hc]
      decide
    rw [hnone, List.find?_cons_of_pos (by rw [isRoot_eq, ha]; rfl)]
    rfl
  rw [unitRoot, hfind, Option.getD_some]
  cases hk : t.kind a <;> rw [hk] at ha <;> cases ha
  rfl

-- Nothing that can be seen from below has changed at the nodes that were there before.
structure Keeps (t u : Tree) : Prop where
  size_le : t.size ≤ u.size
  parent_eq : ∀ i < t.size, u.parent i = t.parent i
  mark_eq : ∀ i < t.size, u.mark i = t.mark i
  root?_eq : ∀ i < t.size, (u.kind i).root? = (t.kind i).root?
  custom?_eq : ∀ i < t.size, (u.kind i).custom? = (t.kind i).custom?
  isText_eq : ∀ i < t.size, (u.kind i).run?.isSome = (t.kind i).run?.isSome

namespace Keeps

theorem refl (t : Tree) : Keeps t t :=
  ⟨Nat.le_refl _, fun _ _ => rfl, fun _ _ => rfl, fun _ _ => rfl, fun _ _ => rfl, fun _ _ => rfl⟩

theorem trans {v : Tree} (h : Keeps t u) (h' : Keeps u v) : Keeps t v where
  size_le := h.size_le.trans h'.size_le
  parent_eq i hi := (h'.parent_eq i (hi.trans_le h.size_le)).trans (h.parent_eq i hi)
  mark_eq i hi := (h'.mark_eq i (hi.trans_le h.size_le)).trans (h.mark_eq i hi)
  root?_eq i hi := (h'.root?_eq i (hi.trans_le h.size_le)).trans (h.root?_eq i hi)
  custom?_eq i hi := (h'.custom?_eq i (hi.trans_le h.size_le)).trans (h.custom?_eq i hi)
  isText_eq i hi := (h'.isText_eq i (hi.trans_le h.size_le)).trans (h.isText_eq i hi)

theorem ancestors_eq (h : Keeps t u) (hi : i < t.size) : u.ancestors i = t.ancestors i := by
  induction i using Nat.strongRecOn with
  | ind i ih =>
    rw [ancestors, ancestors, h.parent_eq i hi]
    cases t.parent i with
    | none => rfl
    | some p =>
      dsimp only
      split_ifs with hp
      · rw [ih p hp (hp.trans hi)]
      · rfl

theorem selfAndAncestors_eq (h : Keeps t u) (hi : i < t.size) :
    u.selfAndAncestors i = t.selfAndAncestors i := by
  rw [selfAndAncestors, selfAndAncestors, h.ancestors_eq hi]

theorem roots_eq (h : Keeps t u) (hi : i < t.size) : u.roots i = t.roots i := by
  rw [roots, roots, h.selfAndAncestors_eq hi]
  refine List.filterMap_congr fun a ha => h.root?_eq a ?_
  have := le_of_mem_selfAndAncestors ha
  omega

theorem unitsAround_eq (h : Keeps t u) (hi : i < t.size) : u.unitsAround i = t.unitsAround i := by
  rw [unitsAround, unitsAround, h.roots_eq hi]

end Keeps

-- Whether a node is a custom action of the given name.
def isNamedAction (t : Tree) (name : String) (id : NodeId) : Bool :=
  (t.kind id).custom?.any fun data => data.qualifiedName == name

theorem nestingLevel_eq (t : Tree) (parent : NodeId) (name : String) :
    t.nestingLevel parent name = (t.selfAndAncestors parent).countP (t.isNamedAction name) := by
  rw [nestingLevel]
  congr 1
  funext id
  rw [isNamedAction]
  cases t.kind id <;> rfl

theorem Keeps.countP_eq (h : Keeps t u) (hi : i < t.size) (name : String) :
    (u.ancestors i).countP (u.isNamedAction name) =
      (t.ancestors i).countP (t.isNamedAction name) := by
  rw [h.ancestors_eq hi]
  refine List.countP_congr fun a ha => ?_
  have hlt := lt_of_mem_ancestors ha
  rw [isNamedAction, isNamedAction, h.custom?_eq a (hlt.trans hi)]

end PageCompiler.Tree
