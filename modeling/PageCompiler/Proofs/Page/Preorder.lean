import PageCompiler.Proofs.Page.Growth
import Mathlib.Data.List.Perm.Subperm

namespace PageCompiler.Tree

-- What is known while the nodes in `visited` have been taken and those in `stack` are waiting.
structure Walking (t : Tree) (enter : NodeKind → Bool) (visited stack : List Nat) : Prop where
  nodup : (visited ++ stack).Nodup
  lt_size : ∀ i ∈ visited ++ stack, i < t.size
  children_mem : ∀ i ∈ visited, enter (t.kind i) → ∀ c ∈ t.children i, c ∈ visited ++ stack
  parent_mem : ∀ i ∈ visited ++ stack, i = 0 ∨ ∃ p ∈ visited, i ∈ t.children p

namespace Walking

variable {t : Tree} {enter : NodeKind → Bool} {visited stack : List Nat}

theorem length_le (h : Walking t enter visited stack) :
    visited.length + stack.length ≤ t.size := by
  have hsub : (visited ++ stack) ⊆ List.range t.size := fun i hi =>
    List.mem_range.mpr (h.lt_size i hi)
  have hlen := (List.subperm_of_subset h.nodup hsub).length_le
  rwa [List.length_append, List.length_range] at hlen

theorem start (ht : t.WellFormed) : Walking t enter [] [root] where
  nodup := by simp
  lt_size i hi := by
    obtain rfl : i = root := by simpa using hi
    exact ht.root_lt
  children_mem i hi := absurd hi (by simp)
  parent_mem i hi := .inl (by simpa [root] using hi)

-- A child of a node that has not been taken yet is new: its parent is that node alone.
theorem child_not_mem (ht : t.WellFormed) {id c : Nat}
    (h : Walking t enter visited (id :: stack)) (hc : c ∈ t.children id) :
    c ∉ visited ++ id :: stack := by
  intro hmem
  rcases h.parent_mem c hmem with rfl | ⟨p, hp, hcp⟩
  · exact absurd (ht.child_lt hc).1 (by omega)
  · have hpar := (ht.parent_eq hc).symm.trans (ht.parent_eq hcp)
    obtain rfl : id = p := Option.some.inj hpar
    exact (List.nodup_append.mp h.nodup).2.2 id hp id (List.mem_cons_self ..) rfl

theorem step (ht : t.WellFormed) {id : Nat} (h : Walking t enter visited (id :: stack)) :
    Walking t enter (visited ++ [id])
      ((if enter (t.kind id) then t.children id else []) ++ stack) := by
  obtain ⟨next, hnext⟩ : ∃ next, next = if enter (t.kind id) then t.children id else [] :=
    ⟨_, rfl⟩
  rw [← hnext]
  have hsub : ∀ c ∈ next, c ∈ t.children id := by
    intro c hc
    rw [hnext] at hc
    split at hc
    · exact hc
    · cases hc
  have hall : ∀ i, i ∈ visited ++ [id] ++ (next ++ stack) ↔
      i ∈ visited ++ id :: stack ∨ i ∈ next := by
    intro i
    simp only [List.mem_append, List.mem_cons, List.not_mem_nil, or_false]
    tauto
  refine ⟨?_, ?_, ?_, ?_⟩
  · have hn : next.Nodup := by
      rw [hnext]
      split
      · exact (ht.increasing id).imp fun hlt => Nat.ne_of_lt hlt
      · exact List.nodup_nil
    have hperm : (visited ++ [id] ++ (next ++ stack)).Perm (next ++ (visited ++ id :: stack)) := by
      rw [← List.append_assoc]
      refine (List.perm_append_comm.append_right stack).trans ?_
      simp
    rw [hperm.nodup_iff, List.nodup_append]
    exact ⟨hn, h.nodup, fun c hc d hd hcd => h.child_not_mem ht (hsub c hc) (hcd ▸ hd)⟩
  · intro i hi
    rcases (hall i).mp hi with hi | hi
    · exact h.lt_size i hi
    · exact (ht.child_lt (hsub i hi)).2
  · intro i hi henter c hc
    rw [hall]
    rcases List.mem_append.mp hi with hi | hi
    · exact .inl (h.children_mem i hi henter c hc)
    · obtain rfl : i = id := by simpa using hi
      exact .inr (by rwa [hnext, if_pos henter])
  · intro i hi
    rcases (hall i).mp hi with hi | hi
    · rcases h.parent_mem i hi with hroot | ⟨p, hp, hip⟩
      · exact .inl hroot
      · exact .inr ⟨p, List.mem_append_left _ hp, hip⟩
    · exact .inr ⟨id, by simp, hsub i hi⟩

theorem run (ht : t.WellFormed) {fuel : Nat} (h : Walking t enter visited stack)
    (hfuel : t.size ≤ visited.length + fuel) :
    Walking t enter (visited ++ t.walk enter fuel stack) [] := by
  induction fuel generalizing visited stack with
  | zero =>
    have hlen := h.length_le
    obtain rfl : stack = [] := List.length_eq_zero_iff.mp (by omega)
    rwa [walk, List.append_nil]
  | succ fuel ih =>
    cases stack with
    | nil => rwa [walk, List.append_nil]
    | cons id stack =>
      have hstep := ih (h.step ht) (by rw [List.length_append, List.length_singleton]; omega)
      rwa [List.append_assoc, List.singleton_append] at hstep

end Walking

section
variable {t : Tree} (ht : t.WellFormed) (enter : NodeKind → Bool)
include ht

theorem walking_entered : Walking t enter (t.entered enter) [] := by
  have hstart : Walking t enter [] [root] := .start ht
  exact hstart.run ht (by simp)

theorem root_mem_entered : root ∈ t.entered enter := by
  have hpos := ht.root_lt
  rw [entered]
  cases hs : t.size with
  | zero => omega
  | succ n => exact List.mem_cons_self ..

theorem lt_size_of_mem_entered {id : Nat} (h : id ∈ t.entered enter) : id < t.size :=
  (walking_entered ht enter).lt_size id (by simpa using h)

theorem nodup_entered : (t.entered enter).Nodup := by
  simpa using (walking_entered ht enter).nodup

theorem child_mem_entered {id c : Nat} (h : id ∈ t.entered enter) (he : enter (t.kind id))
    (hc : c ∈ t.children id) : c ∈ t.entered enter := by
  simpa using (walking_entered ht enter).children_mem id h he c hc

end

theorem WellFormed.root_mem_preorder {t : Tree} (ht : t.WellFormed) : root ∈ t.preorder :=
  root_mem_entered ht _

theorem WellFormed.child_mem_preorder {t : Tree} (ht : t.WellFormed) {id c : Nat}
    (h : id ∈ t.preorder) (hc : c ∈ t.children id) : c ∈ t.preorder :=
  child_mem_entered ht _ h rfl hc

theorem WellFormed.lt_size_of_mem_preorder {t : Tree} (ht : t.WellFormed) {id : Nat}
    (h : id ∈ t.preorder) : id < t.size :=
  lt_size_of_mem_entered ht _ h

-- A node comes up in the body of a node that comes up itself.
def Reachable (t : Tree) : NodeId → Prop :=
  Relation.ReflTransGen (fun parent child => child ∈ t.children parent) root

theorem WellFormed.mem_preorder_of_reachable {t : Tree} (ht : t.WellFormed) {id : Nat}
    (h : t.Reachable id) : id ∈ t.preorder := by
  induction h with
  | refl => exact ht.root_mem_preorder
  | tail _ hc ih => exact ht.child_mem_preorder ih hc

theorem reachable_of_mem_walk {t : Tree} {enter : NodeKind → Bool} {fuel : Nat}
    {stack : List NodeId} {id : NodeId} (hstack : ∀ i ∈ stack, t.Reachable i)
    (h : id ∈ t.walk enter fuel stack) : t.Reachable id := by
  induction fuel generalizing stack with
  | zero => cases h
  | succ fuel ih =>
    cases stack with
    | nil => cases h
    | cons first stack =>
      obtain ⟨hfirst, hstack⟩ := List.forall_mem_cons.mp hstack
      rcases List.mem_cons.mp h with rfl | h
      · exact hfirst
      · refine ih (fun i hi => ?_) h
        rcases List.mem_append.mp hi with hi | hi
        · split at hi
          · exact hfirst.tail hi
          · cases hi
        · exact hstack i hi

theorem WellFormed.mem_preorder_iff {t : Tree} (ht : t.WellFormed) {id : Nat} :
    id ∈ t.preorder ↔ t.Reachable id := by
  refine ⟨reachable_of_mem_walk fun i hi => ?_, ht.mem_preorder_of_reachable⟩
  rw [List.mem_singleton.mp hi]
  exact .refl

-- The nodes that come up when nodes are visited one after the other, each with its body behind it.
inductive Visited (t : Tree) : List NodeId → List NodeId → Prop
  | done : Visited t [] []
  | node {id : NodeId} {rest inner behind : List NodeId} (hbody : Visited t (t.children id) inner)
      (hrest : Visited t rest behind) : Visited t (id :: rest) (id :: (inner ++ behind))

-- A stack gives the same nodes as the recursion, in the same order.
theorem Visited.walk_eq {t : Tree} {nodes ids : List NodeId} (h : t.Visited nodes ids) (fuel : Nat)
    (stack : List NodeId) : t.walk (fun _ => true) (ids.length + fuel) (nodes ++ stack) =
      ids ++ t.walk (fun _ => true) fuel stack := by
  induction h generalizing fuel stack with
  | done => simp
  | @node id rest inner behind _ _ ihbody ihrest =>
    have hlength : (id :: (inner ++ behind)).length + fuel =
        inner.length + (behind.length + fuel) + 1 := by
      simp only [List.length_cons, List.length_append]
      omega
    rw [hlength, List.cons_append, walk, if_pos rfl, ihbody, ihrest]
    simp

theorem exists_visited_of_bodies {t : Tree} {nodes : List NodeId}
    (h : ∀ id ∈ nodes, ∃ ids, t.Visited (t.children id) ids) : ∃ ids, t.Visited nodes ids := by
  induction nodes with
  | nil => exact ⟨[], .done⟩
  | cons id rest ih =>
    obtain ⟨⟨inner, hinner⟩, hrest⟩ := List.forall_mem_cons.mp h
    obtain ⟨behind, hbehind⟩ := ih hrest
    exact ⟨_, .node hinner hbehind⟩

-- By induction on how many numbers are left above a node: children have greater ones.
theorem WellFormed.exists_visited {t : Tree} (ht : t.WellFormed) (nodes : List NodeId) :
    ∃ ids, t.Visited nodes ids := by
  have hbody : ∀ n id, t.size ≤ id + n → ∃ ids, t.Visited (t.children id) ids := by
    intro n
    induction n with
    | zero =>
      intro id hid
      rw [children, node_of_size_le (by omega)]
      exact ⟨[], .done⟩
    | succ n ih =>
      intro id hid
      refine exists_visited_of_bodies fun c hc => ih c ?_
      have hlt := (ht.child_lt hc).1
      omega
  exact exists_visited_of_bodies fun id _ => hbody t.size id (by omega)

theorem Visited.length_le {t : Tree} (ht : t.WellFormed) {ids : List NodeId}
    (h : t.Visited [root] ids) : ids.length ≤ t.size := by
  have hstart : Walking t (fun _ => true) [] [root] := .start ht
  have hwalk := h.walk_eq t.size []
  have hrun : Walking t (fun _ => true)
      ([] ++ t.walk (fun _ => true) (ids.length + t.size) [root]) [] :=
    hstart.run ht (by rw [List.length_nil]; omega)
  rw [List.append_nil] at hwalk
  rw [hwalk] at hrun
  have hlen := hrun.length_le
  simp only [List.nil_append, List.length_append, List.length_nil] at hlen
  omega

-- However long the walk may last, it lists what is visited from the root.
theorem Visited.walk_root {t : Tree} (ht : t.WellFormed) {ids : List NodeId}
    (h : t.Visited [root] ids) (more : Nat) :
    t.walk (fun _ => true) (t.size + more) [root] = ids := by
  have hlen := h.length_le ht
  have hwalk := h.walk_eq (t.size - ids.length + more) []
  have hnil : t.walk (fun _ => true) (t.size - ids.length + more) [] = [] := by
    cases t.size - ids.length + more <;> rfl
  rw [List.append_nil, hnil, List.append_nil] at hwalk
  rwa [show ids.length + (t.size - ids.length + more) = t.size + more by omega] at hwalk

theorem WellFormed.visited_iff {t : Tree} (ht : t.WellFormed) {ids : List NodeId} :
    t.Visited [root] ids ↔ ids = t.preorder := by
  have heq : ∀ {ids}, t.Visited [root] ids → ids = t.preorder := fun h => (h.walk_root ht 0).symm
  refine ⟨heq, ?_⟩
  rintro rfl
  obtain ⟨ids, hids⟩ := ht.exists_visited [root]
  exact heq hids ▸ hids

theorem WellFormed.walk_eq_preorder {t : Tree} (ht : t.WellFormed) (more : Nat) :
    t.walk (fun _ => true) (t.size + more) [root] = t.preorder :=
  (ht.visited_iff.mpr rfl).walk_root ht more

end PageCompiler.Tree
