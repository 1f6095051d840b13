import PageCompiler.Checking.Settings
import PageCompiler.Proofs.Forms.Shape
import PageCompiler.Proofs.Page.Preorder

namespace PageCompiler.Tree

open Text

-- The nodes have numbers from `low` on, and those below a node have greater numbers than it.
inductive Shows (t : Tree) : Nat → List Nat → Shape → Prop
  | nil {low : Nat} : Shows t low [] .nil
  | text {low id : Nat} {ids : List Nat} {rest : Shape} {run : TextRun} {value : String}
      (hlow : low ≤ id) (hsize : id < t.size) (hk : t.kind id = .text run)
      (hv : run.text = value) (hr : Shows t low ids rest) :
      Shows t low (id :: ids) (.text value rest)
  | insert {low id : Nat} {ids : List Nat} {rest : Shape} {data : Insert}
      (hlow : low ≤ id) (hsize : id < t.size) (hk : t.kind id = .insert data)
      (hn : (t.node id).name = "") (hc : t.children id = []) (hr : Shows t low ids rest) :
      Shows t low (id :: ids) (.insert data.dialect data.source rest)
  | script {low id : Nat} {ids : List Nat} {rest : Shape} {kind : ScriptKind} {written : Script}
      {code : String} (hlow : low ≤ id) (hsize : id < t.size)
      (hk : t.kind id = .script kind written)
      (hc : ∀ c : Nat, c ∈ t.children id → low ≤ c ∧ c < t.size)
      (ht : trimmed (t.scriptText id) = trimmed code) (hr : Shows t low ids rest) :
      Shows t low (id :: ids) (.script kind code rest)
  | action {low id : Nat} {ids : List Nat} {body rest : Shape} {data : CustomAction}
      (hlow : low ≤ id) (hsize : id < t.size) (hk : t.kind id = .custom data)
      (hn : (t.node id).name ≠ "") (hs : ∀ a ∈ (t.node id).attributes, a.scripting = false)
      (hb : Shows t (id + 1) (t.children id) body) (hr : Shows t low ids rest) :
      Shows t low (id :: ids)
        (.action (t.node id).name ((t.node id).attributes.map fun a => (a.name, a.value)) body rest)

theorem scriptText_congr {t u : Tree} {id : Nat} (h : u.node id = t.node id)
    (hc : ∀ c ∈ t.children id, u.node c = t.node c) : u.scriptText id = t.scriptText id := by
  have hkind : u.kind id = t.kind id := by rw [kind, h, kind]
  have hjoin : ((u.children id).filterMap fun c => (u.kind c).run?.map TextRun.text) =
      (t.children id).filterMap fun c => (t.kind c).run?.map TextRun.text := by
    rw [show u.children id = t.children id by rw [children, h, children]]
    exact List.filterMap_congr fun c hm => by rw [kind, hc c hm, kind]
  simp only [scriptText, scriptText?, hkind, hjoin]

namespace Shows

variable {t u : Tree} {low : Nat} {ids : List Nat} {s : Shape}

-- Changes elsewhere do not matter.
theorem congr (h : Shows t low ids s) (hsize : t.size ≤ u.size)
    (hnode : ∀ i, low ≤ i → i < t.size → u.node i = t.node i) : Shows u low ids s := by
  induction h with
  | nil => exact .nil
  | text hlow hid hk hv hr ih =>
    have hnew := hnode _ hlow hid
    exact .text hlow (by omega) (by rw [kind, hnew]; exact hk) hv (ih hnode)
  | insert hlow hid hk hn hc hr ih =>
    have hnew := hnode _ hlow hid
    exact .insert hlow (by omega) (by rw [kind, hnew]; exact hk) (by rw [hnew]; exact hn)
      (by rw [children, hnew]; exact hc) (ih hnode)
  | script hlow hid hk hc ht hr ih =>
    have hnew := hnode _ hlow hid
    refine .script hlow (by omega) (by rw [kind, hnew]; exact hk) (fun c hm => ?_) ?_ (ih hnode)
    · rw [children, hnew] at hm
      have := hc c hm
      omega
    · rw [scriptText_congr hnew fun c hm => hnode c (hc c hm).1 (hc c hm).2]
      exact ht
  | action hlow hid hk hn hs hb hr ihb ih =>
    have hnew := hnode _ hlow hid
    have hbody := ihb fun i hi => hnode i (by omega)
    have hself := Shows.action (t := u) hlow (by omega) (by rw [kind, hnew]; exact hk)
      (by rw [hnew]; exact hn) (by rw [hnew]; exact hs)
      (by rw [children, hnew]; exact hbody) (ih hnode)
    rwa [hnew] at hself

theorem mono {low' : Nat} (h : Shows t low ids s) (hle : low' ≤ low) : Shows t low' ids s := by
  induction h with
  | nil => exact .nil
  | text hlow hid hk hv hr ih => exact .text (by omega) hid hk hv (ih hle)
  | insert hlow hid hk hn hc hr ih => exact .insert (by omega) hid hk hn hc (ih hle)
  | script hlow hid hk hc ht hr ih =>
    refine .script (by omega) hid hk (fun c hm => ?_) ht (ih hle)
    have := hc c hm
    omega
  | action hlow hid hk hn hs hb hr ihb ih =>
    exact .action (by omega) hid hk hn hs hb (ih hle)

theorem append {ids' : List Nat} {s' : Shape} (h : Shows t low ids s) (h' : Shows t low ids' s') :
    Shows t low (ids ++ ids') (s.append s') := by
  induction h with
  | nil => exact h'
  | text hlow hid hk hv hr ih => exact .text hlow hid hk hv (ih h')
  | insert hlow hid hk hn hc hr ih => exact .insert hlow hid hk hn hc (ih h')
  | script hlow hid hk hc ht hr ih => exact .script hlow hid hk hc ht (ih h')
  | action hlow hid hk hn hs hb hr ihb ih => exact .action hlow hid hk hn hs hb (ih h')

theorem bounds (h : Shows t low ids s) {id : Nat} (hid : id ∈ ids) : low ≤ id ∧ id < t.size := by
  induction h with
  | nil => cases hid
  | text hlow hsize _ _ _ ih | insert hlow hsize _ _ _ _ ih | script hlow hsize _ _ _ _ ih =>
    rcases List.mem_cons.mp hid with rfl | hid
    · exact ⟨hlow, hsize⟩
    · exact ih hid
  | action hlow hsize _ _ _ _ _ _ ih =>
    rcases List.mem_cons.mp hid with rfl | hid
    · exact ⟨hlow, hsize⟩
    · exact ih hid

-- None of the nodes is an attribute that is given as an element.
theorem isNamed_eq_false (h : Shows t low ids s) {id : Nat} (hid : id ∈ ids) :
    (t.kind id).isNamed = false := by
  induction h with
  | nil => cases hid
  | text _ _ hk _ _ ih | insert _ _ hk _ _ _ ih | script _ _ hk _ _ _ ih =>
    rcases List.mem_cons.mp hid with rfl | hid
    · rw [hk]
      rfl
    · exact ih hid
  | action _ _ hk _ _ _ _ _ ih =>
    rcases List.mem_cons.mp hid with rfl | hid
    · rw [hk]
      rfl
    · exact ih hid

end Shows

-- New nodes that show a shape have come to stand under a parent. None is a page directive.
structure Adds (t : Tree) (parent : Nat) (s : Shape) (u : Tree) : Prop where
  size_le : t.size ≤ u.size
  node_eq : ∀ i, i < t.size → i ≠ parent → u.node i = t.node i
  parent_eq : ∃ body, u.node parent = { t.node parent with body }
  shown : ∃ ids, u.children parent = t.children parent ++ ids ∧ Shows u t.size ids s
  no_directive : ∀ i, t.size ≤ i → Settings.isPageDirective (u.kind i) = false

namespace Adds

variable {t u v : Tree} {parent : Nat} {a b : Shape}

theorem refl (t : Tree) (parent : Nat) : Adds t parent .nil t where
  size_le := Nat.le_refl _
  node_eq _ _ _ := rfl
  parent_eq := ⟨_, rfl⟩
  shown := ⟨[], (List.append_nil _).symm, .nil⟩
  no_directive i hi := by
    rw [kind, node_of_size_le hi]
    rfl

theorem trans (hp : parent < t.size) (h : Adds t parent a u) (h' : Adds u parent b v) :
    Adds t parent (a.append b) v := by
  have hle := h.size_le
  -- What the first part has added is not touched by the second.
  have hkept : ∀ i, t.size ≤ i → i < u.size → v.node i = u.node i := fun i hi hu =>
    h'.node_eq i hu (by omega)
  refine ⟨Nat.le_trans hle h'.size_le, fun i hi hne => ?_, ?_, ?_, fun i hi => ?_⟩
  · rw [h'.node_eq i (by omega) hne, h.node_eq i hi hne]
  · obtain ⟨body, hbody⟩ := h.parent_eq
    obtain ⟨body', hbody'⟩ := h'.parent_eq
    exact ⟨body', by rw [hbody', hbody]⟩
  · obtain ⟨ids, hids, hshow⟩ := h.shown
    obtain ⟨ids', hids', hshow'⟩ := h'.shown
    refine ⟨ids ++ ids', by rw [hids', hids, List.append_assoc], ?_⟩
    exact (hshow.congr h'.size_le hkept).append (hshow'.mono hle)
  · by_cases hu : i < u.size
    · rw [kind, hkept i hi hu]
      exact h.no_directive i hi
    · exact h'.no_directive i (by omega)

end Adds

-- A node without children has come to stand under a parent.
structure Opened (t : Tree) (parent : Nat) (n : Node) (u : Tree) : Prop where
  size_eq : u.size = t.size + 1
  node_eq : ∀ i, i < t.size → i ≠ parent → u.node i = t.node i
  parent_eq : u.node parent = { t.node parent with body := some (t.children parent ++ [t.size]) }
  new_eq : ∃ body, u.node t.size = { n with parent := some parent, body }
  new_children : u.children t.size = []

theorem opened_append {t : Tree} {parent : Nat} {n : Node} (hp : parent < t.size)
    (hn : n.children = []) : Opened t parent n (t.append parent n).2 where
  size_eq := size_append
  node_eq i hi hne := by rw [node_append, if_neg (by omega), if_neg (by omega)]
  parent_eq := by rw [node_append, if_neg (by omega), if_pos ⟨rfl, hp⟩]
  new_eq := ⟨n.body, by rw [node_append, if_pos rfl]⟩
  new_children := by
    rw [children, node_append, if_pos rfl]
    exact hn

namespace Opened

variable {t u v : Tree} {parent : Nat} {n : Node} {inner s : Shape}

theorem openBody (hp : parent < t.size) (h : Opened t parent n u) :
    Opened t parent n (u.openBody t.size) where
  size_eq := by rw [Tree.openBody, size_modify, h.size_eq]
  node_eq i hi hne := by
    rw [Tree.openBody, node_modify, if_neg (by omega), h.node_eq i hi hne]
  parent_eq := by rw [Tree.openBody, node_modify, if_neg (by omega), h.parent_eq]
  new_eq := by
    obtain ⟨body, hbody⟩ := h.new_eq
    refine ⟨some (u.children t.size), ?_⟩
    rw [Tree.openBody, node_modify, if_pos ⟨rfl, by rw [h.size_eq]; omega⟩, children, hbody]
  new_children := by
    have hc := h.new_children
    rw [Tree.openBody, children, node_modify, if_pos ⟨rfl, by rw [h.size_eq]; omega⟩]
    exact hc

-- The node itself once nodes have been added below it.
theorem new_node (h : Opened t parent n u) (hi : Adds u t.size inner v) :
    ∃ body, v.node t.size = { n with parent := some parent, body } := by
  obtain ⟨body, hbody⟩ := h.new_eq
  obtain ⟨body', hbody'⟩ := hi.parent_eq
  exact ⟨body', by rw [hbody', hbody]⟩

theorem new_shown (h : Opened t parent n u) (hi : Adds u t.size inner v) :
    Shows v (t.size + 1) (v.children t.size) inner := by
  obtain ⟨ids, hids, hshow⟩ := hi.shown
  rw [hids, h.new_children, List.nil_append, ← h.size_eq]
  exact hshow

-- A new node with what has been added below it is one addition to its parent.
theorem adds (h : Opened t parent n u) (hp : parent < t.size) (hi : Adds u t.size inner v)
    (hd : Settings.isPageDirective n.kind = false) (hs : Shows v t.size [t.size] s) :
    Adds t parent s v := by
  have hsize := h.size_eq
  have hle := hi.size_le
  refine ⟨by omega, fun i hi' hne => ?_, ?_, ⟨[t.size], ?_, hs⟩, fun i hi' => ?_⟩
  · rw [hi.node_eq i (by omega) (by omega), h.node_eq i hi' hne]
  · exact ⟨_, by rw [hi.node_eq parent (by omega) (by omega), h.parent_eq]⟩
  · rw [children, hi.node_eq parent (by omega) (by omega), h.parent_eq]
    rfl
  · by_cases hnew : i = t.size
    · obtain ⟨body, hbody⟩ := h.new_node hi
      rw [hnew, kind, hbody]
      exact hd
    · exact hi.no_directive i (by omega)

end Opened

end PageCompiler.Tree
