import PageCompiler.Proofs.Page.Growth

namespace PageCompiler

open Text

-- A run that has lost blanks at its ends.
def TextRun.TrimsTo (r r' : TextRun) : Prop :=
  ∃ a b, allBlank a ∧ allBlank b ∧ r.text.toList = a ++ r'.text.toList ++ b

theorem TextRun.TrimsTo.trans {r r' r'' : TextRun} (h : r.TrimsTo r') (h' : r'.TrimsTo r'') :
    r.TrimsTo r'' := by
  obtain ⟨a, b, ha, hb, hr⟩ := h
  obtain ⟨a', b', ha', hb', hr'⟩ := h'
  refine ⟨a ++ a', b' ++ b, ?_, ?_, by rw [hr, hr']; simp⟩
  · rw [allBlank, List.all_append, Bool.and_eq_true]
    exact ⟨ha, ha'⟩
  · rw [allBlank, List.all_append, Bool.and_eq_true]
    exact ⟨hb', hb⟩

-- What may become of the kind of a node.
inductive NodeKind.Trims : NodeKind → NodeKind → Prop
  | same (k : NodeKind) : Trims k k
  | text {r r' : TextRun} (h : r.TrimsTo r') : Trims (.text r) (.text r')

theorem NodeKind.Trims.trans {k k' k'' : NodeKind} (h : Trims k k') (h' : Trims k' k'') :
    Trims k k'' := by
  cases h with
  | same => exact h'
  | text h =>
    cases h' with
    | same => exact .text h
    | text h' => exact .text (h.trans h')

-- What is no text stays what it is.
theorem NodeKind.Trims.eq {k k' : NodeKind} (h : Trims k k') (hk : k'.run? = none) : k = k' := by
  cases h with
  | same => rfl
  | text => cases hk

theorem NodeKind.Trims.eq_of_run? {k k' : NodeKind} (h : Trims k k') (hk : k.run? = none) :
    k' = k := by
  cases h with
  | same => rfl
  | text => cases hk

-- The same node but for its body.
structure Node.Alike (n m : Node) : Prop where
  kind : n.kind.Trims m.kind
  mark_eq : m.mark = n.mark
  name_eq : m.name = n.name
  attributes_eq : m.attributes = n.attributes
  parent_eq : m.parent = n.parent

theorem Node.Alike.refl (n : Node) : n.Alike n := ⟨.same _, rfl, rfl, rfl, rfl⟩

theorem Node.Alike.trans {n m l : Node} (h : n.Alike m) (h' : m.Alike l) : n.Alike l :=
  ⟨h.kind.trans h'.kind, h'.mark_eq.trans h.mark_eq, h'.name_eq.trans h.name_eq,
    h'.attributes_eq.trans h.attributes_eq, h'.parent_eq.trans h.parent_eq⟩

theorem Node.alike_body (n : Node) (body : Option (List NodeId)) : n.Alike { n with body } :=
  ⟨.same _, rfl, rfl, rfl, rfl⟩

namespace Tree

variable {t u v : Tree}

structure Alike (t u : Tree) : Prop where
  size_eq : u.size = t.size
  node : ∀ id : Nat, (t.node id).Alike (u.node id)

theorem Alike.refl (t : Tree) : Alike t t := ⟨rfl, fun _ => .refl _⟩

theorem Alike.trans (h : Alike t u) (h' : Alike u v) : Alike t v :=
  ⟨h'.size_eq.trans h.size_eq, fun id => (h.node id).trans (h'.node id)⟩

theorem alike_modify {f : Node → Node} (h : ∀ n : Node, n.Alike (f n)) (id : Nat) :
    Alike t (t.modify id f) := by
  refine ⟨size_modify, fun i => ?_⟩
  rw [node_modify]
  split
  · exact h _
  · exact .refl _

theorem alike_openBody (t : Tree) (id : Nat) : Alike t (t.openBody id) :=
  alike_modify (fun n => n.alike_body _) id

theorem alike_removeChild (t : Tree) (parent child : Nat) : Alike t (t.removeChild parent child) :=
  alike_modify (fun n => n.alike_body _) parent

theorem alike_addSource (t : Tree) (unit text : String) : Alike t (t.addSource unit text) :=
  ⟨rfl, fun _ => .refl _⟩

theorem alike_modifyText {f : TextRun → TextRun}
    (h : ∀ r : TextRun, r.TrimsTo (f r)) (t : Tree) (id : Nat) :
    Alike t (t.modifyText id f) := by
  refine alike_modify (fun n => ?_) id
  split
  · rename_i run hk
    refine ⟨?_, rfl, rfl, rfl, rfl⟩
    rw [hk]
    exact .text (h run)
  · exact .refl n

theorem alike_foldl {α : Type} {f : Tree → α → Tree} (hf : ∀ t a, Alike t (f t a)) (l : List α)
    (t : Tree) : Alike t (l.foldl f t) := by
  induction l generalizing t with
  | nil => exact .refl t
  | cons a l ih => exact (hf t a).trans (ih _)

-- Nodes have been made, and those there were are as they were made.
structure Extends (t u : Tree) : Prop where
  size_le : t.size ≤ u.size
  node : ∀ id < t.size, (t.node id).Alike (u.node id)

theorem Alike.extends (h : Alike t u) : Extends t u := ⟨h.size_eq.ge, fun id _ => h.node id⟩

theorem Extends.refl (t : Tree) : Extends t t := (Alike.refl t).extends

theorem Extends.trans (h : Extends t u) (h' : Extends u v) : Extends t v :=
  ⟨h.size_le.trans h'.size_le, fun id hid =>
    (h.node id hid).trans (h'.node id (hid.trans_le h.size_le))⟩

theorem extends_append (t : Tree) (parent : NodeId) (n : Node) :
    Extends t (t.append parent n).2 := by
  refine ⟨Nat.le_of_lt (Nat.lt_of_lt_of_eq (Nat.lt_succ_self _) size_append.symm), fun id hid => ?_⟩
  rw [node_append, if_neg (Nat.ne_of_lt hid)]
  split
  · exact Node.alike_body _ _
  · exact .refl _

theorem node_append_last (t : Tree) (parent : NodeId) (n : Node) :
    (t.append parent n).2.node t.size = { n with parent := some parent } := by
  rw [node_append, if_pos rfl]

end Tree

theorem TextRun.trimsTo_trimStart (r : TextRun) : r.TrimsTo r.trimStart := by
  refine ⟨r.text.toList.takeWhile Text.isBlank, [], List.all_takeWhile, rfl, ?_⟩
  rw [TextRun.trimStart, String.toList_ofList, List.append_nil]
  exact List.takeWhile_append_dropWhile.symm

theorem TextRun.trimsTo_trimEnd (r : TextRun) : r.TrimsTo r.trimEnd := by
  have hsplit := List.takeWhile_append_dropWhile (p := Text.isBlank) (l := r.text.toList.reverse)
  refine ⟨[], (r.text.toList.reverse.takeWhile Text.isBlank).reverse, rfl, ?_, ?_⟩
  · rw [allBlank, List.all_reverse]
    exact List.all_takeWhile
  · rw [TextRun.trimEnd, Text.trimmedEnd, String.toList_ofList, Text.trimEnd, List.nil_append,
      ← List.reverse_append, hsplit, List.reverse_reverse]

end PageCompiler
