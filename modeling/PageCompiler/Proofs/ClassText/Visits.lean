import PageCompiler.Proofs.ClassText.Actions
import Mathlib

-- Between a node and a body that is generated for it stand only elements that have no statements of
-- their own, so that no node is come to on two ways, and no action becomes a method twice.
namespace PageCompiler

namespace Tree

-- From a node to the one whose body it stands in.
def Up (t : Tree) (child parent : NodeId) : Prop := child ∈ t.children parent

-- A node is another one or stands somewhere below it.
def Within (t : Tree) (id above : NodeId) : Prop := Relation.ReflTransGen t.Up id above

namespace WellFormed

variable {t : Tree} (ht : t.WellFormed)
include ht

theorem rightUnique_up : Relator.RightUnique t.Up := by
  intro child p p' hp hp'
  have heq := ht.parent_eq hp
  rw [ht.parent_eq hp'] at heq
  exact (Option.some.inj heq).symm

theorem within_le {id above : Nat} (h : t.Within id above) : above ≤ id := by
  induction h with
  | refl => exact Nat.le_refl _
  | tail _ hstep ih => exact Nat.le_of_lt (Nat.lt_of_lt_of_le (ht.child_lt hstep).1 ih)

-- Of two nodes above the same node one is above the other.
theorem within_total {id a b : Nat} (ha : t.Within id a) (hb : t.Within id b) :
    t.Within a b ∨ t.Within b a :=
  Relation.ReflTransGen.total_of_right_unique ht.rightUnique_up ha hb

theorem within_parent {id above parent : Nat} (h : t.Within id above) (hne : id ≠ above)
    (hparent : id ∈ t.children parent) : t.Within parent above := by
  rcases Relation.ReflTransGen.cases_head h with heq | ⟨p, hp, hrest⟩
  · exact absurd heq hne
  · rwa [ht.rightUnique_up hparent hp]

theorem nodup_children (id : Nat) : (t.children id).Nodup :=
  (ht.increasing id).imp fun hlt => Nat.ne_of_lt hlt

-- Different children have nothing below them in common.
theorem eq_of_within_children {id a b m : Nat} (ha : a ∈ t.children id) (hb : b ∈ t.children id)
    (hma : t.Within m a) (hmb : t.Within m b) : a = b := by
  have hone : ∀ {a b : Nat}, a ∈ t.children id → b ∈ t.children id → t.Within a b → a = b := by
    intro a b ha hb hab
    by_contra hne
    have hle := ht.within_le (ht.within_parent hab hne ha)
    have hlt := (ht.child_lt hb).1
    omega
  rcases ht.within_total hma hmb with hab | hba
  · exact hone ha hb hab
  · exact (hone hb ha hba).symm

end WellFormed
end Tree

namespace Checking

variable {x : Context} {id : Nat} {f : Finding}

theorem filterMap_named {α : Type} {resolve : α → Except Diagnostic ResolvedAttribute}
    (given : α → Option NodeId) {l : List α} {attrs : List ResolvedAttribute}
    (hresolve : ∀ s a, resolve s = .ok a → a.value.named? = given s)
    (h : l.mapM resolve = .ok attrs) :
    attrs.filterMap (fun a => a.value.named?) = l.filterMap given := by
  induction mapM_eq_ok.mp h with
  | nil => rfl
  | cons hfirst hrest ih =>
    rw [List.filterMap_cons, List.filterMap_cons, ih (mapM_eq_ok.mpr hrest), hresolve _ _ hfirst]

theorem named?_of_classify {s : Supplied} {policy : Policy} {v : AttributeValue}
    (h : classify x id s policy = .ok v) : v.named? = s.given.getRight? := by
  cases classified_of_classify h with
  | named hgiven | scripting hgiven | literal hgiven | expression hgiven => rw [hgiven]; rfl

-- The elements that supply attributes are children, in their order.
theorem sublist_ofNode :
    ((Supplied.ofNode x.tree id).filterMap fun s => s.given.getRight?).Sublist
      (x.tree.children id) := by
  rw [Supplied.ofNode, List.filterMap_append]
  have htag : ((x.tree.node id).attributes.map Supplied.inline).filterMap
      (fun s => s.given.getRight?) = [] := by
    rw [List.filterMap_eq_nil_iff, List.forall_mem_map]
    exact fun _ _ => rfl
  rw [htag, List.nil_append]
  generalize x.tree.children id = children
  induction children with
  | nil => exact List.Sublist.refl _
  | cons child children ih =>
    rw [List.filterMap_cons]
    split
    · exact ih.cons child
    · rename_i s hs
      split at hs
      · cases hs
        exact ih.cons_cons child
      · cases hs

theorem Established.named_sublist (h : Established x id f) :
    f.named.Sublist (x.tree.children id) := by
  have hsupplied : ∀ {resolve : Supplied → Except Diagnostic ResolvedAttribute},
      (∀ s a, resolve s = .ok a → ∃ policy, classify x id s policy = .ok a.value) →
      (Supplied.ofNode x.tree id).mapM resolve = .ok f.attributes →
      f.named.Sublist (x.tree.children id) := by
    intro resolve hresolve hall
    rw [Finding.named, filterMap_named _ (fun s a ha => ?_) hall]
    · exact sublist_ofNode
    · obtain ⟨policy, hp⟩ := hresolve s a ha
      exact named?_of_classify hp
  unfold Established at h
  split at h
  · obtain ⟨number, h⟩ := h
    exact hsupplied (fun _ _ => classify_of_resolveCustom) (checkCustom_eq_ok h).attributes
  · obtain ⟨attrs, hattrs, rfl⟩ := h
    have hnone : Finding.named { attributes := attrs } = [] := by
      rw [Finding.named, filterMap_named (fun _ => none) (fun b a hb => ?_) hattrs]
      · simp
      · obtain ⟨⟨policy, hp⟩, -⟩ := classify_of_resolveUninterpreted hb
        exact named?_of_classify hp
    rw [hnone]
    exact List.nil_sublist _
  · split at h
    · subst h
      exact List.nil_sublist _
    · obtain ⟨_, attrs, _, hattrs, rfl⟩ := h
      exact hsupplied (fun _ _ hs => (classify_of_resolveStandard hs).1)
        (checkStandard_eq_ok hattrs)

end Checking

namespace ClassText

variable {x : Context} {id n : Nat}

-- Elements without statements of their own; they say something to the action around them.
def isQuiet : NodeKind → Bool
  | .named _ | .param | .params | .fallback => true
  | _ => false

theorem splitNodes_of_isQuiet (h : isQuiet (x.tree.kind id) = true) (fuel : Nat) :
    splitNodes x fuel id = 0 := by
  have hnone : ownNode x id = 0 ∧ bodies x id = [] := by
    unfold ownNode isSplitOff bodies
    cases hk : x.tree.kind id <;> simp_all [isQuiet]
  cases fuel with
  | zero => rfl
  | succ fuel => simp [splitNodes, hnone]

-- From a node down to a body that is generated for it, by such elements only.
inductive Quietly (t : Tree) (id : NodeId) : NodeId → Prop
  | here : Quietly t id id
  | down {n child : NodeId} (h : Quietly t id n) (hchild : child ∈ t.children n)
      (hquiet : isQuiet (t.kind child) = true) : Quietly t id child

theorem Quietly.within {t : Tree} (h : Quietly t id n) : t.Within n id := by
  induction h with
  | here => exact .refl
  | down _ hchild _ ih => exact .head hchild ih

-- What stands in between is such an element.
theorem Quietly.isQuiet_of_within {t : Tree} (ht : t.WellFormed) (h : Quietly t id n) {a : Nat}
    (ha : t.Within n a) (hlt : id < a) : isQuiet (t.kind a) = true := by
  induction h with
  | here =>
    have hle := ht.within_le ha
    omega
  | @down n child h hchild hquiet ih =>
    by_cases hne : child = a
    · rwa [← hne]
    · exact ih (ht.within_parent ha hne hchild)

theorem quietly_named (hx : Annotated x) {p : Nat} (hp : p ∈ x.tree.preorder)
    (h : Quietly x.tree id p) (hn : n ∈ (x.finding p).named) : Quietly x.tree id n := by
  obtain ⟨hchild, data, hk⟩ := hx.mem_children_of_named hp hn
  exact h.down hchild (by rw [hk]; rfl)

theorem quietly_paramsOf (fuel : Nat) {root : Nat} (h : Quietly x.tree root id)
    (hn : n ∈ paramsOf x.tree fuel id) : Quietly x.tree root n := by
  induction fuel generalizing id with
  | zero => cases hn
  | succ fuel ih =>
    rw [paramsOf, List.mem_flatMap] at hn
    obtain ⟨c, hc, hn⟩ := hn
    split at hn
    · rename_i hk
      obtain rfl : n = c := by simpa using hn
      exact h.down hc (by rw [hk]; rfl)
    · rename_i hk
      exact ih (h.down hc (by rw [hk]; rfl)) hn
    · cases hn

theorem quietly_bodies (hx : Annotated x) (hid : id ∈ x.tree.preorder) (h : n ∈ bodies x id) :
    Quietly x.tree id n := by
  rcases Annotated.mem_bodies_cases h with rfl | hn | ⟨p, hp, hn⟩ | ⟨hn, hk⟩
  · exact .here
  · exact quietly_named hx hid .here hn
  · have hmem := (hx.paramsOf_mem_preorder _ hid hp).1
    exact quietly_named hx hmem (quietly_paramsOf _ .here hp) hn
  · refine Quietly.here.down hn ?_
    cases hkind : x.tree.kind n <;> rw [hkind] at hk <;> first | rfl | cases hk

theorem nodup_named (hx : Annotated x) (hid : id ∈ x.tree.preorder) :
    (x.finding id).named.Nodup :=
  (hx.wellFormed.nodup_children id).sublist (hx.established id hid).named_sublist

theorem within_of_mem_paramPart {fuel c n : Nat} (hn : n ∈ match x.tree.kind c with
    | .param => [c]
    | .params => paramsOf x.tree fuel c
    | _ => []) : x.tree.Within n c := by
  split at hn
  · obtain rfl : n = c := by simpa using hn
    exact .refl
  · exact (quietly_paramsOf fuel .here hn).within
  · cases hn

theorem nodup_paramsOf (hx : Annotated x) (fuel : Nat) (id : Nat) :
    (paramsOf x.tree fuel id).Nodup := by
  induction fuel generalizing id with
  | zero => exact List.nodup_nil
  | succ fuel ih =>
    rw [paramsOf, List.nodup_flatMap]
    refine ⟨fun c _ => ?_, ?_⟩
    · split
      · exact List.nodup_singleton _
      · exact ih c
      · exact List.nodup_nil
    · refine (hx.wellFormed.nodup_children id).imp_of_mem fun {c c'} hc hc' hne n hn hn' => hne ?_
      exact hx.wellFormed.eq_of_within_children hc hc' (within_of_mem_paramPart hn)
        (within_of_mem_paramPart hn')

-- An element is an attribute of one action only.
theorem eq_of_mem_named (hx : Annotated x) {p q : Nat} (hp : p ∈ x.tree.preorder)
    (hq : q ∈ x.tree.preorder) (hnp : n ∈ (x.finding p).named) (hnq : n ∈ (x.finding q).named) :
    p = q :=
  hx.wellFormed.rightUnique_up (hx.mem_children_of_named hp hnp).1
    (hx.mem_children_of_named hq hnq).1

theorem nodup_params (hx : Annotated x) (hid : id ∈ x.tree.preorder) :
    ((x.finding id).named ++ (paramsOf x.tree x.tree.size id).flatMap fun p =>
      (x.finding p).named).Nodup := by
  have hmem : ∀ {p : Nat}, p ∈ paramsOf x.tree x.tree.size id → p ∈ x.tree.preorder ∧ id < p :=
    fun hp => by
      obtain ⟨h, -, hlt⟩ := hx.paramsOf_mem_preorder _ hid hp
      exact ⟨h, hlt⟩
  rw [List.nodup_append]
  refine ⟨nodup_named hx hid, ?_, ?_⟩
  · rw [List.nodup_flatMap]
    refine ⟨fun p hp => nodup_named hx (hmem hp).1, ?_⟩
    refine (nodup_paramsOf hx _ id).imp_of_mem fun {p q} hp hq hne n hnp hnq => hne ?_
    exact eq_of_mem_named hx (hmem hp).1 (hmem hq).1 hnp hnq
  · rintro n hn _ hn' rfl
    obtain ⟨p, hp, hn'⟩ := List.mem_flatMap.mp hn'
    obtain ⟨hpmem, hlt⟩ := hmem hp
    exact Nat.ne_of_lt hlt (eq_of_mem_named hx hid hpmem hn hn')

theorem nodup_bodies (hx : Annotated x) (hid : id ∈ x.tree.preorder) : (bodies x id).Nodup := by
  have hcontent : ((x.finding id).named ++ if x.tree.hasContent id then [id] else []).Nodup := by
    rw [List.nodup_append]
    refine ⟨nodup_named hx hid, by split <;> simp, ?_⟩
    rintro n hn m hm rfl
    split at hm
    · obtain rfl : n = id := by simpa using hm
      exact Nat.lt_irrefl _ (hx.wellFormed.child_lt (hx.mem_children_of_named hid hn).1).1
    · cases hm
  have hparams := nodup_params hx hid
  unfold bodies
  dsimp only
  split
  case h_6 | h_7 | h_8 => exact hcontent
  case h_9 => exact nodup_named hx hid
  case h_10 | h_11 => exact hparams
  case h_12 =>
    -- A fallback is no attribute.
    rw [List.nodup_append]
    refine ⟨hparams, by cases List.find? _ _ <;> simp, ?_⟩
    rintro n hn _ hfallback rfl
    have hfallback := List.find?_some (p := fun c => isFallback (x.tree.kind c))
      (Option.mem_toList.mp hfallback)
    have hnamed : ∃ data, x.tree.kind n = .named data := by
      rcases List.mem_append.mp hn with hn | hn
      · exact (hx.mem_children_of_named hid hn).2
      · obtain ⟨p, hp, hn⟩ := List.mem_flatMap.mp hn
        exact (hx.mem_children_of_named (hx.paramsOf_mem_preorder _ hid hp).1 hn).2
    obtain ⟨data, hk⟩ := hnamed
    rw [hk] at hfallback
    cases hfallback
  case h_13 => split <;> simp
  case h_14 => exact List.nodup_nil
  all_goals exact List.nodup_singleton _

-- The nodes that are come to from a node.
def nextNodes (x : Context) (id : NodeId) : List NodeId := (bodies x id).flatMap x.tree.children

theorem splitNodes_succ (fuel : Nat) (id : Nat) :
    splitNodes x (fuel + 1) id =
      ownNode x id + (nextNodes x id : Multiset NodeId).bind (splitNodes x fuel) := by
  rw [splitNodes, nextNodes, ← sum_map_flatMap]
  rfl

theorem mem_nextNodes (hx : Annotated x) (hid : id ∈ x.tree.preorder) (h : n ∈ nextNodes x id) :
    ∃ host, n ∈ x.tree.children host ∧ Quietly x.tree id host ∧ n ∈ x.tree.preorder ∧ id < n := by
  obtain ⟨host, hhost, hn⟩ := List.mem_flatMap.mp h
  obtain ⟨hmem, hle⟩ := hx.mem_bodies hid hhost
  exact ⟨host, hn, quietly_bodies hx hid hhost, hx.wellFormed.child_mem_preorder hmem hn,
    Nat.lt_of_le_of_lt hle (hx.wellFormed.child_lt hn).1⟩

theorem within_of_mem_splitNodes (hx : Annotated x) (fuel : Nat) (hid : id ∈ x.tree.preorder)
    (h : n ∈ splitNodes x fuel id) : x.tree.Within n id := by
  induction fuel generalizing id with
  | zero => exact absurd h (Multiset.notMem_zero n)
  | succ fuel ih =>
    rw [splitNodes_succ, Multiset.mem_add, Multiset.mem_bind] at h
    rcases h with h | ⟨c, hc, h⟩
    · unfold ownNode at h
      split at h
      · rw [Multiset.mem_singleton.mp h]
        exact .refl
      · exact absurd h (Multiset.notMem_zero n)
    · obtain ⟨host, hchild, hquiet, hmem, -⟩ := mem_nextNodes hx hid (Multiset.mem_coe.mp hc)
      exact (ih hmem h).trans (.head hchild hquiet.within)

theorem nodup_nextNodes (hx : Annotated x) (hid : id ∈ x.tree.preorder) :
    (nextNodes x id).Nodup := by
  rw [nextNodes, List.nodup_flatMap]
  refine ⟨fun host _ => hx.wellFormed.nodup_children host, ?_⟩
  refine (nodup_bodies hx hid).imp fun {host host'} hne n hn hn' => hne ?_
  exact hx.wellFormed.rightUnique_up hn hn'

-- Two of these nodes that a node is below of are the same, unless one of them is a quiet element.
theorem eq_of_mem_splitNodes (hx : Annotated x) (hid : id ∈ x.tree.preorder) {fuel c c' : Nat}
    (hc : c ∈ nextNodes x id) (hc' : c' ∈ nextNodes x id) (hn : n ∈ splitNodes x fuel c)
    (hn' : n ∈ splitNodes x fuel c') : c = c' := by
  have hone : ∀ {c c' : Nat}, c ∈ nextNodes x id → c' ∈ nextNodes x id →
      n ∈ splitNodes x fuel c → x.tree.Within c' c → c' = c := by
    intro c c' hc hc' hn hwithin
    by_contra hne
    obtain ⟨-, -, -, -, hlt⟩ := mem_nextNodes hx hid hc
    obtain ⟨host, hchild, hquiet, -, -⟩ := mem_nextNodes hx hid hc'
    have hbetween := hx.wellFormed.within_parent hwithin hne hchild
    rw [splitNodes_of_isQuiet (hquiet.isQuiet_of_within hx.wellFormed hbetween hlt)] at hn
    exact Multiset.notMem_zero n hn
  obtain ⟨-, -, -, hmem, -⟩ := mem_nextNodes hx hid hc
  obtain ⟨-, -, -, hmem', -⟩ := mem_nextNodes hx hid hc'
  rcases hx.wellFormed.within_total (within_of_mem_splitNodes hx fuel hmem hn)
    (within_of_mem_splitNodes hx fuel hmem' hn') with h | h
  · exact hone hc' hc hn' h
  · exact (hone hc hc' hn h).symm

theorem nodup_splitNodes (hx : Annotated x) (fuel : Nat) (hid : id ∈ x.tree.preorder) :
    (splitNodes x fuel id).Nodup := by
  induction fuel generalizing id with
  | zero => exact Multiset.nodup_zero
  | succ fuel ih =>
    rw [splitNodes_succ, Multiset.nodup_add]
    refine ⟨?_, ?_, ?_⟩
    · unfold ownNode
      split
      · exact Multiset.nodup_singleton _
      · exact Multiset.nodup_zero
    · rw [Multiset.nodup_bind]
      refine ⟨fun c hc => ?_, ?_⟩
      · obtain ⟨-, -, -, hmem, -⟩ := mem_nextNodes hx hid (Multiset.mem_coe.mp hc)
        exact ih hmem
      · refine ⟨nextNodes x id, rfl, (nodup_nextNodes hx hid).imp_of_mem ?_⟩
        intro c c' hc hc' hne
        rw [Function.onFun, Multiset.disjoint_left]
        exact fun hn hn' => hne (eq_of_mem_splitNodes hx hid hc hc' hn hn')
    · -- The node itself is not below one of those.
      rw [Multiset.disjoint_left]
      intro n hn hn'
      obtain ⟨c, hc, hn'⟩ := Multiset.mem_bind.mp hn'
      obtain ⟨-, -, -, hmem, hlt⟩ := mem_nextNodes hx hid (Multiset.mem_coe.mp hc)
      have hle := hx.wellFormed.within_le (within_of_mem_splitNodes hx fuel hmem hn')
      unfold ownNode at hn
      split at hn
      · rw [Multiset.mem_singleton.mp hn] at hle
        omega
      · exact absurd hn (Multiset.notMem_zero n)

end ClassText

end PageCompiler
