import PageCompiler.Compilation
import Mathlib.Data.List.Forall2

namespace PageCompiler

namespace Checking

variable {ε α β : Type}

theorem bind_eq_ok {m : Except ε α} {f : α → Except ε β} {b : β} :
    (m >>= f) = .ok b ↔ ∃ a, m = .ok a ∧ f a = .ok b := by
  cases m with
  | error e => simp [Bind.bind, Except.bind]
  | ok a => simp [Bind.bind, Except.bind]

theorem mapM_eq_ok {f : α → Except ε β} {l : List α} {r : List β} :
    l.mapM f = .ok r ↔ List.Forall₂ (fun a b => f a = .ok b) l r := by
  induction l generalizing r with
  | nil =>
    rw [List.mapM_nil]
    constructor
    · rintro ⟨⟩
      exact .nil
    · rintro ⟨⟩
      rfl
  | cons a l ih =>
    rw [List.mapM_cons, bind_eq_ok]
    constructor
    · rintro ⟨b, hb, h⟩
      obtain ⟨bs, hbs, h⟩ := bind_eq_ok.mp h
      cases h
      exact .cons hb (ih.mp hbs)
    · intro h
      cases h with
      | cons hb hbs => exact ⟨_, hb, bind_eq_ok.mpr ⟨_, ih.mpr hbs, rfl⟩⟩

-- Each answer belongs to one of the things asked about.
theorem mem_of_mapM_eq_ok {f : α → Except ε β} {l : List α} {r : List β} (h : l.mapM f = .ok r)
    {b : β} (hb : b ∈ r) : ∃ a ∈ l, f a = .ok b := by
  induction mapM_eq_ok.mp h with
  | nil => cases hb
  | cons hf hrest ih =>
    rcases List.mem_cons.mp hb with rfl | hb
    · exact ⟨_, List.mem_cons_self .., hf⟩
    · obtain ⟨a, ha, hf⟩ := ih (mapM_eq_ok.mpr hrest) hb
      exact ⟨a, List.mem_cons_of_mem _ ha, hf⟩

end Checking

namespace Findings

variable {f : Findings} {id i : Nat} {g : Finding → Finding}

@[simp] theorem size_modify : (f.modify id g).entries.size = f.entries.size := by
  simp [modify]

theorem get_modify_self (h : id < f.entries.size) : (f.modify id g).get id = g (f.get id) := by
  simp only [modify, get, Array.getD_eq_getD_getElem?, Array.getElem?_modify, if_true]
  simp [h]

theorem get_modify_of_ne (h : i ≠ id) : (f.modify id g).get i = f.get i := by
  simp [modify, get, Array.getD_eq_getD_getElem?, Array.getElem?_modify, Ne.symm h]

theorem get_ofTree (t : Tree) (id : Nat) : (ofTree t).get id = {} := by
  simp only [ofTree, get, Array.getD_eq_getD_getElem?, Array.getElem?_replicate]
  split <;> rfl

end Findings

namespace Checking

-- The finding of a node that has passed its check. Nodes that are no actions and no markup have
-- nothing to be found.
def Established (x : Context) (id : NodeId) (f : Finding) : Prop :=
  match x.tree.kind id with
  | .custom data => ∃ number, checkCustom x id data number = .ok f
  | .uninterpreted =>
    ∃ attrs, (x.tree.node id).attributes.mapM (resolveUninterpreted x id) = .ok attrs ∧
      f = { attributes := attrs }
  | kind =>
    match standardAttributes? kind with
    | none => f = {}
    | some table =>
      ∃ beans attrs beans', checkStandard x beans id table = .ok (attrs, beans') ∧
        f = { attributes := attrs }

variable {x : Context} {s s' : State} {id : Nat}

theorem established_iff_of_table {f : Finding} (hc : ∀ data, x.tree.kind id ≠ .custom data)
    (hu : x.tree.kind id ≠ .uninterpreted) :
    Established x id f ↔ match standardAttributes? (x.tree.kind id) with
      | none => f = {}
      | some table =>
        ∃ beans attrs beans', checkStandard x beans id table = .ok (attrs, beans') ∧
          f = { attributes := attrs } := by
  unfold Established
  split
  · exact absurd ‹_› (hc _)
  · exact absurd ‹_› hu
  · rfl

-- A finding that is put in the place of a node.
theorem setFinding_spec (f : Finding) (hid : id < s.findings.entries.size) :
    (setFinding s id f).findings.entries.size = s.findings.entries.size ∧
      (setFinding s id f).findings.get id = f ∧
      ∀ i, i ≠ id → (setFinding s id f).findings.get i = s.findings.get i :=
  ⟨Findings.size_modify, Findings.get_modify_self hid, fun _ hi => Findings.get_modify_of_ne hi⟩

-- One node: its own finding is made, and no other one is touched.
theorem checkNode_established (h : checkNode x s id = .ok s')
    (hid : id < s.findings.entries.size)
    (hold : s.findings.get id = {} ∨ Established x id (s.findings.get id)) :
    s'.findings.entries.size = s.findings.entries.size ∧
      Established x id (s'.findings.get id) ∧
      ∀ i, i ≠ id → s'.findings.get i = s.findings.get i := by
  -- A node about which nothing is found keeps its empty finding.
  have hnone : (Established x id = fun f => f = {}) → s' = s →
      s'.findings.entries.size = s.findings.entries.size ∧
      Established x id (s'.findings.get id) ∧
      ∀ i, i ≠ id → s'.findings.get i = s.findings.get i := by
    rintro hkind rfl
    rw [hkind] at hold ⊢
    exact ⟨rfl, hold.elim (fun h => h) (fun h => h), fun _ _ => rfl⟩
  unfold checkNode at h
  dsimp only at h
  split at h
  · rename_i kind code hk
    obtain ⟨_, _, h⟩ := bind_eq_ok.mp h
    cases h
    refine hnone ?_ rfl
    funext f
    rw [Established, show x.tree.kind id = .script kind code from hk]
    rfl
  · rename_i data hk
    obtain ⟨_, _, h⟩ := bind_eq_ok.mp h
    cases h
    refine hnone ?_ rfl
    funext f
    rw [Established, show x.tree.kind id = .insert data from hk]
    rfl
  · rename_i data hk
    obtain ⟨f, hf, h⟩ := bind_eq_ok.mp h
    cases h
    obtain ⟨hsize, hget, hother⟩ := setFinding_spec
      (s := { s with nextInstance := s.nextInstance + 1 }) f hid
    refine ⟨hsize, ?_, hother⟩
    rw [hget, Established, show x.tree.kind id = .custom data from hk]
    exact ⟨_, hf⟩
  · rename_i hk
    obtain ⟨attrs, hattrs, h⟩ := bind_eq_ok.mp h
    cases h
    obtain ⟨hsize, hget, hother⟩ := setFinding_spec { attributes := attrs } hid
    refine ⟨hsize, ?_, hother⟩
    rw [hget, Established, show x.tree.kind id = .uninterpreted from hk]
    exact ⟨attrs, hattrs, rfl⟩
  · rename_i hcustom hmarkup
    have hiff := fun f => established_iff_of_table (f := f) (hcustom ·) hmarkup
    split at h
    · rename_i htable
      cases h
      refine hnone ?_ rfl
      funext f
      rw [hiff, Tree.kind, htable]
    · rename_i table htable
      obtain ⟨⟨attrs, beans⟩, hattrs, h⟩ := bind_eq_ok.mp h
      cases h
      obtain ⟨hsize, hget, hother⟩ := setFinding_spec
        (s := { s with beans }) { attributes := attrs } hid
      refine ⟨hsize, ?_, hother⟩
      rw [hget, hiff, Tree.kind, htable]
      exact ⟨s.beans, attrs, beans, hattrs, rfl⟩

-- What holds when some nodes have been checked and the others have not.
structure Progress (x : Context) (done : List Nat) (s : State) : Prop where
  size_eq : s.findings.entries.size = x.tree.size
  established : ∀ id ∈ done, Established x id (s.findings.get id)
  untouched : ∀ id, id ∉ done → s.findings.get id = {}

theorem Progress.step {done : List Nat} (h : Progress x done s) (hid : id < x.tree.size)
    (hs : checkNode x s id = .ok s') : Progress x (id :: done) s' := by
  have hold : s.findings.get id = {} ∨ Established x id (s.findings.get id) := by
    by_cases hd : id ∈ done
    · exact .inr (h.established id hd)
    · exact .inl (h.untouched id hd)
  obtain ⟨hsize, hself, hother⟩ := checkNode_established hs (by rwa [h.size_eq]) hold
  refine ⟨hsize.trans h.size_eq, fun i hi => ?_, fun i hi => ?_⟩
  · by_cases hne : i = id
    · rwa [hne]
    · rw [hother i hne]
      exact h.established i ((List.mem_cons.mp hi).resolve_left hne)
  · rw [List.mem_cons, not_or] at hi
    rw [hother i hi.1]
    exact h.untouched i hi.2

theorem Progress.run {done ids : List Nat} (h : Progress x done s)
    (hids : ∀ id ∈ ids, id < x.tree.size) (hs : ids.foldlM (checkNode x) s = .ok s') :
    Progress x (ids.reverse ++ done) s' := by
  induction ids generalizing s done with
  | nil =>
    cases hs
    exact h
  | cons id ids ih =>
    rw [List.foldlM_cons] at hs
    obtain ⟨s₁, h₁, hs⟩ := bind_eq_ok.mp hs
    have hstep := ih (h.step (hids id (List.mem_cons_self ..)) h₁)
      (fun i hi => hids i (List.mem_cons_of_mem _ hi)) hs
    simpa using hstep

end Checking

open Checking

-- What a page was checked against, once it has been.
def CheckedPage.context (c : CheckedPage) (o : Options) : Checking.Context :=
  { options := o, bindings := c.page.bindings, settings := c.settings, tree := c.page.tree }

-- The checks of a page: every node that can be reached passes its own, and nothing is found about
-- the others.
theorem Page.check_progress {p : Page} {o : Options} {c : CheckedPage} (h : p.check o = .ok c)
    (hp : ∀ id ∈ p.tree.preorder, id < p.tree.size) :
    c.page = p ∧ ∃ s₀ s, Progress (c.context o) [] s₀ ∧
      Progress (c.context o) p.tree.preorder.reverse s ∧
      p.tree.preorder.foldlM (checkNode (c.context o)) s₀ = .ok s ∧ s.findings = c.findings := by
  unfold check at h
  obtain ⟨settings, hsettings, h⟩ := bind_eq_ok.mp h
  obtain ⟨s, hs, h⟩ := bind_eq_ok.mp h
  obtain ⟨_, _, h⟩ := bind_eq_ok.mp h
  cases h
  have hstart : Progress ⟨o, p.bindings, settings, p.tree⟩ [] { findings := .ofTree p.tree } :=
    ⟨by simp [Findings.ofTree], by simp, fun id _ => Findings.get_ofTree _ _⟩
  have hdone := hstart.run hp hs
  rw [List.append_nil] at hdone
  exact ⟨rfl, _, s, hstart, hdone, hs, rfl⟩

theorem Page.check_established {p : Page} {o : Options} {c : CheckedPage}
    (h : p.check o = .ok c) (hp : ∀ id ∈ p.tree.preorder, id < p.tree.size) :
    c.page = p ∧ ∀ id ∈ p.tree.preorder, Established (c.context o) id (c.findings.get id) := by
  obtain ⟨hpage, s₀, s, -, hdone, -, hfindings⟩ := check_progress h hp
  rw [← hfindings]
  exact ⟨hpage, fun id hid => hdone.established id (by simpa using hid)⟩

theorem CheckedPage.ofUnit_eq_ok {o : Options} {loader : Loader} {resolver resolver' : Resolver}
    {name : String} {c : CheckedPage}
    (h : CheckedPage.ofUnit o loader resolver name = (.ok c, resolver')) :
    ∃ page, Page.read o loader resolver name = (.ok page, resolver') ∧ page.check o = .ok c := by
  unfold CheckedPage.ofUnit at h
  cases hread : Page.read o loader resolver name with
  | mk page r =>
    rw [hread] at h
    cases page with
    | error d => cases h
    | ok page =>
      obtain ⟨hcheck, rfl⟩ := Prod.mk.inj h
      exact ⟨page, rfl, hcheck⟩

end PageCompiler
