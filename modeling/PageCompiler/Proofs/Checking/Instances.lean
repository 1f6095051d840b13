import PageCompiler.Proofs.Checking.Attributes
import PageCompiler.Proofs.Text.Separators

namespace PageCompiler

namespace Checking

theorem toList_instanceId (data : CustomAction) (n : Nat) :
    (instanceId data n).toList = "_pagex_th_".toList ++ ((ClassText.identifier data.space).toList ++
      '_' :: ((ClassText.identifier data.name).toList ++ '_' :: (toString n).toList)) := by
  delta instanceId
  simp

-- The number of a handler can be read off its name.
theorem number_eq_of_instanceId {data data' : CustomAction} {n n' : Nat}
    (h : instanceId data n = instanceId data' n') : n = n' := by
  have hends : ∀ (data : CustomAction) (n : Nat), ∃ front : List Char,
      (instanceId data n).toList = front ++ '_' :: (toString n).toList :=
    fun data n => ⟨"_pagex_th_".toList ++ ((ClassText.identifier data.space).toList ++
      '_' :: (ClassText.identifier data.name).toList), by simp [toList_instanceId]⟩
  obtain ⟨front, hfront⟩ := hends data n
  obtain ⟨front', hfront'⟩ := hends data' n'
  rw [h, hfront'] at hfront
  have hdigits := (Text.append_cons_inj_right (by simp) (by simp) hfront).2
  have hnumber := congrArg (Nat.ofDigitChars 10 · 0) hdigits
  simpa using hnumber.symm

variable {x : Context} {s s' : State} {id : Nat}

-- The check of one node: a custom action takes the next number, and no other node has a name.
theorem checkNode_instances (h : checkNode x s id = .ok s')
    (hid : id < s.findings.entries.size) :
    (∃ data, s'.nextInstance = s.nextInstance + 1 ∧
      (s'.findings.get id).instanceId = some (instanceId data s.nextInstance)) ∨
    s'.nextInstance = s.nextInstance ∧
      ((s'.findings.get id).instanceId = none ∨ s'.findings.get id = s.findings.get id) := by
  unfold checkNode at h
  dsimp only at h
  split at h
  · obtain ⟨_, _, h⟩ := bind_eq_ok.mp h
    cases h
    exact .inr ⟨rfl, .inr rfl⟩
  · obtain ⟨_, _, h⟩ := bind_eq_ok.mp h
    cases h
    exact .inr ⟨rfl, .inr rfl⟩
  · rename_i data _
    obtain ⟨f, hf, h⟩ := bind_eq_ok.mp h
    cases h
    refine .inl ⟨data, rfl, ?_⟩
    rw [(setFinding_spec (s := { s with nextInstance := s.nextInstance + 1 }) f hid).2.1]
    exact (checkCustom_eq_ok hf).instanceId
  · obtain ⟨attrs, _, h⟩ := bind_eq_ok.mp h
    cases h
    refine .inr ⟨rfl, .inl ?_⟩
    rw [(setFinding_spec { attributes := attrs } hid).2.1]
  · split at h
    · cases h
      exact .inr ⟨rfl, .inr rfl⟩
    · obtain ⟨⟨attrs, beans⟩, _, h⟩ := bind_eq_ok.mp h
      cases h
      refine .inr ⟨rfl, .inl ?_⟩
      rw [(setFinding_spec (s := { s with beans }) { attributes := attrs } hid).2.1]

-- The names so far have numbers below the next one, and are all different.
structure Numbered (s : State) : Prop where
  below : ∀ {id : NodeId} {handler : String}, (s.findings.get id).instanceId = some handler →
    ∃ data n, n < s.nextInstance ∧ handler = instanceId data n
  distinct : ∀ {id id' : NodeId} {handler : String},
    (s.findings.get id).instanceId = some handler →
    (s.findings.get id').instanceId = some handler → id = id'

theorem Numbered.step (h : Numbered s) (hs : checkNode x s id = .ok s')
    (hid : id < s.findings.entries.size)
    (hother : ∀ i, i ≠ id → s'.findings.get i = s.findings.get i) : Numbered s' := by
  rcases checkNode_instances hs hid with ⟨data, hnext, hname⟩ | ⟨hnext, hname⟩
  · -- A number that is taken is below the next one, so that the new name is not there yet.
    have hnew : ∀ i, i ≠ id → ∀ {handler}, (s'.findings.get i).instanceId = some handler →
        handler ≠ instanceId data s.nextInstance := by
      intro i hi handler hhandler heq
      rw [hother i hi] at hhandler
      obtain ⟨data', n, hlt, hn⟩ := h.below hhandler
      exact Nat.ne_of_lt hlt (number_eq_of_instanceId (hn.symm.trans heq))
    refine ⟨fun {i handler} hi => ?_, fun {i j handler} hi hj => ?_⟩
    · rw [hnext]
      by_cases hne : i = id
      · subst hne
        exact ⟨data, s.nextInstance, Nat.lt_succ_self _, Option.some.inj (hi.symm.trans hname)⟩
      · obtain ⟨data', n, hlt, hn⟩ := h.below (hother i hne ▸ hi)
        exact ⟨data', n, Nat.lt_succ_of_lt hlt, hn⟩
    · by_cases hne : i = id <;> by_cases hne' : j = id
      · rw [hne, hne']
      · subst hne
        exact absurd (Option.some.inj (hi.symm.trans hname)) (hnew j hne' hj)
      · subst hne'
        exact absurd (Option.some.inj (hj.symm.trans hname)) (hnew i hne hi)
      · exact h.distinct (hother i hne ▸ hi) (hother j hne' ▸ hj)
  · -- Nothing is named.
    have hold : ∀ {i handler}, (s'.findings.get i).instanceId = some handler →
        (s.findings.get i).instanceId = some handler := by
      intro i handler hi
      by_cases hne : i = id
      · subst hne
        rcases hname with hnone | hsame
        · rw [hnone] at hi
          cases hi
        · rwa [← hsame]
      · rwa [← hother i hne]
    refine ⟨fun hi => ?_, fun hi hj => h.distinct (hold hi) (hold hj)⟩
    rw [hnext]
    exact h.below (hold hi)

theorem Numbered.run {done ids : List Nat} (h : Numbered s) (hp : Progress x done s)
    (hids : ∀ id ∈ ids, id < x.tree.size) (hs : ids.foldlM (checkNode x) s = .ok s') :
    Numbered s' := by
  induction ids generalizing s done with
  | nil =>
    cases hs
    exact h
  | cons id ids ih =>
    rw [List.foldlM_cons] at hs
    obtain ⟨s₁, h₁, hs⟩ := bind_eq_ok.mp hs
    have hid : id < s.findings.entries.size := hp.size_eq ▸ hids id (List.mem_cons_self ..)
    have hold : s.findings.get id = {} ∨ Established x id (s.findings.get id) := by
      by_cases hd : id ∈ done
      · exact .inr (hp.established id hd)
      · exact .inl (hp.untouched id hd)
    refine ih (h.step h₁ hid (checkNode_established h₁ hid hold).2.2)
      (hp.step (hids id (List.mem_cons_self ..)) h₁) (fun i hi => hids i (List.mem_cons_of_mem _ hi))
      hs

end Checking

open Checking

-- No two nodes of a page that has been checked share the name of a handler.
theorem Page.check_numbered {p : Page} {o : Options} {c : CheckedPage} (h : p.check o = .ok c)
    (hp : ∀ id ∈ p.tree.preorder, id < p.tree.size) :
    ∃ s, Numbered s ∧ s.findings = c.findings := by
  obtain ⟨rfl, s₀, s, hstart, -, hrun, hfindings⟩ := check_progress h hp
  have hnone : Numbered s₀ := by
    have hempty : ∀ {id handler}, (s₀.findings.get id).instanceId ≠ some handler := by
      intro id handler
      simp [hstart.untouched id (by simp)]
    exact ⟨fun hid => absurd hid hempty, fun hid => absurd hid hempty⟩
  exact ⟨s, hnone.run hstart hp hrun, hfindings⟩

end PageCompiler
