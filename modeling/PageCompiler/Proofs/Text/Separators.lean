import PageCompiler.Text.Cut
import Mathlib.Data.List.Basic

namespace PageCompiler.Text

variable {d : Char}

theorem not_mem_of_mem_splitAll {s w : List Char} (h : w ∈ splitAll d s) : d ∉ w := by
  induction s generalizing w with
  | nil =>
    rw [List.mem_singleton.mp h]
    simp
  | cons c s ih =>
    unfold splitAll at h
    split at h
    · rcases List.mem_cons.mp h with rfl | h
      · simp
      · exact ih h
    · rename_i hc
      split at h
      · rw [List.mem_singleton.mp h]
        simpa using Ne.symm hc
      · rename_i first rest hsplit
        rw [hsplit] at ih
        rcases List.mem_cons.mp h with rfl | h
        · have hfirst := ih (List.mem_cons_self ..)
          simpa using ⟨Ne.symm hc, hfirst⟩
        · exact ih (List.mem_cons_of_mem _ h)

-- The pieces are those of the library's own splitting.
theorem splitAll_eq_splitOn (s : List Char) : splitAll d s = s.splitOn d := by
  induction s with
  | nil => rfl
  | cons c s ih =>
    rw [splitAll, List.splitOn_cons_eq_if_modifyHead, ih]
    by_cases hc : c = d
    · rw [if_pos hc, if_pos (beq_iff_eq.mpr hc)]
    · rw [if_neg hc, if_neg (mt beq_iff_eq.mp hc)]
      cases hsplit : s.splitOn d with
      | nil => exact absurd hsplit (List.splitOn_ne_nil d s)
      | cons w ws => rfl

theorem splitAll_of_not_mem {w : List Char} (hw : d ∉ w) : splitAll d w = [w] := by
  rw [splitAll_eq_splitOn, List.splitOn_eq_singleton hw]

theorem splitAll_intercalate {part : List Char} {parts : List (List Char)}
    (h : ∀ w ∈ part :: parts, d ∉ w) :
    splitAll d (List.intercalate [d] (part :: parts)) = part :: parts := by
  rw [splitAll_eq_splitOn, List.splitOn_intercalate d h (List.cons_ne_nil _ _)]

theorem split_append {sep : String} (hsep : sep.toList = [d]) (a b : String) :
    split d (a ++ sep ++ b) = split d a ++ split d b := by
  rw [split, split, split, String.toList_append, String.toList_append, hsep, List.append_assoc,
    List.singleton_append, splitAll_eq_splitOn, List.splitOn_append_cons_self, List.map_append,
    ← splitAll_eq_splitOn, ← splitAll_eq_splitOn]

theorem split_of_not_mem {a : String} (h : d ∉ a.toList) : split d a = [a] := by
  rw [split, splitAll_of_not_mem h, List.map_singleton, String.ofList_toList]

-- Parts that hold separators themselves are split where they stand.
theorem splitOn_intercalate_eq_flatMap {parts : List (List Char)} (h : parts ≠ []) :
    (List.intercalate [d] parts).splitOn d = parts.flatMap (List.splitOn d) := by
  induction parts with
  | nil => exact absurd rfl h
  | cons part parts ih =>
    cases parts with
    | nil => rw [List.intercalate_singleton, List.flatMap_singleton]
    | cons next parts =>
      rw [List.intercalate_cons_cons, List.append_assoc, List.singleton_append,
        List.splitOn_append_cons_self, ih (List.cons_ne_nil _ _), ← List.flatMap_cons]

-- A text is told by its pieces.
theorem splitOn_injective : Function.Injective (List.splitOn d) := by
  intro s s' h
  have hback : [d].intercalate (s.splitOn d) = s := List.intercalate_splitOn d
  rw [← hback, h, List.intercalate_splitOn]

theorem join_injective {sep : String} (hsep : sep.toList = [d]) {l l' : List String} (hl : l ≠ [])
    (hl' : l' ≠ []) (hparts : ∀ w ∈ l, d ∉ w.toList) (hparts' : ∀ w ∈ l', d ∉ w.toList)
    (h : join sep l = join sep l') : l = l' := by
  have hback : ∀ {l : List String}, l ≠ [] → (∀ w ∈ l, d ∉ w.toList) →
      splitAll d (join sep l).toList = l.map String.toList := by
    intro l hl hparts
    obtain ⟨first, rest, rfl⟩ := List.exists_cons_of_ne_nil hl
    rw [join, String.toList_intercalate, hsep, List.map_cons, splitAll_intercalate]
    rw [← List.map_cons, List.forall_mem_map]
    exact hparts
  have hsame := hback hl hparts
  rw [h, hback hl' hparts'] at hsame
  exact (List.map_injective_iff.mpr (fun _ _ => String.toList_inj.mp) hsame).symm

-- The last separator is found again.
theorem append_cons_inj_right {a a' b b' : List Char} (hb : d ∉ b) (hb' : d ∉ b')
    (h : a ++ d :: b = a' ++ d :: b') : a = a' ∧ b = b' := by
  have hrest : ∀ {a b : List Char}, d ∉ b →
      (a ++ d :: b).reverse.takeWhile (· ≠ d) = b.reverse := by
    intro a b hb
    rw [List.reverse_append, List.reverse_cons, List.append_assoc, List.takeWhile_append_of_pos]
    · simp
    · intro c hc
      have hne : c ≠ d := by
        rintro rfl
        exact hb (List.mem_reverse.mp hc)
      simpa using hne
  have hbb : b = b' := by
    have hboth := hrest (a := a) hb
    rw [h, hrest hb'] at hboth
    exact List.reverse_injective hboth.symm
  subst hbb
  exact ⟨List.append_cancel_right h, rfl⟩

end PageCompiler.Text
