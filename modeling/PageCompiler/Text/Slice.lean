import PageCompiler.Text.Size

-- There is such a piece only when each of the two bytes begins a character or stands at the end of
-- the text.
namespace PageCompiler.Text

-- The first `n` bytes of a text and the bytes behind them; nothing when the cut would go through a
-- character or the text is shorter.
def cutBytes? : Nat → List Char → Option (List Char × List Char)
  | 0, s => some ([], s)
  | _ + 1, [] => none
  | n + 1, c :: cs =>
    if c.utf8Size ≤ n + 1 then
      (cutBytes? (n + 1 - c.utf8Size) cs).map fun cut => (c :: cut.1, cut.2)
    else none

-- The text from the byte `start` up to the byte `stop`.
def slice? (start stop : Nat) (s : List Char) : Option (List Char) :=
  if start ≤ stop then
    (cutBytes? start s).bind fun cut => (cutBytes? (stop - start) cut.2).map Prod.fst
  else none

theorem eq_of_cutBytes? {n : Nat} {s front rest : List Char}
    (h : cutBytes? n s = some (front, rest)) : s = front ++ rest ∧ byteSize front = n := by
  fun_induction cutBytes? n s generalizing front with
  | case1 =>
    cases h
    exact ⟨rfl, rfl⟩
  | case2 => cases h
  | case3 n c cs hc ih =>
    obtain ⟨⟨front', rest'⟩, hcut, heq⟩ := Option.map_eq_some_iff.mp h
    cases heq
    obtain ⟨rfl, hsize⟩ := ih hcut
    refine ⟨rfl, ?_⟩
    rw [byteSize_cons, hsize]
    omega
  | case4 => cases h

-- A text is cut in two behind any of its fronts.
theorem cutBytes?_append (front rest : List Char) :
    cutBytes? (byteSize front) (front ++ rest) = some (front, rest) := by
  induction front with
  | nil =>
    rw [byteSize_nil, List.nil_append]
    unfold cutBytes?
    rfl
  | cons c front ih =>
    have hpos := c.utf8Size_pos
    obtain ⟨n, hn⟩ : ∃ n, byteSize (c :: front) = n + 1 :=
      Nat.exists_eq_add_one.mpr (by rw [byteSize_cons]; omega)
    have hrest : n + 1 - c.utf8Size = byteSize front := by
      rw [byteSize_cons] at hn
      omega
    have hfits : c.utf8Size ≤ n + 1 := by
      rw [byteSize_cons] at hn
      omega
    rw [hn, List.cons_append, cutBytes?, if_pos hfits, hrest, ih]
    rfl

theorem slice?_eq_some_iff {start stop : Nat} {s piece : List Char} :
    slice? start stop s = some piece ↔
      ∃ front rest, s = front ++ (piece ++ rest) ∧ byteSize front = start ∧
        stop = start + byteSize piece := by
  constructor
  · intro h
    unfold slice? at h
    split at h
    · rename_i hle
      obtain ⟨⟨front, behind⟩, hfront, h⟩ := Option.bind_eq_some_iff.mp h
      obtain ⟨⟨_, rest⟩, hpiece, rfl⟩ := Option.map_eq_some_iff.mp h
      obtain ⟨rfl, hstart⟩ := eq_of_cutBytes? hfront
      obtain ⟨rfl, hsize⟩ := eq_of_cutBytes? hpiece
      exact ⟨front, rest, rfl, hstart, by dsimp only at hsize ⊢; omega⟩
    · cases h
  · rintro ⟨front, rest, rfl, rfl, rfl⟩
    rw [slice?, if_pos (Nat.le_add_right ..), cutBytes?_append, Option.bind_some,
      Nat.add_sub_cancel_left, cutBytes?_append]
    rfl

-- What stands between a front and what is left.
theorem slice?_append (front piece rest : List Char) :
    slice? (byteSize front) (byteSize front + byteSize piece) (front ++ (piece ++ rest)) =
      some piece :=
  slice?_eq_some_iff.mpr ⟨front, rest, rfl, rfl, rfl⟩

end PageCompiler.Text
