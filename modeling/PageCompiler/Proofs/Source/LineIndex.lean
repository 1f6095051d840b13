import PageCompiler.Proofs.Reading.Letters
import PageCompiler.Proofs.Text.Bytes
import PageCompiler.Source.LineIndex
import Mathlib.Data.List.Induction

namespace PageCompiler

open Text Text.Utf8

variable {unit : String} {front ended line behind s : List Char} {below above : List Nat}
  {start goal place : Nat}

theorem Text.newlinesFrom_append (place : Nat) (s t : List Char) :
    newlinesFrom place (s ++ t) = newlinesFrom place s ++ newlinesFrom (place + byteSize s) t := by
  induction s generalizing place with
  | nil => rfl
  | cons c s ih =>
    rw [List.cons_append, newlinesFrom, newlinesFrom, byteSize_cons, ← Nat.add_assoc]
    by_cases hc : c = '\n'
    · have hone : c.utf8Size = 1 := by rw [hc]; rfl
      rw [if_pos hc, if_pos hc, ih, hone, List.cons_append]
    · rw [if_neg hc, if_neg hc, ih]

theorem Text.le_of_mem_newlinesFrom {n : Nat} (h : n ∈ newlinesFrom place s) : place ≤ n := by
  induction s generalizing place with
  | nil => cases h
  | cons c s ih =>
    rw [newlinesFrom] at h
    split at h
    · rcases List.mem_cons.mp h with rfl | h
      · exact Nat.le_refl _
      · exact Nat.le_of_succ_le (ih h)
    · exact Nat.le_trans (Nat.le_add_right ..) (ih h)

namespace LineIndex

-- A line feed is one byte, and no byte of another character looks like it.
theorem behindFeeds_encodeChar {c : Char} (hc : c ≠ '\n') (bs : Bytes) :
    behindFeeds place (encodeChar c ++ bs) = behindFeeds (place + c.utf8Size) bs := by
  have hskip : ∀ (front : Bytes) (place : Nat), (∀ b ∈ front, b ≠ 0x0A) →
      behindFeeds place (front ++ bs) = behindFeeds (place + front.length) bs := by
    intro front
    induction front with
    | nil => exact fun _ _ => rfl
    | cons b front ih =>
      intro place h
      obtain ⟨hb, hfront⟩ := List.forall_mem_cons.mp h
      rw [List.cons_append, behindFeeds, if_neg hb, ih _ hfront, List.length_cons,
        Nat.add_right_comm, Nat.add_assoc]
  rw [hskip, length_encodeChar]
  intro b hb
  by_cases hascii : c.toNat < 0x80
  · rw [encodeChar_ascii hascii, List.mem_singleton] at hb
    rw [hb]
    exact fun heq => hc ((byte_eq_iff (d := '\n') hascii (by decide)).mp heq)
  · have hle := le_of_mem_encodeChar (by omega) hb
    rintro rfl
    exact absurd hle (by decide)

theorem behindFeeds_encode (place : Nat) (s : List Char) :
    behindFeeds place (encode s) = (newlinesFrom place s).map (· + 1) := by
  induction s generalizing place with
  | nil => rfl
  | cons c s ih =>
    rw [encode_cons, newlinesFrom]
    by_cases hc : c = '\n'
    · rw [if_pos hc, List.map_cons, ← ih, hc]
      rfl
    · rw [if_neg hc, behindFeeds_encodeChar hc, ih]

-- What is found in the middle tells on which side of it the line stands. That of the goal itself is
-- the one that starts last without being behind it.
theorem getD_starts (middle : Nat) (hbelow : ∀ s ∈ below, s < start) (hstart : start ≤ goal)
    (habove : ∀ s ∈ above, goal < s) (hsize : middle < below.length + 1 + above.length) :
    ((below ++ start :: above).toArray.getD middle 0 < goal ∧ middle < below.length) ∨
      ((below ++ start :: above).toArray.getD middle 0 = start ∧ middle = below.length) ∨
      (goal < (below ++ start :: above).toArray.getD middle 0 ∧ below.length < middle) := by
  rw [Array.getD_eq_getD_getElem?, List.getElem?_toArray]
  rcases Nat.lt_trichotomy middle below.length with h | h | h
  · refine .inl ⟨?_, h⟩
    rw [List.getElem?_append_left h, List.getElem?_eq_getElem h]
    exact Nat.lt_of_lt_of_le (hbelow _ (List.getElem_mem h)) hstart
  · refine .inr (.inl ⟨?_, h⟩)
    rw [h, List.getElem?_append_right (Nat.le_refl _), Nat.sub_self]
    rfl
  · refine .inr (.inr ⟨?_, h⟩)
    obtain ⟨n, rfl⟩ : ∃ n, middle = below.length + (n + 1) := ⟨middle - below.length - 1, by omega⟩
    have hn : n < above.length := by omega
    rw [List.getElem?_append_right (Nat.le_add_right ..), Nat.add_sub_cancel_left,
      List.getElem?_cons_succ, List.getElem?_eq_getElem hn]
    exact habove _ (List.getElem_mem hn)

-- The invariant of the halving: the start behind the one that is looked for stays in the part.
theorem search_starts {low high : Nat} (hbelow : ∀ s ∈ below, s < start) (hstart : start ≤ goal)
    (habove : ∀ s ∈ above, goal < s) (hlow : low ≤ below.length + 1)
    (hhigh : below.length + 1 ≤ high) (hsize : high ≤ below.length + 1 + above.length) :
    search (below ++ start :: above).toArray goal low high = .ok below.length ∨
      search (below ++ start :: above).toArray goal low high = .error (below.length + 1) := by
  fun_induction search (below ++ start :: above).toArray goal low high with
  | case1 low high hlt middle found hfound =>
    have hcases := getD_starts middle hbelow hstart habove (by omega)
    left
    congr 1
    omega
  | case2 low high hlt middle found hne hbefore ih =>
    have hcases := getD_starts middle hbelow hstart habove (by omega)
    exact ih (by omega) hhigh hsize
  | case3 low high hlt middle found hne hbehind ih =>
    have hcases := getD_starts middle hbelow hstart habove (by omega)
    exact ih hlow (by omega) (by omega)
  | case4 low high hge =>
    right
    congr 1
    omega

theorem line?_starts (hbelow : ∀ s ∈ below, s < start) (hstart : start ≤ goal)
    (habove : ∀ s ∈ above, goal < s) :
    line? (below ++ start :: above).toArray goal = some below.length := by
  have hsize : (below ++ start :: above).toArray.size = below.length + 1 + above.length := by
    rw [List.size_toArray, List.length_append, List.length_cons]
    omega
  unfold line?
  rcases search_starts hbelow hstart habove (Nat.zero_le _) (by omega)
    (Nat.le_of_eq hsize) with h | h
  · rw [h]
  · rw [h]

-- A front is cut where its last line starts. The places where its other lines start are below.
structure LastLine (front ended line : List Char) (below : List Nat) : Prop where
  front_eq : front = ended ++ line
  starts_eq : 0 :: (newlines front).map (· + 1) = below ++ [byteSize ended]
  below_lt : ∀ s ∈ below, s < byteSize ended
  seek_eq : ∀ unit goal behind, byteSize front ≤ goal →
    Mark.ofOffset unit (front ++ behind) goal =
      Mark.seek unit goal behind (below.length + 1) (line.length + 1) (byteSize ended)
        (byteSize front)

-- By induction from the back: a line feed starts a line, any other character goes on with it.
theorem exists_lastLine (front : List Char) :
    ∃ ended line below, LastLine front ended line below := by
  induction front using List.reverseRecOn with
  | nil =>
    exact ⟨[], [], [], rfl, rfl, fun _ h => (List.not_mem_nil h).elim, fun _ _ _ _ => rfl⟩
  | append_singleton front c ih =>
    obtain ⟨ended, line, below, h⟩ := ih
    have hsize : byteSize (front ++ [c]) = byteSize front + c.utf8Size := byteSize_append ..
    have hpos := c.utf8Size_pos
    have hfeeds : newlines (front ++ [c]) =
        newlines front ++ newlinesFrom (byteSize front) [c] := by
      rw [newlines, newlinesFrom_append, Nat.zero_add, ← newlines]
    have hwalk : ∀ unit goal behind, byteSize (front ++ [c]) ≤ goal →
        Mark.ofOffset unit (front ++ [c] ++ behind) goal =
          if c = '\n' then Mark.seek unit goal behind (below.length + 2) 1 (byteSize (front ++ [c]))
            (byteSize (front ++ [c]))
          else Mark.seek unit goal behind (below.length + 1) (line.length + 2) (byteSize ended)
            (byteSize (front ++ [c])) := by
      intro unit goal behind hgoal
      rw [List.append_assoc, List.singleton_append, h.seek_eq _ _ _ (by omega), Mark.seek,
        if_neg (by omega), if_neg (by omega), hsize]
    by_cases hc : c = '\n'
    · have hone : c.utf8Size = 1 := by rw [hc]; rfl
      refine ⟨front ++ [c], [], below ++ [byteSize ended], ?_, ?_, ?_, ?_⟩
      · rw [List.append_nil]
      · rw [hfeeds, List.map_append, ← List.cons_append, h.starts_eq, newlinesFrom, if_pos hc,
          hsize, hone]
        rfl
      · intro s hs
        have hended : byteSize ended ≤ byteSize front := by
          rw [h.front_eq, byteSize_append]
          exact Nat.le_add_right ..
        rcases List.mem_append.mp hs with hs | hs
        · have := h.below_lt s hs
          omega
        · obtain rfl := List.mem_singleton.mp hs
          omega
      · intro unit goal behind hgoal
        rw [hwalk _ _ _ hgoal, if_pos hc, List.length_append]
        rfl
    · refine ⟨ended, line ++ [c], below, ?_, ?_, h.below_lt, ?_⟩
      · rw [h.front_eq, List.append_assoc]
      · rw [hfeeds, newlinesFrom, if_neg hc, newlinesFrom, List.append_nil]
        exact h.starts_eq
      · intro unit goal behind hgoal
        rw [hwalk _ _ _ hgoal, if_neg hc, List.length_append]
        rfl

theorem LastLine.starts_ofText (h : LastLine front ended line below) :
    (ofText unit (front ++ behind)).starts =
      (below ++ byteSize ended :: (newlinesFrom (byteSize front) behind).map (· + 1)).toArray := by
  rw [ofText, behindFeeds_encode, newlinesFrom_append, List.map_append, ← List.cons_append,
    ← newlines, h.starts_eq, List.append_assoc, Nat.zero_add]
  rfl

-- The place of a byte behind the front, when no line feed stands between the two.
theorem LastLine.markAt?_eq (h : LastLine front ended line below) (hle : byteSize front ≤ goal)
    (hsize : goal ≤ byteSize (front ++ behind))
    (hfeeds : ∀ n ∈ newlinesFrom (byteSize front) behind, goal ≤ n) :
    (ofText unit (front ++ behind)).markAt? goal =
      some ⟨unit, below.length + 1, ((slice? (byteSize ended) goal (front ++ behind)).map
        List.length).getD (goal - byteSize ended) + 1, goal⟩ := by
  have hstart : byteSize ended ≤ goal := by
    rw [h.front_eq, byteSize_append] at hle
    omega
  have habove : ∀ s ∈ (newlinesFrom (byteSize front) behind).map (· + 1), goal < s := by
    intro s hs
    obtain ⟨n, hn, rfl⟩ := List.mem_map.mp hs
    exact Nat.lt_add_one_of_le (hfeeds n hn)
  have hline := line?_starts h.below_lt hstart habove
  have hat : (below ++ byteSize ended :: (newlinesFrom (byteSize front) behind).map (· + 1)).toArray[
      below.length]? = some (byteSize ended) := by
    rw [List.getElem?_toArray, List.getElem?_append_right (Nat.le_refl _), Nat.sub_self]
    rfl
  have hmin : min goal (byteSize (ofText unit (front ++ behind)).text) = goal :=
    Nat.min_eq_left hsize
  simp only [markAt?, hmin, h.starts_ofText, hline, hat, Option.bind_eq_bind, Option.bind_some,
    if_pos hstart]
  rfl

-- The place behind a front.
theorem markAt?_append (unit : String) (front behind : List Char) :
    (ofText unit (front ++ behind)).markAt? (byteSize front) =
      some (Mark.ofOffset unit (front ++ behind) (byteSize front)) := by
  obtain ⟨ended, line, below, h⟩ := exists_lastLine front
  have hsize : byteSize front ≤ byteSize (front ++ behind) := by
    rw [byteSize_append]
    exact Nat.le_add_right ..
  have hpiece : slice? (byteSize ended) (byteSize front) (front ++ behind) = some line := by
    rw [h.front_eq, byteSize_append, List.append_assoc]
    exact slice?_append ended line behind
  rw [h.markAt?_eq (Nat.le_refl _) hsize fun n hn => le_of_mem_newlinesFrom hn, hpiece,
    h.seek_eq _ _ _ (Nat.le_refl _)]
  cases behind with
  | nil => rfl
  | cons c behind =>
    rw [Mark.seek, if_pos (Nat.le_refl _)]
    rfl

-- No text ends inside a character.
theorem slice?_inside {c : Char} (hlt : byteSize front < goal)
    (hgoal : goal < byteSize front + c.utf8Size) :
    slice? start goal (front ++ c :: behind) = none := by
  refine Option.eq_none_iff_forall_ne_some.mpr fun piece hslice => ?_
  obtain ⟨before, rest, htext, hbefore, hend⟩ := slice?_eq_some_iff.mp hslice
  have hsize : byteSize (before ++ piece) = goal := by rw [byteSize_append, hbefore, hend]
  rw [← List.append_assoc] at htext
  rcases List.append_eq_append_iff.mp htext with ⟨more, hmore, hcut⟩ | ⟨more, hmore, -⟩
  · rw [hmore, byteSize_append] at hsize
    cases more with
    | nil =>
      rw [byteSize_nil] at hsize
      omega
    | cons d more =>
      obtain ⟨rfl, -⟩ := List.cons_eq_cons.mp hcut
      rw [byteSize_cons] at hsize
      omega
  · rw [hmore, byteSize_append] at hlt
    omega

-- The place of a byte inside a character, which is not a line feed then.
theorem markAt?_inside {c : Char} (hlt : byteSize front < goal)
    (hgoal : goal < byteSize front + c.utf8Size) :
    (ofText unit (front ++ c :: behind)).markAt? goal =
      some (Mark.ofOffset unit (front ++ c :: behind) goal) := by
  obtain ⟨ended, line, below, h⟩ := exists_lastLine front
  have hsize : goal ≤ byteSize (front ++ c :: behind) := by
    rw [byteSize_append, byteSize_cons]
    omega
  have hc : c ≠ '\n' := by
    rintro rfl
    have hone : '\n'.utf8Size = 1 := rfl
    omega
  rw [h.markAt?_eq (Nat.le_of_lt hlt) hsize, slice?_inside hlt hgoal,
    h.seek_eq _ _ _ (Nat.le_of_lt hlt), Mark.seek, if_neg (by omega), if_pos hgoal]
  · rfl
  · intro n hn
    rw [newlinesFrom, if_neg hc] at hn
    exact Nat.le_trans (Nat.le_of_lt hgoal) (le_of_mem_newlinesFrom hn)

-- A byte of a text belongs to one of its characters.
theorem exists_cut (goal : Nat) (h : goal < byteSize s) :
    ∃ front c behind, s = front ++ c :: behind ∧ byteSize front ≤ goal ∧
      goal < byteSize front + c.utf8Size := by
  induction s generalizing goal with
  | nil => exact absurd h (Nat.not_lt_zero _)
  | cons c s ih =>
    by_cases hc : goal < c.utf8Size
    · exact ⟨[], c, s, rfl, Nat.zero_le _, by rwa [byteSize_nil, Nat.zero_add]⟩
    · rw [byteSize_cons] at h
      obtain ⟨front, d, behind, rfl, hle, hlt⟩ := ih (goal - c.utf8Size) (by omega)
      refine ⟨c :: front, d, behind, rfl, ?_, ?_⟩
      · rw [byteSize_cons]
        omega
      · rw [byteSize_cons]
        omega

-- Looking up a byte gives the place that walking to it gives.
theorem markAt?_eq_ofOffset (unit : String) (text : List Char) (goal : Nat) :
    (ofText unit text).markAt? goal = some (Mark.ofOffset unit text goal) := by
  by_cases hgoal : goal < byteSize text
  · obtain ⟨front, c, behind, rfl, hle, hlt⟩ := exists_cut goal hgoal
    rcases Nat.eq_or_lt_of_le hle with rfl | hinside
    · exact markAt?_append unit front (c :: behind)
    · exact markAt?_inside hinside hlt
  · have hend : byteSize text ≤ goal := Nat.not_lt.mp hgoal
    have hmin : min goal (byteSize text) = min (byteSize text) (byteSize text) := by omega
    obtain ⟨ended, line, below, h⟩ := exists_lastLine text
    have hlast := markAt?_append unit text []
    rw [List.append_nil] at hlast
    have hsame : (ofText unit text).markAt? goal = (ofText unit text).markAt? (byteSize text) := by
      unfold markAt?
      rw [show (ofText unit text).text = text from rfl, hmin]
    have hwalk := h.seek_eq unit goal [] hend
    have hfull := h.seek_eq unit (byteSize text) [] (Nat.le_refl _)
    rw [List.append_nil] at hwalk hfull
    rw [hsame, hlast, hwalk, hfull]
    rfl

end LineIndex
end PageCompiler
