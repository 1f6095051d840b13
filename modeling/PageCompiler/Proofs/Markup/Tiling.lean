import PageCompiler.Markup.Event
import PageCompiler.Proofs.Reading.Sequence
import PageCompiler.Text.Size
import PageCompiler.Text.Slice

namespace PageCompiler.Markup

open Text

-- How an event is written.
def Event.WrittenAs (piece : List Char) : Event → Prop
  | .text raw => piece = raw ∧ '<' ∉ raw
  | .cdata data =>
    piece = "<![CDATA[".toList ++ data ++ "]]>".toList ∧ ¬ "]]>".toList <:+: data ++ "]]".toList
  | .opening inside => piece = '<' :: inside ++ ['>']
  | .empty inside => piece = '<' :: inside ++ "/>".toList
  | .other => ∃ inside rest, piece = '<' :: inside ∧ piece? (inside ++ rest) = .ok ⟨.other, rest⟩
  | _ => True

-- One event after the other, from the given byte on, up to what is left of the text.
inductive Tiles : Nat → List Char → List Located → Prop
  | nil (offset : Nat) (rest : List Char) : Tiles offset rest []
  | cons {offset : Nat} {piece rest : List Char} {e : Located} {es : List Located}
      (hstart : e.start = offset) (hstop : e.stop = offset + byteSize piece)
      (hpiece : e.event.WrittenAs piece) (h : Tiles e.stop rest es) :
      Tiles offset (piece ++ rest) (e :: es)

theorem cutTag?_eq_some {quote : Option Char} {s inside rest : List Char}
    (h : cutTag? quote s = some (inside, rest)) : s = inside ++ '>' :: rest := by
  induction s generalizing quote inside with
  | nil => simp [cutTag?] at h
  | cons c cs ih =>
    unfold cutTag? at h
    split at h
    · obtain ⟨⟨a, b⟩, hc, heq⟩ := Option.map_eq_some_iff.mp h
      cases heq
      rw [ih hc]
      rfl
    · split at h
      · rename_i hclose
        cases h
        rw [hclose]
        rfl
      · obtain ⟨⟨a, b⟩, hc, heq⟩ := Option.map_eq_some_iff.mp h
        cases heq
        rw [ih hc]
        rfl

theorem suffix_cutBalanced? {depth : Nat} {s inside rest : List Char}
    (h : cutBalanced? depth s = some (inside, rest)) : rest <:+ s := by
  induction s generalizing depth inside with
  | nil => simp [cutBalanced?] at h
  | cons c cs ih =>
    unfold cutBalanced? at h
    split at h
    · cases h
      exact List.suffix_cons ..
    · obtain ⟨⟨a, b⟩, hc, heq⟩ := Option.map_eq_some_iff.mp h
      cases heq
      exact (ih hc).trans (List.suffix_cons ..)

theorem suffix_cutAt? {piece s before rest : List Char}
    (h : cutAt? piece s = some (before, rest)) : rest <:+ s := by
  rw [eq_of_cutAt? h]
  exact List.suffix_append ..

theorem suffix_cutComment? {s inside rest : List Char}
    (h : cutComment? s = some (inside, rest)) : rest <:+ s := by
  obtain ⟨t, ht, hcut⟩ := Option.bind_eq_some_iff.mp h
  rw [eq_of_stripStart? ht]
  exact (suffix_cutAt? hcut).trans (List.suffix_append ..)

-- A piece of markup is written from its bracket up to what is left.
theorem piece?_eq_ok {s : List Char} {p : Piece} (h : piece? s = .ok p) :
    ∃ piece, '<' :: s = piece ++ p.rest ∧ p.event.WrittenAs piece := by
  have hfree : ∀ {t : List Char} {e : Event}, t <:+ s → (∀ piece, e.WrittenAs piece) →
      ∃ piece, '<' :: s = piece ++ t ∧ e.WrittenAs piece := by
    rintro t e ⟨before, rfl⟩ he
    exact ⟨'<' :: before, rfl, he _⟩
  have hother : ∀ {t : List Char}, t <:+ s → piece? s = .ok ⟨.other, t⟩ →
      ∃ piece, '<' :: s = piece ++ t ∧ Event.other.WrittenAs piece := by
    rintro t ⟨before, rfl⟩ hpiece
    exact ⟨'<' :: before, rfl, before, t, rfl, hpiece⟩
  have hread := h
  unfold piece? at h
  split at h
  · cases h
  · rename_i s
    split at h
    · split at h
      · rename_i hcut
        cases h
        exact hfree ((suffix_cutComment? hcut).trans (List.suffix_cons ..)) fun _ => trivial
      · cases h
    · split at h
      · rename_i hcut
        cases h
        obtain ⟨t, ht, hcut⟩ := Option.bind_eq_some_iff.mp hcut
        have hclosed := @not_infix_before_cut "]]".toList _ _ _ _ hcut
        rw [eq_of_stripStart? ht, eq_of_cutAt? hcut]
        exact ⟨_, by simp, rfl, hclosed⟩
      · cases h
    · split at h
      · split at h
        · cases h
        · rename_i hcut
          split at h
          · cases h
          · split at h
            · cases h
            · cases h
              exact hother ((suffix_cutBalanced? hcut).trans (List.suffix_cons ..)) hread
      · cases h
    · cases h
  · split at h
    · rename_i inside rest hcut
      cases h
      refine hfree ⟨'/' :: inside ++ ['>'], ?_⟩ fun _ => trivial
      rw [cutTag?_eq_some hcut]
      simp
    · cases h
  · split at h
    · cases h
    · split at h
      · rename_i hcut
        cases h
        exact hother ((suffix_cutAt? hcut).trans (List.suffix_cons ..)) hread
      · cases h
  · split at h
    · rename_i inside rest hcut
      rw [cutTag?_eq_some hcut]
      split at h
      · rename_i inner hinner
        cases h
        rw [eq_of_stripEnd? hinner]
        exact ⟨'<' :: inner ++ "/>".toList, by simp, rfl⟩
      · cases h
        exact ⟨'<' :: inside ++ ['>'], by simp, rfl⟩
    · cases h

theorem tiles_readFrom (depth offset : Nat) (s : List Char) :
    Tiles offset s (readFrom depth offset s).events := by
  fun_induction readFrom depth offset s with
  | case1 => exact .nil ..
  | case2 => exact .nil ..
  | case3 => exact .nil ..
  | case4 depth offset rest p hp d hd _ stop ih =>
    obtain ⟨piece, hpiece, hwritten⟩ := piece?_eq_ok hp
    have hstop : stop = offset + byteSize piece := by
      simp only [stop, hpiece, byteSize_append]
      omega
    rw [hpiece]
    exact .cons rfl hstop hwritten ih
  | case5 depth offset c cs hc run _ stop ih =>
    have hrun : c :: cs = run ++ cs.dropWhile (· != '<') := by simp [run]
    have hplain : '<' ∉ run := by
      simp only [run, List.mem_cons, not_or]
      refine ⟨fun heq => hc heq.symm, fun hmem => ?_⟩
      have hne := List.all_eq_true.mp List.all_takeWhile _ hmem
      simp at hne
    rw [hrun]
    exact .cons rfl rfl ⟨rfl, hplain⟩ ih

-- What of a document is not counted: a byte order mark at its start.
theorem tiles_read (s : List Char) :
    ∃ skipped rest, s = skipped ++ rest ∧ Tiles 0 rest (read s).events ∧
      (skipped = [] ∨ ∃ c : Char, skipped = [c] ∧ c.toNat = 0xFEFF) := by
  cases s with
  | nil => exact ⟨[], [], rfl, tiles_readFrom .., .inl rfl⟩
  | cons c s =>
    unfold read
    dsimp only
    split
    · exact ⟨[c], s, rfl, tiles_readFrom .., .inr ⟨c, rfl, ‹_›⟩⟩
    · exact ⟨[], c :: s, rfl, tiles_readFrom .., .inl rfl⟩

-- What neither opens an element nor closes one.
def Event.IsFlat : Event → Prop
  | opening _ | closing _ => False
  | _ => True

-- Events of which each tag that opens an element comes with the one that closes it.
inductive Balanced : List Event → Prop
  | nil : Balanced []
  | flat {e : Event} {es : List Event} (he : e.IsFlat) (h : Balanced es) : Balanced (e :: es)
  | element {inside name : List Char} {inner es : List Event} (hinner : Balanced inner)
      (h : Balanced es) : Balanced (.opening inside :: (inner ++ .closing name :: es))

theorem Balanced.append {es es' : List Event} (h : Balanced es) (h' : Balanced es') :
    Balanced (es ++ es') := by
  induction h with
  | nil => exact h'
  | flat he _ ih => exact .flat he ih
  | element hinner _ _ ih =>
    rw [List.cons_append, List.append_assoc, List.cons_append]
    exact .element hinner ih

-- Events that leave so many elements open.
inductive LeavesOpen : Nat → List Event → Prop
  | balanced {es : List Event} (h : Balanced es) : LeavesOpen 0 es
  | opening {depth : Nat} {es inner : List Event} (inside : List Char) (h : LeavesOpen depth es)
      (hinner : Balanced inner) : LeavesOpen (depth + 1) (es ++ .opening inside :: inner)

namespace LeavesOpen

variable {depth : Nat} {es es' : List Event}

theorem balanced_of_zero (h : LeavesOpen 0 es) : Balanced es := by
  cases h with
  | balanced h => exact h

theorem append (h : LeavesOpen depth es) (h' : Balanced es') : LeavesOpen depth (es ++ es') := by
  cases h with
  | balanced h => exact .balanced (h.append h')
  | opening inside h hinner =>
    rw [List.append_assoc, List.cons_append]
    exact .opening inside h (hinner.append h')

theorem flat {e : Event} (h : LeavesOpen depth es) (he : e.IsFlat) : LeavesOpen depth (es ++ [e]) :=
  h.append (.flat he .nil)

theorem opened (h : LeavesOpen depth es) (inside : List Char) :
    LeavesOpen (depth + 1) (es ++ [.opening inside]) := .opening inside h .nil

-- The element that is closed becomes a part of what stands around it.
theorem closed (h : LeavesOpen (depth + 1) es) (name : List Char) :
    LeavesOpen depth (es ++ [.closing name]) := by
  cases h with
  | opening inside h hinner =>
    rw [List.append_assoc, List.cons_append]
    exact h.append (.element hinner .nil)

end LeavesOpen

theorem takeBytes_between (front piece behind : List Char) :
    takeBytes (byteSize piece) (splitBytes (front ++ (piece ++ behind)) (byteSize front)).2 =
      piece := by
  have hsplit := splitBytes_append (front ++ (piece ++ behind)) (byteSize front)
  have hfront : (splitBytes (front ++ (piece ++ behind)) (byteSize front)).1 = front :=
    takeBytes_append front (piece ++ behind)
  rw [hfront] at hsplit
  rw [List.append_cancel_left hsplit, takeBytes_append]

-- One event after the other from the given byte on, each behind the one in front of it.
inductive Covers : Nat → List Char → List Located → Prop
  | nil (offset : Nat) (rest : List Char) : Covers offset rest []
  | cons {offset : Nat} {piece rest : List Char} {e : Located} {es : List Located}
      (hstart : e.start = offset) (hstop : e.stop = offset + byteSize piece)
      (h : Covers e.stop rest es) : Covers offset (piece ++ rest) (e :: es)

theorem Tiles.covers {offset : Nat} {text : List Char} {es : List Located}
    (h : Tiles offset text es) : Covers offset text es := by
  induction h with
  | nil offset rest => exact .nil offset rest
  | cons hstart hstop _ _ ih => exact .cons hstart hstop ih

-- A text is covered by its events unless it starts with a mark of its byte order.
theorem covers_read {text : List Char} (h : text.head?.all fun c => c.toNat ≠ 0xFEFF) :
    Covers 0 text (read text).events := by
  obtain ⟨skipped, rest, rfl, htiles, rfl | ⟨c, rfl, hc⟩⟩ := tiles_read text
  · exact htiles.covers
  · simp [hc] at h

-- The bytes of an event, or those of the end of a document that is read to its end.
def Document.Spans (d : Document) (start stop : Nat) : Prop :=
  (∃ e ∈ d.events, e.start = start ∧ e.stop = stop) ∨
    d.broken = none ∧ start = d.stop ∧ stop = d.stop

-- A document that does not break off is read up to the end of its text.
theorem stop_readFrom {depth offset : Nat} {s : List Char}
    (h : (readFrom depth offset s).broken = none) :
    (readFrom depth offset s).stop = offset + byteSize s := by
  fun_induction readFrom depth offset s with
  | case1 => rfl
  | case2 => cases h
  | case3 => cases h
  | case4 depth offset rest p hp d hd _ stop ih =>
    obtain ⟨piece, hpiece, -⟩ := piece?_eq_ok hp
    have hstop : stop = offset + byteSize piece := by
      simp only [stop, hpiece, byteSize_append]
      omega
    rw [Document.cons, ih h, hpiece, byteSize_append, hstop, Nat.add_assoc]
  | case5 depth offset c cs _ run _ stop ih =>
    have hrun : c :: cs = run ++ cs.dropWhile (· != '<') := by simp [run]
    rw [Document.cons, ih h, hrun, byteSize_append, Nat.add_assoc]

theorem Covers.slice?_ne_none {front rest : List Char} {es : List Located} {e : Located}
    (h : Covers (byteSize front) rest es) (he : e ∈ es) :
    slice? e.start e.stop (front ++ rest) ≠ none := by
  induction es generalizing front rest with
  | nil => cases he
  | cons first es ih =>
    cases h with
    | @cons _ piece rest _ _ hstart hstop h =>
      rcases List.mem_cons.mp he with rfl | he
      · rw [hstop, hstart, slice?_append]
        exact Option.some_ne_none _
      · rw [hstop, ← byteSize_append] at h
        rw [← List.append_assoc]
        exact ih h he

-- Nothing of a document is looked for inside of a character unless it starts with a mark of its
-- byte order.
theorem starts_marked {text : List Char} {start stop : Nat} (h : (read text).Spans start stop)
    (hnone : slice? start stop text = none) : text.head?.map Char.toNat = some 0xFEFF := by
  cases text with
  | nil =>
    rcases h with ⟨e, he, -⟩ | ⟨-, rfl, rfl⟩
    · rw [read, readFrom] at he
      cases he
    · rw [read, readFrom] at hnone
      cases hnone
  | cons c s =>
    by_cases hmarked : c.toNat = 0xFEFF
    · exact congrArg some hmarked
    · have hcovers : Covers (byteSize []) (c :: s) (read (c :: s)).events :=
        covers_read (by simpa using hmarked)
      rcases h with ⟨e, he, rfl, rfl⟩ | ⟨hbroken, rfl, rfl⟩
      · exact absurd hnone (hcovers.slice?_ne_none he)
      · have hread : read (c :: s) = readFrom 0 0 (c :: s) := by rw [read, if_neg hmarked]
        have hend : slice? (byteSize (c :: s)) (byteSize (c :: s)) (c :: s) = some [] := by
          simpa using slice?_append (c :: s) [] []
        rw [hread] at hbroken hnone
        rw [stop_readFrom hbroken, Nat.zero_add, hend] at hnone
        cases hnone

-- What an event covers of a text.
def Located.piece (text : List Char) (e : Located) : List Char :=
  takeBytes (e.stop - e.start) (splitBytes text e.start).2

theorem Located.piece_eq {text piece : List Char} {e : Located}
    (h : slice? e.start e.stop text = some piece) : e.piece text = piece := by
  obtain ⟨front, rest, rfl, hstart, hstop⟩ := slice?_eq_some_iff.mp h
  rw [Located.piece, hstop, Nat.add_sub_cancel_left, ← hstart, takeBytes_between]

theorem Covers.pieces {front rest : List Char} {es more : List Located}
    (h : Covers (byteSize front) rest (es ++ more)) :
    ∃ behind, rest = es.flatMap (Located.piece (front ++ rest)) ++ behind ∧
      Covers (byteSize (front ++ es.flatMap (Located.piece (front ++ rest)))) behind more := by
  induction es generalizing front rest with
  | nil => exact ⟨rest, rfl, by simpa using h⟩
  | cons e es ih =>
    cases h with
    | @cons _ piece rest _ _ hstart hstop h =>
      have hpiece : e.piece (front ++ (piece ++ rest)) = piece :=
        Located.piece_eq (by rw [hstop, hstart, slice?_append])
      rw [hstop, ← byteSize_append] at h
      obtain ⟨behind, hrest, hmore⟩ := ih h
      rw [List.append_assoc front piece rest] at hrest hmore
      refine ⟨behind, ?_, ?_⟩
      · rw [List.flatMap_cons, hpiece, List.append_assoc, ← hrest]
      · rwa [List.flatMap_cons, hpiece, ← List.append_assoc]

-- The text between two events is what the events in between cover.
theorem Covers.slice?_between {text : List Char} {before inner behind : List Located}
    {first last : Located} (h : Covers 0 text (before ++ first :: (inner ++ last :: behind))) :
    slice? first.stop last.start text = some (inner.flatMap (Located.piece text)) := by
  obtain ⟨rest, htext, hfirst⟩ : ∃ rest, text = _ ∧ _ :=
    Covers.pieces (show Covers (byteSize []) text _ from h)
  rw [List.nil_append, List.nil_append] at hfirst
  rw [List.nil_append] at htext
  generalize before.flatMap (Located.piece text) = front at htext hfirst
  cases hfirst with
  | @cons _ piece rest _ _ _ hstop hinner =>
    rw [hstop, ← byteSize_append] at hinner
    obtain ⟨behind, hrest, hlast⟩ := hinner.pieces
    rw [List.append_assoc front piece rest, ← htext] at hrest hlast
    generalize inner.flatMap (Located.piece text) = s at hrest hlast ⊢
    have hstart : last.start = byteSize (front ++ piece ++ s) := by
      cases hlast with
      | cons hstart => exact hstart
    refine slice?_eq_some_iff.mpr ⟨front ++ piece, behind, ?_, ?_, ?_⟩
    · rw [htext, hrest, List.append_assoc]
    · rw [hstop, byteSize_append]
    · rw [hstart, hstop, byteSize_append, byteSize_append]

end PageCompiler.Markup
