import PageCompiler.Proofs.Reading.Progress
import PageCompiler.Text.Slice

-- What is left is cut off at that byte, and an operation gives nothing where the cut would go
-- through a character. Each operation does what it does to a cursor that holds the rest of the
-- text.
namespace PageCompiler

open Text

structure ByteCursor where
  unit : String
  text : List Char
  place : Nat
  line : Nat
  column : Nat
  deriving DecidableEq, Repr

-- What is kept of a cursor in order to go back.
structure SavedPlace where
  place : Nat
  line : Nat
  column : Nat
  deriving DecidableEq, Repr

namespace ByteCursor

def ofText (unit : String) (text : List Char) : ByteCursor := ⟨unit, text, 0, 1, 1⟩

def mark (b : ByteCursor) : Mark := ⟨b.unit, b.line, b.column, b.place⟩

def save (b : ByteCursor) : SavedPlace := ⟨b.place, b.line, b.column⟩

def reset (b : ByteCursor) (saved : SavedPlace) : ByteCursor :=
  { b with place := saved.place, line := saved.line, column := saved.column }

def rest? (b : ByteCursor) : Option (List Char) := (cutBytes? b.place b.text).map Prod.snd

-- Behind one character.
def past (b : ByteCursor) (x : Char) : ByteCursor :=
  if x = '\n' then { b with place := b.place + x.utf8Size, line := b.line + 1, column := 1 }
  else { b with place := b.place + x.utf8Size, column := b.column + 1 }

def next? (b : ByteCursor) : Option (Option Char × ByteCursor) :=
  b.rest?.map fun rest =>
    match rest with
    | [] => (none, b)
    | x :: _ => (some x, b.past x)

theorem place_past (b : ByteCursor) (x : Char) : (b.past x).place = b.place + x.utf8Size := by
  unfold past
  split <;> rfl

theorem text_past (b : ByteCursor) (x : Char) : (b.past x).text = b.text := by
  unfold past
  split <;> rfl

-- A character that is read is one of the text.
theorem of_next? {b b' : ByteCursor} {x : Char} (h : b.next? = some (some x, b')) :
    b' = b.past x ∧ b.place + x.utf8Size ≤ byteSize b.text := by
  obtain ⟨rest, hrest, h⟩ := Option.map_eq_some_iff.mp h
  obtain ⟨⟨front, behind⟩, hcut, rfl⟩ := Option.map_eq_some_iff.mp hrest
  obtain ⟨htext, hsize⟩ := eq_of_cutBytes? hcut
  cases behind with
  | nil => cases h
  | cons y behind =>
    cases h
    refine ⟨rfl, ?_⟩
    rw [htext, byteSize_append, byteSize_cons]
    omega

theorem place_lt_of_next? {b b' : ByteCursor} {x : Char} (h : b.next? = some (some x, b')) :
    b.place < b'.place := by
  have hpos := x.utf8Size_pos
  rw [(of_next? h).1, place_past]
  omega

theorem left_lt_of_next? {b b' : ByteCursor} {x : Char} (h : b.next? = some (some x, b')) :
    byteSize b'.text - b'.place < byteSize b.text - b.place := by
  have hpos := x.utf8Size_pos
  obtain ⟨rfl, hsize⟩ := of_next? h
  rw [text_past, place_past]
  omega

-- Reads characters up to the byte `stop`. Where no character is left in front of it, this would not
-- come to an end.
def advanceTo? (stop : Nat) (b : ByteCursor) : Option ByteCursor :=
  if b.place < stop then
    match hnext : b.next? with
    | some (some _, b') =>
      have := place_lt_of_next? hnext
      advanceTo? stop b'
    | _ => none
  else some b
termination_by stop - b.place

def advance? (n : Nat) (b : ByteCursor) : Option ByteCursor :=
  b.advanceTo? (min (b.place + n) (byteSize b.text))

def take? (piece : List Char) (b : ByteCursor) : Option (Bool × ByteCursor) :=
  b.rest?.bind fun rest =>
    if startsWith piece rest then (b.advance? (byteSize piece)).map fun b' => (true, b')
    else some (false, b)

def skipBlanks? (b : ByteCursor) : Option ByteCursor :=
  match hnext : b.next? with
  | none => none
  | some (none, _) => some b
  | some (some x, b') =>
    have := left_lt_of_next? hnext
    if isBlank x then skipBlanks? b' else some b
termination_by byteSize b.text - b.place

-- The byte at which a piece stands first.
def find? (piece s : List Char) : Option Nat := (cutAt? piece s).map fun cut => byteSize cut.1

def readUntil? (delimiter : List Char) (b : ByteCursor) :
    Option (Option (List Char) × ByteCursor) :=
  b.rest?.bind fun rest =>
    match find? delimiter rest with
    | none => some (none, b)
    | some found =>
      (cutBytes? found rest).bind fun cut =>
        (b.advance? (found + byteSize delimiter)).map fun b' => (some cut.1, b')

def readName? (b : ByteCursor) : Option (Option (List Char) × ByteCursor) :=
  b.rest?.bind fun rest =>
    let size := byteSize (rest.takeWhile Cursor.isTagNameChar)
    if size = 0 then some (none, b)
    else
      (cutBytes? size rest).bind fun cut => (b.advance? size).map fun b' => (some cut.1, b')

-- Goes forward piece by piece, and back to the start as soon as one is missing.
def endTag? (name : List Char) (b : ByteCursor) : Option (Bool × ByteCursor) := do
  let saved := b.save
  let (opened, b) ← b.take? "</".toList
  if opened then
    let (named, b) ← b.take? name
    if named then
      let b ← b.skipBlanks?
      let (closed, b) ← b.take? ">".toList
      if closed then return (true, b) else return (false, b.reset saved)
    else return (false, b.reset saved)
  else return (false, b.reset saved)

-- The cursor at the byte where the rest of the text begins.
def ofCursor (text : List Char) (c : Cursor) : ByteCursor :=
  ⟨c.mark.unit, text, c.mark.offset, c.mark.line, c.mark.column⟩

end ByteCursor

-- More bytes than there are take all of the text.
theorem Text.splitBytes_of_le {s : List Char} {n : Nat} (h : byteSize s ≤ n) :
    splitBytes s n = (s, []) := by
  induction s generalizing n with
  | nil => cases n <;> rfl
  | cons c s ih =>
    have hpos := c.utf8Size_pos
    rw [byteSize_cons] at h
    obtain ⟨n, rfl⟩ : ∃ m, n = m + 1 := ⟨n - 1, by omega⟩
    rw [splitBytes, ih (by omega)]

namespace Cursor

variable {unit : String} {text : List Char} {c c' : Cursor}

theorem leads_next {x : Char} {rest : List Char} (hrest : c.rest = x :: rest) :
    Leads c ⟨c.mark.next x, rest⟩ := by
  have hpassed : c.rest = [x] ++ rest := hrest
  exact leads_of_append hpassed

theorem leads_skipBytes (c : Cursor) (n : Nat) : Leads c (c.skipBytes n) :=
  leads_of_append (splitBytes_append c.rest n).symm

theorem skipBytes_zero (c : Cursor) : c.skipBytes 0 = c := by
  unfold skipBytes splitBytes
  rfl

theorem skipBytes_cons {x : Char} {rest : List Char} (hrest : c.rest = x :: rest) (n : Nat) :
    c.skipBytes (n + 1) = skipBytes ⟨c.mark.next x, rest⟩ (n + 1 - x.utf8Size) := by
  unfold skipBytes
  rw [hrest, splitBytes]
  rfl

theorem skipBytes_append {piece rest : List Char} (hrest : c.rest = piece ++ rest) :
    c.skipBytes (byteSize piece) = ⟨c.mark.advance piece, rest⟩ := by
  have hpiece := takeBytes_append piece rest
  have hsplit := splitBytes_append (piece ++ rest) (byteSize piece)
  rw [takeBytes] at hpiece
  rw [hpiece] at hsplit
  rw [skipBytes, hrest]
  exact congrArg₂ Cursor.mk (congrArg c.mark.advance hpiece) (List.append_cancel_left hsplit)

theorem skipBytes_of_le {n : Nat} (h : byteSize c.rest ≤ n) :
    c.skipBytes n = c.skipBytes (byteSize c.rest) := by
  rw [skipBytes, skipBytes, splitBytes_of_le h, splitBytes_of_le (Nat.le_refl _)]

-- A cursor in a text has the front of it behind itself.
theorem Leads.exists_front (h : Leads (ofText unit text) c) :
    ∃ front, text = front ++ c.rest ∧ c.mark = (Mark.start unit).advance front ∧
      c.mark.offset = byteSize front := by
  obtain ⟨front, hfront⟩ := h.exists_passed
  have hmark : c.mark = (Mark.start unit).advance front := h.mark_eq hfront
  refine ⟨front, hfront, hmark, ?_⟩
  rw [hmark, Mark.advance_offset, Mark.start, Nat.zero_add]

theorem Leads.size_eq (h : Leads (ofText unit text) c) :
    c.mark.offset + byteSize c.rest = byteSize text := by
  obtain ⟨front, htext, -, hplace⟩ := h.exists_front
  rw [hplace, htext, byteSize_append]

-- A cursor that another leads to is told by what it has left.
theorem Leads.eq_moveTo (h : Leads c c') : c' = c.moveTo c'.rest := by
  obtain ⟨passed, hpassed⟩ := h.exists_passed
  have hrest : (c.moveTo c'.rest).rest = c'.rest := rest_moveTo hpassed
  have hmark : (c.moveTo c'.rest).mark = c.mark.advance passed :=
    (leads_moveTo c c'.rest).mark_eq (by rw [hrest, hpassed])
  exact congrArg₂ Cursor.mk ((h.mark_eq hpassed).trans hmark.symm) hrest.symm

theorem stripStart?_rest (c : Cursor) (piece : String) :
    stripStart? piece.toList c.rest = (c.accept? piece).map Cursor.rest := by
  rw [accept?, Option.map_map]
  exact Option.map_id'.symm

-- The end tag, piece by piece.
theorem endTag?_eq (c : Cursor) (name : String) :
    c.endTag? name =
      (c.accept? "</").bind fun c => (c.accept? name).bind fun c => c.skipBlanks.accept? ">" := by
  rw [endTag?, behindEndTag?, stripStart?_rest]
  cases hopen : c.accept? "</" with
  | none => rfl
  | some c₁ =>
    simp only [Option.map_some, Option.bind_eq_bind, Option.bind_some, stripStart?_rest]
    cases hname : c₁.accept? name with
    | none => rfl
    | some c₂ =>
      have hblanks : c₂.rest.dropWhile isBlank = c₂.skipBlanks.rest := rfl
      simp only [Option.map_some, Option.bind_some, hblanks, stripStart?_rest]
      cases hclose : c₂.skipBlanks.accept? ">" with
      | none => rfl
      | some c₃ =>
        have hleads : Leads c c₃ :=
          (leads_accept? hopen).trans ((leads_accept? hname).trans
            ((leads_skipBlanks c₂).trans (leads_accept? hclose)))
        exact congrArg some hleads.eq_moveTo.symm

end Cursor

namespace ByteCursor

open Cursor (Leads)

variable {unit : String} {text : List Char} {c c' : Cursor}

theorem rest?_ofCursor (h : Leads (.ofText unit text) c) :
    (ofCursor text c).rest? = some c.rest := by
  obtain ⟨front, htext, -, hplace⟩ := h.exists_front
  have hcut := cutBytes?_append front c.rest
  rw [← htext, ← hplace] at hcut
  exact Option.map_eq_some_iff.mpr ⟨_, hcut, rfl⟩

theorem past_ofCursor (text : List Char) (c : Cursor) (x : Char) (rest : List Char) :
    (ofCursor text c).past x = ofCursor text ⟨c.mark.next x, rest⟩ := by
  unfold past Mark.next
  split
  · rfl
  · rfl

-- Going back gives the cursor that was saved.
theorem reset_ofCursor (h : c'.mark.unit = c.mark.unit) :
    (ofCursor text c').reset (ofCursor text c).save = ofCursor text c := by
  simp [reset, save, ofCursor, h]

theorem next?_nil (h : Leads (.ofText unit text) c) (hrest : c.rest = []) :
    (ofCursor text c).next? = some (none, ofCursor text c) := by
  rw [next?, rest?_ofCursor h, hrest]
  rfl

theorem next?_cons {x : Char} {rest : List Char} (h : Leads (.ofText unit text) c)
    (hrest : c.rest = x :: rest) :
    (ofCursor text c).next? = some (some x, ofCursor text ⟨c.mark.next x, rest⟩) := by
  rw [next?, rest?_ofCursor h, hrest, ← past_ofCursor]
  rfl

theorem advanceTo?_stay {b : ByteCursor} {stop : Nat} (h : stop ≤ b.place) :
    b.advanceTo? stop = some b := by
  rw [advanceTo?, if_neg (Nat.not_lt.mpr h)]

theorem advanceTo?_next {b b' : ByteCursor} {stop : Nat} {x : Char} (h : b.place < stop)
    (hnext : b.next? = some (some x, b')) : b.advanceTo? stop = b'.advanceTo? stop := by
  rw [advanceTo?, if_pos h]
  split
  · next y b'' hsome =>
    rw [hnext] at hsome
    cases hsome
    rfl
  · next hnone => exact (hnone _ _ hnext).elim

-- By induction on what is left: as long as the byte is not reached, there is a character in front
-- of the cursor, so that the loop goes on.
theorem advanceTo?_ofCursor {stop : Nat} (h : Leads (.ofText unit text) c)
    (hstop : stop ≤ byteSize text) :
    (ofCursor text c).advanceTo? stop =
      some (ofCursor text (c.skipBytes (stop - c.mark.offset))) := by
  have hsize := h.size_eq
  induction hrest : c.rest generalizing c with
  | nil =>
    rw [hrest, byteSize_nil] at hsize
    have hend : stop ≤ c.mark.offset := by omega
    rw [advanceTo?_stay hend, Nat.sub_eq_zero_of_le hend, Cursor.skipBytes_zero]
  | cons x rest ih =>
    by_cases hlt : c.mark.offset < stop
    · have hnext := h.trans (Cursor.leads_next hrest)
      have hsplit : stop - c.mark.offset = stop - c.mark.offset - 1 + 1 := by omega
      have hleft : stop - c.mark.offset - 1 + 1 - x.utf8Size = stop - (c.mark.next x).offset := by
        rw [Mark.next_offset]
        omega
      rw [advanceTo?_next hlt (next?_cons h hrest), hsplit, Cursor.skipBytes_cons hrest, hleft]
      exact ih hnext hnext.size_eq rfl
    · have hend : stop ≤ c.mark.offset := Nat.not_lt.mp hlt
      rw [advanceTo?_stay hend, Nat.sub_eq_zero_of_le hend, Cursor.skipBytes_zero]

-- Over a piece of what is left, exactly.
theorem advance?_piece {piece rest : List Char} (h : Leads (.ofText unit text) c)
    (hrest : c.rest = piece ++ rest) :
    (ofCursor text c).advance? (byteSize piece) =
      some (ofCursor text ⟨c.mark.advance piece, rest⟩) := by
  have hsize := h.size_eq
  have hstop : min (c.mark.offset + byteSize piece) (byteSize text) =
      c.mark.offset + byteSize piece := by
    rw [hrest, byteSize_append] at hsize
    omega
  have hgo := advanceTo?_ofCursor h (Nat.min_le_right (c.mark.offset + byteSize piece) _)
  rw [hstop, Nat.add_sub_cancel_left, Cursor.skipBytes_append hrest] at hgo
  rw [advance?, ← hgo, ← hstop]
  rfl

theorem take?_ofCursor (h : Leads (.ofText unit text) c) (piece : String) :
    (ofCursor text c).take? piece.toList = some
      (match c.accept? piece with
      | some c' => (true, ofCursor text c')
      | none => (false, ofCursor text c)) := by
  rw [take?, rest?_ofCursor h, Option.bind_some, startsWith, Cursor.stripStart?_rest]
  cases hc : c.accept? piece with
  | none => rfl
  | some c' =>
    have hrest := Cursor.append_accept? hc
    have hmark := (Cursor.leads_accept? hc).mark_eq hrest
    simp only [Option.map_some, Option.isSome_some, if_true, advance?_piece h hrest, ← hmark]

theorem skipBlanks?_next {b b' : ByteCursor} {x : Char} (hnext : b.next? = some (some x, b')) :
    b.skipBlanks? = if isBlank x then b'.skipBlanks? else some b := by
  rw [skipBlanks?]
  split
  · next hnone => cases hnext.symm.trans hnone
  · next hend => cases hnext.symm.trans hend
  · next hsome =>
    cases hnext.symm.trans hsome
    rfl

-- By induction on what is left, of which each turn of the loop takes a character.
theorem skipBlanks?_ofCursor (h : Leads (.ofText unit text) c) :
    (ofCursor text c).skipBlanks? = some (ofCursor text c.skipBlanks) := by
  induction hrest : c.rest generalizing c with
  | nil =>
    have hstay : c.skipBlanks = c := by
      unfold Cursor.skipBlanks
      rw [hrest]
      exact congrArg (Cursor.mk _) hrest.symm
    rw [skipBlanks?, hstay]
    split
    · next hnone => cases (next?_nil h hrest).symm.trans hnone
    · rfl
    · next hsome => cases (next?_nil h hrest).symm.trans hsome
  | cons x rest ih =>
    rw [skipBlanks?_next (next?_cons h hrest)]
    by_cases hblank : isBlank x
    · have hskip : c.skipBlanks = Cursor.skipBlanks ⟨c.mark.next x, rest⟩ := by
        unfold Cursor.skipBlanks
        rw [hrest, List.takeWhile_cons_of_pos hblank, List.dropWhile_cons_of_pos hblank]
        rfl
      rw [if_pos hblank, ih (h.trans (Cursor.leads_next hrest)) rfl, hskip]
    · have hstay : c.skipBlanks = c := by
        unfold Cursor.skipBlanks
        rw [hrest, List.takeWhile_cons_of_neg hblank, List.dropWhile_cons_of_neg hblank]
        exact congrArg (Cursor.mk _) hrest.symm
      rw [if_neg hblank, hstay]

theorem readUntil?_ofCursor (h : Leads (.ofText unit text) c) (delimiter : String) :
    (ofCursor text c).readUntil? delimiter.toList = some
      (match c.readUntil? delimiter with
      | some (before, c') => (some before, ofCursor text c')
      | none => (none, ofCursor text c)) := by
  rw [readUntil?, rest?_ofCursor h, Option.bind_some, find?]
  cases hc : c.readUntil? delimiter with
  | none =>
    have hcut : cutAt? delimiter.toList c.rest = none := Option.map_eq_none_iff.mp hc
    rw [hcut]
    rfl
  | some found =>
    obtain ⟨before, c'⟩ := found
    obtain ⟨⟨front, behind⟩, hcut, heq⟩ := Option.map_eq_some_iff.mp hc
    cases heq
    have hrest := eq_of_cutAt? hcut
    have hpiece := cutBytes?_append before (delimiter.toList ++ behind)
    have hgo := advance?_piece h hrest
    rw [← List.append_assoc, ← hrest] at hpiece
    rw [byteSize_append, Mark.advance_append] at hgo
    simp only [hcut, Option.map_some, hpiece, Option.bind_some, hgo]

-- Every name takes space.
theorem readName?_ofCursor (h : Leads (.ofText unit text) c) :
    (ofCursor text c).readName? = some
      (match c.readName? with
      | some (name, c') => (some name, ofCursor text c')
      | none => (none, ofCursor text c)) := by
  rw [readName?, rest?_ofCursor h, Option.bind_some, Cursor.readName?]
  cases hname : c.rest.takeWhile Cursor.isTagNameChar with
  | nil => rfl
  | cons x name =>
    have hpos := x.utf8Size_pos
    have hsize : byteSize (x :: name) ≠ 0 := by
      rw [byteSize_cons]
      omega
    have hrest : c.rest = x :: name ++ c.rest.dropWhile Cursor.isTagNameChar := by
      rw [← hname]
      exact (List.takeWhile_append_dropWhile ..).symm
    have hpiece := cutBytes?_append (x :: name) (c.rest.dropWhile Cursor.isTagNameChar)
    rw [← hrest] at hpiece
    simp only [if_neg hsize, hpiece, Option.bind_some, advance?_piece h hrest, Option.map_some]

-- Whichever piece of it is missing, the cursor goes back to where it was.
theorem endTag?_ofCursor (h : Leads (.ofText unit text) c) (name : String) :
    (ofCursor text c).endTag? name.toList = some
      (match c.endTag? name with
      | some c' => (true, ofCursor text c')
      | none => (false, ofCursor text c)) := by
  have hback : ∀ {c'}, Leads c c' →
      (ofCursor text c').reset (ofCursor text c).save = ofCursor text c :=
    fun hleads => reset_ofCursor hleads.unit_eq
  rw [endTag?, Cursor.endTag?_eq]
  simp only [take?_ofCursor h]
  cases hopen : c.accept? "</" with
  | none => simp [hback (.refl c)]
  | some c₁ =>
    have h₁ := Cursor.leads_accept? hopen
    simp only [Option.bind_eq_bind, Option.bind_some, if_true, take?_ofCursor (h.trans h₁)]
    cases hname : c₁.accept? name with
    | none => simp [hback h₁]
    | some c₂ =>
      have h₂ := h₁.trans (Cursor.leads_accept? hname)
      have h₃ := h₂.trans (Cursor.leads_skipBlanks c₂)
      simp only [Option.bind_some, if_true, skipBlanks?_ofCursor (h.trans h₂),
        take?_ofCursor (h.trans h₃)]
      cases hclose : c₂.skipBlanks.accept? ">" with
      | none => simp [hback h₃]
      | some c₃ => rfl

end ByteCursor
end PageCompiler
