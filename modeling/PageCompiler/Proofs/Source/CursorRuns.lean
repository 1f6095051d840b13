import PageCompiler.Proofs.Source.ByteCursor
import PageCompiler.Proofs.Source.LineIndex

namespace PageCompiler

open Text

-- What moves a cursor.
inductive Cursor.Operation where
  | next
  | advance (n : Nat)
  | accept (piece : String)
  | skipBlanks
  | readUntil (delimiter : String)
  | readName
  | endTag (name : String)
  deriving DecidableEq, Repr

-- An index of places counts from the one saved last.
inductive Cursor.Command where
  | operation (o : Operation)
  | save
  | reset (index : Nat)
  deriving DecidableEq, Repr

inductive Cursor.Answer where
  | done
  | char (found : Option Char)
  | accepted
  | moved (far : Bool)
  | text (s : List Char)
  | refused
  deriving DecidableEq, Repr

open Cursor (Operation Command Answer)

def Cursor.perform? (c : Cursor) : Operation → Option (Answer × Cursor)
  | .next =>
    match c.next? with
    | some (x, c') => some (.char (some x), c')
    | none => some (.char none, c)
  | .advance n => (c.advance? n).map fun c' => (.done, c')
  | .accept piece =>
    match c.accept? piece with
    | some c' => some (.accepted, c')
    | none => some (.refused, c)
  | .skipBlanks => some (.moved (c.mark.offset < c.skipBlanks.mark.offset), c.skipBlanks)
  | .readUntil delimiter =>
    match c.readUntil? delimiter with
    | some (before, c') => some (.text before, c')
    | none => some (.refused, c)
  | .readName =>
    match c.readName? with
    | some (name, c') => some (.text name, c')
    | none => some (.refused, c)
  | .endTag name =>
    match c.endTag? name with
    | some c' => some (.accepted, c')
    | none => some (.refused, c)

structure Cursor.Session where
  cursor : Cursor
  saved : List Cursor

namespace Cursor.Session

def ofText (unit : String) (text : List Char) : Cursor.Session := ⟨.ofText unit text, []⟩

def step? (s : Cursor.Session) : Command → Option (Answer × Cursor.Session)
  | .operation o => (s.cursor.perform? o).map fun next => (next.1, { s with cursor := next.2 })
  | .save => some (.done, { s with saved := s.cursor :: s.saved })
  | .reset index => some (.done, { s with cursor := s.saved[index]?.getD s.cursor })

def run? (s : Cursor.Session) : List Command → Option (List Answer × Cursor.Session)
  | [] => some ([], s)
  | command :: commands =>
    (s.step? command).bind fun next =>
      (next.2.run? commands).map fun rest => (next.1 :: rest.1, rest.2)

end Cursor.Session

namespace ByteCursor

-- The answer to an operation that can be refused.
def answer (accepted : Bool) : Answer := if accepted then .accepted else .refused

def told (found : Option (List Char)) : Answer := found.elim .refused .text

def perform? (b : ByteCursor) : Operation → Option (Answer × ByteCursor)
  | .next => b.next?.map fun found => (.char found.1, found.2)
  | .advance n =>
    -- The place to stop at is counted before it is held against the end of the text.
    if b.place + n < wordLimit then
      (b.advanceTo? (min (b.place + n) (byteSize b.text))).map fun b' => (.done, b')
    else none
  | .accept piece => (b.take? piece.toList).map fun found => (answer found.1, found.2)
  | .skipBlanks => b.skipBlanks?.map fun b' => (.moved (b.place < b'.place), b')
  | .readUntil delimiter =>
    (b.readUntil? delimiter.toList).map fun found => (told found.1, found.2)
  | .readName => b.readName?.map fun found => (told found.1, found.2)
  | .endTag name => (b.endTag? name.toList).map fun found => (answer found.1, found.2)

end ByteCursor

structure ByteCursor.Session where
  cursor : ByteCursor
  saved : List SavedPlace
  deriving DecidableEq, Repr

namespace ByteCursor.Session

def ofText (unit : String) (text : List Char) : ByteCursor.Session := ⟨.ofText unit text, []⟩

def step? (s : ByteCursor.Session) : Command → Option (Answer × ByteCursor.Session)
  | .operation o => (s.cursor.perform? o).map fun next => (next.1, { s with cursor := next.2 })
  | .save => some (.done, { s with saved := s.cursor.save :: s.saved })
  | .reset index =>
    some (.done, { s with cursor := (s.saved[index]?.map s.cursor.reset).getD s.cursor })

def run? (s : ByteCursor.Session) : List Command → Option (List Answer × ByteCursor.Session)
  | [] => some ([], s)
  | command :: commands =>
    (s.step? command).bind fun next =>
      (next.2.run? commands).map fun rest => (next.1 :: rest.1, rest.2)

-- The session with each cursor at its byte.
def ofSession (text : List Char) (s : Cursor.Session) : ByteCursor.Session :=
  ⟨.ofCursor text s.cursor, s.saved.map fun c => (ByteCursor.ofCursor text c).save⟩

end ByteCursor.Session

variable {unit : String} {text : List Char} {c c' : Cursor} {s s' : Cursor.Session}
  {answer : Answer} {command : Command}

theorem Cursor.leads_of_perform? {o : Operation} (h : c.perform? o = some (answer, c')) :
    c.Leads c' := by
  cases o with
  | next =>
    cases hrest : c.rest with
    | nil =>
      simp only [perform?, next?, hrest] at h
      cases h
      exact .refl c
    | cons x rest =>
      simp only [perform?, next?, hrest] at h
      cases h
      exact leads_next hrest
  | advance n =>
    obtain ⟨c₁, hc, heq⟩ := Option.map_eq_some_iff.mp h
    cases heq
    rw [advance?] at hc
    split at hc
    · cases hc
      exact leads_skipBytes c n
    · cases hc
  | accept piece =>
    cases hc : c.accept? piece with
    | none =>
      simp only [perform?, hc] at h
      cases h
      exact .refl c
    | some c₁ =>
      simp only [perform?, hc] at h
      cases h
      exact leads_accept? hc
  | skipBlanks =>
    cases h
    exact leads_skipBlanks c
  | readUntil delimiter =>
    cases hc : c.readUntil? delimiter with
    | none =>
      simp only [perform?, hc] at h
      cases h
      exact .refl c
    | some found =>
      simp only [perform?, hc] at h
      cases h
      exact (leads_readUntil? hc).1
  | readName =>
    cases hc : c.readName? with
    | none =>
      simp only [perform?, hc] at h
      cases h
      exact .refl c
    | some found =>
      simp only [perform?, hc] at h
      cases h
      exact (leads_readName? hc).1
  | endTag name =>
    cases hc : c.endTag? name with
    | none =>
      simp only [perform?, hc] at h
      cases h
      exact .refl c
    | some c₁ =>
      simp only [perform?, hc] at h
      cases h
      exact (leads_endTag? hc).1

-- An operation that is refused leaves the cursor where it was.
theorem Cursor.eq_of_perform?_refused {o : Operation} (h : c.perform? o = some (.refused, c')) :
    c' = c := by
  cases o with
  | next =>
    cases hc : c.next? <;> simp [perform?, hc] at h
  | advance n => simp [perform?] at h
  | accept piece =>
    cases hc : c.accept? piece with
    | none => simpa [perform?, hc, eq_comm] using h
    | some c₁ => simp [perform?, hc] at h
  | skipBlanks => cases h
  | readUntil delimiter =>
    cases hc : c.readUntil? delimiter with
    | none => simpa [perform?, hc, eq_comm] using h
    | some found => simp [perform?, hc] at h
  | readName =>
    cases hc : c.readName? with
    | none => simpa [perform?, hc, eq_comm] using h
    | some found => simp [perform?, hc] at h
  | endTag name =>
    cases hc : c.endTag? name with
    | none => simpa [perform?, hc, eq_comm] using h
    | some c₁ => simp [perform?, hc] at h

-- Only a place that does not fit into 64 bits stops an operation.
theorem Cursor.perform?_eq_none_iff {o : Operation} :
    c.perform? o = none ↔ ∃ n, o = .advance n ∧ wordLimit ≤ c.mark.offset + n := by
  cases o with
  | next => cases hc : c.next? <;> simp [perform?, hc]
  | advance n => simp [perform?, advance?]
  | accept piece => cases hc : c.accept? piece <;> simp [perform?, hc]
  | skipBlanks => simp [perform?]
  | readUntil delimiter => cases hc : c.readUntil? delimiter <;> simp [perform?, hc]
  | readName => cases hc : c.readName? <;> simp [perform?, hc]
  | endTag name => cases hc : c.endTag? name <;> simp [perform?, hc]

theorem ByteCursor.perform?_ofCursor (h : (Cursor.ofText unit text).Leads c) (o : Operation) :
    (ofCursor text c).perform? o =
      (c.perform? o).map fun next => (next.1, ofCursor text next.2) := by
  cases o with
  | next =>
    cases hrest : c.rest with
    | nil =>
      simp only [perform?, next?_nil h hrest, Cursor.perform?, Cursor.next?, hrest, Option.map_some]
    | cons x rest =>
      simp only [perform?, next?_cons h hrest, Cursor.perform?, Cursor.next?, hrest,
        Option.map_some]
  | advance n =>
    have hplace : (ofCursor text c).place = c.mark.offset := rfl
    rw [perform?, Cursor.perform?, Cursor.advance?, hplace]
    split
    · have hsize := h.size_eq
      have hgo := advanceTo?_ofCursor h (Nat.min_le_right (c.mark.offset + n) (byteSize text))
      have hreach : c.skipBytes (min (c.mark.offset + n) (byteSize text) - c.mark.offset) =
          c.skipBytes n := by
        rcases Nat.le_total (c.mark.offset + n) (byteSize text) with hle | hle
        · rw [Nat.min_eq_left hle, Nat.add_sub_cancel_left]
        · rw [Nat.min_eq_right hle, ← hsize, Nat.add_sub_cancel_left]
          exact (Cursor.skipBytes_of_le (by omega)).symm
      rw [hreach] at hgo
      exact Option.map_eq_some_iff.mpr ⟨_, hgo, rfl⟩
    · rfl
  | accept piece =>
    rw [perform?, take?_ofCursor h, Cursor.perform?]
    cases c.accept? piece <;> rfl
  | skipBlanks =>
    rw [perform?, skipBlanks?_ofCursor h, Cursor.perform?]
    rfl
  | readUntil delimiter =>
    rw [perform?, readUntil?_ofCursor h, Cursor.perform?]
    cases c.readUntil? delimiter <;> rfl
  | readName =>
    rw [perform?, readName?_ofCursor h, Cursor.perform?]
    cases c.readName? <;> rfl
  | endTag name =>
    rw [perform?, endTag?_ofCursor h, Cursor.perform?]
    cases c.endTag? name <;> rfl

-- All cursors of a session stand in one text.
structure Cursor.Session.Within (unit : String) (text : List Char) (s : Cursor.Session) : Prop where
  cursor : (Cursor.ofText unit text).Leads s.cursor
  saved : ∀ c ∈ s.saved, (Cursor.ofText unit text).Leads c

theorem Cursor.Session.Within.start (unit : String) (text : List Char) :
    (Cursor.Session.ofText unit text).Within unit text :=
  ⟨.refl _, fun _ h => (List.not_mem_nil h).elim⟩

theorem Cursor.Session.Within.step (h : s.Within unit text)
    (hstep : s.step? command = some (answer, s')) : s'.Within unit text := by
  cases command with
  | operation o =>
    obtain ⟨next, hperform, heq⟩ := Option.map_eq_some_iff.mp hstep
    cases heq
    exact ⟨h.cursor.trans (Cursor.leads_of_perform? hperform), h.saved⟩
  | save =>
    cases hstep
    exact ⟨h.cursor, List.forall_mem_cons.mpr ⟨h.cursor, h.saved⟩⟩
  | reset index =>
    cases hstep
    refine ⟨?_, h.saved⟩
    cases hc : s.saved[index]? with
    | none => exact h.cursor
    | some c => exact h.saved c (List.mem_of_getElem? hc)

theorem Cursor.Session.step?_eq_none_iff :
    s.step? command = none ↔
      ∃ n, command = .operation (.advance n) ∧ wordLimit ≤ s.cursor.mark.offset + n := by
  cases command with
  | operation o =>
    rw [step?, Option.map_eq_none_iff, Cursor.perform?_eq_none_iff]
    simp only [Command.operation.injEq]
  | save => simp [step?]
  | reset index => simp [step?]

theorem ByteCursor.Session.step?_ofSession (h : s.Within unit text) (command : Command) :
    (ofSession text s).step? command =
      (s.step? command).map fun next => (next.1, ofSession text next.2) := by
  cases command with
  | operation o =>
    simp only [step?, ofSession, ByteCursor.perform?_ofCursor h.cursor, Option.map_map,
      Cursor.Session.step?]
    rfl
  | save => rfl
  | reset index =>
    simp only [step?, ofSession, List.getElem?_map, Cursor.Session.step?, Option.map_some]
    cases hc : s.saved[index]? with
    | none => rfl
    | some c =>
      have hunit : s.cursor.mark.unit = c.mark.unit :=
        h.cursor.unit_eq.trans (h.saved c (List.mem_of_getElem? hc)).unit_eq.symm
      simp only [Option.map_some, Option.getD_some, ByteCursor.reset_ofCursor hunit]

-- By induction on the commands: every step keeps the session within the text.
theorem ByteCursor.Session.run?_ofSession (h : s.Within unit text) (commands : List Command) :
    (ofSession text s).run? commands =
        (s.run? commands).map (fun last => (last.1, ofSession text last.2)) ∧
      ∀ answers last, s.run? commands = some (answers, last) → last.Within unit text := by
  induction commands generalizing s with
  | nil =>
    refine ⟨rfl, ?_⟩
    rintro _ _ ⟨⟩
    exact h
  | cons command commands ih =>
    rw [run?, Cursor.Session.run?, step?_ofSession h]
    cases hstep : s.step? command with
    | none => exact ⟨rfl, nofun⟩
    | some next =>
      obtain ⟨hrun, hwithin⟩ := ih (h.step hstep)
      simp only [Option.map_some, Option.bind_some, hrun, Option.map_map]
      refine ⟨rfl, fun answers last hlast => ?_⟩
      obtain ⟨rest, hrest, heq⟩ := Option.map_eq_some_iff.mp hlast
      cases heq
      exact hwithin rest.1 rest.2 hrest

-- The first command that stops a run is found behind a run that it does not stop.
theorem ByteCursor.Session.run?_eq_none_iff {s : ByteCursor.Session} {commands : List Command} :
    s.run? commands = none ↔ ∃ before command behind answers last,
      commands = before ++ command :: behind ∧ s.run? before = some (answers, last) ∧
        last.step? command = none := by
  induction commands generalizing s with
  | nil => simp [run?]
  | cons first commands ih =>
    cases hstep : s.step? first with
    | none =>
      rw [run?, hstep]
      exact iff_of_true rfl ⟨[], first, commands, [], s, rfl, rfl, hstep⟩
    | some next =>
      rw [run?, hstep, Option.bind_some, Option.map_eq_none_iff, ih]
      constructor
      · rintro ⟨before, command, behind, answers, last, rfl, hrun, hnone⟩
        refine ⟨first :: before, command, behind, next.1 :: answers, last, rfl, ?_, hnone⟩
        rw [run?, hstep, Option.bind_some, hrun]
        rfl
      · rintro ⟨before, command, behind, answers, last, heq, hrun, hnone⟩
        cases before with
        | nil =>
          cases heq
          cases hrun
          cases hstep.symm.trans hnone
        | cons _ before =>
          cases heq
          rw [run?, hstep, Option.bind_some] at hrun
          obtain ⟨rest, hrest, hlast⟩ := Option.map_eq_some_iff.mp hrun
          cases hlast
          exact ⟨before, command, behind, rest.1, rest.2, rfl, hrest, hnone⟩

-- A byte cursor that stands between two characters, at a place that is the same however it is told.
structure ByteCursor.Placed (unit : String) (text : List Char) (b : ByteCursor) : Prop where
  text_eq : b.text = text
  boundary : ∃ front rest, text = front ++ rest ∧ b.rest? = some rest ∧ byteSize front = b.place ∧
    b.mark = (Mark.start unit).advance front
  found : (LineIndex.ofText unit text).markAt? b.place = some b.mark
  walked : Mark.ofOffset unit text b.place = b.mark

theorem ByteCursor.placed_ofCursor (h : (Cursor.ofText unit text).Leads c) :
    (ofCursor text c).Placed unit text := by
  obtain ⟨front, htext, hmark, hplace⟩ := h.exists_front
  have hwalked : Mark.ofOffset unit text (ofCursor text c).place = (ofCursor text c).mark := by
    have hfront : Mark.ofOffset unit (front ++ c.rest) (byteSize front) = _ :=
      Mark.ofOffset_append front c.rest
    rw [← htext, ← hplace, ← hmark] at hfront
    exact hfront
  refine ⟨rfl, ⟨front, c.rest, htext, rest?_ofCursor h, hplace.symm, hmark⟩, ?_, hwalked⟩
  rw [LineIndex.markAt?_eq_ofOffset, hwalked]

-- A session reads a text without a cut through a character, and as a cursor does that holds what is
-- left. Behind every command the cursor is placed, and one that is refused leaves it as it was. A
-- command stops the session if and only if it asks to pass over bytes up to a place that 64 bits do
-- not hold.
theorem ByteCursor.Session.run_placed (unit : String) (text : List Char)
    (commands : List Command) :
    (∀ answers s, (ofText unit text).run? commands = some (answers, s) →
      (∃ last, (Cursor.Session.ofText unit text).run? commands = some (answers, last) ∧
        s.cursor = .ofCursor text last.cursor) ∧
      s.cursor.Placed unit text ∧
      (∀ o s', s.step? (.operation o) = some (.refused, s') → s' = s) ∧
      ∀ command, s.step? command = none ↔
        ∃ n, command = .operation (.advance n) ∧ wordLimit ≤ s.cursor.place + n) ∧
    ((ofText unit text).run? commands = none ↔ ∃ before n behind answers s,
      commands = before ++ .operation (.advance n) :: behind ∧
        (ofText unit text).run? before = some (answers, s) ∧ wordLimit ≤ s.cursor.place + n) := by
  obtain ⟨hrun, hwithin⟩ := run?_ofSession (.start unit text) commands
  -- What is true behind any run is true behind the one up to the command that stops it.
  have hstops : ∀ {before answers s}, (ofText unit text).run? before = some (answers, s) →
      ∀ command, s.step? command = none ↔
        ∃ n, command = .operation (.advance n) ∧ wordLimit ≤ s.cursor.place + n := by
    intro before answers s hs command
    obtain ⟨hrun, hwithin⟩ := run?_ofSession (.start unit text) before
    obtain ⟨last, hlast, heq⟩ := Option.map_eq_some_iff.mp (hrun.symm.trans hs)
    cases heq
    rw [step?_ofSession (hwithin _ _ hlast), Option.map_eq_none_iff,
      Cursor.Session.step?_eq_none_iff]
    rfl
  refine ⟨fun answers s hs => ?_, ?_⟩
  · obtain ⟨last, hlast, heq⟩ := Option.map_eq_some_iff.mp (hrun.symm.trans hs)
    have hin := hwithin _ _ hlast
    have hstop := hstops hs
    cases heq
    refine ⟨⟨last.2, hlast, rfl⟩, ByteCursor.placed_ofCursor hin.cursor, fun o s' hstep => ?_, hstop⟩
    rw [step?_ofSession hin] at hstep
    obtain ⟨next, hnext, heq⟩ := Option.map_eq_some_iff.mp hstep
    obtain ⟨c, hperform, hc⟩ := Option.map_eq_some_iff.mp hnext
    cases hc
    obtain ⟨hrefused, rfl⟩ := Prod.mk.inj heq
    have hback : c.2 = last.2.cursor :=
      Cursor.eq_of_perform?_refused (by rw [hperform, ← hrefused])
    simp only [hback]
  · rw [run?_eq_none_iff]
    constructor
    · rintro ⟨before, command, behind, answers, last, rfl, hlast, hnone⟩
      obtain ⟨n, rfl, hlarge⟩ := (hstops hlast command).mp hnone
      exact ⟨before, n, behind, answers, last, rfl, hlast, hlarge⟩
    · rintro ⟨before, n, behind, answers, last, rfl, hlast, hlarge⟩
      exact ⟨before, _, behind, answers, last, rfl, hlast, (hstops hlast _).mpr ⟨n, rfl, hlarge⟩⟩

-- A character of two bytes and a line feed in front of the delimiter. Back in front of the end tag
-- a name is tried that is too short.
def sampleText : List Char := "é\n<%x</c:if >z".toList

def sampleCommands : List Command :=
  [.operation (.readUntil "<%"), .operation .next, .save, .operation (.endTag "c:if"), .reset 0]

-- The session comes to its end. Asked for the rest of what 64 bits count behind it, it stops.
theorem ByteCursor.Session.run_placed_sample :
    ∃ s, (ofText "u" sampleText).run? sampleCommands =
        some ([.text ['é', '\n'], .char (some 'x'), .done, .accepted, .done], s) ∧
      s.cursor.mark = ⟨"u", 2, 4, 6⟩ ∧
      (LineIndex.ofText "u" sampleText).markAt? 6 = some ⟨"u", 2, 4, 6⟩ ∧
      s.step? (.operation (.endTag "c:i")) = some (.refused, s) ∧
      (ofText "u" sampleText).run? (sampleCommands ++ [.operation (.advance (wordLimit - 6))]) =
        none := by
  obtain ⟨s, hrun, hat⟩ : ∃ s, (ofText "u" sampleText).run? sampleCommands =
      some ([.text ['é', '\n'], .char (some 'x'), .done, .accepted, .done], s) ∧
        s = ⟨⟨"u", sampleText, 6, 2, 4⟩, [⟨6, 2, 4⟩]⟩ := ⟨_, by decide +kernel, rfl⟩
  obtain ⟨-, hplaced, hrefused, -⟩ := (run_placed "u" sampleText sampleCommands).1 _ s hrun
  have hfound := hplaced.found
  rw [hat] at hfound
  refine ⟨s, hrun, by rw [hat]; rfl, hfound, ?_, ?_⟩
  · have hstep : (s.step? (.operation (.endTag "c:i"))).map Prod.fst = some .refused := by
      rw [hat]
      decide +kernel
    obtain ⟨⟨answer, s'⟩, hnext, hanswer⟩ := Option.map_eq_some_iff.mp hstep
    obtain rfl : answer = .refused := hanswer
    rw [hnext, hrefused _ _ hnext]
  · refine (run_placed "u" sampleText _).2.mpr ⟨_, _, [], _, s, rfl, hrun, ?_⟩
    rw [hat]
    decide

end PageCompiler
