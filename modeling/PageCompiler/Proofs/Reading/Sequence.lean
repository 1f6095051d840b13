import PageCompiler.Reading.Builder

namespace PageCompiler

open Text

@[simp] theorem Mark.advance_unit (m : Mark) (s : List Char) : (m.advance s).unit = m.unit := by
  induction s generalizing m with
  | nil => rfl
  | cons c s ih =>
    rw [show m.advance (c :: s) = (m.next c).advance s from rfl, ih, next_unit]

@[simp] theorem Text.countNewlines_append (s t : List Char) :
    countNewlines (s ++ t) = countNewlines s + countNewlines t := List.countP_append

theorem Mark.advance_line (m : Mark) (s : List Char) :
    (m.advance s).line = m.line + countNewlines s := by
  induction s generalizing m with
  | nil => rfl
  | cons c s ih =>
    rw [show m.advance (c :: s) = (m.next c).advance s from rfl, ih, next, countNewlines,
      countNewlines, List.countP_cons]
    by_cases hc : c = '\n'
    · simp [hc]
      omega
    · simp [hc]

theorem Text.utf8ByteSize_ofList (s : List Char) : (String.ofList s).utf8ByteSize = byteSize s := by
  induction s with
  | nil => rfl
  | cons c s ih =>
    rw [String.ofList_cons, String.utf8ByteSize_append, ih]
    simp

-- The bytes of the front of a text are those of the front.
theorem Text.takeBytes_append (front behind : List Char) :
    takeBytes (byteSize front) (front ++ behind) = front := by
  induction front with
  | nil => cases behind <;> rfl
  | cons c front ih =>
    have hpos := c.utf8Size_pos
    have hsize : byteSize (c :: front) = c.utf8Size - 1 + byteSize front + 1 := by
      rw [byteSize_cons]
      omega
    have hrest : c.utf8Size - 1 + byteSize front + 1 - c.utf8Size = byteSize front := by omega
    rw [takeBytes, hsize, List.cons_append, splitBytes, hrest]
    simpa only [takeBytes] using congrArg (List.cons c) ih

@[simp] theorem Tree.fault_fault (t : Tree) (phase : String) (fault : Fault) (mark : Mark) :
    (t.fault phase fault mark).fault = fault := by
  rw [Tree.fault, Diagnostic.place]
  split <;> rfl

namespace BuildM

variable {α β : Type} {b b' : Builder}

theorem bind_eq_ok {m : BuildM α} {f : α → BuildM β} {c : β} :
    (m >>= f) b = .ok c b' ↔ ∃ a s, m b = .ok a s ∧ f a s = .ok c b' := by
  simp only [Bind.bind, EStateM.bind]
  constructor
  · intro h
    split at h
    · exact ⟨_, _, ‹_›, h⟩
    · cases h
  · rintro ⟨a, s, hm, hf⟩
    simp only [hm, hf]

theorem map_eq_ok {m : BuildM α} {f : α → β} {c : β} :
    (f <$> m) b = .ok c b' ↔ ∃ a, m b = .ok a b' ∧ f a = c := by
  rw [map_eq_pure_bind, bind_eq_ok]
  constructor
  · rintro ⟨a, _, hm, ⟨⟩⟩
    exact ⟨a, hm, rfl⟩
  · rintro ⟨a, hm, rfl⟩
    exact ⟨a, b', hm, rfl⟩

theorem discard_eq_ok {m : BuildM α} {u : PUnit} (h : Functor.discard m b = .ok u b') :
    ∃ a, m b = .ok a b' := by
  obtain ⟨a, s, hm, h⟩ := bind_eq_ok.mp h
  cases h
  exact ⟨a, hm⟩

end BuildM

namespace Builder

variable {b b' : Builder} {parent : Nat}

theorem fail_ne_ok {α : Type} {fault : Fault} {mark : Mark} {a : α} :
    (fail fault mark : BuildM α) b ≠ .ok a b' := by
  intro h
  obtain ⟨_, _, _, h⟩ := BuildM.bind_eq_ok.mp h
  cases h

-- A failure tells its fault.
theorem fail_eq_error {α : Type} {fault : Fault} {mark : Mark} {d : Diagnostic}
    (h : (fail fault mark : BuildM α) b = .error d b') : d.fault = fault := by
  have hd : b.tree.fault "parse" fault mark = d := by
    cases h
    rfl
  rw [← hd, Tree.fault_fault]

theorem placeError_eq_ok {α : Type} {mark : Mark} {r : Except Diagnostic α} {a : α}
    (h : placeError mark r b = .ok a b') : r = .ok a ∧ b' = b := by
  cases r with
  | ok v =>
    cases h
    exact ⟨rfl, rfl⟩
  | error d =>
    cases hm : d.mark with
    | some m =>
      rw [placeError, placed, hm] at h
      cases h
    | none =>
      rw [placeError, placed, hm] at h
      obtain ⟨_, _, _, h⟩ := BuildM.bind_eq_ok.mp h
      cases h

theorem resolve_eq_ok {ref : LibraryRef} {mark : Mark} {found : Option Library}
    (h : resolve ref mark b = .ok found b') :
    (b.resolver.resolve ref).1 = .ok found ∧
      b' = { b with resolver := (b.resolver.resolve ref).2 } := by
  obtain ⟨r, b₁, hask, h⟩ := BuildM.bind_eq_ok.mp h
  cases hask
  exact placeError_eq_ok h

theorem append_eq_ok {id : Nat} {n : Node} (h : append parent n b = .ok id b') :
    id = b.tree.size ∧ b' = { b with tree := (b.tree.append parent n).2 } := by
  cases h
  exact ⟨rfl, rfl⟩

-- Nodes put under one parent, one after the other.
def appendAll (t : Tree) (parent : NodeId) (nodes : List Node) : Tree :=
  nodes.foldl (fun t n => (t.append parent n).2) t

theorem forIn_append (nodes : List Node) (b : Builder) :
    (forIn nodes PUnit.unit fun n _ => do
      discard (append parent n)
      pure (ForInStep.yield PUnit.unit) : BuildM PUnit) b =
      .ok PUnit.unit { b with tree := appendAll b.tree parent nodes } := by
  induction nodes generalizing b with
  | nil => rfl
  | cons n nodes ih =>
    rw [List.forIn_cons]
    exact ih { b with tree := (b.tree.append parent n).2 }

-- Adding text fails only where the text is no value.
theorem addText_eq (parent : NodeId) (text : List Char) (mark : Mark) (b : Builder) :
    addText parent text mark b =
      match Composite.parse b.scan text with
      | .error e =>
        (fail (.invalidExpression e.expression e.reason.text)
          (mark.advance (takeBytes e.offset text)) : BuildM Unit) b
      | .ok composite =>
        .ok () { b with
          tree := appendAll b.tree parent (partNodes mark text 0 composite.parts) } := by
  unfold addText
  split
  · rename_i hempty
    obtain rfl : text = [] := List.isEmpty_iff.mp hempty
    rw [Composite.parse, Composite.scan]
    rfl
  · show (match Composite.parse b.scan text with
      | .error e => _
      | .ok composite => _ : BuildM Unit) b = _
    cases Composite.parse b.scan text with
    | error e => rfl
    | ok composite => exact BuildM.bind_eq_ok.mpr ⟨_, _, forIn_append _ b, rfl⟩

end Builder
end PageCompiler
