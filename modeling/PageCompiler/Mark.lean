import PageCompiler.Text.Size

-- Lines and columns count from one, columns in characters; the offset counts bytes from zero.
namespace PageCompiler

structure Mark where
  unit : String
  line : Nat
  column : Nat
  offset : Nat
  deriving DecidableEq, Repr, Inhabited

namespace Mark

def start (unit : String) : Mark := ⟨unit, 1, 1, 0⟩

-- The place behind one character.
def next (m : Mark) (c : Char) : Mark :=
  if c = '\n' then { m with line := m.line + 1, column := 1, offset := m.offset + c.utf8Size }
  else { m with column := m.column + 1, offset := m.offset + c.utf8Size }

-- The place behind a text that starts here.
def advance (m : Mark) (s : List Char) : Mark := s.foldl next m

@[simp] theorem advance_nil (m : Mark) : m.advance [] = m := rfl

theorem advance_append (m : Mark) (a b : List Char) :
    m.advance (a ++ b) = (m.advance a).advance b := by
  simp [advance]

theorem next_offset (m : Mark) (c : Char) : (m.next c).offset = m.offset + c.utf8Size := by
  unfold next; split <;> rfl

theorem next_unit (m : Mark) (c : Char) : (m.next c).unit = m.unit := by
  unfold next; split <;> rfl

theorem advance_offset (m : Mark) (s : List Char) :
    (m.advance s).offset = m.offset + Text.byteSize s := by
  induction s generalizing m with
  | nil => rfl
  | cons c s ih =>
    have h := ih (m.next c)
    simp only [advance, List.foldl_cons] at h ⊢
    rw [h, next_offset, Text.byteSize_cons, Nat.add_assoc]

def display (m : Mark) : String :=
  m.unit ++ "(" ++ toString m.line ++ "," ++ toString m.column ++ ")"

-- Walks to the byte `goal`: `lineStart` is the offset at which the current line starts. A goal
-- inside a character has its column counted in bytes.
def seek (unit : String) (goal : Nat) :
    List Char → (line column lineStart offset : Nat) → Mark
  | [], line, column, _, offset => ⟨unit, line, column, offset⟩
  | c :: cs, line, column, lineStart, offset =>
    if goal ≤ offset then ⟨unit, line, column, offset⟩
    else if goal < offset + c.utf8Size then ⟨unit, line, goal - lineStart + 1, goal⟩
    else if c = '\n' then seek unit goal cs (line + 1) 1 (offset + c.utf8Size) (offset + c.utf8Size)
    else seek unit goal cs line (column + 1) lineStart (offset + c.utf8Size)

-- The place of a byte of a unit's text; a byte beyond the end means the end.
def ofOffset (unit : String) (text : List Char) (goal : Nat) : Mark :=
  seek unit goal text 1 1 0 0

end Mark
end PageCompiler
