import PageCompiler.Proofs.Expression.Tiling
import PageCompiler.Proofs.Reading.Sequence

-- Some characters are not written as they are read, and between others stands something that is no
-- text. A place that is found by counting what has been read falls short of the true one by all of
-- that: the place of an expression is the true one exactly if everything in front of it in its run
-- is written as it is read.
namespace PageCompiler

open Text

namespace Mark

variable {unit : String}

theorem seek_append (front behind : List Char) (line column lineStart offset : Nat) :
    seek unit (offset + byteSize front) (front ++ behind) line column lineStart offset =
      (⟨unit, line, column, offset⟩ : Mark).advance front := by
  induction front generalizing line column lineStart offset with
  | nil =>
    cases behind with
    | nil => rfl
    | cons c behind => simp [seek]
  | cons c front ih =>
    have hpos := c.utf8Size_pos
    rw [List.cons_append, seek, byteSize_cons, if_neg (by omega), if_neg (by omega),
      ← Nat.add_assoc, advance, List.foldl_cons, next]
    split
    · exact ih ..
    · exact ih ..

-- The place behind the front of a text.
theorem ofOffset_append (front behind : List Char) :
    ofOffset unit (front ++ behind) (byteSize front) = (start unit).advance front := by
  rw [ofOffset, start, ← seek_append front behind 1 1 0 0, Nat.zero_add]

theorem unit_seek (unit : String) (goal : Nat) (text : List Char)
    (line column lineStart offset : Nat) :
    (seek unit goal text line column lineStart offset).unit = unit := by
  induction text generalizing line column lineStart offset with
  | nil => rfl
  | cons c text ih =>
    unfold seek
    split
    · rfl
    · split
      · rfl
      · split
        · exact ih ..
        · exact ih ..

theorem unit_ofOffset (unit : String) (text : List Char) (goal : Nat) :
    (ofOffset unit text goal).unit = unit :=
  unit_seek ..

theorem offset_seek {text : List Char} {goal line column lineStart offset : Nat}
    (hstart : offset ≤ goal) (hend : goal ≤ offset + byteSize text) :
    (seek unit goal text line column lineStart offset).offset = goal := by
  induction text generalizing line column lineStart offset with
  | nil =>
    rw [byteSize_nil] at hend
    exact Nat.le_antisymm hstart hend
  | cons c text ih =>
    rw [byteSize_cons] at hend
    rw [seek]
    split
    · exact Nat.le_antisymm hstart ‹_›
    · split
      · rfl
      · split
        · exact ih (by omega) (by omega)
        · exact ih (by omega) (by omega)

theorem offset_ofOffset {text : List Char} {goal : Nat} (h : goal ≤ byteSize text) :
    (ofOffset unit text goal).offset = goal :=
  offset_seek (Nat.zero_le _) (by omega)

end Mark

-- A character that has been read: what was passed over in front of it, and how it is written.
structure Letter where
  gap : List Char := []
  written : List Char
  value : Char

namespace Letter

def source (l : Letter) : List Char := l.gap ++ l.written

-- Nothing but the character itself.
def Literal (l : Letter) : Prop := l.gap = [] ∧ l.written = [l.value]

-- A character takes more space when it is not written as it is.
def Roomy (l : Letter) : Prop := l.written = [l.value] ∨ l.value.utf8Size < byteSize l.written

def plain (c : Char) : Letter := { written := [c], value := c }

theorem literal_plain (c : Char) : (plain c).Literal := ⟨rfl, rfl⟩

theorem Roomy.plain (c : Char) : (plain c).Roomy := .inl rfl

theorem byteSize_eq_zero {s : List Char} (h : byteSize s = 0) : s = [] := by
  cases s with
  | nil => rfl
  | cons c s =>
    have hpos := c.utf8Size_pos
    rw [byteSize_cons] at h
    omega

theorem Literal.source_eq {l : Letter} (h : l.Literal) : l.source = [l.value] := by
  rw [source, h.1, h.2, List.nil_append]

theorem Roomy.size_le {l : Letter} (h : l.Roomy) : l.value.utf8Size ≤ byteSize l.source := by
  rw [source, byteSize_append]
  rcases h with h | h
  · rw [h, byteSize_cons]
    omega
  · omega

theorem Roomy.literal {l : Letter} (h : l.Roomy) (hsize : byteSize l.source ≤ l.value.utf8Size) :
    l.Literal := by
  rw [source, byteSize_append] at hsize
  rcases h with h | h
  · rw [h, byteSize_cons, byteSize_nil] at hsize
    exact ⟨byteSize_eq_zero (by omega), h⟩
  · omega

end Letter

abbrev Letters := List Letter

namespace Letters

variable {ls : Letters}

def source (ls : Letters) : List Char := ls.flatMap Letter.source

def values (ls : Letters) : List Char := ls.map Letter.value

def plain (s : List Char) : Letters := s.map Letter.plain

@[simp] theorem source_append (ls ls' : Letters) : source (ls ++ ls') = source ls ++ source ls' :=
  List.flatMap_append

@[simp] theorem values_append (ls ls' : Letters) : values (ls ++ ls') = values ls ++ values ls' :=
  List.map_append

@[simp] theorem source_plain (s : List Char) : source (plain s) = s := by
  induction s with
  | nil => rfl
  | cons c s ih => exact congrArg (c :: ·) ih

@[simp] theorem values_plain (s : List Char) : values (plain s) = s := by
  simp [values, plain, Letter.plain, Function.comp_def]

theorem size_values_le (h : ∀ l ∈ ls, l.Roomy) : byteSize (values ls) ≤ byteSize (source ls) := by
  induction ls with
  | nil => exact Nat.le_refl _
  | cons l ls ih =>
    obtain ⟨hl, hls⟩ := List.forall_mem_cons.mp h
    have hrest := ih hls
    have hsize := hl.size_le
    rw [source, List.flatMap_cons, byteSize_append, ← source, values, List.map_cons, byteSize_cons,
      ← values]
    omega

-- What was passed over in front of the first letter.
def gap (ls : Letters) : List Char := (ls.head?.map Letter.gap).getD []

-- The letters from the first one on.
def tidy : Letters → Letters
  | [] => []
  | l :: ls => { l with gap := [] } :: ls

@[simp] theorem values_tidy (ls : Letters) : values (tidy ls) = values ls := by
  cases ls <;> rfl

theorem source_eq_gap_append (ls : Letters) : source ls = gap ls ++ source (tidy ls) := by
  cases ls with
  | nil => rfl
  | cons l ls => exact List.append_assoc ..

theorem roomy_tidy (h : ∀ l ∈ ls, l.Roomy) : ∀ l ∈ tidy ls, l.Roomy := by
  cases ls with
  | nil => exact h
  | cons l ls =>
    obtain ⟨hl, hls⟩ := List.forall_mem_cons.mp h
    exact List.forall_mem_cons.mpr ⟨hl, hls⟩

end Letters

-- The text of a unit around an expression.
structure Sighting where
  -- Passed over at the start of the unit without being counted.
  skipped : List Char
  -- Counted in front of the run of text in which the expression stands.
  front : List Char
  -- The run up to the expression, and the expression.
  before : Letters
  spelled : Letters
  behind : List Char
  roomy : ∀ l ∈ before, l.Roomy

namespace Sighting

variable {s : Sighting} {unit : String}

def text (s : Sighting) : List Char :=
  s.skipped ++ s.front ++ s.before.source ++ s.spelled.source ++ s.behind

-- What stands between the run in front and the sign of the expression.
def gap (s : Sighting) : List Char := s.spelled.gap

-- The byte at which the expression begins.
def place (s : Sighting) : Nat := byteSize (s.skipped ++ s.front ++ s.before.source ++ s.gap)

end Sighting

-- A run of text behind what is counted in front of it, with what follows it in the unit.
def RunAt (text skipped front : List Char) (mark : Mark) (ls : Letters) (rest : List Char) : Prop :=
  text = skipped ++ front ++ ls.source ++ rest ∧ mark = Mark.ofOffset mark.unit text (byteSize front)

end PageCompiler
