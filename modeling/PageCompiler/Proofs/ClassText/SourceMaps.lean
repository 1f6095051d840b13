import PageCompiler.ClassText.LineMap
import PageCompiler.Proofs.Text.Separators
import Mathlib.Data.Nat.Basic
import Mathlib.Data.Prod.Lex

namespace PageCompiler.SourceMap

open Text

def IsRow (s : List Char) : Prop := ∀ c ∈ s, c ≠ '\n' ∧ c ≠ '\r'

instance (s : List Char) : Decidable (IsRow s) := List.decidableBAll _ s

theorem IsRow.append {s t : List Char} (hs : IsRow s) (ht : IsRow t) : IsRow (s ++ t) :=
  List.forall_mem_append.mpr ⟨hs, ht⟩

def number? (s : List Char) : Option (Nat × List Char) :=
  if s.takeWhile Char.isDigit = [] then none
  else some (Nat.ofDigitChars 10 (s.takeWhile Char.isDigit) 0, s.dropWhile Char.isDigit)

-- A number that stands behind a mark. Without the mark it is a number that is known.
def numberBehind? (mark : Char) (known : Nat) : List Char → Option (Nat × List Char)
  | [] => some (known, [])
  | c :: s => if c = mark then number? s else some (known, c :: s)

def skip? (mark : Char) : List Char → Option (List Char)
  | [] => none
  | c :: s => if c = mark then some s else none

structure SourceFile where
  number : Nat
  name : String
  path : String
  deriving DecidableEq, Repr

-- A file has a row. Behind a plus sign its path is another row, and else it is the name.
def files? : List (List Char) → Option (List SourceFile × List (List Char))
  | [] => none
  | ('+' :: ' ' :: row) :: path :: rest => do
    let (number, row) ← number? row
    let name ← skip? ' ' row
    let (files, rest) ← files? rest
    return (⟨number, String.ofList name, String.ofList path⟩ :: files, rest)
  | row :: rest =>
    if row = "*L".toList then some ([], rest)
    else do
      let (number, row) ← number? row
      let name ← skip? ' ' row
      let (files, rest) ← files? rest
      return (⟨number, String.ofList name, String.ofList name⟩ :: files, rest)

-- A line of a file, and the first and the last of the lines that it was translated to.
structure Mapping where
  file : Nat
  source : Nat
  first : Nat
  last : Nat
  deriving DecidableEq, Repr

-- Lines that follow each other, each of them translated to as many lines.
structure LineInfo where
  file : Nat
  source : Nat
  count : Nat
  first : Nat
  step : Nat

def LineInfo.mappings (i : LineInfo) : List Mapping :=
  (List.range i.count).map fun n =>
    ⟨i.file, i.source + n, i.first + n * i.step, i.first + (n + 1) * i.step - 1⟩

def lineInfo? (before : Nat) (row : List Char) : Option LineInfo := do
  let (source, row) ← number? row
  let (file, row) ← numberBehind? '#' before row
  let (count, row) ← numberBehind? ',' 1 row
  let row ← skip? ':' row
  let (first, row) ← number? row
  let (step, row) ← numberBehind? ',' 1 row
  if row = [] then some ⟨file, source, count, first, step⟩ else none

def mappings? (before : Nat) : List (List Char) → Option (List Mapping)
  | [] => none
  | row :: rest =>
    if row = "*E".toList then some []
    else do
      let info ← lineInfo? before row
      return info.mappings ++ (← mappings? info.file rest)

-- The file in front of all rows is number zero.
def sections? : List (List Char) → Option (List SourceFile × List Mapping)
  | [] => none
  | row :: rest =>
    if row = "*F".toList then do
      let (files, rest) ← files? rest
      return (files, ← mappings? 0 rest)
    else none

-- What a map says.
structure Reading where
  file : String
  stratum : String
  files : List SourceFile
  mappings : List Mapping
  deriving DecidableEq, Repr

-- A number behind a mark, which is left out where it is known.
def behind (mark : Char) (known : Bool) (n : Nat) : List Char :=
  if known then [] else mark :: (toString n).toList

-- The lines that were generated for an entry, by the first of them and then by the last.
def range (e : LineEntry) : ℕ ×ₗ ℕ := toLex (e.first, e.last)

inductive Built : LineMap → Prop where
  | empty : Built {}
  | add {m : LineMap} (h : Built m) (e : LineEntry) : Built (m.add e)
  | appendShifted {m other : LineMap} (h : Built m) (hother : Built other) (offset : Nat) :
    Built (m.appendShifted other offset)

end PageCompiler.SourceMap
