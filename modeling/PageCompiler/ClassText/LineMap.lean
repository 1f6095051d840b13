import PageCompiler.Data.Json
import PageCompiler.Text.Cut

namespace PageCompiler

open Text

-- A line of a unit, and the first and the last of the lines that were generated for it. They are
-- numbers of lines of texts that are held in memory: 64 bits count far more of them, so that sums
-- of such numbers are taken as they are.
structure LineEntry where
  unit : String
  source : Nat
  first : Nat
  last : Nat
  deriving DecidableEq, Repr, Inhabited

namespace LineEntry

def shift (offset : Nat) (e : LineEntry) : LineEntry :=
  { e with first := e.first + offset, last := e.last + offset }

def covers (e : LineEntry) (line : Nat) : Bool := e.first ≤ line && line ≤ e.last

-- How many lines there are besides the first.
def span (e : LineEntry) : Nat := e.last - e.first

end LineEntry

structure LineMap where
  entries : List LineEntry := []
  deriving DecidableEq, Repr, Inhabited

namespace LineMap

-- A range that ends before it starts is left out.
def add (m : LineMap) (e : LineEntry) : LineMap :=
  if e.last < e.first then m else ⟨m.entries ++ [e]⟩

-- Adds the entries of a map whose first line is moved down by the given number of lines.
def appendShifted (m other : LineMap) (offset : Nat) : LineMap :=
  ⟨m.entries ++ other.entries.map (LineEntry.shift offset)⟩

def size (m : LineMap) : Nat := m.entries.length

def isEmpty (m : LineMap) : Bool := m.entries.isEmpty

-- Of two entries the one with the smaller range; the first of two with ranges of one size.
def narrower (best : Option LineEntry) (e : LineEntry) : Option LineEntry :=
  match best with
  | some b => if e.span < b.span then some e else some b
  | none => some e

-- The source line of a generated line, by the narrowest entry that covers it.
def lookup (m : LineMap) (line : Nat) : Option (String × Nat) :=
  ((m.entries.filter fun e => e.covers line).foldl narrower none).map fun e => (e.unit, e.source)

-- The units in the order in which they are first mentioned.
def units (m : LineMap) : List String := (m.entries.map LineEntry.unit).eraseDups

def fileName (unit : String) : String := (split '/' unit).getLast?.getD unit

def fileLines (units : List String) : List String :=
  (List.range units.length).zip units |>.map fun (number, unit) =>
    "+ " ++ toString number ++ " " ++ fileName unit ++ "\n" ++ dropLeading '/' unit ++ "\n"

def entryOrder (a b : LineEntry) : Bool :=
  a.first < b.first || (a.first == b.first && a.last ≤ b.last)

-- A line per entry. The number of the file is written when it is not that of the entry before, and
-- the number of lines when it is not one.
def entryLines (units : List String) : Option Nat → List LineEntry → List String
  | _, [] => []
  | before, e :: rest =>
    let file := units.idxOf e.unit
    let mark := if before = some file then "" else "#" ++ toString file
    let count := if e.span = 0 then "" else "," ++ toString (e.span + 1)
    (toString e.source ++ mark ++ ":" ++ toString e.first ++ count ++ "\n") ::
      entryLines units (some file) rest

def sorted (m : LineMap) : List LineEntry := m.entries.mergeSort entryOrder

def smap (m : LineMap) (file stratum : String) : String :=
  "SMAP\n" ++ file ++ "\n" ++ stratum ++ "\n*S " ++ stratum ++ "\n*F\n" ++
    String.join (fileLines m.units) ++ "*L\n" ++
    String.join (entryLines m.units none m.sorted) ++ "*E\n"

def entryFields (e : LineEntry) : List (String × String) :=
  [("unit", Data.Json.quote e.unit), ("source_line", toString e.source),
    ("generated_start", toString e.first), ("generated_end", toString e.last)]

-- Indented by two blanks a level.
def json (m : LineMap) : String :=
  let entry (e : LineEntry) :=
    "    \x7b\n" ++
      join ",\n" ((entryFields e).map fun (key, value) => "      \"" ++ key ++ "\": " ++ value) ++
      "\n    \x7d"
  let entries :=
    if m.isEmpty then "[]" else "[\n" ++ join ",\n" (m.entries.map entry) ++ "\n  ]"
  "\x7b\n  \"entries\": " ++ entries ++ "\n\x7d"

end LineMap
end PageCompiler
