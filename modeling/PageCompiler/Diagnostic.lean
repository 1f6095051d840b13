import PageCompiler.Fault

namespace PageCompiler

-- The decoded texts of the units of a page, by unit name.
abbrev Sources := List (String × String)

namespace Sources

def find? (sources : Sources) (unit : String) : Option String := sources.lookup unit

-- A unit read a second time replaces its text.
def insert (sources : Sources) (unit text : String) : Sources :=
  (unit, text) :: sources.filter fun entry => entry.1 != unit

end Sources

structure Diagnostic where
  fault : Fault
  phase : String
  mark : Option Mark
  -- Offset and length of the text the fault points at.
  span : Nat × Nat
  -- Whether the text of the marked unit is at hand.
  sourced : Bool
  help : Option String
  deriving DecidableEq, Repr

namespace Diagnostic

-- A fault that belongs to no unit.
def unplaced (phase : String) (fault : Fault) : Diagnostic :=
  { fault, phase, mark := none, span := (0, 0), sourced := false, help := none }

-- A fault at a mark points at one byte, or at none when the mark is at the end of its unit or
-- the unit's text is not at hand.
def place (sources : Sources) (phase : String) (fault : Fault) (mark : Mark) : Diagnostic :=
  match sources.find? mark.unit with
  | some text =>
    { fault, phase, mark := some mark
      span := (mark.offset, if mark.offset < text.utf8ByteSize then 1 else 0)
      sourced := true, help := none }
  | none =>
    { fault, phase, mark := some mark, span := (mark.offset, 0), sourced := false, help := none }

def withHelp (d : Diagnostic) (help : String) : Diagnostic := { d with help := some help }

-- A fault of the compiler itself.
def internal (sources : Sources) (phase message : String) (mark : Mark) : Diagnostic :=
  (place sources phase (.malformedConstruct ("INTERNAL ERROR: " ++ message)) mark).withHelp
    "This is an internal compiler error. Please report this as a bug."

def code (d : Diagnostic) : String := "pagec::" ++ d.phase ++ "::" ++ d.fault.code

def label (d : Diagnostic) : Option String :=
  if d.sourced then some d.fault.category.label else none

def message (d : Diagnostic) : String :=
  match d.mark with
  | some mark => mark.display ++ ": " ++ d.fault.message
  | none => d.fault.message

end Diagnostic
end PageCompiler
