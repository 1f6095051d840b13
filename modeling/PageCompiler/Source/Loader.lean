import PageCompiler.Diagnostic
import PageCompiler.Site.FileSystem
import PageCompiler.Text.Cut

namespace PageCompiler.UnitName

open Text

-- Takes the segments of a path up one after the other. The kept ones are held in reverse.
def keep (kept : List (List Char)) (segment : List Char) : List (List Char) :=
  if segment = [] || segment = ['.'] then kept
  else if segment = ['.', '.'] then kept.tail
  else segment :: kept

-- The segments that are left when empty ones and dots are dropped and two dots take back the
-- segment in front of them.
def segments (name : List Char) : List (List Char) :=
  ((splitAll '/' name).foldl keep []).reverse

def ofSegments (parts : List (List Char)) : List Char :=
  '/' :: List.intercalate ['/'] parts

def normalizeChars (name : List Char) : List Char := ofSegments (segments name)

def normalize (name : String) : String := String.ofList (normalizeChars name.toList)

-- The directory part of a name, without its last slash.
def directory (name : List Char) : List Char := ((splitLast? '/' name).map Prod.fst).getD []

-- The name that `target` stands for in the unit `base`.
def resolve (base target : String) : String :=
  match target.toList with
  | '/' :: rest => normalize (String.ofList ('/' :: rest))
  | rest => normalize (String.ofList (directory base.toList ++ '/' :: rest))

end PageCompiler.UnitName

namespace PageCompiler

open Text
open Text.Utf8 (Bytes)

inductive Loader where
  | memory (units : List (String × Bytes))
  | directory (root : String) (files : FileSystem)
  deriving Repr

namespace Loader

-- Units in memory under their normalized names. Of two with one name the later counts.
def ofUnits (units : List (String × Bytes)) : Loader :=
  .memory (units.reverse.map fun (name, content) => (UnitName.normalize name, content))

def pathOf (root name : String) : String :=
  Path.join root (dropLeading '/' (UnitName.normalize name))

def load : Loader → String → Except Diagnostic Bytes
  | memory units, name =>
    match units.lookup (UnitName.normalize name) with
    | some content => .ok content
    | none => .error (.unplaced "parse" (.unreadable name "no such unit"))
  | directory root files, name =>
    match files.read (pathOf root name) with
    | .ok content => .ok content
    | .error e => .error (.unplaced "parse" (.unreadable (pathOf root name) e.message))

-- The file behind a unit.
def locate? : Loader → String → Option String
  | memory _, _ => none
  | directory root _, name => some (pathOf root name)

-- No more units than this can be loaded.
def capacity : Loader → Nat
  | memory units => units.length
  | directory _ files => files.files.length

end Loader
end PageCompiler
