import PageCompiler.Mark
import PageCompiler.Text.Slice
import PageCompiler.Text.Utf8

-- Where the lines of a unit start is noted once, and the line of a byte is then found by halving.
namespace PageCompiler

open Text

structure LineIndex where
  unit : String
  text : List Char
  starts : Array Nat
  deriving DecidableEq, Repr

namespace LineIndex

-- The bytes behind the line feeds.
def behindFeeds : Nat → Utf8.Bytes → List Nat
  | _, [] => []
  | place, b :: bs =>
    if b = 0x0A then (place + 1) :: behindFeeds (place + 1) bs else behindFeeds (place + 1) bs

def ofText (unit : String) (text : List Char) : LineIndex :=
  ⟨unit, text, (0 :: behindFeeds 0 (Utf8.encode text)).toArray⟩

-- Where the goal stands from `low` up to `high`, or as an error where it would have to be put in.
def search (starts : Array Nat) (goal low high : Nat) : Except Nat Nat :=
  if low < high then
    let middle := low + (high - low) / 2
    let start := starts.getD middle 0
    if start = goal then .ok middle
    else if start < goal then search starts goal (middle + 1) high
    else search starts goal low middle
  else .error low
termination_by high - low

-- The line of a byte, counted from zero. There is none in front of the first start.
def line? (starts : Array Nat) (goal : Nat) : Option Nat :=
  match search starts goal 0 starts.size with
  | .ok exact => some exact
  | .error 0 => none
  | .error (next + 1) => some next

-- The place of a byte; one beyond the end means the end. The column of a byte inside a character is
-- counted in bytes.
def markAt? (x : LineIndex) (goal : Nat) : Option Mark := do
  let offset := min goal (byteSize x.text)
  let line ← line? x.starts offset
  let start ← x.starts[line]?
  let width := ((slice? start offset x.text).map List.length).getD (offset - start)
  if start ≤ offset then some ⟨x.unit, line + 1, width + 1, offset⟩ else none

end LineIndex
end PageCompiler
