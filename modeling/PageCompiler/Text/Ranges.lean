namespace PageCompiler.Text

-- Both ends of an interval belong to it.
abbrev Intervals := List (Nat × Nat)

-- Whether some interval of the list holds the character.
def Intervals.has (table : Intervals) (c : Char) : Bool :=
  table.any fun range => range.1 ≤ c.toNat && c.toNat ≤ range.2

-- An interval never ends before it starts, and the next one starts beyond its end.
def Intervals.sorted : Intervals → Bool
  | [] => true
  | [(lo, hi)] => lo ≤ hi
  | (lo, hi) :: (lo', hi') :: rest => lo ≤ hi && hi < lo' && sorted ((lo', hi') :: rest)

end PageCompiler.Text
