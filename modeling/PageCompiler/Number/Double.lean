-- A double is given by its 64 bits; all numerals here are without sign.
namespace PageCompiler.Number

-- The quotient rounded to the nearest whole number, a half to the even neighbour.
def roundDiv (num den : Nat) : Nat :=
  let q := num / den
  let r := num % den
  if 2 * r < den then q
  else if den < 2 * r then q + 1
  else if q % 2 = 0 then q else q + 1

-- The bits of infinity.
def infinityBits : Nat := 0x7FF0000000000000

-- The power of two by which num / den has to be divided so that the quotient has 53 bits, but
-- never below the least one, at which numbers lose bits instead.
def scaleOf (num den : Nat) : Int :=
  let guess : Int := (Nat.log2 num : Int) - (Nat.log2 den : Int) - 52
  let fits : Bool :=
    if guess < 0 then num * Nat.pow 2 (-guess).toNat ≥ den * Nat.pow 2 52
    else num ≥ den * Nat.pow 2 (guess.toNat + 52)
  max (if fits then guess else guess - 1) (-1074)

-- The double nearest to num / den. The carry of a rounding moves into the exponent by itself.
def nearestBits (num den : Nat) : Nat :=
  if num = 0 then 0
  else
    let scale := scaleOf num den
    let mantissa :=
      if scale < 0 then roundDiv (num * Nat.pow 2 (-scale).toNat) den
      else roundDiv num (den * Nat.pow 2 scale.toNat)
    min ((scale + 1074).toNat * Nat.pow 2 52 + mantissa) infinityBits

-- The double nearest to digits · 10 ^ exponent. Far outside the range of doubles the answer is
-- known from the number of digits alone.
def ofDecimal (digits : Nat) (exponent : Int) : UInt64 :=
  if digits = 0 then 0
  else
    let magnitude : Int := (Nat.toDigits 10 digits).length + exponent
    if magnitude > 400 then UInt64.ofNat infinityBits
    else if magnitude < -400 then 0
    else if exponent < 0 then UInt64.ofNat (nearestBits digits (Nat.pow 10 (-exponent).toNat))
    else UInt64.ofNat (nearestBits (digits * Nat.pow 10 exponent.toNat) 1)

def digitValue (c : Char) : Nat := c.toNat - '0'.toNat

def ofDigits (s : List Char) : Nat := s.foldl (fun n c => n * 10 + digitValue c) 0

end PageCompiler.Number
