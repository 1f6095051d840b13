import PageCompiler.Text.Utf8

namespace PageCompiler.Text.Utf16

open Utf8 (Bytes byte charOf?)

inductive ByteOrder where
  | big
  | little
  deriving DecidableEq, Repr

inductive Malformed where
  | oddLength
  | loneSurrogate
  deriving DecidableEq, Repr

def Malformed.text : Malformed → String
  | oddLength => "odd number of bytes"
  | loneSurrogate => "invalid utf-16: lone surrogate found"

def unitsOf (c : Char) : List Nat :=
  let n := c.toNat
  if n < 0x10000 then [n] else [0xD800 + (n - 0x10000) / 0x400, 0xDC00 + (n - 0x10000) % 0x400]

def unitBytes (order : ByteOrder) (u : Nat) : Bytes :=
  match order with
  | .big => [byte (u / 256), byte (u % 256)]
  | .little => [byte (u % 256), byte (u / 256)]

def encode (order : ByteOrder) (s : List Char) : Bytes :=
  s.flatMap fun c => (unitsOf c).flatMap (unitBytes order)

def unitOf (order : ByteOrder) (a b : UInt8) : Nat :=
  match order with
  | .big => a.toNat * 256 + b.toNat
  | .little => b.toNat * 256 + a.toNat

-- The units of the bytes; nothing when a byte is left over.
def units? (order : ByteOrder) : Bytes → Option (List Nat)
  | [] => some []
  | [_] => none
  | a :: b :: rest => (units? order rest).map (unitOf order a b :: ·)

def isHigh (u : Nat) : Bool := 0xD800 ≤ u && u < 0xDC00

def isLow (u : Nat) : Bool := 0xDC00 ≤ u && u < 0xE000

-- The characters of the units; surrogates come in pairs, the high one first.
def decodeUnits? : List Nat → Option (List Char)
  | [] => some []
  | u :: us =>
    if isHigh u then
      match us with
      | v :: rest =>
        if isLow v then do
          let c ← charOf? 0 (0x10000 + (u - 0xD800) * 0x400 + (v - 0xDC00))
          return c :: (← decodeUnits? rest)
        else none
      | [] => none
    else do
      let c ← charOf? 0 u
      return c :: (← decodeUnits? us)

def decode (order : ByteOrder) (bs : Bytes) : Except Malformed (List Char) :=
  match units? order bs with
  | none => .error .oddLength
  | some us =>
    match decodeUnits? us with
    | none => .error .loneSurrogate
    | some s => .ok s

end PageCompiler.Text.Utf16
