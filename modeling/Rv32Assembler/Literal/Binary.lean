/-!
# Binary floating point

A positive rational is rounded to the nearest number of a binary format, a tie going to the even
neighbour. Numbers are the bit patterns of the format; all arithmetic is on natural numbers.
-/

namespace Rv32Assembler

/-- A binary interchange format: the digits of its significand and the exponent of its least
positive number. -/
structure BinaryFormat where
  precision : Nat
  minExponent : Int
  /-- The pattern of positive infinity. -/
  infinity : Nat
  deriving DecidableEq, Repr

namespace BinaryFormat

def single : BinaryFormat := ⟨24, -149, 0x7f800000⟩

def double : BinaryFormat := ⟨53, -1074, 0x7ff0000000000000⟩

/-- The quotient rounded to the nearest integer, a half to the even neighbour. -/
def divideNearest (num den : Nat) : Nat :=
  let q := num / den
  let r := num % den
  if den < 2 * r || (2 * r == den && q % 2 == 1) then q + 1 else q

/-- The numerator and denominator of `num / den` divided by two to the `e`. -/
def unscale (num den : Nat) (e : Int) : Nat × Nat :=
  if e < 0 then (num <<< e.natAbs, den) else (num, den <<< e.natAbs)

/-- The greatest power of two not above `num / den`, both positive. -/
def floorLog (num den : Nat) : Int :=
  let guess : Int := num.log2 - den.log2
  let (n, d) := unscale num den guess
  if d ≤ n then guess else guess - 1

/-- The pattern of the number nearest to `num / den`; at or above the pattern of infinity when the
value is out of range. Patterns of consecutive numbers are consecutive, so that a significand that
rounds up to the next power of two carries into the exponent by itself. -/
def nearest (f : BinaryFormat) (num den : Nat) : Nat :=
  if num == 0 then 0
  else
    let e := max f.minExponent (floorLog num den - (f.precision - 1))
    let (n, d) := unscale num den e
    ((e - f.minExponent).toNat <<< (f.precision - 1)) + divideNearest n d

end BinaryFormat

/-- The bits of a double-precision number. -/
abbrev Binary64 := BitVec 64

namespace Binary64

def ofParts (negative : Bool) (magnitude : Nat) : Binary64 :=
  BitVec.ofBool negative ++ BitVec.ofNat 63 magnitude

def isNegative (x : Binary64) : Bool := x.msb

def magnitude (x : Binary64) : Nat := (x.extractLsb' 0 63).toNat

def infinity : Binary64 := ofParts false BinaryFormat.double.infinity

def nan : Binary64 := 0x7ff8000000000001

def isInfinite (x : Binary64) : Bool := x.magnitude == BinaryFormat.double.infinity

def isNaN (x : Binary64) : Bool := BinaryFormat.double.infinity < x.magnitude

def negate (x : Binary64) : Binary64 := ofParts (!x.isNegative) x.magnitude

def ofInt (n : Int) : Binary64 := ofParts (n < 0) (BinaryFormat.double.nearest n.natAbs 1)

/-- The significand and the exponent of a finite pattern: its value is the first times two to the
second. -/
def decode (magnitude : Nat) : Nat × Int :=
  let field : Nat := magnitude >>> 52
  if field == 0 then (magnitude, BinaryFormat.double.minExponent)
  else ((1 <<< 52) + magnitude % (1 <<< 52), BinaryFormat.double.minExponent + (field - 1))

/-- The single-precision pattern nearest to a number. -/
def toSingle (x : Binary64) : BitVec 32 :=
  let pattern :=
    if x.isInfinite then BinaryFormat.single.infinity
    else
      let (m, e) := decode x.magnitude
      let (num, den) := BinaryFormat.unscale m 1 (-e)
      BinaryFormat.single.nearest num den
  BitVec.ofBool x.isNegative ++ BitVec.ofNat 31 pattern

/-- The pattern of the greatest single-precision number as a double. -/
def maxSingle : Nat := 0x47efffffe0000000

/-- Finite and beyond the range of single precision. -/
def exceedsSingle (x : Binary64) : Bool := !x.isInfinite && maxSingle < x.magnitude

end Binary64

end Rv32Assembler
