import TypedRecords.Number.Rounding

/-!
# Binary floating-point numbers

The 64-bit format of IEEE 754, held by its bits, so that signed zeros and every payload of a NaN
stay apart. A finite number has the magnitude `numerator / denominator`.
-/

namespace TypedRecords

open Number (roundHalfEven binaryExponent)

/-- A double-precision number, given by its bits. -/
structure Double where
  bits : BitVec 64
  deriving DecidableEq, Repr

namespace Double

-- Powers are the core ones here, whatever algebra is imported.
attribute [local instance (2000)] instPowNat

/-- Whether the sign bit is set. -/
def isNegative (x : Double) : Bool := x.bits.msb

/-- The eleven bits of the biased exponent. -/
def exponentField (x : Double) : Nat := x.bits.toNat / 2 ^ (52 : Nat) % 2 ^ (11 : Nat)

/-- The fifty-two bits of the fraction. -/
def fractionField (x : Double) : Nat := x.bits.toNat % 2 ^ (52 : Nat)

/-- Whether the bits stand for no number. -/
def isNaN (x : Double) : Bool := x.exponentField == 2047 && x.fractionField != 0

/-- Whether the bits stand for a number that is not infinite. -/
def isFinite (x : Double) : Bool := x.exponentField != 2047

/-- Whether the number is one of the two zeros. -/
def isZero (x : Double) : Bool := x.exponentField == 0 && x.fractionField == 0

/-- The integer significand of a finite number. -/
def significand (x : Double) : Nat :=
  if x.exponentField = 0 then x.fractionField else 2 ^ (52 : Nat) + x.fractionField

/-- The power of two that the significand of a finite number is multiplied by. -/
def scale (x : Double) : Int := (max x.exponentField 1 : Nat) - 1075

/-- The numerator of a finite number's magnitude. -/
def numerator (x : Double) : Nat := x.significand * 2 ^ x.scale.toNat

/-- The denominator of a finite number's magnitude. -/
def denominator (x : Double) : Nat := 2 ^ (-x.scale).toNat

/-- Positive zero. -/
def zero : Double := ⟨0⟩

/-- Numeric equality: no NaN equals anything, and the two zeros are equal. -/
def equals (x y : Double) : Bool :=
  !x.isNaN && !y.isNaN && (x.bits == y.bits || (x.isZero && y.isZero))

/-- The bits of the non-negative number nearest to `num / den`, of two equally near the one with
even significand. Values beyond the largest finite number become infinite. -/
def magnitudeBits (num den : Nat) : Nat :=
  if num = 0 then 0
  else
    let scale := max (binaryExponent num den - 52) (-1074)
    let significand := roundHalfEven (num * 2 ^ (-scale).toNat) (den * 2 ^ scale.toNat)
    min ((scale + 1074).toNat * 2 ^ (52 : Nat) + significand) (2047 * 2 ^ (52 : Nat))

/-- The double nearest to `num / den` with the given sign. -/
def ofRatio (negative : Bool) (num den : Nat) : Double :=
  ⟨BitVec.ofNat 64 ((if negative then 2 ^ (63 : Nat) else 0) + magnitudeBits num den)⟩

/-- The rounded quotient of a finite number by a finite number that is not zero. -/
def quotient (x y : Double) : Double :=
  ofRatio (x.isNegative != y.isNegative) (x.numerator * y.denominator)
    (x.denominator * y.numerator)

end Double
end TypedRecords
