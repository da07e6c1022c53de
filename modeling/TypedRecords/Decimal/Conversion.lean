import TypedRecords.Decimal.Basic
import TypedRecords.Number.Double

/-!
# Decimals and floating-point numbers

A double becomes the decimal of its first fifteen significant digits, which absorbs the noise of
binary fractions: the sum of 0.1 and 0.2 becomes 0.3. A decimal becomes the quotient of two doubles.
-/

namespace TypedRecords.Decimal

open Number (roundHalfEven decimalExponent)

-- Powers are the core ones here, whatever algebra is imported.
attribute [local instance (2000)] instPowNat

/-- The significant digits kept of a double. -/
def significantDigits : Nat := 15

/-- The magnitude `num / den` to fifteen significant digits, as a number of units and the place
of the last of them: `units × 10 ^ place`. -/
def roundSignificant (num den : Nat) : Nat × Int :=
  let place := decimalExponent num den - (significantDigits - 1 : Nat)
  (roundHalfEven (num * 10 ^ (-place).toNat) (den * 10 ^ place.toNat), place)

/-- The decimal nearest to a double at fifteen significant digits. There is none for a number that
is not finite or whose digits exceed the mantissa; digits past the last place are cut off. -/
def ofDouble? (x : Double) : Option Decimal :=
  if !x.isFinite then none
  else if x.isZero then some zero
  else
    let (units, place) := roundSignificant x.numerator x.denominator
    let signed : Int := if x.isNegative then -units else units
    if 0 ≤ place then
      let mantissa := signed * 10 ^ place.toNat
      if fits mantissa then some (normalize mantissa 0) else none
    else
      let scale := (-place).toNat
      some (normalize (signed.tdiv (10 ^ (scale - maxScale))) (min scale maxScale))

/-- The double nearest to the mantissa, divided by the double nearest to the power of ten. -/
def toDouble (d : Decimal) : Double :=
  (Double.ofRatio (d.mantissa < 0) d.mantissa.natAbs 1).quotient (.ofRatio false (10 ^ d.scale) 1)

end TypedRecords.Decimal
