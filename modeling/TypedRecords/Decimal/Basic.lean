/-!
# Fixed-point decimals

A decimal is `mantissa / 10 ^ scale` with at most 28 fractional digits. It is kept normal, without
zeros at the end of the fraction, so that decimals of one value are equal.
-/

namespace TypedRecords

/-- The number `mantissa / 10 ^ scale`. -/
structure Decimal where
  mantissa : Int
  scale : Nat
  deriving DecidableEq, Repr

namespace Decimal

-- Powers are the core ones here, whatever algebra is imported.
attribute [local instance (2000)] instPowNat

/-- The largest number of fractional digits. -/
def maxScale : Nat := 28

/-- The largest magnitude of a mantissa; the smallest mantissa lies one further below zero. -/
def maxMantissa : Nat := 2 ^ (127 : Nat) - 1

/-- Whether a mantissa fits in 128 bits with sign. -/
def fits (mantissa : Int) : Bool := -(maxMantissa : Int) - 1 ≤ mantissa && mantissa ≤ maxMantissa

/-- No more fractional digits than allowed, the last of them not zero. -/
structure Normal (d : Decimal) : Prop where
  scale_le : d.scale ≤ maxScale
  not_dvd : 0 < d.scale → ¬ 10 ∣ d.mantissa

/-- The normal decimal of value `mantissa / 10 ^ scale`: zeros at the end of the fraction go. -/
def normalize (mantissa : Int) : Nat → Decimal
  | 0 => ⟨mantissa, 0⟩
  | scale + 1 =>
    if mantissa % 10 = 0 then normalize (mantissa / 10) scale else ⟨mantissa, scale + 1⟩

/-- The decimal of value `mantissa / 10 ^ scale`, unless it has too many fractional digits. -/
def ofScaled? (mantissa : Int) (scale : Nat) : Option Decimal :=
  if scale ≤ maxScale then some (normalize mantissa scale) else none

/-- The decimal of integer value. -/
def ofInt (n : Int) : Decimal := ⟨n, 0⟩

/-- Zero. -/
def zero : Decimal := ofInt 0

/-- One. -/
def one : Decimal := ofInt 1

end Decimal
end TypedRecords
