import TypedRecords.Number.Double

/-!
# The shortest decimal that reads back

Every finite double other than zero is the nearest one to a whole interval of reals. Among the
decimals of that interval `shortest` takes one with the fewest digits, the nearest to the number if
there are several, and the larger of two equally near.
-/

namespace TypedRecords.Double

open Number (decimalExponent)

-- Powers are the core ones here, whatever algebra is imported.
attribute [local instance (2000)] instPowNat

/-- The decimal `d₁.d₂d₃… × 10 ^ exponent`. -/
structure Scientific where
  digits : List Char
  exponent : Int
  deriving DecidableEq, Repr

/-- The interval of reals that round to a number, in units of a quarter of its last place. -/
structure Neighbourhood where
  /-- The lower end. -/
  low : Nat
  /-- The number itself. -/
  centre : Nat
  /-- The upper end. -/
  high : Nat
  /-- Whether the ends belong to it. -/
  closed : Bool

/-- The neighbourhood of a finite magnitude. Below a power of two the doubles lie twice as dense,
so the lower end is nearer there; ties go to even significands, so only these own their ends. -/
def neighbourhood (x : Double) : Neighbourhood where
  low := 4 * x.significand - if x.fractionField = 0 && 1 < x.exponentField then 1 else 2
  centre := 4 * x.significand
  high := 4 * x.significand + 2
  closed := x.significand % 2 == 0

/-- The multiple of `10 ^ place` in the neighbourhood of `x` that is nearest to `x`, as the number
of times `10 ^ place` is taken. Only the two multiples around `x` need to be tried. -/
def nearestAt (x : Double) (place : Int) : Option Nat :=
  let range := x.neighbourhood
  let scale := x.scale - 2
  let unit := 10 ^ place.toNat * 2 ^ (-scale).toNat
  let lift := 10 ^ (-place).toNat * 2 ^ scale.toNat
  let inside (k : Nat) : Bool :=
    if range.closed then range.low * lift ≤ k * unit && k * unit ≤ range.high * lift
    else range.low * lift < k * unit && k * unit < range.high * lift
  let below := range.centre * lift / unit
  let above := below + 1
  if inside below then
    if inside above && above * unit - range.centre * lift ≤ range.centre * lift - below * unit then
      some above
    else some below
  else if inside above then some above
  else none

/-- The decimal `count × 10 ^ place` without zeros at the end. -/
def Scientific.ofMultiple (count : Nat) (place : Int) : Scientific :=
  let digits := Nat.toDigits 10 count
  { digits := (digits.reverse.dropWhile (· == '0')).reverse
    exponent := place + digits.length - 1 }

/-- The shortest decimal that reads back as the magnitude of a finite number other than zero.
Seventeen digits always suffice. -/
def shortest (x : Double) : Scientific :=
  let exponent := decimalExponent x.numerator x.denominator
  let found := (List.range 17).findSome? fun (more : Nat) =>
    let place := exponent - more
    (x.nearestAt place).map (Scientific.ofMultiple · place)
  found.getD ⟨['0'], 0⟩

end TypedRecords.Double
