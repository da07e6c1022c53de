import TypedRecords.Decimal.Basic

/-!
# Text of decimals

A decimal is written with at least one digit before the point and exactly `scale` digits after it;
an integer has no point.
-/

namespace TypedRecords.Decimal

/-- The digits of a magnitude, the last `scale` of them behind a point. -/
def magnitudeText (magnitude scale : Nat) : List Char :=
  let digits := Nat.toDigits 10 magnitude
  if scale = 0 then digits
  else
    let padded := digits.leftpad (scale + 1) '0'
    let whole := padded.length - scale
    padded.take whole ++ '.' :: padded.drop whole

/-- The text of a decimal. -/
def text (d : Decimal) : String :=
  let digits := magnitudeText d.mantissa.natAbs d.scale
  String.ofList (if d.mantissa < 0 then '-' :: digits else digits)

end TypedRecords.Decimal
