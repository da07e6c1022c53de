import TypedRecords.Number.Double.Shortest

/-!
# Text of floating-point numbers

Finite numbers are written by their shortest decimal. From `10 ^ -4` up to below `10 ^ 16` it is
positional and has at least one digit after the point; other magnitudes have an exponent.
-/

namespace TypedRecords.Double

/-- Positional notation, with at least one digit after the point. -/
def Scientific.positional (s : Scientific) : String :=
  if s.exponent < 0 then
    "0." ++ String.ofList (List.replicate (-s.exponent - 1).toNat '0' ++ s.digits)
  else
    let width := s.exponent.toNat + 1
    let whole := s.digits.take width
    let fraction := s.digits.drop width
    String.ofList (whole ++ List.replicate (width - whole.length) '0') ++ "." ++
      String.ofList (if fraction.isEmpty then ['0'] else fraction)

/-- One digit before the point, the point only if digits follow, and the exponent. -/
def Scientific.exponential (s : Scientific) : String :=
  let rest := s.digits.drop 1
  String.ofList (s.digits.take 1 ++ if rest.isEmpty then [] else '.' :: rest) ++ "e" ++
    toString s.exponent

/-- The text of a magnitude: positional where the exponent lies from -4 to 15. -/
def Scientific.text (s : Scientific) : String :=
  if -4 ≤ s.exponent && s.exponent < 16 then s.positional else s.exponential

/-- The text of a number. -/
def text (x : Double) : String :=
  if x.isNaN then "NaN"
  else
    (if x.isNegative then "-" else "") ++
      if !x.isFinite then "inf" else if x.isZero then "0.0" else x.shortest.text

end TypedRecords.Double
