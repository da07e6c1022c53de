import TypedRecords.Decimal.Basic
import TypedRecords.Text.Blank

/-!
# Reading decimals

A literal is an optional sign and ASCII digits with at most one point among them, at least one
digit in all, between blanks. Fractional digits past the twenty-eighth are read and dropped. The
first fault met from left to right is reported.
-/

namespace TypedRecords.Decimal

/-- Why a text is no decimal literal. -/
inductive ParseError where
  /-- There is no digit to read. -/
  | empty
  /-- A character is no digit. -/
  | invalidDigit
  /-- The digits kept make a number that exceeds the largest mantissa. -/
  | overflow
  deriving DecidableEq, Repr

/-- The wording of a fault. -/
def ParseError.message : ParseError → String
  | .empty => "empty decimal literal"
  | .invalidDigit => "invalid digit in decimal literal"
  | .overflow => "decimal literal out of range"

/-- Appends one digit to the number read so far. -/
def pushDigit (n : Nat) (c : Char) : Except ParseError Nat :=
  if c.isDigit then
    let longer := n * 10 + (c.toNat - '0'.toNat)
    if longer ≤ maxMantissa then .ok longer else .error .overflow
  else .error .invalidDigit

/-- Appends the digits before the point to the number read so far. -/
def readWhole (n : Nat) : List Char → Except ParseError Nat
  | [] => .ok n
  | c :: rest => do readWhole (← pushDigit n c) rest

/-- Appends the digits after the point to the number `n`, of which `scale` digits are fractional
already; returns the number and its count of fractional digits. -/
def readFraction (n scale : Nat) : List Char → Except ParseError (Nat × Nat)
  | [] => .ok (n, scale)
  | c :: rest =>
    if scale = maxScale then
      if c.isDigit then readFraction n scale rest else .error .invalidDigit
    else do readFraction (← pushDigit n c) (scale + 1) rest

/-- Takes the sign off a literal, true for a minus. -/
def splitSign : List Char → Bool × List Char
  | '-' :: rest => (true, rest)
  | '+' :: rest => (false, rest)
  | cs => (false, cs)

/-- The characters before the first point and those after it. -/
def splitPoint (cs : List Char) : List Char × List Char :=
  (cs.takeWhile (· != '.'), (cs.dropWhile (· != '.')).drop 1)

/-- Reads a literal that has no blanks around it. -/
def ofLiteral (cs : List Char) : Except ParseError Decimal := do
  let (negative, body) := splitSign cs
  let (whole, fraction) := splitPoint body
  if whole.isEmpty && fraction.isEmpty then
    throw .empty
  let n ← readWhole 0 whole
  let (n, scale) ← readFraction n 0 fraction
  return normalize (if negative then -n else n) scale

/-- Reads a decimal literal with blanks around it. -/
def parse (s : String) : Except ParseError Decimal := ofLiteral (Text.trim s.toList)

end TypedRecords.Decimal
