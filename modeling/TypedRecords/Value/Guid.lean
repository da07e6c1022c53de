/-!
# Globally unique identifiers

Identifiers of 128 bits, written as five groups of hexadecimal digits.
-/

namespace TypedRecords

/-- An identifier of 128 bits. -/
structure Guid where
  bits : BitVec 128
  deriving DecidableEq, Repr

namespace Guid

/-- The identifier without a set bit. -/
def nil : Guid := ⟨0⟩

/-- The 32 hexadecimal digits, in lower case. -/
def digits (g : Guid) : List Char := (Nat.toDigits 16 g.bits.toNat).leftpad 32 '0'

/-- The text of an identifier: groups of 8, 4, 4, 4 and 12 digits with hyphens between. -/
def text (g : Guid) : String :=
  let ds := g.digits
  let group (start count : Nat) : String := String.ofList ((ds.drop start).take count)
  "-".intercalate [group 0 8, group 8 4, group 12 4, group 16 4, group 20 12]

end Guid
end TypedRecords
