/-!
# Positions of fields

Fields are numbered in order of declaration from 0. A position also addresses the field's presence
bit: position `i` owns bit `i % 32` of word `i / 32`.
-/

namespace TypedRecords

/-- The position of a field inside its schema. -/
structure Position where
  raw : UInt32
  deriving DecidableEq, Repr

namespace Position

/-- The presence bits in one word. -/
def wordWidth : Nat := 32

/-- The position `n`, if a position can be that large. -/
def ofNat? (n : Nat) : Option Position :=
  if n < UInt32.size then some ⟨UInt32.ofNat n⟩ else none

/-- The wording for a number that is too large for a position. -/
def tooLargeMessage : String := "number too large to fit in target type"

/-- The position as a number. -/
def toNat (i : Position) : Nat := i.raw.toNat

/-- The presence word that holds the field's bit. -/
def word (i : Position) : Nat := i.toNat / wordWidth

/-- The field's bit within its presence word. -/
def bit (i : Position) : Nat := i.toNat % wordWidth

/-- The text of a position. -/
def text (i : Position) : String := "#" ++ toString i.toNat

/-- The text of a position inside the listing of a larger value. -/
def listing (i : Position) : String := "FieldIndex(" ++ toString i.toNat ++ ")"

end Position
end TypedRecords
