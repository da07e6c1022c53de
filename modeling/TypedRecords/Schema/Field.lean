import TypedRecords.Position
import TypedRecords.DataType
import TypedRecords.Presence

/-!
# Compiled fields

What a schema knows of one field: its name and type, its position, its markers, and the address of
its presence bit.
-/

namespace TypedRecords

/-- Markers of a field, without effect on how its value is stored. -/
structure Markers where
  /-- The field is left out of serialized forms. -/
  unserialized : Bool
  /-- The field was contributed by a mixin. -/
  mixedIn : Bool
  deriving DecidableEq, Repr

namespace Markers

/-- No marker. -/
def none : Markers := ⟨false, false⟩

/-- The markers as a number: 1 for a field that is left out, 2 for one from a mixin. -/
def bits (m : Markers) : Nat := (if m.unserialized then 1 else 0) + if m.mixedIn then 2 else 0

end Markers

/-- A field of a schema. -/
structure Field where
  name : String
  type : DataType
  position : Position
  markers : Markers
  address : BitAddress
  deriving DecidableEq, Repr

end TypedRecords
