import TypedRecords.Decimal.Conversion
import TypedRecords.Decimal.Parser
import TypedRecords.Value.Basic

/-!
# Admission of values

A decimal-like field takes every value that converts to a decimal, and stores the decimal; null is
zero in a `decimal` field and stays null in a `decimal?` field. Every other field takes exactly the
values that conform to its type, and stores them as they are.
-/

namespace TypedRecords

/-- The decimal that a value converts to: one or zero for a truth value, and the number itself for
a number or a text that reads as one. -/
def Value.asDecimal? : Value → Option Decimal
  | .bool b => some (if b then .one else .zero)
  | .int i => some (.ofInt i.toInt)
  | .float x => Decimal.ofDouble? x
  | .decimal d => some d
  | .text s => (Decimal.parse s).toOption
  | _ => none

/-- Whether a value is of a type as it stands. Null is of every type that admits null, a list has
elements of the element type, and a record comes from a schema with the type's id. -/
def DataType.accepts : DataType → Value → Bool
  | type, .null => type.allowsNull
  | .bool, .bool _ => true
  | .int, .int _ => true
  | .float, .float _ => true
  | .decimal, .decimal _ => true
  | .nullableDecimal, .decimal _ => true
  | .guid, .guid _ => true
  | .dateTime, .dateTime _ => true
  | .text, .text _ => true
  | .bytes, .bytes _ => true
  | .list element, .list items => items.all element.accepts
  | .record schema, .record r => r.schema.id == schema
  | _, _ => false

namespace Field

/-- The failure of a value that a field does not take. -/
def mismatch (f : Field) (v : Value) : Failure :=
  .typeMismatch f.name f.type.describe v.kind

/-- The decimal that a decimal-like field stores for a value. -/
def convert (f : Field) (v : Value) : Except Failure Value :=
  match v.asDecimal? with
  | some d => .ok (.decimal d)
  | none => .error (f.mismatch v)

/-- What a field stores for a value. -/
def admitted (f : Field) (v : Value) : Except Failure Value :=
  match f.type with
  | .decimal => if v.isNull then .ok (.decimal .zero) else f.convert v
  | .nullableDecimal => if v.isNull then .ok .null else f.convert v
  | type => if type.accepts v then .ok v else .error (f.mismatch v)

end Field
end TypedRecords
