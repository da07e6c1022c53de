import TypedRecords.Position
import TypedRecords.Text.Quoted

/-!
# Failures

Everything that compiling a schema or using a record can report, and its wording.
-/

namespace TypedRecords

open Text (quoteChar quoteString)

/-- A failure of the record engine. -/
inductive Failure where
  /-- Two names collide when case is ignored. -/
  | nameTaken (name : String)
  /-- A field has the empty name. -/
  | nameEmpty
  /-- The character at `offset` of a name does not fit in one byte. -/
  | nameUnpackable (name : String) (char : Char) (offset : Nat)
  /-- A mixin declares a field again with another type. -/
  | typeConflict (name existing requested : String)
  /-- There are more fields than positions. -/
  | tooManyFields (count : Nat)
  /-- A name belongs to no field, or to one without a value. -/
  | missing (name : String)
  /-- A value is not of the type asked for. -/
  | typeMismatch (field expected found : String)
  /-- A position lies outside the schema. -/
  | positionOutOfRange (position : Position) (size : Nat)
  /-- A cursor cannot go back. -/
  | cannotReset
  deriving DecidableEq, Repr

/-- The wording of a failure. -/
def Failure.message : Failure → String
  | .nameTaken name => "duplicate case-insensitive field: " ++ name
  | .nameEmpty => "field names must not be empty"
  | .nameUnpackable name char offset =>
    "unsupported character " ++ quoteChar char ++ " at offset " ++ toString offset ++ " in " ++
      quoteString name
  | .typeConflict name existing requested =>
    "field '" ++ name ++ "' declared as " ++ existing ++ " and " ++ requested
  | .tooManyFields count =>
    "schema declares " ++ toString count ++ " fields, more than a field index can address"
  | .missing name => "key not found: " ++ name
  | .typeMismatch field expected found =>
    "invalid value for field '" ++ field ++ "': expected " ++ expected ++ ", found " ++ found
  | .positionOutOfRange position size =>
    "field index " ++ toString position.toNat ++ " out of range for schema with " ++
      toString size ++ " fields"
  | .cannotReset => "field enumerators cannot be reset"

end TypedRecords
