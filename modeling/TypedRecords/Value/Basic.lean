import TypedRecords.Decimal.Basic
import TypedRecords.Number.Double
import TypedRecords.Presence
import TypedRecords.Schema.Basic
import TypedRecords.Value.DateTime
import TypedRecords.Value.Guid

/-!
# Values and records

A value is what a field holds or is offered. A record holds one value for every field of its schema
and the presence words that tell which fields were assigned. The two types contain each other.
-/

namespace TypedRecords

/-- The contents of a record whose fields hold values of type `α`. -/
structure RecordOf (α : Type) where
  schema : Schema
  slots : List α
  presence : List PresenceWord
  deriving Repr

/-- A value that a field holds or is offered. -/
inductive Value where
  /-- No reference, or no number. -/
  | null
  | bool (b : Bool)
  | int (i : Int64)
  | float (x : Double)
  | decimal (d : Decimal)
  | guid (g : Guid)
  | dateTime (t : DateTime)
  | text (s : String)
  | bytes (bs : List UInt8)
  | list (items : List Value)
  | record (r : RecordOf Value)
  deriving Repr

/-- The values of a schema's fields. -/
abbrev Record := RecordOf Value

namespace Value

/-- What a field of a type holds before it is assigned: null if the type admits null, and otherwise
the type's zero. -/
def default : DataType → Value
  | .bool => .bool false
  | .int => .int 0
  | .float => .float .zero
  | .decimal => .decimal .zero
  | .guid => .guid .nil
  | .dateTime => .dateTime .epoch
  | .nullableDecimal | .text | .bytes | .list _ | .record _ => .null

/-- Whether the value is null. -/
def isNull : Value → Bool
  | .null => true
  | _ => false

/-- The kind of a value, as diagnostics name it. -/
def kind : Value → String
  | .null => "null"
  | .bool _ => "bool"
  | .int _ => "int"
  | .float _ => "float"
  | .decimal _ => "decimal"
  | .guid _ => "guid"
  | .dateTime _ => "datetime"
  | .text _ => "text"
  | .bytes _ => "bytes"
  | .list _ => "list"
  | .record _ => "record"

end Value
end TypedRecords
