import TypedRecords.Record.Basic

/-!
# Typed reads

A target is a type that the content of a field can be read as. Reading is exact, without any
conversion between kinds. Null reads only as an optional target, then as nothing, and as a value.
-/

namespace TypedRecords

/-- A type to read values as. -/
inductive Target where
  | bool
  | int
  | float
  | decimal
  | guid
  | dateTime
  | text
  | bytes
  | list
  | record
  /-- Any value, as it is. -/
  | value
  /-- The inner target, or nothing for null. -/
  | option (inner : Target)
  deriving DecidableEq, Repr

namespace Target

/-- What reading gives. -/
def Carrier : Target → Type
  | .bool => Bool
  | .int => Int64
  | .float => Double
  | .decimal => Decimal
  | .guid => Guid
  | .dateTime => DateTime
  | .text => String
  | .bytes => List UInt8
  | .list => List Value
  | .record => Record
  | .value => Value
  | .option inner => Option inner.Carrier

/-- The kind of value that is expected, as diagnostics name it. -/
def kind : Target → String
  | .bool => "bool"
  | .int => "int"
  | .float => "float"
  | .decimal => "decimal"
  | .guid => "guid"
  | .dateTime => "datetime"
  | .text => "text"
  | .bytes => "bytes"
  | .list => "list"
  | .record => "record"
  | .value => "value"
  | .option inner => inner.kind

/-- Reads a value, if it is of the kind expected. -/
def read : (t : Target) → Value → Option t.Carrier
  | .bool => fun | .bool b => some b | _ => none
  | .int => fun | .int i => some i | _ => none
  | .float => fun | .float x => some x | _ => none
  | .decimal => fun | .decimal d => some d | _ => none
  | .guid => fun | .guid g => some g | _ => none
  | .dateTime => fun | .dateTime t => some t | _ => none
  | .text => fun | .text s => some s | _ => none
  | .bytes => fun | .bytes bs => some bs | _ => none
  | .list => fun | .list items => some items | _ => none
  | .record => fun | .record r => some r | _ => none
  | .value => fun v => some v
  | .option inner => fun
    | .null => some none
    | v => (inner.read v).map some

/-- The content as a value again. -/
def toValue : (t : Target) → t.Carrier → Value
  | .bool => .bool
  | .int => .int
  | .float => .float
  | .decimal => .decimal
  | .guid => .guid
  | .dateTime => .dateTime
  | .text => .text
  | .bytes => .bytes
  | .list => .list
  | .record => .record
  | .value => fun v => v
  | .option inner => fun
    | none => .null
    | some x => inner.toValue x

/-- The content that stands for an absent one. Records and values in general have none. -/
def zero? : (t : Target) → Option t.Carrier
  | .bool => some false
  | .int => some (0 : Int64)
  | .float => some Double.zero
  | .decimal => some Decimal.zero
  | .guid => some Guid.nil
  | .dateTime => some DateTime.epoch
  | .text => some ""
  | .bytes => some []
  | .list => some []
  | .record => none
  | .value => none
  | .option _ => some none

end Target

namespace RecordOf

/-- Reads the value of a field. -/
def convert (r : Record) (t : Target) (position : Position) (v : Value) :
    Except Failure t.Carrier := do
  let field ← r.schema.field position
  match t.read v with
  | some x => return x
  | none => throw (.typeMismatch field.name t.kind v.kind)

/-- Reads the field of a name if it is assigned. -/
def readAs? (r : Record) (t : Target) (name : String) : Except Failure (Option t.Carrier) := do
  let position ← r.schema.positionOf name
  match r.get? position with
  | some v => some <$> r.convert t position v
  | none => return none

/-- Reads the field of a name; a field that is not assigned is a failure. -/
def readAs (r : Record) (t : Target) (name : String) : Except Failure t.Carrier := do
  match ← r.readAs? t name with
  | some x => return x
  | none => throw (.missing name)

/-- Reads the field of a name, with a substitute for null and for a field not assigned. -/
def readAsOr (r : Record) (t : Target) (substitute : t.Carrier) (name : String) :
    Except Failure t.Carrier := do
  let position ← r.schema.positionOf name
  match r.get? position with
  | none | some .null => return substitute
  | some v => r.convert t position v

end RecordOf
end TypedRecords
