import TypedRecords.Failure
import TypedRecords.Name.Program
import TypedRecords.Schema.Field
import TypedRecords.Text.Enclosed
import TypedRecords.Text.Lowercase

/-!
# Schemas

A schema is an ordered set of fields with the program that finds them by name. Schemas are numbered
as their drafts are begun; the number is the schema's identity, and its low 32 bits are the id by
which types refer to it.
-/

namespace TypedRecords

/-- The id of the schema with a serial number. -/
def SchemaRef.ofSerial (serial : Nat) : SchemaRef := ⟨UInt32.ofNat serial⟩

/-- A compiled schema: its fields in order, the number of presence words of a record, the program
for its names, and the names of its mixins. -/
structure Schema where
  serial : Nat
  fields : List Field
  words : Nat
  program : Name.Program
  mixins : List String
  deriving DecidableEq, Repr

namespace Schema

/-- The id of the schema. -/
def id (s : Schema) : SchemaRef := .ofSerial s.serial

/-- The number of fields. -/
def size (s : Schema) : Nat := s.fields.length

/-- The field at a position. -/
def field? (s : Schema) (position : Position) : Option Field := s.fields[position.toNat]?

/-- The field at a position; a position beyond the last field is a failure. -/
def field (s : Schema) (position : Position) : Except Failure Field :=
  match s.field? position with
  | some field => .ok field
  | none => .error (.positionOutOfRange position s.size)

/-- The position of the field with exactly this name. -/
def resolve (s : Schema) (name : String) : Option Position := s.program.resolve name

/-- The position of the field with exactly this name; an unknown name is a failure. -/
def positionOf (s : Schema) (name : String) : Except Failure Position :=
  match s.resolve name with
  | some position => .ok position
  | none => .error (.missing name)

/-- The field with exactly this name; an unknown name is a failure. -/
def lookup (s : Schema) (name : String) : Except Failure Field := do
  s.field (← s.positionOf name)

/-- The position of the field with this name, or else of the first field whose name has the same
image under `fold`. -/
def resolveFolding (s : Schema) (fold : String → String) (name : String) : Option Position :=
  match s.resolve name with
  | some position => some position
  | none => (s.fields.find? fun field => fold field.name == fold name).map (·.position)

/-- The position of the field with this name when case is ignored. -/
def resolveIgnoringCase (s : Schema) (name : String) : Option Position :=
  s.resolveFolding Text.lowercase name

/-- Whether a mixin of this name was merged. -/
def hasMixin (s : Schema) (mixin : String) : Bool := s.mixins.contains mixin

/-- The text of a schema: its fields with their types, in braces. -/
def describe (s : Schema) : String :=
  Text.braced (s.fields.map fun field => field.name ++ ": " ++ field.type.describe)

end Schema
end TypedRecords
