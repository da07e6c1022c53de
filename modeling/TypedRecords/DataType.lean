/-!
# Declared types of fields

A record type names the schema it accepts by the schema's id, so a schema can mention itself.
-/

namespace TypedRecords

/-- The 32-bit identity by which types refer to a schema. -/
structure SchemaRef where
  raw : UInt32
  deriving DecidableEq, Repr

/-- The text of a schema id. -/
def SchemaRef.text (id : SchemaRef) : String := "schema#" ++ toString id.raw.toNat

/-- The type that a field is declared with. -/
inductive DataType where
  | bool
  /-- Integers of 64 bits with sign. -/
  | int
  /-- Floating-point numbers of 64 bits. -/
  | float
  /-- Decimals; whatever converts to a decimal is accepted. -/
  | decimal
  /-- Decimals that may be null; whatever converts to a decimal is accepted. -/
  | nullableDecimal
  | guid
  | dateTime
  | text
  | bytes
  /-- Lists of one element type. -/
  | list (element : DataType)
  /-- Records of the schema with the given id. -/
  | record (schema : SchemaRef)
  deriving DecidableEq, Repr

namespace DataType

/-- Whether values of the type are references, which start out null and may be set to null. -/
def holdsReference : DataType → Bool
  | .text | .bytes | .list _ | .record _ => true
  | _ => false

/-- Whether assigned values are converted instead of matched. -/
def isConverting : DataType → Bool
  | .decimal | .nullableDecimal => true
  | _ => false

/-- Whether null may be stored in a field of the type. -/
def allowsNull (t : DataType) : Bool := t.holdsReference || t == .nullableDecimal

/-- The text of a type. -/
def describe : DataType → String
  | .bool => "bool"
  | .int => "int"
  | .float => "float"
  | .decimal => "decimal"
  | .nullableDecimal => "decimal?"
  | .guid => "guid"
  | .dateTime => "datetime"
  | .text => "text"
  | .bytes => "bytes"
  | .list element => "list<" ++ element.describe ++ ">"
  | .record schema => "record<" ++ schema.text ++ ">"

end DataType
end TypedRecords
