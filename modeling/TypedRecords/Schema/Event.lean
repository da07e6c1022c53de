import TypedRecords.Failure
import TypedRecords.DataType
import TypedRecords.Name.Program

/-!
# Log events

Compiling reports what it did: one event for the program and one for the schema, or a single event
that says why it failed.
-/

namespace TypedRecords

/-- An event of compiling. -/
inductive Event where
  /-- A program was compiled from a trie of `nodes` nodes under a scan limit. -/
  | programCompiled (nodes steps arms depth limit : Nat)
  /-- A schema was compiled. -/
  | schemaCompiled (schema : SchemaRef) (fields words mixins : Nat)
  /-- A declared field has no name. -/
  | nameEmpty
  /-- A declared name repeats an earlier one when case is ignored. -/
  | nameTaken (name : String)
  /-- A declared name cannot be looked up. -/
  | compilationFailed (schema : SchemaRef) (error : Failure)
  /-- There are more fields than positions. -/
  | tooManyFields (schema : SchemaRef) (count : Nat)
  /-- A mixin declares a field again with another type. -/
  | typeConflict (mixin name existing requested : String)
  deriving DecidableEq, Repr

namespace Event

/-- The event of compiling a program. -/
def ofProgram (nodes limit : Nat) (p : Name.Program) : Event :=
  .programCompiled nodes p.steps.size p.arms.size p.depth limit

/-- The message of an event. -/
def message : Event → String
  | .programCompiled .. => "compiled name resolver"
  | .schemaCompiled .. => "compiled schema"
  | .nameEmpty => "empty field name"
  | .nameTaken _ => "duplicate case-insensitive field"
  | .compilationFailed .. => "schema compilation failed"
  | .tooManyFields .. => "too many fields"
  | .typeConflict .. => "conflicting interface field type"

/-- The details of an event, by their keys. -/
def details : Event → List (String × String)
  | .programCompiled nodes steps arms depth limit =>
    [("nodes", toString nodes), ("steps", toString steps), ("arms", toString arms),
      ("depth", toString depth), ("linear_limit", toString limit)]
  | .schemaCompiled schema fields words mixins =>
    [("schema", schema.text), ("fields", toString fields), ("groups", toString words),
      ("interfaces", toString mixins)]
  | .nameEmpty => []
  | .nameTaken name => [("name", name)]
  | .compilationFailed schema error => [("schema", schema.text), ("err", error.message)]
  | .tooManyFields schema count => [("schema", schema.text), ("count", toString count)]
  | .typeConflict mixin name existing requested =>
    [("interface", mixin), ("name", name), ("existing", existing), ("requested", requested)]

end Event
end TypedRecords
