import TypedRecords.Record.Admission

/-!
# Records

Reading and writing of single fields, by position and by name. Every field holds a value of its
type at all times: before it is assigned, and after it is cleared, the default of its type. The
presence bits tell assigned fields from others, also when null is assigned.
-/

namespace TypedRecords

namespace RecordOf

-- Sums start from the core zero here, whatever algebra is imported.
attribute [local instance (2000)] Zero.ofOfNat0

/-- A record with nothing assigned. -/
def new (schema : Schema) : Record where
  schema
  slots := schema.fields.map fun field => Value.default field.type
  presence := List.replicate schema.words .empty

section

variable {α : Type}

/-- Whether a field is assigned. -/
def isAssigned (r : RecordOf α) (position : Position) : Bool :=
  match r.presence[position.word]? with
  | some word => word.contains position.bit && position.toNat < r.slots.length
  | none => false

/-- The number of assigned fields. -/
def size (r : RecordOf α) : Nat := (r.presence.map PresenceWord.size).sum

/-- Whether no field is assigned. -/
def isEmpty (r : RecordOf α) : Bool := r.presence.all PresenceWord.isEmpty

end

/-- The value held for a field. -/
def slot (r : Record) (position : Position) : Value := r.slots.getD position.toNat .null

/-- Holds a value for a field and marks the field as assigned. -/
def store (r : Record) (position : Position) (v : Value) : Record :=
  { r with
    slots := r.slots.set position.toNat v
    presence := r.presence.modify position.word (·.insert position.bit) }

/-- Assigns a value to a field, if the field takes it. -/
def set (r : Record) (position : Position) (v : Value) : Except Failure Record := do
  let field ← r.schema.field position
  return r.store position (← field.admitted v)

/-- Assigns a value to the field of a name. -/
def setNamed (r : Record) (name : String) (v : Value) : Except Failure Record := do
  r.set (← r.schema.positionOf name) v

/-- Takes a field's value back: the field holds its default and is not assigned. -/
def clear (r : Record) (position : Position) : Except Failure Record := do
  let field ← r.schema.field position
  return { r with
    slots := r.slots.set position.toNat (Value.default field.type)
    presence := r.presence.modify position.word (·.erase position.bit) }

/-- The value held for a field, assigned or not. -/
def get (r : Record) (position : Position) : Except Failure Value := do
  let _ ← r.schema.field position
  return r.slot position

/-- The value of a field if it is assigned. -/
def get? (r : Record) (position : Position) : Option Value :=
  if r.isAssigned position then some (r.slot position) else none

/-- The value of the field of a name if it is assigned; an unknown name is a failure. -/
def getNamed? (r : Record) (name : String) : Except Failure (Option Value) := do
  return r.get? (← r.schema.positionOf name)

/-- The value of the field of a name; an unknown name and a field that is not assigned are
failures. -/
def getNamed (r : Record) (name : String) : Except Failure Value := do
  match ← r.getNamed? name with
  | some v => return v
  | none => throw (.missing name)

/-- Whether a name belongs to an assigned field. -/
def contains (r : Record) (name : String) : Bool :=
  match r.schema.resolve name with
  | some position => r.isAssigned position
  | none => false

end RecordOf

/-- A record with nothing assigned, kept to make copies of. -/
structure Template where
  blank : Record
  deriving Repr

namespace Template

/-- The template of a schema. -/
def ofSchema (schema : Schema) : Template := ⟨RecordOf.new schema⟩

/-- The schema of the records made. -/
def schema (t : Template) : Schema := t.blank.schema

/-- Another record with nothing assigned. -/
def create (t : Template) : Record := t.blank

end Template
end TypedRecords
