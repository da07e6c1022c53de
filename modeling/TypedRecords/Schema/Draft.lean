import TypedRecords.Name.Program.Compile
import TypedRecords.Schema.Basic
import TypedRecords.Schema.Event

/-!
# Drafts of schemas

A draft collects declared fields and mixins. Compiling it merges the mixins behind the declared
fields, checks the names in order, and then gives every field its position, its path in the trie
and its presence bit. A schema's serial number is taken when its draft is begun, so that fields
can refer to the schema itself; a draft that fails has used up its number.
-/

namespace TypedRecords

/-- Numbers schemas; `issued` numbers are taken. -/
structure SchemaSupply where
  issued : Nat
  deriving DecidableEq, Repr

namespace SchemaSupply

/-- No number is taken. -/
def empty : SchemaSupply := ⟨0⟩

/-- Takes the next number. -/
def take (s : SchemaSupply) : Nat × SchemaSupply := (s.issued, ⟨s.issued + 1⟩)

end SchemaSupply

/-- A named list of fields that a schema can promise to have. -/
structure Mixin where
  name : String
  fields : List (String × DataType)
  deriving DecidableEq, Repr

/-- A field to be compiled. -/
structure Declaration where
  name : String
  type : DataType
  markers : Markers
  deriving DecidableEq, Repr

/-- A schema in the making: the declared fields and the mixins in order, and the limit below which
runs of names are scanned. -/
structure Draft where
  serial : Nat
  declared : List Declaration
  mixins : List Mixin
  limit : Nat
  deriving DecidableEq, Repr

/-- Why a draft does not compile, and the event that tells of it. -/
structure Rejection where
  error : Failure
  event : Event
  deriving DecidableEq, Repr

/-- What compiling gave, and the events it reported, oldest first. -/
structure Report where
  result : Except Failure Schema
  events : List Event

/-- The fields compiled so far, their names, and the presence bits left. -/
structure Assembly where
  fields : List Field
  trie : Name.Trie
  bits : BitSupply
  deriving DecidableEq, Repr

/-- Adds a mixin's field to the declared ones. A field of the same name must have the same type,
and is then kept as it is. -/
def Mixin.mergeField (mixin : String) (declared : List Declaration) :
    String × DataType → Except Rejection (List Declaration)
  | (name, type) =>
    match declared.find? (·.name == name) with
    | none => .ok (declared ++ [⟨name, type, { Markers.none with mixedIn := true }⟩])
    | some existing =>
      if existing.type = type then .ok declared
      else
        let (old, new) := (existing.type.describe, type.describe)
        .error ⟨.typeConflict name old new, .typeConflict mixin name old new⟩

/-- Adds a mixin's fields in order. -/
def Mixin.merge (declared : List Declaration) (mixin : Mixin) :
    Except Rejection (List Declaration) :=
  mixin.fields.foldlM (Mixin.mergeField mixin.name) declared

/-- Checks that no name is empty and no two names have the same image under `fold`; `seen` holds
the images of the names already checked. -/
def Declaration.vetNames (fold : String → String) (seen : List String) :
    List Declaration → Except Rejection Unit
  | [] => .ok ()
  | d :: rest =>
    if d.name.isEmpty then .error ⟨.nameEmpty, .nameEmpty⟩
    else
      let image := fold d.name
      if seen.contains image then .error ⟨.nameTaken d.name, .nameTaken d.name⟩
      else vetNames fold (image :: seen) rest

namespace Assembly

/-- Nothing is compiled. -/
def empty : Assembly := ⟨[], .empty, .empty⟩

/-- Compiles the next field of a schema. -/
def add (schema : SchemaRef) (a : Assembly) (d : Declaration) : Except Rejection Assembly :=
  let count := a.fields.length
  match Position.ofNat? count with
  | none => .error ⟨.tooManyFields (count + 1), .tooManyFields schema (count + 1)⟩
  | some position =>
    match a.trie.insert d.name position with
    | .error error => .error ⟨error, .compilationFailed schema error⟩
    | .ok trie =>
      let (address, bits) := a.bits.take
      .ok ⟨a.fields ++ [⟨d.name, d.type, position, d.markers, address⟩], trie, bits⟩

end Assembly

namespace Draft

/-- A draft without fields, and the supply that is left. -/
def begin (supply : SchemaSupply) : Draft × SchemaSupply :=
  let (serial, supply) := supply.take
  (⟨serial, [], [], Name.defaultLimit⟩, supply)

/-- The id that the compiled schema will have. -/
def id (d : Draft) : SchemaRef := .ofSerial d.serial

/-- Declares a field with markers. -/
def declare (d : Draft) (name : String) (type : DataType) (markers : Markers) : Draft :=
  { d with declared := d.declared ++ [⟨name, type, markers⟩] }

/-- Declares a field. -/
def field (d : Draft) (name : String) (type : DataType) : Draft := d.declare name type .none

/-- Declares a field that is left out of serialized forms. -/
def unserializedField (d : Draft) (name : String) (type : DataType) : Draft :=
  d.declare name type { Markers.none with unserialized := true }

/-- Declares fields in order. -/
def fields (d : Draft) (fields : List (String × DataType)) : Draft :=
  fields.foldl (fun d (name, type) => d.field name type) d

/-- Adds a mixin. -/
def mixIn (d : Draft) (mixin : Mixin) : Draft := { d with mixins := d.mixins ++ [mixin] }

/-- Sets the limit below which runs of names are scanned. -/
def withLimit (d : Draft) (limit : Nat) : Draft := { d with limit }

/-- The declared fields and those of the mixins. -/
def merged (d : Draft) : Except Rejection (List Declaration) :=
  d.mixins.foldlM Mixin.merge d.declared

/-- The checked and compiled fields. -/
def assemble (d : Draft) (fold : String → String) : Except Rejection Assembly := do
  let declared ← d.merged
  Declaration.vetNames fold [] declared
  declared.foldlM (Assembly.add d.id) .empty

/-- The schema of a draft whose fields are compiled. -/
def finish (d : Draft) (a : Assembly) : Schema where
  serial := d.serial
  fields := a.fields
  words := a.bits.words
  program := a.trie.compile d.limit
  mixins := d.mixins.map (·.name)

/-- The events of a draft whose fields are compiled. -/
def successEvents (d : Draft) (a : Assembly) : List Event :=
  let schema := d.finish a
  [.ofProgram a.trie.size d.limit schema.program,
    .schemaCompiled schema.id schema.size schema.words schema.mixins.length]

/-- Compiles a draft, with names compared by their images under `fold`. -/
def compileFolding (d : Draft) (fold : String → String) : Report :=
  match d.assemble fold with
  | .error rejection => ⟨.error rejection.error, [rejection.event]⟩
  | .ok a => ⟨.ok (d.finish a), d.successEvents a⟩

/-- Compiles a draft, with names compared ignoring case. -/
def compile (d : Draft) : Report := d.compileFolding Text.lowercase

end Draft
end TypedRecords
