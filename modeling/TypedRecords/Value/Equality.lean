import TypedRecords.Value.Basic

/-!
# Equality of values

Values are compared by kind and content, floating-point numbers as numbers: a NaN differs from
itself and the two zeros are equal. Records are equal if they have the same schema, the same fields
assigned and equal slots.
-/

namespace TypedRecords

mutual

/-- Whether two values are equal. -/
def Value.equals : Value → Value → Bool
  | .null, .null => true
  | .bool a, .bool b => a == b
  | .int a, .int b => a == b
  | .float a, .float b => a.equals b
  | .decimal a, .decimal b => a == b
  | .guid a, .guid b => a == b
  | .dateTime a, .dateTime b => a == b
  | .text a, .text b => a == b
  | .bytes a, .bytes b => a == b
  | .list as, .list bs => Value.equalLists as bs
  | .record a, .record b => RecordOf.equals a b
  | _, _ => false

/-- Whether two lists have equal values at equal places. -/
def Value.equalLists : List Value → List Value → Bool
  | [], [] => true
  | a :: as, b :: bs => Value.equals a b && Value.equalLists as bs
  | _, _ => false

/-- Whether two records are equal. -/
def RecordOf.equals : RecordOf Value → RecordOf Value → Bool
  | ⟨schema, slots, presence⟩, ⟨schema', slots', presence'⟩ =>
    schema.serial == schema'.serial && presence == presence' && Value.equalLists slots slots'

end

end TypedRecords
