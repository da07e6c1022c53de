import TypedRecords.Decimal.Printer
import TypedRecords.Number.Double.Printer
import TypedRecords.Record.Cursor
import TypedRecords.Text.Enclosed

/-!
# Listings of values and records

A value is listed by its kind and content, and a record by its assigned fields in braces.
-/

namespace TypedRecords

open Text (braced bracketed quoteString)

/-- The listing of a decimal. -/
def Decimal.listing (d : Decimal) : String := "Decimal(" ++ d.text ++ ")"

/-- The listing of a truth value. -/
private def truthText (b : Bool) : String := if b then "true" else "false"

/-- The listing of a record whose values are listed already. -/
def RecordOf.listingOf (r : RecordOf String) : String :=
  braced (r.items.map fun (name, text) => quoteString name ++ ": " ++ text)

mutual

/-- The listing of a value. -/
def Value.listing : Value → String
  | .null => "Null"
  | .bool b => "Bool(" ++ truthText b ++ ")"
  | .int i => "Int(" ++ toString i.toInt ++ ")"
  | .float x => "Float(" ++ x.text ++ ")"
  | .decimal d => "Decimal(" ++ d.listing ++ ")"
  | .guid g => "Guid(" ++ g.text ++ ")"
  | .dateTime t => "DateTime(" ++ t.text ++ ")"
  | .text s => "Text(" ++ quoteString s ++ ")"
  | .bytes bs => "Bytes(" ++ bracketed (bs.map fun b => toString b.toNat) ++ ")"
  | .list items => "List(" ++ bracketed (Value.listings items) ++ ")"
  | .record r => "Record(" ++ RecordOf.listing r ++ ")"

/-- The listings of values. -/
def Value.listings : List Value → List String
  | [] => []
  | v :: vs => Value.listing v :: Value.listings vs

/-- The listing of a record. -/
def RecordOf.listing : RecordOf Value → String
  | ⟨schema, slots, presence⟩ => RecordOf.listingOf ⟨schema, Value.listings slots, presence⟩

end

end TypedRecords
