import TypedRecords.Name.Program
import TypedRecords.Text.Enclosed

/-!
# Listings of programs

A program is listed on one line with all its steps and arms.
-/

namespace TypedRecords.Name

open Text (bracketed)

/-- An optional item of a listing. -/
private def optionText : Option String → String
  | none => "None"
  | some text => "Some(" ++ text ++ ")"

/-- The listing of a step's place. -/
def StepPlace.listing (id : StepPlace) : String := "StepId(" ++ toString id.toNat ++ ")"

/-- The listing of a step. -/
def Step.listing : Step → String
  | .scan first last =>
    "Scan \x7b start: " ++ toString first.toNat ++ ", end: " ++ toString last.toNat ++ " \x7d"
  | .split pivot lower upper =>
    "Split \x7b pivot: " ++ toString pivot.toNat ++ ", lower: " ++ lower.listing ++
      ", upper: " ++ upper.listing ++ " \x7d"

/-- The listing of an arm. -/
def Arm.listing (a : Arm) : String :=
  "Arm \x7b key: " ++ toString a.key.toNat ++
    ", field: " ++ optionText (a.field.map Position.listing) ++
    ", next: " ++ optionText (a.next.map StepPlace.listing) ++ " \x7d"

/-- The listing of a program. -/
def Program.listing (p : Program) : String :=
  "NameResolver \x7b steps: " ++ bracketed (p.steps.toList.map Step.listing) ++
    ", arms: " ++ bracketed (p.arms.toList.map Arm.listing) ++
    ", entry: " ++ p.entry.listing ++ ", depth: " ++ toString p.depth ++ " \x7d"

end TypedRecords.Name
