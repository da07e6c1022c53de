import TypedRecords.Position
import TypedRecords.Name.Packing

/-!
# Dispatch programs

A dispatch program decides which field a name belongs to by comparing the name's chunks one after
the other. A split step compares the chunk at hand with a pivot; a scan step looks for it among a
range of arms, and either answers or goes on with the next chunk. `Program.move` is one step of the
walk, and `Program.resolve` walks until an answer is reached.
-/

namespace TypedRecords.Name

/-- The place of a step in its program. -/
structure StepPlace where
  raw : UInt32
  deriving DecidableEq, Repr

/-- The place of a step as a number. -/
def StepPlace.toNat (id : StepPlace) : Nat := id.raw.toNat

/-- One step of a program. -/
inductive Step where
  /-- Looks for the chunk among the arms from `first` up to but not including `last`. -/
  | scan (first last : UInt32)
  /-- Goes to `lower` if the chunk is below the pivot, and to `upper` if not. -/
  | split (pivot : UInt64) (lower upper : StepPlace)
  deriving DecidableEq, Repr

/-- What to do on a chunk: the field of the name that ends with it, and the step that examines the
chunk after it. -/
structure Arm where
  key : UInt64
  field : Option Position
  next : Option StepPlace
  deriving DecidableEq, Repr

/-- Steps and arms, the step to begin with, and the number of chunks of the longest name. -/
structure Program where
  steps : Array Step
  arms : Array Arm
  entry : StepPlace
  depth : Nat
  deriving DecidableEq, Repr

/-- A walk on its way: the step to take, the chunk at hand, and the text after that chunk. -/
structure Walk where
  step : StepPlace
  chunk : UInt64
  reader : Reader
  deriving DecidableEq, Repr

/-- What one step leads to. -/
inductive Move where
  | onward (walk : Walk)
  | answer (field : Option Position)
  /-- The step or its arms lie outside the program. -/
  | astray
  deriving DecidableEq, Repr

/-- How a walk of limited length ends. -/
inductive Outcome where
  | answer (field : Option Position)
  | astray
  | unfinished
  deriving DecidableEq, Repr

namespace Program

/-- The arms of a range, if it lies inside the program. -/
def armsIn? (p : Program) (first last : UInt32) : Option (List Arm) :=
  if first ≤ last ∧ last.toNat ≤ p.arms.size then
    some (p.arms.extract first.toNat last.toNat).toList
  else none

/-- Goes on behind an arm that bears the chunk at hand. Only a name that ends here has the arm's
field as its answer. -/
def follow (arm : Arm) (reader : Reader) : Move :=
  if arm.field.isSome && reader.rest.isEmpty then .answer arm.field
  else
    match arm.next with
    | none => .answer none
    | some step =>
      match reader.next with
      | .error _ => .answer none
      | .ok (chunk, reader) => .onward ⟨step, chunk, reader⟩

/-- Takes one step. -/
def move (p : Program) (w : Walk) : Move :=
  match p.steps[w.step.toNat]? with
  | none => .astray
  | some (.split pivot lower upper) =>
    .onward { w with step := if w.chunk < pivot then lower else upper }
  | some (.scan first last) =>
    match p.armsIn? first last with
    | none => .astray
    | some arms =>
      match arms.find? (·.key == w.chunk) with
      | none => .answer none
      | some arm => follow arm w.reader

/-- Takes at most `limit` steps. -/
def run (p : Program) : Nat → Walk → Outcome
  | 0, _ => .unfinished
  | limit + 1, w =>
    match p.move w with
    | .onward w => p.run limit w
    | .answer field => .answer field
    | .astray => .astray

/-- The walk of a name before its first step, if its first chunk packs. -/
def begin? (p : Program) (name : String) : Option Walk :=
  match (Reader.ofString name).next with
  | .error _ => none
  | .ok (chunk, reader) => some ⟨p.entry, chunk, reader⟩

/-- The field of a name. A walk never takes a step twice, so the number of steps limits it. -/
def resolve (p : Program) (name : String) : Option Position := do
  match p.run p.steps.size (← p.begin? name) with
  | .answer field => field
  | .astray | .unfinished => none

end Program
end TypedRecords.Name
