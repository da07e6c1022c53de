import TypedRecords.Record.Basic

/-!
# Cursors over assigned fields

A cursor meets the assigned fields of a record in ascending order. It keeps the position to examine
next and skips a word without assigned fields in one step. It cannot go back.
-/

namespace TypedRecords

/-- A record, the position to examine next, and the field that was met last. -/
structure Cursor (α : Type) where
  record : RecordOf α
  next : Position
  current : Option Position
  deriving Repr

namespace Position

/-- The position `count` further, if a position can be that large. -/
def plus? (i : Position) (count : Nat) : Option Position := ofNat? (i.toNat + count)

/-- The next position; the last possible one stays. -/
def succ (i : Position) : Position := (i.plus? 1).getD i

end Position

/-- The first set position from `start` on, where `words` begins with the word of `start`, and the
position to examine after it. If nothing is set the latter is the end of the words. -/
def PresenceWord.seek : List PresenceWord → Position → Option Position × Position
  | [], start => (none, start)
  | word :: words, start =>
    match word.listFrom start.bit with
    | bit :: _ =>
      let found := (start.plus? (bit - start.bit)).getD start
      (some found, found.succ)
    | [] =>
      match start.plus? (Position.wordWidth - start.bit) with
      | none => (none, start)
      | some start => seek words start

namespace Cursor

-- Sums start from the core zero here, whatever algebra is imported.
attribute [local instance (2000)] Zero.ofOfNat0

variable {α : Type}

/-- A cursor in front of the first field. -/
def start (record : RecordOf α) : Cursor α := ⟨record, ⟨0⟩, none⟩

/-- Moves to the next assigned field, if there is one. -/
def advance (c : Cursor α) : Cursor α :=
  let (current, next) := PresenceWord.seek (c.record.presence.drop c.next.word) c.next
  { c with current, next }

/-- The name and the value of the field that was met last. -/
def item (c : Cursor α) : Option (String × α) := do
  let position ← c.current
  let field ← c.record.schema.field? position
  let v ← c.record.slots[position.toNat]?
  return (field.name, v)

/-- Moves on; tells whether a field was met. -/
def moveNext (c : Cursor α) : Bool × Cursor α := (c.advance.current.isSome, c.advance)

/-- Moves on; gives the name and the value of the field met. -/
def nextItem (c : Cursor α) : Option (String × α) × Cursor α :=
  let (met, c) := c.moveNext
  (if met then c.item else none, c)

/-- The number of assigned fields still to be met. -/
def remaining (c : Cursor α) : Nat :=
  match c.record.presence.drop c.next.word with
  | [] => 0
  | word :: later => (word.listFrom c.next.bit).length + (later.map PresenceWord.size).sum

/-- Bounds on the number of assigned fields still to be met; they are exact. -/
def sizeBounds (c : Cursor α) : Nat × Option Nat := (c.remaining, some c.remaining)

/-- Going back to the beginning always fails. -/
def reset (_ : Cursor α) : Except Failure (Cursor α) := .error .cannotReset

/-- Moves on until nothing is met or `limit` fields were; returns what was met on the way. -/
def drain : Nat → Cursor α → List (String × α) × Cursor α
  | 0, c => ([], c)
  | limit + 1, c =>
    let c := c.advance
    match c.item with
    | none => ([], c)
    | some first =>
      let (others, c) := drain limit c
      (first :: others, c)

/-- Moves to the end; returns the fields met on the way. -/
def finish (c : Cursor α) : List (String × α) × Cursor α := c.drain (c.remaining + 1)

end Cursor

/-- The assigned fields with their values, in order. -/
def RecordOf.items {α : Type} (r : RecordOf α) : List (String × α) := (Cursor.start r).finish.1

end TypedRecords
