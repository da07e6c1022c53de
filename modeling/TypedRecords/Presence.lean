import TypedRecords.Position

/-!
# Presence bits

Every field owns one bit that tells whether the field was assigned, whatever value it holds. The
bits lie in words of 32 and are handed out densely: a word is filled before the next is opened.
-/

namespace TypedRecords

/-- A set of bit numbers below 32. -/
structure PresenceWord where
  bits : BitVec 32
  deriving DecidableEq, Repr

namespace PresenceWord

/-- No bit is set. -/
def empty : PresenceWord := ⟨0⟩

/-- Whether a bit is set. -/
def contains (w : PresenceWord) (bit : Nat) : Bool := w.bits.getLsbD bit

/-- Sets a bit. -/
def insert (w : PresenceWord) (bit : Nat) : PresenceWord := ⟨w.bits ||| BitVec.twoPow 32 bit⟩

/-- Unsets a bit. -/
def erase (w : PresenceWord) (bit : Nat) : PresenceWord := ⟨w.bits &&& ~~~BitVec.twoPow 32 bit⟩

/-- The set bits, ascending. -/
def toList (w : PresenceWord) : List Nat := (List.range Position.wordWidth).filter w.contains

/-- The number of set bits. -/
def size (w : PresenceWord) : Nat := w.toList.length

/-- Whether no bit is set. -/
def isEmpty (w : PresenceWord) : Bool := w.bits == 0

/-- The set bits from `start` on, ascending. -/
def listFrom (w : PresenceWord) (start : Nat) : List Nat := w.toList.filter (start ≤ ·)

/-- The text of a word: its 32 binary digits, highest first. -/
def listing (w : PresenceWord) : String :=
  let digits := (List.range Position.wordWidth).reverse.map fun bit =>
    if w.contains bit then '1' else '0'
  "PresenceGroup(0b" ++ String.ofList digits ++ ")"

end PresenceWord

/-- Where a field's presence bit lies. -/
structure BitAddress where
  word : Nat
  bit : Nat
  deriving DecidableEq, Repr

/-- Hands out bits: the words opened so far, and the next free bit of the last of them. -/
structure BitSupply where
  words : Nat
  nextBit : Nat
  deriving DecidableEq, Repr

namespace BitSupply

/-- No word is open. -/
def empty : BitSupply := ⟨0, 0⟩

/-- Takes the next bit, opening a word if there is none or the last one is full. -/
def take (s : BitSupply) : BitAddress × BitSupply :=
  let s := if s.words = 0 ∨ s.nextBit = Position.wordWidth then ⟨s.words + 1, 0⟩ else s
  (⟨s.words - 1, s.nextBit⟩, { s with nextBit := s.nextBit + 1 })

/-- Takes `count` bits, in order. -/
def takeMany (s : BitSupply) : Nat → List BitAddress × BitSupply
  | 0 => ([], s)
  | count + 1 =>
    let (first, s) := s.take
    let (others, s) := s.takeMany count
    (first :: others, s)

end BitSupply
end TypedRecords
