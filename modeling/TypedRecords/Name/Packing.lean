/-!
# Packing names into chunks

A name is packed eight characters at a time into 64-bit keys, one byte per character, the first
character highest. NUL cannot be packed, because a zero byte looks like the padding of a short
chunk, and neither can anything above U+00FF.
-/

namespace TypedRecords.Name

/-- The characters per chunk. -/
def charsPerChunk : Nat := 8

/-- Whether a character fits in a byte that is not zero. -/
def isPackable (c : Char) : Bool := 0 < c.toNat && c.toNat ≤ 0xFF

/-- A character that cannot be packed, and how many characters of the text precede it. -/
structure BadChar where
  char : Char
  offset : Nat
  deriving DecidableEq, Repr

/-- The key of up to eight characters: their code points as the digits of a number to base 256. -/
def key (cs : List Char) : UInt64 :=
  cs.foldl (fun k c => k <<< 8 ||| UInt64.ofNat c.toNat) 0

/-- A position in a text: how many characters and how many bytes of UTF-8 precede it, and the
characters that follow it. -/
structure Reader where
  chars : Nat
  bytes : Nat
  rest : List Char
  deriving DecidableEq, Repr

namespace Reader

-- Sums start from the core zero here, whatever algebra is imported.
attribute [local instance (2000)] Zero.ofOfNat0

/-- The beginning of a text. -/
def ofList (cs : List Char) : Reader := ⟨0, 0, cs⟩

/-- The beginning of a text. -/
def ofString (s : String) : Reader := ofList s.toList

/-- The position behind the first `count` of the characters that follow. -/
def skip (r : Reader) (count : Nat) : Reader :=
  let taken := r.rest.take count
  ⟨r.chars + taken.length, r.bytes + (taken.map Char.utf8Size).sum, r.rest.drop count⟩

/-- How many characters fill the first `bytes` bytes of a text, if the bytes end with one. -/
def charsWithin (bytes : Nat) : List Char → Option Nat
  | [] => if bytes = 0 then some 0 else none
  | c :: rest =>
    if bytes = 0 then some 0
    else if bytes < c.utf8Size then none
    else (charsWithin (bytes - c.utf8Size) rest).map (· + 1)

/-- The position at a byte of a text, if a character begins or the text ends there. -/
def atByte? (s : String) (byte : Nat) : Option Reader :=
  (charsWithin byte s.toList).map (ofString s).skip

/-- Packs the next eight characters, or all that are left, and moves past them; at the end the key
is 0. If one of them cannot be packed, the first such is reported. -/
def next (r : Reader) : Except BadChar (UInt64 × Reader) :=
  match (r.rest.take charsPerChunk).zipIdx.find? (!isPackable ·.1) with
  | some (char, i) => .error ⟨char, r.chars + i⟩
  | none => .ok (key (r.rest.take charsPerChunk), r.skip charsPerChunk)

theorem rest_skip (r : Reader) (count : Nat) : (r.skip count).rest = r.rest.drop count := rfl

theorem eq_skip_of_next {r r' : Reader} {k : UInt64} (h : r.next = .ok (k, r')) :
    r' = r.skip charsPerChunk := by
  unfold next at h
  split at h
  · simp at h
  · simp only [Except.ok.injEq, Prod.mk.injEq] at h
    exact h.2.symm

/-- Packs all that is left, chunk by chunk. -/
def remaining (r : Reader) : Except BadChar (List UInt64) :=
  if _ : r.rest = [] then .ok []
  else
    match _ : r.next with
    | .error bad => .error bad
    | .ok (k, r') => (k :: ·) <$> r'.remaining
termination_by r.rest.length
decreasing_by
  have := List.length_pos_iff.2 ‹¬r.rest = []›
  have moved := eq_skip_of_next ‹r.next = .ok (k, r')›
  rw [moved, rest_skip, List.length_drop]
  simp only [charsPerChunk]
  omega

end Reader

/-- Packs a whole name. -/
def pack (s : String) : Except BadChar (List UInt64) := (Reader.ofString s).remaining

end TypedRecords.Name
