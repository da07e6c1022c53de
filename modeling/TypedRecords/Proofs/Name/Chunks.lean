import TypedRecords.Proofs.Name.Packing

/-!
# Chunk by chunk

A text is packed in one go, or chunk by chunk by a procedure that keeps the byte to go on from
(`nextInPlace`). Bytes and characters part company above U+007F: the byte is moved by the lengths of
the characters in UTF-8, and a character that cannot be packed is reported by the number of
characters before it. The procedure finds what the reader finds at that byte and keeps the byte when
it fails (`nextInPlace_eq`). Called again and again from the beginning, it therefore gives the
chunks of the text, and packing loses nothing of it (`packing_lossless`).
-/

namespace TypedRecords.Name

/-! ## Bytes -/

/-- The bytes of a text in UTF-8. -/
def utf8Length (cs : List Char) : Nat := (String.ofList cs).utf8ByteSize

theorem utf8Length_nil : utf8Length [] = 0 := rfl

theorem utf8Length_append (as bs : List Char) :
    utf8Length (as ++ bs) = utf8Length as + utf8Length bs := by
  rw [utf8Length, String.ofList_append, String.utf8ByteSize_append, utf8Length, utf8Length]

theorem utf8Length_singleton (c : Char) : utf8Length [c] = c.utf8Size := by
  rw [utf8Length, ← String.singleton_eq_ofList, String.utf8ByteSize_singleton]

theorem utf8Length_cons (c : Char) (cs : List Char) :
    utf8Length (c :: cs) = c.utf8Size + utf8Length cs := by
  rw [← List.singleton_append, utf8Length_append, utf8Length_singleton]

namespace Reader

theorem bytes_skip (r : Reader) (count : Nat) :
    (r.skip count).bytes = r.bytes + utf8Length (r.rest.take count) := by
  rw [skip]
  generalize r.rest.take count = taken
  simp only [Nat.add_right_inj]
  induction taken with
  | nil => rfl
  | cons c taken ih => rw [List.map_cons, List.sum_cons, ih, utf8Length_cons]

theorem charsWithin_append (before after : List Char) :
    charsWithin (utf8Length before) (before ++ after) = some before.length := by
  induction before with
  | nil => cases after <;> rfl
  | cons c before ih =>
    have hpos := c.utf8Size_pos
    rw [utf8Length_cons, List.cons_append, charsWithin, if_neg (by omega), if_neg (by omega),
      Nat.add_sub_cancel_left, ih]
    rfl

theorem exists_append_of_charsWithin {byte count : Nat} {cs : List Char}
    (h : charsWithin byte cs = some count) :
    ∃ before after, cs = before ++ after ∧ utf8Length before = byte ∧ before.length = count := by
  induction cs generalizing byte count with
  | nil =>
    rw [charsWithin] at h
    split at h
    · next hzero =>
      obtain rfl := Option.some.inj h
      exact ⟨[], [], rfl, hzero.symm, rfl⟩
    · cases h
  | cons c rest ih =>
    rw [charsWithin] at h
    split at h
    · next hzero =>
      obtain rfl := Option.some.inj h
      exact ⟨[], c :: rest, rfl, hzero.symm, rfl⟩
    · split at h
      · cases h
      · next hle =>
        obtain ⟨count, hcount, rfl⟩ := Option.map_eq_some_iff.1 h
        obtain ⟨before, after, rfl, hbytes, rfl⟩ := ih hcount
        refine ⟨c :: before, after, rfl, ?_, rfl⟩
        rw [utf8Length_cons, hbytes]
        omega

/-- Behind a number of characters lies a position. -/
theorem atByte?_utf8Length {s : String} {before after : List Char}
    (hs : s.toList = before ++ after) :
    atByte? s (utf8Length before) = some ⟨before.length, utf8Length before, after⟩ := by
  have hbytes := bytes_skip (ofString s) before.length
  simp only [skip, ofString, ofList, hs, List.take_left', Nat.zero_add] at hbytes
  rw [atByte?, hs, charsWithin_append, Option.map_some]
  simp only [skip, ofString, ofList, hs, List.take_left', List.drop_left', Nat.zero_add, hbytes]

/-- The positions in a text are those between two of its characters and at its ends. -/
theorem atByte?_eq_some_iff {s : String} {byte : Nat} {r : Reader} :
    atByte? s byte = some r ↔ ∃ before, s.toList = before ++ r.rest ∧ utf8Length before = byte ∧
      r.chars = before.length ∧ r.bytes = byte := by
  constructor
  · intro h
    obtain ⟨count, hcount, -⟩ := Option.map_eq_some_iff.1 h
    obtain ⟨before, after, hs, rfl, -⟩ := exists_append_of_charsWithin hcount
    rw [atByte?_utf8Length hs] at h
    obtain rfl := Option.some.inj h
    exact ⟨before, hs, rfl, rfl, rfl⟩
  · rintro ⟨before, hs, rfl, hchars, hbytes⟩
    rw [atByte?_utf8Length hs, ← hchars]
    exact congrArg some (congrArg₂ (Reader.mk r.chars · ·) hbytes.symm rfl)

end Reader

/-! ## Packing in place -/

/-- What stops the packing of a chunk. -/
inductive ChunkFault where
  /-- A character cannot be packed. -/
  | bad (bad : BadChar)
  /-- The byte lies within a character or behind the end of the text. -/
  | notBoundary
  deriving DecidableEq, Repr

/-- Packs one more character of the text behind the byte `start`: `found` is the key so far and the
bytes it took. -/
def packChar (s : String) (start : Nat) (found : UInt64 × Nat) (c : Char) :
    EStateM ChunkFault Nat (UInt64 × Nat) :=
  if isPackable c then
    return (found.1 <<< 8 ||| UInt64.ofNat c.toNat, found.2 + c.utf8Size)
  else
    match Reader.atByte? s (start + found.2) with
    | some here => throw (.bad ⟨c, here.chars⟩)
    | none => throw .notBoundary

/-- Packs the next chunk of a text as a procedure on the byte to go on from. What it has made of
that byte when it fails stays. -/
def nextInPlace (s : String) : EStateM ChunkFault Nat UInt64 := do
  let start ← get
  match Reader.atByte? s start with
  | none => throw .notBoundary
  | some here =>
    let (chunk, consumed) ← (here.rest.take charsPerChunk).foldlM (packChar s start) (0, 0)
    set (start + consumed)
    return chunk

theorem firstBad?_cons (c : Char) (cs : List Char) :
    firstBad? (c :: cs) = if isPackable c then
      (firstBad? cs).map fun bad => ⟨bad.char, bad.offset + 1⟩ else some ⟨c, 0⟩ := by
  rw [← List.singleton_append, firstBad?_append]
  cases hc : isPackable c with
  | false => simp [firstBad?, hc]
  | true => simp [firstBad?, hc, Nat.add_comm]

/-- The loop over the characters of a chunk: `done` are packed already, and the byte stays. -/
theorem foldlM_packChar {s : String} {before done ahead after : List Char} (chunk : UInt64)
    (byte : Nat) (hs : s.toList = before ++ done ++ ahead ++ after) :
    ahead.foldlM (packChar s (utf8Length before)) (chunk, utf8Length done) byte =
      match firstBad? ahead with
      | some bad => .error (.bad ⟨bad.char, (before ++ done).length + bad.offset⟩) byte
      | none => .ok (ahead.foldl (fun k c => k <<< 8 ||| UInt64.ofNat c.toNat) chunk,
          utf8Length (done ++ ahead)) byte := by
  induction ahead generalizing chunk done with
  | nil =>
    rw [List.append_nil]
    rfl
  | cons c ahead ih =>
    rw [List.foldlM_cons, firstBad?_cons]
    by_cases hc : isPackable c
    · have hdone : utf8Length done + c.utf8Size = utf8Length (done ++ [c]) := by
        rw [utf8Length_append, utf8Length_singleton]
      have hs' : s.toList = before ++ (done ++ [c]) ++ ahead ++ after := by simpa using hs
      have hrest := ih (chunk <<< 8 ||| UInt64.ofNat c.toNat) hs'
      simp only [packChar, hc, if_true, bind, EStateM.bind, pure, EStateM.pure, hdone, hrest]
      cases firstBad? ahead with
      | none => simp
      | some bad => simp [Nat.add_assoc, Nat.add_comm bad.offset]
    · have hat : Reader.atByte? s (utf8Length before + utf8Length done) =
          some ⟨(before ++ done).length, utf8Length (before ++ done), c :: ahead ++ after⟩ := by
        rw [← utf8Length_append]
        exact Reader.atByte?_utf8Length (by simpa using hs)
      simp only [packChar, hc, hat, bind, EStateM.bind]
      rfl

/-- The procedure packs what the reader packs at its byte, and keeps the byte if that fails. -/
theorem nextInPlace_eq (s : String) (byte : Nat) :
    nextInPlace s byte = match Reader.atByte? s byte with
      | none => .error .notBoundary byte
      | some here =>
        match here.next with
        | .ok (chunk, here') => .ok chunk here'.bytes
        | .error bad => .error (.bad bad) byte := by
  have hget : (get : EStateM ChunkFault Nat Nat) byte = .ok byte byte := rfl
  simp only [nextInPlace, bind, EStateM.bind, hget]
  cases hat : Reader.atByte? s byte with
  | none => rfl
  | some here =>
    obtain ⟨before, hs, rfl, hchars, hbytes⟩ := Reader.atByte?_eq_some_iff.1 hat
    have hs' : s.toList =
        before ++ [] ++ here.rest.take charsPerChunk ++ here.rest.drop charsPerChunk := by
      simpa using hs
    have hloop := foldlM_packChar 0 (utf8Length before) hs'
    rw [utf8Length_nil, List.nil_append, List.append_nil] at hloop
    simp only [EStateM.bind, hloop, Reader.next_eq]
    cases firstBad? (here.rest.take charsPerChunk) with
    | some bad => simp only [hchars]
    | none =>
      simp only [Reader.bytes_skip, hbytes]
      rfl

/-! ## One call after the other -/

/-- The byte behind the first `count` characters. -/
def byteBehind (s : String) (count : Nat) : Nat := utf8Length (s.toList.take count)

/-- The characters of the chunk with the number `j`, eight or all that are left. -/
def piece (s : String) (j : Nat) : List Char :=
  (s.toList.drop (charsPerChunk * j)).take charsPerChunk

/-- The byte after so many calls of the procedure, the first of them at the beginning. -/
def byteAfter (s : String) : Nat → Nat
  | 0 => 0
  | calls + 1 =>
    match nextInPlace s (byteAfter s calls) with
    | .ok _ byte | .error _ byte => byte

/-- A call behind so many whole pieces packs the next one, or finds a bad character in it. -/
theorem nextInPlace_byteBehind (s : String) (j : Nat) :
    nextInPlace s (byteBehind s (charsPerChunk * j)) = match firstBad? (piece s j) with
      | some bad => .error (.bad ⟨bad.char, min (charsPerChunk * j) s.length + bad.offset⟩)
          (byteBehind s (charsPerChunk * j))
      | none => .ok (key (piece s j)) (byteBehind s (charsPerChunk * (j + 1))) := by
  have hat : Reader.atByte? s (byteBehind s (charsPerChunk * j)) =
      some ⟨min (charsPerChunk * j) s.length, byteBehind s (charsPerChunk * j),
        s.toList.drop (charsPerChunk * j)⟩ := by
    have hs := (List.take_append_drop (charsPerChunk * j) s.toList).symm
    rw [byteBehind, Reader.atByte?_utf8Length hs, List.length_take, String.length_toList]
  have hbytes : byteBehind s (charsPerChunk * j) + utf8Length (piece s j) =
      byteBehind s (charsPerChunk * (j + 1)) := by
    rw [byteBehind, byteBehind, Nat.mul_succ, List.take_add, utf8Length_append, piece]
  rw [nextInPlace_eq, hat]
  dsimp only
  rw [Reader.next_eq]
  dsimp only
  rw [← piece]
  cases firstBad? (piece s j) with
  | some bad => rfl
  | none =>
    simp only [Reader.bytes_skip]
    rw [← piece, hbytes]

theorem mem_of_mem_piece {s : String} {j : Nat} {c : Char} (hc : c ∈ piece s j) : c ∈ s.toList :=
  List.mem_of_mem_drop (List.mem_of_mem_take hc)

/-- Where no character is bad, every call moves on by one piece. -/
theorem byteAfter_eq {s : String} {calls : Nat}
    (h : ∀ j < calls, ∀ c ∈ piece s j, isPackable c = true) :
    byteAfter s calls = byteBehind s (charsPerChunk * calls) := by
  induction calls with
  | zero => rfl
  | succ calls ih =>
    rw [byteAfter, ih fun j hj => h j (Nat.lt_succ_of_lt hj), nextInPlace_byteBehind,
      firstBad?_eq_none_iff.2 (h calls (Nat.lt_succ_self calls))]

/-! ## The chunks of a text -/

theorem length_chunks (cs : List Char) : (chunks cs).length = (cs.length + 7) / 8 := by
  fun_induction chunks cs with
  | case1 => rfl
  | case2 cs hne ih =>
    have hpos := List.length_pos_iff.2 hne
    rw [List.length_cons, ih, List.length_drop, charsPerChunk]
    omega

/-- The chunks are the keys of the pieces. -/
theorem getElem?_chunks (cs : List Char) (j : Nat) :
    (chunks cs)[j]? = if charsPerChunk * j < cs.length then
      some (key ((cs.drop (charsPerChunk * j)).take charsPerChunk)) else none := by
  fun_induction chunks cs generalizing j with
  | case1 => rfl
  | case2 cs hne ih =>
    cases j with
    | zero =>
      rw [Nat.mul_zero, if_pos (List.length_pos_iff.2 hne), List.drop_zero]
      rfl
    | succ j =>
      rw [List.getElem?_cons_succ, ih, List.drop_drop, List.length_drop, Nat.mul_succ,
        Nat.add_comm charsPerChunk]
      simp only [Nat.lt_sub_iff_add_lt]

/-- Behind the last chunk there is an empty piece, and its key is zero. -/
theorem getD_chunks (cs : List Char) (j : Nat) :
    (chunks cs).getD j 0 = key ((cs.drop (charsPerChunk * j)).take charsPerChunk) := by
  rw [List.getD_eq_getElem?_getD, getElem?_chunks]
  split
  · rfl
  · next hend =>
    rw [List.drop_eq_nil_of_le (Nat.le_of_not_lt hend)]
    rfl

/-- The text of a path. -/
def unpack (path : List UInt64) : String := String.ofList (path.flatMap unpackKey)

/-- The path is a lossless code of the text, and the procedure gives it chunk by chunk. -/
structure PacksInto (s : String) (path : List UInt64) : Prop where
  length_eq : path.length = (s.length + 7) / 8
  ne_zero {k : UInt64} : k ∈ path → k ≠ 0
  /-- The first character of a piece is the highest digit. -/
  toNat_eq {j : Nat} {k : UInt64} : path[j]? = some k →
    k.toNat = Nat.ofDigits 256 ((piece s j).reverse.map Char.toNat)
  unpack_eq : unpack path = s
  byteAfter_eq (j : Nat) : byteAfter s j = byteBehind s (8 * j)
  next_eq (j : Nat) : nextInPlace s (byteAfter s j) = .ok (path.getD j 0) (byteAfter s (j + 1))
  /-- Behind the last chunk the procedure stands at the end of the text. -/
  next_end {j : Nat} : path.length ≤ j →
    byteAfter s j = s.utf8ByteSize ∧ nextInPlace s (byteAfter s j) = .ok 0 (byteAfter s j)

/-- The character is the first that cannot be packed, and the procedure reports it once it comes to
the piece that the character lies in, whenever it is called again. -/
structure StopsAt (s : String) (bad : BadChar) : Prop where
  first : ∃ before after, s.toList = before ++ bad.char :: after ∧
    (∀ c ∈ before, 0 < c.toNat ∧ c.toNat ≤ 0xFF) ∧
    ¬(0 < bad.char.toNat ∧ bad.char.toNat ≤ 0xFF) ∧ bad.offset = before.length
  next_eq {j : Nat} : j < bad.offset / 8 → byteAfter s j = byteBehind s (8 * j) ∧
    nextInPlace s (byteAfter s j) = .ok (key (piece s j)) (byteAfter s (j + 1))
  next_bad {j : Nat} : bad.offset / 8 ≤ j → byteAfter s j = byteBehind s (8 * (bad.offset / 8)) ∧
    nextInPlace s (byteAfter s j) = .error (.bad bad) (byteAfter s j)

theorem pack_eq_error_iff {s : String} {bad : BadChar} :
    pack s = .error bad ↔ firstBad? s.toList = some bad := by
  rw [pack_eq]
  cases firstBad? s.toList <;> simp

theorem packsInto {s : String} {path : List UInt64} (h : pack s = .ok path) : PacksInto s path := by
  obtain ⟨hs, rfl⟩ := pack_eq_ok_iff.1 h
  have hpiece (j : Nat) : ∀ c ∈ piece s j, isPackable c := fun c hc => hs c (mem_of_mem_piece hc)
  have hbyte (j : Nat) : byteAfter s j = byteBehind s (charsPerChunk * j) :=
    byteAfter_eq fun i _ => hpiece i
  have hnext (j : Nat) :
      nextInPlace s (byteAfter s j) = .ok ((chunks s.toList).getD j 0) (byteAfter s (j + 1)) := by
    rw [hbyte, hbyte, nextInPlace_byteBehind, firstBad?_eq_none_iff.2 (hpiece j), getD_chunks]
    rfl
  have hlength : (chunks s.toList).length = (s.length + 7) / 8 := by
    rw [length_chunks, String.length_toList]
  refine ⟨hlength, ne_zero_of_mem_chunks hs _, ?_, ?_, hbyte, hnext, ?_⟩
  · intro j k hk
    rw [getElem?_chunks] at hk
    split at hk
    · obtain rfl := Option.some.inj hk
      exact toNat_key (hpiece j) (List.length_take_le ..)
    · cases hk
  · rw [unpack, flatMap_unpackKey_chunks hs, String.ofList_toList]
  · intro j hj
    have hend {i : Nat} (hi : j ≤ i) : byteAfter s i = s.utf8ByteSize := by
      have hle : s.toList.length ≤ charsPerChunk * i := by
        rw [String.length_toList, charsPerChunk]
        omega
      rw [hbyte, byteBehind, List.take_of_length_le hle, utf8Length, String.ofList_toList]
    refine ⟨hend (Nat.le_refl j), ?_⟩
    rw [hnext, hend (Nat.le_refl j), hend (Nat.le_succ j), List.getD_eq_getElem?_getD,
      List.getElem?_eq_none hj, Option.getD_none]

/-- A text whose first bad character lies in a piece has no bad one in the pieces before. -/
theorem isPackable_of_mem_piece {s : String} {bad : BadChar} (h : firstBad? s.toList = some bad)
    {j : Nat} (hj : j < bad.offset / 8) : ∀ c ∈ piece s j, isPackable c := by
  obtain ⟨before, after, hs, hbefore, -, hoffset⟩ := firstBad?_eq_some_iff.1 h
  intro c hc
  rw [piece, hs, charsPerChunk, List.drop_append_of_le_length (by omega),
    List.take_append_of_le_length (by rw [List.length_drop]; omega)] at hc
  exact hbefore c (List.mem_of_mem_drop (List.mem_of_mem_take hc))

theorem firstBad?_piece {s : String} {bad : BadChar} (h : firstBad? s.toList = some bad) :
    firstBad? (piece s (bad.offset / 8)) = some ⟨bad.char, bad.offset % 8⟩ := by
  obtain ⟨before, after, hs, hbefore, hchar, hoffset⟩ := firstBad?_eq_some_iff.1 h
  have hlength : (before.drop (charsPerChunk * (bad.offset / 8))).length = bad.offset % 8 := by
    rw [List.length_drop, charsPerChunk]
    omega
  have hroom : charsPerChunk - bad.offset % 8 = 7 - bad.offset % 8 + 1 := by
    rw [charsPerChunk]
    omega
  have hpiece : piece s (bad.offset / 8) = before.drop (charsPerChunk * (bad.offset / 8)) ++
      bad.char :: after.take (7 - bad.offset % 8) := by
    rw [piece, hs, List.drop_append_of_le_length (by rw [charsPerChunk]; omega), List.take_append,
      hlength, hroom, List.take_succ_cons, List.take_of_length_le (by rw [hlength]; omega)]
  exact firstBad?_eq_some_iff.2
    ⟨_, _, hpiece, fun c hc => hbefore c (List.mem_of_mem_drop hc), hchar, hlength.symm⟩

/-- The call that comes to the first bad character reports it and stays. -/
theorem nextInPlace_of_firstBad? {s : String} {bad : BadChar}
    (h : firstBad? s.toList = some bad) :
    nextInPlace s (byteBehind s (charsPerChunk * (bad.offset / 8))) =
      .error (.bad bad) (byteBehind s (charsPerChunk * (bad.offset / 8))) := by
  have hcount : min (charsPerChunk * (bad.offset / 8)) s.length + bad.offset % 8 = bad.offset := by
    obtain ⟨before, after, hs, -, -, hoffset⟩ := firstBad?_eq_some_iff.1 h
    rw [← String.length_toList, hs, List.length_append, List.length_cons, charsPerChunk]
    omega
  rw [nextInPlace_byteBehind, firstBad?_piece h]
  simp only [hcount]

theorem stopsAt {s : String} {bad : BadChar} (h : pack s = .error bad) : StopsAt s bad := by
  have hbad : firstBad? s.toList = some bad := pack_eq_error_iff.1 h
  have hbyte {j : Nat} (hj : j ≤ bad.offset / 8) :
      byteAfter s j = byteBehind s (charsPerChunk * j) :=
    byteAfter_eq fun i hi => isPackable_of_mem_piece hbad (Nat.lt_of_lt_of_le hi hj)
  have hstay {j : Nat} (hj : bad.offset / 8 ≤ j) :
      byteAfter s j = byteBehind s (charsPerChunk * (bad.offset / 8)) := by
    induction j, hj using Nat.le_induction with
    | base => exact hbyte (Nat.le_refl _)
    | succ j _ ih => rw [byteAfter, ih, nextInPlace_of_firstBad? hbad]
  refine ⟨?_, fun {j} hj => ⟨hbyte hj.le, ?_⟩, fun {j} hj => ⟨hstay hj, ?_⟩⟩
  · obtain ⟨before, after, hs, hbefore, hchar, hoffset⟩ := firstBad?_eq_some_iff.1 hbad
    refine ⟨before, after, hs, fun c hc => isPackable_iff.1 (hbefore c hc), ?_, hoffset⟩
    rw [← isPackable_iff, hchar]
    exact Bool.false_ne_true
  · rw [hbyte hj.le, hbyte hj, nextInPlace_byteBehind,
      firstBad?_eq_none_iff.2 (isPackable_of_mem_piece hbad hj)]
  · rw [hstay hj, nextInPlace_of_firstBad? hbad]

/-- Packing loses nothing. Exactly the texts of characters from U+0001 to U+00FF are packed; their
paths have a chunk for every eight characters begun, the number with the code points as its digits
and never zero, and the text can be read off the path. Of another text the first character out of
range is reported, with the number of characters before it. Called again and again, the procedure
that packs one chunk moves on by whole characters and gives the chunks of the path, and zero from
then on; where a chunk has a character out of range, it reports what packing the text reports and
stays where it is. -/
theorem packing_lossless (s : String) :
    ((∃ path, pack s = .ok path) ↔ ∀ c ∈ s.toList, 0 < c.toNat ∧ c.toNat ≤ 0xFF) ∧
    (∀ path, pack s = .ok path → PacksInto s path ∧ ∀ s', pack s' = .ok path → s' = s) ∧
    (∀ bad, pack s = .error bad → StopsAt s bad) := by
  refine ⟨?_, fun path h => ⟨packsInto h, fun s' h' => pack_injective h' h⟩, fun bad => stopsAt⟩
  simp only [pack_eq_ok_iff, isPackable_iff]
  exact ⟨fun ⟨_, hs, _⟩ => hs, fun hs => ⟨_, hs, rfl⟩⟩

/-- A character out of range in the second chunk, behind characters of two bytes each. -/
theorem packing_lossless_two_bytes :
    pack "ÀÀÀÀÀÀÀÀÀ€" = .error ⟨'€', 9⟩ ∧ byteAfter "ÀÀÀÀÀÀÀÀÀ€" 5 = 16 ∧
      nextInPlace "ÀÀÀÀÀÀÀÀÀ€" 16 = .error (.bad ⟨'€', 9⟩) 16 ∧
      ∃ path, pack "DécimalProp1" = .ok path ∧ path.length = 2 ∧ unpack path = "DécimalProp1" := by
  have hbad : pack "ÀÀÀÀÀÀÀÀÀ€" = .error ⟨'€', 9⟩ := by decide +kernel
  have hall : "DécimalProp1".toList.all isPackable = true := by decide +kernel
  obtain ⟨path, hpath⟩ : ∃ path, pack "DécimalProp1" = .ok path :=
    (packing_lossless _).1.2 fun c hc => isPackable_iff.1 (List.all_eq_true.1 hall c hc)
  obtain ⟨hbyte, hnext⟩ := ((packing_lossless _).2.2 _ hbad).next_bad (show 9 / 8 ≤ 5 by decide)
  have hbytes : byteBehind "ÀÀÀÀÀÀÀÀÀ€" (8 * (9 / 8)) = 16 := by decide +kernel
  rw [hbyte, hbytes] at hnext
  obtain ⟨hpacks, -⟩ := (packing_lossless _).2.1 _ hpath
  exact ⟨hbad, hbyte.trans hbytes, hnext, path, hpath, hpacks.length_eq.trans (by decide +kernel),
    hpacks.unpack_eq⟩

end TypedRecords.Name
