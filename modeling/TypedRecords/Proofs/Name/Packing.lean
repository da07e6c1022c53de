import Mathlib.Data.List.Induction
import Mathlib.Data.Nat.Digits.Defs
import TypedRecords.Name.Packing

/-!
# Packing loses nothing

A key is the number whose digits to base 256 are the code points of its characters. None of these
digits is zero, so the characters can be read off the key again (`unpackKey_key`), and different
names pack to different paths (`pack_injective`). `pack_eq` says what packing does with any text:
it reports the first character that does not fit in a byte, and otherwise gives the keys of the
text's pieces of eight characters.
-/

namespace TypedRecords.Name

/-! ## Keys as numbers -/

theorem isPackable_iff {c : Char} : isPackable c = true ↔ 0 < c.toNat ∧ c.toNat ≤ 0xFF := by
  simp [isPackable]

theorem key_append_singleton (cs : List Char) (c : Char) :
    key (cs ++ [c]) = key cs <<< 8 ||| UInt64.ofNat c.toNat := by
  simp [key]

/-- The code points of packable characters are digits to base 256. -/
theorem codePoints_lt {cs : List Char} (hcs : ∀ c ∈ cs, isPackable c) :
    ∀ d ∈ cs.reverse.map Char.toNat, d < 256 := by
  intro d hd
  obtain ⟨c, hc, rfl⟩ := List.mem_map.1 hd
  have := (isPackable_iff.1 (hcs c (List.mem_reverse.1 hc))).2
  omega

/-- The key of a piece, as a number, has the code points of the piece as its digits. -/
theorem toNat_key {cs : List Char} (hcs : ∀ c ∈ cs, isPackable c)
    (hlen : cs.length ≤ charsPerChunk) :
    (key cs).toNat = Nat.ofDigits 256 (cs.reverse.map Char.toNat) := by
  induction cs using List.reverseRecOn with
  | nil => rfl
  | append_singleton cs c ih =>
    have hinit : ∀ d ∈ cs, isPackable d := fun d hd => hcs d (List.mem_append_left _ hd)
    have hlen' : cs.length ≤ 7 := by
      simp only [List.length_append, List.length_singleton, charsPerChunk] at hlen
      omega
    have hc : c.toNat < 2 ^ 8 := by
      have := (isPackable_iff.1 (hcs c (by simp))).2
      omega
    have ih := ih hinit (by simp only [charsPerChunk]; omega)
    have hbound : (key cs).toNat < 256 ^ 7 := by
      rw [ih]
      calc Nat.ofDigits 256 (cs.reverse.map Char.toNat)
          < 256 ^ (cs.reverse.map Char.toNat).length :=
            Nat.ofDigits_lt_base_pow_length (by decide) (codePoints_lt hinit)
        _ ≤ 256 ^ 7 := Nat.pow_le_pow_right (by decide) (by simpa using hlen')
    have hshift : (key cs <<< 8).toNat = (key cs).toNat <<< 8 := by
      rw [UInt64.toNat_shiftLeft]
      exact Nat.mod_eq_of_lt (by
        simp only [Nat.shiftLeft_eq, UInt64.reduceToNat, Nat.reduceMod, Nat.reducePow]
        omega)
    have hcode : (UInt64.ofNat c.toNat).toNat = c.toNat :=
      UInt64.toNat_ofNat_of_lt' (by simp only [UInt64.size]; omega)
    rw [key_append_singleton, UInt64.toNat_or, hshift, hcode,
      ← Nat.shiftLeft_add_eq_or_of_lt hc, ih]
    simp only [List.reverse_append, List.reverse_singleton, List.singleton_append, List.map_cons,
      Nat.ofDigits_cons, Nat.shiftLeft_eq]
    omega

/-- The characters whose key is given. -/
def unpackKey (k : UInt64) : List Char := ((Nat.digits 256 k.toNat).map Char.ofNat).reverse

/-- The characters of a piece can be read off its key. -/
theorem unpackKey_key {cs : List Char} (hcs : ∀ c ∈ cs, isPackable c)
    (hlen : cs.length ≤ charsPerChunk) : unpackKey (key cs) = cs := by
  have hlast : ∀ h : cs.reverse.map Char.toNat ≠ [],
      (cs.reverse.map Char.toNat).getLast h ≠ 0 := by
    intro h
    obtain ⟨c, hc, hcode⟩ := List.mem_map.1 (List.getLast_mem h)
    rw [← hcode]
    exact (isPackable_iff.1 (hcs c (List.mem_reverse.1 hc))).1.ne'
  rw [unpackKey, toNat_key hcs hlen,
    Nat.digits_ofDigits 256 (by decide) _ (codePoints_lt hcs) hlast]
  simp [Function.comp_def]

/-- Only the key of nothing is zero, so that it never looks like padding. -/
theorem key_ne_zero {cs : List Char} (hcs : ∀ c ∈ cs, isPackable c)
    (hlen : cs.length ≤ charsPerChunk) (hne : cs ≠ []) : key cs ≠ 0 := by
  intro h
  have := unpackKey_key hcs hlen
  rw [h] at this
  exact hne (by rw [← this]; simp [unpackKey])

/-! ## Paths of texts -/

/-- The keys of the pieces of a text. -/
def chunks (cs : List Char) : List UInt64 :=
  if _ : cs = [] then []
  else key (cs.take charsPerChunk) :: chunks (cs.drop charsPerChunk)
termination_by cs.length
decreasing_by
  have := List.length_pos_iff.2 ‹¬cs = []›
  simp only [List.length_drop, charsPerChunk]
  omega

/-- The first character of a text that does not fit in a byte, and what precedes it. -/
def firstBad? (cs : List Char) : Option BadChar :=
  (cs.zipIdx.find? (!isPackable ·.1)).map fun (char, offset) => ⟨char, offset⟩

@[simp] theorem chunks_nil : chunks [] = [] := by
  rw [chunks]
  rfl

theorem chunks_of_ne_nil {cs : List Char} (h : cs ≠ []) :
    chunks cs = key (cs.take charsPerChunk) :: chunks (cs.drop charsPerChunk) := by
  rw [chunks, dif_neg h]

theorem chunks_of_length_le {cs : List Char} (h : cs ≠ []) (hlength : cs.length ≤ charsPerChunk) :
    chunks cs = [key cs] := by
  rw [chunks_of_ne_nil h, List.take_of_length_le hlength, List.drop_of_length_le hlength,
    chunks_nil]

theorem firstBad?_eq_none_iff {cs : List Char} :
    firstBad? cs = none ↔ ∀ c ∈ cs, isPackable c := by
  simp only [firstBad?, Option.map_eq_none_iff, List.find?_eq_none]
  constructor
  · intro h c hc
    obtain ⟨i, hi, rfl⟩ := List.getElem_of_mem hc
    simpa using h (cs[i], i) (List.mk_mem_zipIdx_iff_getElem?.2 (List.getElem?_eq_getElem hi))
  · intro h x hx
    simpa using h x.1 (List.fst_mem_of_mem_zipIdx hx)

/-- The keys on a path are not zero. -/
theorem ne_zero_of_mem_chunks {cs : List Char} (hcs : ∀ c ∈ cs, isPackable c) :
    ∀ k ∈ chunks cs, k ≠ 0 := by
  fun_induction chunks cs with
  | case1 => simp
  | case2 cs hne ih =>
    intro k hk
    rcases List.mem_cons.1 hk with rfl | hk
    · refine key_ne_zero (fun c hc => hcs c (List.mem_of_mem_take hc)) (List.length_take_le ..) ?_
      simpa [charsPerChunk] using hne
    · exact ih (fun c hc => hcs c (List.mem_of_mem_drop hc)) k hk

/-- The text of a path. -/
theorem flatMap_unpackKey_chunks {cs : List Char} (hcs : ∀ c ∈ cs, isPackable c) :
    (chunks cs).flatMap unpackKey = cs := by
  fun_induction chunks cs with
  | case1 => rfl
  | case2 cs hne ih =>
    rw [List.flatMap_cons, ih (fun c hc => hcs c (List.mem_of_mem_drop hc)),
      unpackKey_key (fun c hc => hcs c (List.mem_of_mem_take hc)) (List.length_take_le ..),
      List.take_append_drop]

theorem firstBad?_append (as bs : List Char) :
    firstBad? (as ++ bs) = (firstBad? as).or
      ((firstBad? bs).map fun bad => ⟨bad.char, as.length + bad.offset⟩) := by
  have hshift : bs.zipIdx (0 + as.length) = bs.zipIdx.map (Prod.map id (· + as.length)) := by
    rw [List.map_snd_add_zipIdx_eq_zipIdx, Nat.add_zero, Nat.zero_add]
  simp only [firstBad?, List.zipIdx_append, hshift, List.find?_append, List.find?_map,
    Option.map_or, Option.map_map]
  congr 2
  funext x
  simp [Nat.add_comm]

/-- The first character that does not fit, with nothing but fitting ones before it. -/
theorem firstBad?_eq_some_iff {cs : List Char} {bad : BadChar} :
    firstBad? cs = some bad ↔ ∃ before after, cs = before ++ bad.char :: after ∧
      (∀ c ∈ before, isPackable c) ∧ isPackable bad.char = false ∧ bad.offset = before.length := by
  have hfound {before after : List Char} {c : Char} (hbefore : ∀ c ∈ before, isPackable c)
      (hc : isPackable c = false) :
      firstBad? (before ++ c :: after) = some ⟨c, before.length⟩ := by
    rw [firstBad?_append, firstBad?_eq_none_iff.2 hbefore, Option.none_or]
    simp [firstBad?, hc]
  constructor
  · intro h
    cases hfind : cs.find? (!isPackable ·) with
    | none =>
      have hnone : firstBad? cs = none := firstBad?_eq_none_iff.2 (by simpa using hfind)
      rw [h] at hnone
      cases hnone
    | some c =>
      obtain ⟨hc, before, after, rfl, hbefore⟩ := List.find?_eq_some_iff_append.1 hfind
      simp only [Bool.not_eq_true', Bool.not_not] at hc hbefore
      rw [hfound hbefore hc] at h
      cases h
      exact ⟨before, after, rfl, hbefore, hc, rfl⟩
  · rintro ⟨before, after, rfl, hbefore, hc, hoffset⟩
    rw [hfound hbefore hc, ← hoffset]

namespace Reader

theorem next_eq (r : Reader) :
    r.next = match firstBad? (r.rest.take charsPerChunk) with
      | some bad => .error ⟨bad.char, r.chars + bad.offset⟩
      | none => .ok (key (r.rest.take charsPerChunk), r.skip charsPerChunk) := by
  unfold next firstBad?
  cases (r.rest.take charsPerChunk).zipIdx.find? (!isPackable ·.1) <;> rfl

/-- At the end of the text the key is zero. -/
theorem next_of_rest_eq_nil {r : Reader} (h : r.rest = []) :
    r.next = .ok (0, r.skip charsPerChunk) := by
  rw [next_eq, h]
  rfl

theorem remaining_of_rest_eq_nil {r : Reader} (h : r.rest = []) : r.remaining = .ok [] := by
  rw [remaining, dif_pos h]

/-- Packing all that is left takes one chunk and goes on behind it. -/
theorem remaining_of_rest_ne_nil {r : Reader} (h : r.rest ≠ []) :
    r.remaining = match r.next with
      | .error bad => .error bad
      | .ok (k, r') => (k :: ·) <$> r'.remaining := by
  rw [remaining, dif_neg h]
  cases r.next <;> rfl

/-- Packing the rest of a text reports its first bad character, or gives the keys of its pieces. -/
theorem remaining_eq (r : Reader) :
    r.remaining = match firstBad? r.rest with
      | some bad => .error ⟨bad.char, r.chars + bad.offset⟩
      | none => .ok (chunks r.rest) := by
  fun_induction remaining r with
  | case1 r hrest => simp [hrest, firstBad?]
  | case2 r hrest bad hnext =>
    rw [next_eq] at hnext
    rw [← List.take_append_drop charsPerChunk r.rest, firstBad?_append]
    cases htake : firstBad? (r.rest.take charsPerChunk) with
    | none => simp [htake] at hnext
    | some found => simpa [htake] using hnext.symm
  | case3 r hrest k r' hnext ih =>
    have hr' : r' = r.skip charsPerChunk := eq_skip_of_next hnext
    rw [next_eq] at hnext
    cases htake : firstBad? (r.rest.take charsPerChunk) with
    | some found => simp [htake] at hnext
    | none =>
      have hk : k = key (r.rest.take charsPerChunk) := by
        simp only [htake, Except.ok.injEq, Prod.mk.injEq] at hnext
        exact hnext.1.symm
      rw [ih, chunks_of_ne_nil hrest, ← List.take_append_drop charsPerChunk r.rest,
        firstBad?_append, List.take_append_drop, htake, hr', rest_skip]
      cases hdrop : firstBad? (r.rest.drop charsPerChunk) with
      | none => simp [hk]
      | some found => simp [skip, Nat.add_assoc]

end Reader

/-! ## Names -/

/-- Packing a name reports its first bad character, or gives the keys of its pieces. -/
theorem pack_eq (s : String) :
    pack s = match firstBad? s.toList with
      | some bad => .error bad
      | none => .ok (chunks s.toList) := by
  rw [pack, Reader.remaining_eq]
  simp only [Reader.ofString, Reader.ofList, Nat.zero_add]

theorem pack_eq_ok_iff {s : String} {path : List UInt64} :
    pack s = .ok path ↔ (∀ c ∈ s.toList, isPackable c) ∧ chunks s.toList = path := by
  rw [pack_eq, ← firstBad?_eq_none_iff]
  cases firstBad? s.toList <;> simp

/-- Different names have different paths. -/
theorem pack_injective {s s' : String} {path : List UInt64} (h : pack s = .ok path)
    (h' : pack s' = .ok path) : s = s' := by
  obtain ⟨hs, hpath⟩ := pack_eq_ok_iff.1 h
  obtain ⟨hs', hpath'⟩ := pack_eq_ok_iff.1 h'
  have hcs := flatMap_unpackKey_chunks hs
  rw [hpath, ← hpath', flatMap_unpackKey_chunks hs'] at hcs
  exact String.toList_inj.1 hcs.symm

end TypedRecords.Name
