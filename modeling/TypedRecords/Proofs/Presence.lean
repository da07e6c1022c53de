import Mathlib.Tactic.ByContra
import TypedRecords.Presence

/-!
# Presence words as one set of numbers

A run of presence words is read as a set of numbers: bit `b` of word `w` stands for `32 * w + b`
(`hasBit`). Setting or unsetting the bit of a position changes the membership of that number only,
and the set bits of all words together are as many as the set has members (`sum_size_eq`). Bits are
handed out in the order of their numbers (`BitSupply.takeMany_after`).
-/

namespace TypedRecords

theorem Position.toNat_inj {i j : Position} : i.toNat = j.toNat ↔ i = j := by
  cases i
  cases j
  simp [toNat, UInt32.toNat_inj]

theorem Position.toNat_ofNat {i : Nat} (h : i < UInt32.size) : toNat ⟨.ofNat i⟩ = i :=
  UInt32.toNat_ofNat_of_lt' h

theorem Position.ofNat_toNat (i : Position) : (⟨.ofNat i.toNat⟩ : Position) = i := by
  simp [toNat]

namespace PresenceWord

-- Sums start from the core zero here, whatever algebra is imported.
attribute [local instance (2000)] Zero.ofOfNat0

@[simp] theorem contains_empty (bit : Nat) : empty.contains bit = false := by
  simp [contains, empty]

theorem contains_insert (w : PresenceWord) {bit : Nat} (hbit : bit < Position.wordWidth)
    (other : Nat) : (w.insert bit).contains other = (decide (other = bit) || w.contains other) := by
  have hbit' : bit < 32 := hbit
  simp only [contains, insert, BitVec.getLsbD_or, BitVec.getLsbD_twoPow, hbit', decide_true,
    Bool.true_and]
  rw [Bool.or_comm]
  simp [eq_comm]

theorem contains_erase (w : PresenceWord) {bit : Nat} (hbit : bit < Position.wordWidth)
    (other : Nat) : (w.erase bit).contains other = (!decide (other = bit) && w.contains other) := by
  have hbit' : bit < 32 := hbit
  simp only [contains, erase, BitVec.getLsbD_and, BitVec.getLsbD_not, BitVec.getLsbD_twoPow, hbit',
    decide_true, Bool.true_and]
  by_cases hother : other < 32
  · rw [Bool.and_comm]
    simp [hother, eq_comm]
  · have : w.bits.getLsbD other = false := BitVec.getLsbD_of_ge _ _ (by omega)
    simp [this]

/-- Whether a number is a member of the set that the words stand for. -/
def hasBit (words : List PresenceWord) (n : Nat) : Bool :=
  match words[n / Position.wordWidth]? with
  | some word => word.contains (n % Position.wordWidth)
  | none => false

theorem hasBit_mul_add (words : List PresenceWord) {word bit : Nat}
    (hbit : bit < Position.wordWidth) :
    hasBit words (Position.wordWidth * word + bit) = match words[word]? with
      | some w => w.contains bit
      | none => false := by
  have hdiv : (Position.wordWidth * word + bit) / Position.wordWidth = word := by
    rw [Nat.mul_add_div (by decide), Nat.div_eq_of_lt hbit, Nat.add_zero]
  have hmod : (Position.wordWidth * word + bit) % Position.wordWidth = bit := by
    rw [Nat.mul_add_mod, Nat.mod_eq_of_lt hbit]
  rw [hasBit, hdiv, hmod]

theorem hasBit_replicate_empty (count n : Nat) :
    hasBit (List.replicate count .empty) n = false := by
  unfold hasBit
  split
  · next word hword =>
    obtain rfl : word = .empty := List.eq_of_mem_replicate (List.mem_of_getElem? hword)
    exact contains_empty _
  · rfl

theorem hasBit_of_length_le {words : List PresenceWord} {n : Nat}
    (h : words.length * Position.wordWidth ≤ n) : hasBit words n = false := by
  have hlen : words.length ≤ n / Position.wordWidth := (Nat.le_div_iff_mul_le (by decide)).2 h
  rw [hasBit, List.getElem?_eq_none hlen]

/-- Lists with the same number of words are equal if the same bits are set. -/
theorem eq_of_hasBit_eq {as bs : List PresenceWord} (hlength : as.length = bs.length)
    (h : ∀ n, hasBit as n = hasBit bs n) : as = bs := by
  refine List.ext_getElem hlength fun word ha hb => ?_
  refine congrArg mk (BitVec.eq_of_getLsbD_eq fun bit hbit => ?_)
  have hword := h (Position.wordWidth * word + bit)
  rw [hasBit_mul_add as hbit, hasBit_mul_add bs hbit, List.getElem?_eq_getElem ha,
    List.getElem?_eq_getElem hb] at hword
  exact hword

section

variable {words : List PresenceWord} {n : Nat}

/-- Updating the word of `n` at the bit of `n` shows at `n` only. -/
theorem hasBit_modify {f : PresenceWord → PresenceWord} {g : Bool → Bool}
    (hf : ∀ word other, (f word).contains other =
      if other = n % Position.wordWidth then g (word.contains other) else word.contains other)
    (hn : n < words.length * Position.wordWidth) (other : Nat) :
    hasBit (words.modify (n / Position.wordWidth) f) other =
      if other = n then g (hasBit words other) else hasBit words other := by
  have hdivmod : other = n ↔
      n / Position.wordWidth = other / Position.wordWidth ∧
        other % Position.wordWidth = n % Position.wordWidth := by
    constructor
    · rintro rfl
      exact ⟨rfl, rfl⟩
    · rintro ⟨hdiv, hmod⟩
      rw [← Nat.div_add_mod other Position.wordWidth, ← hdiv, hmod, Nat.div_add_mod]
  have hword : n / Position.wordWidth < words.length :=
    Nat.div_lt_of_lt_mul (by rwa [Nat.mul_comm])
  unfold hasBit
  rw [List.getElem?_modify]
  by_cases hdiv : n / Position.wordWidth = other / Position.wordWidth
  · rw [← hdiv, List.getElem?_eq_getElem hword]
    simp only [if_true, Option.map_eq_map, Option.map_some, hf, hdivmod, hdiv, true_and]
  · simp only [id_map', hdivmod, hdiv, false_and, if_false]

theorem hasBit_modify_insert (hn : n < words.length * Position.wordWidth) (other : Nat) :
    hasBit (words.modify (n / Position.wordWidth) (·.insert (n % Position.wordWidth))) other =
      (decide (other = n) || hasBit words other) := by
  rw [hasBit_modify (g := fun _ => true) (fun word other => ?_) hn]
  · by_cases h : other = n <;> simp [h]
  · rw [contains_insert word (Nat.mod_lt _ (by decide))]
    by_cases h : other = n % Position.wordWidth <;> simp [h]

theorem hasBit_modify_erase (hn : n < words.length * Position.wordWidth) (other : Nat) :
    hasBit (words.modify (n / Position.wordWidth) (·.erase (n % Position.wordWidth))) other =
      (!decide (other = n) && hasBit words other) := by
  rw [hasBit_modify (g := fun _ => false) (fun word other => ?_) hn]
  · by_cases h : other = n <;> simp [h]
  · rw [contains_erase word (Nat.mod_lt _ (by decide))]
    by_cases h : other = n % Position.wordWidth <;> simp [h]

end

/-- The numbers in the set that the words stand for, ascending. -/
def members (words : List PresenceWord) : List Nat :=
  (List.range (words.length * Position.wordWidth)).filter (hasBit words)

theorem hasBit_append_left {as bs : List PresenceWord} {n : Nat}
    (hn : n < as.length * Position.wordWidth) : hasBit (as ++ bs) n = hasBit as n := by
  have hword : n / Position.wordWidth < as.length :=
    Nat.div_lt_of_lt_mul (by rwa [Nat.mul_comm])
  rw [hasBit, hasBit, List.getElem?_append_left hword]

theorem hasBit_append_right (as bs : List PresenceWord) (n : Nat) :
    hasBit (as ++ bs) (as.length * Position.wordWidth + n) = hasBit bs n := by
  have hdiv : (as.length * Position.wordWidth + n) / Position.wordWidth =
      as.length + n / Position.wordWidth := by
    rw [Nat.mul_comm, Nat.mul_add_div (by decide)]
  have hmod : (as.length * Position.wordWidth + n) % Position.wordWidth =
      n % Position.wordWidth := by
    rw [Nat.mul_comm, Nat.mul_add_mod]
  rw [hasBit, hasBit, hdiv, hmod, List.getElem?_append_right (Nat.le_add_right ..),
    Nat.add_sub_cancel_left]

theorem lt_of_mem_members {words : List PresenceWord} {n : Nat} (h : n ∈ members words) :
    n < words.length * Position.wordWidth :=
  List.mem_range.1 (List.mem_filter.1 h).1

theorem mem_members {words : List PresenceWord} {n : Nat} :
    n ∈ members words ↔ hasBit words n = true := by
  rw [members, List.mem_filter, List.mem_range]
  constructor
  · intro h
    exact h.2
  · intro h
    refine ⟨?_, h⟩
    by_contra hge
    rw [hasBit_of_length_le (Nat.not_lt.1 hge)] at h
    cases h

theorem pairwise_members (words : List PresenceWord) : (members words).Pairwise (· < ·) :=
  List.pairwise_lt_range.filter _

theorem nodup_members (words : List PresenceWord) : (members words).Nodup :=
  (pairwise_members words).imp Nat.ne_of_lt

theorem members_singleton (word : PresenceWord) : members [word] = word.toList := by
  unfold members toList
  rw [List.length_singleton, Nat.one_mul]
  refine List.filter_congr fun bit hbit => ?_
  have h : hasBit [word] (Position.wordWidth * 0 + bit) = word.contains bit :=
    hasBit_mul_add [word] (List.mem_range.1 hbit)
  rwa [Nat.mul_zero, Nat.zero_add] at h

/-- The members of the later words follow on those of the earlier ones. -/
theorem members_append (as bs : List PresenceWord) :
    members (as ++ bs) =
      members as ++ (members bs).map (as.length * Position.wordWidth + ·) := by
  unfold members
  rw [List.length_append, Nat.add_mul, List.range_add, List.filter_append, List.filter_map]
  congr 1
  · exact List.filter_congr fun n hn => hasBit_append_left (List.mem_range.1 hn)
  · exact congrArg _ (List.filter_congr fun n _ => hasBit_append_right as bs n)

/-- The members from the word `v` on are those of the words from there. -/
theorem filter_members_word (words : List PresenceWord) (v : Nat) :
    (members words).filter (v * Position.wordWidth ≤ ·) =
      (members (words.drop v)).map (v * Position.wordWidth + ·) := by
  have hbelow : ∀ n ∈ members (words.take v), ¬ v * Position.wordWidth ≤ n := by
    intro n hn
    have hlt := lt_of_mem_members hn
    have hle := Nat.mul_le_mul_right Position.wordWidth (List.length_take_le v words)
    omega
  rcases Nat.le_total v words.length with hv | hv
  · conv_lhs => rw [← List.take_append_drop v words, members_append, List.length_take,
      Nat.min_eq_left hv, List.filter_append, List.filter_map]
    rw [List.filter_eq_nil_iff.2 (by simpa using hbelow), List.nil_append]
    congr 1
    exact List.filter_eq_self.2 fun n _ => by simp
  · rw [List.take_of_length_le hv] at hbelow
    rw [List.drop_of_length_le hv, List.filter_eq_nil_iff.2 (by simpa using hbelow)]
    rfl

/-- The members from a bit of the word `v` on are bits of this word and those of later words. -/
theorem filter_members_bit {words later : List PresenceWord} {word : PresenceWord} {v bit : Nat}
    (hdrop : words.drop v = word :: later) (hbit : bit < Position.wordWidth) :
    (members words).filter (v * Position.wordWidth + bit ≤ ·) =
      (word.listFrom bit).map (v * Position.wordWidth + ·) ++
        (members later).map ((v + 1) * Position.wordWidth + ·) := by
  have hfrom : (members words).filter (v * Position.wordWidth + bit ≤ ·) =
      ((members words).filter (v * Position.wordWidth ≤ ·)).filter
        (v * Position.wordWidth + bit ≤ ·) := by
    rw [List.filter_filter]
    refine List.filter_congr fun n _ => ?_
    have : v * Position.wordWidth + bit ≤ n → v * Position.wordWidth ≤ n := by omega
    simpa using this
  have hword : members (word :: later) =
      word.toList ++ (members later).map (Position.wordWidth + ·) := by
    rw [← List.singleton_append, members_append, members_singleton, List.length_singleton,
      Nat.one_mul]
  have hnext (n : Nat) : v * Position.wordWidth + (Position.wordWidth + n) =
      (v + 1) * Position.wordWidth + n := by
    rw [Nat.add_mul, Nat.one_mul, Nat.add_assoc]
  rw [hfrom, filter_members_word, hdrop, hword, List.map_append, List.filter_append, List.map_map,
    List.filter_map, listFrom]
  congr 1
  · exact congrArg _ (List.filter_congr fun n _ => by simp)
  · rw [List.filter_eq_self.2]
    · exact congrArg (List.map · _) (funext hnext)
    · intro n hn
      obtain ⟨m, -, rfl⟩ := List.mem_map.1 hn
      simp only [Function.comp_apply, decide_eq_true_eq]
      omega

theorem filter_members_of_drop_eq_nil {words : List PresenceWord} {v : Nat}
    (hdrop : words.drop v = []) (bit : Nat) :
    (members words).filter (v * Position.wordWidth + bit ≤ ·) = [] := by
  rw [List.filter_eq_nil_iff]
  intro n hn
  have hlt := lt_of_mem_members hn
  have hle := Nat.mul_le_mul_right Position.wordWidth (List.drop_eq_nil_iff.1 hdrop)
  simp only [decide_eq_true_eq]
  omega

/-- The words have as many set bits as the set has members. -/
theorem sum_size_eq (words : List PresenceWord) :
    (words.map size).sum = (members words).length := by
  induction words with
  | nil => rfl
  | cons word words ih =>
    rw [List.map_cons, List.sum_cons, ih, ← List.singleton_append, members_append,
      List.length_append, List.length_map, members_singleton, size]

end PresenceWord

namespace BitSupply

/-- The supply after `count` bits were taken. -/
def after (count : Nat) : BitSupply where
  words := (count + 31) / Position.wordWidth
  nextBit := if count = 0 then 0 else (count - 1) % Position.wordWidth + 1

/-- The bit taken next is the one of the number of bits taken before. -/
theorem take_after (count : Nat) :
    (after count).take =
      (⟨count / Position.wordWidth, count % Position.wordWidth⟩, after (count + 1)) := by
  have hfull : (after count).words = 0 ∨ (after count).nextBit = Position.wordWidth ↔
      count % Position.wordWidth = 0 := by
    simp only [after, Position.wordWidth]
    split <;> omega
  unfold take
  by_cases hopen : count % Position.wordWidth = 0
  · rw [if_pos (hfull.2 hopen)]
    simp only [after, Position.wordWidth, Nat.add_one_ne_zero, if_false, Prod.mk.injEq,
      BitAddress.mk.injEq, mk.injEq] at hopen ⊢
    omega
  · rw [if_neg (mt hfull.1 hopen)]
    have hpos : count ≠ 0 := by
      rintro rfl
      exact hopen rfl
    simp only [after, Position.wordWidth, hpos, Nat.add_one_ne_zero, if_false, Prod.mk.injEq,
      BitAddress.mk.injEq, mk.injEq] at hopen ⊢
    omega

/-- Bits are taken in the order of their numbers. -/
theorem takeMany_after (taken count : Nat) :
    (after taken).takeMany count =
      ((List.range' taken count).map fun n => ⟨n / Position.wordWidth, n % Position.wordWidth⟩,
        after (taken + count)) := by
  induction count generalizing taken with
  | zero => rfl
  | succ count ih =>
    simp only [takeMany, take_after, ih, List.range'_succ, List.map_cons, Nat.add_right_comm]
    rfl

end BitSupply
end TypedRecords
