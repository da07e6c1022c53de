import Mathlib.Tactic.NormNum
import TypedRecords.Proofs.Decimal.Grammar

/-!
# Zeros at the end of a literal

Zeros that are written behind the fraction of a literal do not change the number that it stands for
(`Parts.normalize_padded`), but up to the last place that counts they are read like other digits.
The literal with the zeros is therefore read as the same decimal if that decimal, counted in units
of the last place that is then written, is no larger than a mantissa may be, and it is out of range
otherwise.
-/

namespace TypedRecords

/-! ## Blanks in front -/

namespace Text

theorem getLast?_append_not_blank {cs others : List Char}
    (hcs : ∀ c ∈ cs.getLast?, isBlank c = false)
    (hothers : ∀ c ∈ others.getLast?, isBlank c = false) :
    ∀ c ∈ (cs ++ others).getLast?, isBlank c = false := by
  intro c hc
  rw [List.getLast?_append] at hc
  cases hend : others.getLast? with
  | none =>
    rw [hend, Option.none_or] at hc
    exact hcs c hc
  | some last =>
    rw [hend, Option.some_or] at hc
    exact hothers c (hend.trans hc)

/-- Of a text that does not end in a blank only the blanks in front are taken off. -/
theorem trim_eq_dropWhile {cs : List Char} (hlast : ∀ c ∈ cs.getLast?, isBlank c = false) :
    trim cs = cs.dropWhile isBlank := by
  rw [trim_eq, List.rdropWhile_eq_self_iff]
  intro hne
  have hend : cs.getLast? = some ((cs.dropWhile isBlank).getLast hne) := by
    conv_lhs => rw [← List.takeWhile_append_dropWhile (p := isBlank) (l := cs)]
    rw [List.getLast?_append, List.getLast?_eq_getLast_of_ne_nil hne, Option.some_or]
  rw [hlast _ hend]
  exact Bool.false_ne_true

/-- What is put behind a text that does not end in a blank stays, unless it ends in one. -/
theorem trim_append {cs others : List Char} (hne : ∃ c ∈ cs, isBlank c = false)
    (hcs : ∀ c ∈ cs.getLast?, isBlank c = false)
    (hothers : ∀ c ∈ others.getLast?, isBlank c = false) :
    trim (cs ++ others) = trim cs ++ others := by
  obtain ⟨c, hc, hblank⟩ := hne
  have hdrop : ¬(cs.dropWhile isBlank).isEmpty := by
    rw [List.isEmpty_iff, List.dropWhile_eq_nil_iff]
    intro hall
    rw [hall c hc] at hblank
    cases hblank
  rw [trim_eq_dropWhile (getLast?_append_not_blank hcs hothers), trim_eq_dropWhile hcs,
    List.dropWhile_append, if_neg hdrop]

end Text

namespace Decimal

open Nat (ofDigitChars)

/-! ## The parts of a text with zeros behind it -/

namespace Parts

variable {p : Parts} {fraction : List Char} (h : p.fraction = some fraction) (n : Nat)

/-- The parts with `n` zeros behind the fraction. -/
def padded (p : Parts) (fraction : List Char) (n : Nat) : Parts :=
  { p with fraction := some (fraction ++ List.replicate n '0') }

/-- How many of `n` zeros behind a fraction count. -/
def room (fraction : List Char) (n : Nat) : Nat := min (maxScale - fraction.length) n

theorem places_le (p : Parts) : p.places ≤ maxScale := Nat.min_le_left _ _

theorem abs_value (p : Parts) : |p.value| = p.magnitude / 10 ^ p.places := by
  have hsigned : |(p.signed : ℚ)| = p.magnitude := by
    rw [signed]
    split <;> simp
  rw [value, abs_div, hsigned, abs_of_pos (by positivity : (0 : ℚ) < 10 ^ p.places)]

include h

theorem chars_padded : (p.padded fraction n).chars = p.chars ++ List.replicate n '0' := by
  simp [chars, body, padded, h]

theorem places_eq : p.places = min maxScale fraction.length := by
  rw [places, h, Option.getD_some]

theorem places_padded : (p.padded fraction n).places = p.places + room fraction n := by
  rw [places_eq h, places_eq rfl, List.length_append, List.length_replicate, room]
  omega

theorem magnitude_padded :
    (p.padded fraction n).magnitude = 10 ^ room fraction n * p.magnitude := by
  rw [magnitude, magnitude, padded, h]
  dsimp only [Option.getD_some]
  rw [List.take_append, List.take_replicate, ← List.append_assoc, Nat.ofDigitChars_append,
    Nat.ofDigitChars_replicate_zero, room]

theorem signed_padded : (p.padded fraction n).signed = 10 ^ room fraction n * p.signed := by
  rw [signed, signed, magnitude_padded h, padded]
  split <;> push_cast <;> ring

theorem IsLiteral.padded (hliteral : p.IsLiteral) : (p.padded fraction n).IsLiteral := by
  have hdigits : (p.padded fraction n).digits = p.digits ++ List.replicate n '0' := by
    simp [digits, Parts.padded, h]
  constructor
  · rw [hdigits]
    exact List.append_ne_nil_of_left_ne_nil hliteral.digits_ne_nil _
  · rw [hdigits, List.forall_mem_append]
    refine ⟨hliteral.isDigit, fun c hc => ?_⟩
    rw [List.eq_of_mem_replicate hc]
    rfl

/-- The zeros do not change the number. -/
theorem normalize_padded : normalize (p.padded fraction n).signed (p.padded fraction n).places =
    normalize p.signed p.places := by
  refine (normal_normalize (places_le _)).eq_of_value_eq (normal_normalize (places_le _)) ?_
  rw [value_normalize, value_normalize, signed_padded h, places_padded h, pow_add]
  push_cast
  field_simp

end Parts

/-! ## Reading the zeros -/

/-- The characters behind the first point of a text. -/
def fractionOf (s : String) : List Char := (splitPoint s.toList).2

/-- The text with `n` zeros behind it. -/
def appendZeros (s : String) (n : Nat) : String := s ++ String.ofList (List.replicate n '0')

section

variable {s : String} {d : Decimal} (hpoint : '.' ∈ s.toList)
  (hlast : ∀ c ∈ s.toList.getLast?, Text.isBlank c = false)

include hpoint hlast

theorem trim_appendZeros (n : Nat) :
    Text.trim (appendZeros s n).toList = Text.trim s.toList ++ List.replicate n '0' := by
  rw [appendZeros, String.toList_append, String.toList_ofList]
  refine Text.trim_append ⟨'.', hpoint, by decide⟩ hlast fun c hc => ?_
  rw [List.eq_of_mem_replicate (List.mem_of_getLast? hc)]
  decide

/-- What stands behind the point is the fraction. -/
theorem fraction_eq {p : Parts} (hp : p.Proper) (hchars : p.chars = Text.trim s.toList) :
    p.fraction = some (fractionOf s) := by
  have hblank : '.' ∉ s.toList.takeWhile Text.isBlank := by
    intro hmem
    exact absurd (List.mem_takeWhile_imp hmem) (by decide)
  have hsign : '.' ∉ Sign.chars p.sign := by
    rcases p.sign with _ | _ | _ <;> decide
  have hs : s.toList = s.toList.takeWhile Text.isBlank ++ p.chars := by
    rw [hchars, Text.trim_eq_dropWhile hlast, List.takeWhile_append_dropWhile]
  cases hfraction : p.fraction with
  | none =>
    -- there would be no point anywhere
    rw [hs, Parts.chars, Parts.body, hfraction] at hpoint
    simp [hblank, hsign, hp.no_point] at hpoint
  | some fraction =>
    have hbefore : '.' ∉ s.toList.takeWhile Text.isBlank ++ Sign.chars p.sign ++ p.whole := by
      simp [hblank, hsign, hp.no_point]
    have hsplit : s.toList =
        s.toList.takeWhile Text.isBlank ++ Sign.chars p.sign ++ p.whole ++ '.' :: fraction := by
      conv_lhs => rw [hs, Parts.chars, Parts.body, hfraction]
      simp only [List.append_assoc]
    rw [fractionOf, hsplit, Parts.splitPoint_append hbefore]

/-- The text with the zeros is read like the text, as long as there are not too many digits. -/
theorem parse_appendZeros (hread : parse s = .ok d) (n : Nat) :
    parse (appendZeros s n) =
      if |d.value| * 10 ^ min maxScale ((fractionOf s).length + n) ≤ maxMantissa then .ok d
      else .error .overflow := by
  obtain ⟨p, hp, hchars⟩ := Parts.exists_proper (Text.trim s.toList)
  have hfraction := fraction_eq hpoint hlast hp hchars
  rw [parse, ← hchars, hp.ofLiteral_eq_ok_iff] at hread
  obtain ⟨hliteral, -, rfl⟩ := hread
  have hplaces : min maxScale ((fractionOf s).length + n) =
      p.places + Parts.room (fractionOf s) n := by
    rw [Parts.places_eq hfraction, Parts.room]
    omega
  have hsize : |(normalize p.signed p.places).value| *
      10 ^ min maxScale ((fractionOf s).length + n) =
        ((10 ^ Parts.room (fractionOf s) n * p.magnitude : Nat) : ℚ) := by
    rw [value_normalize, ← Parts.value, Parts.abs_value, hplaces, pow_add]
    push_cast
    field_simp
  rw [hsize, parse, trim_appendZeros hpoint hlast, ← hchars, ← Parts.chars_padded hfraction,
    (hliteral.padded hfraction n).ofLiteral_chars, Parts.magnitude_padded hfraction,
    Parts.normalize_padded hfraction]
  simp only [Nat.cast_le]

/-- Zeros behind a literal with a point. They change nothing exactly if the decimal, counted in
units of the last place that is then written, is at most the largest mantissa; otherwise the literal
is out of range, although the number is not. No literal with all places written can get out of range
in this way, and none of a number below `10 ^ 10`. -/
theorem parse_trailing_zeros (hread : parse s = .ok d) (n : Nat) :
    (parse (appendZeros s n) = .ok d ↔
      |d.value| * 10 ^ min 28 ((fractionOf s).length + n) ≤ 2 ^ 127 - 1) ∧
    (parse (appendZeros s n) = .ok d ∨ parse (appendZeros s n) = .error .overflow) ∧
    (28 ≤ (fractionOf s).length ∨ |d.value| < 10 ^ 10 → parse (appendZeros s n) = .ok d) := by
  have hmax : ((maxMantissa : Nat) : ℚ) = 2 ^ 127 - 1 := by norm_num [maxMantissa]
  have hzeros := parse_appendZeros hpoint hlast hread
  rw [hmax, maxScale] at hzeros
  have hiff (n : Nat) : parse (appendZeros s n) = .ok d ↔
      |d.value| * 10 ^ min 28 ((fractionOf s).length + n) ≤ 2 ^ 127 - 1 := by
    rw [hzeros n]
    split <;> simp [*]
  refine ⟨hiff n, ?_, ?_⟩
  · rw [hzeros n]
    split
    · exact .inl rfl
    · exact .inr rfl
  · rintro (hfull | hsmall)
    · -- no zero counts, so that the text is read as it was without them
      have hnone : appendZeros s 0 = s := by simp [appendZeros]
      have hsize := (hiff 0).1 (hnone.symm ▸ hread)
      rw [Nat.min_eq_left (by omega)] at hsize
      rw [hiff n, Nat.min_eq_left (by omega)]
      exact hsize
    · have hpow : (10 : ℚ) ^ min 28 ((fractionOf s).length + n) ≤ 10 ^ 28 :=
        pow_le_pow_right₀ (by norm_num) (Nat.min_le_left _ _)
      rw [hiff n]
      calc |d.value| * 10 ^ min 28 ((fractionOf s).length + n)
          ≤ 10 ^ 10 * 10 ^ 28 := mul_le_mul hsmall.le hpow (by positivity) (by positivity)
        _ ≤ 2 ^ 127 - 1 := by norm_num

end

theorem not_isBlank_of_getLast? {cs : List Char} {last : Char} (h : cs.getLast? = some last)
    (hlast : Text.isBlank last = false) : ∀ c ∈ cs.getLast?, Text.isBlank c = false := by
  intro c hc
  obtain rfl : last = c := Option.some.inj (h.symm.trans hc)
  exact hlast

/-- All twenty-eight places of a number above `10 ^ 10` are filled with zeros. -/
theorem parse_trailing_zeros_all_places :
    parse "-17014118346." = .ok ⟨-17014118346, 0⟩ ∧
      parse (appendZeros "-17014118346." 40) = .ok ⟨-17014118346, 0⟩ := by
  have hread : parse "-17014118346." = .ok ⟨-17014118346, 0⟩ := by decide +kernel
  have hlast : "-17014118346.".toList.getLast? = some '.' := by decide +kernel
  have hfraction : fractionOf "-17014118346." = [] := by decide +kernel
  refine ⟨hread, ((parse_trailing_zeros (by decide +kernel)
    (not_isBlank_of_getLast? hlast (by decide)) hread 40).1).2 ?_⟩
  rw [hfraction, value, List.length_nil, Nat.min_eq_left (by decide)]
  norm_num

/-- One zero more is enough to get out of range. -/
theorem not_parse_trailing_zeros : ¬∀ (s : String) (d : Decimal) (n : Nat), '.' ∈ s.toList →
    (∀ c ∈ s.toList.getLast?, Text.isBlank c = false) → parse s = .ok d →
      parse (appendZeros s n) = .ok d := by
  intro h
  have hread : parse "100000000000000000000000000000000000000." = .ok ⟨10 ^ 38, 0⟩ := by
    decide +kernel
  have hlonger : parse (appendZeros "100000000000000000000000000000000000000." 1) =
      .error .overflow := by decide +kernel
  have hlast : "100000000000000000000000000000000000000.".toList.getLast? = some '.' := by
    decide +kernel
  have hsame := h _ _ 1 (by decide +kernel) (not_isBlank_of_getLast? hlast (by decide)) hread
  rw [hlonger] at hsame
  cases hsame

end Decimal
end TypedRecords
