import TypedRecords.Proofs.Decimal.Roundtrip

/-!
# Decimals as numerals

A numeral is an integer in digits, and behind a point digits that stand for a fraction
(`Parts.numeral`). It is canonical if there is no plus sign, no digit too many in front and no zero
at the end of the fraction (`Parts.Canonical`). The text of a normal decimal is a canonical numeral
of exactly the number that the decimal stands for, and so no two normal decimals have the same text
(`text_canonical_numeral`).
-/

namespace TypedRecords.Decimal

open Nat (ofDigitChars)

/-! ## Numerals -/

namespace Parts

/-- The number that the digits write. All of them count, however many stand behind the point. -/
def numeral (p : Parts) : ℚ :=
  let fraction := p.fraction.getD []
  let magnitude : ℚ :=
    ofDigitChars 10 p.whole 0 + ofDigitChars 10 fraction 0 / 10 ^ fraction.length
  if p.sign = some .minus then -magnitude else magnitude

/-- A numeral with `scale` fractional digits in which no sign and no digit can be left out. -/
structure Canonical (p : Parts) (scale : Nat) : Prop where
  isDigit : ∀ c ∈ p.digits, c.isDigit = true
  sign_ne_plus : p.sign ≠ some .plus
  whole_ne_nil : p.whole ≠ []
  no_leading_zero : p.whole.head? = some '0' → p.whole = ['0']
  fraction_eq_none : scale = 0 → p.fraction = none
  fraction_eq_some : 0 < scale →
    ∃ places, p.fraction = some places ∧ places.length = scale ∧ places.getLast? ≠ some '0'

variable {p q : Parts}

/-- The digits of a numeral write its number in units of the last place. -/
theorem numeral_eq (p : Parts) :
    p.numeral = (if p.sign = some .minus then -1 else 1) *
      (ofDigitChars 10 p.digits 0 / 10 ^ (p.fraction.getD []).length) := by
  have hdigits : ofDigitChars 10 p.digits 0 =
      10 ^ (p.fraction.getD []).length * ofDigitChars 10 p.whole 0 +
        ofDigitChars 10 (p.fraction.getD []) 0 := by
    rw [digits, Nat.ofDigitChars_append, Nat.ofDigitChars_eq_ofDigitChars_zero]
  have hmagnitude : (ofDigitChars 10 p.digits 0 / 10 ^ (p.fraction.getD []).length : ℚ) =
      ofDigitChars 10 p.whole 0 +
        ofDigitChars 10 (p.fraction.getD []) 0 / 10 ^ (p.fraction.getD []).length := by
    rw [hdigits]
    push_cast
    field_simp
  rw [numeral, hmagnitude]
  split <;> ring

/-- A text has one number at most. -/
theorem Proper.numeral_eq_of_chars_eq (hp : p.Proper) (hq : q.Proper) (h : p.chars = q.chars) :
    p.numeral = q.numeral := by
  have hsign := hp.splitSign_chars
  rw [h, hq.splitSign_chars, Prod.mk.injEq, decide_eq_decide] at hsign
  obtain ⟨hminus, hbody⟩ := hsign
  have hpoint := hp.splitPoint_body
  rw [← hbody, hq.splitPoint_body, Prod.mk.injEq] at hpoint
  obtain ⟨hwhole, hfraction⟩ := hpoint
  simp only [numeral, hwhole, hfraction, hminus]

end Parts

/-! ## Digits of a magnitude -/

theorem eq_zero_of_digitChar {r : Nat} (hlt : r < 10) (h : r.digitChar = '0') : r = 0 := by
  have hcode := Nat.toNat_digitChar_of_lt_ten hlt
  rw [h] at hcode
  have hzero : '0'.toNat = 48 := rfl
  omega

/-- Only zero is written with a zero in front. -/
theorem eq_zero_of_head?_toDigits {n : Nat} (h : (Nat.toDigits 10 n).head? = some '0') : n = 0 := by
  induction n using Nat.strongRecOn with
  | ind n ih =>
    by_cases hlt : n < 10
    · rw [Nat.toDigits_of_lt_base hlt, List.head?_cons, Option.some.injEq] at h
      exact eq_zero_of_digitChar hlt h
    · have hle : 10 ≤ n := Nat.le_of_not_lt hlt
      rw [Nat.toDigits_of_base_le (by decide) hle,
        List.head?_append_of_ne_nil _ Nat.toDigits_ne_nil] at h
      have hzero := ih (n / 10) (by omega) h
      omega

/-- The last digit tells whether a magnitude is a multiple of ten. -/
theorem dvd_of_getLast?_toDigits {n : Nat} (h : (Nat.toDigits 10 n).getLast? = some '0') :
    10 ∣ n := by
  have hlast : (n % 10).digitChar = '0' := by
    by_cases hlt : n < 10
    · rw [Nat.toDigits_of_lt_base hlt, List.getLast?_singleton, Option.some.injEq] at h
      rwa [Nat.mod_eq_of_lt hlt]
    · rw [Nat.toDigits_of_base_le (by decide) (Nat.le_of_not_lt hlt), List.getLast?_concat,
        Option.some.injEq] at h
      exact h
  exact Nat.dvd_of_mod_eq_zero (eq_zero_of_digitChar (Nat.mod_lt _ (by decide)) hlast)

/-- Either the digits reach before the point, or zeros are put in front and one of them is all that
stands there. -/
theorem paddedDigits_cases (magnitude scale : Nat) :
    paddedDigits magnitude scale = Nat.toDigits 10 magnitude ∧
        scale < (Nat.toDigits 10 magnitude).length ∨
      (paddedDigits magnitude scale).length = scale + 1 ∧
        (paddedDigits magnitude scale).take 1 = ['0'] := by
  rw [paddedDigits, List.leftpad]
  by_cases hlt : scale < (Nat.toDigits 10 magnitude).length
  · left
    rw [Nat.sub_eq_zero_of_le hlt]
    exact ⟨rfl, hlt⟩
  · right
    obtain ⟨zeros, hzeros⟩ : ∃ zeros, scale + 1 - (Nat.toDigits 10 magnitude).length = zeros + 1 :=
      ⟨scale - (Nat.toDigits 10 magnitude).length, by omega⟩
    rw [hzeros, List.replicate_succ]
    refine ⟨?_, rfl⟩
    rw [List.length_append, List.length_cons, List.length_replicate]
    omega

theorem getLast?_paddedDigits (magnitude scale : Nat) :
    (paddedDigits magnitude scale).getLast? = (Nat.toDigits 10 magnitude).getLast? := by
  rw [paddedDigits, List.leftpad, List.getLast?_append_of_ne_nil _ Nat.toDigits_ne_nil]

/-! ## The text of a normal decimal -/

theorem whole_textParts (d : Decimal) :
    (textParts d).whole ≠ [] ∧
      ((textParts d).whole.head? = some '0' → (textParts d).whole = ['0']) := by
  have hlength := length_paddedDigits d.mantissa.natAbs d.scale
  have hwhole : (textParts d).whole = (paddedDigits d.mantissa.natAbs d.scale).take
      ((paddedDigits d.mantissa.natAbs d.scale).length - d.scale) := rfl
  rw [hwhole]
  constructor
  · rw [← List.length_pos_iff, List.length_take]
    omega
  · intro hhead
    rw [List.head?_take, if_neg (by omega)] at hhead
    rcases paddedDigits_cases d.mantissa.natAbs d.scale with ⟨heq, hlt⟩ | ⟨hlong, hzero⟩
    · -- the magnitude is zero, and so its only digit stands before the point
      rw [heq] at hhead ⊢
      rw [eq_zero_of_head?_toDigits hhead, Nat.toDigits_zero] at hlt ⊢
      rw [List.take_of_length_le]
      rw [List.length_singleton] at hlt ⊢
      omega
    · rwa [hlong, Nat.add_sub_cancel_left]

theorem canonical_textParts {d : Decimal} (h : d.Normal) : (textParts d).Canonical d.scale where
  isDigit := (isLiteral_textParts d).isDigit
  sign_ne_plus := by
    rw [textParts]
    dsimp only
    split <;> simp
  whole_ne_nil := (whole_textParts d).1
  no_leading_zero := (whole_textParts d).2
  fraction_eq_none hscale := by rw [textParts, if_pos hscale]
  fraction_eq_some hscale := by
    have hlength := length_fraction_textParts d
    have hdigits := digits_textParts d
    obtain ⟨places, hplaces⟩ : ∃ places, (textParts d).fraction = some places := by
      rw [textParts]
      exact ⟨_, if_neg hscale.ne'⟩
    rw [hplaces, Option.getD_some] at hlength
    refine ⟨places, hplaces, hlength, fun hlast => h.not_dvd hscale ?_⟩
    rw [Parts.digits, hplaces, Option.getD_some] at hdigits
    have hne : places ≠ [] := by
      rw [← List.length_pos_iff, hlength]
      exact hscale
    rw [← List.getLast?_append_of_ne_nil (textParts d).whole hne, hdigits,
      getLast?_paddedDigits] at hlast
    exact Int.natCast_dvd.2 (dvd_of_getLast?_toDigits hlast)

/-- The text of a decimal writes the number that the decimal stands for. -/
theorem numeral_textParts (d : Decimal) : (textParts d).numeral = d.value := by
  have hsign : (textParts d).sign = some .minus ↔ d.mantissa < 0 := by simp [textParts]
  rw [Parts.numeral_eq, digits_textParts, ofDigitChars_paddedDigits, length_fraction_textParts,
    value, Nat.cast_natAbs]
  simp only [hsign]
  split
  · next hneg =>
    rw [abs_of_neg hneg]
    push_cast
    ring
  · next hnonneg => rw [abs_of_nonneg (not_lt.1 hnonneg), one_mul]

theorem value_neg_iff (d : Decimal) : d.value < 0 ↔ d.mantissa < 0 := by
  rw [value, div_lt_iff₀ (by positivity), zero_mul, Int.cast_lt_zero]

/-- Writing decimals. The text of a normal decimal has a minus sign if the number is below zero and
no sign otherwise, an integer without superfluous zeros in front, and as many fractional digits as
the decimal's scale, the last of them not zero; without fractional digits there is no point. It
writes exactly the number that the decimal stands for, and no other normal decimal has this text. -/
theorem text_canonical_numeral {d : Decimal} (h : d.Normal) :
    (∃ p : Parts, d.text.toList = p.chars ∧ p.Canonical d.scale ∧
      p.sign = (if d.value < 0 then some .minus else none) ∧
      p.numeral = (d.mantissa : ℚ) / 10 ^ d.scale) ∧
    ∀ e : Decimal, e.Normal → (d.text = e.text ↔ d = e) := by
  refine ⟨⟨textParts d, toList_text d, canonical_textParts h, ?_, numeral_textParts d⟩, ?_⟩
  · simp only [value_neg_iff]
    rfl
  · intro e he
    constructor
    · intro htext
      have hchars : (textParts d).chars = (textParts e).chars := by
        rw [← toList_text, ← toList_text, htext]
      have hnumeral := (isLiteral_textParts d).proper.numeral_eq_of_chars_eq
        (isLiteral_textParts e).proper hchars
      rw [numeral_textParts, numeral_textParts] at hnumeral
      exact h.eq_of_value_eq he hnumeral
    · rintro rfl
      rfl

/-- The smallest mantissa, with as many digits behind the point as can be. -/
theorem text_canonical_smallest_mantissa :
    (⟨-2 ^ 127, 28⟩ : Decimal).Normal ∧
    ∃ p : Parts, "-17014118346.0469231731687303715884105728".toList = p.chars ∧ p.Canonical 28 ∧
      p.sign = some .minus ∧ p.numeral = ((-2 ^ 127 : ℤ) : ℚ) / 10 ^ 28 := by
  have h : (⟨-2 ^ 127, 28⟩ : Decimal).Normal := ⟨by decide, fun _ => by decide⟩
  have htext : (⟨-2 ^ 127, 28⟩ : Decimal).text = "-17014118346.0469231731687303715884105728" := by
    decide +kernel
  obtain ⟨p, hchars, hcanonical, hsign, hnumeral⟩ := (text_canonical_numeral h).1
  rw [if_pos ((value_neg_iff _).2 (by decide))] at hsign
  exact ⟨h, p, htext ▸ hchars, hcanonical, hsign, hnumeral⟩

/-- A magnitude shorter than the scale has a single zero before the point. -/
example : (⟨-5, 3⟩ : Decimal).text = "-0.005" := by decide +kernel

end TypedRecords.Decimal
