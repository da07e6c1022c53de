import TypedRecords.Proofs.Decimal.Conversion
import TypedRecords.Record.Admission

/-!
# The noise of binary fractions

A decimal of at most fifteen significant digits is what a double becomes that lies near it: the
nearest one does, and also those that are off by the rounding of another operation
(`Value.asDecimal?_absorbs_noise`).
-/

namespace TypedRecords

namespace Decimal

open Number

/-! ## Few digits -/

/-- Whether a decimal has at most so many significant digits: zeros at the end of its mantissa do
not count. -/
def WithinDigits (d : Decimal) (count : ℕ) : Prop :=
  ∃ (digits : ℤ) (zeros : ℕ), d.mantissa = digits * 10 ^ zeros ∧ |digits| < 10 ^ count

theorem WithinDigits.exists_value_eq {d : Decimal} {count : ℕ} (h : d.WithinDigits count) :
    ∃ digits k : ℤ, |digits| < 10 ^ count ∧ d.value = (digits : ℚ) * 10 ^ k := by
  obtain ⟨digits, zeros, hmantissa, hdigits⟩ := h
  refine ⟨digits, zeros - d.scale, hdigits, ?_⟩
  rw [value, hmantissa, zpow_sub₀ (by norm_num), zpow_natCast, zpow_natCast]
  push_cast
  rw [mul_div_assoc]

theorem withinDigits_ofInt {n : ℤ} (h : |n| ≤ 10 ^ 15) : (ofInt n).WithinDigits 15 := by
  rcases h.lt_or_eq with hlt | heq
  · exact ⟨n, 0, (mul_one n).symm, hlt⟩
  · rcases (abs_eq (by decide)).1 heq with rfl | rfl
    · exact ⟨1, 15, rfl, by decide⟩
    · exact ⟨-1, 15, rfl, by decide⟩

/-! ## Noise -/

/-- A number that differs from another by the noise of a rounding or two. -/
def Near (v r : ℚ) : Prop := |v - r| ≤ 2 ^ (-52 : ℤ) * |r|

namespace Near

variable {v r : ℚ}

theorem refl (r : ℚ) : Near r r := by
  rw [Near, sub_self, abs_zero]
  positivity

theorem abs_sub_le (h : Near v r) : |v - r| ≤ 1 / 2 ^ 52 * |r| := by simpa [Near] using h

theorem abs_le (h : Near v r) : |v| ≤ (1 + 1 / 2 ^ 52) * |r| := by
  have hnear := h.abs_sub_le
  have hdiff := abs_sub_abs_le_abs_sub v r
  linarith

theorem le_abs (h : Near v r) : (1 - 1 / 2 ^ 52) * |r| ≤ |v| := by
  have hnear := h.abs_sub_le
  have hdiff := abs_sub_abs_le_abs_sub r v
  rw [abs_sub_comm] at hdiff
  linarith

theorem ne_zero (h : Near v r) (hr : r ≠ 0) : v ≠ 0 := by
  have hpos : 0 < (1 - 1 / 2 ^ 52) * |r| := mul_pos (by norm_num) (abs_pos.2 hr)
  exact abs_pos.1 (hpos.trans_le h.le_abs)

theorem eq_zero (h : Near v 0) : v = 0 := by
  have hle := h.abs_le
  rw [abs_zero, mul_zero] at hle
  exact abs_eq_zero.1 (le_antisymm hle (abs_nonneg v))

end Near

namespace Significant

variable {v : ℚ} {e units digits k : ℤ}

theorem bounds (h : Significant v e units) :
    10 ^ 14 * 10 ^ (e - 14) ≤ |v| ∧ |v| < 10 ^ 15 * 10 ^ (e - 14) := by
  have hten : (10 : ℚ) ≠ 0 := by norm_num
  have hlow : (10 : ℚ) ^ e = 10 ^ 14 * 10 ^ (e - 14) := by
    rw [← zpow_natCast, ← zpow_add₀ hten, Nat.cast_ofNat, add_sub_cancel]
  have hhigh : (10 : ℚ) ^ (e + 1) = 10 ^ 15 * 10 ^ (e - 14) := by
    rw [zpow_add_one₀ hten, hlow]
    ring
  exact ⟨hlow ▸ h.low, hhigh ▸ h.high⟩

/-- A number of at most fifteen digits lies on the grid that the numbers near it are rounded to. -/
theorem place_le_of_near (h : Significant v e units) (hdigits : |digits| < 10 ^ 15)
    (hnear : Near v (digits * 10 ^ k)) : e - 14 ≤ k := by
  -- with a smaller place it would be below the decade of `v`, and by more than the noise
  by_contra hlt
  have hcoarser : (10 : ℚ) ^ k ≤ 10 ^ (e - 14) / 10 := by
    rw [div_eq_mul_inv, ← zpow_sub_one₀ (by norm_num : (10 : ℚ) ≠ 0)]
    exact zpow_le_zpow_right₀ (by norm_num) (by omega)
  have hcount : |(digits : ℚ)| ≤ 10 ^ 15 - 1 := by exact_mod_cast Int.le_sub_one_of_lt hdigits
  have hmagnitude : |(digits : ℚ) * 10 ^ k| ≤ (10 ^ 15 - 1) * (10 ^ (e - 14) / 10) := by
    rw [abs_mul, abs_of_pos (by positivity : (0 : ℚ) < 10 ^ k)]
    exact mul_le_mul hcount hcoarser (by positivity) (by norm_num)
  have hunit : (0 : ℚ) < 10 ^ (e - 14) := by positivity
  have hlow := h.bounds.1
  have hle := hnear.abs_le
  linarith

/-- The noise is less than half of a unit, as there are less than `10 ^ 15` units. -/
theorem units_eq_of_near (h : Significant v e units) {m : ℤ}
    (hnear : Near v (m * 10 ^ (e - 14))) : units = m := by
  have hunit : (0 : ℚ) < 10 ^ (e - 14) := by positivity
  have hnoise : |v - m * 10 ^ (e - 14)| < 1 / 2 * 10 ^ (e - 14) := by
    have hhigh := h.bounds.2
    have hle := hnear.le_abs
    have hdiff := hnear.abs_sub_le
    linarith
  have hscaled : v / 10 ^ (e - 14) - m = (v - m * 10 ^ (e - 14)) / 10 ^ (e - 14) := by
    rw [sub_div, mul_div_cancel_right₀ _ hunit.ne']
  refine h.nearest.unique (.of_lt ?_)
  rwa [hscaled, abs_div, abs_of_pos hunit, div_lt_iff₀ hunit]

/-- A number with noise has the significant digits of the number without. -/
theorem mul_eq_of_near (h : Significant v e units) (hdigits : |digits| < 10 ^ 15)
    (hnear : Near v (digits * 10 ^ k)) : (units : ℚ) * 10 ^ (e - 14) = digits * 10 ^ k := by
  obtain ⟨extra, hextra⟩ :=
    Int.eq_ofNat_of_zero_le (sub_nonneg.2 (h.place_le_of_near hdigits hnear))
  have hgrid : (digits : ℚ) * 10 ^ k = (digits * 10 ^ extra : ℤ) * 10 ^ (e - 14) := by
    have hk : k = extra + (e - 14) := by omega
    rw [hk, zpow_add₀ (by norm_num), zpow_natCast]
    push_cast
    ring
  rw [hgrid] at hnear ⊢
  rw [h.units_eq_of_near hnear]

end Significant

/-! ## Doubles near a decimal -/

variable {d : Decimal}

/-- A double near a decimal of few digits becomes the decimal. -/
theorem ofDouble?_of_near (hnormal : d.Normal) (hfits : fits d.mantissa = true)
    (hdigits : d.WithinDigits 15) {x : Double} (hfinite : x.isFinite = true)
    (hnear : Near x.value d.value) : ofDouble? x = some d := by
  by_cases hvalue : d.value = 0
  · have hd : zero = d := by
      refine (normal_ofInt 0).eq_of_value_eq hnormal ?_
      rw [hvalue, value_ofInt, Int.cast_zero]
    rw [hvalue] at hnear
    rw [ofDouble?_eq_zero hfinite hnear.eq_zero, hd]
  · obtain ⟨e, units, hsignificant, -, hsome⟩ :=
      ofDouble?_significant hfinite (hnear.ne_zero hvalue)
    obtain ⟨digits, k, hcount, hgrid⟩ := hdigits.exists_value_eq
    rw [hgrid] at hnear
    have hunits : (units : ℚ) * 10 ^ (e - 14) = d.value :=
      (hsignificant.mul_eq_of_near hcount hnear).trans hgrid.symm
    rw [hunits] at hsome
    exact (hsome d).2 ⟨inRange_div hfits d.scale, hnormal, (cutOff_value hnormal).symm⟩

theorem value_eq_natAbs (d : Decimal) : d.value = (if decide (d.mantissa < 0) then -1 else 1) *
    ((d.mantissa.natAbs : ℚ) / (10 ^ d.scale : ℕ)) := by
  have hsign : (d.mantissa : ℚ) =
      (if decide (d.mantissa < 0) then -1 else 1) * (d.mantissa.natAbs : ℚ) := by
    rw [Nat.cast_natAbs, Int.cast_abs]
    by_cases hneg : d.mantissa < 0
    · rw [if_pos (decide_eq_true hneg), abs_of_neg (by exact_mod_cast hneg), neg_one_mul, neg_neg]
    · rw [if_neg (by simpa using hneg), abs_of_nonneg (by exact_mod_cast not_lt.1 hneg), one_mul]
  rw [value, hsign, mul_div_assoc, Nat.cast_pow, Nat.cast_ofNat]

/-- Decimals other than zero have magnitudes at which doubles keep all their bits. -/
theorem magnitude_range (hscale : d.scale ≤ maxScale) (hfits : fits d.mantissa = true)
    (hzero : d.mantissa ≠ 0) :
    (2 : ℚ) ^ (-1022 : ℤ) ≤ (d.mantissa.natAbs : ℚ) / (10 ^ d.scale : ℕ) ∧
      (d.mantissa.natAbs : ℚ) / (10 ^ d.scale : ℕ) < 2 ^ (1023 : ℤ) := by
  have hone : (1 : ℚ) ≤ d.mantissa.natAbs := by exact_mod_cast Int.natAbs_pos.2 hzero
  have hmost : (d.mantissa.natAbs : ℚ) ≤ 2 ^ 127 := by
    have hmax : maxMantissa + 1 = 2 ^ 127 := by decide
    rw [fits_iff] at hfits
    exact_mod_cast (by omega : d.mantissa.natAbs ≤ maxMantissa + 1)
  have hdenominator : (10 : ℚ) ^ d.scale ≤ 10 ^ maxScale := pow_le_pow_right₀ (by norm_num) hscale
  have hpos : (1 : ℚ) ≤ 10 ^ d.scale := one_le_pow₀ (by norm_num)
  rw [Nat.cast_pow, Nat.cast_ofNat, le_div_iff₀ (by positivity), div_lt_iff₀ (by positivity)]
  constructor
  · calc (2 : ℚ) ^ (-1022 : ℤ) * 10 ^ d.scale ≤ 2 ^ (-94 : ℤ) * 10 ^ maxScale :=
        mul_le_mul (zpow_le_zpow_right₀ one_le_two (by decide)) hdenominator (by positivity)
          (by positivity)
      _ ≤ 1 := by norm_num [maxScale]
      _ ≤ d.mantissa.natAbs := hone
  · calc (d.mantissa.natAbs : ℚ) ≤ 2 ^ 127 := hmost
      _ < 2 ^ (1023 : ℤ) := by
        rw [← zpow_natCast]
        exact zpow_lt_zpow_right₀ one_lt_two (by decide)
      _ ≤ 2 ^ (1023 : ℤ) * 10 ^ d.scale := le_mul_of_one_le_right (by positivity) hpos

/-- Some double is near a decimal. -/
theorem exists_near (hnormal : d.Normal) (hfits : fits d.mantissa = true) :
    ∃ y : Double, y.isFinite = true ∧ Near y.value d.value := by
  by_cases hzero : d.mantissa = 0
  · refine ⟨⟨0⟩, by decide, ?_⟩
    rw [value, hzero, Int.cast_zero, zero_div, Double.value_eq_zero_iff.2 (by decide)]
    exact .refl 0
  · obtain ⟨hlow, hhigh⟩ := magnitude_range hnormal.scale_le hfits hzero
    obtain ⟨hfinite, herror⟩ := Double.abs_value_ofRatio_sub_le (decide (d.mantissa < 0))
      (Int.natAbs_pos.2 hzero) (Nat.pow_pos (by decide)) hlow hhigh
    have hmagnitude : (d.mantissa.natAbs : ℚ) / (10 ^ d.scale : ℕ) = |d.value| := by
      rw [value, abs_div, abs_of_pos (by positivity : (0 : ℚ) < 10 ^ d.scale), Nat.cast_natAbs,
        Int.cast_abs, Nat.cast_pow, Nat.cast_ofNat]
    rw [← value_eq_natAbs, hmagnitude] at herror
    refine ⟨_, hfinite, herror.trans ?_⟩
    exact mul_le_mul_of_nonneg_right (zpow_le_zpow_right₀ one_le_two (by decide)) (abs_nonneg _)

/-- The double nearest to a decimal is near it. -/
theorem near_of_nearest (hnormal : d.Normal) (hfits : fits d.mantissa = true) {x : Double}
    (hnearest : ∀ y : Double, y.isFinite = true → |x.value - d.value| ≤ |y.value - d.value|) :
    Near x.value d.value := by
  obtain ⟨y, hfinite, hnear⟩ := exists_near hnormal hfits
  exact (hnearest y hfinite).trans hnear

end Decimal

/-! ## Values -/

/-- The noise of binary fractions is absorbed. A finite double that lies near a decimal of at most
fifteen digits, such as the nearest one, converts to the decimal; one that is an integer of at most
`10 ^ 15` converts to the decimal of the integer. -/
theorem Value.asDecimal?_absorbs_noise :
    (∀ d : Decimal, d.Normal → Decimal.fits d.mantissa = true → d.WithinDigits 15 →
      ∀ x : Double, x.isFinite = true →
        (|x.value - d.value| ≤ 2 ^ (-52 : ℤ) * |d.value| ∨
          ∀ y : Double, y.isFinite = true → |x.value - d.value| ≤ |y.value - d.value|) →
        (Value.float x).asDecimal? = some d) ∧
    ∀ (x : Double) (i : Int64), x.isFinite = true → |i.toInt| ≤ 10 ^ 15 → x.value = i.toInt →
      (Value.float x).asDecimal? = (Value.int i).asDecimal? := by
  constructor
  · rintro d hnormal hfits hdigits x hfinite (hnear | hnearest)
    · exact Decimal.ofDouble?_of_near hnormal hfits hdigits hfinite hnear
    · exact Decimal.ofDouble?_of_near hnormal hfits hdigits hfinite
        (Decimal.near_of_nearest hnormal hfits hnearest)
  · intro x i hfinite hsmall hvalue
    have hbounds := abs_le.1 hsmall
    refine Decimal.ofDouble?_of_near (Decimal.normal_ofInt _)
      (Decimal.fits_ofInt (by omega) (by omega)) (Decimal.withinDigits_ofInt hsmall) hfinite ?_
    rw [Decimal.value_ofInt, hvalue]
    exact .refl _

/-- The sum of the doubles nearest to 0.1 and 0.2 is not the one nearest to 0.3; the double of
`10 ^ 15` is that integer. -/
theorem Value.asDecimal?_absorbs_sum :
    (Value.float ⟨0x3FD3333333333334⟩).asDecimal? = some ⟨3, 1⟩ ∧
      (Value.float ⟨0x430C6BF526340000⟩).asDecimal? =
        (Value.int 1000000000000000).asDecimal? := by
  have hsum : Double.value ⟨0x3FD3333333333334⟩ = (5404319552844596 : ℕ) * 2 ^ (-54 : ℤ) :=
    Double.value_of_positive (by decide) (by decide) (by decide)
  have hinteger : Double.value ⟨0x430C6BF526340000⟩ = (8000000000000000 : ℕ) * 2 ^ (-3 : ℤ) :=
    Double.value_of_positive (by decide) (by decide) (by decide)
  have hint : (1000000000000000 : Int64).toInt = 10 ^ 15 := by decide
  constructor
  · refine Value.asDecimal?_absorbs_noise.1 ⟨3, 1⟩ ⟨by decide, by decide⟩ (by decide)
      ⟨3, 0, by decide, by decide⟩ _ (by decide) (.inl ?_)
    rw [hsum, Decimal.value_mk]
    norm_num [abs_le]
  · refine Value.asDecimal?_absorbs_noise.2 _ _ (by decide) (by decide) ?_
    rw [hinteger, hint]
    norm_num

end TypedRecords
