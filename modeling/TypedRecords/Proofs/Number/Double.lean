import TypedRecords.Proofs.Number.Rounding

/-!
# The numbers of doubles

A finite double stands for a rational number (`Double.value`), which is zero for the two zeros
alone and lies between the powers of two that the format allows for. A quotient is rounded to a
double with an error of half a unit of its last place (`Double.abs_value_ofRatio_sub_le`). Apart
from the zeros, different finite doubles stand for different numbers, so that equality compares the
numbers (`Double.equals_iff`).
-/

namespace TypedRecords.Double

open Number

/-- The number that a finite double stands for. -/
def value (x : Double) : ℚ :=
  (if x.isNegative then -1 else 1) * (x.significand * 2 ^ x.scale)

variable {x : Double}

/-! ## Fields -/

theorem denominator_pos (x : Double) : 0 < x.denominator := Nat.two_pow_pos _

theorem numerator_div_denominator (x : Double) :
    (x.numerator : ℚ) / x.denominator = x.significand * 2 ^ x.scale := by
  rw [zpow_eq_div two_ne_zero, numerator, denominator]
  push_cast
  rw [mul_div_assoc]

theorem value_eq (x : Double) :
    x.value = (if x.isNegative then -1 else 1) * (x.numerator / x.denominator) := by
  rw [value, numerator_div_denominator]

theorem value_of_positive {significand : ℕ} {scale : ℤ} (h : x.isNegative = false)
    (hsignificand : x.significand = significand) (hscale : x.scale = scale) :
    x.value = significand * 2 ^ scale := by
  rw [value, h, hsignificand, hscale, if_neg Bool.false_ne_true, one_mul]

theorem abs_value (x : Double) : |x.value| = x.numerator / x.denominator := by
  have hmagnitude : (0 : ℚ) ≤ x.numerator / x.denominator := by positivity
  rw [value_eq]
  split
  · rw [neg_one_mul, abs_neg, abs_of_nonneg hmagnitude]
  · rw [one_mul, abs_of_nonneg hmagnitude]

theorem significand_eq_zero_iff : x.significand = 0 ↔ x.isZero = true := by
  rw [significand, isZero, Bool.and_eq_true, beq_iff_eq, beq_iff_eq]
  split
  · next hsubnormal => simp [hsubnormal]
  · next hnormal => simp [hnormal]

theorem numerator_pos (h : x.isZero = false) : 0 < x.numerator := by
  have hne : x.significand ≠ 0 := by
    rw [Ne, significand_eq_zero_iff, h]
    exact Bool.false_ne_true
  exact Nat.mul_pos (Nat.pos_of_ne_zero hne) (Nat.two_pow_pos _)

theorem value_eq_zero_iff : x.value = 0 ↔ x.isZero = true := by
  have hpow : (2 : ℚ) ^ x.scale ≠ 0 := by positivity
  rw [← abs_eq_zero, abs_value, numerator_div_denominator, ← significand_eq_zero_iff,
    mul_eq_zero, or_iff_left hpow, Nat.cast_eq_zero]

theorem significand_lt (x : Double) : x.significand < 2 ^ 53 := by
  have hfraction : x.fractionField < 2 ^ 52 := Nat.mod_lt _ (by decide)
  rw [significand]
  split <;> omega

theorem scale_range (h : x.isFinite = true) : -1074 ≤ x.scale ∧ x.scale ≤ 971 := by
  have hexponent : x.exponentField < 2 ^ 11 := Nat.mod_lt _ (by decide)
  rw [isFinite, bne_iff_ne] at h
  rw [scale]
  omega

/-- The magnitudes of the finite doubles other than zero. -/
theorem magnitude_range (hfinite : x.isFinite = true) (hzero : x.isZero = false) :
    (2 : ℚ) ^ (-1074 : ℤ) ≤ x.numerator / x.denominator ∧
      (x.numerator : ℚ) / x.denominator < 2 ^ (1024 : ℤ) := by
  obtain ⟨hlow, hhigh⟩ := scale_range hfinite
  have hpos : 1 ≤ x.significand := by
    rw [Nat.one_le_iff_ne_zero, Ne, significand_eq_zero_iff, hzero]
    exact Bool.false_ne_true
  rw [numerator_div_denominator]
  constructor
  · calc (2 : ℚ) ^ (-1074 : ℤ) ≤ 2 ^ x.scale := zpow_le_zpow_right₀ one_le_two hlow
      _ ≤ x.significand * 2 ^ x.scale :=
        le_mul_of_one_le_left (by positivity) (by exact_mod_cast hpos)
  · calc (x.significand : ℚ) * 2 ^ x.scale < 2 ^ 53 * 2 ^ x.scale :=
        mul_lt_mul_of_pos_right (by exact_mod_cast significand_lt x) (by positivity)
      _ ≤ 2 ^ 53 * 2 ^ (971 : ℤ) := by gcongr; exact one_le_two
      _ = 2 ^ (1024 : ℤ) := by
        rw [← zpow_natCast, ← zpow_add₀ two_ne_zero]
        rfl

/-! ## Doubles from fields -/

/-- The double with these fields. -/
def ofFields (negative : Bool) (exponent fraction : Nat) : Double :=
  ⟨.ofNat 64 ((if negative then 2 ^ 63 else 0) + (exponent * 2 ^ 52 + fraction))⟩

section

variable {negative : Bool} {exponent fraction : Nat} (hexponent : exponent < 2 ^ 11)
  (hfraction : fraction < 2 ^ 52)

include hexponent hfraction

theorem toNat_bits_ofFields : (ofFields negative exponent fraction).bits.toNat =
    (if negative then 2 ^ 63 else 0) + (exponent * 2 ^ 52 + fraction) := by
  rw [ofFields, BitVec.toNat_ofNat, Nat.mod_eq_of_lt]
  split <;> omega

theorem isNegative_ofFields : (ofFields negative exponent fraction).isNegative = negative := by
  rw [isNegative, BitVec.msb_eq_decide, toNat_bits_ofFields hexponent hfraction]
  cases negative with
  | false => exact decide_eq_false (by rw [if_neg Bool.false_ne_true]; omega)
  | true => exact decide_eq_true (by rw [if_pos rfl]; omega)

theorem exponentField_ofFields :
    (ofFields negative exponent fraction).exponentField = exponent := by
  rw [exponentField, toNat_bits_ofFields hexponent hfraction]
  split <;> omega

theorem fractionField_ofFields :
    (ofFields negative exponent fraction).fractionField = fraction := by
  rw [fractionField, toNat_bits_ofFields hexponent hfraction]
  split <;> omega

end

/-- A normal number from its sign, its exponent and its significand, the greatest of which belongs
to the next exponent. -/
theorem value_of_significand (negative : Bool) {exponent significand : Nat}
    (hexponent : exponent < 2045) (hlow : 2 ^ 52 ≤ significand) (hhigh : significand ≤ 2 ^ 53)
    {y : Double}
    (hy : y.bits =
      .ofNat 64 ((if negative then 2 ^ 63 else 0) + (exponent * 2 ^ 52 + significand))) :
    y.isFinite = true ∧ y.value =
      (if negative then -1 else 1) * (significand * 2 ^ ((exponent : ℤ) - 1074)) := by
  -- the fields of the two cases
  obtain ⟨e, f, he, hf, hbits, hvalue⟩ : ∃ e f : Nat, (0 < e ∧ e < 2047) ∧ f < 2 ^ 52 ∧
      exponent * 2 ^ 52 + significand = e * 2 ^ 52 + f ∧
        ((2 ^ 52 + f : Nat) : ℚ) * 2 ^ ((e : ℤ) - 1075) =
          significand * 2 ^ ((exponent : ℤ) - 1074) := by
    by_cases hlt : significand < 2 ^ 53
    · refine ⟨exponent + 1, significand - 2 ^ 52, by omega, by omega, by omega, ?_⟩
      have hsum : 2 ^ 52 + (significand - 2 ^ 52) = significand := by omega
      have hplace : ((exponent + 1 : Nat) : ℤ) - 1075 = (exponent : ℤ) - 1074 := by
        push_cast
        ring
      rw [hsum, hplace]
    · obtain rfl : significand = 2 ^ 53 := by omega
      refine ⟨exponent + 2, 0, by omega, by decide, by omega, ?_⟩
      have hplace : ((exponent + 2 : Nat) : ℤ) - 1075 = (exponent : ℤ) - 1074 + 1 := by
        push_cast
        ring
      rw [hplace, zpow_add_one₀ two_ne_zero]
      push_cast
      ring
  obtain rfl : y = ofFields negative e f := by
    cases y
    rw [ofFields, ← hbits]
    exact congrArg Double.mk hy
  have hexponentField : (ofFields negative e f).exponentField = e :=
    exponentField_ofFields (by omega) hf
  have hsignificand : (ofFields negative e f).significand = 2 ^ 52 + f := by
    rw [Double.significand, hexponentField, fractionField_ofFields (by omega) hf, if_neg (by omega)]
  have hscale : (ofFields negative e f).scale = (e : ℤ) - 1075 := by
    rw [scale, hexponentField]
    omega
  constructor
  · rw [isFinite, hexponentField, bne_iff_ne]
    omega
  · rw [value, isNegative_ofFields (by omega) hf, hsignificand, hscale, hvalue]

/-! ## Rounding to a double -/

/-- In the range of the normal numbers a quotient is rounded to a double with an error of half a
unit of the last place, which is at most `2 ^ (-53)` of the quotient. -/
theorem abs_value_ofRatio_sub_le (negative : Bool) {num den : Nat} (hnum : 0 < num) (hden : 0 < den)
    (hlow : (2 : ℚ) ^ (-1022 : ℤ) ≤ num / den) (hhigh : (num : ℚ) / den < 2 ^ (1023 : ℤ)) :
    (ofRatio negative num den).isFinite = true ∧
      |(ofRatio negative num den).value - (if negative then -1 else 1) * (num / den)| ≤
        2 ^ (-53 : ℤ) * (num / den) := by
  obtain ⟨hbelow, habove⟩ := binaryExponent_bounds hnum hden
  obtain ⟨k, hk⟩ : ∃ k, k = binaryExponent num den := ⟨_, rfl⟩
  rw [← hk] at hbelow habove
  have hkhigh : k < 1023 := (zpow_lt_zpow_iff_right₀ one_lt_two).1 (hbelow.trans_lt hhigh)
  have hklow : -1022 < k + 1 := (zpow_lt_zpow_iff_right₀ one_lt_two).1 (hlow.trans_lt habove)
  obtain ⟨exponent, hexponent⟩ : ∃ exponent : Nat, k - 52 + 1074 = exponent :=
    ⟨(k + 1022).toNat, by omega⟩
  have hpos : (0 : ℚ) < 2 ^ (k - 52) := by positivity
  have hunit : (2 : ℚ) ^ k = 2 ^ 52 * 2 ^ (k - 52) := by
    rw [← zpow_natCast, ← zpow_add₀ two_ne_zero]
    congr 1
    push_cast
    ring
  -- the significand is the quotient rounded in units of the last place
  obtain ⟨significand, hsignificand⟩ : ∃ significand, significand =
      roundHalfEven (num * 2 ^ (-(k - 52)).toNat) (den * 2 ^ (k - 52).toNat) := ⟨_, rfl⟩
  have hnear : NearestEven (num / den / 2 ^ (k - 52)) significand := by
    rw [hsignificand]
    exact_mod_cast nearestEven_scaled (b := 2) (by decide) num hden (k - 52)
  have hatleast : 2 ^ 52 ≤ significand := by
    have := hnear.le_of_ge (m := 2 ^ 52) (by
      rw [le_div_iff₀ hpos, Int.cast_pow, Int.cast_ofNat, ← hunit]
      exact hbelow)
    exact_mod_cast this
  have hatmost : significand ≤ 2 ^ 53 := by
    have := hnear.le_of_le (m := 2 ^ 53) (by
      rw [div_le_iff₀ hpos]
      rw [zpow_add_one₀ two_ne_zero, hunit] at habove
      push_cast
      linarith)
    exact_mod_cast this
  have hbits : (ofRatio negative num den).bits =
      .ofNat 64 ((if negative then 2 ^ 63 else 0) + (exponent * 2 ^ 52 + significand)) := by
    have hmagnitude : magnitudeBits num den = exponent * 2 ^ 52 + significand := by
      rw [magnitudeBits, if_neg hnum.ne', ← hk, max_eq_left (by omega)]
      dsimp only
      rw [← hsignificand, hexponent, Int.toNat_natCast]
      omega
    rw [ofRatio, hmagnitude]
  obtain ⟨hfinite, hvalue⟩ :=
    value_of_significand negative (by omega) hatleast hatmost hbits
  refine ⟨hfinite, ?_⟩
  have hplace : (exponent : ℤ) - 1074 = k - 52 := by omega
  have hsign : |(if negative then -1 else 1 : ℚ)| = 1 := by cases negative <;> simp
  rw [hvalue, hplace, ← mul_sub, abs_mul, hsign, one_mul]
  have herror : |(significand : ℚ) * 2 ^ (k - 52) - num / den| ≤ 1 / 2 * 2 ^ (k - 52) := by
    have hfactor : (significand : ℚ) * 2 ^ (k - 52) - num / den =
        -(num / den / 2 ^ (k - 52) - (significand : ℤ)) * 2 ^ (k - 52) := by
      field_simp
      push_cast
      ring
    rw [hfactor, abs_mul, abs_neg, abs_of_pos hpos]
    exact mul_le_mul_of_nonneg_right hnear.near hpos.le
  calc |(significand : ℚ) * 2 ^ (k - 52) - num / den| ≤ 1 / 2 * 2 ^ (k - 52) := herror
    _ = 2 ^ (-53 : ℤ) * 2 ^ k := by
      rw [hunit]
      norm_num
      ring
    _ ≤ 2 ^ (-53 : ℤ) * (num / den) := mul_le_mul_of_nonneg_left hbelow (by positivity)

/-! ## Equality -/

variable {y : Double}

theorem toNat_bits (x : Double) : x.bits.toNat =
    (if x.isNegative then 2 ^ 63 else 0) + (x.exponentField * 2 ^ 52 + x.fractionField) := by
  have hbits : x.bits.toNat < 2 ^ 64 := x.bits.isLt
  rw [isNegative, BitVec.msb_eq_decide, exponentField, fractionField]
  split
  · next h =>
    rw [decide_eq_true_iff] at h
    omega
  · next h =>
    rw [decide_eq_true_iff] at h
    omega

theorem eq_of_fields (hsign : x.isNegative = y.isNegative)
    (hexponent : x.exponentField = y.exponentField)
    (hfraction : x.fractionField = y.fractionField) : x = y := by
  have hbits : x.bits = y.bits := by
    apply BitVec.eq_of_toNat_eq
    rw [toNat_bits, toNat_bits, hsign, hexponent, hfraction]
  cases x
  cases y
  exact congrArg Double.mk hbits

/-- Above the least scale the significand has all its 53 digits. -/
theorem le_significand (h : -1074 < x.scale) : 2 ^ 52 ≤ x.significand := by
  rw [scale] at h
  rw [significand, if_neg (by omega)]
  exact Nat.le_add_right _ _

/-- Equal magnitudes have the same scale and the same significand. -/
theorem scale_le_of_magnitude_eq
    (h : (x.significand : ℚ) * 2 ^ x.scale = y.significand * 2 ^ y.scale) (hx : x.isFinite = true) :
    y.scale ≤ x.scale := by
  by_contra hlt
  rw [not_le] at hlt
  have hlow := (scale_range hx).1
  have hlong : 2 ^ 52 ≤ y.significand := le_significand (by omega)
  have hshort : x.significand < 2 ^ 53 := significand_lt x
  refine absurd h (ne_of_lt ?_)
  calc (x.significand : ℚ) * 2 ^ x.scale < 2 ^ 53 * 2 ^ x.scale :=
        mul_lt_mul_of_pos_right (by exact_mod_cast hshort) (by positivity)
    _ = 2 ^ 52 * 2 ^ (x.scale + 1) := by
        rw [zpow_add_one₀ two_ne_zero]
        ring
    _ ≤ y.significand * 2 ^ y.scale := by
        gcongr
        · exact_mod_cast hlong
        · exact one_le_two
        · omega

theorem fields_of_magnitude_eq
    (h : (x.significand : ℚ) * 2 ^ x.scale = y.significand * 2 ^ y.scale) (hx : x.isFinite = true)
    (hy : y.isFinite = true) :
    x.exponentField = y.exponentField ∧ x.fractionField = y.fractionField := by
  have hscale : x.scale = y.scale :=
    le_antisymm (scale_le_of_magnitude_eq h.symm hy) (scale_le_of_magnitude_eq h hx)
  have hpow : (2 : ℚ) ^ y.scale ≠ 0 := by positivity
  have hsignificand : x.significand = y.significand := by
    rw [hscale] at h
    exact_mod_cast mul_right_cancel₀ hpow h
  have hxfraction : x.fractionField < 2 ^ 52 := Nat.mod_lt _ (by decide)
  have hyfraction : y.fractionField < 2 ^ 52 := Nat.mod_lt _ (by decide)
  rw [scale, scale] at hscale
  rw [significand, significand] at hsignificand
  -- the least scale belongs to two exponents, which the significand tells apart
  split at hsignificand <;> split at hsignificand <;> omega

theorem isNegative_eq_of_value_eq (h : x.value = y.value) (hzero : x.isZero = false) :
    x.isNegative = y.isNegative := by
  have hpos (z : Double) (hz : z.isZero = false) :
      0 < (z.significand : ℚ) * 2 ^ z.scale := by
    rw [← numerator_div_denominator]
    exact div_pos (by exact_mod_cast numerator_pos hz) (by exact_mod_cast denominator_pos z)
  have hyzero : y.isZero = false := by
    rw [← Bool.not_eq_true, ← value_eq_zero_iff] at hzero ⊢
    rwa [← h]
  have hx := hpos x hzero
  have hy := hpos y hyzero
  rw [value, value] at h
  cases hxsign : x.isNegative <;> cases hysign : y.isNegative <;>
    simp only [hxsign, hysign, if_true, if_false, Bool.false_eq_true] at h ⊢ <;> linarith

/-- Finite doubles stand for the same number if they are the same or both zeros. -/
theorem value_eq_iff (hx : x.isFinite = true) (hy : y.isFinite = true) :
    x.value = y.value ↔ x = y ∨ x.isZero = true ∧ y.isZero = true := by
  constructor
  · intro h
    cases hzero : x.isZero with
    | true =>
      rw [← value_eq_zero_iff] at hzero
      exact .inr ⟨rfl, value_eq_zero_iff.1 (h ▸ hzero)⟩
    | false =>
      have hsign := isNegative_eq_of_value_eq h hzero
      have hmagnitude : (x.significand : ℚ) * 2 ^ x.scale = y.significand * 2 ^ y.scale := by
        have habs := congrArg abs h
        rwa [abs_value, abs_value, numerator_div_denominator, numerator_div_denominator] at habs
      obtain ⟨hexponent, hfraction⟩ := fields_of_magnitude_eq hmagnitude hx hy
      exact .inl (eq_of_fields hsign hexponent hfraction)
  · rintro (rfl | ⟨hxzero, hyzero⟩)
    · rfl
    · rw [value_eq_zero_iff.2 hxzero, value_eq_zero_iff.2 hyzero]

theorem isFinite_of_isZero (h : x.isZero = true) : x.isFinite = true := by
  rw [isZero, Bool.and_eq_true, beq_iff_eq] at h
  rw [isFinite, h.1]
  rfl

/-- Doubles are equal if none is a NaN and they have the same bits or stand for the same number. -/
theorem equals_iff : x.equals y = true ↔ x.isNaN = false ∧ y.isNaN = false ∧
    (x = y ∨ x.isFinite = true ∧ y.isFinite = true ∧ x.value = y.value) := by
  have hbits : x.bits = y.bits ↔ x = y := by
    cases x
    cases y
    simp
  simp only [equals, Bool.and_eq_true, Bool.or_eq_true, Bool.not_eq_true', beq_iff_eq, hbits,
    and_assoc]
  refine and_congr_right fun _ => and_congr_right fun _ => ⟨?_, ?_⟩
  · rintro (heq | ⟨hx, hy⟩)
    · exact .inl heq
    · have hvalue :=
        (value_eq_iff (isFinite_of_isZero hx) (isFinite_of_isZero hy)).2 (.inr ⟨hx, hy⟩)
      exact .inr ⟨isFinite_of_isZero hx, isFinite_of_isZero hy, hvalue⟩
  · rintro (heq | ⟨hx, hy, hvalue⟩)
    · exact .inl heq
    · exact (value_eq_iff hx hy).1 hvalue

theorem equals_self_iff : x.equals x = true ↔ x.isNaN = false := by
  rw [equals_iff]
  exact ⟨fun h => h.1, fun h => ⟨h, h, .inl rfl⟩⟩

theorem equals_symm (h : x.equals y = true) : y.equals x = true := by
  rw [equals_iff] at h ⊢
  obtain ⟨hx, hy, hsame | ⟨hxfinite, hyfinite, hvalue⟩⟩ := h
  · exact ⟨hy, hx, .inl hsame.symm⟩
  · exact ⟨hy, hx, .inr ⟨hyfinite, hxfinite, hvalue.symm⟩⟩

theorem equals_trans {z : Double} (hxy : x.equals y = true) (hyz : y.equals z = true) :
    x.equals z = true := by
  rw [equals_iff] at hxy hyz ⊢
  obtain ⟨hx, -, hxy⟩ := hxy
  obtain ⟨-, hz, hyz⟩ := hyz
  refine ⟨hx, hz, ?_⟩
  rcases hxy with rfl | ⟨hxfinite, hyfinite, hxvalue⟩
  · exact hyz
  rcases hyz with rfl | ⟨-, hzfinite, hyvalue⟩
  · exact .inr ⟨hxfinite, hyfinite, hxvalue⟩
  · exact .inr ⟨hxfinite, hzfinite, hxvalue.trans hyvalue⟩

end TypedRecords.Double
