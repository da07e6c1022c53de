import Mathlib.Data.Rat.Floor
import TypedRecords.Proofs.Decimal.Scientific
import TypedRecords.Proofs.Decimal.Value

/-!
# Which decimal a double becomes

The number of a double is rounded to fifteen significant digits (`Significant`), with ties to even.
The double becomes the normal decimal of the rounded number without the digits past the last place,
unless the rounded number is beyond the mantissas (`ofDouble?_rounds`).
-/

namespace TypedRecords

namespace Number

/-- The integer part of a number: the fraction is dropped, toward zero. -/
def truncate (x : ℚ) : ℤ := if 0 ≤ x then ⌊x⌋ else ⌈x⌉

theorem truncate_intCast (n : ℤ) : truncate n = n := by
  rw [truncate, Int.floor_intCast, Int.ceil_intCast, ite_self]

/-- Dividing integers toward zero drops the fraction of the quotient. -/
theorem truncate_div (a : ℤ) {b : ℕ} (hb : 0 < b) : truncate (a / b) = a.tdiv b := by
  have hpos : (0 : ℚ) < b := by exact_mod_cast hb
  rcases le_or_gt 0 a with ha | ha
  · have hsign : (0 : ℚ) ≤ a / b := div_nonneg (by exact_mod_cast ha) hpos.le
    rw [truncate, if_pos hsign, Rat.floor_intCast_div_natCast, Int.tdiv_eq_ediv_of_nonneg ha]
  · have hsign : (a : ℚ) / b < 0 := div_neg_of_neg_of_pos (by exact_mod_cast ha) hpos
    have hceil : ⌈(a : ℚ) / b⌉ = -⌊((-a : ℤ) : ℚ) / b⌋ := by
      rw [Int.cast_neg, neg_div, Int.floor_neg, neg_neg]
    rw [truncate, if_neg hsign.not_ge, hceil, Rat.floor_intCast_div_natCast,
      ← Int.tdiv_eq_ediv_of_nonneg (by omega), Int.neg_tdiv, neg_neg]

end Number

namespace Decimal

open Number

/-! ## Cutting off -/

/-- A number without the decimal digits past the last place. -/
def cutOff (r : ℚ) : ℚ := truncate (r * 10 ^ maxScale) / 10 ^ maxScale

/-- A number without digits past the last place stays as it is. -/
theorem cutOff_div (m : ℤ) {n : ℕ} (hn : n ≤ maxScale) : cutOff (m / 10 ^ n) = m / 10 ^ n := by
  obtain ⟨rest, hrest⟩ := Nat.exists_eq_add_of_le hn
  have hinteger : (m : ℚ) / 10 ^ n * 10 ^ maxScale = (m * 10 ^ rest : ℤ) := by
    rw [hrest, pow_add]
    push_cast
    field_simp
  rw [cutOff, hinteger, truncate_intCast, hrest, pow_add]
  push_cast
  field_simp

theorem cutOff_value {d : Decimal} (hd : d.Normal) : cutOff d.value = d.value :=
  cutOff_div d.mantissa hd.scale_le

/-- A number between the smallest mantissa and the largest. -/
def InRange (r : ℚ) : Prop := -2 ^ 127 ≤ r ∧ r ≤ 2 ^ 127 - 1

theorem inRange_intCast (n : ℤ) : InRange n ↔ fits n = true := by
  have hmax : (maxMantissa : ℤ) = 2 ^ 127 - 1 := by decide
  have hlow : (-2 ^ 127 : ℚ) ≤ n ↔ -2 ^ 127 ≤ n := by exact_mod_cast Iff.rfl
  have hhigh : (n : ℚ) ≤ 2 ^ 127 - 1 ↔ n ≤ 2 ^ 127 - 1 := by exact_mod_cast Iff.rfl
  rw [fits_iff, hmax, InRange, hlow, hhigh]
  omega

/-- A fraction is in range if its numerator is. -/
theorem inRange_div {m : ℤ} (hm : fits m = true) (n : ℕ) : InRange (m / 10 ^ n) := by
  obtain ⟨hlow, hhigh⟩ := (inRange_intCast m).2 hm
  have hone : (1 : ℚ) ≤ 10 ^ n := one_le_pow₀ (by norm_num)
  constructor
  · rw [le_div_iff₀ (by positivity)]
    linarith
  · rw [div_le_iff₀ (by positivity)]
    linarith

/-! ## Units of a place -/

/-- The digits past the last place are cut off by a division toward zero. -/
theorem tdiv_div (signed : ℤ) (n : ℕ) :
    (signed.tdiv (10 ^ (n - maxScale)) : ℚ) / 10 ^ min n maxScale = cutOff (signed / 10 ^ n) := by
  rcases le_total n maxScale with hle | hle
  · rw [Nat.sub_eq_zero_of_le hle, Nat.min_eq_left hle, pow_zero, Int.tdiv_one, cutOff_div _ hle]
  · obtain ⟨extra, rfl⟩ := Nat.exists_eq_add_of_le' hle
    have hquotient : (signed : ℚ) / 10 ^ (extra + maxScale) * 10 ^ maxScale =
        signed / (10 ^ extra : ℕ) := by
      rw [pow_add]
      push_cast
      field_simp
    rw [cutOff, hquotient, truncate_div _ (Nat.pow_pos (by decide)), Nat.min_eq_right hle,
      Nat.add_sub_cancel]
    push_cast
    rfl

/-- A number of units makes the normal decimal of the number, cut off, if it is in range. -/
theorem ofUnits?_spec {signed : ℤ} (hsmall : fits signed = true) (place : ℤ) :
    (ofUnits? signed place = none ↔ ¬InRange (signed * 10 ^ place)) ∧
      ∀ d, ofUnits? signed place = some d → d.value = cutOff (signed * 10 ^ place) := by
  cases place with
  | ofNat n =>
    have hinteger : (signed : ℚ) * 10 ^ (Int.ofNat n) = (signed * 10 ^ n : ℤ) := by
      rw [Int.ofNat_eq_natCast, zpow_natCast]
      push_cast
      rfl
    rw [hinteger, inRange_intCast, Int.ofNat_eq_natCast, ofUnits?_natCast]
    split
    · next hfits =>
      refine ⟨by simp [hfits], fun d h => ?_⟩
      obtain rfl := Option.some.inj h
      rw [value_normalize, ← cutOff_div _ (Nat.zero_le _), pow_zero, div_one]
    · next hfits => simp [hfits]
  | negSucc n =>
    rw [zpow_negSucc, ← div_eq_mul_inv, ofUnits?_negSucc]
    refine ⟨by simp [inRange_div hsmall], fun d h => ?_⟩
    obtain rfl := Option.some.inj h
    rw [value_normalize, tdiv_div]

/-! ## Significant digits -/

/-- A number rounded to fifteen significant digits. The first of them has the place `e`, and the
number is counted in units of the fifteenth, fourteen places behind. -/
structure Significant (v : ℚ) (e units : ℤ) : Prop where
  low : (10 : ℚ) ^ e ≤ |v|
  high : |v| < 10 ^ (e + 1)
  nearest : NearestEven (v / 10 ^ (e - 14)) units

namespace Significant

variable {v : ℚ} {e e' units units' : ℤ}

theorem exponent_le (h : Significant v e units) (h' : Significant v e' units') : e ≤ e' := by
  have hlt : e < e' + 1 :=
    (zpow_lt_zpow_iff_right₀ (by norm_num : (1 : ℚ) < 10)).1 (h.low.trans_lt h'.high)
  omega

theorem unique (h : Significant v e units) (h' : Significant v e' units') :
    e = e' ∧ units = units' := by
  obtain rfl := le_antisymm (h.exponent_le h') (h'.exponent_le h)
  exact ⟨rfl, h.nearest.unique h'.nearest⟩

end Significant

/-- The digits to which a double is rounded are those of its number. -/
theorem significant_value {x : Double} (hzero : x.isZero = false) {units : ℕ} {place : ℤ}
    (h : roundSignificant x.numerator x.denominator = (units, place)) :
    Significant x.value (place + 14) (signedLike x units) := by
  obtain ⟨hlow, hhigh, hnear⟩ :=
    roundSignificant_spec (Double.numerator_pos hzero) x.denominator_pos h
  have hnearest : NearestEven (x.value / 10 ^ place) (signedLike x units) := by
    rw [Double.value_eq, signedLike]
    cases x.isNegative with
    | false => simpa using hnear
    | true => simpa [neg_div] using hnear.neg
  constructor
  · rwa [Double.abs_value]
  · rwa [Double.abs_value, add_assoc]
  · rwa [add_sub_cancel_right]

/-! ## Conversion -/

/-- A double other than zero becomes the decimal of its significant digits. -/
theorem ofDouble?_significant {x : Double} (hfinite : x.isFinite = true) (hvalue : x.value ≠ 0) :
    ∃ e units, Significant x.value e units ∧
      (ofDouble? x = none ↔ ¬InRange (units * 10 ^ (e - 14))) ∧
      ∀ d, ofDouble? x = some d ↔ InRange (units * 10 ^ (e - 14)) ∧ d.Normal ∧
        d.value = cutOff (units * 10 ^ (e - 14)) := by
  have hzero : x.isZero = false := by
    rwa [Ne, Double.value_eq_zero_iff, Bool.not_eq_true] at hvalue
  obtain ⟨⟨units, place⟩, hround⟩ : ∃ rounded, roundSignificant x.numerator x.denominator =
      rounded := ⟨_, rfl⟩
  have hfits : fits (signedLike x units) = true := by
    refine fits_of_natAbs_le ?_
    rw [natAbs_signedLike]
    exact (roundSignificant_range (Double.numerator_pos hzero) x.denominator_pos hround).2.trans
      (by decide)
  obtain ⟨hnone, hsome⟩ := ofUnits?_spec hfits place
  refine ⟨place + 14, signedLike x units, significant_value hzero hround, ?_⟩
  rw [ofDouble?_eq_ofUnits? hfinite hzero hround, add_sub_cancel_right]
  refine ⟨hnone, fun d => ⟨fun h => ⟨?_, normal_of_ofUnits? h, hsome d h⟩, ?_⟩⟩
  · by_contra hout
    rw [hnone.2 hout] at h
    cases h
  · rintro ⟨hrange, hnormal, hd⟩
    obtain ⟨d', hd'⟩ := Option.ne_none_iff_exists'.1 fun h => hnone.1 h hrange
    rw [hd', (normal_of_ofUnits? hd').eq_of_value_eq hnormal ((hsome d' hd').trans hd.symm)]

theorem ofDouble?_eq_zero {x : Double} (hfinite : x.isFinite = true) (hvalue : x.value = 0) :
    ofDouble? x = some zero := by
  simp [ofDouble?, hfinite, Double.value_eq_zero_iff.1 hvalue]

/-- Which decimal a double becomes. There is none of a double that is not finite, and zero becomes
zero. Any other number is rounded to fifteen significant digits, half to even; the rounded number
has no decimal exactly if it is out of range, and becomes the normal decimal of its digits down to
the last place otherwise. On the way no operation on integers of fixed width overflows. -/
theorem ofDouble?_rounds (x : Double) :
    (x.isFinite = false → ofDouble? x = none) ∧
    (x.isFinite = true → x.value = 0 → ofDouble? x = some zero) ∧
    (x.isFinite = true → x.value ≠ 0 → ∃ e units, Significant x.value e units ∧
      (∀ e' units', Significant x.value e' units' → e = e' ∧ units = units') ∧
      (ofDouble? x = none ↔ ¬InRange (units * 10 ^ (e - 14))) ∧
      ∀ d, ofDouble? x = some d ↔ InRange (units * 10 ^ (e - 14)) ∧ d.Normal ∧
        d.value = cutOff (units * 10 ^ (e - 14))) ∧
    Checked.ofDouble? x = .ok (ofDouble? x) := by
  refine ⟨fun hfinite => ?_, ofDouble?_eq_zero, fun hfinite hvalue => ?_, Checked.ofDouble?_eq x⟩
  · simp [ofDouble?, hfinite]
  · obtain ⟨e, units, hsignificant, hconverted⟩ := ofDouble?_significant hfinite hvalue
    exact ⟨e, units, hsignificant, fun e' units' => hsignificant.unique, hconverted⟩

/-- The double nearest to `10 ^ 23` is less than that, and is rounded up to sixteen digits. -/
theorem ofDouble?_rounds_into_next_decade :
    let x : Double := ⟨0x44B52D02C7E14AF6⟩
    x.isFinite = true ∧ x.value = 99999999999999991611392 ∧ Significant x.value 22 (10 ^ 15) ∧
      ofDouble? x = some ⟨10 ^ 23, 0⟩ := by
  intro x
  have hfinite : x.isFinite = true := by decide
  have hvalue : x.value = 99999999999999991611392 := by
    have hfields : x.value = (5960464477539062 : ℕ) * 2 ^ (24 : ℤ) :=
      Double.value_of_positive (by decide) (by decide) (by decide)
    rw [hfields]
    norm_num
  have hsignificant : Significant x.value 22 (10 ^ 15) := by
    rw [hvalue]
    constructor
    · norm_num
    · norm_num
    · refine .of_lt ?_
      norm_num [abs_lt]
  obtain ⟨-, -, hrounds, -⟩ := ofDouble?_rounds x
  obtain ⟨e, units, -, hunique, -, hsome⟩ := hrounds hfinite (by rw [hvalue]; norm_num)
  obtain ⟨rfl, rfl⟩ := hunique 22 (10 ^ 15) hsignificant
  have hnumber : (((10 ^ 15 : ℤ) : ℚ) * 10 ^ (22 - 14 : ℤ)) = (10 ^ 23 : ℤ) / 10 ^ 0 := by norm_num
  refine ⟨hfinite, hvalue, hsignificant, (hsome _).2 ⟨?_, ⟨by decide, by decide⟩, ?_⟩⟩
  · rw [hnumber]
    exact inRange_div (by decide) 0
  · rw [hnumber, cutOff_div _ (Nat.zero_le _), value_mk]

end Decimal
end TypedRecords
