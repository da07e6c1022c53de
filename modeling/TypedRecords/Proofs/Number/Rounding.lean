import Mathlib.Algebra.Group.Int.Even
import Mathlib.Algebra.Order.Field.Power
import Mathlib.Algebra.Order.Field.Rat
import Mathlib.Tactic.FieldSimp
import Mathlib.Tactic.Linarith
import Mathlib.Tactic.NormNum
import Mathlib.Tactic.Positivity
import Mathlib.Tactic.Ring
import TypedRecords.Decimal.Conversion

/-!
# Rounded quotients

What rounding and sizing of quotients compute, said of the quotient as a rational number: rounding
gives the nearest integer, the even one of two (`nearestEven_roundHalfEven`), and the exponents are
those of the powers between which the quotient lies (`decimalExponent_bounds`,
`binaryExponent_bounds`). A quotient rounded to fifteen significant digits is rounded in units of
the fifteenth (`Decimal.roundSignificant_spec`).
-/

namespace TypedRecords

namespace Number

/-! ## Nearest integers -/

/-- The integer nearest to a number; of two equally near, the even one. -/
structure NearestEven (x : ℚ) (n : ℤ) : Prop where
  near : |x - n| ≤ 1 / 2
  even : |x - n| = 1 / 2 → Even n

namespace NearestEven

variable {x : ℚ} {m n : ℤ}

theorem of_lt (h : |x - n| < 1 / 2) : NearestEven x n := ⟨h.le, fun heq => absurd heq h.ne⟩

theorem unique (hm : NearestEven x m) (hn : NearestEven x n) : m = n := by
  -- a smaller one of the two would be odd, or the larger one would
  have hle {m n : ℤ} (hm : NearestEven x m) (hn : NearestEven x n) : n ≤ m := by
    by_contra hlt
    have hgap : (m : ℚ) + 1 ≤ n := by exact_mod_cast Int.add_one_le_iff.2 (not_le.1 hlt)
    have hm' := abs_le.1 hm.near
    have hn' := abs_le.1 hn.near
    have hx : x - m = 1 / 2 := by linarith
    have hx' : x - n = -(1 / 2) := by linarith
    have hnext : n = m + 1 := by
      have : (n : ℚ) = m + 1 := by linarith
      exact_mod_cast this
    have hmeven := hm.even (by rw [hx]; norm_num)
    have hneven := hn.even (by rw [hx']; norm_num)
    rw [hnext, Int.even_add_one] at hneven
    exact hneven hmeven
  exact le_antisymm (hle hn hm) (hle hm hn)

theorem neg (h : NearestEven x n) : NearestEven (-x) (-n) := by
  have hsame : |-x - (-n : ℤ)| = |x - n| := by
    rw [← abs_neg]
    congr 1
    push_cast
    ring
  constructor
  · rw [hsame]
    exact h.near
  · rw [hsame, even_neg]
    exact h.even

/-- Rounding does not pass an integer. -/
theorem le_of_le (h : NearestEven x n) (hx : x ≤ m) : n ≤ m := by
  by_contra hlt
  have hgap : (m : ℚ) + 1 ≤ n := by exact_mod_cast Int.add_one_le_iff.2 (not_le.1 hlt)
  have hn := abs_le.1 h.near
  linarith

theorem le_of_ge (h : NearestEven x n) (hx : m ≤ x) : m ≤ n := by
  have := h.neg.le_of_le (m := -m) (by push_cast; linarith)
  omega

end NearestEven

/-- A quotient is rounded to the nearest integer. -/
theorem nearestEven_roundHalfEven (num : Nat) {den : Nat} (hden : 0 < den) :
    NearestEven (num / den) (roundHalfEven num den) := by
  have hpos : (0 : ℚ) < den := by exact_mod_cast hden
  have hquotient : (num : ℚ) / den = (num / den : Nat) + ((num % den : Nat) : ℚ) / den := by
    rw [div_eq_iff hpos.ne', add_mul, div_mul_cancel₀ _ hpos.ne']
    exact_mod_cast (Nat.div_add_mod' num den).symm
  have hrest : (0 : ℚ) ≤ ((num % den : Nat) : ℚ) / den := by positivity
  have hcast : 2 * (((num % den : Nat) : ℚ) / den) = ((2 * (num % den) : Nat) : ℚ) / den := by
    push_cast
    ring
  have hlt : ((num % den : Nat) : ℚ) / den < 1 := by
    rw [div_lt_one hpos]
    exact_mod_cast Nat.mod_lt num hden
  rw [hquotient, roundHalfEven]
  generalize num / den = below, num % den = rest at *
  generalize (rest : ℚ) / den = part at *
  split
  · next hlow =>
    have hpart : 2 * part < 1 := by
      rw [hcast, div_lt_one hpos]
      exact_mod_cast hlow
    refine .of_lt (abs_lt.2 ⟨?_, ?_⟩) <;> push_cast <;> linarith
  · next hlow =>
    split
    · next hhigh =>
      have hpart : 1 < 2 * part := by
        rw [hcast, one_lt_div hpos]
        exact_mod_cast hhigh
      refine .of_lt (abs_lt.2 ⟨?_, ?_⟩) <;> push_cast <;> linarith
    · next hhigh =>
      have hpart : 2 * part = 1 := by
        rw [hcast, div_eq_one_iff_eq hpos.ne']
        exact_mod_cast Nat.le_antisymm (Nat.le_of_not_lt hhigh) (Nat.le_of_not_lt hlow)
      obtain rfl : part = 1 / 2 := by linarith
      split
      · next heven =>
        constructor
        · rw [abs_le]
          constructor <;> push_cast <;> linarith
        · intro _
          exact_mod_cast Nat.even_iff.2 heven
      · next hodd =>
        constructor
        · rw [abs_le]
          constructor <;> push_cast <;> linarith
        · intro _
          have heven : Even (below + 1) := Nat.even_iff.2 (by omega)
          exact_mod_cast heven

/-! ## Exponents -/

/-- A power with an integer exponent as a quotient of natural powers. -/
theorem zpow_eq_div {b : ℚ} (hb : b ≠ 0) (e : ℤ) : b ^ e = b ^ e.toNat / b ^ (-e).toNat := by
  rw [eq_div_iff (pow_ne_zero _ hb), ← zpow_natCast, ← zpow_natCast, ← zpow_add₀ hb]
  congr 1
  omega

/-- A quotient is rounded in units of a power. -/
theorem nearestEven_scaled {b : Nat} (hb : 0 < b) (num : Nat) {den : Nat} (hden : 0 < den)
    (place : ℤ) : NearestEven (num / den / (b : ℚ) ^ place)
      (roundHalfEven (num * b ^ (-place).toNat) (den * b ^ place.toNat)) := by
  have hbase : (b : ℚ) ≠ 0 := by exact_mod_cast hb.ne'
  have hscaled : (num : ℚ) / den / (b : ℚ) ^ place =
      (num * b ^ (-place).toNat : Nat) / (den * b ^ place.toNat : Nat) := by
    rw [zpow_eq_div hbase place]
    push_cast
    field_simp
  rw [hscaled]
  exact nearestEven_roundHalfEven _ (Nat.mul_pos hden (Nat.pow_pos hb))

/-- The digits of a quotient, or of its reciprocal, tell the powers between which it lies. Here
`digits` counts the digits to a base `b`. -/
theorem exponent_bounds {b : Nat} (hb : 0 < b) {digits : Nat → Nat}
    (hdigits : ∀ n, 0 < n → 0 < digits n ∧ b ^ (digits n - 1) ≤ n ∧ n < b ^ digits n)
    {num den : Nat} (hnum : 0 < num) (hden : 0 < den) {e : ℤ}
    (he : e = if den ≤ num then (digits (num / den) : ℤ) - 1 else -digits ((den - 1) / num)) :
    (b : ℚ) ^ e ≤ num / den ∧ (num : ℚ) / den < b ^ (e + 1) := by
  have hbase : (b : ℚ) ≠ 0 := by exact_mod_cast hb.ne'
  have hposnum : (0 : ℚ) < num := by exact_mod_cast hnum
  have hposden : (0 : ℚ) < den := by exact_mod_cast hden
  rw [le_div_iff₀ hposden, div_lt_iff₀ hposden]
  split at he
  · next hle =>
    -- the digits of the whole part
    obtain ⟨hpos, hlow, hhigh⟩ := hdigits (num / den) (Nat.div_pos hle hden)
    rw [Nat.le_div_iff_mul_le hden] at hlow
    rw [Nat.div_lt_iff_lt_mul hden] at hhigh
    obtain rfl : e = (digits (num / den) - 1 : Nat) := by omega
    have hnext : ((digits (num / den) - 1 : Nat) : ℤ) + 1 = (digits (num / den) : Nat) := by omega
    rw [hnext, zpow_natCast, zpow_natCast]
    exact ⟨by exact_mod_cast hlow, by exact_mod_cast hhigh⟩
  · next hlt =>
    -- the digits of the reciprocal, made smaller so that a power of the base does not count
    have hquotient : 0 < (den - 1) / num := Nat.div_pos (by omega) hnum
    obtain ⟨hpos, hlow, hhigh⟩ := hdigits ((den - 1) / num) hquotient
    rw [Nat.le_div_iff_mul_le hnum] at hlow
    rw [Nat.div_lt_iff_lt_mul hnum] at hhigh
    obtain ⟨count, hcount⟩ : ∃ count, digits ((den - 1) / num) = count + 1 :=
      ⟨_, (Nat.succ_pred_eq_of_pos hpos).symm⟩
    rw [hcount] at he hlow hhigh
    have hnext : e + 1 = -(count : ℤ) := by omega
    have hlarge : den ≤ b ^ (count + 1) * num := by omega
    have hsmall : b ^ count * num < den := by
      rw [Nat.add_sub_cancel] at hlow
      omega
    rw [hnext, he, zpow_neg, zpow_neg, zpow_natCast, zpow_natCast, inv_mul_eq_div, inv_mul_eq_div,
      div_le_iff₀ (by positivity), lt_div_iff₀ (by positivity)]
    constructor
    · rw [mul_comm]
      exact_mod_cast hlarge
    · rw [mul_comm]
      exact_mod_cast hsmall

theorem digitCount_bounds {n : Nat} (h : 0 < n) :
    0 < digitCount n ∧ 10 ^ (digitCount n - 1) ≤ n ∧ n < 10 ^ digitCount n := by
  fun_induction digitCount n with
  | case1 n hsmall => exact ⟨Nat.one_pos, h, by simpa using hsmall⟩
  | case2 n hlarge ih =>
    obtain ⟨hpos, hlow, hhigh⟩ := ih (by omega)
    obtain ⟨count, hcount⟩ : ∃ count, digitCount (n / 10) = count + 1 :=
      ⟨_, (Nat.succ_pred_eq_of_pos hpos).symm⟩
    rw [hcount] at hlow hhigh ⊢
    rw [Nat.add_sub_cancel] at hlow ⊢
    rw [pow_succ 10 (count + 1), pow_succ 10 count] at *
    omega

/-- The decimal exponent of a quotient. -/
theorem decimalExponent_bounds {num den : Nat} (hnum : 0 < num) (hden : 0 < den) :
    (10 : ℚ) ^ decimalExponent num den ≤ num / den ∧
      (num : ℚ) / den < 10 ^ (decimalExponent num den + 1) := by
  exact_mod_cast exponent_bounds (b := 10) (by decide) (fun n => digitCount_bounds) hnum hden rfl

/-- The binary exponent of a quotient. -/
theorem binaryExponent_bounds {num den : Nat} (hnum : 0 < num) (hden : 0 < den) :
    (2 : ℚ) ^ binaryExponent num den ≤ num / den ∧
      (num : ℚ) / den < 2 ^ (binaryExponent num den + 1) := by
  have hdigits (n : Nat) (h : 0 < n) :
      0 < n.log2 + 1 ∧ 2 ^ (n.log2 + 1 - 1) ≤ n ∧ n < 2 ^ (n.log2 + 1) :=
    ⟨Nat.succ_pos _, Nat.log2_self_le h.ne', Nat.lt_log2_self⟩
  have he : binaryExponent num den = if den ≤ num then (((num / den).log2 + 1 : Nat) : ℤ) - 1
      else -(((den - 1) / num).log2 + 1 : Nat) := by
    rw [binaryExponent]
    split <;> omega
  exact_mod_cast exponent_bounds (b := 2) (by decide) hdigits hnum hden he

end Number

namespace Decimal

open Number

/-- Fifteen significant digits are counted in units of the place of the fifteenth. -/
theorem roundSignificant_spec {num den : Nat} (hnum : 0 < num) (hden : 0 < den) {units : Nat}
    {place : ℤ} (h : roundSignificant num den = (units, place)) :
    (10 : ℚ) ^ (place + 14) ≤ num / den ∧ (num : ℚ) / den < 10 ^ (place + 15) ∧
      NearestEven (num / den / 10 ^ place) units := by
  obtain ⟨hunits, hplace⟩ := Prod.mk.inj h
  obtain ⟨hlow, hhigh⟩ := decimalExponent_bounds hnum hden
  have hexponent : decimalExponent num den = place + 14 := by
    rw [← hplace, significantDigits]
    omega
  rw [hexponent] at hlow hhigh
  refine ⟨hlow, by rwa [add_assoc] at hhigh, ?_⟩
  rw [hplace] at hunits
  rw [← hunits]
  exact_mod_cast nearestEven_scaled (b := 10) (by decide) num hden place

/-- Fifteen significant digits make at least the least number of fifteen digits, and at most that of
sixteen. -/
theorem roundSignificant_range {num den : Nat} (hnum : 0 < num) (hden : 0 < den) {units : Nat}
    {place : ℤ} (h : roundSignificant num den = (units, place)) :
    10 ^ 14 ≤ units ∧ units ≤ 10 ^ 15 := by
  obtain ⟨hlow, hhigh, hnear⟩ := roundSignificant_spec hnum hden h
  have hpos : (0 : ℚ) < 10 ^ place := by positivity
  rw [zpow_add₀ (by norm_num)] at hlow hhigh
  constructor
  · have := hnear.le_of_ge (m := 10 ^ 14) (by
      rw [le_div_iff₀ hpos, mul_comm]
      exact_mod_cast hlow)
    exact_mod_cast this
  · have := hnear.le_of_le (m := 10 ^ 15) (by
      rw [div_le_iff₀ hpos, mul_comm]
      exact_mod_cast hhigh.le)
    exact_mod_cast this

end Decimal
end TypedRecords
