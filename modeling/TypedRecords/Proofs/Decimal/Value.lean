import Mathlib.Algebra.Order.Field.Rat
import Mathlib.Tactic.FieldSimp
import Mathlib.Tactic.Positivity
import Mathlib.Tactic.Ring
import TypedRecords.Proofs.Decimal.Normal

/-!
# The number a decimal stands for

A decimal stands for the rational number `mantissa / 10 ^ scale` (`Decimal.value`). Normalizing
keeps the number (`value_normalize`), and a number has one normal decimal at most
(`Normal.eq_of_value_eq`). As every decimal that can be come by is normal, equality of such decimals
is equality of the numbers (`obtainable_eq_iff_cross_eq`).
-/

namespace TypedRecords.Decimal

/-- The number that a decimal stands for. -/
def value (d : Decimal) : ℚ := d.mantissa / 10 ^ d.scale

theorem value_mk (mantissa : Int) (scale : Nat) :
    value ⟨mantissa, scale⟩ = (mantissa : ℚ) / 10 ^ scale := rfl

theorem value_ofInt (n : Int) : (ofInt n).value = n := by
  rw [ofInt, value_mk, pow_zero, div_one]

/-- Zeros at the end of the fraction do not count. -/
theorem value_normalize (mantissa : Int) (scale : Nat) :
    (normalize mantissa scale).value = (mantissa : ℚ) / 10 ^ scale := by
  induction scale generalizing mantissa with
  | zero => rw [normalize, value_mk]
  | succ scale ih =>
    rw [normalize]
    split
    · next hlast =>
      obtain ⟨quotient, rfl⟩ := Int.dvd_of_emod_eq_zero hlast
      rw [ih, Int.mul_ediv_cancel_left quotient (by decide)]
      push_cast
      field_simp
      ring
    · rw [value_mk]

/-- Two decimals stand for one number if their mantissas agree over a common denominator. -/
theorem value_eq_iff (a b : Decimal) :
    a.value = b.value ↔ a.mantissa * 10 ^ b.scale = b.mantissa * 10 ^ a.scale := by
  rw [value, value, div_eq_div_iff (by positivity) (by positivity)]
  exact_mod_cast Iff.rfl

/-- The last fractional digit of a normal decimal is needed. -/
theorem Normal.scale_le_of_cross_eq {a b : Decimal} (hb : b.Normal)
    (h : a.mantissa * 10 ^ b.scale = b.mantissa * 10 ^ a.scale) : b.scale ≤ a.scale := by
  by_contra hlt
  obtain ⟨extra, hscale⟩ := Nat.exists_eq_add_of_lt (Nat.lt_of_not_le hlt)
  have hmantissa : b.mantissa = a.mantissa * 10 ^ extra * 10 := by
    have hpow : (10 : ℤ) ^ b.scale = 10 ^ a.scale * (10 ^ extra * 10) := by
      rw [hscale, ← pow_succ, ← pow_add, Nat.add_assoc]
    have hne : (10 : ℤ) ^ a.scale ≠ 0 := by positivity
    apply mul_right_cancel₀ hne
    rw [← h, hpow]
    ring
  exact hb.not_dvd (by omega) (hmantissa ▸ Int.dvd_mul_left _ _)

/-- A number has one normal decimal at most. -/
theorem Normal.eq_of_value_eq {a b : Decimal} (ha : a.Normal) (hb : b.Normal)
    (h : a.value = b.value) : a = b := by
  rw [value_eq_iff] at h
  have hscale : a.scale = b.scale :=
    Nat.le_antisymm (ha.scale_le_of_cross_eq h.symm) (hb.scale_le_of_cross_eq h)
  have hmantissa : a.mantissa = b.mantissa := by
    rw [hscale] at h
    exact mul_right_cancel₀ (by positivity) h
  exact congrArg₂ Decimal.mk hmantissa hscale

/-- A decimal that a program can come by: it is made from a mantissa of 128 bits with a scale, from
an integer of the machine, from a double or from a text, or it is zero, which is also what a decimal
is by default, or one. -/
inductive Obtainable : Decimal → Prop
  | ofScaled {mantissa : Int} {scale : Nat} {d : Decimal} :
      fits mantissa = true → ofScaled? mantissa scale = some d → Obtainable d
  | ofInt64 (i : Int64) : Obtainable (ofInt i.toInt)
  | ofInt32 (i : Int32) : Obtainable (ofInt i.toInt)
  | ofUInt64 (n : UInt64) : Obtainable (ofInt n.toNat)
  | ofDouble {x : Double} {d : Decimal} : ofDouble? x = some d → Obtainable d
  | parse {s : String} {d : Decimal} : parse s = .ok d → Obtainable d
  | zero : Obtainable zero
  | one : Obtainable one

theorem Obtainable.normal {d : Decimal} (h : d.Obtainable) : d.Normal := by
  cases h with
  | ofScaled _ h => exact normal_of_ofScaled? h
  | ofInt64 | ofInt32 | ofUInt64 | zero | one => exact normal_ofInt _
  | ofDouble h => exact normal_of_ofDouble? h
  | parse h => exact normal_of_parse h

/-- Decimals that can be come by are equal exactly if they stand for the same number: they are
normal, and a mantissa with a scale makes the decimal of exactly that number. -/
theorem obtainable_eq_iff_cross_eq {a b : Decimal} (ha : a.Obtainable) (hb : b.Obtainable) :
    ((a == b) = true ↔ a.mantissa * 10 ^ b.scale = b.mantissa * 10 ^ a.scale) ∧
    (a.scale ≤ 28 ∧ (0 < a.scale → ¬10 ∣ a.mantissa)) ∧
    ∀ (mantissa : Int) (scale : Nat), scale ≤ 28 →
      ∃ d, ofScaled? mantissa scale = some d ∧ d.value = (mantissa : ℚ) / 10 ^ scale := by
  refine ⟨?_, ⟨ha.normal.scale_le, ha.normal.not_dvd⟩, fun mantissa scale hscale => ?_⟩
  · rw [beq_iff_eq, ← value_eq_iff]
    constructor
    · rintro rfl
      rfl
    · exact ha.normal.eq_of_value_eq hb.normal
  · exact ⟨normalize mantissa scale, if_pos hscale, value_normalize mantissa scale⟩

/-- The text and the double of one number give one decimal. -/
theorem obtainable_eq_text_double :
    ∃ a b, parse "1.500" = .ok a ∧ ofDouble? ⟨0x3FF8000000000000⟩ = some b ∧ (a == b) = true := by
  have ha : parse "1.500" = .ok ⟨15, 1⟩ := by decide +kernel
  have hb : ofDouble? ⟨0x3FF8000000000000⟩ = some ⟨15, 1⟩ := by decide +kernel
  exact ⟨_, _, ha, hb, (obtainable_eq_iff_cross_eq (.parse ha) (.ofDouble hb)).1.2 rfl⟩

end TypedRecords.Decimal
