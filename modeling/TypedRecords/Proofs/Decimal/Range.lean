import TypedRecords.Proofs.Decimal.Normal
import TypedRecords.Proofs.Number.Double

/-!
# Mantissas of 128 bits

A mantissa that fits in 128 bits with sign still does when zeros are taken off (`fits_normalize`),
and those that doubles are converted to do so, too (`fits_of_ofDouble?`).
-/

namespace TypedRecords.Decimal

theorem fits_iff {n : Int} : fits n = true ↔ -(maxMantissa : Int) - 1 ≤ n ∧ n ≤ maxMantissa := by
  rw [fits, Bool.and_eq_true, decide_eq_true_eq, decide_eq_true_eq]

theorem fits_natCast (n : Nat) : fits n = decide (n ≤ maxMantissa) := by
  rw [Bool.eq_iff_iff, fits_iff, decide_eq_true_eq]
  omega

theorem fits_of_natAbs_le {n : Int} (h : n.natAbs ≤ maxMantissa) : fits n = true := by
  rw [fits_iff]
  omega

/-- The integers of the machine have far fewer bits than a mantissa. -/
theorem fits_ofInt {i : Int} (hlow : -2 ^ 64 ≤ i) (hhigh : i < 2 ^ 64) :
    fits (ofInt i).mantissa = true := by
  refine fits_of_natAbs_le ?_
  rw [ofInt, maxMantissa]
  dsimp only
  omega

theorem fits_normalize {mantissa : Int} (h : fits mantissa = true) (scale : Nat) :
    fits (normalize mantissa scale).mantissa = true := by
  induction scale generalizing mantissa with
  | zero => exact h
  | succ scale ih =>
    rw [normalize]
    split
    · refine ih ?_
      rw [fits_iff] at h ⊢
      omega
    · exact h

theorem fits_of_ofUnits? {signed place : Int} (hsmall : signed.natAbs ≤ maxMantissa) {d : Decimal}
    (h : ofUnits? signed place = some d) : fits d.mantissa = true := by
  unfold ofUnits? at h
  split at h
  · dsimp only at h
    split at h
    · next hfits =>
      obtain rfl := Option.some.inj h
      exact fits_normalize hfits 0
    · cases h
  · obtain rfl := Option.some.inj h
    refine fits_normalize (fits_of_natAbs_le ?_) _
    rw [Int.natAbs_tdiv]
    exact (Nat.div_le_self _ _).trans hsmall

theorem natAbs_signedLike (x : Double) (units : Nat) : (signedLike x units).natAbs = units := by
  rw [signedLike]
  split <;> simp

/-- A double is converted to a decimal whose mantissa fits, if it is converted at all. -/
theorem fits_of_ofDouble? {x : Double} {d : Decimal} (h : ofDouble? x = some d) :
    fits d.mantissa = true := by
  rcases ofDouble?_cases h with rfl | ⟨hzero, units, place, hround, h⟩
  · decide
  · have hunits := (roundSignificant_range (Double.numerator_pos hzero) x.denominator_pos hround).2
    refine fits_of_ofUnits? ?_ h
    rw [natAbs_signedLike]
    exact hunits.trans (by decide)

end TypedRecords.Decimal
