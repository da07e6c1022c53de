import TypedRecords.Decimal.Conversion
import TypedRecords.Decimal.Parser

/-!
# Decimals are normal

Decimals are made in four ways: from a mantissa with a scale, from an integer, from a double and
from a text (`Decimal.Made`). Each of them takes the zeros off the end of the fraction and keeps to
the largest scale, so that all decimals are normal (`Decimal.Made.normal`).
-/

namespace TypedRecords.Decimal

-- Powers are the core ones here, whatever algebra is imported.
attribute [local instance (2000)] instPowNat

/-- A decimal that can be come by. -/
inductive Made : Decimal → Prop
  | ofScaled {mantissa : Int} {scale : Nat} {d : Decimal} :
      ofScaled? mantissa scale = some d → Made d
  | ofInt (n : Int) : Made (ofInt n)
  | ofDouble {x : Double} {d : Decimal} : ofDouble? x = some d → Made d
  | parse {s : String} {d : Decimal} : parse s = .ok d → Made d

theorem normal_normalize {mantissa : Int} {scale : Nat} (h : scale ≤ maxScale) :
    (normalize mantissa scale).Normal := by
  induction scale generalizing mantissa with
  | zero => exact ⟨h, fun hpos => absurd hpos (Nat.lt_irrefl 0)⟩
  | succ scale ih =>
    rw [normalize]
    split
    · exact ih (Nat.le_of_succ_le h)
    · next hlast => exact ⟨h, fun _ hdvd => hlast (Int.emod_eq_zero_of_dvd hdvd)⟩

theorem normal_ofInt (n : Int) : (ofInt n).Normal :=
  ⟨Nat.zero_le _, fun hpos => absurd hpos (Nat.lt_irrefl 0)⟩

theorem normal_of_ofScaled? {mantissa : Int} {scale : Nat} {d : Decimal}
    (h : ofScaled? mantissa scale = some d) : d.Normal := by
  unfold ofScaled? at h
  split at h
  · next hscale =>
    obtain rfl := Option.some.inj h
    exact normal_normalize hscale
  · cases h

/-- The decimal of `signed × 10 ^ place`. Digits past the last place are cut off, and there is none
of an integer that does not fit. -/
def ofUnits? (signed place : Int) : Option Decimal :=
  if 0 ≤ place then
    let mantissa := signed * 10 ^ place.toNat
    if fits mantissa then some (normalize mantissa 0) else none
  else
    let scale := (-place).toNat
    some (normalize (signed.tdiv (10 ^ (scale - maxScale))) (min scale maxScale))

theorem ofUnits?_natCast (signed : Int) (n : Nat) : ofUnits? signed n =
    if fits (signed * 10 ^ n) then some (normalize (signed * 10 ^ n) 0) else none := by
  rw [ofUnits?, if_pos (Int.natCast_nonneg n), Int.toNat_natCast]

theorem ofUnits?_negSucc (signed : Int) (n : Nat) : ofUnits? signed (.negSucc n) =
    some (normalize (signed.tdiv (10 ^ (n + 1 - maxScale))) (min (n + 1) maxScale)) := by
  rw [ofUnits?, if_neg (Int.negSucc_not_nonneg n).1]
  rfl

/-- A magnitude with the sign of a double. -/
def signedLike (x : Double) (units : Nat) : Int := if x.isNegative then -units else units

/-- A finite double other than zero is converted by way of its significant digits. -/
theorem ofDouble?_eq_ofUnits? {x : Double} (hfinite : x.isFinite = true) (hzero : x.isZero = false)
    {units : Nat} {place : Int} (h : roundSignificant x.numerator x.denominator = (units, place)) :
    ofDouble? x = ofUnits? (signedLike x units) place := by
  simp only [ofDouble?, hfinite, hzero, h]
  rfl

/-- How a double comes to be converted. -/
theorem ofDouble?_cases {x : Double} {d : Decimal} (h : ofDouble? x = some d) :
    d = zero ∨ x.isZero = false ∧ ∃ units place,
      roundSignificant x.numerator x.denominator = (units, place) ∧
        ofUnits? (signedLike x units) place = some d := by
  cases hfinite : x.isFinite with
  | false => simp [ofDouble?, hfinite] at h
  | true =>
    cases hzero : x.isZero with
    | true =>
      simp only [ofDouble?, hfinite, hzero] at h
      exact .inl (Option.some.inj h).symm
    | false =>
      rw [ofDouble?_eq_ofUnits? hfinite hzero rfl] at h
      exact .inr ⟨rfl, _, _, rfl, h⟩

theorem normal_of_ofUnits? {signed place : Int} {d : Decimal} (h : ofUnits? signed place = some d) :
    d.Normal := by
  unfold ofUnits? at h
  split at h
  · dsimp only at h
    split at h
    · obtain rfl := Option.some.inj h
      exact normal_normalize (Nat.zero_le _)
    · cases h
  · obtain rfl := Option.some.inj h
    exact normal_normalize (Nat.min_le_right ..)

theorem normal_of_ofDouble? {x : Double} {d : Decimal} (h : ofDouble? x = some d) : d.Normal := by
  rcases ofDouble?_cases h with rfl | ⟨-, units, place, -, h⟩
  · exact normal_ofInt 0
  · exact normal_of_ofUnits? h

/-- Fractional digits past the last place are not counted. -/
theorem scale_le_of_readFraction {cs : List Char} {n scale : Nat} {read : Nat × Nat}
    (hscale : scale ≤ maxScale) (h : readFraction n scale cs = .ok read) :
    read.2 ≤ maxScale := by
  induction cs generalizing n scale with
  | nil =>
    obtain rfl := Except.ok.inj h
    exact hscale
  | cons c rest ih =>
    rw [readFraction] at h
    split at h
    · split at h
      · exact ih hscale h
      · cases h
    · next hne =>
      cases hpush : pushDigit n c with
      | error e =>
        rw [hpush] at h
        cases h
      | ok longer =>
        rw [hpush] at h
        exact ih (Nat.lt_of_le_of_ne hscale hne) h

theorem normal_of_parse {s : String} {d : Decimal} (h : parse s = .ok d) : d.Normal := by
  unfold parse ofLiteral at h
  generalize splitSign (Text.trim s.toList) = signed at h
  obtain ⟨negative, body⟩ := signed
  dsimp only at h
  split at h
  · cases h
  · cases hwhole : readWhole 0 (splitPoint body).1 with
    | error e =>
      simp only [bind, Except.bind, hwhole] at h
      cases h
    | ok n =>
      cases hfraction : readFraction n 0 (splitPoint body).2 with
      | error e =>
        simp only [bind, Except.bind, hwhole, hfraction] at h
        cases h
      | ok read =>
        simp only [bind, Except.bind, pure, Except.pure, hwhole, hfraction, Except.ok.injEq] at h
        subst h
        exact normal_normalize (scale_le_of_readFraction (Nat.zero_le _) hfraction)

theorem Made.normal {d : Decimal} (h : d.Made) : d.Normal := by
  cases h with
  | ofScaled h => exact normal_of_ofScaled? h
  | ofInt n => exact normal_ofInt n
  | ofDouble h => exact normal_of_ofDouble? h
  | parse h => exact normal_of_parse h

end TypedRecords.Decimal
