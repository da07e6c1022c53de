import TypedRecords.Number.Double.Printer
import TypedRecords.Proofs.Decimal.Grammar

/-!
# Converting doubles with integers of fixed width

A double is converted to a decimal by way of its fifteen significant digits, with numbers that have
no bound. A machine writes the digits as a text with an exponent (`scientificText`), reads a
mantissa of 128 bits and an exponent of 32 bits back from it, and has to raise, multiply and divide
integers of these widths. `Checked.ofDouble?` does so and checks every operation; an operation whose
result does not fit would stop it. It never stops, and gives the same decimals
(`Checked.ofDouble?_eq`).
-/

namespace TypedRecords.Decimal

open Nat (ofDigitChars)
open Double (Scientific)

/-- The magnitude `num / den` to fifteen significant digits, the first of which is not zero. -/
def significant (num den : Nat) : Scientific :=
  let (units, place) := roundSignificant num den
  -- sixteen digits are a carry
  if units = 10 ^ 15 then ⟨Nat.toDigits 10 (10 ^ 14), place + 15⟩
  else ⟨Nat.toDigits 10 units, place + 14⟩

/-- The text of a finite double with one digit before the point, fourteen digits behind it, and the
exponent. -/
def scientificText (x : Double) : String :=
  (if x.isNegative then "-" else "") ++
    (if x.isZero then ⟨List.replicate 15 '0', 0⟩
      else significant x.numerator x.denominator).exponential

namespace Checked

/-- A result of 32 bits with sign. -/
def int32 (n : Int) : Except Stop Int :=
  if -2 ^ 31 ≤ n ∧ n < 2 ^ 31 then .ok n else .error .overflow

/-- A result of 32 bits without sign. -/
def uint32 (n : Int) : Except Stop Nat :=
  if 0 ≤ n ∧ n < 2 ^ 32 then .ok n.toNat else .error .overflow

/-- The integer that a text writes with or without a sign, if it lies between two bounds. -/
def readInt (low high : Int) (cs : List Char) : Option Int :=
  let (negative, digits) := splitSign cs
  if digits ≠ [] ∧ digits.all Char.isDigit then
    let magnitude : Int := ofDigitChars 10 digits 0
    let n := if negative then -magnitude else magnitude
    if low ≤ n ∧ n ≤ high then some n else none
  else none

/-- The digits of a text without the point, as a mantissa, and its exponent. -/
def readScientific (cs : List Char) : Option (Int × Int) :=
  if 'e' ∈ cs then do
    let exponent ← readInt (-2 ^ 31) (2 ^ 31 - 1) ((cs.dropWhile (· != 'e')).drop 1)
    let mantissa ← readInt (-2 ^ 127) (2 ^ 127 - 1) ((cs.takeWhile (· != 'e')).filter (· != '.'))
    return (mantissa, exponent)
  else none

/-- A power of ten, if it fits. -/
def power? (n : Nat) : Option Int := if fits (10 ^ n) then some (10 ^ n) else none

/-- The decimal of an integer times a power of ten, if it fits. -/
def ofInteger? (mantissa : Int) (shift : Nat) : Except Stop (Option Decimal) :=
  match power? shift with
  | none => return none
  | some power =>
    if fits (mantissa * power) then some <$> normalize (mantissa * power) 0 else return none

/-- The mantissa without the digits past the last place, and the number of its fractional digits. -/
def cutOff (mantissa : Int) (scale : Nat) : Except Stop (Int × Nat) :=
  if maxScale < scale then do
    let excess ← uint32 (scale - maxScale)
    let quotient ← int128 (mantissa.tdiv ((power? excess).getD maxMantissa))
    return (quotient, maxScale)
  else return (mantissa, scale)

/-- The decimal of a mantissa with a scale of 8 bits, unless there are too many fractional
digits. -/
def ofScaled? (mantissa : Int) (scale : Nat) : Except Stop (Option Decimal) :=
  if scale < 256 ∧ scale ≤ maxScale then some <$> normalize mantissa scale else return none

/-- The decimal of fifteen digits with their exponent. -/
def ofScientific? (mantissa exponent : Int) : Except Stop (Option Decimal) := do
  let shift ← int32 (exponent - 14)
  if 0 ≤ shift then ofInteger? mantissa shift.toNat
  else
    let (mantissa, scale) ← cutOff mantissa (← uint32 (-shift))
    ofScaled? mantissa scale

/-- The decimal nearest to a double at fifteen significant digits. -/
def ofDouble? (x : Double) : Except Stop (Option Decimal) :=
  if !x.isFinite then return none
  else
    match readScientific (scientificText x).toList with
    | none => return none
    | some (mantissa, exponent) => ofScientific? mantissa exponent

/-! ## Reading the text back -/

theorem int32_eq {n : Int} (hlow : -2 ^ 31 ≤ n) (hhigh : n < 2 ^ 31) : int32 n = .ok n :=
  if_pos ⟨hlow, hhigh⟩

theorem uint32_eq {n : Nat} (h : n < 2 ^ 32) : uint32 n = .ok n :=
  if_pos ⟨Int.natCast_nonneg n, by omega⟩

theorem toDigits_ne_nil (n : Nat) : Nat.toDigits 10 n ≠ [] :=
  List.ne_nil_of_length_pos Nat.length_toDigits_pos

theorem isDigit_of_mem_toDigits {n : Nat} {c : Char} (hc : c ∈ Nat.toDigits 10 n) :
    c.isDigit = true :=
  Nat.isDigit_of_mem_toDigits (by decide) (by decide) hc

/-- The digits of a number are read back, behind a sign or without one. -/
theorem readInt_chars {low high : Int} (sign : Option Sign) {digits : List Char}
    (hne : digits ≠ []) (hdigits : ∀ c ∈ digits, c.isDigit = true) {n : Int}
    (hn : n = if sign = some .minus then -(ofDigitChars 10 digits 0 : Int)
      else ofDigitChars 10 digits 0) (hlow : low ≤ n) (hhigh : n ≤ high) :
    readInt low high (Sign.chars sign ++ digits) = some n := by
  have hliteral : Parts.IsLiteral ⟨sign, digits, none⟩ :=
    ⟨by simpa [Parts.digits] using hne, by simpa [Parts.digits] using hdigits⟩
  have hsplit : splitSign (Sign.chars sign ++ digits) = (decide (sign = some .minus), digits) :=
    hliteral.proper.splitSign_chars
  rw [readInt, hsplit]
  dsimp only
  simp only [decide_eq_true_eq, ← hn]
  rw [if_pos ⟨hne, by simpa using hdigits⟩, if_pos ⟨hlow, hhigh⟩]

theorem toList_toString (n : Int) :
    (toString n).toList =
      Sign.chars (if n < 0 then some .minus else none) ++ Nat.toDigits 10 n.natAbs := by
  cases n with
  | ofNat n =>
    have hneg : ¬Int.ofNat n < 0 := Int.not_lt.2 (Int.natCast_nonneg n)
    rw [if_neg hneg]
    show (Nat.repr n).toList = Nat.toDigits 10 n
    rw [Nat.repr, String.toList_ofList]
  | negSucc n =>
    rw [if_pos (Int.negSucc_lt_zero n)]
    show ("-" ++ Nat.repr (n + 1)).toList = '-' :: Nat.toDigits 10 (n + 1)
    simp only [Nat.repr, String.toList_append, String.toList_ofList]
    rfl

theorem readInt_toString {low high n : Int} (hlow : low ≤ n) (hhigh : n ≤ high) :
    readInt low high (toString n).toList = some n := by
  rw [toList_toString]
  refine readInt_chars _ (toDigits_ne_nil _) (fun c => isDigit_of_mem_toDigits) ?_ hlow hhigh
  rw [Nat.ofDigitChars_ten_toDigits]
  by_cases hneg : n < 0
  · rw [if_pos hneg, if_pos rfl]
    omega
  · rw [if_neg hneg, if_neg (by simp)]
    omega

/-- Neither a sign nor digits have a point or an `e` in them. -/
theorem forall_mem_chars {P : Char → Prop} (sign : Option Sign) {digits : List Char}
    (hdigits : ∀ c ∈ digits, c.isDigit = true) (hsigns : P '+' ∧ P '-')
    (hP : ∀ c : Char, c.isDigit = true → P c) : ∀ c ∈ Sign.chars sign ++ digits, P c := by
  rw [List.forall_mem_append]
  refine ⟨?_, fun c hc => hP c (hdigits c hc)⟩
  rcases sign with _ | _ | _ <;> simp [Sign.chars, hsigns]

theorem filter_bne_point {before point after : List Char}
    (hothers : ∀ c ∈ before ++ after, c ≠ '.') (hpoint : ∀ c ∈ point, c = '.') :
    (before ++ (point ++ after)).filter (· != '.') = before ++ after := by
  have hkeep : (before ++ after).filter (· != '.') = before ++ after :=
    List.filter_eq_self.2 fun c hc => by simpa using hothers c hc
  have hdrop : point.filter (· != '.') = [] :=
    List.filter_eq_nil_iff.2 fun c hc => by simpa using hpoint c hc
  rw [List.filter_append, List.filter_append, hdrop, List.nil_append, ← List.filter_append, hkeep]

/-- The digits and the exponent of a number are read back from its text. -/
theorem readScientific_exponential (sign : Option Sign) {s : Scientific} (hne : s.digits ≠ [])
    (hdigits : ∀ c ∈ s.digits, c.isDigit = true) {mantissa : Int}
    (hmantissa : mantissa = if sign = some .minus then -(ofDigitChars 10 s.digits 0 : Int)
      else ofDigitChars 10 s.digits 0) (hsmall : mantissa.natAbs ≤ 10 ^ 15)
    (hexponent : s.exponent.natAbs ≤ 2000) :
    readScientific (Sign.chars sign ++ s.exponential.toList) = some (mantissa, s.exponent) := by
  obtain ⟨before, hbefore⟩ : ∃ before, before = Sign.chars sign ++ s.digits.take 1 := ⟨_, rfl⟩
  obtain ⟨point, hpoint⟩ : ∃ point : List Char,
      point = if (s.digits.drop 1).isEmpty then [] else ['.'] := ⟨_, rfl⟩
  have hsplit : before ++ s.digits.drop 1 = Sign.chars sign ++ s.digits := by
    rw [hbefore, List.append_assoc, List.take_append_drop]
  have htext : Sign.chars sign ++ s.exponential.toList =
      (before ++ (point ++ s.digits.drop 1)) ++ 'e' :: (toString s.exponent).toList := by
    rw [Scientific.exponential, hbefore, hpoint]
    cases s.digits.drop 1 <;> simp
  have hothers : ∀ c ∈ before ++ s.digits.drop 1, c ≠ 'e' ∧ c ≠ '.' := by
    rw [hsplit]
    refine forall_mem_chars sign hdigits (by decide) fun c hc => ?_
    constructor <;> rintro rfl <;> exact absurd hc (by decide)
  have honly : ∀ c ∈ point, c = '.' := by
    rw [hpoint]
    split <;> simp
  have hmark : 'e' ∉ before ++ (point ++ s.digits.drop 1) := by
    simp only [List.mem_append] at hothers ⊢
    rintro (hmem | hmem | hmem)
    · exact (hothers _ (.inl hmem)).1 rfl
    · exact absurd (honly _ hmem) (by decide)
    · exact (hothers _ (.inr hmem)).1 rfl
  rw [htext, readScientific, Parts.takeWhile_bne_append hmark, Parts.dropWhile_bne_append hmark,
    List.drop_succ_cons, List.drop_zero, readInt_toString (by omega) (by omega), if_pos (by simp),
    filter_bne_point (fun c hc => (hothers c hc).2) honly, hsplit,
    readInt_chars sign hne hdigits hmantissa (by omega) (by omega)]
  rfl

/-! ## Powers, products and quotients -/

theorem tdiv_eq_zero {a b : Int} (h : a.natAbs < b.natAbs) : a.tdiv b = 0 := by
  rw [← Int.natAbs_eq_zero, Int.natAbs_tdiv]
  exact Nat.div_eq_of_lt h

theorem fits_tdiv {mantissa : Int} (hsmall : mantissa.natAbs ≤ 10 ^ 15) (divisor : Int) :
    fits (mantissa.tdiv divisor) = true := by
  refine fits_of_natAbs_le ?_
  rw [Int.natAbs_tdiv]
  exact (Nat.div_le_self _ _).trans (hsmall.trans (by decide))

/-- The mantissas end between two powers of ten, below zero as well. -/
theorem lt_of_not_fits_pow {n : Nat} (h : ¬fits (10 ^ n) = true) : maxMantissa + 1 < 10 ^ n := by
  by_contra hle
  have hn : n ≤ 38 := by
    by_contra hlt
    have hpow : 10 ^ 39 ≤ 10 ^ n := Nat.pow_le_pow_right (by decide) (by omega)
    have hmax : maxMantissa + 1 < 10 ^ 39 := by decide
    omega
  have hpow : 10 ^ n ≤ 10 ^ 38 := Nat.pow_le_pow_right (by decide) hn
  refine h (fits_of_natAbs_le ?_)
  rw [Int.natAbs_pow]
  exact hpow.trans (by decide)

/-- If a power of ten does not fit, neither does a product with it. -/
theorem ofInteger?_eq {mantissa : Int} (hne : mantissa ≠ 0) (shift : Nat) :
    ofInteger? mantissa shift = .ok (ofUnits? mantissa shift) := by
  rw [ofUnits?_natCast, ofInteger?, power?]
  by_cases hpower : fits (10 ^ shift) = true
  · rw [if_pos hpower]
    dsimp only
    split
    · next hfits =>
      rw [normalize_eq hfits (Nat.zero_le _)]
      rfl
    · rfl
  · have hproduct : ¬fits (mantissa * 10 ^ shift) = true := by
      have hlarge := lt_of_not_fits_pow hpower
      have hfactor : 10 ^ shift ≤ (mantissa * 10 ^ shift).natAbs := by
        rw [Int.natAbs_mul, Int.natAbs_pow]
        exact Nat.le_mul_of_pos_left _ (Int.natAbs_pos.2 hne)
      rw [fits_iff]
      omega
    rw [if_neg hpower, if_neg hproduct]
    rfl

/-- A power of ten that does not fit is larger than the mantissa, as is the divisor that stands for
it. -/
theorem cutOff_eq {mantissa : Int} (hsmall : mantissa.natAbs ≤ 10 ^ 15) {scale : Nat}
    (hscale : scale < 2 ^ 32) : cutOff mantissa scale =
      .ok (mantissa.tdiv (10 ^ (scale - maxScale)), min scale maxScale) := by
  rw [cutOff]
  split
  · next hlt =>
    have hexcess : uint32 (scale - maxScale) = .ok (scale - maxScale) := by
      rw [← uint32_eq (Nat.lt_of_le_of_lt (Nat.sub_le _ _) hscale), Nat.cast_sub hlt.le]
    have hquotient : mantissa.tdiv ((power? (scale - maxScale)).getD maxMantissa) =
        mantissa.tdiv (10 ^ (scale - maxScale)) := by
      rw [power?]
      split
      · rfl
      · next hpower =>
        have hlarge := lt_of_not_fits_pow hpower
        have hmax : 10 ^ 15 < maxMantissa := by decide
        rw [Option.getD_none, tdiv_eq_zero (by omega), tdiv_eq_zero]
        rw [Int.natAbs_pow]
        exact (hsmall.trans_lt hmax).trans (Nat.lt_of_succ_lt hlarge)
    rw [hexcess, Nat.min_eq_right hlt.le]
    simp only [bind, Except.bind, hquotient, int128_eq (fits_tdiv hsmall _)]
    rfl
  · next hle =>
    rw [Nat.sub_eq_zero_of_le (Nat.le_of_not_lt hle), Nat.min_eq_left (Nat.le_of_not_lt hle)]
    simp [pure, Except.pure]

theorem ofScientific?_eq {mantissa exponent : Int} (hsmall : mantissa.natAbs ≤ 10 ^ 15)
    (hexponent : exponent.natAbs ≤ 2000) (hne : mantissa ≠ 0 ∨ exponent < 14) :
    ofScientific? mantissa exponent = .ok (ofUnits? mantissa (exponent - 14)) := by
  rw [ofScientific?, int32_eq (by omega) (by omega)]
  simp only [bind, Except.bind]
  split
  · next hle =>
    rw [ofInteger?_eq (by omega), Int.toNat_of_nonneg hle]
  · next hlt =>
    obtain ⟨scale, hscale⟩ : ∃ scale : Nat, -(exponent - 14) = scale :=
      ⟨(-(exponent - 14)).toNat, by omega⟩
    rw [hscale, uint32_eq (by omega)]
    simp only [cutOff_eq hsmall (by omega : scale < 2 ^ 32)]
    have hplaces : min scale maxScale ≤ maxScale := Nat.min_le_right _ _
    rw [ofScaled?, if_pos ⟨hplaces.trans_lt (by decide), hplaces⟩,
      normalize_eq (fits_tdiv hsmall _) hplaces, ofUnits?, if_neg hlt, hscale]
    rfl

/-! ## Conversion -/

theorem normalize_mul_ten (mantissa : Int) (scale : Nat) :
    Decimal.normalize (mantissa * 10) (scale + 1) = Decimal.normalize mantissa scale := by
  rw [Decimal.normalize, if_pos (Int.mul_emod_left mantissa 10),
    Int.mul_ediv_cancel mantissa (by decide)]

/-- A carry does not change the decimal. -/
theorem ofUnits?_carry {signed : Int} (hsmall : signed.natAbs ≤ 10 ^ 15) (place : Int) :
    ofUnits? (signed * 10) place = ofUnits? signed (place + 1) := by
  rcases lt_trichotomy place (-1) with hlow | rfl | hhigh
  · -- both are fractions
    obtain ⟨scale, hscale⟩ : ∃ scale : Nat, -(place + 1) = scale :=
      ⟨(-(place + 1)).toNat, by omega⟩
    have hlonger : (-place).toNat = scale + 1 := by omega
    rw [ofUnits?, if_neg (by omega), ofUnits?, if_neg (by omega), hlonger, hscale,
      Int.toNat_natCast]
    dsimp only
    by_cases hroom : scale < maxScale
    · rw [Nat.sub_eq_zero_of_le hroom, Nat.sub_eq_zero_of_le hroom.le, Nat.min_eq_left hroom,
        Nat.min_eq_left hroom.le]
      simp only [Int.pow_zero, Int.tdiv_one]
      rw [normalize_mul_ten]
    · rw [Nat.sub_add_comm (Nat.le_of_not_lt hroom), pow_succ,
        Int.mul_tdiv_mul_of_pos_left _ _ (by decide), Nat.min_eq_right (by omega),
        Nat.min_eq_right (by omega)]
  · -- the carry makes an integer of a fraction
    have hfits : fits (signed * 10 ^ 0) = true := by
      rw [pow_zero, mul_one]
      exact fits_of_natAbs_le (hsmall.trans (by decide))
    show some (Decimal.normalize ((signed * 10).tdiv 1) 1) =
      if fits (signed * 10 ^ 0) then some (Decimal.normalize (signed * 10 ^ 0) 0) else none
    rw [if_pos hfits, Int.tdiv_one, normalize_mul_ten, pow_zero, mul_one]
  · -- both are integers
    obtain ⟨n, rfl⟩ := Int.eq_ofNat_of_zero_le (by omega : 0 ≤ place)
    have hle : 0 ≤ (n : Int) + 1 := Int.le_add_one (Int.natCast_nonneg n)
    have hnext : ((n : Int) + 1).toNat = n + 1 := by omega
    rw [ofUnits?, if_pos (Int.natCast_nonneg n), ofUnits?, if_pos hle, hnext, Int.toNat_natCast,
      pow_succ', ← mul_assoc]

/-- The exponents of the significant digits of doubles. -/
theorem natAbs_place_le {x : Double} (hfinite : x.isFinite = true) (hzero : x.isZero = false)
    {units : Nat} {place : Int} (h : roundSignificant x.numerator x.denominator = (units, place)) :
    place.natAbs ≤ 1900 := by
  obtain ⟨hlow, hhigh⟩ := Double.magnitude_range hfinite hzero
  obtain ⟨hbelow, habove, -⟩ :=
    roundSignificant_spec (Double.numerator_pos hzero) x.denominator_pos h
  have hten : (1 : ℚ) < 10 := by norm_num
  have hlarge : (2 : ℚ) ^ (1024 : ℤ) ≤ 10 ^ (1024 : ℤ) :=
    zpow_le_zpow_left₀ (by decide) (by norm_num) (by norm_num)
  have hsmall : (10 : ℚ) ^ (-1074 : ℤ) ≤ 2 ^ (-1074 : ℤ) := by
    rw [zpow_neg, zpow_neg]
    exact inv_anti₀ (by positivity) (zpow_le_zpow_left₀ (by decide) (by norm_num) (by norm_num))
  have hmost : place + 14 < 1024 :=
    (zpow_lt_zpow_iff_right₀ hten).1 ((hbelow.trans_lt hhigh).trans_le hlarge)
  have hleast : -1074 < place + 15 :=
    (zpow_lt_zpow_iff_right₀ hten).1 ((hsmall.trans hlow).trans_lt habove)
  omega

/-- The sign in the text of a double. -/
def signOf (x : Double) : Option Sign := if x.isNegative then some .minus else none

theorem toList_scientificText (x : Double) : (scientificText x).toList = Sign.chars (signOf x) ++
    (if x.isZero then (⟨List.replicate 15 '0', 0⟩ : Scientific)
      else significant x.numerator x.denominator).exponential.toList := by
  rw [scientificText, String.toList_append, signOf]
  cases x.isNegative <;> rfl

theorem signedLike_eq (x : Double) (units : Nat) :
    signedLike x units = if signOf x = some .minus then -(units : Int) else units := by
  rw [signedLike, signOf]
  cases x.isNegative <;> rfl

/-- The digits that are written, after a carry or without one. -/
theorem exists_significant_eq {x : Double} (hfinite : x.isFinite = true)
    (hzero : x.isZero = false) : ∃ (count : Nat) (exponent : Int),
      significant x.numerator x.denominator = ⟨Nat.toDigits 10 count, exponent⟩ ∧
        0 < count ∧ count ≤ 10 ^ 15 ∧ exponent.natAbs ≤ 2000 ∧
          Decimal.ofDouble? x = ofUnits? (signedLike x count) (exponent - 14) := by
  obtain ⟨⟨units, place⟩, hround⟩ : ∃ rounded, roundSignificant x.numerator x.denominator =
      rounded := ⟨_, rfl⟩
  have hrange := roundSignificant_range (Double.numerator_pos hzero) x.denominator_pos hround
  have hplace := natAbs_place_le hfinite hzero hround
  rw [significant, hround, ofDouble?_eq_ofUnits? hfinite hzero hround]
  dsimp only
  by_cases hcarry : units = 10 ^ 15
  · refine ⟨10 ^ 14, place + 15, if_pos hcarry, by decide, by decide, by omega, ?_⟩
    have htimes : signedLike x units = signedLike x (10 ^ 14) * 10 := by
      rw [hcarry, signedLike, signedLike]
      split <;> rfl
    have hexponent : place + 15 - 14 = place + 1 := by omega
    rw [htimes, hexponent, ofUnits?_carry (by rw [natAbs_signedLike]; decide)]
  · have hexponent : place + 14 - 14 = place := by omega
    exact ⟨units, place + 14, if_neg hcarry, by omega, hrange.2, by omega, by rw [hexponent]⟩

/-- The text of a finite double has the digits by which it is converted. -/
theorem readScientific_scientificText {x : Double} (hfinite : x.isFinite = true) :
    ∃ mantissa exponent : Int,
      readScientific (scientificText x).toList = some (mantissa, exponent) ∧
        mantissa.natAbs ≤ 10 ^ 15 ∧ exponent.natAbs ≤ 2000 ∧ (mantissa ≠ 0 ∨ exponent < 14) ∧
          Decimal.ofDouble? x = ofUnits? mantissa (exponent - 14) := by
  rw [toList_scientificText]
  cases hzero : x.isZero with
  | true =>
    refine ⟨0, 0, ?_, by decide, by decide, .inr (by decide), ?_⟩
    · rw [if_pos rfl]
      refine readScientific_exponential (signOf x) (by decide) (fun c hc => ?_) ?_ (by decide)
        (by decide)
      · rw [List.eq_of_mem_replicate hc]
        decide
      · have hdigits : ofDigitChars 10 (List.replicate 15 '0') 0 = 0 := by decide
        rw [hdigits]
        split <;> rfl
    · have hconverted : Decimal.ofDouble? x = some zero := by
        simp [Decimal.ofDouble?, hfinite, hzero]
      rw [hconverted]
      decide
  | false =>
    obtain ⟨count, exponent, hdigits, hpos, hcount, hexponent, hunits⟩ :=
      exists_significant_eq hfinite hzero
    have hsmall : (signedLike x count).natAbs ≤ 10 ^ 15 := by rwa [natAbs_signedLike]
    rw [if_neg Bool.false_ne_true, hdigits]
    refine ⟨signedLike x count, exponent, ?_, hsmall, hexponent, .inl ?_, hunits⟩
    · refine readScientific_exponential (signOf x) (toDigits_ne_nil _)
        (fun c => isDigit_of_mem_toDigits) ?_ hsmall hexponent
      rw [Nat.ofDigitChars_ten_toDigits, signedLike_eq]
    · rw [← Int.natAbs_ne_zero, natAbs_signedLike]
      exact hpos.ne'

/-- Converting with integers of fixed width is converting: no operation on them ever overflows. -/
theorem ofDouble?_eq (x : Double) : ofDouble? x = .ok (Decimal.ofDouble? x) := by
  rw [ofDouble?]
  cases hfinite : x.isFinite with
  | false =>
    rw [Decimal.ofDouble?, hfinite]
    rfl
  | true =>
    obtain ⟨mantissa, exponent, hread, hsmall, hexponent, hne, hunits⟩ :=
      readScientific_scientificText hfinite
    rw [hread, hunits]
    exact ofScientific?_eq hsmall hexponent hne

end Checked
end TypedRecords.Decimal
