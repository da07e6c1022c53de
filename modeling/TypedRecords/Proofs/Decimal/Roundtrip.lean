import TypedRecords.Decimal.Printer
import TypedRecords.Proofs.Decimal.Grammar

/-!
# Reading back what is written

The text of a decimal is a literal of the decimal's number (`textParts`). A normal decimal is
therefore read back from its text, provided that its magnitude can be read (`parse_text`). Of the
mantissas of 128 bits the smallest is the only one whose magnitude cannot: digits are read into a
number without sign, and the sign comes last.
-/

namespace TypedRecords.Decimal

open Nat (ofDigitChars)

/-! ## The text of a decimal -/

/-- The digits of a magnitude with zeros in front, so that one stands before the point at least. -/
def paddedDigits (magnitude scale : Nat) : List Char :=
  (Nat.toDigits 10 magnitude).leftpad (scale + 1) '0'

theorem length_paddedDigits (magnitude scale : Nat) :
    scale + 1 ≤ (paddedDigits magnitude scale).length := by
  rw [paddedDigits, List.leftpad, List.length_append, List.length_replicate]
  omega

theorem isDigit_of_mem_paddedDigits {magnitude scale : Nat} {c : Char}
    (hc : c ∈ paddedDigits magnitude scale) : c.isDigit = true := by
  rw [paddedDigits, List.leftpad, List.mem_append] at hc
  rcases hc with hc | hc
  · rw [List.eq_of_mem_replicate hc]
    rfl
  · exact Nat.isDigit_of_mem_toDigits (by decide) (by decide) hc

/-- Zeros in front do not count. -/
theorem ofDigitChars_paddedDigits (magnitude scale : Nat) :
    ofDigitChars 10 (paddedDigits magnitude scale) 0 = magnitude := by
  rw [paddedDigits, List.leftpad, Nat.ofDigitChars_append, Nat.ofDigitChars_replicate_zero,
    Nat.mul_zero, Nat.ofDigitChars_ten_toDigits]

theorem paddedDigits_zero (magnitude : Nat) :
    paddedDigits magnitude 0 = Nat.toDigits 10 magnitude := by
  have hpos : 0 < (Nat.toDigits 10 magnitude).length := Nat.length_toDigits_pos
  rw [paddedDigits, List.leftpad, Nat.sub_eq_zero_of_le hpos]
  rfl

/-- The parts of the text of a decimal. -/
def textParts (d : Decimal) : Parts :=
  let padded := paddedDigits d.mantissa.natAbs d.scale
  let whole := padded.length - d.scale
  { sign := if d.mantissa < 0 then some .minus else none
    whole := padded.take whole
    fraction := if d.scale = 0 then none else some (padded.drop whole) }

theorem digits_textParts (d : Decimal) :
    (textParts d).digits = paddedDigits d.mantissa.natAbs d.scale := by
  rw [Parts.digits, textParts]
  dsimp only
  split
  · next hscale => simp [hscale]
  · rw [Option.getD_some, List.take_append_drop]

theorem toList_text (d : Decimal) : d.text.toList = (textParts d).chars := by
  have hbody : magnitudeText d.mantissa.natAbs d.scale = (textParts d).body := by
    rw [magnitudeText, textParts, Parts.body]
    by_cases hscale : d.scale = 0
    · simp [hscale, paddedDigits_zero]
    · simp [hscale, paddedDigits]
  rw [text, String.toList_ofList, hbody, Parts.chars]
  by_cases hneg : d.mantissa < 0
  · rw [if_pos hneg, textParts, if_pos hneg]
    rfl
  · rw [if_neg hneg, textParts, if_neg hneg]
    rfl

theorem length_fraction_textParts (d : Decimal) :
    ((textParts d).fraction.getD []).length = d.scale := by
  have hlength := length_paddedDigits d.mantissa.natAbs d.scale
  rw [textParts]
  dsimp only
  split
  · next hscale => rw [hscale]; rfl
  · rw [Option.getD_some, List.length_drop]
    omega

theorem isLiteral_textParts (d : Decimal) : (textParts d).IsLiteral := by
  constructor
  · have hlength := length_paddedDigits d.mantissa.natAbs d.scale
    rw [digits_textParts, ← List.length_pos_iff]
    omega
  · intro c hc
    rw [digits_textParts] at hc
    exact isDigit_of_mem_paddedDigits hc

section

variable {d : Decimal} (h : d.scale ≤ maxScale)

include h

theorem places_textParts : (textParts d).places = d.scale := by
  rw [Parts.places, length_fraction_textParts, Nat.min_eq_right h]

theorem magnitude_textParts : (textParts d).magnitude = d.mantissa.natAbs := by
  rw [Parts.magnitude, List.take_of_length_le ((length_fraction_textParts d).trans_le h),
    ← Parts.digits, digits_textParts, ofDigitChars_paddedDigits]

theorem signed_textParts : (textParts d).signed = d.mantissa := by
  have hsign : (textParts d).sign = some .minus ↔ d.mantissa < 0 := by simp [textParts]
  simp only [Parts.signed, magnitude_textParts h, hsign]
  split <;> omega

end

theorem not_isBlank_of_isDigit {c : Char} (h : c.isDigit = true) : Text.isBlank c = false := by
  obtain ⟨hlow, hhigh⟩ := Checked.isDigit_iff.1 h
  simp [Text.isBlank]
  omega

/-- There is no blank in a literal. -/
theorem Parts.IsLiteral.not_isBlank {p : Parts} (h : p.IsLiteral) {c : Char} (hc : c ∈ p.chars) :
    Text.isBlank c = false := by
  rcases List.mem_append.1 hc with hsign | hbody
  · cases hp : p.sign with
    | none => simp [hp, Sign.chars] at hsign
    | some sign =>
      cases sign <;>
      · obtain rfl : c = _ := by simpa [hp, Sign.chars] using hsign
        decide
  · rcases mem_body hbody with hdigit | rfl
    · exact not_isBlank_of_isDigit (h.isDigit c hdigit)
    · decide

theorem Normal.normalize_eq {d : Decimal} (h : d.Normal) : normalize d.mantissa d.scale = d :=
  (normal_normalize h.scale_le).eq_of_value_eq h (value_normalize _ _)

/-! ## Reading it back -/

/-- A normal decimal is read back from its text if its magnitude can be read, and otherwise the
text is too long a number. -/
theorem parse_text {d : Decimal} (h : d.Normal) :
    parse d.text = if d.mantissa.natAbs ≤ maxMantissa then .ok d else .error .overflow := by
  have hliteral := isLiteral_textParts d
  rw [parse, toList_text, Text.trim_eq_self fun c hc => hliteral.not_isBlank hc,
    hliteral.ofLiteral_chars, magnitude_textParts h.scale_le, signed_textParts h.scale_le,
    places_textParts h.scale_le, h.normalize_eq]

/-! ## Obtainable decimals -/

theorem fits_of_parse {s : String} {d : Decimal} (h : parse s = .ok d) :
    fits d.mantissa = true := by
  obtain ⟨p, hp, hchars⟩ := Parts.exists_proper (Text.trim s.toList)
  rw [parse, ← hchars, hp.ofLiteral_eq_ok_iff] at h
  obtain ⟨-, hle, rfl⟩ := h
  refine fits_normalize (fits_of_natAbs_le ?_) _
  rw [Parts.signed]
  split <;> simpa using hle

/-- Every decimal that can be come by has a mantissa of 128 bits. -/
theorem Obtainable.fits {d : Decimal} (h : d.Obtainable) : fits d.mantissa = true := by
  cases h with
  | ofScaled hfits h =>
    unfold ofScaled? at h
    split at h
    · obtain rfl := Option.some.inj h
      exact fits_normalize hfits _
    · cases h
  | ofInt64 i => exact fits_ofInt (by have := i.le_toInt; omega) (by have := i.toInt_lt; omega)
  | ofInt32 i => exact fits_ofInt (by have := i.le_toInt; omega) (by have := i.toInt_lt; omega)
  | ofUInt64 n => exact fits_ofInt (by omega) (by exact_mod_cast n.toNat_lt)
  | ofDouble h => exact fits_of_ofDouble? h
  | parse h => exact fits_of_parse h
  | zero => decide
  | one => decide

/-- The mantissas reach one further below zero than the magnitudes that can be read. -/
theorem natAbs_le_iff {n : Int} (h : fits n = true) :
    n.natAbs ≤ maxMantissa ↔ n ≠ -2 ^ 127 := by
  rw [fits_iff] at h
  rw [maxMantissa] at h ⊢
  omega

/-- Writing and reading back. A decimal that can be come by is read back from its text, with one
exception: a text of the smallest mantissa of 128 bits is out of range. -/
theorem parse_text_of_obtainable {d : Decimal} (h : d.Obtainable) :
    (parse d.text = .ok d ↔ d.mantissa ≠ -2 ^ 127) ∧
      (d.mantissa = -2 ^ 127 → parse d.text = .error .overflow) := by
  have hread := parse_text h.normal
  have hle := natAbs_le_iff h.fits
  by_cases hsmallest : d.mantissa = -2 ^ 127
  · rw [if_neg (mt hle.1 (not_not_intro hsmallest))] at hread
    exact ⟨⟨fun hok => absurd (hread.symm.trans hok) (by simp), (absurd hsmallest ·)⟩,
      fun _ => hread⟩
  · rw [if_pos (hle.2 hsmallest)] at hread
    exact ⟨⟨fun _ => hsmallest, fun _ => hread⟩, (absurd · hsmallest)⟩

/-- The smallest mantissa but one is read back, here with as many digits after the point as can
be. -/
theorem parse_text_smallest_but_one :
    ∃ d : Decimal, d.Obtainable ∧ d = ⟨-2 ^ 127 + 1, 28⟩ ∧ parse d.text = .ok d := by
  have hmake : ofScaled? (-2 ^ 127 + 1) 28 = some ⟨-2 ^ 127 + 1, 28⟩ := by decide +kernel
  have h : Obtainable ⟨-2 ^ 127 + 1, 28⟩ := .ofScaled (by decide +kernel) hmake
  exact ⟨_, h, rfl, (parse_text_of_obtainable h).1.2 (by decide)⟩

/-- The decimal with the smallest mantissa can be made from it, and is not read back. -/
theorem not_parse_text_smallest : ¬∀ d : Decimal, d.Obtainable → parse d.text = .ok d := by
  intro hall
  have hmake : ofScaled? (-2 ^ 127) 0 = some ⟨-2 ^ 127, 0⟩ := by decide +kernel
  have h : Obtainable ⟨-2 ^ 127, 0⟩ := .ofScaled (by decide +kernel) hmake
  have hread : parse (⟨-2 ^ 127, 0⟩ : Decimal).text = .error .overflow := by decide +kernel
  exact absurd ((hall _ h).symm.trans hread) (by simp)

end TypedRecords.Decimal
