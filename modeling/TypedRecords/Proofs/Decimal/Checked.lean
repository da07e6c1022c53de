import TypedRecords.Proofs.Decimal.Digits
import TypedRecords.Proofs.Decimal.Range

/-!
# Reading decimals with integers of fixed width

Decimals are read into numbers without a bound, character by character. A machine has the bytes of
the text, a mantissa of 128 bits with sign and a scale of 8 bits. `Checked.parse` reads with such
integers and checks every operation on them; an operation whose result does not fit would stop it
for another cause than a fault of the text. The two readings always agree (`Checked.parse_eq`), so
that no operation ever has such a result.
-/

namespace TypedRecords.Decimal

namespace Checked

/-- Why a computation stops. -/
inductive Stop where
  /-- The text is no decimal literal. -/
  | fault (e : ParseError)
  /-- The result of an operation does not fit. -/
  | overflow
  deriving DecidableEq, Repr

/-- A result of 128 bits with sign. -/
def int128 (n : Int) : Except Stop Int := if fits n then .ok n else .error .overflow

/-- A result of 8 bits without sign. -/
def uint8 (n : Int) : Except Stop Nat := if 0 ≤ n ∧ n < 256 then .ok n.toNat else .error .overflow

/-- The bytes of a text. -/
def bytes (cs : List Char) : List UInt8 := cs.flatMap String.utf8EncodeChar

/-- Whether a byte is an ASCII digit. -/
def isDigit (b : UInt8) : Bool := 48 ≤ b.toNat && b.toNat ≤ 57

/-- Appends one digit. A product or a sum that does not fit is a fault of the text. -/
def pushDigit (n : Int) (b : UInt8) : Except Stop Int :=
  if isDigit b then
    if fits (n * 10) then do
      let digit ← uint8 (b.toNat - 48)
      if fits (n * 10 + digit) then return n * 10 + digit else throw (.fault .overflow)
    else throw (.fault .overflow)
  else throw (.fault .invalidDigit)

/-- Appends the digits before the point. -/
def readWhole (n : Int) : List UInt8 → Except Stop Int
  | [] => return n
  | b :: rest => do readWhole (← pushDigit n b) rest

/-- Appends the digits after the point and counts them. -/
def readFraction (n : Int) (scale : Nat) : List UInt8 → Except Stop (Int × Nat)
  | [] => return (n, scale)
  | b :: rest =>
    if scale = maxScale then
      if isDigit b then readFraction n scale rest else throw (.fault .invalidDigit)
    else do
      let longer ← pushDigit n b
      readFraction longer (← uint8 (scale + 1)) rest

/-- Takes the zeros off the end of the fraction, by division that cuts off. -/
def normalize (mantissa : Int) : Nat → Except Stop Decimal
  | 0 => return ⟨mantissa, 0⟩
  | scale + 1 =>
    if mantissa.tmod 10 = 0 then do
      let quotient ← int128 (mantissa.tdiv 10)
      let _ ← uint8 ((scale + 1 : Nat) - 1)
      normalize quotient scale
    else return ⟨mantissa, scale + 1⟩

/-- Reads a decimal literal with blanks around it. -/
def parse (s : String) : Except Stop Decimal := do
  let (negative, body) := splitSign (Text.trim s.toList)
  let (whole, fraction) := splitPoint body
  if whole.isEmpty && fraction.isEmpty then
    throw (.fault .empty)
  let n ← readWhole 0 (bytes whole)
  let (n, scale) ← readFraction n 0 (bytes fraction)
  if negative then normalize (← int128 (-n)) scale else normalize n scale

/-! ## Bytes of a character -/

theorem isDigit_iff {c : Char} : c.isDigit = true ↔ 48 ≤ c.toNat ∧ c.toNat ≤ 57 := by
  simp only [Char.isDigit, Bool.and_eq_true, decide_eq_true_eq]
  exact Iff.rfl

theorem isDigit_ofNat {n : Nat} (h : n < 256) :
    isDigit (UInt8.ofNat n) = (decide (48 ≤ n) && decide (n ≤ 57)) := by
  rw [isDigit, UInt8.toNat_ofNat_of_lt' h]

/-- A digit is one byte, which is a digit. -/
theorem utf8_of_isDigit {c : Char} (h : c.isDigit = true) :
    String.utf8EncodeChar c = [UInt8.ofNat c.toNat] ∧ isDigit (UInt8.ofNat c.toNat) = true := by
  obtain ⟨hlow, hhigh⟩ := isDigit_iff.1 h
  refine ⟨if_pos (Nat.le_trans hhigh (by decide)), ?_⟩
  rw [isDigit_ofNat (Nat.lt_of_le_of_lt hhigh (by decide)), decide_eq_true hlow,
    decide_eq_true hhigh, Bool.and_self]

/-- A character that is no digit begins with a byte that is none. -/
theorem utf8_of_not_isDigit {c : Char} (h : c.isDigit = false) :
    ∃ b rest, String.utf8EncodeChar c = b :: rest ∧ isDigit b = false := by
  have hnot : ¬(48 ≤ c.val.toNat ∧ c.val.toNat ≤ 57) := by
    intro hdigit
    rw [isDigit_iff.2 hdigit] at h
    cases h
  have hlarge {n : Nat} (hle : 58 ≤ n) (hlt : n < 256) : isDigit (UInt8.ofNat n) = false := by
    rw [isDigit_ofNat hlt, decide_eq_false (by omega : ¬n ≤ 57), Bool.and_false]
  unfold String.utf8EncodeChar
  generalize c.val.toNat = v at hnot
  dsimp only
  -- one byte for a character of ASCII, and else a first byte of at least 192
  split
  · refine ⟨_, _, rfl, ?_⟩
    rw [isDigit_ofNat (by omega), ← Bool.decide_and, decide_eq_false hnot]
  · split
    · exact ⟨_, _, rfl, hlarge (by omega) (by omega)⟩
    · split
      · exact ⟨_, _, rfl, hlarge (by omega) (by omega)⟩
      · exact ⟨_, _, rfl, hlarge (by omega) (by omega)⟩

/-! ## Nothing overflows -/

/-- A result of reading as a result of reading with checks. -/
def lift {α β : Type} (f : α → β) (result : Except ParseError α) : Except Stop β :=
  (result.map f).mapError .fault

theorem int128_eq {n : Int} (h : fits n = true) : int128 n = .ok n := if_pos h

theorem uint8_natCast {n : Nat} (h : n < 256) : uint8 n = .ok n :=
  if_pos ⟨Int.natCast_nonneg n, by omega⟩

/-- A digit is appended as without checks. -/
theorem pushDigit_ofNat (n : Nat) {c : Char} (hc : c.isDigit = true) :
    pushDigit n (UInt8.ofNat c.toNat) = lift Int.ofNat (Decimal.pushDigit n c) := by
  obtain ⟨hlow, hhigh⟩ := isDigit_iff.1 hc
  have hlt : c.toNat < 256 := Nat.lt_of_le_of_lt hhigh (by decide)
  have hdigit : uint8 ((UInt8.ofNat c.toNat).toNat - 48) = .ok (c.toNat - 48) := by
    rw [UInt8.toNat_ofNat_of_lt' hlt, ← uint8_natCast (by omega : c.toNat - 48 < 256)]
    congr 1
    omega
  have hproduct : fits ((n : Int) * 10) = decide (n * 10 ≤ maxMantissa) := fits_natCast (n * 10)
  have hsum : fits ((n : Int) * 10 + (c.toNat - 48 : Nat)) =
      decide (n * 10 + (c.toNat - 48) ≤ maxMantissa) := fits_natCast (n * 10 + (c.toNat - 48))
  rw [pushDigit, if_pos (utf8_of_isDigit hc).2, hdigit, hproduct, Decimal.pushDigit, if_pos hc]
  simp only [bind, Except.bind, hsum, decide_eq_true_eq]
  show _ = lift Int.ofNat (if n * 10 + (c.toNat - 48) ≤ maxMantissa then _ else _)
  by_cases hle : n * 10 + (c.toNat - 48) ≤ maxMantissa
  · rw [if_pos (Nat.le_trans (Nat.le_add_right _ _) hle), if_pos hle, if_pos hle]
    rfl
  · rw [if_neg hle, if_neg hle, ite_self]
    rfl

theorem pushDigit_of_not_isDigit (n : Int) {b : UInt8} (hb : isDigit b = false) :
    pushDigit n b = .error (.fault .invalidDigit) := by
  rw [pushDigit, hb]
  rfl

theorem readWhole_bytes (n : Nat) (cs : List Char) :
    readWhole n (bytes cs) = lift Int.ofNat (Decimal.readWhole n cs) := by
  induction cs generalizing n with
  | nil => rfl
  | cons c rest ih =>
    rw [bytes, List.flatMap_cons, Decimal.readWhole]
    cases hc : c.isDigit with
    | true =>
      rw [(utf8_of_isDigit hc).1, List.singleton_append, readWhole, pushDigit_ofNat n hc]
      cases Decimal.pushDigit n c with
      | ok longer => exact ih longer
      | error e => rfl
    | false =>
      obtain ⟨b, others, hutf8, hb⟩ := utf8_of_not_isDigit hc
      rw [hutf8, List.cons_append, readWhole, pushDigit_of_not_isDigit _ hb,
        pushDigit_eq_error_iff.2 (.inl ⟨hc, rfl⟩)]
      rfl

theorem readFraction_bytes (n : Nat) {scale : Nat} (hscale : scale ≤ maxScale) (cs : List Char) :
    readFraction n scale (bytes cs) =
      lift (Prod.map Int.ofNat id) (Decimal.readFraction n scale cs) := by
  induction cs generalizing n scale with
  | nil => rfl
  | cons c rest ih =>
    rw [bytes, List.flatMap_cons, Decimal.readFraction]
    cases hc : c.isDigit with
    | true =>
      obtain ⟨hutf8, hbyte⟩ := utf8_of_isDigit hc
      rw [hutf8, List.singleton_append, readFraction, hbyte]
      split
      · exact ih n hscale
      · next hplace =>
        have hlt : scale < maxScale := Nat.lt_of_le_of_ne hscale hplace
        have hcount : uint8 ((scale : Int) + 1) = .ok (scale + 1) :=
          uint8_natCast (Nat.lt_of_le_of_lt hlt (by decide))
        rw [pushDigit_ofNat n hc, hcount]
        cases Decimal.pushDigit n c with
        | ok longer => exact ih longer hlt
        | error e => rfl
    | false =>
      obtain ⟨b, others, hutf8, hb⟩ := utf8_of_not_isDigit hc
      rw [hutf8, List.cons_append, readFraction, hb, pushDigit_of_not_isDigit _ hb,
        pushDigit_eq_error_iff.2 (.inl ⟨hc, rfl⟩)]
      split <;> rfl

/-- Neither quotient nor scale leaves its range when zeros are taken off. -/
theorem normalize_eq {mantissa : Int} (hfits : fits mantissa = true) {scale : Nat}
    (hscale : scale ≤ maxScale) :
    normalize mantissa scale = .ok (Decimal.normalize mantissa scale) := by
  induction scale generalizing mantissa with
  | zero => rfl
  | succ scale ih =>
    rw [normalize, Decimal.normalize]
    by_cases hlast : 10 ∣ mantissa
    · obtain ⟨quotient, rfl⟩ := hlast
      have hquotient : fits quotient = true := by
        rw [fits_iff] at hfits ⊢
        omega
      have hcount : uint8 ((scale + 1 : Nat) - 1) = .ok scale := by
        rw [← uint8_natCast (Nat.lt_of_lt_of_le hscale (by decide))]
        congr 1
        omega
      rw [if_pos (Int.mul_tmod_right 10 quotient), if_pos (Int.mul_emod_right 10 quotient),
        Int.mul_tdiv_cancel_left quotient (by decide),
        Int.mul_ediv_cancel_left quotient (by decide), int128_eq hquotient, hcount]
      exact ih hquotient (Nat.le_of_succ_le hscale)
    · rw [if_neg fun h => hlast (Int.dvd_of_tmod_eq_zero h),
        if_neg fun h => hlast (Int.dvd_of_emod_eq_zero h)]
      rfl

/-- Reading with integers of fixed width is reading: no operation on them ever overflows. -/
theorem parse_eq (s : String) : parse s = (Decimal.parse s).mapError .fault := by
  rw [parse, Decimal.parse, ofLiteral]
  generalize splitSign (Text.trim s.toList) = signed
  obtain ⟨negative, body⟩ := signed
  dsimp only
  generalize (splitPoint body).1 = whole, (splitPoint body).2 = fraction
  split
  · rfl
  · have hwhole : readWhole 0 (bytes whole) = _ := readWhole_bytes 0 whole
    rw [hwhole]
    cases hn : Decimal.readWhole 0 whole with
    | error e => rfl
    | ok n =>
      have hfraction : readFraction (Int.ofNat n) 0 (bytes fraction) = _ :=
        readFraction_bytes n (Nat.zero_le _) fraction
      simp only [lift, Except.map, Except.mapError, bind, Except.bind, hfraction]
      cases hread : Decimal.readFraction n 0 fraction with
      | error e => rfl
      | ok read =>
        obtain ⟨m, scale⟩ := read
        have hn' : n ≤ maxMantissa := by
          obtain ⟨-, hle, rfl⟩ := (readWhole_eq_ok_iff (Nat.zero_le _)).1 hn
          exact hle
        have hm : m ≤ maxMantissa := le_of_readFraction hn' (Nat.zero_le _) hread
        have hscale : scale ≤ maxScale := scale_le_of_readFraction (Nat.zero_le _) hread
        cases negative with
        | false =>
          have hfits : fits (m : Int) = true := by
            rw [fits_iff]
            omega
          exact normalize_eq hfits hscale
        | true =>
          have hneg : fits (-(m : Int)) = true := by
            rw [fits_iff]
            omega
          show (do normalize (← int128 (-(m : Int))) scale) = _
          rw [int128_eq hneg]
          exact normalize_eq hneg hscale

end Checked
end TypedRecords.Decimal
