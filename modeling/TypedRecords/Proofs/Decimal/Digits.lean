import TypedRecords.Decimal.Parser

/-!
# Digits read one by one

Digits are read from left to right into a number that may not exceed the largest mantissa. What is
read of digits is the number they write (`readWhole_eq_ok_iff`), and reading stops at the first
character that cannot be appended (`readWhole_eq_error_iff`). Behind the point the digits up to the
last place are read in the same way, and the others only have to be digits (`readFraction_eq`).
-/

namespace TypedRecords.Decimal

open Nat (ofDigitChars)

theorem pushDigit_eq (n : Nat) (c : Char) :
    pushDigit n c =
      if c.isDigit then
        if ofDigitChars 10 [c] n ≤ maxMantissa then .ok (ofDigitChars 10 [c] n)
        else .error .overflow
      else .error .invalidDigit := by
  rw [pushDigit, Nat.ofDigitChars_cons, Nat.ofDigitChars_nil, Nat.mul_comm 10 n]

theorem pushDigit_eq_ok_iff {n m : Nat} {c : Char} :
    pushDigit n c = .ok m ↔
      c.isDigit = true ∧ ofDigitChars 10 [c] n ≤ maxMantissa ∧ ofDigitChars 10 [c] n = m := by
  rw [pushDigit_eq]
  by_cases hdigit : c.isDigit = true
  · by_cases hle : ofDigitChars 10 [c] n ≤ maxMantissa
    · simp only [hdigit, hle, if_true, true_and, Except.ok.injEq]
    · simp only [hdigit, hle, if_true, if_false, reduceCtorEq, false_and, and_false]
  · simp only [hdigit, if_false, reduceCtorEq, false_and]

theorem pushDigit_eq_error_iff {n : Nat} {c : Char} {e : ParseError} :
    pushDigit n c = .error e ↔
      c.isDigit = false ∧ e = .invalidDigit ∨
        c.isDigit = true ∧ maxMantissa < ofDigitChars 10 [c] n ∧ e = .overflow := by
  rw [pushDigit_eq]
  cases c.isDigit with
  | false => simp only [Bool.false_eq_true, if_false, Except.error.injEq, eq_comm, true_and,
      false_and, or_false]
  | true =>
    by_cases hle : ofDigitChars 10 [c] n ≤ maxMantissa
    · simp only [hle, Nat.not_lt_of_le hle, if_true, reduceCtorEq, false_and, and_false, or_false]
    · simp only [hle, Nat.lt_of_not_le hle, if_true, if_false, Except.error.injEq, reduceCtorEq,
        false_and, false_or, true_and, eq_comm]

/-- A number does not shrink when digits are appended. -/
theorem le_ofDigitChars (n : Nat) (cs : List Char) : n ≤ ofDigitChars 10 cs n := by
  rw [Nat.ofDigitChars_eq_ofDigitChars_zero]
  have hpos : 1 ≤ 10 ^ cs.length := Nat.one_le_pow _ _ (by decide)
  exact Nat.le_add_right_of_le (Nat.le_mul_of_pos_left n hpos)

theorem ofDigitChars_singleton_append (c : Char) (cs : List Char) (n : Nat) :
    ofDigitChars 10 (c :: cs) n = ofDigitChars 10 cs (ofDigitChars 10 [c] n) := by
  rw [← List.singleton_append, Nat.ofDigitChars_append]

/-- Digits are read completely exactly if the number they write is small enough. -/
theorem readWhole_eq_ok_iff {n m : Nat} (hn : n ≤ maxMantissa) {cs : List Char} :
    readWhole n cs = .ok m ↔
      (∀ c ∈ cs, c.isDigit = true) ∧ ofDigitChars 10 cs n ≤ maxMantissa ∧
        ofDigitChars 10 cs n = m := by
  induction cs generalizing n with
  | nil => simp [readWhole, hn]
  | cons c rest ih =>
    rw [readWhole, ofDigitChars_singleton_append, List.forall_mem_cons]
    cases hpush : pushDigit n c with
    | ok longer =>
      obtain ⟨hdigit, hle, rfl⟩ := pushDigit_eq_ok_iff.1 hpush
      exact (ih hle).trans (by simp [hdigit])
    | error e =>
      simp only [bind, Except.bind, reduceCtorEq, false_iff]
      rintro ⟨⟨hdigit, -⟩, hle, -⟩
      have hsmall := Nat.le_trans (le_ofDigitChars _ rest) hle
      rw [pushDigit_eq_ok_iff.2 ⟨hdigit, hsmall, rfl⟩] at hpush
      cases hpush

/-- Reading stops at the first character that cannot be appended to the number read before. -/
theorem readWhole_eq_error_iff {n : Nat} (hn : n ≤ maxMantissa) {cs : List Char} {e : ParseError} :
    readWhole n cs = .error e ↔
      ∃ before c after, cs = before ++ c :: after ∧ (∀ d ∈ before, d.isDigit = true) ∧
        ofDigitChars 10 before n ≤ maxMantissa ∧
        pushDigit (ofDigitChars 10 before n) c = .error e := by
  induction cs generalizing n with
  | nil => simp [readWhole]
  | cons c rest ih =>
    rw [readWhole]
    cases hpush : pushDigit n c with
    | ok longer =>
      obtain ⟨hdigit, hle, rfl⟩ := pushDigit_eq_ok_iff.1 hpush
      refine (ih hle).trans ⟨?_, ?_⟩
      · rintro ⟨before, d, after, rfl, hdigits, hsmall, hstop⟩
        refine ⟨c :: before, d, after, rfl, List.forall_mem_cons.2 ⟨hdigit, hdigits⟩, ?_⟩
        rw [ofDigitChars_singleton_append]
        exact ⟨hsmall, hstop⟩
      · rintro ⟨before, d, after, heq, hdigits, hsmall, hstop⟩
        cases before with
        | nil =>
          -- the first character was appended, so that reading did not stop there
          obtain ⟨rfl, rfl⟩ := List.cons_eq_cons.1 heq
          rw [Nat.ofDigitChars_nil, hpush] at hstop
          cases hstop
        | cons first before =>
          obtain ⟨rfl, rfl⟩ := List.cons_eq_cons.1 heq
          rw [ofDigitChars_singleton_append] at hsmall hstop
          exact ⟨before, d, after, rfl, (List.forall_mem_cons.1 hdigits).2, hsmall, hstop⟩
    | error e' =>
      simp only [bind, Except.bind, Except.error.injEq]
      constructor
      · rintro rfl
        exact ⟨[], c, rest, rfl, by simp, hn, hpush⟩
      · rintro ⟨before, d, after, heq, hdigits, hsmall, hstop⟩
        cases before with
        | nil =>
          obtain ⟨rfl, rfl⟩ := List.cons_eq_cons.1 heq
          rw [Nat.ofDigitChars_nil, hpush] at hstop
          exact Except.error.inj hstop
        | cons first before =>
          obtain ⟨rfl, rfl⟩ := List.cons_eq_cons.1 heq
          rw [ofDigitChars_singleton_append] at hsmall
          have hle := Nat.le_trans (le_ofDigitChars _ before) hsmall
          rw [pushDigit_eq_ok_iff.2 ⟨(List.forall_mem_cons.1 hdigits).1, hle, rfl⟩] at hpush
          cases hpush

/-- Digits that write too large a number overflow. -/
theorem readWhole_eq_overflow {n : Nat} (hn : n ≤ maxMantissa) {cs : List Char}
    (hdigits : ∀ c ∈ cs, c.isDigit = true) (hlarge : maxMantissa < ofDigitChars 10 cs n) :
    readWhole n cs = .error .overflow := by
  cases hread : readWhole n cs with
  | ok m => exact absurd ((readWhole_eq_ok_iff hn).1 hread).2.1 (Nat.not_le_of_lt hlarge)
  | error e =>
    obtain ⟨before, c, after, rfl, -, -, hstop⟩ := (readWhole_eq_error_iff hn).1 hread
    rcases pushDigit_eq_error_iff.1 hstop with ⟨hbad, -⟩ | ⟨-, -, rfl⟩
    · rw [hdigits c (by simp)] at hbad
      cases hbad
    · rfl

theorem readWhole_append (n : Nat) (as bs : List Char) :
    readWhole n (as ++ bs) = (readWhole n as).bind fun m => readWhole m bs := by
  induction as generalizing n with
  | nil => rfl
  | cons a as ih =>
    rw [List.cons_append, readWhole, readWhole]
    cases pushDigit n a with
    | ok longer => exact ih longer
    | error e => rfl

/-- Behind the point the digits that have a place are read as those before it, and the others are
only looked at. -/
theorem readFraction_eq {n scale : Nat} (hscale : scale ≤ maxScale) (cs : List Char) :
    readFraction n scale cs = (readWhole n (cs.take (maxScale - scale))).bind fun longer =>
      if (cs.drop (maxScale - scale)).all Char.isDigit then
        .ok (longer, min maxScale (scale + cs.length))
      else .error .invalidDigit := by
  induction cs generalizing n scale with
  | nil => simp [readFraction, readWhole, Nat.min_eq_right hscale, Except.bind]
  | cons c rest ih =>
    rw [readFraction]
    split
    · next hfull =>
      subst hfull
      rw [ih (Nat.le_refl _), Nat.sub_self, List.take_zero, List.take_zero, List.drop_zero,
        List.drop_zero, readWhole, List.all_cons, Nat.min_eq_left (Nat.le_add_right _ _),
        Nat.min_eq_left (Nat.le_add_right _ _)]
      cases c.isDigit <;> rfl
    · next hplace =>
      have hlt : scale < maxScale := Nat.lt_of_le_of_ne hscale hplace
      have hroom : maxScale - scale = maxScale - (scale + 1) + 1 := by omega
      have hlength : scale + (c :: rest).length = scale + 1 + rest.length := by
        rw [List.length_cons]
        omega
      rw [hroom, hlength, List.take_succ_cons, List.drop_succ_cons, readWhole]
      cases pushDigit n c with
      | error e => rfl
      | ok longer => exact ih hlt

/-- What is read is no larger than a mantissa may be. -/
theorem le_of_readFraction {n m scale places : Nat} (hn : n ≤ maxMantissa)
    (hscale : scale ≤ maxScale) {cs : List Char}
    (h : readFraction n scale cs = .ok (m, places)) : m ≤ maxMantissa := by
  rw [readFraction_eq hscale] at h
  cases hread : readWhole n (cs.take (maxScale - scale)) with
  | error e =>
    rw [hread] at h
    cases h
  | ok longer =>
    obtain ⟨-, hle, rfl⟩ := (readWhole_eq_ok_iff hn).1 hread
    rw [hread, Except.bind] at h
    split at h
    · obtain ⟨rfl, -⟩ := Prod.mk.inj (Except.ok.inj h)
      exact hle
    · cases h

end TypedRecords.Decimal
