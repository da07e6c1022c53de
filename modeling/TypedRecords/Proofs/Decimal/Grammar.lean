import Mathlib.Data.List.DropRight
import TypedRecords.Proofs.Decimal.Checked
import TypedRecords.Proofs.Decimal.Value

/-!
# The grammar of decimal literals

A text between blanks has one sign at most, something before the first point, and something behind
it if there is a point (`Parts`). It is a literal if that is digits, one at least
(`Parts.IsLiteral`). Reading accepts exactly the literals whose number is small enough and gives
the normal decimal of that number (`parse_eq_ok_iff`); of another text it reports that there is no
digit or the first fault from left to right (`Parts.Proper.ofLiteral_eq_error_iff`).
-/

namespace TypedRecords

/-! ## Blanks -/

namespace Text

/-- The text `inner` is left of `cs` when the blanks at both ends are taken off. -/
structure Trims (cs inner : List Char) : Prop where
  surrounded : ∃ before after, cs = before ++ inner ++ after ∧
    ∀ c ∈ before ++ after, isBlank c = true
  head_not_blank : ∀ c ∈ inner.head?, isBlank c = false
  last_not_blank : ∀ c ∈ inner.getLast?, isBlank c = false

theorem trim_eq (cs : List Char) : trim cs = (cs.dropWhile isBlank).rdropWhile isBlank := rfl

theorem trims_trim (cs : List Char) : Trims cs (trim cs) := by
  rw [trim_eq]
  generalize hrest : cs.dropWhile isBlank = rest
  refine ⟨⟨cs.takeWhile isBlank, rest.rtakeWhile isBlank, ?_, ?_⟩, ?_, ?_⟩
  · rw [List.append_assoc, List.rdropWhile_append_rtakeWhile, ← hrest,
      List.takeWhile_append_dropWhile]
  · intro c hc
    rcases List.mem_append.1 hc with hc | hc
    · exact List.mem_takeWhile_imp hc
    · exact List.mem_rtakeWhile_imp hc
  · intro c hc
    obtain ⟨tail, htail⟩ := List.rdropWhile_prefix isBlank (l := rest)
    have hhead : rest.head? = some c := by
      rw [← htail, List.head?_append, hc, Option.some_or]
    have hnot := List.head?_dropWhile_not isBlank cs
    rwa [hrest, hhead] at hnot
  · intro c hc
    obtain ⟨hne, rfl⟩ := List.mem_getLast?_eq_getLast hc
    exact Bool.eq_false_iff.2 (List.rdropWhile_last_not isBlank rest hne)

/-- A text without blanks stays as it is. -/
theorem trim_eq_self {cs : List Char} (h : ∀ c ∈ cs, isBlank c = false) : trim cs = cs := by
  have hdrop {l : List Char} (hl : ∀ c ∈ l, isBlank c = false) : l.dropWhile isBlank = l := by
    cases l with
    | nil => rfl
    | cons c rest =>
      rw [List.dropWhile_cons_of_neg]
      rw [hl c List.mem_cons_self]
      exact Bool.false_ne_true
  rw [trim, hdrop h, hdrop fun c hc => h c (List.mem_reverse.1 hc), List.reverse_reverse]

end Text

namespace Decimal

open Nat (ofDigitChars)

/-! ## Parts of a text -/

/-- A sign in front of a literal. -/
inductive Sign where
  | plus
  | minus
  deriving DecidableEq, Repr

/-- The text of a sign that may be missing. -/
def Sign.chars : Option Sign → List Char
  | none => []
  | some .plus => ['+']
  | some .minus => ['-']

/-- The parts of a text that is read as a decimal: its sign, what stands before the first point, and
what stands behind it if there is a point. -/
structure Parts where
  sign : Option Sign
  whole : List Char
  fraction : Option (List Char)
  deriving DecidableEq, Repr

namespace Parts

variable (p : Parts)

/-- The text behind the sign. -/
def body : List Char :=
  match p.fraction with
  | none => p.whole
  | some fraction => p.whole ++ '.' :: fraction

/-- The text that has these parts. -/
def chars : List Char := Sign.chars p.sign ++ p.body

/-- The characters in the places of digits. -/
def digits : List Char := p.whole ++ p.fraction.getD []

/-- How many of the digits count. -/
def limit : Nat := p.whole.length + maxScale

/-- The number that the digits write, those behind the last place left out. -/
def magnitude : Nat := ofDigitChars 10 (p.whole ++ (p.fraction.getD []).take maxScale) 0

/-- The number of fractional digits that count. -/
def places : Nat := min maxScale (p.fraction.getD []).length

/-- The number that the digits write, with its sign. -/
def signed : Int := if p.sign = some .minus then -p.magnitude else p.magnitude

/-- The number that a literal stands for. -/
def value : ℚ := p.signed / 10 ^ p.places

/-- The sign and the point are where the text is taken apart: no sign is left over, and there is no
point before the first. -/
structure Proper : Prop where
  no_sign : p.sign = none → ∀ c ∈ p.body.head?, c ≠ '+' ∧ c ≠ '-'
  no_point : '.' ∉ p.whole

/-- There are digits on both sides of the point, or on one, and nothing else. -/
structure IsLiteral : Prop where
  digits_ne_nil : p.digits ≠ []
  isDigit : ∀ c ∈ p.digits, c.isDigit = true

/-- Digits without a fault: those that count write a number that is small enough. -/
structure Clean (before : List Char) : Prop where
  isDigit : ∀ c ∈ before, c.isDigit = true
  small : ofDigitChars 10 (before.take p.limit) 0 ≤ maxMantissa

/-- Read from left to right, the digits have no fault up to a character that is no digit, or up to
one that counts and with which the number they write is too large. -/
inductive FirstFault : ParseError → Prop
  | invalidDigit {before after : List Char} {c : Char} : p.digits = before ++ c :: after →
      p.Clean before → c.isDigit = false → FirstFault .invalidDigit
  | overflow {before after : List Char} {c : Char} : p.digits = before ++ c :: after →
      p.Clean before → c.isDigit = true → before.length < p.limit →
        maxMantissa < ofDigitChars 10 (before ++ [c]) 0 → FirstFault .overflow

variable {p}

/-! ## Taking a text apart -/

theorem splitSign_cons {c : Char} (rest : List Char) (h : c ≠ '+' ∧ c ≠ '-') :
    splitSign (c :: rest) = (false, c :: rest) := by
  unfold splitSign
  split <;> simp_all

theorem Proper.splitSign_chars (h : p.Proper) :
    splitSign p.chars = (decide (p.sign = some .minus), p.body) := by
  cases hsign : p.sign with
  | some sign => cases sign <;> simp [chars, hsign, Sign.chars, splitSign]
  | none =>
    rw [chars, hsign, Sign.chars, List.nil_append]
    cases hbody : p.body with
    | nil => rfl
    | cons c rest => exact splitSign_cons rest (h.no_sign hsign c (by rw [hbody]; rfl))

theorem bne_of_not_mem {d : Char} {cs : List Char} (h : d ∉ cs) : ∀ c ∈ cs, (c != d) = true := by
  intro c hc
  rw [bne_iff_ne]
  rintro rfl
  exact h hc

/-- A text is cut at the first occurrence of a character. -/
theorem takeWhile_bne_append {d : Char} {before : List Char} (h : d ∉ before) (after : List Char) :
    (before ++ d :: after).takeWhile (· != d) = before := by
  rw [List.takeWhile_append_of_pos (bne_of_not_mem h)]
  simp

theorem dropWhile_bne_append {d : Char} {before : List Char} (h : d ∉ before) (after : List Char) :
    (before ++ d :: after).dropWhile (· != d) = d :: after := by
  rw [List.dropWhile_append_of_pos (bne_of_not_mem h)]
  simp

theorem splitPoint_append {before : List Char} (h : '.' ∉ before) (after : List Char) :
    splitPoint (before ++ '.' :: after) = (before, after) := by
  rw [splitPoint, takeWhile_bne_append h, dropWhile_bne_append h, List.drop_one, List.tail_cons]

theorem splitPoint_of_not_mem {cs : List Char} (h : '.' ∉ cs) : splitPoint cs = (cs, []) := by
  simp only [splitPoint, List.takeWhile_eq_self_iff.2 (bne_of_not_mem h),
    List.dropWhile_eq_nil_iff.2 (bne_of_not_mem h), List.drop_nil]

theorem Proper.splitPoint_body (h : p.Proper) :
    splitPoint p.body = (p.whole, p.fraction.getD []) := by
  cases hfraction : p.fraction with
  | none =>
    rw [body, hfraction]
    exact splitPoint_of_not_mem h.no_point
  | some fraction =>
    rw [body, hfraction]
    exact splitPoint_append h.no_point fraction

/-- What stands before the first point and behind it. -/
theorem exists_point (cs : List Char) :
    ∃ (whole : List Char) (fraction : Option (List Char)),
      body ⟨none, whole, fraction⟩ = cs ∧ '.' ∉ whole := by
  induction cs with
  | nil => exact ⟨[], none, rfl, List.not_mem_nil⟩
  | cons c rest ih =>
    by_cases hc : c = '.'
    · subst hc
      exact ⟨[], some rest, rfl, List.not_mem_nil⟩
    · obtain ⟨whole, fraction, rfl, hpoint⟩ := ih
      refine ⟨c :: whole, fraction, ?_, ?_⟩
      · cases fraction <;> rfl
      · rw [List.mem_cons, not_or]
        exact ⟨Ne.symm hc, hpoint⟩

/-- Every text has parts. -/
theorem exists_proper (cs : List Char) : ∃ p : Parts, p.Proper ∧ p.chars = cs := by
  have hsigned (sign : Option Sign) (rest : List Char)
      (hsign : sign = none → ∀ c ∈ rest.head?, c ≠ '+' ∧ c ≠ '-') :
      ∃ p : Parts, p.Proper ∧ p.chars = Sign.chars sign ++ rest := by
    obtain ⟨whole, fraction, rfl, hpoint⟩ := exists_point rest
    exact ⟨⟨sign, whole, fraction⟩, ⟨hsign, hpoint⟩, rfl⟩
  cases cs with
  | nil => exact hsigned none [] (by simp)
  | cons c rest =>
    by_cases hplus : c = '+'
    · exact hplus ▸ hsigned (some .plus) rest (by simp)
    · by_cases hminus : c = '-'
      · exact hminus ▸ hsigned (some .minus) rest (by simp)
      · exact hsigned none (c :: rest) (by simp [hplus, hminus])

/-! ## Reading the parts -/

theorem take_limit (p : Parts) :
    p.digits.take p.limit = p.whole ++ (p.fraction.getD []).take maxScale := by
  rw [digits, limit, List.take_length_add_append]

theorem drop_limit (p : Parts) : p.digits.drop p.limit = (p.fraction.getD []).drop maxScale := by
  rw [digits, limit, List.drop_length_add_append]

theorem magnitude_eq (p : Parts) : p.magnitude = ofDigitChars 10 (p.digits.take p.limit) 0 := by
  rw [magnitude, take_limit]

/-- The digits that count are read one by one, and the others are only looked at. -/
theorem Proper.ofLiteral_chars (h : p.Proper) :
    ofLiteral p.chars =
      if p.digits = [] then .error .empty
      else (readWhole 0 (p.digits.take p.limit)).bind fun n =>
        if (p.digits.drop p.limit).all Char.isDigit then
          .ok (normalize (if p.sign = some .minus then -n else n) p.places)
        else .error .invalidDigit := by
  have hempty : (p.whole.isEmpty && (p.fraction.getD []).isEmpty) = true ↔ p.digits = [] := by
    rw [Bool.and_eq_true, List.isEmpty_iff, List.isEmpty_iff, digits, List.append_eq_nil_iff]
  rw [take_limit, drop_limit, readWhole_append, ofLiteral, h.splitSign_chars]
  dsimp only
  rw [h.splitPoint_body]
  by_cases hdigits : p.digits = []
  · rw [if_pos hdigits, if_pos (hempty.2 hdigits)]
    rfl
  · rw [if_neg hdigits, if_neg (mt hempty.1 hdigits)]
    simp only [bind, Except.bind, pure, Except.pure]
    cases hwhole : readWhole 0 p.whole with
    | error e => rfl
    | ok n =>
      simp only [readFraction_eq (Nat.zero_le maxScale), Nat.sub_zero, Except.bind]
      cases hread : readWhole n (List.take maxScale (p.fraction.getD [])) with
      | error e => rfl
      | ok m =>
        cases (List.drop maxScale (p.fraction.getD [])).all Char.isDigit with
        | false => rfl
        | true => simp [places]

theorem bind_eq_ok_iff {α β ε : Type} {result : Except ε α} {f : α → Except ε β} {b : β} :
    result.bind f = .ok b ↔ ∃ a, result = .ok a ∧ f a = .ok b := by
  cases result <;> simp [Except.bind]

theorem bind_eq_error_iff {α β ε : Type} {result : Except ε α} {f : α → Except ε β} {e : ε} :
    result.bind f = .error e ↔ result = .error e ∨ ∃ a, result = .ok a ∧ f a = .error e := by
  cases result <;> simp [Except.bind]

/-- Literals whose number is small enough are read, and nothing else is. -/
theorem Proper.ofLiteral_eq_ok_iff (h : p.Proper) {d : Decimal} :
    ofLiteral p.chars = .ok d ↔
      p.IsLiteral ∧ p.magnitude ≤ maxMantissa ∧ normalize p.signed p.places = d := by
  rw [h.ofLiteral_chars, magnitude_eq, signed, magnitude_eq]
  have hall : (∀ c ∈ p.digits, c.isDigit = true) ↔
      (∀ c ∈ p.digits.take p.limit, c.isDigit = true) ∧
        (p.digits.drop p.limit).all Char.isDigit = true := by
    rw [List.all_eq_true, ← List.forall_mem_append, List.take_append_drop]
  by_cases hdigits : p.digits = []
  · rw [if_pos hdigits]
    simp only [reduceCtorEq, false_iff]
    exact fun hread => hread.1.digits_ne_nil hdigits
  · rw [if_neg hdigits]
    constructor
    · -- the digits that count were read, and the others are digits
      intro hread
      obtain ⟨n, hn, hrest⟩ := bind_eq_ok_iff.1 hread
      obtain ⟨htake, hle, rfl⟩ := (readWhole_eq_ok_iff (Nat.zero_le _)).1 hn
      split at hrest
      · next hdrop => exact ⟨⟨hdigits, hall.2 ⟨htake, hdrop⟩⟩, hle, Except.ok.inj hrest⟩
      · cases hrest
    · rintro ⟨hliteral, hle, rfl⟩
      obtain ⟨htake, hdrop⟩ := hall.1 hliteral.isDigit
      rw [(readWhole_eq_ok_iff (Nat.zero_le _)).2 ⟨htake, hle, rfl⟩]
      exact if_pos hdrop

/-- That there is no digit is reported of a text without anything in the places of digits. -/
theorem Proper.ofLiteral_eq_empty_iff (h : p.Proper) :
    ofLiteral p.chars = .error .empty ↔ p.digits = [] := by
  rw [h.ofLiteral_chars]
  by_cases hdigits : p.digits = []
  · rw [if_pos hdigits]
    exact ⟨fun _ => hdigits, fun _ => rfl⟩
  · rw [if_neg hdigits]
    refine ⟨fun hread => ?_, fun heq => absurd heq hdigits⟩
    rcases bind_eq_error_iff.1 hread with hread | ⟨n, -, hread⟩
    · obtain ⟨_, _, _, _, _, _, hstop⟩ := (readWhole_eq_error_iff (Nat.zero_le _)).1 hread
      rcases pushDigit_eq_error_iff.1 hstop with ⟨-, heq⟩ | ⟨-, -, heq⟩ <;> cases heq
    · split at hread <;> cases hread

/-- Behind digits without a fault, a character that counts and cannot be appended stops reading. -/
theorem Clean.readWhole_take {before after : List Char} {c : Char} {e : ParseError}
    (hdigits : p.digits = before ++ c :: after) (hclean : p.Clean before)
    (hlt : before.length < p.limit) (hstop : pushDigit (ofDigitChars 10 before 0) c = .error e) :
    readWhole 0 (p.digits.take p.limit) = .error e := by
  have hsmall := hclean.small
  rw [List.take_of_length_le hlt.le] at hsmall
  obtain ⟨more, hmore⟩ := Nat.exists_eq_add_of_lt hlt
  refine (readWhole_eq_error_iff (Nat.zero_le _)).2
    ⟨before, c, after.take more, ?_, hclean.isDigit, hsmall, hstop⟩
  rw [hdigits, hmore, Nat.add_assoc, List.take_length_add_append, List.take_succ_cons]

/-- Behind digits without a fault, a character that is no digit is not read over. -/
theorem Clean.ofLiteral_chars (h : p.Proper) {before after : List Char} {c : Char}
    (hdigits : p.digits = before ++ c :: after) (hclean : p.Clean before) (hc : c.isDigit = false) :
    ofLiteral p.chars = .error .invalidDigit := by
  have hne : p.digits ≠ [] := by simp [hdigits]
  rw [h.ofLiteral_chars, if_neg hne]
  by_cases hlt : before.length < p.limit
  · rw [hclean.readWhole_take hdigits hlt (pushDigit_eq_error_iff.2 (.inl ⟨hc, rfl⟩))]
    rfl
  · -- the character stands behind the last place, and the digits before it are read
    have hle : p.limit ≤ before.length := Nat.le_of_not_lt hlt
    have htake : ∀ d ∈ before.take p.limit, d.isDigit = true :=
      fun d hd => hclean.isDigit d (List.mem_of_mem_take hd)
    have hdrop : ((before ++ c :: after).drop p.limit).all Char.isDigit = false := by
      rw [List.drop_append_of_le_length hle, List.all_append, List.all_cons, hc, Bool.false_and,
        Bool.and_false]
    rw [hdigits, List.take_append_of_le_length hle, hdrop,
      (readWhole_eq_ok_iff (Nat.zero_le _)).2 ⟨htake, hclean.small, rfl⟩]
    rfl

/-- Where not all characters are digits, one is the first that is none. -/
theorem exists_first_not_isDigit {cs : List Char} (h : cs.all Char.isDigit = false) :
    ∃ before c after, cs = before ++ c :: after ∧ (∀ d ∈ before, d.isDigit = true) ∧
      c.isDigit = false := by
  cases hfind : cs.find? (fun c => !c.isDigit) with
  | none =>
    have hall : cs.all Char.isDigit = true := by simpa using List.find?_eq_none.1 hfind
    rw [h] at hall
    cases hall
  | some c =>
    obtain ⟨hc, before, after, heq, hbefore⟩ := List.find?_eq_some_iff_append.1 hfind
    exact ⟨before, c, after, heq, by simpa using hbefore, by simpa using hc⟩

/-- Of digits that do not make a literal the first fault from left to right is reported. -/
theorem Proper.ofLiteral_eq_error_iff (h : p.Proper) {e : ParseError} (he : e ≠ .empty) :
    ofLiteral p.chars = .error e ↔ p.FirstFault e := by
  constructor
  · intro hread
    rw [h.ofLiteral_chars] at hread
    split at hread
    · exact absurd (Except.error.inj hread).symm he
    · rcases bind_eq_error_iff.1 hread with hread | ⟨n, hn, hrest⟩
      · -- reading stopped at a digit that counts
        obtain ⟨before, c, after, htake, hdigit, hsmall, hstop⟩ :=
          (readWhole_eq_error_iff (Nat.zero_le _)).1 hread
        have hdigits : p.digits = before ++ c :: (after ++ p.digits.drop p.limit) := by
          rw [← List.cons_append, ← List.append_assoc, ← htake, List.take_append_drop]
        have hlt : before.length < p.limit := by
          have hlength := List.length_take_le p.limit p.digits
          rw [htake, List.length_append, List.length_cons] at hlength
          omega
        have hclean : p.Clean before := ⟨hdigit, by rwa [List.take_of_length_le hlt.le]⟩
        rcases pushDigit_eq_error_iff.1 hstop with ⟨hc, rfl⟩ | ⟨hc, hlarge, rfl⟩
        · exact .invalidDigit hdigits hclean hc
        · rw [← Nat.ofDigitChars_append] at hlarge
          exact .overflow hdigits hclean hc hlt hlarge
      · -- all digits that count were read, and a character behind them is none
        obtain ⟨htake, hle, -⟩ := (readWhole_eq_ok_iff (Nat.zero_le _)).1 hn
        split at hrest
        · cases hrest
        · next hdrop =>
          obtain rfl := Except.error.inj hrest
          obtain ⟨before, c, after, heq, hdigit, hc⟩ :=
            exists_first_not_isDigit (Bool.eq_false_iff.2 hdrop)
          have hlength : (p.digits.take p.limit).length = p.limit := by
            have hpos : 0 < (p.digits.drop p.limit).length := by simp [heq]
            rw [List.length_drop] at hpos
            rw [List.length_take]
            omega
          have hclean : p.Clean (p.digits.take p.limit ++ before) :=
            ⟨List.forall_mem_append.2 ⟨htake, hdigit⟩, by rwa [List.take_left' hlength]⟩
          have hdigits : p.digits = p.digits.take p.limit ++ before ++ c :: after := by
            rw [List.append_assoc, ← heq, List.take_append_drop]
          exact .invalidDigit hdigits hclean hc
  · rintro (⟨hdigits, hclean, hc⟩ | ⟨hdigits, hclean, hc, hlt, hlarge⟩)
    · exact hclean.ofLiteral_chars h hdigits hc
    · have hne : p.digits ≠ [] := by simp [hdigits]
      rw [Nat.ofDigitChars_append] at hlarge
      rw [h.ofLiteral_chars, if_neg hne, hclean.readWhole_take hdigits hlt
        (pushDigit_eq_error_iff.2 (.inr ⟨hc, hlarge, rfl⟩))]
      rfl

theorem mem_body {c : Char} (hc : c ∈ p.body) : c ∈ p.digits ∨ c = '.' := by
  rw [body] at hc
  rw [digits, List.mem_append]
  cases hfraction : p.fraction with
  | none =>
    rw [hfraction] at hc
    exact .inl (.inl hc)
  | some fraction =>
    rw [hfraction, List.mem_append, List.mem_cons] at hc
    rcases hc with hwhole | hpoint | hplaces
    · exact .inl (.inl hwhole)
    · exact .inr hpoint
    · exact .inl (.inr hplaces)

/-- A literal is taken apart at its sign and its point. -/
theorem IsLiteral.proper (h : p.IsLiteral) : p.Proper := by
  constructor
  · intro _ c hc
    rcases mem_body (List.mem_of_mem_head? hc) with hdigit | rfl
    · constructor <;> rintro rfl <;> exact absurd (h.isDigit _ hdigit) (by decide)
    · decide
  · intro hpoint
    exact absurd (h.isDigit _ (List.mem_append_left _ hpoint)) (by decide)

/-- A literal is read exactly if its number is small enough, and overflows otherwise. -/
theorem IsLiteral.ofLiteral_chars (h : p.IsLiteral) :
    ofLiteral p.chars =
      if p.magnitude ≤ maxMantissa then .ok (normalize p.signed p.places)
      else .error .overflow := by
  split
  · next hle => exact h.proper.ofLiteral_eq_ok_iff.2 ⟨h, hle, rfl⟩
  · next hlarge =>
    rw [magnitude_eq] at hlarge
    rw [h.proper.ofLiteral_chars, if_neg h.digits_ne_nil,
      readWhole_eq_overflow (Nat.zero_le _) (fun c hc => h.isDigit c (List.mem_of_mem_take hc))
        (Nat.lt_of_not_le hlarge)]
    rfl

/-- A text without anything in the places of digits is a sign and a point at most. -/
theorem exists_digits_nil_iff {cs : List Char} :
    (∃ p : Parts, p.Proper ∧ p.chars = cs ∧ p.digits = []) ↔
      ∃ sign, cs = Sign.chars sign ∨ cs = Sign.chars sign ++ ['.'] := by
  constructor
  · rintro ⟨⟨sign, whole, fraction⟩, -, rfl, hdigits⟩
    obtain ⟨rfl, hfraction⟩ := List.append_eq_nil_iff.1 hdigits
    refine ⟨sign, ?_⟩
    cases fraction with
    | none => exact .inl (List.append_nil _)
    | some fraction =>
      obtain rfl : fraction = [] := hfraction
      exact .inr rfl
  · rintro ⟨sign, rfl | rfl⟩
    · exact ⟨⟨sign, [], none⟩, ⟨by simp [body], List.not_mem_nil⟩, List.append_nil _, rfl⟩
    · exact ⟨⟨sign, [], some []⟩, ⟨by simp [body], List.not_mem_nil⟩, rfl, rfl⟩

end Parts

/-- Reading accepts exactly the literals whose number is small enough, and gives the normal decimal
of that number. -/
theorem parse_eq_ok_iff {s : String} {d : Decimal} :
    parse s = .ok d ↔ ∃ p : Parts, p.chars = Text.trim s.toList ∧ p.IsLiteral ∧
      p.magnitude ≤ maxMantissa ∧ d.Normal ∧ d.value = p.value := by
  have hnormal (p : Parts) :
      normalize p.signed p.places = d ↔ d.Normal ∧ d.value = p.value := by
    have hplaces : (normalize p.signed p.places).Normal := normal_normalize (Nat.min_le_left _ _)
    constructor
    · rintro rfl
      exact ⟨hplaces, value_normalize _ _⟩
    · rintro ⟨hd, hvalue⟩
      exact hplaces.eq_of_value_eq hd ((value_normalize _ _).trans hvalue.symm)
  rw [parse]
  constructor
  · intro hread
    obtain ⟨p, hp, hchars⟩ := Parts.exists_proper (Text.trim s.toList)
    rw [← hchars, hp.ofLiteral_eq_ok_iff, hnormal] at hread
    exact ⟨p, hchars, hread⟩
  · rintro ⟨p, hchars, hliteral, hread⟩
    rw [← hchars, hliteral.proper.ofLiteral_eq_ok_iff, hnormal]
    exact ⟨hliteral, hread⟩

/-- Of another text reading reports that there is no digit, or else the first fault. -/
theorem parse_eq_error_iff {s : String} {e : ParseError} :
    parse s = .error e ↔
      e = .empty ∧ (∃ sign, Text.trim s.toList = Sign.chars sign ∨
        Text.trim s.toList = Sign.chars sign ++ ['.']) ∨
      ∃ p : Parts, p.Proper ∧ p.chars = Text.trim s.toList ∧ p.FirstFault e := by
  rw [← Parts.exists_digits_nil_iff, parse]
  constructor
  · intro hread
    obtain ⟨p, hp, hchars⟩ := Parts.exists_proper (Text.trim s.toList)
    rw [← hchars] at hread
    by_cases he : e = .empty
    · subst he
      exact .inl ⟨rfl, p, hp, hchars, hp.ofLiteral_eq_empty_iff.1 hread⟩
    · exact .inr ⟨p, hp, hchars, (hp.ofLiteral_eq_error_iff he).1 hread⟩
  · rintro (⟨rfl, p, hp, hchars, hdigits⟩ | ⟨p, hp, hchars, hfault⟩)
    · rw [← hchars, hp.ofLiteral_eq_empty_iff]
      exact hdigits
    · have he : e ≠ .empty := by cases hfault <;> decide
      rw [← hchars, hp.ofLiteral_eq_error_iff he]
      exact hfault

/-- Reading decimals. The blanks at both ends of a text do not count. What is between them is read
exactly if it is a literal and its digits, those behind the twenty-eighth fractional one left out,
write a number of 127 bits at most; the result is the normal decimal of the number that the literal
stands for. A text without anything in the places of digits is reported as such, and otherwise the
first fault from left to right is. Integers of 128 bits with sign and of 8 bits without are enough
for all of this: checked for overflow at every operation, reading gives the same answers. -/
theorem parse_reads_exactly_literals (s : String) :
    Text.Trims s.toList (Text.trim s.toList) ∧
    (∀ d, parse s = .ok d ↔ ∃ p : Parts, p.chars = Text.trim s.toList ∧ p.IsLiteral ∧
      p.magnitude ≤ maxMantissa ∧ d.Normal ∧ d.value = p.value) ∧
    (∀ e, parse s = .error e ↔
      e = .empty ∧ (∃ sign, Text.trim s.toList = Sign.chars sign ∨
        Text.trim s.toList = Sign.chars sign ++ ['.']) ∨
      ∃ p : Parts, p.Proper ∧ p.chars = Text.trim s.toList ∧ p.FirstFault e) ∧
    Checked.parse s = (parse s).mapError .fault :=
  ⟨Text.trims_trim _, fun _ => parse_eq_ok_iff, fun _ => parse_eq_error_iff, Checked.parse_eq s⟩

/-- The number grows too large before the first character that is no digit. -/
example : parse "170141183460469231731687303715884105728é" = .error .overflow := by
  decide +kernel

end Decimal
end TypedRecords
