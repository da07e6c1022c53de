import TypedRecords.Proofs.Record.Typing

/-!
# Admission and types

What a field admits and what is of the field's type are defined apart: admission converts values for
decimal-like fields and treats null there by itself, while being of a type is a matter of kinds all
the way down. The values of a field's type are nevertheless exactly those that the field stores as
they are, and everything a field stores is among them (`admission_fixes_exactly_its_type`).
-/

namespace TypedRecords.Field

variable {f : Field} {v w : Value} {e : Failure}

theorem convert_eq_error_iff :
    f.convert v = .error e ↔ v.asDecimal? = none ∧ e = f.mismatch v := by
  unfold convert
  cases v.asDecimal? with
  | none => simp [eq_comm]
  | some d => simp

/-- A field that is not decimal-like stores the values of its type, and rejects all others. -/
theorem admitted_of_not_isConverting (h : f.type.isConverting = false) :
    f.admitted v = if f.type.accepts v then .ok v else .error (f.mismatch v) := by
  unfold admitted
  split
  · next htype => simp [htype, DataType.isConverting] at h
  · next htype => simp [htype, DataType.isConverting] at h
  · rfl

/-- A decimal-like field converts whatever is not null. -/
theorem admitted_of_isConverting (h : f.type.isConverting = true) (hv : v ≠ .null) :
    f.admitted v = f.convert v := by
  have hnull : v.isNull = false := by
    cases v with
    | null => exact absurd rfl hv
    | _ => rfl
  unfold admitted
  split
  · rw [hnull]
    rfl
  · rw [hnull]
    rfl
  · next hdecimal hnullable =>
    cases htype : f.type with
    | decimal => exact absurd htype hdecimal
    | nullableDecimal => exact absurd htype hnullable
    | _ => simp [htype, DataType.isConverting] at h

/-- A decimal-like field takes null, as zero or as it is. -/
theorem exists_admitted_null (h : f.type.isConverting = true) : ∃ w, f.admitted .null = .ok w := by
  cases htype : f.type with
  | decimal => exact ⟨.decimal .zero, by simp [admitted, htype, Value.isNull]⟩
  | nullableDecimal => exact ⟨.null, by simp [admitted, htype, Value.isNull]⟩
  | _ => simp [htype, DataType.isConverting] at h

/-- What is of a field's type is exactly what the field stores as it is. -/
theorem accepts_iff_admitted_eq_self : f.type.accepts v = true ↔ f.admitted v = .ok v :=
  ⟨admitted_of_accepts, accepts_of_admitted⟩

/-- A field takes again what it has stored. -/
theorem admitted_admitted (h : f.admitted v = .ok w) : f.admitted w = .ok w :=
  admitted_of_accepts (accepts_of_admitted h)

/-- A field rejects what is not of its type, unless the field is decimal-like and the value is null
or converts to a decimal. -/
theorem admitted_eq_error_iff :
    f.admitted v = .error e ↔ e = f.mismatch v ∧ f.type.accepts v = false ∧
      (f.type.isConverting = true → v ≠ .null ∧ v.asDecimal? = none) := by
  have haccepts (h : f.admitted v = .error e) : f.type.accepts v = false := by
    rw [← Bool.not_eq_true, accepts_iff_admitted_eq_self, h]
    exact fun hok => by cases hok
  cases hconverting : f.type.isConverting with
  | false =>
    rw [admitted_of_not_isConverting hconverting]
    cases f.type.accepts v <;> simp [eq_comm]
  | true =>
    constructor
    · intro h
      have hv : v ≠ .null := by
        rintro rfl
        obtain ⟨w, hw⟩ := exists_admitted_null hconverting
        rw [hw] at h
        cases h
      have hfails := h
      rw [admitted_of_isConverting hconverting hv, convert_eq_error_iff] at hfails
      exact ⟨hfails.2, haccepts h, fun _ => ⟨hv, hfails.1⟩⟩
    · rintro ⟨rfl, -, hrejects⟩
      obtain ⟨hv, hnone⟩ := hrejects rfl
      rw [admitted_of_isConverting hconverting hv, convert_eq_error_iff]
      exact ⟨hnone, rfl⟩

/-- Admission fixes exactly the values of a field's type. Whatever a field stores is of its type and
would be stored again as it is; a value is of the field's type exactly if the field stores that very
value. The only failure is a mismatch that names the field, its type and the kind of the value. It
is reported exactly of the values that are not of the type and, where the field is decimal-like, are
neither null nor convertible to a decimal. The default of the type is always stored as it is. -/
theorem admission_fixes_exactly_its_type (f : Field) (v : Value) :
    (∀ w, f.admitted v = .ok w → f.type.accepts w = true ∧ f.admitted w = .ok w) ∧
    (f.type.accepts v = true ↔ f.admitted v = .ok v) ∧
    (∀ e, f.admitted v = .error e ↔ e = .typeMismatch f.name f.type.describe v.kind ∧
      f.type.accepts v = false ∧
      (f.type.isConverting = true → v ≠ .null ∧ v.asDecimal? = none)) ∧
    f.type.accepts (.default f.type) = true ∧
    f.admitted (.default f.type) = .ok (.default f.type) := by
  refine ⟨fun w hw => ⟨accepts_of_admitted hw, admitted_admitted hw⟩,
    accepts_iff_admitted_eq_self, fun e => admitted_eq_error_iff, Value.accepts_default f.type, ?_⟩
  exact admitted_of_accepts (Value.accepts_default f.type)

/-- A text that reads as a decimal is converted in a decimal field, once and for all, and rejected
inside a list of decimals. -/
theorem admission_of_decimal_text :
    (∃ w, admitted ⟨"Amount", .decimal, ⟨0⟩, .none, ⟨0, 0⟩⟩ (.text "1.50") = .ok w ∧
      w ≠ .text "1.50" ∧ DataType.decimal.accepts w = true ∧
      admitted ⟨"Amount", .decimal, ⟨0⟩, .none, ⟨0, 0⟩⟩ w = .ok w) ∧
    admitted ⟨"Amounts", .list .decimal, ⟨1⟩, .none, ⟨0, 1⟩⟩ (.list [.text "1.50"]) =
      .error (.typeMismatch "Amounts" "list<decimal>" "list") := by
  have hparse : Decimal.parse "1.50" = .ok ⟨15, 1⟩ := by decide +kernel
  have hconverted : admitted ⟨"Amount", .decimal, ⟨0⟩, .none, ⟨0, 0⟩⟩ (.text "1.50") =
      .ok (.decimal ⟨15, 1⟩) := by
    simp [admitted, convert, Value.isNull, Value.asDecimal?, hparse, Except.toOption]
  constructor
  · have hstored := (admission_fixes_exactly_its_type _ (.text "1.50")).1 _ hconverted
    exact ⟨_, hconverted, fun heq => (by cases heq), hstored⟩
  · refine ((admission_fixes_exactly_its_type _ _).2.2.1 _).2 ⟨rfl, ?_, fun h => (by cases h)⟩
    simp [DataType.accepts]

end TypedRecords.Field
