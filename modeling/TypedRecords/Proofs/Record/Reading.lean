import TypedRecords.Proofs.Record.Replay
import TypedRecords.Record.Target

/-!
# Typed reads

A type of fields has a target that reads what such fields hold (`DataType.target`), and a value that
is not null is read by the target of its own kind, by that of any value and by optional targets
around these, and by no other (`Target.read_eq_none`). As the fields of a record hold values of
their types, asking for the field's own target cannot go wrong but for null, and asking for another
always does (`RecordOf.ReadsField`). The three ways of reading differ only in what they make of a
field that is not assigned and of null (`typed_reads_sound_and_coherent`).
-/

namespace TypedRecords

/-! ## Targets, values and types -/

/-- The target of a value's own kind; null has none. -/
def Value.target? : Value → Option Target
  | .null => none
  | .bool _ => some .bool
  | .int _ => some .int
  | .float _ => some .float
  | .decimal _ => some .decimal
  | .guid _ => some .guid
  | .dateTime _ => some .dateTime
  | .text _ => some .text
  | .bytes _ => some .bytes
  | .list _ => some .list
  | .record _ => some .record

/-- The target that reads what fields of a type hold. Both decimal-like types hold decimals. -/
def DataType.target : DataType → Target
  | .bool => .bool
  | .int => .int
  | .float => .float
  | .decimal | .nullableDecimal => .decimal
  | .guid => .guid
  | .dateTime => .dateTime
  | .text => .text
  | .bytes => .bytes
  | .list _ => .list
  | .record _ => .record

/-- A value other than null is of the kind of every type that accepts it. -/
theorem DataType.target?_of_accepts {t : DataType} {v : Value} (h : t.accepts v = true)
    (hv : v ≠ .null) : v.target? = some t.target := by
  cases v with
  | null => exact absurd rfl hv
  | list items =>
    cases t with
    | list element => rfl
    | _ => cases h
  | record r =>
    cases t with
    | record schema => rfl
    | _ => cases h
  | _ => cases t <;> cases h <;> rfl

namespace Target

variable {t own : Target} {v : Value}

/-- The target left when all options around it are taken off. -/
def base : Target → Target
  | .option inner => inner.base
  | t => t

theorem read_option_null (t : Target) : (option t).read .null = some none := rfl

theorem read_option_of_ne_null (hv : v ≠ .null) : (option t).read v = (t.read v).map some := by
  cases v with
  | null => exact absurd rfl hv
  | _ => rfl

/-- What is read is the value's content. -/
theorem toValue_of_read {x : t.Carrier} (h : t.read v = some x) : t.toValue x = v := by
  induction t with
  | value => exact (Option.some.inj h).symm
  | option inner ih =>
    by_cases hv : v = .null
    · subst hv
      obtain rfl := Option.some.inj h
      rfl
    · rw [read_option_of_ne_null hv] at h
      obtain ⟨y, hy, rfl⟩ := Option.map_eq_some_iff.1 h
      exact ih hy
  | _ =>
    cases v <;> cases h
    rfl

/-- A value is read by the target of its own kind. -/
theorem exists_read (h : v.target? = some own) : ∃ x, own.read v = some x := by
  cases v with
  | null => cases h
  | _ =>
    obtain rfl := Option.some.inj h
    exact ⟨_, rfl⟩

/-- A value is not read by the target of another kind, nor by an optional one. -/
theorem read_eq_none (h : v.target? = some own) (hvalue : t.base ≠ .value) (hown : t.base ≠ own) :
    t.read v = none := by
  induction t with
  | value => exact absurd rfl hvalue
  | option inner ih =>
    have hv : v ≠ .null := by
      rintro rfl
      cases h
    rw [read_option_of_ne_null hv, ih hvalue hown]
    rfl
  | _ => cases v <;> cases h <;> first | rfl | exact absurd rfl hown

end Target

/-! ## Reading fields -/

/-- A read fails because the value is not of the type asked for. -/
def Mismatch {α : Type} (result : Except Failure α) : Prop :=
  ∃ field expected found, result = .error (.typeMismatch field expected found)

theorem not_mismatch_ok {α : Type} (a : α) : ¬Mismatch (.ok a) := by
  rintro ⟨field, expected, found, h⟩
  cases h

namespace RecordOf

variable {r : Record} {name : String} {i : Position} {f : Field} {t : Target}

/-- What typed reads under a name give that stands for the field `f` at the position `i`. -/
structure ReadsField (r : Record) (name : String) (i : Position) (f : Field) : Prop where
  /-- The content of an assigned field is read by the optional target of the field's type. -/
  optional {v : Value} : r.get? i = some v → ∃ x, r.readAs (.option f.type.target) name = .ok x ∧
    (Target.option f.type.target).toValue x = v
  /-- If the type does not admit null, the target itself reads it. -/
  required {v : Value} : f.type.allowsNull = false → r.get? i = some v →
    ∃ x, r.readAs f.type.target name = .ok x ∧ f.type.target.toValue x = v
  not_mismatch : ¬Mismatch (r.readAs (.option f.type.target) name)
  not_mismatch? : ¬Mismatch (r.readAs? (.option f.type.target) name)
  not_mismatchOr (substitute : f.type.target.Carrier) :
    ¬Mismatch (r.readAsOr f.type.target substitute name)
  /-- No other target reads a content that is not null. -/
  mismatch {t : Target} {v : Value} : t.base ≠ .value → t.base ≠ f.type.target →
    r.get? i = some v → v ≠ .null →
      r.readAs t name = .error (.typeMismatch f.name t.kind v.kind) ∧
      r.readAs? t name = .error (.typeMismatch f.name t.kind v.kind) ∧
      ∀ substitute, r.readAsOr t substitute name = .error (.typeMismatch f.name t.kind v.kind)
  /-- The substitute stands for null and for a field that is not assigned; otherwise reading with a
  substitute is reading an optional content, with the same failures. -/
  substituted (t : Target) (substitute : t.Carrier) : r.readAsOr t substitute name =
    match r.get? i with
    | none => .ok substitute
    | some _ => (Option.getD · substitute) <$> r.readAs (.option t) name
  /-- So it is with the zero of every target that has one. -/
  zero {t : Target} {zero : t.Carrier} : t.zero? = some zero → r.readAsOr t zero name =
    match r.get? i with
    | none => .ok zero
    | some _ => (Option.getD · zero) <$> r.readAs (.option t) name

section

variable (hname : r.schema.resolve name = some i) (hf : r.schema.fields[i.toNat]? = some f)

include hf in
theorem convert_eq (t : Target) (v : Value) : r.convert t i v = match t.read v with
    | some x => .ok x
    | none => .error (.typeMismatch f.name t.kind v.kind) := by
  rw [convert, Schema.field, Schema.field?, hf]
  simp only [bind, Except.bind]
  cases t.read v <;> rfl

include hname in
theorem readAs?_of_resolve (t : Target) : r.readAs? t name = match r.get? i with
    | some v => some <$> r.convert t i v
    | none => .ok none := by
  rw [readAs?, Schema.positionOf, hname]
  rfl

include hname in
theorem readAs_of_resolve (t : Target) : r.readAs t name = match r.get? i with
    | some v => r.convert t i v
    | none => .error (.missing name) := by
  rw [readAs, readAs?_of_resolve hname]
  cases r.get? i with
  | none => rfl
  | some v =>
    dsimp only
    cases r.convert t i v <;> rfl

include hname in
theorem readAsOr_of_resolve (t : Target) (substitute : t.Carrier) :
    r.readAsOr t substitute name = match r.get? i with
    | none | some .null => .ok substitute
    | some v => r.convert t i v := by
  rw [readAsOr, Schema.positionOf, hname]
  rfl

include hname hf in
theorem readAsOr_eq (t : Target) (substitute : t.Carrier) : r.readAsOr t substitute name =
    match r.get? i with
    | none => .ok substitute
    | some _ => (Option.getD · substitute) <$> r.readAs (.option t) name := by
  rw [readAsOr_of_resolve hname, readAs_of_resolve hname]
  cases r.get? i with
  | none => rfl
  | some v =>
    by_cases hv : v = .null
    · subst hv
      simp only [convert_eq hf, Target.read_option_null]
      rfl
    · simp only [convert_eq hf, Target.read_option_of_ne_null hv]
      cases t.read v <;> rfl

include hf in
/-- The optional target of a field's type reads every value of the type. -/
theorem convert_option_of_accepts {v : Value} (haccepts : f.type.accepts v = true) :
    ∃ x, r.convert (.option f.type.target) i v = .ok x ∧
      (Target.option f.type.target).toValue x = v := by
  by_cases hne : v = .null
  · subst hne
    exact ⟨none, by rw [convert_eq hf, Target.read_option_null], rfl⟩
  · obtain ⟨x, hx⟩ := Target.exists_read (DataType.target?_of_accepts haccepts hne)
    have hread : (Target.option f.type.target).read v = some (some x) := by
      rw [Target.read_option_of_ne_null hne, hx]
      rfl
    exact ⟨some x, by rw [convert_eq hf, hread], Target.toValue_of_read hread⟩

include hf in
/-- The target of a type that does not admit null reads every value of the type. -/
theorem convert_of_accepts {v : Value} (hnull : f.type.allowsNull = false)
    (haccepts : f.type.accepts v = true) :
    ∃ x, r.convert f.type.target i v = .ok x ∧ f.type.target.toValue x = v := by
  have hne : v ≠ .null := by
    rintro rfl
    rw [DataType.accepts_null, hnull] at haccepts
    cases haccepts
  obtain ⟨x, hx⟩ := Target.exists_read (DataType.target?_of_accepts haccepts hne)
  exact ⟨x, by rw [convert_eq hf, hx], Target.toValue_of_read hx⟩

include hf in
/-- Targets of other kinds read no value of a field's type but null. -/
theorem convert_eq_mismatch {v : Value} (hvalue : t.base ≠ .value)
    (hother : t.base ≠ f.type.target) (haccepts : f.type.accepts v = true) (hne : v ≠ .null) :
    r.convert t i v = .error (.typeMismatch f.name t.kind v.kind) := by
  have hkind := DataType.target?_of_accepts haccepts hne
  rw [convert_eq hf, Target.read_eq_none hkind hvalue hother]

/-- A field of the schema that holds a value of its type, or nothing, is read as its type says. -/
theorem readsField (hname : r.schema.resolve name = some i)
    (hf : r.schema.fields[i.toNat]? = some f)
    (htyped : ∀ v, r.get? i = some v → f.type.accepts v = true) : r.ReadsField name i f := by
  constructor
  case optional =>
    intro v hv
    rw [readAs_of_resolve hname, hv]
    exact convert_option_of_accepts hf (htyped v hv)
  case required =>
    intro v hnull hv
    rw [readAs_of_resolve hname, hv]
    exact convert_of_accepts hf hnull (htyped v hv)
  case not_mismatch =>
    rw [readAs_of_resolve hname]
    cases hv : r.get? i with
    | none =>
      rintro ⟨field, expected, found, h⟩
      cases h
    | some v =>
      obtain ⟨x, hx, -⟩ := convert_option_of_accepts hf (htyped v hv)
      simp only [hx]
      exact not_mismatch_ok x
  case not_mismatch? =>
    rw [readAs?_of_resolve hname]
    cases hv : r.get? i with
    | none => exact not_mismatch_ok none
    | some v =>
      obtain ⟨x, hx, -⟩ := convert_option_of_accepts hf (htyped v hv)
      simp only [hx]
      exact not_mismatch_ok (some x)
  case not_mismatchOr =>
    intro substitute
    rw [readAsOr_eq hname hf, readAs_of_resolve hname]
    cases hv : r.get? i with
    | none => exact not_mismatch_ok substitute
    | some v =>
      obtain ⟨x, hx, -⟩ := convert_option_of_accepts hf (htyped v hv)
      simp only [hx]
      exact not_mismatch_ok (x.getD substitute)
  case mismatch =>
    intro t v hvalue hother hv hne
    have hplain : r.convert t i v = .error (.typeMismatch f.name t.kind v.kind) :=
      convert_eq_mismatch hf hvalue hother (htyped v hv) hne
    have hoption : r.convert (.option t) i v = .error (.typeMismatch f.name t.kind v.kind) :=
      convert_eq_mismatch hf hvalue hother (htyped v hv) hne
    refine ⟨?_, ?_, fun substitute => ?_⟩
    · simp only [readAs_of_resolve hname, hv, hplain]
    · simp only [readAs?_of_resolve hname, hv, hplain]
      rfl
    · simp only [readAsOr_eq hname hf, readAs_of_resolve hname, hv, hoption]
      rfl
  case substituted => exact readAsOr_eq hname hf
  case zero =>
    intro t zero _
    exact readAsOr_eq hname hf t zero

end

/-! ## Reading any name -/

theorem convert_ne_missing (r : Record) (t : Target) (i : Position) (v : Value) (name : String) :
    r.convert t i v ≠ .error (.missing name) := by
  cases hf : r.schema.fields[i.toNat]? with
  | none => simp [convert, Schema.field, Schema.field?, hf, bind, Except.bind]
  | some f =>
    rw [convert_eq hf]
    cases t.read v <;> simp

theorem readAs?_of_unknown (hname : r.schema.resolve name = none) (t : Target) :
    r.readAs? t name = .error (.missing name) := by
  rw [readAs?, Schema.positionOf, hname]
  rfl

theorem readAs_eq_ok_iff (r : Record) (t : Target) (name : String) (x : t.Carrier) :
    r.readAs t name = .ok x ↔ r.readAs? t name = .ok (some x) := by
  rw [readAs]
  cases r.readAs? t name with
  | error failure => simp [bind, Except.bind]
  | ok content => cases content <;> simp [bind, Except.bind, pure, Except.pure]

/-- Reading reports a name as missing exactly if it belongs to no field or to one that is not
assigned. -/
theorem readAs_eq_missing_iff (r : Record) (t : Target) (name : String) :
    r.readAs t name = .error (.missing name) ↔
      ∀ i, r.schema.resolve name = some i → r.get? i = none := by
  cases hname : r.schema.resolve name with
  | none =>
    rw [readAs, readAs?_of_unknown hname]
    simp [bind, Except.bind]
  | some i =>
    rw [readAs_of_resolve hname]
    cases hv : r.get? i with
    | none => simp [hv]
    | some v => simp [hv, convert_ne_missing]

end RecordOf

/-- Typed reads of a record of a compiled schema, whatever has been done to it. Under a name that
stands for a field the optional target of the field's type reads what the field holds and never
fails for its type, nor does reading with a substitute; where the type does not admit null the
target itself reads what is assigned; and no target of another kind reads anything but null. Under
any name, reading gives a content exactly if reading what may be missing gives it, and reports the
name as missing exactly if it stands for no field or for one that is not assigned. Names stand for
the fields of exactly these names, unless a 32-bit id wraps. -/
theorem typed_reads_sound_and_coherent {d : Draft} {s : Schema} (hok : d.compile.result = .ok s)
    (calls : List Call) {r : Record} (hr : r ∈ Call.records s calls) :
    (∀ name i f, s.resolve name = some i → s.fields[i.toNat]? = some f → r.ReadsField name i f) ∧
    (∀ name t, (∀ x, r.readAs t name = .ok x ↔ r.readAs? t name = .ok (some x)) ∧
      (r.readAs t name = .error (.missing name) ↔
        ∀ i, s.resolve name = some i → r.get? i = none)) ∧
    (d.Fits Text.lowercase → ∀ name (i : Position),
      s.resolve name = some i ↔ ∃ f, s.fields[i.toNat]? = some f ∧ f.name = name) := by
  obtain ⟨m, hm, h⟩ := Call.exists_refines (Draft.wf_of_compileFolding hok) hr
  refine ⟨fun name i f hname hf => ?_, fun name t => ⟨fun x => r.readAs_eq_ok_iff t name x, ?_⟩,
    fun hfits => hfits.findsNames hok⟩
  · rw [← h.schema] at hname hf
    refine RecordOf.readsField hname hf fun v hv => ?_
    rw [h.get?_eq] at hv
    obtain ⟨g, hg, haccepts⟩ := Call.maps_typed s calls m hm hv
    rw [h.schema, hg, Option.some.injEq] at hf
    exact hf ▸ haccepts
  · rw [← h.schema]
    exact r.readAs_eq_missing_iff t name

/-- A decimal converted from a text is read as an optional decimal, and not as an integer. -/
theorem typed_reads_of_price :
    match ((Draft.begin .empty).1.fields [("N", .int), ("P", .nullableDecimal)]).compile.result with
    | .ok s => ∃ r ∈ Call.records s [.new, .edit 0 (.setNamed "P" (.text "1.50"))],
        (∃ x, r.readAs (.option .decimal) "P" = .ok x ∧
          (Target.option .decimal).toValue x = .decimal ⟨15, 1⟩) ∧
        r.readAsOr .int (0 : Int64) "P" = .error (.typeMismatch "P" "int" "decimal") ∧
        r.readAs .int "N" = .error (.missing "N")
    | .error _ => False := by
  have hruns : (((Draft.begin .empty).1.fields
      [("N", .int), ("P", .nullableDecimal)]).compile.result.toOption.any fun s =>
        decide (s.resolve "P" = some ⟨1⟩ ∧ s.resolve "N" = some ⟨0⟩ ∧
          (s.fields[(⟨1⟩ : Position).toNat]?.map fun f => (f.name, f.type)) =
            some ("P", .nullableDecimal) ∧
          ∃ r ∈ Call.records s [.new, .edit 0 (.setNamed "P" (.text "1.50"))],
            ((r.get? ⟨1⟩).bind Target.decimal.read : Option Decimal) = some ⟨15, 1⟩ ∧
              (r.get? ⟨0⟩).isNone = true)) = true := by
    decide +kernel
  have ⟨s, hok, hprice, hcount, hfield, r, hr, hheld, hunset⟩ := exists_ok_of_any hruns
  simp only [hok]
  obtain ⟨f, hf, hfEq⟩ := Option.map_eq_some_iff.1 hfield
  obtain ⟨hfName, hfType⟩ := Prod.mk.inj hfEq
  obtain ⟨v, hv, hread⟩ := Option.bind_eq_some_iff.1 hheld
  obtain rfl : .decimal ⟨15, 1⟩ = v := Target.toValue_of_read hread
  obtain ⟨hfields, hnames, -⟩ := typed_reads_sound_and_coherent hok _ hr
  have hreads := hfields _ _ _ hprice hf
  refine ⟨r, hr, ?_, ?_, (hnames "N" .int).2.2 fun i hi => ?_⟩
  · have hoptional := hreads.optional hv
    rwa [hfType] at hoptional
  · have hother : Target.int.base ≠ f.type.target := by
      rw [hfType]
      decide
    have hmismatch := (hreads.mismatch (by decide) hother hv (by simp)).2.2 (0 : Int64)
    rwa [hfName] at hmismatch
  · obtain rfl := Option.some.inj (hcount.symm.trans hi)
    exact Option.isNone_iff_eq_none.1 hunset

/-- Where an id has wrapped, what is assigned to a field can be missing for reads by its name. -/
theorem not_typed_reads_by_name : ∃ s f r, (Draft.crowded 1431655766).compile.result = .ok s ∧
    r ∈ Call.records s [.new, .edit 0 (.set ⟨0⟩ (.int 7))] ∧ s.fields[0]? = some f ∧
      f.type = .int ∧ r.get? ⟨0⟩ = some (.int 7) ∧
        r.readAs .int f.name = .error (.missing f.name) := by
  obtain ⟨s, f, hok, hastray, -, hf, htype⟩ := Draft.exists_astray
  obtain ⟨r, hr, -, hrefines⟩ := Call.exists_record_of_admitted
    (Draft.wf_of_compileFolding hok) (i := ⟨0⟩) hf (Field.admitted_int htype 7)
  refine ⟨s, f, r, hok, hr, hf, htype, ?_, (r.readAs_eq_missing_iff .int f.name).2 fun i hi => ?_⟩
  · rw [hrefines.get?_eq, Finmap.lookup_insert]
  · rw [hrefines.schema, hastray.resolve_name (List.mem_of_getElem? hf)] at hi
    cases hi

end TypedRecords
