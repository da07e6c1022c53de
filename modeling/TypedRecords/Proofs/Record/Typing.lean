import Mathlib.Logic.Relation
import TypedRecords.Proofs.Decimal.Normal
import TypedRecords.Proofs.Record.Contents

/-!
# Well-typed values

Values contain lists and records, and records contain values. A value is well typed if every record
inside it holds for each of its fields a value that the field's type accepts, and every decimal
inside it is normal (`Value.WellTyped`). Whatever fields admit is well typed if the values offered
are, and so is what a session makes, copies, takes apart, offers and edits
(`Session.Reachable.wellTyped`).
-/

namespace TypedRecords

namespace Value

/-- A value or something inside it, at any depth. -/
inductive PartOf : Value → Value → Prop
  | self (v : Value) : PartOf v v
  | item {part v : Value} {items : List Value} :
      v ∈ items → PartOf part v → PartOf part (.list items)
  | slot {part v : Value} {r : Record} : v ∈ r.slots → PartOf part v → PartOf part (.record r)

theorem PartOf.trans {part whole v : Value} (h : PartOf part v) (h' : PartOf v whole) :
    PartOf part whole := by
  induction h' with
  | self => exact h
  | item hmem _ ih => exact .item hmem ih
  | slot hmem _ ih => exact .slot hmem ih

end Value

/-- Every slot holds a value that the type of its field accepts. -/
def RecordOf.Typed (r : Record) : Prop :=
  List.Forall₂ (fun f v => f.type.accepts v = true) r.schema.fields r.slots

theorem RecordOf.Typed.exists_slot {r : Record} (h : r.Typed) {i : Nat} {f : Field}
    (hf : r.schema.fields[i]? = some f) :
    ∃ v, r.slots[i]? = some v ∧ f.type.accepts v = true := by
  have hrel := forall₂_getElem? h i
  rw [hf] at hrel
  cases hslot : r.slots[i]? with
  | none =>
    rw [hslot] at hrel
    cases hrel
  | some v =>
    rw [hslot] at hrel
    cases hrel with
    | some haccepts => exact ⟨v, rfl, haccepts⟩

/-- All records inside hold values of their fields' types, and all decimals inside are normal. -/
structure Value.WellTyped (v : Value) : Prop where
  typed {r : Record} : PartOf (.record r) v → r.Typed
  normal {d : Decimal} : PartOf (.decimal d) v → d.Normal

/-- All records inside a record and the record itself hold values of their fields' types. -/
def RecordOf.WellTyped (r : Record) : Prop := (Value.record r).WellTyped

namespace Value

theorem WellTyped.part {part v : Value} (h : v.WellTyped) (hpart : PartOf part v) :
    part.WellTyped :=
  ⟨fun hr => h.typed (hr.trans hpart), fun hd => h.normal (hd.trans hpart)⟩

theorem wellTyped_decimal {d : Decimal} (h : d.Normal) : (decimal d).WellTyped := by
  constructor
  · intro r hr
    cases hr
  · intro d' hd'
    cases hd'
    exact h

theorem wellTyped_list {items : List Value} (h : ∀ v ∈ items, v.WellTyped) :
    (list items).WellTyped := by
  constructor
  · intro r hr
    cases hr with
    | item hmem hr => exact (h _ hmem).typed hr
  · intro d hd
    cases hd with
    | item hmem hd => exact (h _ hmem).normal hd

theorem wellTyped_record {r : Record} (htyped : r.Typed) (h : ∀ v ∈ r.slots, v.WellTyped) :
    (record r).WellTyped := by
  constructor
  · intro r' hr'
    cases hr' with
    | self => exact htyped
    | slot hmem hr' => exact (h _ hmem).typed hr'
  · intro d hd
    cases hd with
    | slot hmem hd => exact (h _ hmem).normal hd

/-- Values with nothing inside. -/
def isPlain : Value → Bool
  | .decimal _ | .list _ | .record _ => false
  | _ => true

theorem wellTyped_of_isPlain {v : Value} (h : v.isPlain) : v.WellTyped := by
  constructor
  · intro r hr
    cases hr <;> simp [isPlain] at h
  · intro d hd
    cases hd <;> simp [isPlain] at h

theorem wellTyped_default (t : DataType) : (default t).WellTyped := by
  cases t with
  | decimal => exact wellTyped_decimal (Decimal.normal_ofInt 0)
  | _ => exact wellTyped_of_isPlain rfl

/-- The default of a type is of the type. -/
theorem accepts_default (t : DataType) : t.accepts (default t) = true := by
  cases t <;> rfl

theorem normal_of_asDecimal? {v : Value} {d : Decimal} (hv : v.WellTyped)
    (h : v.asDecimal? = some d) : d.Normal := by
  cases v with
  | bool b =>
    obtain rfl := Option.some.inj h
    cases b
    · exact Decimal.normal_ofInt 0
    · exact Decimal.normal_ofInt 1
  | int i =>
    obtain rfl := Option.some.inj h
    exact Decimal.normal_ofInt _
  | float x => exact Decimal.normal_of_ofDouble? h
  | decimal d' =>
    obtain rfl := Option.some.inj h
    exact hv.normal (.self _)
  | text s =>
    rw [asDecimal?] at h
    cases hparse : Decimal.parse s with
    | error e =>
      rw [hparse] at h
      cases h
    | ok d' =>
      rw [hparse] at h
      obtain rfl := Option.some.inj h
      exact Decimal.normal_of_parse hparse
  | _ => cases h

end Value

namespace Field

variable {f : Field} {v w : Value}

theorem convert_eq_ok_iff :
    f.convert v = .ok w ↔ ∃ d : Decimal, v.asDecimal? = some d ∧ w = .decimal d := by
  unfold convert
  cases v.asDecimal? with
  | none => simp
  | some d => simp [eq_comm]

/-- What a field stores is of its type. -/
theorem accepts_of_admitted (h : f.admitted v = .ok w) : f.type.accepts w = true := by
  unfold admitted at h
  split at h
  · next htype =>
    rw [htype]
    split at h
    · obtain rfl := Except.ok.inj h
      rfl
    · obtain ⟨d, -, rfl⟩ := convert_eq_ok_iff.1 h
      rfl
  · next htype =>
    rw [htype]
    split at h
    · obtain rfl := Except.ok.inj h
      rfl
    · obtain ⟨d, -, rfl⟩ := convert_eq_ok_iff.1 h
      rfl
  · split at h
    · next haccepts =>
      obtain rfl := Except.ok.inj h
      exact haccepts
    · cases h

/-- A value of a field's type is stored as it is. -/
theorem admitted_of_accepts (h : f.type.accepts v = true) : f.admitted v = .ok v := by
  unfold admitted
  split
  · next htype =>
    rw [htype] at h
    cases v with
    | decimal d => rfl
    | _ => cases h
  · next htype =>
    rw [htype] at h
    cases v with
    | decimal d => rfl
    | null => rfl
    | _ => cases h
  · rw [if_pos h]

/-- What a field stores is well typed if the value offered is. -/
theorem wellTyped_of_admitted (hv : v.WellTyped) (h : f.admitted v = .ok w) : w.WellTyped := by
  have hconvert (h : f.convert v = .ok w) : w.WellTyped := by
    obtain ⟨d, hd, rfl⟩ := convert_eq_ok_iff.1 h
    exact Value.wellTyped_decimal (Value.normal_of_asDecimal? hv hd)
  unfold admitted at h
  split at h
  · split at h
    · obtain rfl := Except.ok.inj h
      exact Value.wellTyped_decimal (Decimal.normal_ofInt 0)
    · exact hconvert h
  · split at h
    · obtain rfl := Except.ok.inj h
      exact Value.wellTyped_of_isPlain rfl
    · exact hconvert h
  · split at h
    · obtain rfl := Except.ok.inj h
      exact hv
    · cases h

end Field

/-- The value that an edit offers. -/
def Edit.offered? : Edit → Option Value
  | .set _ v | .setNamed _ v => some v
  | .clear _ => none

namespace RecordOf

variable {r r' : Record}

theorem wellTyped_new (s : Schema) : (new s).WellTyped := by
  apply Value.wellTyped_record
  · show List.Forall₂ _ s.fields (s.fields.map _)
    rw [List.forall₂_map_right_iff]
    exact List.forall₂_same.2 fun f _ => Value.accepts_default f.type
  · intro v hv
    obtain ⟨f, -, rfl⟩ := List.mem_map.1 hv
    exact Value.wellTyped_default f.type

/-- Another value of the field's type is put in a slot. -/
theorem WellTyped.put (h : r.WellTyped) {i : Position} {f : Field} (hf : r.schema.field i = .ok f)
    {w : Value} (hw : w.WellTyped) (haccepts : f.type.accepts w = true)
    (presence : List PresenceWord) :
    WellTyped { r with slots := r.slots.set i.toNat w, presence } := by
  have hfield : r.schema.fields[i.toNat]? = some f := by
    unfold Schema.field Schema.field? at hf
    split at hf
    · next heq =>
      obtain rfl := Except.ok.inj hf
      exact heq
    · cases hf
  have hsame : r.schema.fields.set i.toNat f = r.schema.fields := by
    obtain ⟨hlt, rfl⟩ := List.getElem?_eq_some_iff.1 hfield
    exact List.set_getElem_self hlt
  apply Value.wellTyped_record
  · have hset := forall₂_set (h.typed (.self _)) i.toNat haccepts
    rwa [hsame] at hset
  · intro v hv
    rcases List.mem_or_eq_of_mem_set hv with hold | rfl
    · exact h.part (.slot hold (.self v))
    · exact hw

theorem WellTyped.set (h : r.WellTyped) {i : Position} {v : Value} (hv : v.WellTyped)
    (hset : r.set i v = .ok r') : r'.WellTyped := by
  unfold RecordOf.set at hset
  cases hf : r.schema.field i with
  | error e =>
    rw [hf] at hset
    cases hset
  | ok f =>
    simp only [hf, bind, Except.bind] at hset
    cases hw : f.admitted v with
    | error e =>
      rw [hw] at hset
      cases hset
    | ok w =>
      rw [hw] at hset
      obtain rfl := Except.ok.inj hset
      exact h.put hf (Field.wellTyped_of_admitted hv hw) (Field.accepts_of_admitted hw) _

theorem WellTyped.clear (h : r.WellTyped) {i : Position} (hclear : r.clear i = .ok r') :
    r'.WellTyped := by
  unfold RecordOf.clear at hclear
  cases hf : r.schema.field i with
  | error e =>
    rw [hf] at hclear
    cases hclear
  | ok f =>
    rw [hf] at hclear
    obtain rfl := Except.ok.inj hclear
    exact h.put hf (Value.wellTyped_default f.type) (Value.accepts_default f.type) _

theorem WellTyped.edit (h : r.WellTyped) {e : Edit} (he : ∀ v ∈ e.offered?, v.WellTyped)
    (hedit : r.edit e = .ok r') : r'.WellTyped := by
  cases e with
  | set i v => exact h.set (he v rfl) hedit
  | clear i => exact h.clear hedit
  | setNamed name v =>
    rw [RecordOf.edit, setNamed] at hedit
    cases hi : r.schema.positionOf name with
    | error e =>
      rw [hi] at hedit
      cases hedit
    | ok i =>
      rw [hi] at hedit
      exact h.set (he v rfl) hedit

/-- Neither an edit that succeeds nor one that fails leaves anything ill typed. -/
theorem WellTyped.editInPlace (h : r.WellTyped) {e : Edit} (he : ∀ v ∈ e.offered?, v.WellTyped)
    {result : EStateM.Result Failure Record Unit} (hedit : editInPlace e r = result) :
    match result with
    | .ok _ r' | .error _ r' => r'.WellTyped := by
  rw [editInPlace_eq] at hedit
  cases hr' : r.edit e with
  | ok r' =>
    rw [hr'] at hedit
    subst hedit
    exact h.edit he hr'
  | error failure =>
    rw [hr'] at hedit
    subst hedit
    exact h

end RecordOf

/-! ## Sessions -/

/-- The schemas and the records at hand. -/
structure Session where
  schemas : List Schema
  records : List Record

namespace Session

/-- Nothing is at hand. -/
def empty : Session := ⟨[], []⟩

/-- The values that can be offered: values of one's own, lists of values that can be offered, and
copies of records at hand and of anything inside them. -/
inductive Offers (σ : Session) : Value → Prop
  | plain {v : Value} : v.isPlain → σ.Offers v
  | decimal {d : Decimal} : d.Made → σ.Offers (.decimal d)
  | list {items : List Value} : (∀ v ∈ items, σ.Offers v) → σ.Offers (.list items)
  | held {r : Record} {v : Value} : r ∈ σ.records → v.PartOf (.record r) → σ.Offers v

/-- What can be done next. An edit that fails leaves behind whatever record the edit in place has
left. -/
inductive Step (σ : Session) : Session → Prop
  | compile {d : Draft} {s : Schema} : d.compile.result = .ok s →
      σ.Step { σ with schemas := σ.schemas ++ [s] }
  | new {s : Schema} : s ∈ σ.schemas →
      σ.Step { σ with records := σ.records ++ [RecordOf.new s] }
  | create {s : Schema} : s ∈ σ.schemas →
      σ.Step { σ with records := σ.records ++ [(Template.ofSchema s).create] }
  /-- Copies a record or one inside it. -/
  | copy {r r' : Record} : r ∈ σ.records → (Value.record r').PartOf (.record r) →
      σ.Step { σ with records := σ.records ++ [r'] }
  | edit {target : Nat} {r r' : Record} {e : Edit} : σ.records[target]? = some r →
      (∀ v ∈ e.offered?, σ.Offers v) → RecordOf.editInPlace e r = .ok () r' →
        σ.Step { σ with records := σ.records.set target r' }
  | fail {target : Nat} {r r' : Record} {e : Edit} {failure : Failure} :
      σ.records[target]? = some r → (∀ v ∈ e.offered?, σ.Offers v) →
        RecordOf.editInPlace e r = .error failure r' →
          σ.Step { σ with records := σ.records.set target r' }

/-- What any steps from the empty session lead to. -/
def Reachable (σ : Session) : Prop := Relation.ReflTransGen Step .empty σ

/-- All records at hand are well typed. -/
def WellTyped (σ : Session) : Prop := ∀ r ∈ σ.records, r.WellTyped

variable {σ σ' : Session}

section

variable {P : Record → Prop} (h : ∀ r ∈ σ.records, P r) {r : Record} (hr : P r)

include h hr

/-- A property of the records at hand is one of all when a record that has it is added. -/
theorem forall_append : ∀ r' ∈ σ.records ++ [r], P r' :=
  List.forall_mem_append.2 ⟨h, List.forall_mem_singleton.2 hr⟩

/-- It is one of all when a record that has it takes the place of another. -/
theorem forall_replace (target : Nat) : ∀ r' ∈ σ.records.set target r, P r' := by
  intro r' hr'
  rcases List.mem_or_eq_of_mem_set hr' with hold | rfl
  · exact h r' hold
  · exact hr

end

theorem WellTyped.offers (h : σ.WellTyped) {v : Value} (hv : σ.Offers v) : v.WellTyped := by
  induction hv with
  | plain hplain => exact Value.wellTyped_of_isPlain hplain
  | decimal hmade => exact Value.wellTyped_decimal hmade.normal
  | list _ ih => exact Value.wellTyped_list ih
  | held hr hpart => exact Value.WellTyped.part (h _ hr) hpart

/-- One step keeps all records well typed. -/
theorem Step.wellTyped (hstep : σ.Step σ') (h : σ.WellTyped) : σ'.WellTyped := by
  cases hstep with
  | compile _ => exact h
  | new _ => exact forall_append h (RecordOf.wellTyped_new _)
  | create _ => exact forall_append h (RecordOf.wellTyped_new _)
  | copy hr hpart => exact forall_append h (Value.WellTyped.part (h _ hr) hpart)
  | edit hr hoffers hedit =>
    have hwell := h _ (List.mem_of_getElem? hr)
    exact forall_replace h (hwell.editInPlace (fun v hv => h.offers (hoffers v hv)) hedit) _
  | fail hr hoffers hedit =>
    have hwell := h _ (List.mem_of_getElem? hr)
    exact forall_replace h (hwell.editInPlace (fun v hv => h.offers (hoffers v hv)) hedit) _

theorem Reachable.wellTyped (h : σ.Reachable) : σ.WellTyped := by
  induction h with
  | refl =>
    intro r hr
    cases hr
  | tail _ hstep ih => exact hstep.wellTyped ih

end Session

/-! ## What the slots of a session hold -/

/-- A value held with its declared type, or an element at any depth of a list held with the type of
the elements. -/
inductive Value.ElementOf : DataType → Value → DataType → Value → Prop
  | self (t : DataType) (v : Value) : ElementOf t v t v
  | item {t element : DataType} {v item : Value} {items : List Value} : item ∈ items →
      ElementOf t v element item → ElementOf t v (.list element) (.list items)

namespace Value.ElementOf

variable {t held : DataType} {v w : Value}

theorem accepts (h : ElementOf t v held w) (hw : held.accepts w = true) :
    t.accepts v = true := by
  induction h with
  | self => exact hw
  | item hmem _ ih =>
    rw [DataType.accepts, List.all_eq_true] at hw
    exact ih (hw _ hmem)

theorem partOf (h : ElementOf t v held w) : PartOf v w := by
  induction h with
  | self => exact .self _
  | item hmem _ ih => exact .item hmem ih

end Value.ElementOf

namespace DataType

theorem accepts_null (t : DataType) : t.accepts .null = t.allowsNull := by
  cases t <;> rfl

/-- Only decimals and nulls are of a decimal-like type. -/
theorem eq_decimal_of_accepts {t : DataType} {v : Value} (h : t.accepts v = true)
    (ht : t.isConverting = true) :
    (∃ d, v = .decimal d) ∨ t = .nullableDecimal ∧ v = .null := by
  cases t with
  | decimal =>
    cases v with
    | decimal d => exact .inl ⟨d, rfl⟩
    | _ => cases h
  | nullableDecimal =>
    cases v with
    | decimal d => exact .inl ⟨d, rfl⟩
    | null => exact .inr ⟨rfl, rfl⟩
    | _ => cases h
  | _ => cases ht

theorem eq_record_of_accepts {t : DataType} {r : Record} (h : t.accepts (.record r) = true) :
    t = .record r.schema.id := by
  cases t with
  | record id =>
    rw [accepts, beq_iff_eq] at h
    rw [h]
  | _ => cases h

end DataType

/-- Whatever is done in a session, every record at hand and every record inside one has a slot for
each field, which holds a value of the field's type; so do the lists in it for the type of their
elements. Null is held only where the type allows it, a decimal-like type has a normal decimal or,
where null is allowed, null, and a record is of the schema that the type names. -/
theorem reachable_holds_typed_values {σ : Session} (h : σ.Reachable) {r : Record}
    (hr : r ∈ σ.records) {inner : Record} (hinner : (Value.record inner).PartOf (.record r)) :
    inner.slots.length = inner.schema.size ∧
    ∀ (i : Nat) (f : Field), inner.schema.fields[i]? = some f →
      ∃ held, inner.slots[i]? = some held ∧ ∀ t v, Value.ElementOf t v f.type held →
        t.accepts v = true ∧ (v = .null → t.allowsNull = true) ∧
        (t.isConverting = true →
          (∃ d, v = .decimal d ∧ d.Normal) ∨ t = .nullableDecimal ∧ v = .null) ∧
        ∀ r', v = .record r' →
          t = .record r'.schema.id ∧ (Value.record r').PartOf (.record r) := by
  have hwell : (Value.record r).WellTyped := h.wellTyped r hr
  have htyped : inner.Typed := hwell.typed hinner
  refine ⟨htyped.length_eq.symm, fun i f hf => ?_⟩
  obtain ⟨held, hslot, haccepts⟩ := htyped.exists_slot hf
  refine ⟨held, hslot, fun t v helement => ?_⟩
  have hv : t.accepts v = true := helement.accepts haccepts
  have hpart : v.PartOf (.record r) :=
    (helement.partOf.trans (.slot (List.mem_of_getElem? hslot) (.self held))).trans hinner
  refine ⟨hv, ?_, fun ht => ?_, ?_⟩
  · rintro rfl
    rwa [DataType.accepts_null] at hv
  · rcases DataType.eq_decimal_of_accepts hv ht with ⟨d, rfl⟩ | hnull
    · exact .inl ⟨d, rfl, hwell.normal hpart⟩
    · exact .inr hnull
  · rintro r' rfl
    exact ⟨DataType.eq_record_of_accepts hv, hpart⟩

theorem Session.Reachable.set {σ : Session} (h : σ.Reachable) {target : Nat} {r r' : Record}
    (hr : σ.records[target]? = some r) {i : Position} {v : Value} (hv : σ.Offers v)
    (hset : r.set i v = .ok r') :
    Session.Reachable { σ with records := σ.records.set target r' } := by
  have hedit : RecordOf.editInPlace (.set i v) r = .ok () r' := by
    rw [RecordOf.editInPlace_eq, RecordOf.edit, hset]
  refine h.tail (.edit hr ?_ hedit)
  intro w hw
  obtain rfl := Option.mem_some.1 hw
  exact hv

/-- An amount read from a text, in a record offered in a list of lists. -/
theorem reachable_amount_in_lists :
    ∃ (σ : Session) (r inner : Record), σ.Reachable ∧ r ∈ σ.records ∧
      (Value.record inner).PartOf (.record r) ∧ r.schema.id ≠ inner.schema.id ∧
        ∃ f held, inner.schema.fields[0]? = some f ∧ f.type = .decimal ∧
          inner.slots[0]? = some held ∧ ∃ d, held = .decimal d ∧ d.Normal := by
  have hline : ((Draft.begin ⟨0⟩).1.field "Amount" .decimal).compile.result.toOption.map
      (fun s => (s.serial, s.fields)) =
        some (0, [⟨"Amount", .decimal, ⟨0⟩, .none, ⟨0, 0⟩⟩]) := by
    decide +kernel
  have hbill : ((Draft.begin ⟨1⟩).1.field "Lines"
      (.list (.list (.record ⟨0⟩)))).compile.result.toOption.map (fun s => (s.serial, s.fields)) =
        some (1, [⟨"Lines", .list (.list (.record ⟨0⟩)), ⟨0⟩, .none, ⟨0, 0⟩⟩]) := by
    decide +kernel
  obtain ⟨line, hlineOk, hlineEq⟩ := Option.map_eq_some_iff.1 hline
  obtain ⟨bill, hbillOk, hbillEq⟩ := Option.map_eq_some_iff.1 hbill
  rw [Prod.mk.injEq] at hlineEq hbillEq
  have hparse : Decimal.parse "1.50" = .ok ⟨15, 1⟩ := by decide +kernel
  obtain ⟨amount, hamount, hamountSchema⟩ : ∃ amount,
      (RecordOf.new line).set ⟨0⟩ (.text "1.50") = .ok amount ∧ amount.schema = line := by
    refine ⟨(RecordOf.new line).store ⟨0⟩ (.decimal ⟨15, 1⟩), ?_, rfl⟩
    simp [RecordOf.set, RecordOf.new, Schema.field, Schema.field?, hlineEq.2, Position.toNat,
      Field.admitted, Field.convert, Value.isNull, Value.asDecimal?, hparse, Except.toOption, bind,
      Except.bind, pure, Except.pure]
  obtain ⟨lines, hlines, hlinesSchema, hlinesSlots⟩ : ∃ lines,
      (RecordOf.new bill).set ⟨0⟩ (.list [.list [.record amount]]) = .ok lines ∧
        lines.schema = bill ∧ lines.slots = [.list [.list [.record amount]]] := by
    refine ⟨(RecordOf.new bill).store ⟨0⟩ (.list [.list [.record amount]]), ?_, rfl, ?_⟩
    · simp [RecordOf.set, RecordOf.new, Schema.field, Schema.field?, hbillEq.2, Position.toNat,
        Field.admitted, DataType.accepts, Schema.id, SchemaRef.ofSerial, hamountSchema, hlineEq.1,
        bind, Except.bind, pure, Except.pure]
    · simp [RecordOf.store, RecordOf.new, hbillEq.2, Position.toNat]
  have hstart : Session.Reachable ⟨[line, bill], [RecordOf.new line, RecordOf.new bill]⟩ :=
    (((Relation.ReflTransGen.refl.tail (.compile (toOption_eq_some_iff.1 hlineOk))).tail
      (.compile (toOption_eq_some_iff.1 hbillOk))).tail
        (.new List.mem_cons_self)).tail (.new (List.mem_cons_of_mem _ List.mem_cons_self))
  have hread : Session.Reachable ⟨[line, bill], [amount, RecordOf.new bill]⟩ :=
    hstart.set List.getElem?_cons_zero (.plain rfl) hamount
  have hoffer {σ : Session} {v : Value} (hv : σ.Offers v) : σ.Offers (.list [v]) :=
    .list fun w hw => by rwa [List.mem_singleton.1 hw]
  have hnested : Session.Reachable ⟨[line, bill], [amount, lines]⟩ :=
    hread.set (List.getElem?_cons_succ.trans List.getElem?_cons_zero)
      (hoffer (hoffer (.held List.mem_cons_self (.self _)))) hlines
  have hmem : lines ∈ [amount, lines] := List.mem_cons_of_mem _ List.mem_cons_self
  have hpart : (Value.record amount).PartOf (.record lines) :=
    .slot (hlinesSlots ▸ List.mem_cons_self)
      (.item List.mem_cons_self (.item List.mem_cons_self (.self _)))
  have hfield : amount.schema.fields[0]? = some ⟨"Amount", .decimal, ⟨0⟩, .none, ⟨0, 0⟩⟩ := by
    rw [hamountSchema, hlineEq.2]
    rfl
  obtain ⟨held, hheld, htyped⟩ := (reachable_holds_typed_values hnested hmem hpart).2 0 _ hfield
  refine ⟨_, lines, amount, hnested, hmem, hpart, ?_, _, held, hfield, rfl, hheld, ?_⟩
  · rw [hlinesSchema, hamountSchema, Schema.id, Schema.id, hbillEq.1, hlineEq.1]
    decide
  · exact ((htyped _ _ (.self _ _)).2.2.1 rfl).resolve_right fun hnull => by cases hnull.1

end TypedRecords
