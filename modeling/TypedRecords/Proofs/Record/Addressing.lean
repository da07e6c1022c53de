import TypedRecords.Proofs.Record.Admission

/-!
# Addresses of presence bits

Compiling a schema hands out a presence bit to every field, and the field keeps its address; a
record works out from the field's position where the bit lies. Both are the same
(`Draft.compile_addresses_agree`), and no record ever lacks the word: whatever is done in a session,
the records at hand and the records inside them keep the words and slots that they began with
(`Session.Reachable.throughout`).
-/

namespace TypedRecords

/-! ## What edits change -/

theorem Value.not_partOf_default {r : Record} (t : DataType) :
    ¬ (Value.record r).PartOf (Value.default t) := by
  intro h
  cases t <;> cases h

/-- A record inside what a field stores is inside the value offered. -/
theorem Field.partOf_of_admitted {f : Field} {v w : Value} {r : Record}
    (hw : f.admitted v = .ok w) (hr : (Value.record r).PartOf w) : (Value.record r).PartOf v := by
  cases hconverting : f.type.isConverting with
  | false =>
    rw [admitted_of_not_isConverting hconverting] at hw
    split at hw
    · obtain rfl := Except.ok.inj hw
      exact hr
    · cases hw
  | true =>
    -- a decimal-like field stores decimals and nulls only
    rcases DataType.eq_decimal_of_accepts (accepts_of_admitted hw) hconverting with
      ⟨d, rfl⟩ | ⟨-, rfl⟩ <;> cases hr

namespace RecordOf

/-- A value is put in one slot, and there are as many words as before. A record inside that value is
inside the value offered. -/
def Alters (offered? : Option Value) (r r' : Record) : Prop :=
  ∃ (i : Nat) (w : Value) (presence : List PresenceWord),
    r' = { r with slots := r.slots.set i w, presence } ∧
    presence.length = r.presence.length ∧
    ∀ inner, (Value.record inner).PartOf w → ∃ v ∈ offered?, (Value.record inner).PartOf v

variable {r r' : Record}

theorem alters_of_set {i : Position} {v : Value} (h : r.set i v = .ok r') :
    Alters (some v) r r' := by
  unfold RecordOf.set at h
  cases hf : r.schema.field i with
  | error e => simp [hf, bind, Except.bind] at h
  | ok f =>
    simp only [hf, bind, Except.bind] at h
    cases hw : f.admitted v with
    | error e => simp [hw] at h
    | ok w =>
      rw [hw] at h
      obtain rfl := Except.ok.inj h
      exact ⟨i.toNat, w, _, rfl, List.length_modify .., fun inner hinner =>
        ⟨v, rfl, Field.partOf_of_admitted hw hinner⟩⟩

theorem alters_of_clear {i : Position} (h : r.clear i = .ok r') : Alters none r r' := by
  unfold RecordOf.clear at h
  cases hf : r.schema.field i with
  | error e => simp [hf, bind, Except.bind] at h
  | ok f =>
    rw [hf] at h
    obtain rfl := Except.ok.inj h
    exact ⟨i.toNat, Value.default f.type, _, rfl, List.length_modify .., fun inner hinner =>
      (Value.not_partOf_default f.type hinner).elim⟩

/-- What an edit that succeeds does. -/
theorem alters_of_edit {e : Edit} (h : r.edit e = .ok r') : Alters e.offered? r r' := by
  cases e with
  | set i v => exact alters_of_set h
  | clear i => exact alters_of_clear h
  | setNamed name v =>
    rw [edit, setNamed] at h
    cases hi : r.schema.positionOf name with
    | error e => simp [hi, bind, Except.bind] at h
    | ok i =>
      rw [hi] at h
      exact alters_of_set h

/-- As many presence words and slots as the schema asks for. -/
structure Shaped (r : Record) : Prop where
  words : r.presence.length = r.schema.words
  slots : r.slots.length = r.schema.size

theorem shaped_new (s : Schema) : (new s).Shaped :=
  ⟨List.length_replicate .., List.length_map ..⟩

theorem Shaped.edit (h : r.Shaped) {e : Edit} (hedit : r.edit e = .ok r') : r'.Shaped := by
  obtain ⟨i, w, presence, rfl, hlength, -⟩ := alters_of_edit hedit
  exact ⟨hlength.trans h.words, (List.length_set ..).trans h.slots⟩

end RecordOf

/-! ## Records inside records -/

/-- Every record inside a value has the property. -/
def Value.Throughout (P : Record → Prop) (v : Value) : Prop :=
  ∀ r, (Value.record r).PartOf v → P r

namespace Session

/-- Every record inside a record at hand has the property. -/
def Throughout (P : Record → Prop) (σ : Session) : Prop :=
  ∀ r ∈ σ.records, (Value.record r).Throughout P

variable {P : Record → Prop} {σ σ' : Session}

theorem Throughout.offers (h : σ.Throughout P) {v : Value} (hv : σ.Offers v) : v.Throughout P := by
  intro r hr
  induction hv with
  | plain hplain => cases hr <;> simp [Value.isPlain] at hplain
  | decimal _ => cases hr
  | list _ ih =>
    cases hr with
    | item hmem hr => exact ih _ hmem hr
  | held hmem hpart => exact h _ hmem r (hr.trans hpart)

section

variable (hnew : ∀ s, P (.new s))
  (hedit : ∀ {r r' : Record} {e : Edit}, P r → r.edit e = .ok r' → P r')

include hnew in
theorem throughout_new (s : Schema) : (Value.record (.new s)).Throughout P := by
  intro r hr
  cases hr with
  | self => exact hnew s
  | slot hmem hr =>
    obtain ⟨f, -, rfl⟩ := List.mem_map.1 hmem
    exact (Value.not_partOf_default f.type hr).elim

include hedit in
/-- Neither an edit that succeeds nor one that fails leaves a record without the property. -/
theorem Throughout.editInPlace (h : σ.Throughout P) {r : Record} (hr : r ∈ σ.records) {e : Edit}
    (he : ∀ v ∈ e.offered?, σ.Offers v) {result : EStateM.Result Failure Record Unit}
    (hresult : RecordOf.editInPlace e r = result) :
    match result with
    | .ok _ r' | .error _ r' => (Value.record r').Throughout P := by
  rw [RecordOf.editInPlace_eq] at hresult
  cases hr' : r.edit e with
  | error failure =>
    rw [hr'] at hresult
    subst hresult
    exact h r hr
  | ok r' =>
    rw [hr'] at hresult
    subst hresult
    intro inner hinner
    have hself : P r' := hedit (h r hr r (.self _)) hr'
    obtain ⟨i, w, presence, rfl, -, hinside⟩ := RecordOf.alters_of_edit hr'
    cases hinner with
    | self => exact hself
    | slot hmem hinner =>
      rcases List.mem_or_eq_of_mem_set hmem with hold | rfl
      · exact h r hr inner (hinner.trans (.slot hold (.self _)))
      · obtain ⟨v, hv, hpart⟩ := hinside inner hinner
        exact h.offers (he v hv) inner hpart

include hnew hedit

/-- One step keeps the property. -/
theorem Step.throughout (hstep : σ.Step σ') (h : σ.Throughout P) : σ'.Throughout P := by
  cases hstep with
  | compile _ => exact h
  | new _ => exact forall_append h (throughout_new hnew _)
  | create _ => exact forall_append h (throughout_new hnew _)
  | copy hr hpart => exact forall_append h fun inner hinner => h _ hr inner (hinner.trans hpart)
  | edit hr hoffers hresult =>
    exact forall_replace h (h.editInPlace hedit (List.mem_of_getElem? hr) hoffers hresult) _
  | fail hr hoffers hresult =>
    exact forall_replace h (h.editInPlace hedit (List.mem_of_getElem? hr) hoffers hresult) _

/-- What holds of blank records and is kept by edits holds of every record inside one at hand,
whatever was done. -/
theorem Reachable.throughout (h : σ.Reachable) : σ.Throughout P := by
  induction h with
  | refl =>
    intro r hr
    cases hr
  | tail _ hstep ih => exact hstep.throughout hnew hedit ih

end

end Session

/-! ## Addresses -/

namespace Schema.WF

variable {s : Schema}

theorem address_eq (h : s.WF) {i : Nat} {f : Field} (hf : s.fields[i]? = some f) :
    f.address = ⟨i / Position.wordWidth, i % Position.wordWidth⟩ := by
  rw [h.address (List.mem_of_getElem? hf), Position.word, Position.bit, h.position hf]

theorem map_address (h : s.WF) : s.fields.map (·.address) =
    (List.range' 0 s.size).map fun n => ⟨n / Position.wordWidth, n % Position.wordWidth⟩ := by
  refine List.ext_getElem (by simp [size]) fun i hi _ => ?_
  rw [List.length_map] at hi
  rw [List.getElem_map, List.getElem_map, List.getElem_range',
    h.address_eq (List.getElem?_eq_getElem hi), Nat.zero_add, Nat.one_mul]

/-- The fields have the addresses that the supply hands out, and their words are all it opens. -/
theorem takeMany_size (h : s.WF) : (BitSupply.empty.takeMany s.size).1 = s.fields.map (·.address) ∧
    (BitSupply.empty.takeMany s.size).2.words = s.words := by
  have hempty : BitSupply.empty = .after 0 := rfl
  rw [hempty, BitSupply.takeMany_after, h.map_address, h.words, Nat.zero_add]
  exact ⟨rfl, rfl⟩

/-- No two fields share a bit. -/
theorem nodup_address (h : s.WF) : (s.fields.map (·.address)).Nodup := by
  rw [h.map_address]
  refine List.Nodup.map (fun m n heq => ?_) List.nodup_range'
  rw [BitAddress.mk.injEq] at heq
  rw [← Nat.div_add_mod m Position.wordWidth, heq.1, heq.2, Nat.div_add_mod]

end Schema.WF

/-- A record of the schema has the word of a field's address, and the field is assigned if its bit
is set there. -/
theorem RecordOf.Shaped.exists_word {r : Record} (h : r.Shaped) (hwf : r.schema.WF) {f : Field}
    (hf : f ∈ r.schema.fields) : ∃ word, r.presence[f.address.word]? = some word ∧
      r.isAssigned f.position = word.contains f.address.bit := by
  obtain ⟨i, hi, rfl⟩ := List.getElem_of_mem hf
  have hposition := hwf.position (List.getElem?_eq_getElem hi)
  have hword : r.schema.fields[i].position.word < r.presence.length := by
    have hsize : i < r.schema.size := hi
    rw [h.words, hwf.words, Position.word, hposition]
    simp only [Position.wordWidth]
    omega
  have hslot : r.schema.fields[i].position.toNat < r.slots.length := by
    rwa [h.slots, hposition]
  rw [hwf.address hf]
  exact ⟨_, List.getElem?_eq_getElem hword, by simp [isAssigned, hword, hslot]⟩

namespace Draft

/-- Every field of a compiled schema has the presence bit of its position's number, which is the one
that the supply hands out in its turn and the one that a record looks at; no two fields share one.
There are just enough words. Whatever is done in a session, the records at hand and those inside
them have as many words, a slot for every field, and every field's bit at the field's address. -/
theorem compile_addresses_agree {d : Draft} {s : Schema} (hok : d.compile.result = .ok s) :
    s.size ≤ UInt32.size ∧
    (∀ (i : Nat) (f : Field), s.fields[i]? = some f → f.position.toNat = i ∧
      f.address = ⟨i / 32, i % 32⟩ ∧ f.address = ⟨f.position.word, f.position.bit⟩) ∧
    (BitSupply.empty.takeMany s.size).1 = s.fields.map (·.address) ∧
    (BitSupply.empty.takeMany s.size).2.words = s.words ∧
    (s.fields.map (·.address)).Nodup ∧
    s.words = (s.size + 31) / 32 ∧
    ∀ σ : Session, σ.Reachable → ∀ r ∈ σ.records, ∀ inner : Record,
      (Value.record inner).PartOf (.record r) → inner.schema = s →
      inner.presence.length = s.words ∧ inner.slots.length = s.size ∧
      ∀ f ∈ s.fields, ∃ word, inner.presence[f.address.word]? = some word ∧
        inner.isAssigned f.position = word.contains f.address.bit := by
  have hwf : s.WF := wf_of_compileFolding hok
  obtain ⟨hhanded, hopened⟩ := hwf.takeMany_size
  refine ⟨hwf.size_le, fun i f hf => ?_, hhanded, hopened, hwf.nodup_address, hwf.words, ?_⟩
  · exact ⟨hwf.position hf, hwf.address_eq hf, hwf.address (List.mem_of_getElem? hf)⟩
  · rintro σ hreachable r hr inner hinner rfl
    have hshaped : inner.Shaped :=
      hreachable.throughout RecordOf.shaped_new (fun h => h.edit) r hr inner hinner
    exact ⟨hshaped.words, hshaped.slots, fun f hf => hshaped.exists_word hwf hf⟩

/-- The last of 33 fields is assigned, whose bit is the first one of a second word. -/
theorem compile_addresses_agree_second_word :
    ∃ (s : Schema) (σ : Session) (r : Record) (f : Field) (word : PresenceWord),
      ((Draft.begin .empty).1.fields ((List.range 33).map fun i =>
        (String.singleton (Char.ofNat (48 + i)), .int))).compile.result = .ok s ∧
      σ.Reachable ∧ r ∈ σ.records ∧ s.fields[32]? = some f ∧ f.address = ⟨1, 0⟩ ∧
      r.presence.length = 2 ∧ r.slots.length = 33 ∧ r.isAssigned ⟨32⟩ = true ∧
      r.presence[1]? = some word ∧ word.contains 0 = true := by
  have hruns : (((Draft.begin .empty).1.fields ((List.range 33).map fun i =>
      (String.singleton (Char.ofNat (48 + i)), .int))).compile.result.toOption.any fun s =>
        decide (s.size = 33 ∧ s.fields[32]?.map (·.type) = some .int)) = true := by
    decide +kernel
  obtain ⟨s, hok, hsize, htype⟩ := exists_ok_of_any hruns
  obtain ⟨f, hf, htype⟩ := Option.map_eq_some_iff.1 htype
  obtain ⟨-, haddress, -, -, -, hwords, hrecords⟩ := compile_addresses_agree hok
  rw [hsize] at hwords
  have hset : (RecordOf.new s).set ⟨32⟩ (.int 7) = .ok ((RecordOf.new s).store ⟨32⟩ (.int 7)) := by
    have hfield : (RecordOf.new s).schema.field ⟨32⟩ = .ok f := by
      simp [Schema.field, Schema.field?, RecordOf.new, Position.toNat, hf]
    have hadmitted : f.admitted (.int 7) = .ok (.int 7) := Field.admitted_of_accepts (htype ▸ rfl)
    simp only [RecordOf.set, hfield, hadmitted, bind, Except.bind]
    rfl
  have hstart : Session.Reachable ⟨[s], [RecordOf.new s]⟩ :=
    (Relation.ReflTransGen.refl.tail (.compile hok)).tail (.new List.mem_cons_self)
  have hstored := hstart.set List.getElem?_cons_zero (.plain rfl) hset
  have hassigned : ((RecordOf.new s).store ⟨32⟩ (.int 7)).isAssigned ⟨32⟩ = true := by
    have hslots : s.fields.length = 33 := hsize
    have hinsert : (PresenceWord.empty.insert 0).contains 0 = true := by decide
    simp [RecordOf.isAssigned, RecordOf.store, RecordOf.new, hwords, hslots, hinsert, Position.word,
      Position.bit, Position.toNat, Position.wordWidth]
  obtain ⟨hposition, haddress, -⟩ := haddress 32 f hf
  obtain ⟨hlength, hslots, hbits⟩ :=
    hrecords _ hstored _ List.mem_cons_self _ (.self _) rfl
  obtain ⟨word, hword, hbit⟩ := hbits f (List.mem_of_getElem? hf)
  rw [haddress] at hword hbit
  have hplace : f.position = ⟨32⟩ := by
    rw [← Position.toNat_inj, hposition]
    rfl
  rw [hplace, hassigned] at hbit
  exact ⟨s, _, _, f, word, hok, hstored, List.mem_cons_self, hf, haddress, hlength.trans hwords,
    hslots.trans hsize, hassigned, hword, hbit.symm⟩

end Draft
end TypedRecords
