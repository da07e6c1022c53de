import TypedRecords.Proofs.Record.Contents
import TypedRecords.Value.Equality

/-!
# Equality of records

A map has one record at most (`Refines.unique`): a record keeps nothing of its history but what is
assigned to its fields. Equality of records compares the slots of all fields, assigned or not. A
slot that is not assigned holds its default, and a default is equal to itself, which a value need
not be. Records are therefore equal exactly if the same fields are assigned, to equal values
(`Refines.equals_iff`).

Whether an edit fails, and what it assigns otherwise, does not depend on the record
(`Contents.after_cases`). So only the edits of a field decide what is assigned to it in the end
(`Contents.lookup_afterAll`), and edits of distinct fields can be reordered.
-/

namespace TypedRecords

/-! ## Equality, slot by slot -/

theorem Value.equals_default (type : DataType) :
    (Value.default type).equals (Value.default type) = true := by
  cases type <;> rfl

theorem Value.equalLists_iff (vs ws : List Value) :
    Value.equalLists vs ws = true ↔ List.Forall₂ (fun v w => v.equals w = true) vs ws := by
  induction vs generalizing ws with
  | nil => cases ws <;> simp [Value.equalLists]
  | cons v vs ih => cases ws <;> simp [Value.equalLists, ih]

theorem RecordOf.equals_iff (a b : Record) :
    a.equals b = true ↔ a.schema.serial = b.schema.serial ∧ a.presence = b.presence ∧
      List.Forall₂ (fun v w => v.equals w = true) a.slots b.slots := by
  rw [RecordOf.equals, Bool.and_eq_true, Bool.and_eq_true, beq_iff_eq, beq_iff_eq,
    Value.equalLists_iff, and_assoc]

namespace Refines

variable {s : Schema} {a b : Record} {m m' : Contents}

theorem presence_eq_iff (ha : Refines s a m) (hb : Refines s b m') :
    a.presence = b.presence ↔ ∀ i, i ∈ m ↔ i ∈ m' := by
  constructor
  · intro hpresence i
    rw [← ha.isAssigned_iff, ← hb.isAssigned_iff, RecordOf.isAssigned_eq, RecordOf.isAssigned_eq,
      hpresence, ha.length_slots, hb.length_slots]
  · intro hmem
    refine PresenceWord.eq_of_hasBit_eq (ha.length_presence.trans hb.length_presence.symm)
      fun n => ?_
    rw [Bool.eq_iff_iff, ha.hasBit_iff, hb.hasBit_iff]
    simp only [hmem]

/-- Every slot has a position, and its content is decided by what is assigned there. -/
theorem forall₂_slots_iff (ha : Refines s a m) (hb : Refines s b m') (hwf : s.WF)
    {R : Value → Value → Prop} :
    List.Forall₂ R a.slots b.slots ↔ ∀ (i : Position) (f : Field), s.fields[i.toNat]? = some f →
      R ((m.lookup i).getD (Value.default f.type)) ((m'.lookup i).getD (Value.default f.type)) := by
  constructor
  · intro hslots i f hf
    have hrel := forall₂_getElem? hslots i.toNat
    rw [ha.slot hf, hb.slot hf] at hrel
    cases hrel with
    | some hR => exact hR
  · intro hR
    refine List.forall₂_iff_get.2 ⟨ha.length_slots.trans hb.length_slots.symm, fun n hn hn' => ?_⟩
    have hsize : n < s.size := ha.length_slots ▸ hn
    obtain ⟨i, rfl⟩ : ∃ i : Position, i.toNat = n :=
      ⟨_, Position.toNat_ofNat (Nat.lt_of_lt_of_le hsize hwf.size_le)⟩
    have hf := List.getElem?_eq_getElem hsize
    have hslot := ha.slot hf
    have hslot' := hb.slot hf
    rw [List.getElem?_eq_getElem hn, Option.some.injEq] at hslot
    rw [List.getElem?_eq_getElem hn', Option.some.injEq] at hslot'
    rw [List.get_eq_getElem, List.get_eq_getElem, hslot, hslot']
    exact hR i _ hf

/-- A map has one record at most. -/
theorem unique (ha : Refines s a m) (hb : Refines s b m) (hwf : s.WF) : a = b := by
  have hpresence : a.presence = b.presence := (ha.presence_eq_iff hb).2 fun _ => Iff.rfl
  have hslots : a.slots = b.slots := by
    rw [← List.forall₂_eq_eq_eq, ha.forall₂_slots_iff hb hwf]
    exact fun _ _ _ => rfl
  cases a
  cases b
  exact congr (congrArg₂ RecordOf.mk (ha.schema.trans hb.schema.symm) hslots) hpresence

/-- Records are equal exactly if the same fields are assigned, to equal values. -/
theorem equals_iff (ha : Refines s a m) (hb : Refines s b m') (hwf : s.WF) :
    a.equals b = true ↔
      ∀ i, Option.Rel (fun v w => v.equals w = true) (m.lookup i) (m'.lookup i) := by
  rw [RecordOf.equals_iff, ha.schema, hb.schema, ha.presence_eq_iff hb,
    ha.forall₂_slots_iff hb hwf]
  constructor
  · rintro ⟨-, hmem, hslots⟩ i
    by_cases hi : i ∈ m
    · obtain ⟨v, hv⟩ := Finmap.mem_iff.1 hi
      obtain ⟨w, hw⟩ := Finmap.mem_iff.1 ((hmem i).1 hi)
      have hequal := hslots i _ (List.getElem?_eq_getElem (ha.lt_size hi))
      rw [hv, hw] at hequal ⊢
      exact .some hequal
    · rw [Finmap.lookup_eq_none.2 hi, Finmap.lookup_eq_none.2 (mt (hmem i).2 hi)]
      exact .none
  · intro hrel
    refine ⟨rfl, fun i => ?_, fun i f _ => ?_⟩
    · rw [← Finmap.lookup_isSome, ← Finmap.lookup_isSome]
      generalize m.lookup i = v?, m'.lookup i = w?, hrel i = hrel
      cases hrel <;> simp
    · generalize m.lookup i = v?, m'.lookup i = w?, hrel i = hrel
      cases hrel with
      | none =>
        -- assigned in neither record: both slots hold the default
        exact Value.equals_default f.type
      | some hequal => exact hequal

end Refines

/-! ## Edits of distinct fields -/

/-- The position of the field that an edit is about. -/
def Edit.position? (s : Schema) : Edit → Option Position
  | .set i _ | .clear i => some i
  | .setNamed name _ => s.resolve name

/-- Where two edits of distinct fields are exchanged, every field has its edits in the same
order. -/
theorem Edit.filter_exchange {s : Schema} {e e' : Edit} (h : e.position? s ≠ e'.position? s)
    (earlier later : List Edit) (i : Position) :
    (earlier ++ e :: e' :: later).filter (fun e => e.position? s = some i) =
      (earlier ++ e' :: e :: later).filter fun e => e.position? s = some i := by
  rw [List.filter_append, List.filter_append]
  refine congrArg _ ?_
  by_cases he : e.position? s = some i
  · have he' : e'.position? s ≠ some i := fun heq => h (he.trans heq.symm)
    simp [he, he']
  · simp [List.filter_cons, he]

/-- The record that an edit in place leaves behind, whether it fails or not. -/
def RecordOf.after (r : Record) (e : Edit) : Record :=
  match RecordOf.editInPlace e r with
  | .ok _ r' => r'
  | .error _ r' => r'

/-- The record that edits in place leave behind, one after the other. -/
def RecordOf.afterAll (r : Record) (es : List Edit) : Record := es.foldl RecordOf.after r

namespace Contents

variable (s : Schema)

/-- What an edit leaves of the map; one that fails leaves it as it was. -/
def after (m : Contents) (e : Edit) : Contents :=
  match m.edit s e with
  | .ok m' => m'
  | .error _ => m

def afterAll (m : Contents) (es : List Edit) : Contents := es.foldl (after s) m

theorem after_set_cases (i : Position) (v : Value) :
    (∀ m, after s m (.set i v) = m) ∨ ∃ w, ∀ m, after s m (.set i v) = m.insert i w := by
  simp only [after, edit, set]
  cases s.fields[i.toNat]? with
  | none => exact .inl fun _ => rfl
  | some f =>
    dsimp only
    cases f.admitted v with
    | error failure => exact .inl fun _ => rfl
    | ok w => exact .inr ⟨w, fun _ => rfl⟩

/-- An edit does the same to all maps: it fails, or it assigns a value to its field, or it takes the
assignment back. -/
theorem after_cases (e : Edit) :
    (∀ m, after s m e = m) ∨ ∃ i, e.position? s = some i ∧
      ((∃ w, ∀ m, after s m e = m.insert i w) ∨ ∀ m, after s m e = m.erase i) := by
  cases e with
  | set i v => exact (after_set_cases s i v).imp_right fun hw => ⟨i, rfl, .inl hw⟩
  | setNamed name v =>
    cases hname : s.resolve name with
    | none => exact .inl fun m => by simp only [after, edit, hname]
    | some i =>
      have hafter (m : Contents) : after s m (.setNamed name v) = after s m (.set i v) := by
        simp only [after, edit, hname]
      simp only [hafter]
      exact (after_set_cases s i v).imp_right fun hw => ⟨i, hname, .inl hw⟩
  | clear i =>
    simp only [after, edit, clear]
    cases s.fields[i.toNat]? with
    | none => exact .inl fun _ => rfl
    | some f => exact .inr ⟨i, rfl, .inr fun _ => rfl⟩

section

variable {s} {e : Edit} {i : Position} {m m' : Contents}

/-- An edit leaves the other fields alone. -/
theorem lookup_after_of_ne (he : e.position? s ≠ some i) : (after s m e).lookup i = m.lookup i := by
  rcases after_cases s e with hfail | ⟨j, hj, ⟨w, hset⟩ | hclear⟩
  · rw [hfail]
  · have hij : i ≠ j := fun heq => he (heq ▸ hj)
    rw [hset, Finmap.lookup_insert_of_ne _ hij]
  · have hij : i ≠ j := fun heq => he (heq ▸ hj)
    rw [hclear, Finmap.lookup_erase_ne hij]

/-- What an edit leaves at a position does not depend on the other fields. -/
theorem lookup_after_congr (h : m.lookup i = m'.lookup i) :
    (after s m e).lookup i = (after s m' e).lookup i := by
  by_cases he : e.position? s = some i
  · rcases after_cases s e with hfail | ⟨j, hj, ⟨w, hset⟩ | hclear⟩
    · rw [hfail, hfail, h]
    · obtain rfl : j = i := Option.some.inj (hj.symm.trans he)
      rw [hset, hset, Finmap.lookup_insert, Finmap.lookup_insert]
    · obtain rfl : j = i := Option.some.inj (hj.symm.trans he)
      rw [hclear, hclear, Finmap.lookup_erase, Finmap.lookup_erase]
  · rw [lookup_after_of_ne he, lookup_after_of_ne he, h]

/-- Only the edits of a field decide what is assigned to it in the end. -/
theorem lookup_afterAll (h : m.lookup i = m'.lookup i) (es : List Edit) :
    (afterAll s m es).lookup i =
      (afterAll s m' (es.filter fun e => e.position? s = some i)).lookup i := by
  -- two maps, as an edit of another field is left out on one side only
  induction es generalizing m m' with
  | nil => exact h
  | cons e es ih =>
    by_cases he : e.position? s = some i
    · rw [List.filter_cons_of_pos (by simpa using he)]
      exact ih (lookup_after_congr h)
    · rw [List.filter_cons_of_neg (by simpa using he)]
      exact ih ((lookup_after_of_ne he).trans h)

/-- The order in which distinct fields are edited is of no account. -/
theorem afterAll_eq_of_filter_eq {es es' : List Edit}
    (h : ∀ i, es.filter (fun e => e.position? s = some i) =
      es'.filter fun e => e.position? s = some i) : afterAll s m es = afterAll s m es' := by
  refine Finmap.ext_lookup fun i => ?_
  rw [lookup_afterAll rfl, h, ← lookup_afterAll rfl]

/-- Clearing all assigned fields leaves nothing. -/
theorem afterAll_clear {fields : List Position} (hmem : ∀ i ∈ m, i ∈ fields)
    (hlt : ∀ i ∈ m, i.toNat < s.size) : afterAll s m (fields.map .clear) = ∅ := by
  induction fields generalizing m with
  | nil =>
    refine Finmap.ext_lookup fun i => ?_
    exact Finmap.lookup_eq_none.2 fun hi => absurd (hmem i hi) List.not_mem_nil
  | cons j fields ih =>
    rw [List.map_cons, afterAll, List.foldl_cons, after, edit, clear]
    cases hf : s.fields[j.toNat]? with
    | none =>
      -- clearing fails, and nothing can be assigned there
      refine ih (fun i hi => (List.mem_cons.1 (hmem i hi)).resolve_left ?_) hlt
      rintro rfl
      exact Nat.not_lt.2 (List.getElem?_eq_none_iff.1 hf) (hlt i hi)
    | some f =>
      refine ih (fun i hi => ?_) fun i hi => hlt i (Finmap.mem_erase.1 hi).2
      obtain ⟨hne, hi⟩ := Finmap.mem_erase.1 hi
      exact (List.mem_cons.1 (hmem i hi)).resolve_left hne

end
end Contents

namespace Refines

variable {s : Schema} {r : Record} {m : Contents}

theorem after (h : Refines s r m) (hwf : s.WF) (e : Edit) :
    Refines s (r.after e) (Contents.after s m e) := by
  have hedit := h.edit hwf e
  rw [RecordOf.after, RecordOf.editInPlace_eq, Contents.after]
  cases hact : m.edit s e with
  | ok m' =>
    rw [hact] at hedit
    obtain ⟨r', hr', hrefines⟩ := hedit
    rwa [hr']
  | error failure =>
    rw [hact] at hedit
    rwa [hedit]

theorem afterAll (h : Refines s r m) (hwf : s.WF) (es : List Edit) :
    Refines s (r.afterAll es) (Contents.afterAll s m es) := by
  induction es generalizing r m with
  | nil => exact h
  | cons e es ih => exact ih (h.after hwf e)

end Refines

/-! ## Records without history -/

/-- Records of a compiled schema, however they were made, copied and edited, are equal exactly if
at every position both have nothing assigned, or both have equal values. Clearing the assigned
fields of a record gives back the blank record, slot by slot and bit by bit; in particular a record
with nothing assigned is the blank one. Lists of edits that hold, for every field, the same edits
of it in the same order leave the same record, whichever of them fail. -/
theorem records_keep_no_history {d : Draft} {s : Schema} (hok : d.compile.result = .ok s)
    {calls calls' : List Call} {a b : Record} (ha : a ∈ Call.records s calls)
    (hb : b ∈ Call.records s calls') :
    (a.equals b = true ↔
      ∀ i, Option.Rel (fun v w => v.equals w = true) (a.get? i) (b.get? i)) ∧
    (∀ fields : List Position, (∀ i, a.isAssigned i = true → i ∈ fields) →
      a.afterAll (fields.map .clear) = RecordOf.new s) ∧
    (∀ es es' : List Edit,
      (∀ i, es.filter (fun e => e.position? s = some i) =
        es'.filter fun e => e.position? s = some i) → a.afterAll es = a.afterAll es') := by
  have hwf : s.WF := Draft.wf_of_compileFolding hok
  obtain ⟨m, -, hm⟩ := Call.exists_refines hwf ha
  obtain ⟨m', -, hm'⟩ := Call.exists_refines hwf hb
  refine ⟨?_, fun fields hfields => ?_, fun es es' hes => ?_⟩
  · simp only [hm.get?_eq, hm'.get?_eq]
    exact hm.equals_iff hm' hwf
  · have hclear := hm.afterAll hwf (fields.map .clear)
    rw [Contents.afterAll_clear (fun i hi => hfields i ((hm.isAssigned_iff i).2 hi))
      fun i hi => hm.lt_size hi] at hclear
    exact hclear.unique (.new s) hwf
  · have hafter := hm.afterAll hwf es
    rw [Contents.afterAll_eq_of_filter_eq hes] at hafter
    exact hafter.unique (hm.afterAll hwf es') hwf

/-- A field that was assigned, cleared and refused a value is as if it had never been touched. -/
theorem records_keep_no_history_of_refusal :
    match ((Draft.begin .empty).1.fields [("a", .text), ("b", .int)]).compile.result with
    | .ok s => ∃ a ∈ Call.records s [.new, .edit 0 (.setNamed "b" (.int 7)),
          .edit 0 (.set ⟨0⟩ (.text "x")), .edit 0 (.clear ⟨0⟩), .edit 0 (.set ⟨0⟩ (.int 1))],
        ∃ b ∈ Call.records s [.create, .edit 0 (.set ⟨1⟩ (.int 7))],
          (∀ i, Option.Rel (fun v w => v.equals w = true) (a.get? i) (b.get? i)) ∧
          a.afterAll [.clear ⟨0⟩, .clear ⟨1⟩] = RecordOf.new s ∧
          a.afterAll [.set ⟨0⟩ .null, .clear ⟨1⟩] = a.afterAll [.clear ⟨1⟩, .set ⟨0⟩ .null]
    | .error _ => False := by
  have hruns : (((Draft.begin .empty).1.fields
      [("a", .text), ("b", .int)]).compile.result.toOption.any fun s =>
        decide (∃ a ∈ Call.records s [.new, .edit 0 (.setNamed "b" (.int 7)),
            .edit 0 (.set ⟨0⟩ (.text "x")), .edit 0 (.clear ⟨0⟩), .edit 0 (.set ⟨0⟩ (.int 1))],
          ∃ b ∈ Call.records s [.create, .edit 0 (.set ⟨1⟩ (.int 7))],
            a.equals b = true ∧ a.slots.length = 2)) = true := by
    decide +kernel
  have ⟨s, hok, a, ha, b, hb, hequal, hlength⟩ := exists_ok_of_any hruns
  simp only [hok]
  obtain ⟨hsame, hclear, horder⟩ := records_keep_no_history hok ha hb
  refine ⟨a, ha, b, hb, hsame.1 hequal, hclear [⟨0⟩, ⟨1⟩] fun i hi => ?_,
    horder _ _ (Edit.filter_exchange (by simp [Edit.position?]) [] [])⟩
  rw [RecordOf.isAssigned_eq, Bool.and_eq_true, decide_eq_true_iff, hlength] at hi
  have hlt : i.toNat = 0 ∨ i.toNat = 1 := by omega
  rw [List.mem_pair]
  exact hlt.imp (fun h => Position.toNat_inj.1 h) fun h => Position.toNat_inj.1 h

end TypedRecords
