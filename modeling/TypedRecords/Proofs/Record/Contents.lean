import Mathlib.Data.Finmap
import TypedRecords.Proofs.Lists
import TypedRecords.Proofs.Schema.Wrapping
import TypedRecords.Record.Basic

/-!
# Records as partial maps

A record stands for the map from positions to the values assigned there (`Refines`): a slot holds
the assigned value or the default of its type, and the presence bits are the domain of the map.
Edits of the record at hand do what the same edits do to the map, and one that fails leaves the
record as it was (`Refines.edit`). Records of one schema that are made, copied and edited in any
order therefore answer like their maps (`records_answer_as_maps`).
-/

namespace TypedRecords

/-- What is assigned to the fields of a record. -/
abbrev Contents := Finmap fun _ : Position => Value

/-- An edit of a record. -/
inductive Edit where
  | set (position : Position) (v : Value)
  | setNamed (name : String) (v : Value)
  | clear (position : Position)

namespace Contents

variable (s : Schema) (m : Contents)

/-- Assigns what the field at a position admits. -/
def set (i : Position) (v : Value) : Except Failure Contents :=
  match s.fields[i.toNat]? with
  | none => .error (.positionOutOfRange i s.size)
  | some f =>
    match f.admitted v with
    | .error failure => .error failure
    | .ok w => .ok (m.insert i w)

/-- Takes an assignment back. -/
def clear (i : Position) : Except Failure Contents :=
  match s.fields[i.toNat]? with
  | none => .error (.positionOutOfRange i s.size)
  | some _ => .ok (m.erase i)

/-- What an edit does to the map. -/
def edit : Edit → Except Failure Contents
  | .set i v => set s m i v
  | .setNamed name v =>
    match s.resolve name with
    | none => .error (.missing name)
    | some i => set s m i v
  | .clear i => clear s m i

end Contents

/-! ## Edits in place -/

namespace RecordOf

/-- Assignment as a procedure that edits the record at hand. What it has changed when it fails
stays changed. -/
def setInPlace (i : Position) (v : Value) : EStateM Failure Record Unit := do
  let field ← MonadExcept.ofExcept ((← getThe Record).schema.field i)
  let w ← MonadExcept.ofExcept (field.admitted v)
  modify fun r => { r with slots := r.slots.set i.toNat w }
  modify fun r => { r with presence := r.presence.modify i.word (·.insert i.bit) }

/-- Clearing as a procedure that edits the record at hand. -/
def clearInPlace (i : Position) : EStateM Failure Record Unit := do
  let field ← MonadExcept.ofExcept ((← getThe Record).schema.field i)
  modify fun r => { r with slots := r.slots.set i.toNat (Value.default field.type) }
  modify fun r => { r with presence := r.presence.modify i.word (·.erase i.bit) }

/-- An edit as a procedure that edits the record at hand. -/
def editInPlace : Edit → EStateM Failure Record Unit
  | .set i v => setInPlace i v
  | .setNamed name v => do
    let i ← MonadExcept.ofExcept ((← getThe Record).schema.positionOf name)
    setInPlace i v
  | .clear i => clearInPlace i

/-- What an edit makes of a record. -/
def edit (r : Record) : Edit → Except Failure Record
  | .set i v => r.set i v
  | .setNamed name v => r.setNamed name v
  | .clear i => r.clear i

/-- Reading the record at hand leaves it there. -/
theorem getThe_run (r : Record) : (getThe Record : EStateM Failure Record Record) r = .ok r r :=
  rfl

theorem setInPlace_eq (i : Position) (v : Value) (r : Record) :
    setInPlace i v r = match r.set i v with
      | .ok r' => .ok () r'
      | .error failure => .error failure r := by
  simp only [setInPlace, set, getThe_run, bind, EStateM.bind, Except.bind]
  cases r.schema.field i with
  | error failure => rfl
  | ok field =>
    simp only [MonadExcept.ofExcept, pure, EStateM.pure]
    cases field.admitted v <;> rfl

theorem clearInPlace_eq (i : Position) (r : Record) :
    clearInPlace i r = match r.clear i with
      | .ok r' => .ok () r'
      | .error failure => .error failure r := by
  simp only [clearInPlace, clear, getThe_run, bind, EStateM.bind, Except.bind]
  cases r.schema.field i <;> rfl

/-- A failed edit leaves the record at hand as it was. -/
theorem editInPlace_eq (e : Edit) (r : Record) :
    editInPlace e r = match r.edit e with
      | .ok r' => .ok () r'
      | .error failure => .error failure r := by
  cases e with
  | set i v => exact setInPlace_eq i v r
  | clear i => exact clearInPlace_eq i r
  | setNamed name v =>
    simp only [editInPlace, edit, setNamed, getThe_run, bind, EStateM.bind, Except.bind]
    cases r.schema.positionOf name with
    | error failure => rfl
    | ok i => exact setInPlace_eq i v r

theorem setNamed_of_unknown {r : Record} {name : String} (hname : r.schema.resolve name = none)
    (v : Value) : r.setNamed name v = .error (.missing name) := by
  rw [setNamed, Schema.positionOf, hname]
  rfl

theorem isAssigned_eq {α : Type} (r : RecordOf α) (i : Position) :
    r.isAssigned i =
      (PresenceWord.hasBit r.presence i.toNat && decide (i.toNat < r.slots.length)) := by
  unfold isAssigned PresenceWord.hasBit Position.word Position.bit
  cases r.presence[i.toNat / Position.wordWidth]? <;> rfl

end RecordOf

/-! ## Refinement -/

/-- A record of the schema `s` to whose fields exactly `m` is assigned. -/
structure Refines (s : Schema) (r : Record) (m : Contents) : Prop where
  schema : r.schema = s
  length_slots : r.slots.length = s.size
  length_presence : r.presence.length = s.words
  slot {i : Position} {f : Field} : s.fields[i.toNat]? = some f →
    r.slots[i.toNat]? = some ((m.lookup i).getD (Value.default f.type))
  hasBit_iff (n : Nat) : PresenceWord.hasBit r.presence n = true ↔ ∃ i ∈ m, i.toNat = n
  lt_size {i : Position} : i ∈ m → i.toNat < s.size

namespace Refines

variable {s : Schema}

theorem new (s : Schema) : Refines s (RecordOf.new s) ∅ where
  schema := rfl
  length_slots := by simp [RecordOf.new, Schema.size]
  length_presence := by simp [RecordOf.new]
  slot hf := by simp [RecordOf.new, hf]
  hasBit_iff n := by
    rw [RecordOf.new, PresenceWord.hasBit_replicate_empty]
    constructor
    · intro hbit
      cases hbit
    · rintro ⟨i, hi, -⟩
      exact absurd hi Finmap.notMem_empty
  lt_size hi := absurd hi Finmap.notMem_empty

variable {r : Record} {m : Contents} (h : Refines s r m)

include h in
theorem isAssigned_iff (i : Position) : r.isAssigned i = true ↔ i ∈ m := by
  rw [RecordOf.isAssigned_eq, Bool.and_eq_true, h.hasBit_iff, decide_eq_true_iff, h.length_slots]
  constructor
  · rintro ⟨⟨j, hj, hij⟩, -⟩
    rwa [← Position.toNat_inj.1 hij]
  · intro hi
    exact ⟨⟨i, hi, rfl⟩, h.lt_size hi⟩

include h in
theorem slot_eq {i : Position} {f : Field} (hf : s.fields[i.toNat]? = some f) :
    r.slot i = (m.lookup i).getD (Value.default f.type) := by
  rw [RecordOf.slot, List.getD_eq_getElem?_getD, h.slot hf, Option.getD_some]

include h in
theorem field_eq (i : Position) : r.schema.field i = match s.fields[i.toNat]? with
    | some f => .ok f
    | none => .error (.positionOutOfRange i s.size) := by
  rw [h.schema]
  rfl

section

variable (hwf : s.WF)

include h hwf

/-- The words have a bit for every position of the schema. -/
theorem lt_bits {i : Position} (hi : i.toNat < s.size) :
    i.toNat < r.presence.length * Position.wordWidth := by
  rw [h.length_presence]
  exact Nat.lt_of_lt_of_le hi hwf.size_le_words

/-- Assigning a value to a field of the schema. -/
theorem store {i : Position} (hi : i.toNat < s.size) (w : Value) :
    Refines s (r.store i w) (m.insert i w) := by
  refine ⟨h.schema, ?_, ?_, ?_, ?_, ?_⟩
  · rw [RecordOf.store, List.length_set]
    exact h.length_slots
  · rw [RecordOf.store, List.length_modify]
    exact h.length_presence
  · intro j f hf
    rw [RecordOf.store, List.getElem?_set]
    by_cases hij : i = j
    · subst hij
      rw [if_pos rfl, if_pos (h.length_slots ▸ hi), Finmap.lookup_insert, Option.getD_some]
    · rw [if_neg (fun heq => hij (Position.toNat_inj.1 heq)), h.slot hf,
        Finmap.lookup_insert_of_ne _ (Ne.symm hij)]
  · intro n
    rw [RecordOf.store, Position.word, Position.bit,
      PresenceWord.hasBit_modify_insert (h.lt_bits hwf hi), Bool.or_eq_true, decide_eq_true_iff,
      h.hasBit_iff]
    constructor
    · rintro (rfl | ⟨j, hj, rfl⟩)
      · exact ⟨i, Finmap.mem_insert.2 (.inl rfl), rfl⟩
      · exact ⟨j, Finmap.mem_insert.2 (.inr hj), rfl⟩
    · rintro ⟨j, hj, rfl⟩
      rcases Finmap.mem_insert.1 hj with rfl | hj
      · exact .inl rfl
      · exact .inr ⟨j, hj, rfl⟩
  · intro j hj
    rcases Finmap.mem_insert.1 hj with rfl | hj
    · exact hi
    · exact h.lt_size hj

/-- Taking an assignment back. -/
theorem erase {i : Position} {f : Field} (hf : s.fields[i.toNat]? = some f) :
    Refines s
      { r with
        slots := r.slots.set i.toNat (Value.default f.type)
        presence := r.presence.modify i.word (·.erase i.bit) } (m.erase i) := by
  have hi : i.toNat < s.size := (List.getElem?_eq_some_iff.1 hf).1
  refine ⟨h.schema, ?_, ?_, ?_, ?_, ?_⟩
  · rw [List.length_set]
    exact h.length_slots
  · rw [List.length_modify]
    exact h.length_presence
  · intro j g hg
    rw [List.getElem?_set]
    by_cases hij : i = j
    · subst hij
      obtain rfl : f = g := Option.some.inj (hf.symm.trans hg)
      rw [if_pos rfl, if_pos (h.length_slots ▸ hi), Finmap.lookup_erase, Option.getD_none]
    · rw [if_neg (fun heq => hij (Position.toNat_inj.1 heq)), h.slot hg,
        Finmap.lookup_erase_ne (Ne.symm hij)]
  · intro n
    rw [Position.word, Position.bit, PresenceWord.hasBit_modify_erase (h.lt_bits hwf hi),
      Bool.and_eq_true, h.hasBit_iff]
    simp only [Bool.not_eq_true', decide_eq_false_iff_not, Finmap.mem_erase]
    constructor
    · rintro ⟨hne, j, hj, rfl⟩
      exact ⟨j, ⟨fun hji => hne (congrArg _ hji), hj⟩, rfl⟩
    · rintro ⟨j, ⟨hne, hj⟩, rfl⟩
      exact ⟨fun heq => hne (Position.toNat_inj.1 heq), j, hj, rfl⟩
  · intro j hj
    exact h.lt_size (Finmap.mem_erase.1 hj).2

theorem set (i : Position) (v : Value) :
    match m.set s i v with
    | .ok m' => ∃ r', r.set i v = .ok r' ∧ Refines s r' m'
    | .error failure => r.set i v = .error failure := by
  rw [RecordOf.set, h.field_eq, Contents.set]
  cases hf : s.fields[i.toNat]? with
  | none => rfl
  | some f =>
    simp only [bind, Except.bind, pure, Except.pure]
    cases f.admitted v with
    | error failure => rfl
    | ok w => exact ⟨r.store i w, rfl, h.store hwf (List.getElem?_eq_some_iff.1 hf).1 w⟩

theorem clear (i : Position) :
    match m.clear s i with
    | .ok m' => ∃ r', r.clear i = .ok r' ∧ Refines s r' m'
    | .error failure => r.clear i = .error failure := by
  rw [RecordOf.clear, h.field_eq, Contents.clear]
  cases hf : s.fields[i.toNat]? with
  | none => rfl
  | some f => exact ⟨_, rfl, h.erase hwf hf⟩

/-- An edit of a record is the same edit of the map it refines. -/
theorem edit (e : Edit) :
    match m.edit s e with
    | .ok m' => ∃ r', r.edit e = .ok r' ∧ Refines s r' m'
    | .error failure => r.edit e = .error failure := by
  cases e with
  | set i v => exact h.set hwf i v
  | clear i => exact h.clear hwf i
  | setNamed name v =>
    rw [RecordOf.edit, RecordOf.setNamed, Schema.positionOf, h.schema, Contents.edit]
    cases s.resolve name with
    | none => rfl
    | some i => exact h.set hwf i v

end
end Refines

/-! ## What a record answers -/

/-- The answers of a record of the schema `s` are those of the map `m`. -/
structure Answers (s : Schema) (r : Record) (m : Contents) : Prop where
  get? (i : Position) : r.get? i = m.lookup i
  isAssigned (i : Position) : r.isAssigned i = true ↔ i ∈ m
  get (i : Position) : r.get i = match s.fields[i.toNat]? with
    | some f => .ok ((m.lookup i).getD (Value.default f.type))
    | none => .error (.positionOutOfRange i s.size)
  contains (name : String) :
    r.contains name = true ↔ ∃ i, s.resolve name = some i ∧ i ∈ m
  getNamed? (name : String) : r.getNamed? name = match s.resolve name with
    | some i => .ok (m.lookup i)
    | none => .error (.missing name)
  getNamed (name : String) : r.getNamed name = match (s.resolve name).bind m.lookup with
    | some v => .ok v
    | none => .error (.missing name)
  bit (word bit : Nat) : bit < Position.wordWidth →
    ((∃ w, r.presence[word]? = some w ∧ w.contains bit = true) ↔
      ∃ i ∈ m, i.toNat = Position.wordWidth * word + bit)
  size : r.size = m.keys.card

namespace Refines

variable {s : Schema} {r : Record} {m : Contents} (h : Refines s r m)

include h

theorem get?_eq (i : Position) : r.get? i = m.lookup i := by
  rw [RecordOf.get?]
  by_cases hi : i ∈ m
  · obtain ⟨v, hv⟩ := Finmap.mem_iff.1 hi
    have hf := List.getElem?_eq_getElem (h.lt_size hi)
    rw [if_pos ((h.isAssigned_iff i).2 hi), h.slot_eq hf, hv, Option.getD_some]
  · rw [if_neg (mt (h.isAssigned_iff i).1 hi), Finmap.lookup_eq_none.2 hi]

theorem getNamed?_eq (name : String) : r.getNamed? name = match s.resolve name with
    | some i => .ok (m.lookup i)
    | none => .error (.missing name) := by
  rw [RecordOf.getNamed?, Schema.positionOf, h.schema]
  cases s.resolve name with
  | none => rfl
  | some i => exact congrArg Except.ok (h.get?_eq i)

/-- A record has as many assigned fields as its map has entries. -/
theorem size_eq : r.size = m.keys.card := by
  -- the members of the set of bits are the positions in the domain of the map
  have himage :
      (PresenceWord.members r.presence).toFinset = m.keys.image Position.toNat := by
    ext n
    simp only [List.mem_toFinset, PresenceWord.mem_members, Finset.mem_image, Finmap.mem_keys,
      h.hasBit_iff]
  rw [RecordOf.size, PresenceWord.sum_size_eq,
    ← List.toFinset_card_of_nodup (PresenceWord.nodup_members _), himage]
  exact Finset.card_image_of_injective _ fun i j hij => Position.toNat_inj.1 hij

theorem answers : Answers s r m where
  get? := h.get?_eq
  isAssigned := h.isAssigned_iff
  get i := by
    rw [RecordOf.get, h.field_eq]
    cases hf : s.fields[i.toNat]? with
    | none => rfl
    | some f => exact congrArg Except.ok (h.slot_eq hf)
  contains name := by
    rw [RecordOf.contains, h.schema]
    cases s.resolve name with
    | none => simp
    | some i => simp [h.isAssigned_iff]
  getNamed? := h.getNamed?_eq
  getNamed name := by
    rw [RecordOf.getNamed, h.getNamed?_eq]
    cases s.resolve name with
    | none => rfl
    | some i =>
      simp only [bind, Except.bind, Option.bind_some]
      cases m.lookup i <;> rfl
  bit word bit hbit := by
    rw [← h.hasBit_iff, PresenceWord.hasBit_mul_add _ hbit]
    cases r.presence[word]? <;> simp
  size := h.size_eq

end Refines

/-! ## Records made, copied and edited -/

/-- A call on the records made so far, which are numbered in the order in which they were made. -/
inductive Call where
  | new
  | create
  | copy (source : Nat)
  | edit (target : Nat) (e : Edit)

namespace Call

/-- The records after a call, and its failure. An edit that fails leaves behind whatever record the
edit in place has left. -/
def perform (s : Schema) (records : List Record) : Call → List Record × Option Failure
  | .new => (records ++ [RecordOf.new s], none)
  | .create => (records ++ [(Template.ofSchema s).create], none)
  | .copy source => (records ++ records[source]?.toList, none)
  | .edit target e =>
    match records[target]? with
    | none => (records, none)
    | some r =>
      match RecordOf.editInPlace e r with
      | .ok _ r' => (records.set target r', none)
      | .error failure r' => (records.set target r', some failure)

/-- The maps after a call, and its failure. -/
def act (s : Schema) (maps : List Contents) : Call → List Contents × Option Failure
  | .new | .create => (maps ++ [∅], none)
  | .copy source => (maps ++ maps[source]?.toList, none)
  | .edit target e =>
    match maps[target]? with
    | none => (maps, none)
    | some m =>
      match m.edit s e with
      | .ok m' => (maps.set target m', none)
      | .error failure => (maps, some failure)

/-- The records after calls in order. -/
def records (s : Schema) (calls : List Call) : List Record :=
  calls.foldl (fun records c => (c.perform s records).1) []

/-- The maps after calls in order. -/
def maps (s : Schema) (calls : List Call) : List Contents :=
  calls.foldl (fun maps c => (c.act s maps).1) []

variable {s : Schema} {rs : List Record} {ms : List Contents}

/-- A call on records does to them what it does to their maps, fails for the same cause, and changes
nothing when it fails. -/
theorem perform_refines (hwf : s.WF) (h : List.Forall₂ (Refines s) rs ms) (c : Call) :
    List.Forall₂ (Refines s) (c.perform s rs).1 (c.act s ms).1 ∧
      (c.perform s rs).2 = (c.act s ms).2 ∧
      ((c.perform s rs).2 ≠ none → (c.perform s rs).1 = rs ∧ (c.act s ms).1 = ms) := by
  cases c with
  | new => exact ⟨List.rel_append h (.cons (.new s) .nil), rfl, fun hne => absurd rfl hne⟩
  | create => exact ⟨List.rel_append h (.cons (.new s) .nil), rfl, fun hne => absurd rfl hne⟩
  | copy source =>
    refine ⟨List.rel_append h ?_, rfl, fun hne => absurd rfl hne⟩
    generalize rs[source]? = r?, ms[source]? = m?, forall₂_getElem? h source = hrel
    cases hrel with
    | none => exact .nil
    | some hrefines => exact .cons hrefines .nil
  | edit target e =>
    -- both sides know the target or neither does
    have hrel := forall₂_getElem? h target
    simp only [perform, act, RecordOf.editInPlace_eq]
    cases hr : rs[target]? with
    | none =>
      rw [hr] at hrel
      cases hm : ms[target]? with
      | some m => rw [hm] at hrel; cases hrel
      | none => exact ⟨h, rfl, fun hne => absurd rfl hne⟩
    | some r =>
      rw [hr] at hrel
      cases hm : ms[target]? with
      | none => rw [hm] at hrel; cases hrel
      | some m =>
        rw [hm] at hrel
        cases hrel with
        | some hrefines =>
          have hedit := hrefines.edit hwf e
          cases hact : m.edit s e with
          | ok m' =>
            rw [hact] at hedit
            obtain ⟨r', hr', hrefines'⟩ := hedit
            simpa [hr', hact] using forall₂_set h target hrefines'
          | error failure =>
            rw [hact] at hedit
            obtain ⟨hlt, rfl⟩ := List.getElem?_eq_some_iff.1 hr
            simpa [hedit, hact] using h

/-- After any calls the records refine their maps. -/
theorem records_refine (hwf : s.WF) (calls : List Call) :
    List.Forall₂ (Refines s) (records s calls) (maps s calls) := by
  induction calls using List.reverseRecOn with
  | nil => exact .nil
  | append_singleton calls c ih =>
    rw [records, maps, List.foldl_append, List.foldl_append]
    exact (perform_refines hwf ih c).1

theorem exists_refines (hwf : s.WF) {calls : List Call} {r : Record} (hr : r ∈ records s calls) :
    ∃ m ∈ maps s calls, Refines s r m :=
  forall₂_mem_left (records_refine hwf calls) hr

/-- One assignment to a new record, of a value that the field takes. -/
theorem exists_record_of_admitted (hwf : s.WF) {i : Position} {f : Field}
    (hf : s.fields[i.toNat]? = some f) {v w : Value} (hadmitted : f.admitted v = .ok w) :
    ∃ r, r ∈ records s [.new, .edit 0 (.set i v)] ∧ (RecordOf.new s).set i v = .ok r ∧
      Refines s r ((∅ : Contents).insert i w) := by
  have hrefines := (Refines.new s).set hwf i v
  simp only [Contents.set, hf, hadmitted] at hrefines
  obtain ⟨r, hset, h⟩ := hrefines
  refine ⟨r, ?_, hset, h⟩
  simp [records, perform, RecordOf.editInPlace_eq, RecordOf.edit, hset]

end Call

/-- Records of a compiled schema are partial maps from its positions to values. Whatever calls make,
copy and edit them, every record answers as its own map; the next call fails exactly if it fails on
the maps, for the same cause, and then leaves all records and maps as they were. Names stand for
the positions that the schema resolves them to, which are those of the fields of exactly these
names unless a 32-bit id wraps. -/
theorem records_answer_as_maps {d : Draft} {s : Schema} (hok : d.compile.result = .ok s)
    (calls : List Call) :
    List.Forall₂ (Answers s) (Call.records s calls) (Call.maps s calls) ∧
    (∀ c : Call, (c.perform s (Call.records s calls)).2 = (c.act s (Call.maps s calls)).2 ∧
      ((c.perform s (Call.records s calls)).2 ≠ none →
        (c.perform s (Call.records s calls)).1 = Call.records s calls ∧
          (c.act s (Call.maps s calls)).1 = Call.maps s calls)) ∧
    (d.Fits Text.lowercase → ∀ name (i : Position),
      s.resolve name = some i ↔ ∃ f, s.fields[i.toNat]? = some f ∧ f.name = name) := by
  have hwf : s.WF := Draft.wf_of_compileFolding hok
  have hrefines := Call.records_refine hwf calls
  refine ⟨hrefines.imp fun r m h => h.answers, fun c => ?_, fun hfits => hfits.findsNames hok⟩
  exact (Call.perform_refines hwf hrefines c).2

/-- A copy keeps what was assigned before it was made, and nothing that happens later. -/
theorem copy_answers_as_map :
    match ((Draft.begin .empty).1.fields [("a", .text), ("b", .int)]).compile.result with
    | .ok s => (Call.records s [.new, .edit 0 (.set ⟨0⟩ .null), .copy 0, .edit 0 (.clear ⟨0⟩),
        .edit 1 (.set ⟨2⟩ .null), .edit 1 (.setNamed "b" (.int 7))]).map RecordOf.size = [0, 2]
    | .error _ => False := by
  have hruns : (((Draft.begin .empty).1.fields
      [("a", .text), ("b", .int)]).compile.result.toOption.any fun s =>
        decide ((Call.maps s [.new, .edit 0 (.set ⟨0⟩ .null), .copy 0, .edit 0 (.clear ⟨0⟩),
          .edit 1 (.set ⟨2⟩ .null), .edit 1 (.setNamed "b" (.int 7))]).map (·.keys.card) =
            [0, 2])) = true := by
    decide +kernel
  have ⟨s, hok, hmaps⟩ := exists_ok_of_any hruns
  simp only [hok]
  rw [← hmaps, ← List.forall₂_eq_eq_eq, List.forall₂_map_left_iff, List.forall₂_map_right_iff]
  exact (records_answer_as_maps hok _).1.imp fun r m h => h.size

theorem Field.admitted_int {f : Field} (h : f.type = .int) (n : Int64) :
    f.admitted (.int n) = .ok (.int n) := by
  simp [admitted, h, DataType.accepts]

/-- Where an id has wrapped, a field takes a value by its position that it does not take by its
name, and what it holds is not found by its name either. -/
theorem not_answers_by_name : ∃ s f r, (Draft.crowded 1431655766).compile.result = .ok s ∧
    s.fields[0]? = some f ∧ (RecordOf.new s).set ⟨0⟩ (.int 7) = .ok r ∧
      (RecordOf.new s).setNamed f.name (.int 7) = .error (.missing f.name) ∧
        r.get? ⟨0⟩ = some (.int 7) ∧ r.getNamed? f.name = .error (.missing f.name) := by
  obtain ⟨s, f, hok, hastray, -, hf, htype⟩ := Draft.exists_astray
  obtain ⟨r, -, hset, hrefines⟩ := Call.exists_record_of_admitted
    (Draft.wf_of_compileFolding hok) (i := ⟨0⟩) hf (Field.admitted_int htype 7)
  have hname := hastray.resolve_name (List.mem_of_getElem? hf)
  refine ⟨s, f, r, hok, hf, hset, RecordOf.setNamed_of_unknown hname _, ?_, ?_⟩
  · rw [hrefines.get?_eq, Finmap.lookup_insert]
  · rw [hrefines.getNamed?_eq, hname]

end TypedRecords
