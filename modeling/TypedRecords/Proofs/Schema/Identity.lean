import TypedRecords.Proofs.Schema.Merging
import TypedRecords.Record.Basic

/-!
# Identity of schemas

Types refer to a schema by the low 32 bits of its serial number. Drafts take consecutive numbers,
compiled or not, so the ids of the drafts of a process are distinct exactly as long as there are at
most 2^32 of them (`Draft.ids_identify_schemas`). The draft after that has the id of the first one
again, and a record of its schema is taken for a record of the first (`Draft.not_ids_identify`).
-/

namespace TypedRecords

theorem SchemaRef.ofSerial_eq_iff {m n : Nat} :
    ofSerial m = ofSerial n ↔ m % UInt32.size = n % UInt32.size := by
  rw [ofSerial, ofSerial, SchemaRef.mk.injEq, ← UInt32.toNat_inj, UInt32.toNat_ofNat',
    UInt32.toNat_ofNat']

/-- A record type admits null and the records of schemas with its id. -/
theorem DataType.accepts_record_iff {id : SchemaRef} {v : Value} :
    (DataType.record id).accepts v = true ↔
      v = .null ∨ ∃ r, v = .record r ∧ r.schema.id = id := by
  cases v <;> simp [DataType.accepts, DataType.allowsNull, DataType.holdsReference]

namespace Draft

/-- The drafts begun one after the other, each with its calls. -/
def beginAll (supply : SchemaSupply) : List (List Call) → List Draft
  | [] => []
  | calls :: later => ofCalls supply calls :: beginAll (begin supply).2 later

/-- The schemas of the drafts that compile. -/
def compiled (drafts : List Draft) : List Schema :=
  drafts.filterMap fun d => d.compile.result.toOption

/-! ## Serial numbers -/

theorem getElem?_beginAll (supply : SchemaSupply) (runs : List (List Call)) (k : Nat) :
    (beginAll supply runs)[k]? = runs[k]?.map (ofCalls ⟨supply.issued + k⟩) := by
  induction runs generalizing supply k with
  | nil => rfl
  | cons calls later ih =>
    cases k with
    | zero => rfl
    | succ k =>
      rw [beginAll, List.getElem?_cons_succ, List.getElem?_cons_succ, ih]
      simp only [begin, SchemaSupply.take, Nat.add_assoc, Nat.add_comm 1 k]

/-- The drafts of a process are numbered in order. -/
theorem map_serial_beginAll (supply : SchemaSupply) (runs : List (List Call)) :
    (beginAll supply runs).map (·.serial) = List.range' supply.issued runs.length := by
  induction runs generalizing supply with
  | nil => rfl
  | cons calls later ih =>
    rw [beginAll, List.map_cons, ih, List.length_cons, List.range'_succ, ofCalls_eq]
    rfl

/-- Ids are repeated exactly if more drafts are begun than there are ids. -/
theorem nodup_ids_iff (runs : List (List Call)) :
    ((beginAll .empty runs).map Draft.id).Nodup ↔ runs.length ≤ UInt32.size := by
  have hids : (beginAll .empty runs).map Draft.id =
      (List.range runs.length).map SchemaRef.ofSerial := by
    have hserials : (beginAll .empty runs).map (·.serial) = List.range runs.length := by
      rw [map_serial_beginAll, List.range_eq_range']
      rfl
    rw [← hserials, List.map_map]
    rfl
  rw [hids]
  constructor
  · intro hnodup
    by_contra hlong
    have hlong : UInt32.size < runs.length := Nat.lt_of_not_le hlong
    -- the number after the last id gets the first one again
    have hzero := List.inj_on_of_nodup_map hnodup (List.mem_range.2 (Nat.zero_lt_of_lt hlong))
      (List.mem_range.2 hlong) (SchemaRef.ofSerial_eq_iff.2 (by rw [Nat.mod_self, Nat.zero_mod]))
    exact absurd hzero (by decide)
  · intro hlen
    refine List.Nodup.map_on (fun m hm n hn hid => ?_) List.nodup_range
    rw [SchemaRef.ofSerial_eq_iff, Nat.mod_eq_of_lt (Nat.lt_of_lt_of_le (List.mem_range.1 hm) hlen),
      Nat.mod_eq_of_lt (Nat.lt_of_lt_of_le (List.mem_range.1 hn) hlen)] at hid
    exact hid

/-! ## Schemas -/

theorem serial_of_compile {d : Draft} {s : Schema} (h : d.compile.result = .ok s) :
    s.serial = d.serial := by
  obtain ⟨a, -, rfl⟩ := compileFolding_eq_ok h
  rfl

theorem mem_compiled {drafts : List Draft} {s : Schema} :
    s ∈ compiled drafts ↔ ∃ d ∈ drafts, d.compile.result = .ok s := by
  rw [compiled, List.mem_filterMap]
  simp only [toOption_eq_some_iff]

theorem mem_compiled_beginAll {supply : SchemaSupply} {runs : List (List Call)} {k : Nat}
    {calls : List Call} (hrun : runs[k]? = some calls) {s : Schema}
    (hs : (ofCalls ⟨supply.issued + k⟩ calls).compile.result.toOption = some s) :
    s ∈ compiled (beginAll supply runs) := by
  refine List.mem_filterMap.2 ⟨ofCalls ⟨supply.issued + k⟩ calls, ?_, hs⟩
  exact List.mem_of_getElem? (by rw [getElem?_beginAll, hrun, Option.map_some])

/-- Schemas of drafts with distinct ids have distinct ids. -/
theorem eq_of_id_eq {drafts : List Draft} (hnodup : (drafts.map Draft.id).Nodup) {s s' : Schema}
    (hs : s ∈ compiled drafts) (hs' : s' ∈ compiled drafts) (hid : s.id = s'.id) : s = s' := by
  obtain ⟨d, hd, hok⟩ := mem_compiled.1 hs
  obtain ⟨d', hd', hok'⟩ := mem_compiled.1 hs'
  have hids : d.id = d'.id := by
    rw [Draft.id, Draft.id, ← serial_of_compile hok, ← serial_of_compile hok']
    exact hid
  obtain rfl := List.inj_on_of_nodup_map hnodup hd hd' hids
  exact Except.ok.inj (hok.symm.trans hok')

/-- At most 2^32 drafts have distinct ids, and then an id belongs to one schema: its record type
admits null and the records of this schema alone. With more drafts ids are repeated. -/
theorem ids_identify_schemas (runs : List (List Call)) :
    (((beginAll .empty runs).map Draft.id).Nodup ↔ runs.length ≤ UInt32.size) ∧
    (runs.length ≤ UInt32.size → ∀ s ∈ compiled (beginAll .empty runs),
      (∀ s' ∈ compiled (beginAll .empty runs), s'.id = s.id → s' = s) ∧
      ∀ v, (∀ r, v = .record r → r.schema ∈ compiled (beginAll .empty runs)) →
        ((DataType.record s.id).accepts v = true ↔
          v = .null ∨ ∃ r, v = .record r ∧ r.schema = s)) := by
  refine ⟨nodup_ids_iff runs, fun hlen s hs => ?_⟩
  have hnodup := (nodup_ids_iff runs).2 hlen
  refine ⟨fun s' hs' hid => eq_of_id_eq hnodup hs' hs hid, fun v hv => ?_⟩
  rw [DataType.accepts_record_iff]
  refine or_congr_right (exists_congr fun r => and_congr_right fun hr => ?_)
  exact ⟨fun hid => eq_of_id_eq hnodup (hv r hr) hs hid, fun hschema => by rw [hschema]⟩

/-- Four drafts, one of which does not compile. -/
theorem ids_identify_three_schemas :
    (compiled (beginAll .empty [[.field "A" .int], [.field "" .int], [.field "B" .text], []])).map
        (·.id) = [⟨0⟩, ⟨2⟩, ⟨3⟩] ∧
      ∀ s ∈ compiled (beginAll .empty
        [[.field "A" .int], [.field "" .int], [.field "B" .text], []]),
      ∀ s' ∈ compiled (beginAll .empty
        [[.field "A" .int], [.field "" .int], [.field "B" .text], []]),
        s' ≠ s → (DataType.record s.id).accepts (.record (RecordOf.new s')) = false := by
  refine ⟨by decide +kernel, fun s hs s' hs' hne => ?_⟩
  have hids := ids_identify_schemas
    [[.field "A" .int], [.field "" .int], [.field "B" .text], []]
  have haccepts := (hids.2 (by decide) s hs).2 (.record (RecordOf.new s')) fun r hr => by
    cases hr
    exact hs'
  rw [← Bool.not_eq_true, haccepts]
  rintro (hnull | ⟨r, hr, hschema⟩)
  · cases hnull
  · cases hr
    exact hne hschema

/-- Two schemas and 2^32 - 1 drafts without calls between them. -/
theorem not_ids_identify :
    ¬((beginAll .empty ([.field "A" .int] ::
        (List.replicate (UInt32.size - 1) [] ++ [[.field "B" .text]]))).map Draft.id).Nodup ∧
      ∃ s ∈ compiled (beginAll .empty ([.field "A" .int] ::
          (List.replicate (UInt32.size - 1) [] ++ [[.field "B" .text]]))),
        ∃ s' ∈ compiled (beginAll .empty ([.field "A" .int] ::
            (List.replicate (UInt32.size - 1) [] ++ [[.field "B" .text]]))),
          s.fields.map (·.name) = ["A"] ∧ s'.fields.map (·.name) = ["B"] ∧ s.id = s'.id ∧
            (DataType.record s.id).accepts (.record (RecordOf.new s')) = true := by
  have hfirst : (ofCalls ⟨0⟩ [.field "A" .int]).compile.result.toOption.map
      (fun s => (s.serial, s.fields.map (·.name))) = some (0, ["A"]) := by
    decide +kernel
  have hlast : (ofCalls ⟨UInt32.size⟩ [.field "B" .text]).compile.result.toOption.map
      (fun s => (s.serial, s.fields.map (·.name))) = some (UInt32.size, ["B"]) := by
    decide +kernel
  obtain ⟨s, hs, hsEq⟩ := Option.map_eq_some_iff.1 hfirst
  obtain ⟨s', hs', hsEq'⟩ := Option.map_eq_some_iff.1 hlast
  rw [Prod.mk.injEq] at hsEq hsEq'
  generalize hruns : [.field "A" .int] ::
    (List.replicate (UInt32.size - 1) [] ++ [[Call.field "B" .text]]) = runs
  have hlength : runs.length = UInt32.size + 1 := by
    rw [← hruns, List.length_cons, List.length_append, List.length_replicate]
    rfl
  have hfirstRun : runs[0]? = some [.field "A" .int] := by
    rw [← hruns, List.getElem?_cons_zero]
  have hlastRun : runs[UInt32.size]? = some [.field "B" .text] := by
    rw [← hruns, show UInt32.size = UInt32.size - 1 + 1 from rfl, List.getElem?_cons_succ,
      List.getElem?_append_right (by rw [List.length_replicate]; exact Nat.le_refl _),
      List.length_replicate]
    rfl
  have hmem : s ∈ compiled (beginAll .empty runs) := mem_compiled_beginAll hfirstRun hs
  have hmem' : s' ∈ compiled (beginAll .empty runs) :=
    mem_compiled_beginAll hlastRun (by rw [SchemaSupply.empty, Nat.zero_add, hs'])
  have hid : s.id = s'.id := by
    rw [Schema.id, Schema.id, SchemaRef.ofSerial_eq_iff, hsEq.1, hsEq'.1, Nat.mod_self,
      Nat.zero_mod]
  refine ⟨fun hnodup => ?_, s, hmem, s', hmem', hsEq.2, hsEq'.2, hid, ?_⟩
  · have hlen := (nodup_ids_iff runs).1 hnodup
    omega
  · exact DataType.accepts_record_iff.2 (.inr ⟨_, rfl, hid.symm⟩)

end Draft
end TypedRecords
