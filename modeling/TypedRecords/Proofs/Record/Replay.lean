import TypedRecords.Proofs.Record.Enumeration
import TypedRecords.Proofs.Record.Equality
import TypedRecords.Proofs.Record.Typing

/-!
# Replaying a record

What is assigned to a field is of the field's type (`Contents.Typed`), so the field takes it again
as it is. Assigning what is enumerated from a record to a blank one therefore restores the record
field by field: each assignment puts in its place what the record has there, whatever was put in
before (`Contents.Restores`). As every assigned field is enumerated and a map has one record at
most, the result is the record itself, whatever the order (`replay_rebuilds_record`).
-/

namespace TypedRecords

/-! ## What is assigned is of its field's type -/

/-- Every assigned value is of the type of the field it is assigned to. -/
def Contents.Typed (s : Schema) (m : Contents) : Prop :=
  ∀ ⦃i v⦄, m.lookup i = some v → ∃ f, s.fields[i.toNat]? = some f ∧ f.type.accepts v = true

namespace Contents

variable {s : Schema} {m m' : Contents}

theorem typed_empty (s : Schema) : Typed s ∅ := fun _ _ hv => by cases hv

theorem Typed.set (h : m.Typed s) {i : Position} {v : Value} (hset : m.set s i v = .ok m') :
    m'.Typed s := by
  unfold Contents.set at hset
  split at hset
  · cases hset
  · next f hf =>
    split at hset
    · cases hset
    · next w hw =>
      obtain rfl := Except.ok.inj hset
      intro j u hu
      by_cases hj : j = i
      · subst hj
        rw [Finmap.lookup_insert] at hu
        obtain rfl := Option.some.inj hu
        exact ⟨f, hf, Field.accepts_of_admitted hw⟩
      · rw [Finmap.lookup_insert_of_ne _ hj] at hu
        exact h hu

theorem Typed.clear (h : m.Typed s) {i : Position} (hclear : m.clear s i = .ok m') :
    m'.Typed s := by
  unfold Contents.clear at hclear
  split at hclear
  · cases hclear
  · obtain rfl := Except.ok.inj hclear
    intro j u hu
    by_cases hj : j = i
    · rw [hj, Finmap.lookup_erase] at hu
      cases hu
    · rw [Finmap.lookup_erase_ne hj] at hu
      exact h hu

theorem Typed.edit (h : m.Typed s) {e : Edit} (hedit : m.edit s e = .ok m') : m'.Typed s := by
  cases e with
  | set i v => exact h.set hedit
  | clear i => exact h.clear hedit
  | setNamed name v =>
    cases hname : s.resolve name with
    | none => simp [Contents.edit, hname] at hedit
    | some i =>
      simp only [Contents.edit, hname] at hedit
      exact h.set hedit

end Contents

namespace Call

variable {s : Schema}

/-- A call keeps what is assigned in all maps of its type. -/
theorem act_typed {ms : List Contents} (h : ∀ m ∈ ms, m.Typed s) (c : Call) :
    ∀ m ∈ (c.act s ms).1, m.Typed s := by
  cases c with
  | new | create =>
    intro m hm
    rcases List.mem_append.1 hm with hold | hlast
    · exact h m hold
    · rw [List.mem_singleton.1 hlast]
      exact Contents.typed_empty s
  | copy source =>
    intro m hm
    rcases List.mem_append.1 hm with hold | hcopy
    · exact h m hold
    · exact h m (List.mem_of_getElem? (Option.mem_toList.1 hcopy))
  | edit target e =>
    cases htarget : ms[target]? with
    | none =>
      simp only [act, htarget]
      exact h
    | some m =>
      cases hedit : m.edit s e with
      | error failure =>
        simp only [act, htarget, hedit]
        exact h
      | ok m' =>
        intro m'' hm''
        simp only [act, htarget, hedit] at hm''
        rcases List.mem_or_eq_of_mem_set hm'' with hold | rfl
        · exact h m'' hold
        · exact (h m (List.mem_of_getElem? htarget)).edit hedit

theorem maps_typed (s : Schema) (calls : List Call) : ∀ m ∈ maps s calls, m.Typed s := by
  induction calls using List.reverseRecOn with
  | nil => exact fun m hm => absurd hm List.not_mem_nil
  | append_singleton calls c ih =>
    rw [maps, List.foldl_append]
    exact act_typed ih c

end Call

/-! ## Restoring a map -/

namespace Contents

variable {s : Schema} {m : Contents}

/-- Whatever map is edited, the edit succeeds and assigns to the field what `m` has there. -/
def Restores (s : Schema) (m : Contents) (i : Position) (e : Edit) : Prop :=
  ∃ v, m.lookup i = some v ∧ ∀ m₀ : Contents, m₀.edit s e = .ok (m₀.insert i v)

theorem Typed.restores_set (h : m.Typed s) {i : Position} {v : Value}
    (hv : m.lookup i = some v) : Restores s m i (.set i v) := by
  obtain ⟨f, hf, haccepts⟩ := h hv
  refine ⟨v, hv, fun m₀ => ?_⟩
  simp only [Contents.edit, Contents.set, hf, Field.admitted_of_accepts haccepts]

theorem Typed.restores_setNamed (h : m.Typed s) {i : Position} {name : String} {v : Value}
    (hname : s.resolve name = some i) (hv : m.lookup i = some v) :
    Restores s m i (.setNamed name v) := by
  obtain ⟨w, hw, hset⟩ := h.restores_set hv
  refine ⟨w, hw, fun m₀ => ?_⟩
  simp only [Contents.edit, hname]
  exact hset m₀

/-- Edits that restore fields of `m` leave in these fields what `m` has there, and the others
alone. -/
theorem foldlM_edit_restores {positions : List Position} {es : List Edit}
    (h : List.Forall₂ (Restores s m) positions es) (m₀ : Contents) :
    ∃ m', es.foldlM (edit s) m₀ = .ok m' ∧
      ∀ i, m'.lookup i = if i ∈ positions then m.lookup i else m₀.lookup i := by
  induction h generalizing m₀ with
  | nil => exact ⟨m₀, rfl, fun i => by simp⟩
  | @cons i e positions es hfirst _ ih =>
    obtain ⟨v, hv, hedit⟩ := hfirst
    obtain ⟨m', hm', hlookup⟩ := ih (m₀.insert i v)
    refine ⟨m', ?_, fun j => ?_⟩
    · rw [List.foldlM_cons, hedit]
      exact hm'
    · rw [hlookup j]
      by_cases hlater : j ∈ positions
      · rw [if_pos hlater, if_pos (List.mem_cons_of_mem _ hlater)]
      · rw [if_neg hlater]
        by_cases hj : j = i
        · rw [hj, if_pos List.mem_cons_self, Finmap.lookup_insert, hv]
        · rw [if_neg (by simp [hj, hlater]), Finmap.lookup_insert_of_ne _ hj]

end Contents

namespace Refines

variable {s : Schema} {r : Record} {m m' : Contents}

/-- Edits that succeed on a map succeed on its record. -/
theorem foldlM_edit (h : Refines s r m) (hwf : s.WF) {es : List Edit}
    (hes : es.foldlM (Contents.edit s) m = .ok m') :
    ∃ r', es.foldlM RecordOf.edit r = .ok r' ∧ Refines s r' m' := by
  induction es generalizing r m with
  | nil =>
    obtain rfl : m = m' := Except.ok.inj hes
    exact ⟨r, rfl, h⟩
  | cons e es ih =>
    have hedit := h.edit hwf e
    rw [List.foldlM_cons] at hes ⊢
    cases hfirst : m.edit s e with
    | error failure =>
      rw [hfirst] at hes
      cases hes
    | ok m₁ =>
      rw [hfirst] at hes hedit
      obtain ⟨r₁, hr₁, hrefines⟩ := hedit
      rw [hr₁]
      exact ih hrefines hes

/-- A record is rebuilt from the blank one by edits that restore all its assigned fields. -/
theorem foldlM_edit_new (h : Refines s r m) (hwf : s.WF) {positions : List Position}
    {es : List Edit} (hmem : ∀ i, i ∈ positions ↔ i ∈ m)
    (hes : List.Forall₂ (Contents.Restores s m) positions es) :
    es.foldlM RecordOf.edit (RecordOf.new s) = .ok r := by
  obtain ⟨m', hm', hlookup⟩ := Contents.foldlM_edit_restores hes ∅
  obtain ⟨r', hr', hrefines⟩ := (Refines.new s).foldlM_edit hwf hm'
  have hsame : m' = m := by
    refine Finmap.ext_lookup fun i => ?_
    rw [hlookup i]
    by_cases hi : i ∈ positions
    · rw [if_pos hi]
    · rw [if_neg hi, Finmap.lookup_empty, Finmap.lookup_eq_none.2 (mt (hmem i).2 hi)]
  subst hsame
  rw [hr', hrefines.unique h hwf]

end Refines

/-- The fields enumerated from a record, in any order, rebuild it from the blank record of its
schema: by their positions, and by their names unless a 32-bit id wraps. No assignment fails, and
the result is the record itself, slot by slot and bit by bit. -/
theorem replay_rebuilds_record {d : Draft} {s : Schema} (hok : d.compile.result = .ok s)
    (hsize : s.size < UInt32.size) (calls : List Call) {r : Record}
    (hr : r ∈ Call.records s calls) :
    (∀ order : List Position, order.Perm r.assigned →
      order.foldlM (fun copy i => copy.set i (r.slot i)) (RecordOf.new s) = .ok r) ∧
    (d.Fits Text.lowercase → ∀ order : List (String × Value), order.Perm r.items →
      order.foldlM (fun copy item => copy.setNamed item.1 item.2) (RecordOf.new s) = .ok r) := by
  have hwf : s.WF := Draft.wf_of_compileFolding hok
  obtain ⟨m, hm, h⟩ := Call.exists_refines hwf hr
  have htyped : m.Typed s := Call.maps_typed s calls m hm
  refine ⟨fun order horder => ?_, fun hfits order horder => ?_⟩
  · have hmem (i : Position) : i ∈ order ↔ i ∈ m := horder.mem_iff.trans (h.mem_assigned i)
    have hrestores : List.Forall₂ (Contents.Restores s m) order
        (order.map fun i => .set i (r.slot i)) := by
      refine List.forall₂_map_right_iff.2 (List.forall₂_same.2 fun i hi => ?_)
      obtain ⟨v, hv⟩ := Finmap.mem_iff.1 ((hmem i).1 hi)
      have hslot := h.slot_eq (List.getElem?_eq_getElem (h.lt_size ((hmem i).1 hi)))
      rw [hslot, hv]
      exact htyped.restores_set hv
    have hreplay := h.foldlM_edit_new hwf hmem hrestores
    rwa [List.foldlM_map] at hreplay
  · have hitems : List.Forall₂
        (fun i item => Contents.Restores s m i (.setNamed item.1 item.2)) r.assigned r.items := by
      refine (h.forall₂_items hsize).imp ?_
      rintro i item ⟨f, hf, hname, hv⟩
      rw [h.get?_eq] at hv
      exact htyped.restores_setNamed ((hfits.findsNames hok _ _).2 ⟨f, hf, hname.symm⟩) hv
    -- the fields can be put in the order of the items
    obtain ⟨positions, hrestores, hpositions⟩ := List.perm_comp_forall₂ horder hitems.flip
    have hmem (i : Position) : i ∈ positions ↔ i ∈ m :=
      hpositions.mem_iff.trans (h.mem_assigned i)
    have hreplay := h.foldlM_edit_new hwf hmem (List.forall₂_map_right_iff.2 hrestores.flip)
    rwa [List.foldlM_map] at hreplay

/-- A record with a number that differs from itself, a converted decimal and a record inside,
rebuilt from the last field to the first. -/
theorem replay_rebuilds_nan_and_nested :
    match ((Draft.begin .empty).1.fields [("X", .float), ("P", .decimal),
      ("Children", .list (.record ⟨0⟩))]).compile.result with
    | .ok s => ∃ r ∈ Call.records s [.new, .edit 0 (.setNamed "X" (.float ⟨0x7FF8000000000000⟩)),
          .edit 0 (.setNamed "P" (.text "1.50")), .edit 0 (.setNamed "Children"
            (.list [.record ((RecordOf.new s).store ⟨0⟩ (.float ⟨0x7FF8000000000000⟩)), .null]))],
        r.equals r = false ∧ r.items.length = 3 ∧
          r.items.reverse.foldlM (fun copy item => copy.setNamed item.1 item.2)
            (RecordOf.new s) = .ok r
    | .error _ => False := by
  have hfits : ((Draft.begin .empty).1.fields [("X", .float), ("P", .decimal),
      ("Children", .list (.record ⟨0⟩))]).Fits Text.lowercase := by
    decide +kernel
  have hruns : (((Draft.begin .empty).1.fields [("X", .float), ("P", .decimal),
      ("Children", .list (.record ⟨0⟩))]).compile.result.toOption.any fun s =>
        decide (s.size < UInt32.size ∧
          ∃ r ∈ Call.records s [.new, .edit 0 (.setNamed "X" (.float ⟨0x7FF8000000000000⟩)),
            .edit 0 (.setNamed "P" (.text "1.50")), .edit 0 (.setNamed "Children"
              (.list [.record ((RecordOf.new s).store ⟨0⟩ (.float ⟨0x7FF8000000000000⟩)), .null]))],
          r.equals r = false ∧ r.items.length = 3)) = true := by
    decide +kernel
  have ⟨s, hok, hsize, r, hr, hequals, hlength⟩ := exists_ok_of_any hruns
  simp only [hok]
  have hreplay := (replay_rebuilds_record hok hsize _ hr).2 hfits
  exact ⟨r, hr, hequals, hlength, hreplay _ r.items.reverse_perm⟩

/-- Where an id has wrapped, a record can have fields of which none is assigned again by its
name. -/
theorem not_replay_by_names : ∃ s r, (Draft.crowded 1431655766).compile.result = .ok s ∧
    s.size < UInt32.size ∧ r ∈ Call.records s [.new, .edit 0 (.set ⟨0⟩ (.int 7))] ∧
      r.items ≠ [] ∧ ∀ order : List (String × Value), order.Perm r.items →
        ∃ name, order.foldlM (fun copy item => copy.setNamed item.1 item.2) (RecordOf.new s) =
          .error (.missing name) := by
  obtain ⟨s, f, hok, hastray, hsize, hf, htype⟩ := Draft.exists_astray
  obtain ⟨r, hr, -, hrefines⟩ := Call.exists_record_of_admitted
    (Draft.wf_of_compileFolding hok) (i := ⟨0⟩) hf (Field.admitted_int htype 7)
  have hitems := hrefines.forall₂_items hsize
  have hne : r.items ≠ [] := by
    intro hnil
    have hassigned : ⟨0⟩ ∈ r.assigned :=
      (hrefines.mem_assigned _).2 (Finmap.mem_insert.2 (.inl rfl))
    obtain ⟨item, hitem, -⟩ := forall₂_mem_left hitems hassigned
    rw [hnil] at hitem
    cases hitem
  refine ⟨s, r, hok, hsize, hr, hne, fun order horder => ?_⟩
  cases order with
  | nil => exact absurd horder.nil_eq.symm hne
  | cons item rest =>
    -- the first assignment fails already
    obtain ⟨i, -, g, hg, hname, -⟩ :=
      forall₂_mem_left hitems.flip (horder.mem_iff.1 List.mem_cons_self)
    have hunknown : s.resolve item.1 = none := by
      rw [hname]
      exact hastray.resolve_name (List.mem_of_getElem? hg)
    refine ⟨item.1, ?_⟩
    rw [List.foldlM_cons, RecordOf.setNamed_of_unknown hunknown]
    rfl

end TypedRecords
