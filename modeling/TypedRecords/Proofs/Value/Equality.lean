import TypedRecords.Proofs.Number.Double
import TypedRecords.Proofs.Record.Equality
import TypedRecords.Proofs.Record.Typing

/-!
# Equality is a partial equivalence

Values are compared part by part (`Value.Compared`): floating-point numbers as numbers, lists item
by item, records by schema, presence and slots, and everything else by content. Lists and records
contain values again, so a law of equality is proved of a value from the same law of its parts
(`Value.parts_induction`). Equality is symmetric and transitive because equality of numbers is; it
is not reflexive, but the values that differ from themselves are those with a NaN inside, at
whatever depth (`Value.equals_self_iff`).
-/

namespace TypedRecords

namespace Value

/-! ## Parts -/

/-- The values directly inside a value. -/
def parts : Value → List Value
  | .list items => items
  | .record r => r.slots
  | _ => []

/-- What holds of a value whenever it holds of the value's parts holds of all values. -/
theorem parts_induction {P : Value → Prop} (h : ∀ v : Value, (∀ part ∈ v.parts, P part) → P v)
    (v : Value) : P v :=
  @Value.rec P (fun items => ∀ v ∈ items, P v) (fun r => ∀ v ∈ r.slots, P v)
    (h _ nofun) (fun _ => h _ nofun) (fun _ => h _ nofun) (fun _ => h _ nofun)
    (fun _ => h _ nofun) (fun _ => h _ nofun) (fun _ => h _ nofun) (fun _ => h _ nofun)
    (fun _ => h _ nofun) (fun _ hitems => h _ hitems) (fun _ hslots => h _ hslots)
    nofun (fun _ _ hfirst hothers => List.forall_mem_cons.2 ⟨hfirst, hothers⟩)
    (fun _ _ _ hslots => hslots) v

theorem partOf_iff {part v : Value} :
    PartOf part v ↔ part = v ∨ ∃ direct ∈ v.parts, PartOf part direct := by
  constructor
  · intro h
    cases h with
    | self => exact .inl rfl
    | item hmem h => exact .inr ⟨_, hmem, h⟩
    | slot hmem h => exact .inr ⟨_, hmem, h⟩
  · rintro (rfl | ⟨direct, hmem, h⟩)
    · exact .self _
    · cases v with
      | list items => exact .item hmem h
      | record r => exact .slot hmem h
      | _ => cases hmem

/-! ## What is compared -/

/-- Values that equality compares by their content alone. -/
def isExact : Value → Bool
  | .float _ | .list _ | .record _ => false
  | _ => true

/-- What equality of two values comes down to. -/
inductive Compared : Value → Value → Prop
  | same {v : Value} : v.isExact = true → Compared v v
  | float {x y : Double} : x.equals y = true → Compared (.float x) (.float y)
  | list {vs ws : List Value} : List.Forall₂ (fun v w => v.equals w = true) vs ws →
      Compared (.list vs) (.list ws)
  | record {a b : Record} : a.schema.serial = b.schema.serial → a.presence = b.presence →
      List.Forall₂ (fun v w => v.equals w = true) a.slots b.slots → Compared (.record a) (.record b)

theorem equals_iff_eq_of_isExact {v w : Value} (hv : v.isExact = true) :
    v.equals w = true ↔ v = w := by
  cases v <;> cases w <;> simp_all [equals, isExact]

theorem equals_iff {v w : Value} : v.equals w = true ↔ Compared v w := by
  constructor
  · intro h
    cases hexact : v.isExact with
    | true =>
      obtain rfl := (equals_iff_eq_of_isExact hexact).1 h
      exact .same hexact
    | false =>
      cases v with
      | float x =>
        cases w with
        | float y => exact .float h
        | _ => cases h
      | list vs =>
        cases w with
        | list ws => exact .list ((equalLists_iff vs ws).1 h)
        | _ => cases h
      | record a =>
        cases w with
        | record b =>
          obtain ⟨hserial, hpresence, hslots⟩ := (RecordOf.equals_iff a b).1 h
          exact .record hserial hpresence hslots
        | _ => cases h
      | _ => cases hexact
  · intro h
    cases h with
    | same hexact => exact (equals_iff_eq_of_isExact hexact).2 rfl
    | float hxy => exact hxy
    | list hitems => exact (equalLists_iff _ _).2 hitems
    | record hserial hpresence hslots =>
      exact (RecordOf.equals_iff _ _).2 ⟨hserial, hpresence, hslots⟩

/-! ## The laws -/

theorem forall₂_equals_symm {vs ws : List Value}
    (ih : ∀ v ∈ vs, ∀ {w : Value}, v.equals w = true → w.equals v = true)
    (h : List.Forall₂ (fun v w => v.equals w = true) vs ws) :
    List.Forall₂ (fun v w => v.equals w = true) ws vs := by
  have hboth := (List.forall₂_and_left vs ws).2 ⟨ih, h⟩
  exact (hboth.imp fun v w hvw => hvw.1 hvw.2).flip

theorem equals_symm {v w : Value} (h : v.equals w = true) : w.equals v = true := by
  induction v using parts_induction generalizing w with
  | _ v ih =>
    rw [equals_iff] at h ⊢
    cases h with
    | same hexact => exact .same hexact
    | float hxy => exact .float (Double.equals_symm hxy)
    | list hitems => exact .list (forall₂_equals_symm ih hitems)
    | record hserial hpresence hslots =>
      exact .record hserial.symm hpresence.symm (forall₂_equals_symm ih hslots)

theorem forall₂_equals_trans {us vs ws : List Value}
    (ih : ∀ u ∈ us, ∀ {v w : Value}, u.equals v = true → v.equals w = true → u.equals w = true)
    (huv : List.Forall₂ (fun u v => u.equals v = true) us vs)
    (hvw : List.Forall₂ (fun v w => v.equals w = true) vs ws) :
    List.Forall₂ (fun u w => u.equals w = true) us ws := by
  induction huv generalizing ws with
  | nil =>
    cases hvw
    exact .nil
  | cons hfirst _ hothers =>
    cases hvw with
    | cons hfirst' hothers' =>
      rw [List.forall_mem_cons] at ih
      exact .cons (ih.1 hfirst hfirst') (hothers ih.2 hothers')

theorem equals_trans {u v w : Value} (huv : u.equals v = true) (hvw : v.equals w = true) :
    u.equals w = true := by
  induction u using parts_induction generalizing v w with
  | _ u ih =>
    rw [equals_iff] at huv
    -- the first comparison tells the kind of all three values
    cases huv with
    | same hexact => exact hvw
    | float hxy =>
      rw [equals_iff] at hvw ⊢
      cases hvw with
      | same hexact => cases hexact
      | float hyz => exact .float (Double.equals_trans hxy hyz)
    | list hitems =>
      rw [equals_iff] at hvw ⊢
      cases hvw with
      | same hexact => cases hexact
      | list hitems' => exact .list (forall₂_equals_trans ih hitems hitems')
    | record hserial hpresence hslots =>
      rw [equals_iff] at hvw ⊢
      cases hvw with
      | same hexact => cases hexact
      | record hserial' hpresence' hslots' =>
        exact .record (hserial.trans hserial') (hpresence.trans hpresence')
          (forall₂_equals_trans ih hslots hslots')

/-- A value equals itself if its parts do and it is no NaN. -/
theorem equals_self_iff_parts (v : Value) : v.equals v = true ↔
    (∀ x : Double, .float x = v → x.isNaN = false) ∧
      ∀ part ∈ v.parts, part.equals part = true := by
  cases v with
  | float x =>
    have hself : (Value.float x).equals (.float x) = x.equals x := rfl
    rw [hself, Double.equals_self_iff]
    simp [parts]
  | list items =>
    have hself : (Value.list items).equals (.list items) = equalLists items items := rfl
    rw [hself, equalLists_iff, List.forall₂_same]
    simp [parts]
  | record r =>
    have hself : (Value.record r).equals (.record r) = r.equals r := rfl
    rw [hself, RecordOf.equals_iff, List.forall₂_same]
    simp [parts]
  | _ => simp [equals, parts]

/-- A value equals itself if there is no NaN inside. -/
theorem equals_self_iff (v : Value) :
    v.equals v = true ↔ ∀ x : Double, PartOf (.float x) v → x.isNaN = false := by
  induction v using parts_induction with
  | _ v ih =>
    rw [equals_self_iff_parts]
    constructor
    · rintro ⟨hself, hparts⟩ x hx
      rcases partOf_iff.1 hx with heq | ⟨direct, hmem, hx⟩
      · exact hself x heq
      · exact (ih direct hmem).1 (hparts direct hmem) x hx
    · intro h
      refine ⟨fun x heq => h x (partOf_iff.2 (.inl heq)), fun part hmem => ?_⟩
      exact (ih part hmem).2 fun x hx => h x (partOf_iff.2 (.inr ⟨part, hmem, hx⟩))

end Value

/-- Equality of values, with lists and records nested in them to any depth, is symmetric and
transitive, and a value equals itself exactly if there is no NaN inside. So a copy of a record
equals the record exactly if the record holds no NaN. Numbers other than NaN are equal if they have
the same bits, or are finite and stand for the same number, as the two zeros do; records of
different schemas differ. -/
theorem equality_broken_by_nan_alone :
    (∀ v w : Value, v.equals w = w.equals v) ∧
    (∀ u v w : Value, u.equals v = true → v.equals w = true → u.equals w = true) ∧
    (∀ v : Value, v.equals v = true ↔
      ∀ x : Double, (Value.float x).PartOf v → x.isNaN = false) ∧
    (∀ (s : Schema) (records : List Record) (k : Nat) (r : Record), records[k]? = some r →
      ∃ c, (Call.copy k).perform s records = (records ++ [c], none) ∧
        (r.equals c = true ↔
          ∀ x : Double, (Value.float x).PartOf (.record r) → x.isNaN = false)) ∧
    (∀ x y : Double, (Value.float x).equals (.float y) = true ↔
      x.isNaN = false ∧ y.isNaN = false ∧
        (x = y ∨ x.isFinite = true ∧ y.isFinite = true ∧ x.value = y.value)) ∧
    ∀ a b : Record, (Value.record a).equals (.record b) = true ↔
      a.schema.serial = b.schema.serial ∧ a.presence = b.presence ∧
        List.Forall₂ (fun v w => v.equals w = true) a.slots b.slots := by
  refine ⟨fun v w => ?_, fun u v w => Value.equals_trans, Value.equals_self_iff,
    fun s records k r hr => ⟨r, ?_, ?_⟩, fun x y => Double.equals_iff, RecordOf.equals_iff⟩
  · rw [Bool.eq_iff_iff]
    exact ⟨Value.equals_symm, Value.equals_symm⟩
  · rw [Call.perform, hr]
    rfl
  · exact Value.equals_self_iff (.record r)

/-- The two zeros inside lists are equal, and a record with a NaN in a list differs from its
copy. -/
theorem equality_broken_by_nan_in_list :
    (Value.list [.float ⟨0⟩]).equals (.list [.float ⟨1#64 <<< 63⟩]) = true ∧
    (Value.list [.float ⟨1#64 <<< 63⟩]).equals (.list [.float ⟨0⟩]) = true ∧
    (Value.list [.float ⟨0⟩]).equals (.list [.float ⟨0⟩]) = true ∧
    match ((Draft.begin .empty).1.field "a" (.list .float)).compile.result with
    | .ok s => ∃ r c, Call.records s [.new,
          .edit 0 (.set ⟨0⟩ (.list [.float .zero, .float ⟨2047#64 <<< 52 ||| 1⟩]))] = [r] ∧
        (Call.copy 0).perform s [r] = ([r, c], none) ∧ r.equals c = false
    | .error _ => False := by
  have hzeros : (Value.list [.float ⟨0⟩]).equals (.list [.float ⟨1#64 <<< 63⟩]) = true := by
    decide +kernel
  obtain ⟨hsymm, htrans, -, hcopy, -, -⟩ := equality_broken_by_nan_alone
  refine ⟨hzeros, (hsymm _ _).symm.trans hzeros,
    htrans _ _ _ hzeros ((hsymm _ _).symm.trans hzeros), ?_⟩
  have hruns : (((Draft.begin .empty).1.field "a" (.list .float)).compile.result.toOption.any
      fun s => decide ((Call.records s [.new,
        .edit 0 (.set ⟨0⟩ (.list [.float .zero, .float ⟨2047#64 <<< 52 ||| 1⟩]))]).map
          (fun r => r.equals r) = [false])) = true := by
    decide +kernel
  obtain ⟨s, hok, hmap⟩ := exists_ok_of_any hruns
  simp only [hok]
  obtain ⟨r, hr, hdiffers⟩ := List.map_eq_singleton_iff.1 hmap
  obtain ⟨c, hperform, hequal⟩ := hcopy s [r] 0 r rfl
  refine ⟨r, c, hr, hperform, ?_⟩
  have hself := Value.equals_self_iff (.record r)
  rw [Bool.eq_false_iff, Ne, hequal, ← hself]
  exact Bool.eq_false_iff.1 hdiffers

end TypedRecords
