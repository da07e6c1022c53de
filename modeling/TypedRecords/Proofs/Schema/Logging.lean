import TypedRecords.Proofs.Schema.Rejection

/-!
# What compiling logs

A report holds the events of a draft next to its result. Compiling can also be done as a procedure
that writes each event to a log at the moment it happens and keeps what it has written when it
fails (`Draft.compileLogging`). Both give the same events (`Draft.compileLogging_eq`), because a
function of the procedure writes nothing unless it is rejected, and then the event of the rejection
alone (`Logs`). What the event says is decided by the failure and, for a conflict of types, by the
mixin that brought it (`Draft.Tells`).
-/

namespace TypedRecords

/-! ## Writing to a log -/

/-- A procedure that writes events to the log at hand and may fail. What it has written when it
fails stays written. -/
abbrev Logging := EStateM Failure (List Event)

namespace Logging

/-- Writes an event. -/
def emit (event : Event) : Logging Unit := modify (· ++ [event])

end Logging

open Logging

/-- A procedure gives a result and writes nothing, or writes the event of a rejection and fails. -/
def Logs {α : Type} (x : Logging α) (result : Except Rejection α) : Prop :=
  ∀ log, x log = match result with
    | .ok a => .ok a log
    | .error r => .error r.error (log ++ [r.event])

namespace Logs

variable {α β : Type}

theorem pure (a : α) : Logs (Pure.pure a) (.ok a) := fun _ => rfl

theorem reject (r : Rejection) :
    Logs (do emit r.event; throw r.error : Logging α) (.error r) := fun _ => rfl

theorem bind {x : Logging α} {result : Except Rejection α} {f : α → Logging β}
    {g : α → Except Rejection β} (hx : Logs x result) (hf : ∀ a, Logs (f a) (g a)) :
    Logs (x >>= f) (result >>= g) := by
  intro log
  simp only [Bind.bind, EStateM.bind, hx log, Except.bind]
  cases result with
  | ok a => exact hf a log
  | error r => rfl

theorem foldlM {f : α → β → Logging α} {g : α → β → Except Rejection α}
    (h : ∀ a b, Logs (f a b) (g a b)) (items : List β) (a : α) :
    Logs (items.foldlM f a) (items.foldlM g a) := by
  induction items generalizing a with
  | nil => exact .pure a
  | cons item items ih =>
    rw [List.foldlM_cons, List.foldlM_cons]
    exact (h a item).bind ih

end Logs

/-! ## Compiling as a procedure -/

/-- Adds a mixin's field to the declared ones. -/
def Mixin.mergeFieldLogging (mixin : String) (declared : List Declaration) :
    String × DataType → Logging (List Declaration)
  | (name, type) => do
    match declared.find? (·.name == name) with
    | none => return declared ++ [⟨name, type, { Markers.none with mixedIn := true }⟩]
    | some existing =>
      if existing.type = type then return declared
      emit (.typeConflict mixin name existing.type.describe type.describe)
      throw (.typeConflict name existing.type.describe type.describe)

/-- Adds a mixin's fields in order. -/
def Mixin.mergeLogging (declared : List Declaration) (mixin : Mixin) :
    Logging (List Declaration) :=
  mixin.fields.foldlM (Mixin.mergeFieldLogging mixin.name) declared

/-- Checks that no name is empty and no two names have the same image under `fold`. -/
def Declaration.vetNamesLogging (fold : String → String) (seen : List String) :
    List Declaration → Logging Unit
  | [] => return ()
  | d :: rest => do
    if d.name.isEmpty then
      emit .nameEmpty
      throw .nameEmpty
    let image := fold d.name
    if seen.contains image then
      emit (.nameTaken d.name)
      throw (.nameTaken d.name)
    vetNamesLogging fold (image :: seen) rest

/-- Compiles the next field of a schema. -/
def Assembly.addLogging (schema : SchemaRef) (a : Assembly) (d : Declaration) :
    Logging Assembly := do
  let count := a.fields.length
  match Position.ofNat? count with
  | none =>
    emit (.tooManyFields schema (count + 1))
    throw (.tooManyFields (count + 1))
  | some position =>
    match a.trie.insert d.name position with
    | .error error =>
      emit (.compilationFailed schema error)
      throw error
    | .ok trie =>
      let (address, bits) := a.bits.take
      return ⟨a.fields ++ [⟨d.name, d.type, position, d.markers, address⟩], trie, bits⟩

/-- Compiles the program of a trie. -/
def Name.Trie.compileLogging (t : Name.Trie) (limit : Nat) : Logging Name.Program := do
  let program := t.compile limit
  emit (.ofProgram t.size limit program)
  return program

namespace Draft

/-- The checked and compiled fields. -/
def assembleLogging (d : Draft) (fold : String → String) : Logging Assembly := do
  let declared ← d.mixins.foldlM Mixin.mergeLogging d.declared
  Declaration.vetNamesLogging fold [] declared
  declared.foldlM (Assembly.addLogging d.id) .empty

/-- Compiles a draft, writing every event when it happens. -/
def compileLogging (d : Draft) (fold : String → String) : Logging Schema := do
  let a ← d.assembleLogging fold
  let program ← a.trie.compileLogging d.limit
  let mixins := d.mixins.map (·.name)
  emit (.schemaCompiled d.id a.fields.length a.bits.words mixins.length)
  return ⟨d.serial, a.fields, a.bits.words, program, mixins⟩

end Draft

/-! ## The same events -/

theorem Mixin.logs_mergeField (mixin : String) (declared : List Declaration)
    (field : String × DataType) :
    Logs (mergeFieldLogging mixin declared field) (mergeField mixin declared field) := by
  obtain ⟨name, type⟩ := field
  unfold mergeFieldLogging mergeField
  dsimp only
  cases declared.find? (·.name == name) with
  | none => exact .pure _
  | some existing =>
    dsimp only
    split
    · exact .pure _
    · exact .reject ⟨_, .typeConflict mixin name existing.type.describe type.describe⟩

theorem Mixin.logs_merge (declared : List Declaration) (mixin : Mixin) :
    Logs (mergeLogging declared mixin) (merge declared mixin) :=
  .foldlM (logs_mergeField mixin.name) mixin.fields declared

theorem Declaration.logs_vetNames (fold : String → String) (seen : List String)
    (declared : List Declaration) :
    Logs (vetNamesLogging fold seen declared) (vetNames fold seen declared) := by
  induction declared generalizing seen with
  | nil => exact .pure ()
  | cons d rest ih =>
    unfold vetNamesLogging vetNames
    split
    · exact .reject ⟨_, .nameEmpty⟩
    · dsimp only
      split
      · exact .reject ⟨_, .nameTaken d.name⟩
      · exact ih _

theorem Assembly.logs_add (schema : SchemaRef) (a : Assembly) (d : Declaration) :
    Logs (addLogging schema a d) (add schema a d) := by
  unfold addLogging add
  dsimp only
  cases Position.ofNat? a.fields.length with
  | none => exact .reject ⟨_, .tooManyFields schema (a.fields.length + 1)⟩
  | some position =>
    dsimp only
    cases a.trie.insert d.name position with
    | error error => exact .reject ⟨error, .compilationFailed schema error⟩
    | ok trie => exact .pure _

namespace Draft

theorem logs_assemble (d : Draft) (fold : String → String) :
    Logs (d.assembleLogging fold) (d.assemble fold) := by
  have hmerged : Logs (d.mixins.foldlM Mixin.mergeLogging d.declared) d.merged :=
    .foldlM Mixin.logs_merge d.mixins d.declared
  exact hmerged.bind fun declared =>
    (Declaration.logs_vetNames fold [] declared).bind fun _ =>
      .foldlM (Assembly.logs_add d.id) declared .empty

/-- The procedure gives the result of the report and writes its events, behind whatever the log
held. -/
theorem compileLogging_eq (d : Draft) (fold : String → String) (log : List Event) :
    d.compileLogging fold log = match (d.compileFolding fold).result with
      | .ok s => .ok s (log ++ (d.compileFolding fold).events)
      | .error e => .error e (log ++ (d.compileFolding fold).events) := by
  unfold compileLogging compileFolding
  simp only [bind, EStateM.bind, d.logs_assemble fold log]
  cases d.assemble fold with
  | error r => rfl
  | ok a =>
    -- the two events of a success are written one after the other
    exact congrArg (EStateM.Result.ok (d.finish a)) (List.append_assoc log [_] [_])

end Draft

/-! ## What an event says -/

/-- What is read of an event in the log: its message and its details. -/
def Event.entry (e : Event) : String × List (String × String) := (e.message, e.details)

/-- The declarations that a mixin brings. -/
def Mixin.declarations (mixin : Mixin) : List Declaration := mixin.fields.map Declaration.mixed

open Declaration

namespace Draft

/-- The first conflict of types is the conflict `e`, in the fields of `mixin`. -/
def Conflicts (d : Draft) (mixin : Mixin) (e : Failure) : Prop :=
  ∃ before after, d.mixins = before ++ mixin :: after ∧
    Faultless TypeFault d.declared (before.flatMap Mixin.declarations) ∧
      FirstFault TypeFault (d.declared ++ before.flatMap Mixin.declarations) mixin.declarations e

/-- The entry that a failure of a draft leaves in the log. -/
inductive Tells (d : Draft) : Failure → String × List (String × String) → Prop
  | nameEmpty : d.Tells .nameEmpty ("empty field name", [])
  | nameTaken (name : String) :
      d.Tells (.nameTaken name) ("duplicate case-insensitive field", [("name", name)])
  | typeConflict {mixin : Mixin} {name old new : String} :
      d.Conflicts mixin (.typeConflict name old new) →
        d.Tells (.typeConflict name old new) ("conflicting interface field type",
          [("interface", mixin.name), ("name", name), ("existing", old), ("requested", new)])
  | nameUnpackable (name : String) (char : Char) (offset : Nat) :
      d.Tells (.nameUnpackable name char offset) ("schema compilation failed",
        [("schema", d.id.text), ("err", Failure.message (.nameUnpackable name char offset))])

variable {d : Draft} {fold : String → String}

/-- What is faultless before one mixin does not reach another that has a fault. -/
theorem Conflicts.before_of_split {before before' after after' : List Mixin} {mixin mixin' : Mixin}
    {e : Failure} (hsplit : before ++ mixin :: after = before' ++ mixin' :: after')
    (hfault : FirstFault TypeFault (d.declared ++ before.flatMap Mixin.declarations)
      mixin.declarations e)
    (hnone : Faultless TypeFault d.declared (before'.flatMap Mixin.declarations)) :
    before' <+: before := by
  rcases List.append_eq_append_iff.1 hsplit with ⟨between, rfl, hlater⟩ | ⟨between, rfl, -⟩
  · rcases List.cons_eq_append_iff.1 hlater with ⟨rfl, -⟩ | ⟨between, rfl, -⟩
    · rw [List.append_nil]
    · rw [List.flatMap_append, faultless_append, List.flatMap_cons, faultless_append] at hnone
      exact absurd hnone.2.1 hfault.not_faultless
  · exact List.prefix_append _ _

/-- One mixin brings the first conflict. -/
theorem Conflicts.unique {mixin mixin' : Mixin} {e e' : Failure} (h : d.Conflicts mixin e)
    (h' : d.Conflicts mixin' e') : mixin = mixin' := by
  obtain ⟨before, after, hsplit, hnone, hfault⟩ := h
  obtain ⟨before', after', hsplit', hnone', hfault'⟩ := h'
  have hsplits := hsplit.symm.trans hsplit'
  have hprefix := before_of_split hsplits hfault hnone'
  have hprefix' := before_of_split hsplits.symm hfault' hnone
  obtain rfl := List.IsPrefix.eq_of_length hprefix
    (Nat.le_antisymm hprefix.length_le hprefix'.length_le)
  exact (List.cons.inj (List.append_cancel_left hsplits)).1

/-- A failure leaves one entry. -/
theorem Tells.unique {e : Failure} {entry entry' : String × List (String × String)}
    (h : d.Tells e entry) (h' : d.Tells e entry') : entry = entry' := by
  cases h with
  | nameEmpty => cases h'; rfl
  | nameTaken name => cases h'; rfl
  | nameUnpackable name char offset => cases h'; rfl
  | typeConflict hconflict =>
    cases h' with
    | typeConflict hconflict' => rw [hconflict.unique hconflict']

end Draft

/-! ## Which event a rejection carries -/

/-- A run that fails does so at one of its items, after a run over those before it. -/
theorem exists_of_foldlM_eq_error {ε σ β : Type} {step : σ → β → Except ε σ} {items : List β}
    {s : σ} {e : ε} (h : items.foldlM step s = .error e) :
    ∃ before item after s', items = before ++ item :: after ∧ before.foldlM step s = .ok s' ∧
      step s' item = .error e := by
  induction items generalizing s with
  | nil => cases h
  | cons item items ih =>
    rw [List.foldlM_cons] at h
    cases hstep : step s item with
    | error e' =>
      rw [hstep] at h
      exact ⟨[], item, items, s, rfl, rfl, hstep.trans h⟩
    | ok s' =>
      rw [hstep] at h
      obtain ⟨before, other, after, s'', rfl, hbefore, hother⟩ := ih h
      refine ⟨item :: before, other, after, s'', rfl, ?_, hother⟩
      rw [List.foldlM_cons, hstep]
      exact hbefore

theorem Mixin.rejection_of_mergeField {mixin : String} {declared : List Declaration}
    {field : String × DataType} {r : Rejection}
    (h : mergeField mixin declared field = .error r) :
    ∃ old new : DataType, old ≠ new ∧
      r = ⟨.typeConflict field.1 old.describe new.describe,
        .typeConflict mixin field.1 old.describe new.describe⟩ := by
  unfold mergeField at h
  dsimp only at h
  split at h
  · cases h
  · next existing _ =>
    split at h
    · cases h
    · next hne => exact ⟨existing.type, field.2, hne, (Except.error.inj h).symm⟩

theorem Declaration.rejection_of_vetNames {fold : String → String} {seen : List String}
    {declared : List Declaration} {r : Rejection} (h : vetNames fold seen declared = .error r) :
    r = ⟨.nameEmpty, .nameEmpty⟩ ∨ ∃ name, r = ⟨.nameTaken name, .nameTaken name⟩ := by
  induction declared generalizing seen with
  | nil => cases h
  | cons d rest ih =>
    unfold vetNames at h
    split at h
    · exact .inl (Except.error.inj h).symm
    · dsimp only at h
      split at h
      · exact .inr ⟨d.name, (Except.error.inj h).symm⟩
      · exact ih h

namespace Draft

variable {d : Draft} {fold : String → String}

theorem tells_of_merged {r : Rejection} (h : d.merged = .error r) :
    d.Tells r.error r.event.entry := by
  obtain ⟨before, mixin, after, declared, hmixins, hbefore, hmixin⟩ := exists_of_foldlM_eq_error h
  obtain ⟨-, field, -, declared', -, -, hfield⟩ := exists_of_foldlM_eq_error hmixin
  obtain ⟨old, new, -, rfl⟩ := Mixin.rejection_of_mergeField hfield
  -- the drafts with the mixins up to this one, without it and with it
  have hpass := passes_merged { d with mixins := before }
  have hpass' := passes_merged { d with mixins := before ++ [mixin] }
  have hmerged : merged { d with mixins := before ++ [mixin] } = .error
      ⟨.typeConflict field.1 old.describe new.describe,
        .typeConflict mixin.name field.1 old.describe new.describe⟩ := by
    rw [merged, List.foldlM_append, hbefore]
    show [mixin].foldlM Mixin.merge declared = _
    rw [List.foldlM_cons, hmixin]
    rfl
  rw [show merged { d with mixins := before } = .ok declared from hbefore] at hpass
  rw [hmerged] at hpass'
  have hfirst := (hpass' _).2 rfl
  have hfields : mixedFields { d with mixins := before ++ [mixin] } =
      before.flatMap Mixin.declarations ++ mixin.declarations := by
    rw [mixedFields, List.flatMap_append, List.flatMap_singleton]
    rfl
  rw [hfields, firstFault_append] at hfirst
  refine .typeConflict ⟨before, after, hmixins, hpass.2, ?_⟩
  exact (hfirst.resolve_left fun hfault => hfault.not_faultless hpass.2).2

/-- Compiling a field of a draft within the ids fails for the characters of its name only. -/
theorem tells_of_add (hids : d.WithinIds fold) {declared : List Declaration} {r : Rejection}
    (hmerged : d.merged = .ok declared) (hvet : vetNames fold [] declared = .ok ())
    (h : declared.foldlM (Assembly.add d.id) .empty = .error r) :
    d.Tells r.error r.event.entry := by
  obtain ⟨before, c, after, a, rfl, hbefore, hadd⟩ := exists_of_foldlM_eq_error h
  have hlength := hids.length_le hmerged
  rw [List.length_append, List.length_cons] at hlength
  have hcount : a.fields.length = before.length := by
    rw [(Assembly.Compiles.empty.foldlM hbefore).fields, List.length_mapIdx, List.nil_append]
  rw [Assembly.add, Position.ofNat?, if_pos (by omega)] at hadd
  dsimp only at hadd
  split at hadd
  · next e hins =>
    obtain rfl := Except.error.inj hadd
    obtain ⟨-, bad, -, -, -, -, rfl⟩ :=
      hids.insert_of_reaches ⟨before, after, hmerged, hvet, hbefore⟩ hins
    exact .nameUnpackable _ _ _
  · cases hadd

theorem tells_of_assemble (hids : d.WithinIds fold) {r : Rejection}
    (h : d.assemble fold = .error r) : d.Tells r.error r.event.entry := by
  rcases assemble_eq_error h with hmerged | ⟨declared, hmerged, hvet | ⟨hvet, hadd⟩⟩
  · exact tells_of_merged hmerged
  · rcases rejection_of_vetNames hvet with rfl | ⟨name, rfl⟩
    · exact .nameEmpty
    · exact .nameTaken name
  · exact tells_of_add hids hmerged hvet hadd

end Draft

/-! ## The program of a success -/

/-- Compiling declarations inserts their names for their positions. -/
theorem Assembly.insertAll_of_foldlM {schema : SchemaRef} {a a' : Assembly}
    {declared : List Declaration} (h : declared.foldlM (add schema) a = .ok a') :
    a.trie.insertAll a.fields.length (declared.map (·.name)) = .ok a'.trie ∧
      a'.fields.map (·.name) = a.fields.map (·.name) ++ declared.map (·.name) := by
  induction declared generalizing a with
  | nil =>
    obtain rfl := Except.ok.inj h
    exact ⟨rfl, (List.append_nil _).symm⟩
  | cons d declared ih =>
    rw [List.foldlM_cons] at h
    cases hadd : a.add schema d with
    | error r =>
      rw [hadd] at h
      cases h
    | ok b =>
      rw [hadd] at h
      obtain ⟨hinsert, hnames⟩ := ih h
      unfold add at hadd
      dsimp only at hadd
      cases hposition : Position.ofNat? a.fields.length with
      | none => simp [hposition] at hadd
      | some position =>
        simp only [hposition] at hadd
        cases hins : a.trie.insert d.name position with
        | error e => simp [hins] at hadd
        | ok t =>
          simp only [hins, Except.ok.injEq] at hadd
          subst hadd
          rw [List.map_cons, Name.Trie.insertAll, hposition]
          simp only [hins, bind, Except.bind]
          rw [List.length_append] at hinsert
          rw [List.map_append, List.append_assoc] at hnames
          exact ⟨hinsert, hnames⟩

namespace Draft

/-- The program of a schema is compiled from the trie of its names. -/
theorem ofNames_of_assemble {d : Draft} {fold : String → String} {a : Assembly}
    (h : d.assemble fold = .ok a) :
    Name.Trie.ofNames (a.fields.map (·.name)) = .ok a.trie := by
  obtain ⟨declared, -, -, hadd⟩ := assemble_eq_ok h
  obtain ⟨hinsert, hnames⟩ := Assembly.insertAll_of_foldlM hadd
  rw [hnames]
  exact hinsert

/-- Compiling writes to the log what its report holds. A success has two entries: one on the program
that the schema has got, with the number of nodes of the trie of its names, and one on the schema. A
failure has the one entry that tells of it. -/
theorem compile_logs_what_happened (d : Draft) (fold : String → String)
    (hids : d.WithinIds fold) :
    (∀ log, d.compileLogging fold log = match (d.compileFolding fold).result with
      | .ok s => .ok s (log ++ (d.compileFolding fold).events)
      | .error e => .error e (log ++ (d.compileFolding fold).events)) ∧
    match (d.compileFolding fold).result with
    | .ok s => ∃ t, Name.Trie.ofNames (s.fields.map (·.name)) = .ok t ∧
        s.program = t.compile d.limit ∧
        (d.compileFolding fold).events.map Event.entry =
          [("compiled name resolver",
            [("nodes", toString t.size), ("steps", toString s.program.steps.size),
              ("arms", toString s.program.arms.size), ("depth", toString s.program.depth),
              ("linear_limit", toString d.limit)]),
          ("compiled schema",
            [("schema", s.id.text), ("fields", toString s.fields.length),
              ("groups", toString s.words), ("interfaces", toString d.mixins.length)])]
    | .error e => ∃ entry, (d.compileFolding fold).events.map Event.entry = [entry] ∧
        ∀ other, d.Tells e other ↔ other = entry := by
  refine ⟨d.compileLogging_eq fold, ?_⟩
  unfold compileFolding
  cases h : d.assemble fold with
  | error r =>
    have htells := tells_of_assemble hids h
    exact ⟨r.event.entry, rfl, fun other => ⟨fun hother => hother.unique htells,
      fun heq => heq ▸ htells⟩⟩
  | ok a =>
    refine ⟨a.trie, ofNames_of_assemble h, rfl, ?_⟩
    have hmixins : (d.finish a).mixins.length = d.mixins.length := List.length_map _
    rw [← hmixins]
    rfl

/-- The first of two mixins agrees with a declared field, and the second does not. -/
theorem compile_logs_conflict_of_second_mixin :
    ((((Draft.begin .empty).1.field "Id" .guid).mixIn ⟨"Entity", [("Id", .guid)]⟩).mixIn
        ⟨"Asset", [("Name", .text), ("Id", .text)]⟩).WithinIds Text.lowercase ∧
      ((((Draft.begin .empty).1.field "Id" .guid).mixIn ⟨"Entity", [("Id", .guid)]⟩).mixIn
        ⟨"Asset", [("Name", .text), ("Id", .text)]⟩).compile.events.map Event.entry =
          [("conflicting interface field type", [("interface", "Asset"), ("name", "Id"),
            ("existing", "guid"), ("requested", "text")])] := by
  have hids : ((((Draft.begin .empty).1.field "Id" .guid).mixIn
      ⟨"Entity", [("Id", .guid)]⟩).mixIn
        ⟨"Asset", [("Name", .text), ("Id", .text)]⟩).WithinIds Text.lowercase := by decide +kernel
  have hfailed : ((((Draft.begin .empty).1.field "Id" .guid).mixIn
      ⟨"Entity", [("Id", .guid)]⟩).mixIn
        ⟨"Asset", [("Name", .text), ("Id", .text)]⟩).compile.result =
          .error (.typeConflict "Id" "guid" "text") := by decide +kernel
  have hconflict : ((((Draft.begin .empty).1.field "Id" .guid).mixIn
      ⟨"Entity", [("Id", .guid)]⟩).mixIn
        ⟨"Asset", [("Name", .text), ("Id", .text)]⟩).Conflicts
          ⟨"Asset", [("Name", .text), ("Id", .text)]⟩ (.typeConflict "Id" "guid" "text") := by
    refine ⟨[⟨"Entity", [("Id", .guid)]⟩], [], rfl, faultless_singleton.2 ?_,
      [mixed ("Name", .text)], mixed ("Id", .text), [], rfl,
      ⟨⟨"Id", .guid, .none⟩, rfl, by decide, rfl⟩, faultless_singleton.2 ?_⟩
    · rintro e ⟨first, hfirst, hne, -⟩
      cases hfirst
      exact hne rfl
    · rintro e ⟨first, hfirst, -⟩
      cases hfirst
  obtain ⟨-, hlogs⟩ := compile_logs_what_happened _ _ hids
  rw [compile] at hfailed ⊢
  rw [hfailed] at hlogs
  obtain ⟨entry, hevents, htells⟩ := hlogs
  rw [hevents, ← (htells _).1 (.typeConflict hconflict)]
  exact ⟨hids, rfl⟩

end Draft
end TypedRecords
