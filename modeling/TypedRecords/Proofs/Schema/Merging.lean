import TypedRecords.Proofs.Schema.Rejection

/-!
# What merging promises

A mixin promises its fields. Merging grows the very list of declarations that it searches, but it
never removes one and never puts one in front: the first declaration of a name stays the first. So
once merging has succeeded, the first declaration of every promised name has the promised type
(`Declaration.Provides`), and merging the mixin once more finds nothing to add
(`Draft.merged_again`). What is added is what had no declaration of its name in front of it, in
order (`Declaration.newcomers`).

A draft keeps its calls apart by their kind (`Draft.ofCalls_eq`), so that only the order within a
kind can matter.
-/

namespace TypedRecords

/-! ## Fields that are new -/

namespace Declaration

/-- The declarations among `others` whose name occurs neither in `declared` nor before them. -/
def newcomers (declared others : List Declaration) : List Declaration :=
  (others.zipIdx.filter fun c =>
    !(declared ++ others.take c.2).any (·.name == c.1.name)).map Prod.fst

theorem newcomers_append_singleton (declared others : List Declaration) (d : Declaration) :
    newcomers declared (others ++ [d]) = newcomers declared others ++
      if (declared ++ others).any (·.name == d.name) then [] else [d] := by
  have hothers : (others.zipIdx.filter fun c =>
      !(declared ++ (others ++ [d]).take c.2).any (·.name == c.1.name)) =
        others.zipIdx.filter fun c =>
          !(declared ++ others.take c.2).any (·.name == c.1.name) := by
    refine List.filter_congr fun c hc => ?_
    rw [List.take_append_of_le_length (Nat.le_of_lt (by simpa using List.snd_lt_of_mem_zipIdx hc))]
  have hlast : (others ++ [d]).take (0 + others.length) = others := by
    rw [Nat.zero_add, List.take_left]
  rw [newcomers, List.zipIdx_append, List.filter_append, hothers, List.map_append, ← newcomers]
  congr 1
  rw [List.zipIdx_singleton, List.filter_singleton, hlast]
  cases (declared ++ others).any (·.name == d.name) <;> rfl

theorem foldl_unite_eq (declared others : List Declaration) :
    others.foldl unite declared = declared ++ newcomers declared others := by
  induction others using List.reverseRecOn with
  | nil => simp [newcomers]
  | append_singleton others d ih =>
    -- whether a name is taken is seen in the united list as in the whole of what was met
    have htaken : (others.foldl unite declared).any (·.name == d.name) =
        (declared ++ others).any (·.name == d.name) := by
      rw [Bool.eq_iff_iff, List.any_eq_true, List.any_eq_true, ← List.find?_isSome,
        ← List.find?_isSome, find?_foldl_unite]
    rw [List.foldl_append, List.foldl_cons, List.foldl_nil, newcomers_append_singleton, unite,
      htaken, ih]
    split
    · rw [List.append_nil]
    · rw [List.append_assoc]

/-- The first declaration of the field's name has the field's type. -/
def Provides (declared : List Declaration) (field : String × DataType) : Prop :=
  ∃ first, declared.find? (·.name == field.1) = some first ∧ first.type = field.2

end Declaration

open Declaration

/-! ## Merging once more -/

namespace Mixin

theorem mergeField_eq_self (mixin : String) {declared : List Declaration}
    {field : String × DataType} (h : Provides declared field) :
    mergeField mixin declared field = .ok declared := by
  obtain ⟨first, hfirst, htype⟩ := h
  unfold mergeField
  simp only [hfirst, htype, if_true]

/-- Nothing is added for fields that are provided already. -/
theorem merge_eq_self {mixin : Mixin} {declared : List Declaration}
    (h : ∀ field ∈ mixin.fields, Provides declared field) :
    mixin.merge declared = .ok declared := by
  obtain ⟨name, fields⟩ := mixin
  show fields.foldlM (mergeField name) declared = .ok declared
  induction fields with
  | nil => rfl
  | cons field fields ih =>
    rw [List.foldlM_cons, mergeField_eq_self name (h field List.mem_cons_self)]
    exact ih fun other hother => h other (List.mem_cons_of_mem _ hother)

end Mixin

namespace Draft

variable {d : Draft} {fold : String → String} {declared : List Declaration}

/-- Merging keeps every promise. -/
theorem provides_of_merged (hmerged : d.merged = .ok declared) {mixin : Mixin}
    (hmixin : mixin ∈ d.mixins) {field : String × DataType} (hfield : field ∈ mixin.fields) :
    Provides declared field := by
  have hmixed : mixed field ∈ d.mixedFields :=
    List.mem_flatMap.2 ⟨mixin, hmixin, List.mem_map.2 ⟨field, hfield, rfl⟩⟩
  obtain ⟨before, after, hsplit⟩ := List.append_of_mem hmixed
  have hpass := d.passes_merged
  rw [hmerged] at hpass
  have htypes : Faultless TypeFault d.declared d.mixedFields := hpass.2
  have hfind : declared.find? (·.name == field.1) =
      ((d.declared ++ before).find? (·.name == field.1)).or (some (mixed field)) := by
    rw [merged_eq_united hmerged, united, find?_foldl_unite, hsplit, ← List.append_assoc,
      List.find?_append, List.find?_cons_of_pos (by simp [mixed])]
  cases hearlier : (d.declared ++ before).find? (·.name == field.1) with
  | none => exact ⟨mixed field, by rw [hfind, hearlier, Option.none_or], rfl⟩
  | some first =>
    refine ⟨first, by rw [hfind, hearlier, Option.some_or], ?_⟩
    -- another type would have been a conflict
    by_contra hne
    exact htypes before (mixed field) after _ hsplit ⟨first, hearlier, hne, rfl⟩

/-- Merging a mixin again adds nothing. -/
theorem merged_again (d : Draft) {before after : List Mixin} {mixin : Mixin}
    (hmixin : mixin ∈ before) :
    merged { d with mixins := before ++ mixin :: after } =
      merged { d with mixins := before ++ after } := by
  unfold merged
  dsimp only
  rw [List.foldlM_append, List.foldlM_append]
  cases hbefore : before.foldlM Mixin.merge d.declared with
  | error rejection => rfl
  | ok declared =>
    have hagain : mixin.merge declared = .ok declared := Mixin.merge_eq_self fun field hfield =>
      provides_of_merged (d := { d with mixins := before }) hbefore hmixin hfield
    show (mixin :: after).foldlM Mixin.merge declared = after.foldlM Mixin.merge declared
    rw [List.foldlM_cons, hagain]
    rfl

theorem merged_of_compileFolding {s : Schema} (h : (d.compileFolding fold).result = .ok s) :
    d.merged = .ok d.united ∧ s.fields = d.united.mapIdx fun i c => c.compiled i := by
  obtain ⟨a, ha, rfl⟩ := compileFolding_eq_ok h
  obtain ⟨declared, hmerged, -, hcompiles⟩ := compiles_assemble ha
  obtain rfl := merged_eq_united hmerged
  exact ⟨hmerged, hcompiles.fields⟩

theorem mixins_of_compileFolding {s : Schema} (h : (d.compileFolding fold).result = .ok s) :
    s.mixins = d.mixins.map (·.name) := by
  obtain ⟨a, -, rfl⟩ := compileFolding_eq_ok h
  rfl

theorem exists_field_of_promise {s : Schema} (h : (d.compileFolding fold).result = .ok s)
    {mixin : Mixin} (hmixin : mixin ∈ d.mixins) {field : String × DataType}
    (hfield : field ∈ mixin.fields) : ∃ f ∈ s.fields, f.name = field.1 ∧ f.type = field.2 := by
  obtain ⟨hmerged, hfields⟩ := merged_of_compileFolding h
  obtain ⟨first, hfirst, htype⟩ := provides_of_merged hmerged hmixin hfield
  obtain ⟨i, hi, rfl⟩ := List.getElem_of_mem (List.mem_of_find?_eq_some hfirst)
  have hname : d.united[i].name = field.1 := by simpa using List.find?_some hfirst
  refine ⟨d.united[i].compiled i, ?_, hname, htype⟩
  rw [hfields]
  exact List.mem_mapIdx.2 ⟨i, hi, rfl⟩

theorem compileFolding_again (d : Draft) {before after : List Mixin} {mixin : Mixin}
    (hmixin : mixin ∈ before) {s : Schema}
    (h : (compileFolding { d with mixins := before ++ after } fold).result = .ok s) :
    (compileFolding { d with mixins := before ++ mixin :: after } fold).result =
      .ok { s with mixins := (before ++ mixin :: after).map (·.name) } := by
  obtain ⟨a, ha, rfl⟩ := compileFolding_eq_ok h
  have hassemble : assemble { d with mixins := before ++ mixin :: after } fold = .ok a := by
    rw [← ha]
    unfold assemble
    rw [merged_again d hmixin]
    rfl
  unfold compileFolding
  rw [hassemble]
  rfl

/-! ## Calls -/

/-- A call on a draft. -/
inductive Call where
  | field (name : String) (type : DataType)
  | unserializedField (name : String) (type : DataType)
  | mixIn (mixin : Mixin)
  | withLimit (limit : Nat)

namespace Call

/-- The draft after a call. -/
def perform (d : Draft) : Call → Draft
  | .field name type => d.field name type
  | .unserializedField name type => d.unserializedField name type
  | .mixIn mixin => d.mixIn mixin
  | .withLimit limit => d.withLimit limit

/-- The field that a call declares. -/
def declaration? : Call → Option Declaration
  | .field name type => some ⟨name, type, .none⟩
  | .unserializedField name type => some ⟨name, type, { Markers.none with unserialized := true }⟩
  | _ => none

/-- The mixin that a call adds. -/
def mixin? : Call → Option Mixin
  | .mixIn mixin => some mixin
  | _ => none

/-- The limit that a call sets. -/
def limit? : Call → Option Nat
  | .withLimit limit => some limit
  | _ => none

theorem mem_filterMap_mixin? {calls : List Call} {mixin : Mixin} :
    mixin ∈ calls.filterMap mixin? ↔ .mixIn mixin ∈ calls := by
  rw [List.mem_filterMap]
  constructor
  · rintro ⟨c, hc, hmixin⟩
    cases c with
    | mixIn other =>
      obtain rfl := Option.some.inj hmixin
      exact hc
    | _ => cases hmixin
  · exact fun hmem => ⟨_, hmem, rfl⟩

end Call

/-- The draft after calls in order. -/
def ofCalls (supply : SchemaSupply) (calls : List Call) : Draft :=
  calls.foldl Call.perform (begin supply).1

/-- A draft keeps the calls of each kind in order, and the last limit. -/
theorem ofCalls_eq (supply : SchemaSupply) (calls : List Call) : ofCalls supply calls =
    { serial := supply.issued
      declared := calls.filterMap Call.declaration?
      mixins := calls.filterMap Call.mixin?
      limit := (calls.filterMap Call.limit?).getLast?.getD Name.defaultLimit } := by
  induction calls using List.reverseRecOn with
  | nil => rfl
  | append_singleton calls c ih =>
    rw [ofCalls, List.foldl_append, List.foldl_cons, List.foldl_nil, ← ofCalls, ih]
    simp only [List.filterMap_append]
    cases c <;>
      simp [Call.perform, field, unserializedField, declare, mixIn, withLimit, Call.declaration?,
        Call.mixin?, Call.limit?]

/-- A draft to which a mixin is added again compiles to the same schema, but for the mixin's
name. -/
theorem compileFolding_ofCalls_again {supply : SchemaSupply} {before after : List Call}
    {mixin : Mixin} (hmixin : .mixIn mixin ∈ before) {s : Schema}
    (hok : ((ofCalls supply (before ++ after)).compileFolding fold).result = .ok s) :
    ∃ mixins, ((ofCalls supply (before ++ .mixIn mixin :: after)).compileFolding fold).result =
      .ok { s with mixins } ∧ ∀ name, name ∈ mixins ↔ name ∈ s.mixins := by
  have hbefore : mixin ∈ before.filterMap Call.mixin? := Call.mem_filterMap_mixin?.2 hmixin
  have hdraft : ofCalls supply (before ++ after) = { ofCalls supply (before ++ after) with
      mixins := before.filterMap Call.mixin? ++ after.filterMap Call.mixin? } := by
    simp [ofCalls_eq]
  have hdraft' : ofCalls supply (before ++ .mixIn mixin :: after) =
      { ofCalls supply (before ++ after) with
        mixins := before.filterMap Call.mixin? ++ mixin :: after.filterMap Call.mixin? } := by
    simp [ofCalls_eq, List.filterMap_cons, Call.declaration?, Call.mixin?, Call.limit?]
  have hmem (other : Mixin) :
      other ∈ before.filterMap Call.mixin? ++ mixin :: after.filterMap Call.mixin? ↔
        other ∈ before.filterMap Call.mixin? ++ after.filterMap Call.mixin? := by
    rw [List.mem_append, List.mem_append, List.mem_cons]
    constructor
    · rintro (hother | rfl | hother)
      · exact .inl hother
      · exact .inl hbefore
      · exact .inr hother
    · exact Or.imp_right .inr
  rw [hdraft] at hok
  rw [hdraft']
  refine ⟨_, compileFolding_again _ hbefore hok, fun name => ?_⟩
  rw [mixins_of_compileFolding hok, List.mem_map, List.mem_map]
  simp only [hmem]

/-- A schema has the declared fields in the order of the calls, followed by the fields of the mixins
whose names had not occurred, in their order, and every field has the markers of its origin. Every
field that a mixin promises is there with its type, and is found by its name unless a 32-bit id
wraps; the mixins are known by their names. How the calls of different kinds are interleaved is of
no account, and a mixin that is added again changes nothing but that it is named twice. -/
theorem compile_keeps_promises (supply : SchemaSupply) (calls : List Call) (fold : String → String)
    {s : Schema} (hok : ((ofCalls supply calls).compileFolding fold).result = .ok s) :
    s.fields = (calls.filterMap Call.declaration? ++
      newcomers (calls.filterMap Call.declaration?) ((calls.filterMap Call.mixin?).flatMap
        fun mixin => mixin.fields.map mixed)).mapIdx (fun i c => c.compiled i) ∧
    (∀ mixin, .mixIn mixin ∈ calls → ∀ name type, (name, type) ∈ mixin.fields →
      (∃ f ∈ s.fields, f.name = name ∧ f.type = type) ∧
        ((ofCalls supply calls).Fits fold → ∃ f, s.lookup name = .ok f ∧ f.type = type)) ∧
    (∀ name, s.hasMixin name = true ↔ ∃ mixin, .mixIn mixin ∈ calls ∧ mixin.name = name) ∧
    (∀ calls' : List Call,
      calls'.filterMap Call.declaration? = calls.filterMap Call.declaration? →
      calls'.filterMap Call.mixin? = calls.filterMap Call.mixin? →
      calls'.filterMap Call.limit? = calls.filterMap Call.limit? →
        (ofCalls supply calls').compileFolding fold = (ofCalls supply calls).compileFolding fold) ∧
    ∀ before after mixin, calls = before ++ after → .mixIn mixin ∈ before →
      ∃ mixins, ((ofCalls supply (before ++ .mixIn mixin :: after)).compileFolding fold).result =
        .ok { s with mixins } ∧ ∀ name, name ∈ mixins ↔ name ∈ s.mixins := by
  have hmixins (mixin : Mixin) : mixin ∈ (ofCalls supply calls).mixins ↔ .mixIn mixin ∈ calls := by
    rw [ofCalls_eq]
    exact Call.mem_filterMap_mixin?
  refine ⟨?_, fun mixin hmixin name type hfield => ?_, fun name => ?_, fun calls' hdeclared hmixed
    hlimit => ?_, fun before after mixin hcalls hmixin => ?_⟩
  · rw [(merged_of_compileFolding hok).2, united, foldl_unite_eq, mixedFields, ofCalls_eq]
  · obtain ⟨f, hf, hname, htype⟩ := exists_field_of_promise hok ((hmixins mixin).2 hmixin) hfield
    refine ⟨⟨f, hf, hname, htype⟩, fun hfits => ⟨f, ?_, htype⟩⟩
    have hlookup := (hfits.findsNames hok).lookup_of_mem (wf_of_compileFolding hok) hf
    rwa [hname] at hlookup
  · rw [Schema.hasMixin, List.contains_iff_mem, mixins_of_compileFolding hok, List.mem_map]
    simp only [hmixins]
  · rw [ofCalls_eq, ofCalls_eq, hdeclared, hmixed, hlimit]
  · subst hcalls
    exact compileFolding_ofCalls_again hmixin hok

/-- A mixin that repeats a field, and one that shares a field with it. -/
theorem compile_keeps_promises_of_shared :
    match ((ofCalls .empty [.mixIn ⟨"Entity", [("Id", .guid), ("Name", .text), ("Id", .guid)]⟩,
        .unserializedField "Id" .guid, .mixIn ⟨"Named", [("Name", .text), ("Note", .text)]⟩,
        .field "Age" .int]).compileFolding Text.lowercase).result with
    | .ok s => s.fields.map (fun f => (f.name, f.type, f.markers.bits)) = [("Id", .guid, 1),
          ("Age", .int, 0), ("Name", .text, 2), ("Note", .text, 2)] ∧
        (∃ f, s.lookup "Note" = .ok f ∧ f.type = .text) ∧ s.hasMixin "Named" = true
    | .error _ => False := by
  have hruns : (((ofCalls .empty [.mixIn ⟨"Entity",
      [("Id", .guid), ("Name", .text), ("Id", .guid)]⟩, .unserializedField "Id" .guid,
      .mixIn ⟨"Named", [("Name", .text), ("Note", .text)]⟩,
      .field "Age" .int]).compileFolding Text.lowercase).result.toOption.any fun s =>
        decide (s.mixins = ["Entity", "Named"])) = true := by
    decide +kernel
  have hfits : (ofCalls .empty [.mixIn ⟨"Entity",
      [("Id", .guid), ("Name", .text), ("Id", .guid)]⟩, .unserializedField "Id" .guid,
      .mixIn ⟨"Named", [("Name", .text), ("Note", .text)]⟩,
      .field "Age" .int]).Fits Text.lowercase := by
    decide +kernel
  have ⟨s, hok, _⟩ := exists_ok_of_any hruns
  simp only [hok]
  obtain ⟨hfields, hpromises, hmixins, -, -⟩ := compile_keeps_promises _ _ _ hok
  have hnote := hpromises ⟨"Named", [("Name", .text), ("Note", .text)]⟩ (by simp) "Note" .text
    (by simp)
  have hnamed := (hmixins "Named").2 ⟨⟨"Named", [("Name", .text), ("Note", .text)]⟩, by simp, rfl⟩
  refine ⟨?_, hnote.2 hfits, hnamed⟩
  rw [hfields]
  decide +kernel

end Draft
end TypedRecords
