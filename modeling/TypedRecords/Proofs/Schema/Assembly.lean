import TypedRecords.Proofs.Name.Program.Walk
import TypedRecords.Proofs.Presence
import TypedRecords.Schema.Draft

/-!
# Compiled schemas

Assembling a draft compiles its declarations one after the other: the field at place `i` has
position `i` and the presence bit of that number, and its name is in the trie (`Compiles`). A
compiled schema therefore has its fields and words in order (`Schema.WF`), and finds exactly the
names of its fields as long as no 32-bit id wraps (`Draft.Fits`).
-/

namespace TypedRecords

theorem toOption_eq_some_iff {ε α : Type} {result : Except ε α} {a : α} :
    result.toOption = some a ↔ result = .ok a := by
  cases result <;> simp [Except.toOption]

/-- What can be checked of a result by running the computation. -/
theorem exists_ok_of_any {ε α : Type} {result : Except ε α} {P : α → Prop} [DecidablePred P]
    (h : (result.toOption.any fun a => decide (P a)) = true) : ∃ a, result = .ok a ∧ P a := by
  cases result with
  | error e => cases h
  | ok a => exact ⟨a, rfl, of_decide_eq_true h⟩

/-- The field that a declaration becomes at place `i`. -/
def Declaration.compiled (d : Declaration) (i : Nat) : Field where
  name := d.name
  type := d.type
  position := ⟨.ofNat i⟩
  markers := d.markers
  address := ⟨i / Position.wordWidth, i % Position.wordWidth⟩

/-- The insertions that assembling declarations makes. -/
def Declaration.insertions (declared : List Declaration) : List (String × Position) :=
  declared.mapIdx fun i d => (d.name, ⟨.ofNat i⟩)

theorem Declaration.exists_of_mem_insertions {declared : List Declaration}
    {call : String × Position} (h : call ∈ insertions declared) :
    ∃ d ∈ declared, d.name = call.1 := by
  obtain ⟨i, hi, rfl⟩ := List.mem_mapIdx.1 h
  exact ⟨declared[i], List.getElem_mem hi, rfl⟩

namespace Assembly

/-- What is assembled once the declarations `declared` are compiled. -/
structure Compiles (a : Assembly) (declared : List Declaration) : Prop where
  length_le : declared.length ≤ UInt32.size
  fields : a.fields = declared.mapIdx fun i d => d.compiled i
  bits : a.bits = .after declared.length
  trie : (Declaration.insertions declared).foldl Name.Trie.attempt (.empty, []) =
    (a.trie, Declaration.insertions declared)

namespace Compiles

variable {a a' : Assembly} {declared : List Declaration}

theorem empty : Compiles .empty [] := ⟨Nat.zero_le _, rfl, rfl, rfl⟩

/-- Compiling one more declaration. -/
theorem add (h : a.Compiles declared) {schema : SchemaRef} {d : Declaration}
    (hadd : a.add schema d = .ok a') : a'.Compiles (declared ++ [d]) := by
  have hcount : a.fields.length = declared.length := by rw [h.fields, List.length_mapIdx]
  simp only [Assembly.add, hcount, Position.ofNat?] at hadd
  by_cases hlt : declared.length < UInt32.size
  · simp only [if_pos hlt] at hadd
    cases hins : a.trie.insert d.name ⟨.ofNat declared.length⟩ with
    | error failure => simp [hins] at hadd
    | ok t =>
      simp only [hins, h.bits, BitSupply.take_after, Except.ok.injEq] at hadd
      subst hadd
      refine ⟨?_, ?_, ?_, ?_⟩
      · rw [List.length_append, List.length_singleton]
        omega
      · rw [List.mapIdx_concat, h.fields]
        rfl
      · rw [List.length_append, List.length_singleton]
      · rw [Declaration.insertions, List.mapIdx_concat, List.foldl_append]
        have htrie := h.trie
        rw [Declaration.insertions] at htrie
        rw [htrie, List.foldl_cons, List.foldl_nil, Name.Trie.attempt, hins]
  · simp [if_neg hlt] at hadd

theorem foldlM {schema : SchemaRef} {later : List Declaration} (h : a.Compiles declared)
    (hadd : later.foldlM (Assembly.add schema) a = .ok a') : a'.Compiles (declared ++ later) := by
  induction later generalizing a declared with
  | nil =>
    obtain rfl : a = a' := Except.ok.inj hadd
    rwa [List.append_nil]
  | cons d later ih =>
    rw [List.foldlM_cons] at hadd
    cases hfirst : a.add schema d with
    | error rejection =>
      rw [hfirst] at hadd
      cases hadd
    | ok b =>
      rw [hfirst] at hadd
      rw [List.append_cons]
      exact ih (h.add hfirst) hadd

theorem exists_of_mem_fields (h : a.Compiles declared) {f : Field} (hf : f ∈ a.fields) :
    ∃ d ∈ declared, d.name = f.name ∧ d.type = f.type := by
  rw [h.fields] at hf
  obtain ⟨i, hi, rfl⟩ := List.mem_mapIdx.1 hf
  exact ⟨declared[i], List.getElem_mem hi, rfl, rfl⟩

/-- The trie is the one that the insertions give, and they all succeed. -/
theorem ofCalls_insertions (h : a.Compiles declared) :
    Name.Trie.ofCalls (Declaration.insertions declared) = a.trie ∧
      Name.Trie.succeeded (Declaration.insertions declared) = Declaration.insertions declared := by
  rw [Name.Trie.ofCalls, Name.Trie.succeeded, h.trie]
  exact ⟨rfl, rfl⟩

/-- The trie holds the names of the declarations as long as no node id wraps. -/
theorem represents (h : a.Compiles declared) (hsize : a.trie.size ≤ UInt32.size) :
    a.trie.Represents (Declaration.insertions declared) := by
  obtain ⟨htrie, hcalls⟩ := h.ofCalls_insertions
  have hrep := Name.Trie.represents_ofCalls (Declaration.insertions declared) (htrie ▸ hsize)
  rwa [htrie, hcalls] at hrep

end Compiles

/-- Whether 32-bit ids are enough for the nodes, and for the steps and arms of the program. -/
def Fits (a : Assembly) (limit : Nat) : Prop :=
  a.trie.size ≤ UInt32.size ∧ (a.trie.compile limit).steps.size ≤ UInt32.size ∧
    (a.trie.compile limit).arms.size < UInt32.size

instance (a : Assembly) (limit : Nat) : Decidable (a.Fits limit) :=
  inferInstanceAs (Decidable (_ ∧ _ ∧ _))

end Assembly

/-! ## Schemas -/

namespace Schema

/-- The fields are numbered in order, and so are their presence bits. -/
structure WF (s : Schema) : Prop where
  size_le : s.size ≤ UInt32.size
  words : s.words = (s.size + 31) / Position.wordWidth
  position {i : Nat} {f : Field} : s.fields[i]? = some f → f.position.toNat = i
  address {f : Field} : f ∈ s.fields → f.address = ⟨f.position.word, f.position.bit⟩

/-- A name is found at a position exactly if it is the name of the field there. -/
def FindsNames (s : Schema) : Prop :=
  ∀ (name : String) (i : Position),
    s.resolve name = some i ↔ ∃ f, s.fields[i.toNat]? = some f ∧ f.name = name

namespace WF

variable {s : Schema}

/-- The words have a bit for every field. -/
theorem size_le_words (h : s.WF) : s.size ≤ s.words * Position.wordWidth := by
  rw [h.words]
  simp only [Position.wordWidth]
  omega

theorem position_eq_iff (h : s.WF) {i : Position} {f : Field} (hf : f ∈ s.fields) :
    f.position = i ↔ s.field? i = some f := by
  obtain ⟨n, hn, rfl⟩ := List.getElem_of_mem hf
  have hpos : s.fields[n].position.toNat = n := h.position (List.getElem?_eq_getElem hn)
  rw [field?, ← Position.toNat_inj, hpos]
  constructor
  · rintro rfl
    exact List.getElem?_eq_getElem hn
  · intro hi
    rw [← hpos, h.position hi]

theorem field_position (h : s.WF) {f : Field} (hf : f ∈ s.fields) :
    s.field f.position = .ok f := by
  rw [field, (h.position_eq_iff hf).1 rfl]

end WF

namespace FindsNames

variable {s : Schema}

theorem resolve_name (h : s.FindsNames) (hwf : s.WF) {f : Field} (hf : f ∈ s.fields) :
    s.resolve f.name = some f.position :=
  (h _ _).2 ⟨f, (hwf.position_eq_iff hf).1 rfl, rfl⟩

theorem resolve_eq_none_iff (h : s.FindsNames) (hwf : s.WF) {name : String} :
    s.resolve name = none ↔ ∀ f ∈ s.fields, f.name ≠ name := by
  constructor
  · rintro hnone f hf rfl
    rw [h.resolve_name hwf hf] at hnone
    cases hnone
  · intro hnames
    rw [Option.eq_none_iff_forall_ne_some]
    intro i hi
    obtain ⟨f, hf, hname⟩ := (h name i).1 hi
    exact hnames f (List.mem_of_getElem? hf) hname

theorem lookup_of_mem (h : s.FindsNames) (hwf : s.WF) {f : Field} (hf : f ∈ s.fields) :
    s.lookup f.name = .ok f := by
  rw [lookup, positionOf, h.resolve_name hwf hf]
  exact hwf.field_position hf

theorem lookup_of_forall_ne (h : s.FindsNames) (hwf : s.WF) {name : String}
    (hname : ∀ f ∈ s.fields, f.name ≠ name) : s.lookup name = .error (.missing name) := by
  rw [lookup, positionOf, (h.resolve_eq_none_iff hwf).2 hname]
  rfl

theorem lookup_eq_ok_iff (h : s.FindsNames) (hwf : s.WF) {name : String} {f : Field} :
    s.lookup name = .ok f ↔ f ∈ s.fields ∧ f.name = name := by
  constructor
  · intro hlookup
    by_cases hname : ∃ g ∈ s.fields, g.name = name
    · obtain ⟨g, hg, rfl⟩ := hname
      rw [h.lookup_of_mem hwf hg] at hlookup
      exact Except.ok.inj hlookup ▸ ⟨hg, rfl⟩
    · rw [h.lookup_of_forall_ne hwf (by simpa using hname)] at hlookup
      cases hlookup
  · rintro ⟨hf, rfl⟩
    exact h.lookup_of_mem hwf hf

theorem lookup_eq_error_iff (h : s.FindsNames) (hwf : s.WF) {name : String} {e : Failure} :
    s.lookup name = .error e ↔ (∀ f ∈ s.fields, f.name ≠ name) ∧ e = .missing name := by
  constructor
  · intro hlookup
    have hname : ∀ f ∈ s.fields, f.name ≠ name := by
      rintro f hf rfl
      rw [h.lookup_of_mem hwf hf] at hlookup
      cases hlookup
    rw [h.lookup_of_forall_ne hwf hname] at hlookup
    exact ⟨hname, (Except.error.inj hlookup).symm⟩
  · rintro ⟨hname, rfl⟩
    exact h.lookup_of_forall_ne hwf hname

end FindsNames
end Schema

namespace Draft

variable {d : Draft} {fold : String → String}

/-- The schema of assembled declarations. -/
theorem finish_wf (d : Draft) {a : Assembly} {declared : List Declaration}
    (h : a.Compiles declared) : (d.finish a).WF := by
  have hfields : (d.finish a).fields = declared.mapIdx fun i d => d.compiled i := h.fields
  have hsize : (d.finish a).size = declared.length := by
    rw [Schema.size, hfields, List.length_mapIdx]
  refine ⟨hsize ▸ h.length_le, ?_, ?_, ?_⟩
  · show a.bits.words = _
    rw [h.bits, hsize]
    rfl
  · intro i f hf
    rw [hfields, List.getElem?_mapIdx] at hf
    obtain ⟨d, hd, rfl⟩ := Option.map_eq_some_iff.1 hf
    have hlt := (List.getElem?_eq_some_iff.1 hd).1
    exact Position.toNat_ofNat (Nat.lt_of_lt_of_le hlt h.length_le)
  · intro f hf
    rw [hfields] at hf
    obtain ⟨i, hi, rfl⟩ := List.mem_mapIdx.1 hf
    have hpos : (declared[i].compiled i).position.toNat = i :=
      Position.toNat_ofNat (Nat.lt_of_lt_of_le hi h.length_le)
    rw [Position.word, Position.bit, hpos]
    rfl

theorem finish_findsNames (d : Draft) {a : Assembly} {declared : List Declaration}
    (h : a.Compiles declared) (hfits : a.Fits d.limit) : (d.finish a).FindsNames := by
  obtain ⟨hsize, hsteps, harms⟩ := hfits
  have hrep := h.represents hsize
  have hfields : (d.finish a).fields = declared.mapIdx fun i d => d.compiled i := h.fields
  intro name i
  have hresolve : (d.finish a).resolve name = a.trie.get? name :=
    hrep.resolve_compile hsteps harms name
  rw [hresolve, hrep.get?_iff, hfields, List.getElem?_mapIdx, Declaration.insertions,
    List.mem_mapIdx]
  constructor
  · rintro ⟨n, hn, hentry⟩
    obtain ⟨rfl, rfl⟩ := Prod.mk.inj hentry
    rw [Position.toNat_ofNat (Nat.lt_of_lt_of_le hn h.length_le), List.getElem?_eq_getElem hn]
    exact ⟨_, rfl, rfl⟩
  · rintro ⟨f, hf, rfl⟩
    obtain ⟨d', hd', rfl⟩ := Option.map_eq_some_iff.1 hf
    obtain ⟨hlt, rfl⟩ := List.getElem?_eq_some_iff.1 hd'
    exact ⟨i.toNat, hlt, by simp [Position.toNat, Declaration.compiled]⟩

/-- Assembling succeeds if all of its passes do. -/
theorem assemble_eq_ok {a : Assembly} (h : d.assemble fold = .ok a) :
    ∃ declared, d.merged = .ok declared ∧ Declaration.vetNames fold [] declared = .ok () ∧
      declared.foldlM (Assembly.add d.id) .empty = .ok a := by
  unfold assemble at h
  cases hmerged : d.merged with
  | error rejection =>
    rw [hmerged] at h
    cases h
  | ok declared =>
    rw [hmerged] at h
    cases hvet : Declaration.vetNames fold [] declared with
    | error rejection =>
      simp only [bind, Except.bind, hvet] at h
      cases h
    | ok u =>
      simp only [bind, Except.bind, hvet] at h
      exact ⟨declared, rfl, hvet, h⟩

/-- Assembling is rejected by the first pass that is. -/
theorem assemble_eq_error {r : Rejection} (h : d.assemble fold = .error r) :
    d.merged = .error r ∨ ∃ declared, d.merged = .ok declared ∧
      (Declaration.vetNames fold [] declared = .error r ∨
        Declaration.vetNames fold [] declared = .ok () ∧
          declared.foldlM (Assembly.add d.id) .empty = .error r) := by
  unfold assemble at h
  cases hmerged : d.merged with
  | error rejection =>
    rw [hmerged] at h
    exact .inl (congrArg Except.error (Except.error.inj h))
  | ok declared =>
    rw [hmerged] at h
    refine .inr ⟨declared, rfl, ?_⟩
    cases hvet : Declaration.vetNames fold [] declared with
    | error rejection =>
      simp only [bind, Except.bind, hvet] at h
      exact .inl (congrArg Except.error (Except.error.inj h))
    | ok u =>
      simp only [bind, Except.bind, hvet] at h
      exact .inr ⟨rfl, h⟩

/-- Assembling compiles the declarations that merging gives. -/
theorem compiles_assemble {a : Assembly} (h : d.assemble fold = .ok a) :
    ∃ declared, d.merged = .ok declared ∧ Declaration.vetNames fold [] declared = .ok () ∧
      a.Compiles declared := by
  obtain ⟨declared, hmerged, hvet, hadd⟩ := assemble_eq_ok h
  exact ⟨declared, hmerged, hvet, Assembly.Compiles.empty.foldlM hadd⟩

theorem compileFolding_eq_ok {s : Schema} (h : (d.compileFolding fold).result = .ok s) :
    ∃ a, d.assemble fold = .ok a ∧ d.finish a = s := by
  unfold compileFolding at h
  cases ha : d.assemble fold with
  | error rejection => simp [ha] at h
  | ok a =>
    simp only [ha, Except.ok.injEq] at h
    exact ⟨a, rfl, h⟩

theorem compileFolding_eq_error {e : Failure} (h : (d.compileFolding fold).result = .error e) :
    ∃ r, d.assemble fold = .error r ∧ r.error = e := by
  unfold compileFolding at h
  cases ha : d.assemble fold with
  | error rejection =>
    simp only [ha, Except.error.injEq] at h
    exact ⟨rejection, rfl, h⟩
  | ok a => simp [ha] at h

/-- Whether 32-bit ids are enough if the draft compiles. -/
def Fits (d : Draft) (fold : String → String) : Prop :=
  ∀ a, d.assemble fold = .ok a → a.Fits d.limit

instance (d : Draft) (fold : String → String) : Decidable (d.Fits fold) :=
  match h : d.assemble fold with
  | .error _ => .isTrue fun a ha => by rw [h] at ha; cases ha
  | .ok a => decidable_of_iff (a.Fits d.limit)
    ⟨fun hfits b hb => by rw [h] at hb; exact Except.ok.inj hb ▸ hfits, fun hfits => hfits a h⟩

theorem wf_of_compileFolding {s : Schema} (h : (d.compileFolding fold).result = .ok s) : s.WF := by
  obtain ⟨a, ha, rfl⟩ := compileFolding_eq_ok h
  obtain ⟨declared, -, -, hcompiles⟩ := compiles_assemble ha
  exact d.finish_wf hcompiles

theorem Fits.findsNames (hfits : d.Fits fold) {s : Schema}
    (h : (d.compileFolding fold).result = .ok s) : s.FindsNames := by
  obtain ⟨a, ha, rfl⟩ := compileFolding_eq_ok h
  obtain ⟨declared, -, -, hcompiles⟩ := compiles_assemble ha
  exact d.finish_findsNames hcompiles (hfits a ha)

/-- A compiled schema finds a text at a position exactly if it is the name of the field there, and
nowhere else. Looking a name up therefore gives the field of exactly this name, or reports that the
name is missing; it never asks for a position outside the schema. -/
theorem compile_finds_names {d : Draft} {s : Schema} (hok : d.compile.result = .ok s)
    (hfits : d.Fits Text.lowercase) :
    (∀ name (i : Position), s.resolve name = some i ↔
      i.toNat < s.size ∧ ∃ f, s.fields[i.toNat]? = some f ∧ f.name = name) ∧
    (∀ name, s.resolve name = none ↔ ∀ f ∈ s.fields, f.name ≠ name) ∧
    (∀ name f, s.lookup name = .ok f ↔ f ∈ s.fields ∧ f.name = name) ∧
    ∀ name e, s.lookup name = .error e ↔ (∀ f ∈ s.fields, f.name ≠ name) ∧ e = .missing name := by
  have hwf : s.WF := wf_of_compileFolding hok
  have hfinds : s.FindsNames := hfits.findsNames hok
  refine ⟨fun name i => ?_, fun name => hfinds.resolve_eq_none_iff hwf,
    fun name f => hfinds.lookup_eq_ok_iff hwf, fun name e => hfinds.lookup_eq_error_iff hwf⟩
  rw [hfinds name i]
  constructor
  · rintro ⟨f, hf, hname⟩
    exact ⟨(List.getElem?_eq_some_iff.1 hf).1, f, hf, hname⟩
  · rintro ⟨-, hf⟩
    exact hf

/-- One name begins with the other, and their run is cut. -/
theorem compile_finds_longer_name :
    ∃ s, (((Draft.begin .empty).1.fields
        [("Identity", .text), ("Identity2", .int)]).withLimit 0).compile.result = .ok s ∧
      s.resolve "Identity2" = some ⟨1⟩ := by
  have hfits : (((Draft.begin .empty).1.fields
      [("Identity", .text), ("Identity2", .int)]).withLimit 0).Fits Text.lowercase := by
    decide +kernel
  have hruns : ((((Draft.begin .empty).1.fields
      [("Identity", .text), ("Identity2", .int)]).withLimit 0).compile.result.toOption.any fun s =>
        decide (s.fields[1]?.map (·.name) = some "Identity2")) = true := by
    decide +kernel
  obtain ⟨s, hok, hname⟩ := exists_ok_of_any hruns
  obtain ⟨f, hf, hfname⟩ := Option.map_eq_some_iff.1 hname
  exact ⟨s, hok, ((compile_finds_names hok hfits).1 _ ⟨1⟩).2
    ⟨(List.getElem?_eq_some_iff.1 hf).1, f, hf, hfname⟩⟩

end Draft
end TypedRecords
