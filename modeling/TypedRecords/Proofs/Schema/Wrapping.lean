import TypedRecords.Proofs.Name.Program.Wrapping
import TypedRecords.Proofs.Schema.Rejection

/-!
# A schema that loses its names

Whether a draft compiles depends on its declarations, and not on how its program is laid out. With
the least limit a draft of many fields therefore compiles although the ids of its steps wrap. None
of its fields is found by its name then, and a text that is no name finds a field (`Schema.Astray`,
`Draft.compile_crowded`). The names are numbers written in letters, all of one length and followed
by the same letter, so that they have two chunks each and share the second.
-/

namespace TypedRecords

/-! ## Numbers in letters -/

namespace Text

/-- A text all of whose characters are their own lower-case form is its own. -/
theorem lowercase_eq_self {s : String} (h : ∀ c ∈ s.toList, c ≠ 'Σ' ∧ lowerChar c = [c]) :
    lowercase s = s := by
  have hafter (cs before : List Char) (hcs : ∀ c ∈ cs, c ≠ 'Σ' ∧ lowerChar c = [c]) :
      lowerAfter before cs = cs := by
    induction cs generalizing before with
    | nil => rfl
    | cons c cs ih =>
      obtain ⟨hsigma, hlower⟩ := hcs c List.mem_cons_self
      rw [lowerAfter, if_neg hsigma, hlower, ih _ fun d hd => hcs d (List.mem_cons_of_mem _ hd)]
      rfl
  rw [lowercase, hafter _ _ h, String.ofList_toList]

/-- One of sixteen letters for the lowest digit of a number. -/
def letter (n : Nat) : Char := Char.ofNat ('a'.toNat + n % 16)

/-- The lowest digits of a number as letters, the lowest first. -/
def letters : Nat → Nat → List Char
  | 0, _ => []
  | width + 1, n => letter n :: letters width (n / 16)

/-- What holds of sixteen letters holds of all. -/
theorem letter_induction {P : Char → Prop} (h : ∀ n < 16, P (letter n)) (n : Nat) :
    P (letter n) := by
  have hmod : letter n = letter (n % 16) := by rw [letter, letter, Nat.mod_mod]
  rw [hmod]
  exact h _ (Nat.mod_lt n (by decide))

theorem letter_inj {n m : Nat} (h : letter n = letter m) : n % 16 = m % 16 := by
  have hsixteen : ∀ n < 16, ∀ m < 16, letter n = letter m → n = m := by decide
  refine hsixteen _ (Nat.mod_lt n (by decide)) _ (Nat.mod_lt m (by decide)) ?_
  rw [letter, letter, Nat.mod_mod, Nat.mod_mod]
  exact h

@[simp] theorem length_letters (width n : Nat) : (letters width n).length = width := by
  induction width generalizing n with
  | zero => rfl
  | succ width ih => rw [letters, List.length_cons, ih]

theorem exists_letter_of_mem {width n : Nat} {c : Char} (hc : c ∈ letters width n) :
    ∃ m, c = letter m := by
  induction width generalizing n with
  | zero => cases hc
  | succ width ih =>
    rcases List.mem_cons.1 hc with rfl | hlater
    · exact ⟨n, rfl⟩
    · exact ih hlater

/-- The letter behind these is its own lower-case form, as they are. -/
theorem lowerChar_q : 'q' ≠ 'Σ' ∧ lowerChar 'q' = ['q'] := by decide +kernel

/-- Numbers that are small enough are told apart by their letters. -/
theorem letters_inj {width n m : Nat} (hn : n < 16 ^ width) (hm : m < 16 ^ width)
    (h : letters width n = letters width m) : n = m := by
  induction width generalizing n m with
  | zero =>
    rw [Nat.pow_zero] at hn hm
    omega
  | succ width ih =>
    obtain ⟨hlowest, hothers⟩ := List.cons.inj h
    have hlow := letter_inj hlowest
    rw [Nat.pow_succ] at hn hm
    have hhigh := ih (by omega) (by omega) hothers
    omega

end Text

/-! ## Schemas whose program misleads -/

/-- No field is found by its name, but one is found by `text`, whose lower-case form is that of no
name. -/
structure Schema.Astray (s : Schema) (text : String) : Prop where
  resolve_name {f : Field} : f ∈ s.fields → s.resolve f.name = none
  lowercase_name {f : Field} : f ∈ s.fields → Text.lowercase f.name ≠ Text.lowercase text
  resolve_text : ∃ i, s.resolve text = some i

/-! ## Drafts of short names -/

namespace Assembly.Compiles

variable {a : Assembly} {declared : List Declaration} (h : a.Compiles declared)

include h

/-- If no name has more than `c` chunks, `c` nodes for every declaration and the root are enough. -/
theorem size_le {c : Nat} (hchunks : ∀ d ∈ declared, (Name.chunks d.name.toList).length ≤ c) :
    a.trie.size ≤ 1 + c * declared.length := by
  have hcalls : ∀ call ∈ Declaration.insertions declared,
      (Name.chunks call.1.toList).length ≤ c := by
    intro call hcall
    obtain ⟨d, hd, hname⟩ := Declaration.exists_of_mem_insertions hcall
    exact hname ▸ hchunks d hd
  have hsize := Name.Trie.size_ofCalls_le hcalls
  rwa [h.ofCalls_insertions.1, Declaration.insertions, List.length_mapIdx] at hsize

/-- As long as no node id wraps, the ids of the nodes are their places. -/
theorem fits (hsize : a.trie.size ≤ UInt32.size) :
    a.trie.Fits (Declaration.insertions declared) := by
  obtain ⟨htrie, hcalls⟩ := h.ofCalls_insertions
  have hspells := Name.Trie.spells_ofCalls (Declaration.insertions declared) (htrie ▸ hsize)
  rw [htrie, hcalls] at hspells
  exact ⟨h.represents hsize, hspells, hsize⟩

end Assembly.Compiles

namespace Draft

variable {d : Draft} {fold : String → String}

/-- Short names, not too many of them, do not use up the ids. -/
theorem withinIds_of_length_chunks_le {c : Nat} (hlength : d.united.length ≤ UInt32.size)
    (hchunks : ∀ e ∈ d.united, (Name.chunks e.name.toList).length ≤ c)
    (hfew : 1 + c * d.united.length ≤ UInt32.size) : d.WithinIds fold := by
  intro declared hdeclared
  obtain rfl := merged_eq_united (toOption_eq_some_iff.1 hdeclared)
  refine ⟨hlength, fun _ before hbefore a ha => ?_⟩
  have hbegins := (List.mem_inits _ _).1 hbefore
  have hcompiles : a.Compiles before :=
    Assembly.Compiles.empty.foldlM (toOption_eq_some_iff.1 ha)
  have hsize := hcompiles.size_le fun e he => hchunks e (hbegins.subset he)
  have hmul := Nat.mul_le_mul_left c hbegins.length_le
  omega

/-! ## A crowded draft -/

theorem fields_eq (d : Draft) (fields : List (String × DataType)) : d.fields fields =
    { d with declared := d.declared ++ fields.map fun f => ⟨f.1, f.2, .none⟩ } := by
  induction fields generalizing d with
  | nil => simp [Draft.fields]
  | cons f fields ih =>
    have hcons : d.fields (f :: fields) = (d.field f.1 f.2).fields fields := rfl
    rw [hcons, ih, field, declare, List.map_cons, List.append_assoc]
    rfl

/-- A number in letters, followed by a letter for which no number stands. -/
def crowdedName (n : Nat) : String := String.ofList (Text.letters Name.charsPerChunk n ++ ['q'])

section

variable (n : Nat)

theorem toList_crowdedName :
    (crowdedName n).toList = Text.letters Name.charsPerChunk n ++ ['q'] :=
  String.toList_ofList

theorem crowdedName_ne_empty : crowdedName n ≠ "" := by
  rw [Ne, ← String.toList_inj, toList_crowdedName]
  simp

theorem forall_mem_crowdedName {P : Char → Prop} (h : ∀ n < 16, P (Text.letter n)) (hq : P 'q') :
    ∀ c ∈ (crowdedName n).toList, P c := by
  intro c hc
  rw [toList_crowdedName, List.mem_append, List.mem_singleton] at hc
  rcases hc with hc | rfl
  · obtain ⟨m, rfl⟩ := Text.exists_letter_of_mem hc
    exact Text.letter_induction h m
  · exact hq

theorem isPackable_of_mem_crowdedName :
    ∀ c ∈ (crowdedName n).toList, Name.isPackable c = true :=
  forall_mem_crowdedName n (by decide) (by decide)

theorem lowercase_crowdedName : Text.lowercase (crowdedName n) = crowdedName n :=
  Text.lowercase_eq_self (forall_mem_crowdedName n (by decide +kernel) Text.lowerChar_q)

theorem chunks_crowdedName : Name.chunks (crowdedName n).toList =
    [Name.key (Text.letters Name.charsPerChunk n), Name.key ['q']] := by
  have hfirst := Text.length_letters Name.charsPerChunk n
  rw [toList_crowdedName, Name.chunks_of_ne_nil (by simp), List.take_left' hfirst,
    List.drop_left' hfirst, Name.chunks_of_length_le (by simp) (by decide)]

theorem crowdedName_inj {n m : Nat} (hn : n < UInt32.size) (hm : m < UInt32.size)
    (h : crowdedName n = crowdedName m) : n = m := by
  have hletters := congrArg String.toList h
  rw [toList_crowdedName, toList_crowdedName] at hletters
  exact Text.letters_inj hn hm (List.append_cancel_right hletters)

/-- The last letter alone is the chunk that the names share. -/
theorem pack_lastLetter : Name.pack "q" = .ok [Name.key ['q']] :=
  Name.pack_eq_ok_iff.2 ⟨List.forall_mem_singleton.2 (by decide),
    Name.chunks_of_length_le (List.cons_ne_nil _ _) (by decide)⟩

theorem lowercase_lastLetter : Text.lowercase "q" = "q" :=
  Text.lowercase_eq_self (List.forall_mem_singleton.2 Text.lowerChar_q)

theorem pack_crowdedName_ne : Name.pack (crowdedName n) ≠ .ok [Name.key ['q']] := by
  intro hpack
  have hchunks := (Name.pack_eq_ok_iff.1 hpack).2
  rw [chunks_crowdedName] at hchunks
  simp at hchunks

theorem lowercase_crowdedName_ne : Text.lowercase (crowdedName n) ≠ Text.lowercase "q" := by
  rw [lowercase_crowdedName, lowercase_lastLetter]
  intro hsame
  exact pack_crowdedName_ne n (hsame ▸ pack_lastLetter)

end

/-- A draft of `count` fields of such names, with the least limit. -/
def crowded (count : Nat) : Draft :=
  ((begin .empty).1.fields ((List.range count).map fun n => (crowdedName n, .int))).withLimit 2

section

variable {count : Nat}

theorem united_crowded : (crowded count).united =
    (List.range count).map fun n => ⟨crowdedName n, .int, .none⟩ := by
  rw [crowded, fields_eq, united, mixedFields]
  simp [withLimit, begin]

theorem length_united_crowded : (crowded count).united.length = count := by
  rw [united_crowded, List.length_map, List.length_range]

theorem exists_of_mem_united_crowded {e : Declaration} (he : e ∈ (crowded count).united) :
    e.type = .int ∧ ∃ n, e.name = crowdedName n := by
  rw [united_crowded] at he
  obtain ⟨n, -, rfl⟩ := List.mem_map.1 he
  exact ⟨rfl, n, rfl⟩

theorem valid_crowded (hcount : count ≤ UInt32.size) : (crowded count).Valid Text.lowercase := by
  have hmixed : (crowded count).mixedFields = [] := by
    rw [crowded, fields_eq]
    rfl
  refine ⟨hmixed ▸ faultless_nil _, Declaration.faultless_nameFault_iff.2 ⟨?_, ?_⟩,
    Declaration.faultless_charFault_iff.2 ?_⟩
  · intro e he
    obtain ⟨-, n, hname⟩ := exists_of_mem_united_crowded he
    exact hname ▸ crowdedName_ne_empty n
  · rw [united_crowded, List.pairwise_map]
    refine List.Pairwise.imp_of_mem (fun {n m} hn hm hne hsame => hne ?_) List.nodup_range
    rw [lowercase_crowdedName, lowercase_crowdedName] at hsame
    rw [List.mem_range] at hn hm
    exact crowdedName_inj (by omega) (by omega) hsame
  · intro e he
    obtain ⟨-, n, hname⟩ := exists_of_mem_united_crowded he
    exact hname ▸ isPackable_of_mem_crowdedName n

theorem withinIds_crowded (hcount : 1 + 2 * count ≤ UInt32.size) :
    (crowded count).WithinIds Text.lowercase := by
  have hlength : (crowded count).united.length = count := length_united_crowded
  refine withinIds_of_length_chunks_le (by omega) (fun e he => ?_) (by rwa [hlength])
  obtain ⟨-, n, hname⟩ := exists_of_mem_united_crowded he
  rw [hname, chunks_crowdedName]
  exact Nat.le_refl _

section

variable {a : Assembly} (h : a.Compiles (crowded count).united)

include h

theorem exists_of_mem_fields_crowded {f : Field} (hf : f ∈ a.fields) :
    f.type = .int ∧ ∃ n, f.name = crowdedName n := by
  obtain ⟨e, he, hname, htype⟩ := h.exists_of_mem_fields hf
  rw [← hname, ← htype]
  exact exists_of_mem_united_crowded he

/-- If the program has one step more than there are ids, it finds the last letter alone. -/
theorem resolve_crowded (hcount : 3 * count = UInt32.size + 2) (hsize : a.trie.size ≤ UInt32.size) :
    ∃ stray, ∀ name i, ((crowded count).finish a).resolve name = some i ↔
      Name.pack name = .ok [Name.key ['q']] ∧ stray = i := by
  have hpaths : ∀ entry ∈ Declaration.insertions (crowded count).united,
      ∃ first, Name.chunks entry.1.toList = [first, Name.key ['q']] := by
    intro entry hentry
    obtain ⟨e, he, hname⟩ := Declaration.exists_of_mem_insertions hentry
    obtain ⟨-, n, hn⟩ := exists_of_mem_united_crowded he
    exact ⟨_, by rw [← hname, hn, chunks_crowdedName]⟩
  have hlength : 3 * (Declaration.insertions (crowded count).united).length = UInt32.size + 2 := by
    rwa [Declaration.insertions, List.length_mapIdx, length_united_crowded]
  exact (h.fits hsize).resolve_compile_wrapped hpaths (Nat.le_refl 2) hlength

/-- The schema leads astray then. -/
theorem astray_crowded (hcount : 3 * count = UInt32.size + 2) (hsize : a.trie.size ≤ UInt32.size) :
    ((crowded count).finish a).Astray "q" := by
  obtain ⟨stray, hresolve⟩ := resolve_crowded h hcount hsize
  refine ⟨fun {f} hf => ?_, fun {f} hf => ?_, stray, (hresolve "q" stray).2 ⟨pack_lastLetter, rfl⟩⟩
  · obtain ⟨-, n, hname⟩ := exists_of_mem_fields_crowded h hf
    rw [hname, Option.eq_none_iff_forall_ne_some]
    exact fun i hi => pack_crowdedName_ne n ((hresolve _ i).1 hi).1
  · obtain ⟨-, n, hname⟩ := exists_of_mem_fields_crowded h hf
    rw [hname]
    exact lowercase_crowdedName_ne n

end

/-- With one step more than there are ids the draft compiles to a schema that leads astray. -/
theorem compile_crowded (hcount : 3 * count = UInt32.size + 2) :
    ∃ s, (crowded count).compile.result = .ok s ∧ s.Astray "q" ∧ s.size = count ∧
      ∀ f ∈ s.fields, f.type = .int := by
  have hnodes : 1 + 2 * count ≤ UInt32.size := by
    simp only [UInt32.size] at hcount ⊢
    omega
  have hids := withinIds_crowded hnodes
  obtain ⟨a, ha, hcompiles⟩ := exists_assemble hids (valid_crowded (by omega))
  obtain ⟨declared, hmerged, hvet, hadd⟩ := assemble_eq_ok ha
  obtain rfl := merged_eq_united hmerged
  have hsize := hids.size_le hmerged hvet List.prefix_rfl hadd
  refine ⟨(crowded count).finish a, ?_, astray_crowded hcompiles hcount hsize, ?_,
    fun f hf => (exists_of_mem_fields_crowded hcompiles hf).1⟩
  · rw [compile, compileFolding, ha]
  · show a.fields.length = count
    rw [hcompiles.fields, List.length_mapIdx, length_united_crowded]

end

/-- There are so many fields that the ids of steps wrap. -/
theorem exists_astray : ∃ s f, (crowded 1431655766).compile.result = .ok s ∧ s.Astray "q" ∧
    s.size < UInt32.size ∧ s.fields[0]? = some f ∧ f.type = .int := by
  obtain ⟨s, hok, hastray, hsize, htype⟩ := @compile_crowded 1431655766 (by decide)
  have hpos : 0 < s.fields.length := by
    rw [← Schema.size, hsize]
    decide
  refine ⟨s, s.fields[0], hok, hastray, ?_, List.getElem?_eq_getElem hpos,
    htype _ (List.getElem_mem hpos)⟩
  rw [hsize]
  decide

end Draft
end TypedRecords
