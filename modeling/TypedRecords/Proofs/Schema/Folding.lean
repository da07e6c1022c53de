import TypedRecords.Proofs.Schema.Wrapping

/-!
# Lookup by the image of a name

A schema looks a name up in two ways when case is ignored: by its program, and, if that finds
nothing, by going through the fields and comparing images. Unless an id wraps, the program finds
only fields of exactly the given name, and the images of the names in a compiled schema are apart
(`Schema.Apart`) because the draft was checked for that. The first way is therefore a shortcut of
the second (`Schema.Apart.resolveFolding_eq`), and what is found depends on the image alone.
-/

namespace TypedRecords

namespace Schema

variable {s : Schema} {fold : String → String}

/-- The position of the first field whose name has the same image as `name`, found by going through
all fields. -/
def scanFolding (s : Schema) (fold : String → String) (name : String) : Option Position :=
  (s.fields.find? fun field => fold field.name == fold name).map (·.position)

/-- No two fields have names of one image. -/
def Apart (s : Schema) (fold : String → String) : Prop :=
  s.fields.Pairwise fun f g => fold f.name ≠ fold g.name

namespace Apart

theorem eq_of_fold_eq (h : s.Apart fold) {f g : Field} (hf : f ∈ s.fields) (hg : g ∈ s.fields)
    (hsame : fold f.name = fold g.name) : f = g := by
  have : Std.Symm fun f g : Field => fold f.name ≠ fold g.name := ⟨fun _ _ => Ne.symm⟩
  by_contra hne
  exact h.forall hf hg hne hsame

theorem index_eq_of_fold_eq (h : s.Apart fold) (hwf : s.WF) {i j : Nat} {f g : Field}
    (hf : s.fields[i]? = some f) (hg : s.fields[j]? = some g)
    (hsame : fold f.name = fold g.name) : i = j := by
  obtain rfl := h.eq_of_fold_eq (List.mem_of_getElem? hf) (List.mem_of_getElem? hg) hsame
  rw [← hwf.position hf, ← hwf.position hg]

/-- Going through the fields finds the one field of the image. -/
theorem scanFolding_eq_some_iff (h : s.Apart fold) (hwf : s.WF) {name : String} {i : Position} :
    s.scanFolding fold name = some i ↔
      ∃ f, s.fields[i.toNat]? = some f ∧ fold f.name = fold name := by
  rw [scanFolding, Option.map_eq_some_iff]
  constructor
  · rintro ⟨f, hfind, hposition⟩
    have hsame : fold f.name = fold name := by simpa using List.find?_some hfind
    exact ⟨f, (hwf.position_eq_iff (List.mem_of_find?_eq_some hfind)).1 hposition, hsame⟩
  · rintro ⟨f, hf, hsame⟩
    have hmem : f ∈ s.fields := List.mem_of_getElem? hf
    have hsome : (s.fields.find? fun field => fold field.name == fold name).isSome := by
      rw [List.find?_isSome]
      exact ⟨f, hmem, by simpa using hsame⟩
    obtain ⟨first, hfirst⟩ := Option.isSome_iff_exists.1 hsome
    have hfold : fold first.name = fold name := by simpa using List.find?_some hfirst
    obtain rfl := h.eq_of_fold_eq (List.mem_of_find?_eq_some hfirst) hmem (hfold.trans hsame.symm)
    exact ⟨first, hfirst, (hwf.position_eq_iff hmem).2 hf⟩

/-- What the program finds, going through the fields finds, too. -/
theorem scanFolding_of_resolve (h : s.Apart fold) (hwf : s.WF) (hfinds : s.FindsNames)
    {name : String} {i : Position} (hresolve : s.resolve name = some i) :
    s.scanFolding fold name = some i := by
  obtain ⟨f, hf, rfl⟩ := (hfinds name i).1 hresolve
  exact (h.scanFolding_eq_some_iff hwf).2 ⟨f, hf, rfl⟩

/-- The program is a shortcut. -/
theorem resolveFolding_eq (h : s.Apart fold) (hwf : s.WF) (hfinds : s.FindsNames) (name : String) :
    s.resolveFolding fold name = s.scanFolding fold name := by
  rw [resolveFolding]
  cases hresolve : s.resolve name with
  | some i => exact (h.scanFolding_of_resolve hwf hfinds hresolve).symm
  | none => rfl

end Apart
end Schema

namespace Draft

variable {d : Draft} {fold : String → String} {s : Schema}

/-- The names of a compiled schema were checked for their images. -/
theorem apart_of_compileFolding (h : (d.compileFolding fold).result = .ok s) : s.Apart fold := by
  obtain ⟨a, ha, rfl⟩ := compileFolding_eq_ok h
  obtain ⟨declared, hmerged, hvet, hcompiles⟩ := compiles_assemble ha
  have hpass := d.passes_vetNames_united fold
  rw [← merged_eq_united hmerged, hvet] at hpass
  have hapart := (Declaration.faultless_nameFault_iff.1 hpass.2).2
  show (a.fields).Pairwise _
  rw [hcompiles.fields, List.pairwise_iff_getElem]
  intro i j hi hj hlt
  rw [List.length_mapIdx] at hi hj
  rw [List.getElem_mapIdx, List.getElem_mapIdx]
  exact List.pairwise_iff_getElem.1 hapart i j hi hj hlt

/-- Lookup in a compiled schema when case is ignored, whatever image of the names stands for that.
Of one image there is one field at most. A text is found at a position exactly if the name of the
field there has its image, whether the fields are gone through or, unless a 32-bit id wraps, the
program is asked first: what the program finds is what going through the fields finds. Texts of one
image are therefore answered alike. -/
theorem compile_resolves_images (hok : (d.compileFolding fold).result = .ok s) :
    (∀ (i j : Nat) (f g : Field), s.fields[i]? = some f → s.fields[j]? = some g →
      fold f.name = fold g.name → i = j) ∧
    (∀ name (i : Position), s.scanFolding fold name = some i ↔
      i.toNat < s.size ∧ ∃ f, s.fields[i.toNat]? = some f ∧ fold f.name = fold name) ∧
    (d.Fits fold →
      (∀ name (i : Position), s.resolveFolding fold name = some i ↔
        i.toNat < s.size ∧ ∃ f, s.fields[i.toNat]? = some f ∧ fold f.name = fold name) ∧
      (∀ name i, s.resolve name = some i → s.scanFolding fold name = some i) ∧
      ∀ name name', fold name = fold name' →
        s.resolveFolding fold name = s.resolveFolding fold name') := by
  have hwf : s.WF := wf_of_compileFolding hok
  have hapart : s.Apart fold := apart_of_compileFolding hok
  have hscan (name : String) (i : Position) : s.scanFolding fold name = some i ↔
      i.toNat < s.size ∧ ∃ f, s.fields[i.toNat]? = some f ∧ fold f.name = fold name := by
    rw [hapart.scanFolding_eq_some_iff hwf]
    constructor
    · rintro ⟨f, hf, hsame⟩
      exact ⟨(List.getElem?_eq_some_iff.1 hf).1, f, hf, hsame⟩
    · exact And.right
  refine ⟨fun i j f g hf hg => hapart.index_eq_of_fold_eq hwf hf hg, hscan, fun hfits => ?_⟩
  have heq := hapart.resolveFolding_eq hwf (hfits.findsNames hok)
  refine ⟨fun name i => ?_, fun name i => ?_, fun name name' hsame => ?_⟩
  · rw [heq]
    exact hscan name i
  · exact hapart.scanFolding_of_resolve hwf (hfits.findsNames hok)
  · rw [heq, heq, Schema.scanFolding, Schema.scanFolding, hsame]

/-- The Kelvin sign, which no name can have, is a `k` when case is ignored. -/
theorem compile_resolves_kelvin_sign :
    ∃ s, ((Draft.begin .empty).1.fields [("Id", .guid), ("Key", .text)]).compile.result = .ok s ∧
      s.resolveIgnoringCase "\u212aEY" = some ⟨1⟩ := by
  have hfits : ((Draft.begin .empty).1.fields
      [("Id", .guid), ("Key", .text)]).Fits Text.lowercase := by decide +kernel
  have hruns : (((Draft.begin .empty).1.fields
      [("Id", .guid), ("Key", .text)]).compile.result.toOption.any fun s =>
        decide (s.fields[1]?.map (·.name) = some "Key")) = true := by decide +kernel
  obtain ⟨s, hok, hname⟩ := exists_ok_of_any hruns
  obtain ⟨f, hf, hfname⟩ := Option.map_eq_some_iff.1 hname
  have hsame : Text.lowercase f.name = Text.lowercase "\u212aEY" := by
    rw [hfname]
    decide +kernel
  exact ⟨s, hok, (((compile_resolves_images hok).2.2 hfits).1 _ ⟨1⟩).2
    ⟨(List.getElem?_eq_some_iff.1 hf).1, f, hf, hsame⟩⟩

/-- Where an id has wrapped, the program can find a field by a text although no name has its image,
and the fields are not gone through then. -/
theorem not_resolves_images : ∃ s i, (crowded 1431655766).compile.result = .ok s ∧
    s.resolveIgnoringCase "q" = some i ∧
      ∀ f ∈ s.fields, Text.lowercase f.name ≠ Text.lowercase "q" := by
  obtain ⟨s, -, hok, hastray, -⟩ := exists_astray
  obtain ⟨i, hi⟩ := hastray.resolve_text
  refine ⟨s, i, hok, ?_, fun f hf => hastray.lowercase_name hf⟩
  rw [Schema.resolveIgnoringCase, Schema.resolveFolding, hi]

end Draft
end TypedRecords
