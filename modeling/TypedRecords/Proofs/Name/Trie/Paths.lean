import TypedRecords.Proofs.Name.Trie.Insertion

/-!
# Where the nodes of a trie lie

A trie has a node at the end of a path exactly if the path is the root's or a beginning of the path
of some name, a field exactly at the ends of the names' paths, and it is as deep as the longest of
them (`Trie.Spells`). All this depends on the names and their fields alone: neither the order in
which they were inserted nor the insertions that failed leave a trace.
-/

namespace TypedRecords.Name.Trie

/-- What lies at the ends of paths is what the names of `entries` and their fields make it. -/
structure Spells (t : Trie) (entries : List (String × Position)) : Prop where
  isSome_find?_iff {path : List UInt64} : (t.find? .root path).isSome = true ↔
    path = [] ∨ ∃ entry ∈ entries, path <+: chunks entry.1.toList
  fieldAt_eq_some_iff {path : List UInt64} {field : Position} :
    t.fieldAt path = some field ↔ ∃ name, (name, field) ∈ entries ∧ chunks name.toList = path
  depth_le_iff {n : Nat} :
    t.depth ≤ n ↔ ∀ entry ∈ entries, (chunks entry.1.toList).length ≤ n

theorem isSome_find?_of_prefix {t : Trie} {path longer : List UInt64} (h : path <+: longer)
    (hlonger : (t.find? .root longer).isSome = true) : (t.find? .root path).isSome = true := by
  obtain ⟨rest, rfl⟩ := h
  rw [find?_append] at hlonger
  exact Option.isSome_of_isSome_bind hlonger

theorem isSome_find?_of_fieldAt {t : Trie} {path : List UInt64} {field : Position}
    (h : t.fieldAt path = some field) : (t.find? .root path).isSome = true := by
  obtain ⟨id, hid, -⟩ := Option.bind_eq_some_iff.1 h
  rw [hid]
  rfl

theorem Spells.empty : Spells .empty [] where
  isSome_find?_iff {path} := by
    cases path with
    | nil => simp [find?]
    | cons k path => simp [find?_cons, child?, Node.fresh]
  fieldAt_eq_some_iff {path field} := by
    cases path with
    | nil => simp [fieldAt, find?, Node.fresh]
    | cons k path => simp [fieldAt, find?_cons, child?, Node.fresh]
  depth_le_iff {n} := by simp [Trie.empty]

section

variable {t t' : Trie} {entries : List (String × Position)} {name : String} {field : Position}
  (h : t.Spells entries) (hplanted : Planted t t' (chunks name.toList) field)
  (hfree : t.fieldAt (chunks name.toList) = none)

include h hplanted hfree

theorem Spells.fieldAt_planted_eq_some_iff {path : List UInt64} {other : Position} :
    t'.fieldAt path = some other ↔
      ∃ s, (s, other) ∈ entries ++ [(name, field)] ∧ chunks s.toList = path := by
  rw [hplanted.fieldAt_eq]
  split
  · next hpath =>
    subst hpath
    constructor
    · intro heq
      obtain rfl := Option.some.inj heq
      exact ⟨name, by simp, rfl⟩
    · rintro ⟨s, hs, hpath⟩
      rcases List.mem_append.1 hs with hold | hlast
      · -- no name inserted before has this path
        have htaken := h.fieldAt_eq_some_iff.2 ⟨s, hold, hpath⟩
        rw [hfree] at htaken
        cases htaken
      · cases List.mem_singleton.1 hlast
        rfl
  · next hpath =>
    rw [h.fieldAt_eq_some_iff]
    constructor
    · rintro ⟨s, hs, rfl⟩
      exact ⟨s, List.mem_append_left _ hs, rfl⟩
    · rintro ⟨s, hs, rfl⟩
      rcases List.mem_append.1 hs with hold | hlast
      · exact ⟨s, hold, rfl⟩
      · cases List.mem_singleton.1 hlast
        exact absurd rfl hpath

/-- Planting the path of one more name. -/
theorem Spells.planted : t'.Spells (entries ++ [(name, field)]) where
  isSome_find?_iff {path} := by
    constructor
    · intro hsome
      cases hold : t.find? .root path with
      | none =>
        obtain ⟨id, hid⟩ := Option.isSome_iff_exists.1 hsome
        exact .inr ⟨(name, field), by simp, hplanted.prefix_of_new hold hid⟩
      | some id =>
        refine (h.isSome_find?_iff.1 (Option.isSome_of_eq_some hold)).imp_right ?_
        rintro ⟨entry, hentry, hprefix⟩
        exact ⟨entry, List.mem_append_left _ hentry, hprefix⟩
    · rintro (rfl | ⟨⟨s, other⟩, hentry, hprefix⟩)
      · rfl
      · have hend := (h.fieldAt_planted_eq_some_iff hplanted hfree).2 ⟨s, hentry, rfl⟩
        exact isSome_find?_of_prefix hprefix (isSome_find?_of_fieldAt hend)
  fieldAt_eq_some_iff := h.fieldAt_planted_eq_some_iff hplanted hfree
  depth_le_iff {n} := by
    rw [hplanted.depth, Nat.max_le, h.depth_le_iff]
    simp only [List.mem_append, List.mem_singleton, or_imp, forall_and, forall_eq]

end

theorem Spells.insert {t t' : Trie} {entries : List (String × Position)} (h : t.Spells entries)
    (hrep : t.Represents entries) {name : String} {field : Position}
    (hins : t.insert name field = .ok t') (hsize : t'.size ≤ UInt32.size) :
    t'.Spells (entries ++ [(name, field)]) := by
  obtain ⟨hname, rfl⟩ := hrep.insert_eq_ok hins
  obtain ⟨-, hpackable, hnew⟩ := refusal_eq_none_iff.1 hname
  have hpack : pack name = .ok (chunks name.toList) := pack_eq_ok_iff.2 ⟨hpackable, rfl⟩
  refine h.planted (hrep.wf.plant field (ne_zero_of_mem_chunks hpackable) hsize) ?_
  rw [← Option.not_isSome_iff_eq_none, ← isTaken_eq, hrep.isTaken_iff hpack]
  exact hnew

/-- After any insertions the names that were inserted decide what lies at the ends of paths. -/
theorem spells_ofCalls (calls : List (String × Position))
    (hsize : (ofCalls calls).size ≤ UInt32.size) : (ofCalls calls).Spells (succeeded calls) := by
  have hboth : (ofCalls calls).Represents (succeeded calls) ∧
      (ofCalls calls).Spells (succeeded calls) :=
    ofCalls_induction (P := fun t entries => t.Represents entries ∧ t.Spells entries)
      ⟨.empty, .empty⟩ (fun hins hsize h => ⟨h.1.insert hins hsize, h.2.insert h.1 hins hsize⟩)
      calls hsize
  exact hboth.2

end TypedRecords.Name.Trie
