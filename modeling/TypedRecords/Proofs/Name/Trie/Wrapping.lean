import Mathlib.Data.List.Infix
import TypedRecords.Proofs.Name.Trie.Arena

/-!
# When the ids of nodes wrap

A node's id is its place in the array, cut to 32 bits. What limits the names is their number, but
there are as many nodes as beginnings of paths, and the root. So the ids are the places exactly if
there are fewer than `2 ^ 32` beginnings (`Trie.ids_are_places_iff`). A single name can have that
many, and then its last node takes the root's id (`Trie.ids_wrap_in_one_name`).
-/

namespace TypedRecords.Name.Trie

/-! ## The nodes that are added -/

/-- A node that was added: its place in the array, and the id it was given. -/
structure Creation where
  place : Nat
  id : NodePlace
  deriving DecidableEq, Repr

/-- The nodes that growing a path adds. -/
def growing (t : Trie) (start : NodePlace) : List UInt64 → List Creation
  | [] => []
  | key :: path =>
    match t.child? start key with
    | some child => t.growing child path
    | none =>
      let (child, t') := t.addChild start key
      ⟨t.size, child⟩ :: t'.growing child path

/-- The nodes that adding names for the fields from position `start` on adds, until one is
refused. -/
def insertingAll (t : Trie) (start : Nat) : List String → List Creation
  | [] => []
  | name :: names =>
    match Position.ofNat? start with
    | none => []
    | some field =>
      match t.insert name field with
      | .error _ => []
      | .ok t' => t.growing .root (chunks name.toList) ++ t'.insertingAll (start + 1) names

/-- The nodes added for the names of a trie. -/
def creations (names : List String) : List Creation := empty.insertingAll 0 names

section

variable {t : Trie} {start : NodePlace} {path : List UInt64}

/-- The nodes that growing a path adds are put one behind the other. -/
theorem map_place_growing (t : Trie) (start : NodePlace) (path : List UInt64) :
    (t.growing start path).map Creation.place =
      List.range' t.size ((t.grow start path).2.size - t.size) := by
  induction path generalizing t start with
  | nil => simp [growing, grow]
  | cons k path ih =>
    rw [growing, grow]
    cases t.child? start k with
    | some child => exact ih t child
    | none =>
      have hle := size_le_grow (t.addChild start k).2 (t.addChild start k).1 path
      have hrest := ih (t.addChild start k).2 (t.addChild start k).1
      rw [size_addChild] at hle hrest
      dsimp only
      rw [List.map_cons, hrest, eq_comm, List.range'_eq_cons_iff]
      refine ⟨rfl, by omega, ?_⟩
      congr 1

theorem mem_place_growing_iff {place : Nat} :
    place ∈ (t.growing start path).map Creation.place ↔
      t.size ≤ place ∧ place < (t.grow start path).2.size := by
  have := size_le_grow t start path
  rw [map_place_growing, List.mem_range'_1]
  omega

/-- The nodes that an insertion adds are put behind the others. -/
theorem mem_place_insert_iff {t' : Trie} {name : String} {field : Position}
    (hins : t.insert name field = .ok t') {place : Nat} :
    place ∈ (t.growing .root (chunks name.toList)).map Creation.place ↔
      t.size ≤ place ∧ place < t'.size := by
  rw [mem_place_growing_iff, ← size_plant t _ field, ← eq_plant_of_insert hins]

theorem id_of_mem_growing {c : Creation} (hc : c ∈ t.growing start path) :
    c.id = .ofNat c.place := by
  induction path generalizing t start with
  | nil => cases hc
  | cons k path ih =>
    rw [growing] at hc
    split at hc
    · exact ih hc
    · rcases List.mem_cons.1 hc with rfl | hlater
      · rfl
      · exact ih hlater

theorem id_of_mem_insertingAll {first : Nat} {names : List String} {c : Creation}
    (hc : c ∈ t.insertingAll first names) : c.id = .ofNat c.place := by
  induction names generalizing t first with
  | nil => cases hc
  | cons name names ih =>
    rw [insertingAll] at hc
    split at hc
    · cases hc
    · split at hc
      · cases hc
      · rcases List.mem_append.1 hc with hc | hc
        · exact id_of_mem_growing hc
        · exact ih hc

/-- A node has its place for an id as long as 32 bits can hold it. -/
theorem id_eq_place_iff {c : Creation} (h : c.id = .ofNat c.place) :
    c.id.toNat = c.place ↔ c.place < UInt32.size := by
  rw [h]
  constructor
  · intro heq
    rw [← heq]
    exact UInt32.toNat_lt_size _
  · exact NodePlace.toNat_ofNat

end

/-! ## How many nodes are added -/

theorem size_grow_le_length (t : Trie) (start : NodePlace) (path : List UInt64) :
    (t.grow start path).2.size ≤ t.size + path.length := by
  induction path generalizing t start with
  | nil => exact Nat.le_refl _
  | cons k path ih =>
    rw [grow, List.length_cons]
    cases t.child? start k with
    | some child =>
      have := ih t child
      dsimp only
      omega
    | none =>
      have := ih (t.addChild start k).2 (t.addChild start k).1
      rw [size_addChild] at this
      dsimp only
      omega

/-- If no name has more than `c` chunks, `c` nodes for every insertion and the root are enough. -/
theorem size_ofCalls_le {c : Nat} {calls : List (String × Position)}
    (h : ∀ call ∈ calls, (chunks call.1.toList).length ≤ c) :
    (ofCalls calls).size ≤ 1 + c * calls.length := by
  induction calls using List.reverseRecOn with
  | nil => exact Nat.le_refl _
  | append_singleton calls call ih =>
    have hof : ofCalls (calls ++ [call]) = (attempt (ofCalls calls, succeeded calls) call).1 := by
      simp [ofCalls, succeeded]
    have hbefore := ih fun other hother => h other (List.mem_append_left _ hother)
    have hchunks := h call (List.mem_append_right _ (List.mem_singleton_self _))
    rw [hof, List.length_append, List.length_singleton, Nat.mul_add_one]
    unfold attempt
    cases hins : (ofCalls calls).insert call.1 call.2 with
    | error failure =>
      dsimp only
      omega
    | ok t =>
      have hgrow := size_grow_le_length (ofCalls calls) .root (chunks call.1.toList)
      rw [← size_plant _ _ call.2, ← eq_plant_of_insert hins] at hgrow
      dsimp only
      omega

/-- There are at most as many as beginnings of the path that lead nowhere, be the ids wrapped or
not. -/
theorem size_grow_le_countP (t : Trie) (start : NodePlace) (path : List UInt64) :
    (t.grow start path).2.size ≤
      t.size + path.inits.countP fun begun => (t.find? start begun).isNone := by
  induction path generalizing start with
  | nil => exact Nat.le_add_right ..
  | cons k path ih =>
    rw [List.inits_cons, List.countP_cons, List.countP_map, grow]
    cases hchild : t.child? start k with
    | some child =>
      have hsame : (fun begun => (t.find? start begun).isNone) ∘ (k :: ·) =
          fun begun => (t.find? child begun).isNone := by
        funext begun
        rw [Function.comp_apply, find?_cons, hchild, Option.bind_some]
      rw [hsame]
      have := ih child
      dsimp only
      omega
    | none =>
      have hall : (fun begun => (t.find? start begun).isNone) ∘ (k :: ·) = fun _ => true := by
        funext begun
        rw [Function.comp_apply, find?_cons, hchild, Option.bind_none, Option.isNone_none]
      rw [hall, List.countP_true, List.length_inits]
      have := size_grow_le_length (t.addChild start k).2 (t.addChild start k).1 path
      rw [size_addChild] at this
      dsimp only
      omega

theorem nodup_inits {α : Type} (path : List α) : path.inits.Nodup := by
  induction path with
  | nil => simp
  | cons k path ih =>
    rw [List.inits_cons, List.nodup_cons]
    exact ⟨by simp, ih.map List.cons_injective⟩

/-- The beginnings of a path that lead nowhere. -/
def missing (t : Trie) (path : List UInt64) : Finset (List UInt64) :=
  (path.inits.filter fun begun => (t.find? .root begun).isNone).toFinset

theorem mem_missing {t : Trie} {path begun : List UInt64} :
    begun ∈ t.missing path ↔ begun <+: path ∧ t.find? .root begun = none := by
  simp [missing]

theorem size_grow_le_missing (t : Trie) (path : List UInt64) :
    (t.grow .root path).2.size ≤ t.size + (t.missing path).card := by
  rw [missing, List.toFinset_card_of_nodup ((nodup_inits path).filter _),
    ← List.countP_eq_length_filter]
  exact size_grow_le_countP t .root path

/-- A trie of `entries` in which every node has its place for an id. -/
structure Fits (t : Trie) (entries : List (String × Position)) : Prop where
  represents : t.Represents entries
  spells : t.Spells entries
  size_le : t.size ≤ UInt32.size

theorem Fits.empty : Fits .empty [] := ⟨.empty, .empty, by decide⟩

namespace Fits

variable {t t' : Trie} {entries : List (String × Position)} {name : String} {field : Position}

theorem size_eq (h : t.Fits entries) : t.size = 1 + (beginnings (entries.map Prod.fst)).card :=
  h.spells.size_eq h.represents.wf h.size_le

theorem insert (h : t.Fits entries) (hins : t.insert name field = .ok t')
    (hsize : t'.size ≤ UInt32.size) : t'.Fits (entries ++ [(name, field)]) :=
  ⟨h.represents.insert hins hsize, h.spells.insert h.represents hins hsize, hsize⟩

/-- The nodes that are added stand for beginnings that no name had before. -/
theorem size_insert_le (h : t.Fits entries) (hins : t.insert name field = .ok t') :
    t'.size ≤ 1 + (beginnings (entries.map Prod.fst ++ [name])).card := by
  have hgrow := size_grow_le_missing t (chunks name.toList)
  rw [← size_plant t _ field, ← eq_plant_of_insert hins, h.size_eq] at hgrow
  have hdisjoint : Disjoint (beginnings (entries.map Prod.fst))
      (t.missing (chunks name.toList)) := by
    refine Finset.disjoint_left.2 fun path hold hnew => ?_
    have hsome := h.spells.mem_insert_beginnings_iff.1 (Finset.mem_insert_of_mem hold)
    rw [(mem_missing.1 hnew).2] at hsome
    cases hsome
  have hsubset : beginnings (entries.map Prod.fst) ∪ t.missing (chunks name.toList) ⊆
      beginnings (entries.map Prod.fst ++ [name]) := by
    refine Finset.union_subset (beginnings_subset (List.subset_append_left ..)) fun path hnew => ?_
    obtain ⟨hbegun, hnone⟩ := mem_missing.1 hnew
    refine mem_beginnings.2 ⟨?_, name, by simp, hbegun⟩
    rintro rfl
    cases hnone
  have hcard := Finset.card_le_card hsubset
  rw [Finset.card_union_of_disjoint hdisjoint] at hcard
  omega

/-- If there is an id for every node that an insertion adds, there is one for every node. -/
theorem size_le_of_places (h : t.Fits entries) (hins : t.insert name field = .ok t')
    (hplaces : ∀ c ∈ t.growing .root (chunks name.toList), c.place < UInt32.size) :
    t'.size ≤ UInt32.size := by
  refine Nat.le_of_not_lt fun hlarge => ?_
  obtain ⟨c, hc, hplace⟩ := List.mem_map.1 ((mem_place_insert_iff hins).2 ⟨h.size_le, hlarge⟩)
  exact Nat.lt_irrefl _ (hplace ▸ hplaces c hc)

/-- With fewer beginnings than ids there is an id for every node that is added. -/
theorem place_lt (h : t.Fits entries) {first : Nat} {names : List String}
    (hcard : (beginnings (entries.map Prod.fst ++ names)).card < UInt32.size) {c : Creation}
    (hc : c ∈ t.insertingAll first names) : c.place < UInt32.size := by
  induction names generalizing t first entries with
  | nil => cases hc
  | cons name names ih =>
    rw [insertingAll] at hc
    split at hc
    · cases hc
    next field hfield =>
    split at hc
    · cases hc
    next t' hins =>
    have hsize : t'.size ≤ UInt32.size := by
      have hle := h.size_insert_le hins
      have hfirst : entries.map Prod.fst ++ [name] ⊆ entries.map Prod.fst ++ name :: names := by
        simp
      have := Finset.card_le_card (beginnings_subset hfirst)
      omega
    rcases List.mem_append.1 hc with hc | hc
    · have hplace := (mem_place_insert_iff hins).1 (List.mem_map_of_mem hc)
      omega
    · refine ih (h.insert hins hsize) ?_ hc
      simpa using hcard

end Fits

/-- The names with the fields they are added for, from position `first` on. -/
def numbered (first : Nat) (names : List String) : List (String × Position) :=
  (names.zipIdx first).map fun entry => (entry.1, ⟨.ofNat entry.2⟩)

theorem map_fst_numbered (first : Nat) (names : List String) :
    (numbered first names).map Prod.fst = names := by
  rw [numbered, List.map_map]
  exact List.zipIdx_map_fst ..

/-- As long as there is an id for every node that is added, the names are added. -/
theorem Fits.insertAll {t : Trie} {entries : List (String × Position)} (h : t.Fits entries)
    {first : Nat} {names : List String} (hlength : first + names.length ≤ UInt32.size)
    (hnodup : (entries.map Prod.fst ++ names).Nodup)
    (hnames : ∀ name ∈ names, name ≠ "" ∧ ∀ c ∈ name.toList, isPackable c)
    (hplaces : ∀ c ∈ t.insertingAll first names, c.place < UInt32.size) :
    ∃ t', t.insertAll first names = .ok t' ∧ t'.Fits (entries ++ numbered first names) := by
  induction names generalizing t first entries with
  | nil => exact ⟨t, rfl, by simpa [numbered] using h⟩
  | cons name names ih =>
    rw [List.length_cons] at hlength
    have hfield : Position.ofNat? first = some ⟨.ofNat first⟩ := if_pos (by omega)
    obtain ⟨hempty, hpackable⟩ := hnames name List.mem_cons_self
    have hnew : name ∉ entries.map Prod.fst := fun hold =>
      (List.nodup_append.1 hnodup).2.2 name hold name List.mem_cons_self rfl
    have hname := refusal_eq_none_iff.2 ⟨hempty, hpackable, hnew⟩
    obtain ⟨t', hins⟩ : ∃ t', t.insert name ⟨.ofNat first⟩ = .ok t' := by
      rw [h.represents.insert_eq, hname]
      exact ⟨_, rfl⟩
    rw [insertingAll, hfield] at hplaces
    simp only [hins, List.mem_append] at hplaces
    have hsize := h.size_le_of_places hins fun c hc => hplaces c (.inl hc)
    obtain ⟨last, hlast, hfits⟩ := ih (h.insert hins hsize)
      (show first + 1 + names.length ≤ UInt32.size by omega) (by simpa using hnodup)
      (fun other hother => hnames other (List.mem_cons_of_mem _ hother))
      fun c hc => hplaces c (.inr hc)
    refine ⟨last, ?_, ?_⟩
    · rw [Trie.insertAll, hfield]
      simp only [hins]
      exact hlast
    · simpa [numbered] using hfits

/-! ## The limit -/

/-- Different names that are not empty and can be packed, no more of them than positions. -/
structure Admitted (names : List String) : Prop where
  length_le : names.length ≤ UInt32.size
  nodup : names.Nodup
  ne_empty {name : String} : name ∈ names → name ≠ ""
  packable {name : String} : name ∈ names → ∀ c ∈ name.toList, isPackable c = true

namespace Admitted

variable {names : List String}

/-- Every name ends at a beginning of its own. -/
theorem length_le_card (h : Admitted names) : names.length ≤ (beginnings names).card := by
  have hpack {name : String} (hname : name ∈ names) : pack name = .ok (chunks name.toList) :=
    pack_eq_ok_iff.2 ⟨h.packable hname, rfl⟩
  rw [← List.toFinset_card_of_nodup h.nodup]
  refine Finset.card_le_card_of_injOn (fun name => chunks name.toList) ?_ ?_
  · intro name hname
    have hname : name ∈ names := by simpa using hname
    refine mem_beginnings.2 ⟨fun hnil : chunks name.toList = [] => ?_, name, hname, List.prefix_rfl⟩
    have hempty : pack "" = .ok (chunks name.toList) := pack_eq_ok_iff.2 ⟨by simp, by simp [hnil]⟩
    exact h.ne_empty hname (pack_injective (hpack hname) hempty)
  · intro a ha b hb heq
    have ha : a ∈ names := by simpa using ha
    have hb : b ∈ names := by simpa using hb
    exact pack_injective (hpack ha) ((hpack hb).trans (congrArg _ heq.symm))

/-- As long as every node that is added has its place for an id, all names are added. -/
theorem fits_ofNames (h : Admitted names)
    (hplaces : ∀ c ∈ creations names, c.id.toNat = c.place) :
    ∃ t, ofNames names = .ok t ∧ t.Fits (numbered 0 names) := by
  have hlt (c : Creation) (hc : c ∈ creations names) : c.place < UInt32.size :=
    (id_eq_place_iff (id_of_mem_insertingAll hc)).1 (hplaces c hc)
  have hlength : 0 + names.length ≤ UInt32.size := by
    rw [Nat.zero_add]
    exact h.length_le
  exact Fits.empty.insertAll hlength (by simpa using h.nodup)
    (fun name hname => ⟨h.ne_empty hname, h.packable hname⟩) hlt

end Admitted

/-- With fewer beginnings than ids every node that is added has its place for an id. -/
theorem id_eq_place_of_card_lt {names : List String}
    (hcard : (beginnings names).card < UInt32.size) {c : Creation} (hc : c ∈ creations names) :
    c.id.toNat = c.place :=
  (id_eq_place_iff (id_of_mem_insertingAll hc)).2 (Fits.empty.place_lt (by simpa using hcard) hc)

theorem get?_of_fits {t : Trie} {names : List String} (h : t.Fits (numbered 0 names))
    (hlength : names.length ≤ UInt32.size) {i : Nat} (hi : i < names.length) :
    (t.get? names[i]).map Position.toNat = some i := by
  have hmem : (names[i], (⟨.ofNat i⟩ : Position)) ∈ numbered 0 names :=
    List.mem_map.2 ⟨(names[i], i), by simp [List.mem_zipIdx_iff_getElem?, hi], rfl⟩
  rw [h.represents.get?_iff.2 hmem, Option.map_some, Option.some.injEq]
  exact UInt32.toNat_ofNat_of_lt' (Nat.lt_of_lt_of_le hi hlength)

/-- The ids of all nodes that are added are their places exactly if there are fewer than `2 ^ 32`
beginnings of paths. Then the root stays the root, and every name has the field it was added for. So
the number of names does not keep ids from wrapping: for as many names as there are positions they
always wrap. -/
theorem ids_are_places_iff {names : List String} (h : Admitted names) :
    ((∀ c ∈ creations names, c.id.toNat = c.place) ↔ (beginnings names).card < UInt32.size) ∧
    ((beginnings names).card < UInt32.size →
      ∃ t, ofNames names = .ok t ∧ t.size = 1 + (beginnings names).card ∧
        (∀ id, .root ∉ (t.node id).children) ∧ t.root.endsName = false ∧
        ∀ i (hi : i < names.length), (t.get? names[i]).map Position.toNat = some i) ∧
    (names.length = UInt32.size → ∃ c ∈ creations names, c.id.toNat ≠ c.place) := by
  have hiff : (∀ c ∈ creations names, c.id.toNat = c.place) ↔
      (beginnings names).card < UInt32.size := by
    refine ⟨fun hplaces => ?_, fun hcard c hc => id_eq_place_of_card_lt hcard hc⟩
    obtain ⟨t, -, hfits⟩ := h.fits_ofNames hplaces
    have hsize := hfits.size_eq
    have hle := hfits.size_le
    rw [map_fst_numbered] at hsize
    omega
  refine ⟨hiff, fun hcard => ?_, fun hfull => ?_⟩
  · obtain ⟨t, ht, hfits⟩ := h.fits_ofNames (hiff.2 hcard)
    refine ⟨t, ht, ?_, hfits.represents.wf.root_not_child, ?_, fun i hi => ?_⟩
    · rw [hfits.size_eq, map_fst_numbered]
    · rw [Node.endsName, hfits.represents.root_field]
      rfl
    · exact get?_of_fits hfits h.length_le hi
  · by_contra hnone
    have hplaces : ∀ c ∈ creations names, c.id.toNat = c.place := by simpa using hnone
    have := h.length_le_card
    have := hiff.1 hplaces
    omega

/-- Three names, two of them with a chunk in common. -/
theorem ids_are_places_three_names :
    Admitted ["Identity2", "Identity", "a"] ∧
      (∀ c ∈ creations ["Identity2", "Identity", "a"], c.id.toNat = c.place) ∧
      ∃ t, ofNames ["Identity2", "Identity", "a"] = .ok t ∧ t.size = 4 := by
  have hpackable : (["Identity2", "Identity", "a"].all (·.toList.all isPackable)) = true := by
    decide
  have h : Admitted ["Identity2", "Identity", "a"] :=
    ⟨by decide, by decide, by decide,
      fun hname => List.all_eq_true.1 (List.all_eq_true.1 hpackable _ hname)⟩
  have hcard : (beginnings ["Identity2", "Identity", "a"]).card = 3 := by decide +kernel
  have hlimit := ids_are_places_iff h
  obtain ⟨t, ht, hsize, -⟩ := hlimit.2.1 (by rw [hcard]; decide)
  exact ⟨h, hlimit.1.2 (by rw [hcard]; decide), t, ht, by rw [hsize, hcard]⟩

/-! ## A name that is too long -/

/-- What grows below a node without children is a chain. -/
theorem size_grow_of_childless {t : Trie} {start : NodePlace} {path : List UInt64}
    (hstart : start.toNat < t.size) (hnone : (t.node start).children = [])
    (hsize : t.size + path.length ≤ UInt32.size) :
    (t.grow start path).2.size = t.size + path.length ∧
      ((t.grow start path).2.node (t.grow start path).1).children = [] := by
  induction path generalizing t start with
  | nil => exact ⟨rfl, hnone⟩
  | cons k path ih =>
    rw [List.length_cons] at hsize
    have hchild : t.child? start k = none := by rw [child?, hnone]; rfl
    have hadd := added_addChild k hstart (by omega)
    have hlast : (t.addChild start k).1.toNat < (t.addChild start k).2.size := by
      rw [hadd.toNat_child, hadd.size]
      exact Nat.lt_succ_self _
    obtain ⟨hgrown, hend⟩ := ih hlast (by rw [hadd.node_child]; rfl) (by rw [hadd.size]; omega)
    simp only [grow, hchild]
    refine ⟨?_, hend⟩
    rw [hgrown, hadd.size, List.length_cons]
    omega

theorem grow_append (t : Trie) (start : NodePlace) (p q : List UInt64) :
    t.grow start (p ++ q) = (t.grow start p).2.grow (t.grow start p).1 q := by
  induction p generalizing t start with
  | nil => rfl
  | cons k p ih =>
    simp only [List.cons_append, grow]
    cases t.child? start k with
    | some child => exact ih t child
    | none => exact ih (t.addChild start k).2 (t.addChild start k).1

theorem ofNat_size : NodePlace.ofNat UInt32.size = .root := by decide

/-- Below a node without children, a child that is added to a full array gets the root's id. -/
theorem addChild_of_full {t : Trie} {parent : NodePlace} (k : UInt64) (hsize : t.size = UInt32.size)
    (hnone : (t.node parent).children = []) :
    (t.addChild parent k).1 = .root ∧ ∀ id, (t.addChild parent k).2.node id =
      if id = parent then { t.node parent with children := [.root] } else t.node id := by
  have hid : (t.addChild parent k).1 = .root := by
    rw [← ofNat_size, ← hsize]
    rfl
  refine ⟨hid, fun id => ?_⟩
  have hplace (id : NodePlace) : id.toNat < t.size := hsize ▸ UInt32.toNat_lt_size id.raw
  rw [node_addChild k (hplace parent), hid, hnone, if_neg (Nat.ne_of_lt (hplace id))]
  rfl

/-- A trie that has made its root a child, and a name end there and nowhere else. -/
structure RootTaken (t : Trie) : Prop where
  root_child : ∃ id, .root ∈ (t.node id).children
  root_ends_name : t.root.endsName = true
  root_key : t.root.key = 0
  field_eq {id : NodePlace} : id ≠ .root → (t.node id).field = none

/-- The root has no key, so no path leads to the only field. -/
theorem RootTaken.fieldAt_eq_none {t : Trie} (h : t.RootTaken) {path : List UInt64} {k : UInt64}
    (hk : k ≠ 0) : t.fieldAt (path ++ [k]) = none := by
  rw [fieldAt, Option.bind_eq_none_iff]
  intro id hfind
  rw [find?_append_singleton] at hfind
  obtain ⟨parent, -, hchild⟩ := Option.bind_eq_some_iff.1 hfind
  have hkey : (t.node id).key = k := by simpa using List.find?_some hchild
  refine h.field_eq ?_
  rintro rfl
  exact hk (hkey.symm.trans h.root_key)

/-- Where a path of `2 ^ 32` chunks is planted in an empty trie, its last node takes the root's
id. -/
theorem plant_wraps {path : List UInt64} {k : UInt64} (field : Position)
    (hpath : ∀ j ∈ path, j ≠ 0) (hlength : path.length + 1 = UInt32.size) :
    (∃ c ∈ empty.growing .root (path ++ [k]), c.place = UInt32.size ∧ c.id = .root) ∧
      (empty.plant (path ++ [k]) field).RootTaken := by
  have hroot : (empty.node .root).children = [] := by rw [node_empty]; rfl
  obtain ⟨hsize, hnone⟩ := size_grow_of_childless (by decide) hroot
    (show empty.size + path.length ≤ UInt32.size by
      rw [Nat.add_comm]; exact Nat.le_of_eq hlength)
  have hfull : (empty.grow .root path).2.size = UInt32.size := by
    rw [hsize, Nat.add_comm]
    exact hlength
  have hgrown := WF.empty.grow (show empty.find? .root [] = some .root from rfl) hpath
    (Nat.le_of_eq hfull)
  have hgrow : empty.grow .root (path ++ [k]) =
      (empty.grow .root path).2.addChild (empty.grow .root path).1 k := by
    rw [grow_append, grow, child?, hnone]
    rfl
  have hcreated : UInt32.size ∈ (empty.growing .root (path ++ [k])).map Creation.place ↔
      empty.size ≤ UInt32.size ∧ UInt32.size < (empty.grow .root (path ++ [k])).2.size :=
    mem_place_growing_iff
  have hplant := node_plant empty (path ++ [k]) field
  rw [hgrow, size_addChild] at hcreated
  rw [hgrow] at hplant
  generalize (empty.grow .root path).1 = last at *
  generalize (empty.grow .root path).2 = t at *
  obtain ⟨hid, hnode⟩ := addChild_of_full k hfull hnone
  have hlast : last ≠ .root := by
    rintro rfl
    obtain rfl : path = [] := hgrown.wf.path_unique hgrown.find?_last rfl
    exact absurd hlength (by decide)
  rw [hid, size_addChild] at hplant
  replace hplant := hplant (Nat.lt_of_lt_of_le (by decide) (Nat.le_add_left 1 t.size))
  refine ⟨?_, ⟨last, ?_⟩, ?_, ?_, fun {id} hne => ?_⟩
  · obtain ⟨c, hc, hplace⟩ := List.mem_map.1 (hcreated.2 ⟨by decide, by omega⟩)
    exact ⟨c, hc, hplace, by rw [id_of_mem_growing hc, hplace, ofNat_size]⟩
  · rw [hplant, if_neg hlast, hnode, if_pos rfl]
    exact List.mem_singleton_self _
  · rw [root, hplant, if_pos rfl]
    rfl
  · rw [root, hplant, if_pos rfl, hnode, if_neg hlast.symm]
    exact hgrown.wf.root_key
  · have hfield (id : NodePlace) : (t.node id).field = none := by
      rw [hgrown.field_eq, node_empty]
      rfl
    rw [hplant, if_neg hne, hnode]
    split
    · exact hfield last
    · exact hfield id

/-- A name of `2 ^ 32` chunks is admitted, alone as it is, but the id of its last node is the
root's. The root is a child then, a name ends at it, and the name that was added has no field. -/
theorem wraps_of_length_chunks {name : String} (hpackable : ∀ c ∈ name.toList, isPackable c = true)
    (hlength : (chunks name.toList).length = UInt32.size) :
    Admitted [name] ∧ (∃ c ∈ creations [name], c.id.toNat ≠ c.place) ∧
      ∃ t, ofNames [name] = .ok t ∧ (∃ id, .root ∈ (t.node id).children) ∧
        t.root.endsName = true ∧ t.get? name = none := by
  have hempty : name ≠ "" := by
    rintro rfl
    rw [String.toList_empty, chunks_nil] at hlength
    exact absurd hlength (by decide)
  have hins : empty.insert name ⟨.ofNat 0⟩ = .ok (empty.plant (chunks name.toList) ⟨.ofNat 0⟩) := by
    rw [Represents.empty.insert_eq, List.map_nil,
      refusal_eq_none_iff.2 ⟨hempty, hpackable, List.not_mem_nil⟩]
  have hfirst : Position.ofNat? 0 = some ⟨.ofNat 0⟩ := rfl
  obtain ⟨path, k, hpath⟩ : ∃ path k, chunks name.toList = path ++ [k] := by
    rcases List.eq_nil_or_concat (chunks name.toList) with hnil | ⟨path, k, hconcat⟩
    · rw [hnil] at hlength
      exact absurd hlength (by decide)
    · exact ⟨path, k, by rw [hconcat, List.concat_eq_append]⟩
  have hnonzero := ne_zero_of_mem_chunks hpackable
  rw [hpath] at hnonzero hlength
  rw [List.length_append, List.length_singleton] at hlength
  obtain ⟨⟨c, hc, hplace, hid⟩, htaken⟩ := plant_wraps (k := k) ⟨.ofNat 0⟩
    (fun j hj => hnonzero j (List.mem_append_left _ hj)) hlength
  refine ⟨⟨?_, List.nodup_singleton _, ?_, ?_⟩, ⟨c, ?_, ?_⟩, _, ?_, htaken.root_child,
    htaken.root_ends_name, ?_⟩
  · rw [List.length_singleton]
    decide
  · intro other hother
    rwa [List.mem_singleton.1 hother]
  · intro other hother
    rwa [List.mem_singleton.1 hother]
  · simp only [creations, insertingAll, hfirst, hins, List.append_nil]
    rwa [hpath]
  · rw [hid, hplace]
    decide
  · simp only [ofNames, insertAll, hfirst, hins]
    rw [hpath]
    rfl
  · rw [get?_of_pack (pack_eq_ok_iff.2 ⟨hpackable, rfl⟩), hpath]
    exact htaken.fieldAt_eq_none (hnonzero k (by simp))

/-- The ids wrap for a name of `2 ^ 35` characters. -/
theorem ids_wrap_in_one_name :
    Admitted [String.ofList (List.replicate (8 * UInt32.size) 'a')] ∧
      (∃ c ∈ creations [String.ofList (List.replicate (8 * UInt32.size) 'a')],
        c.id.toNat ≠ c.place) ∧
      ∃ t, ofNames [String.ofList (List.replicate (8 * UInt32.size) 'a')] = .ok t ∧
        (∃ id, .root ∈ (t.node id).children) ∧ t.root.endsName = true ∧
        t.get? (String.ofList (List.replicate (8 * UInt32.size) 'a')) = none := by
  refine wraps_of_length_chunks (fun c hc => ?_) ?_
  · rw [String.toList_ofList] at hc
    rw [List.eq_of_mem_replicate hc]
    decide
  · rw [length_chunks, String.toList_ofList, List.length_replicate]
    decide

end TypedRecords.Name.Trie
