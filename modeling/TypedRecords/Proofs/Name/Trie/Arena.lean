import Mathlib.Data.Finset.Card
import TypedRecords.Proofs.Name.Bisection.Search
import TypedRecords.Proofs.Name.Chunks
import TypedRecords.Proofs.Name.Trie.Paths
import TypedRecords.Proofs.Name.Trie.Preorder

/-!
# What insertions build

Whatever names were inserted with whatever outcome, the array is a tree under its first node, the
children of a node are sorted so that they can be searched by halving, and the inserted names decide
where names end, how deep the tree is and how many nodes there are: one for the root and one for
every beginning of a path (`Trie.isTreeOf_ofCalls`).
-/

namespace TypedRecords.Name

/-- The paths of names and their beginnings, but for the empty one. -/
def beginnings (names : List String) : Finset (List UInt64) :=
  (names.flatMap fun name => (chunks name.toList).inits).toFinset.erase []

theorem mem_beginnings {names : List String} {path : List UInt64} :
    path ∈ beginnings names ↔ path ≠ [] ∧ ∃ name ∈ names, path <+: chunks name.toList := by
  simp only [beginnings, Finset.mem_erase, List.mem_toFinset, List.mem_flatMap, List.mem_inits]

theorem beginnings_subset {names names' : List String} (h : names ⊆ names') :
    beginnings names ⊆ beginnings names' := by
  intro path hpath
  obtain ⟨hne, name, hname, hprefix⟩ := mem_beginnings.1 hpath
  exact mem_beginnings.2 ⟨hne, name, h hname, hprefix⟩

namespace Trie

/-- A name ends at a node: its path leads there, and the node has a field. -/
def EndsAt (t : Trie) (name : String) (id : NodePlace) : Prop :=
  ∃ path, pack name = .ok path ∧ t.find? .root path = some id ∧ (t.node id).endsName = true

/-- Searching the children of a node by halving finds the child for a chunk, or the place where a
new child for it is put. -/
def Searches (t : Trie) (id : NodePlace) (k : UInt64) : Prop :=
  match search (fun child => (t.node child).key) k (t.node id).children with
  | .ok i => ∃ child, (t.node id).children[i]? = some child ∧ t.child? id k = some child
  | .error i => t.child? id k = none ∧
      ∀ new, t.placeChild k new (t.node id).children = (t.node id).children.insertIdx i new

/-- A trie whose array is a tree under its first node that holds `names` and nothing else. -/
structure IsTreeOf (t : Trie) (names : List String) : Prop where
  root_place : NodePlace.root.toNat = 0
  root_key : t.root.key = 0
  root_ends_no_name : t.root.endsName = false
  root_not_child (id : NodePlace) : .root ∉ (t.node id).children
  /-- Every other node occurs once among the children of one node, which lies before it. -/
  parent {id : NodePlace} : id ≠ .root → id.toNat < t.size →
    ∃ parent, parent.toNat < id.toNat ∧ (t.node parent).children.count id = 1 ∧
      ∀ other, other ≠ parent → id ∉ (t.node other).children
  child_lt {id child : NodePlace} : child ∈ (t.node id).children → child.toNat < t.size
  /-- Every node lies at the end of one path from the root. -/
  path {id : NodePlace} : id.toNat < t.size → ∃! path, t.find? .root path = some id
  ascending (id : NodePlace) : Ascending (fun child => (t.node child).key) (t.node id).children
  key_ne_zero {id child : NodePlace} : child ∈ (t.node id).children → (t.node child).key ≠ 0
  searches (id : NodePlace) (k : UInt64) : t.Searches id k
  /-- A name ends at every node without children, but for an only root. -/
  ends_of_children_eq_nil {id : NodePlace} : id.toNat < t.size → (t.node id).children = [] →
    (t.node id).endsName = true ∨ t.size = 1
  /-- There is a node for every beginning of a path, and the root. -/
  size_eq : t.size = 1 + (beginnings names).card
  /-- Every name of `names` ends at a node, and no other name does. -/
  ends_iff {name : String} : (∃ id, t.EndsAt name id) ↔ name ∈ names
  /-- Where a name ends, one name of `names` ends. -/
  name_of_ends {id : NodePlace} : (t.node id).endsName = true → ∃! name, t.EndsAt name id
  place_unique {name : String} {a b : NodePlace} : t.EndsAt name a → t.EndsAt name b → a = b
  length_le_depth {name : String} : name ∈ names → (name.length + 7) / 8 ≤ t.depth
  depth_attained : (names = [] ∧ t.depth = 0) ∨ ∃ name ∈ names, (name.length + 7) / 8 = t.depth

variable {t : Trie} {entries : List (String × Position)}

/-! ## Searching children -/

theorem WF.searches (h : t.WF) (id : NodePlace) (k : UInt64) : t.Searches id k := by
  have hsorted := h.ascending id
  unfold Searches
  cases hsearch : search (fun child => (t.node child).key) k (t.node id).children with
  | ok i => exact hsorted.find?_of_search_ok hsearch
  | error i => exact ⟨hsorted.find?_of_search_error hsearch, hsorted.insertIdx_of_search hsearch⟩

/-! ## The number of nodes -/

namespace Spells

/-- The root's path, the paths of the names and their beginnings are those that lead to a node. -/
theorem mem_insert_beginnings_iff (h : t.Spells entries) {path : List UInt64} :
    path ∈ Insert.insert [] (beginnings (entries.map Prod.fst)) ↔
      (t.find? .root path).isSome = true := by
  rw [h.isSome_find?_iff, Finset.mem_insert, mem_beginnings]
  simp only [List.mem_map, exists_exists_and_eq_and]
  by_cases hpath : path = [] <;> simp [hpath]

/-- The nodes and the paths that lead to them correspond. -/
theorem size_eq (h : t.Spells entries) (hwf : t.WF) (hsize : t.size ≤ UInt32.size) :
    t.size = 1 + (beginnings (entries.map Prod.fst)).card := by
  have hpaths : (Insert.insert [] (beginnings (entries.map Prod.fst))).card =
      (Finset.range t.size).card := by
    refine Finset.card_nbij (fun path => ((t.find? .root path).getD .root).toNat) ?_ ?_ ?_
    · intro path hpath
      obtain ⟨id, hid⟩ := Option.isSome_iff_exists.1 (h.mem_insert_beginnings_iff.1 hpath)
      simpa [hid] using hwf.toNat_lt_of_find? hid
    · intro p hp q hq hpq
      obtain ⟨a, ha⟩ := Option.isSome_iff_exists.1 (h.mem_insert_beginnings_iff.1 hp)
      obtain ⟨b, hb⟩ := Option.isSome_iff_exists.1 (h.mem_insert_beginnings_iff.1 hq)
      obtain rfl : a = b := NodePlace.toNat_inj.1 (by simpa [ha, hb] using hpq)
      exact hwf.path_unique ha hb
    · intro i hi
      have hlt : i < t.size := Finset.mem_range.1 hi
      have hplace := NodePlace.toNat_ofNat (Nat.lt_of_lt_of_le hlt hsize)
      obtain ⟨path, hpath⟩ :=
        hwf.exists_path (show (NodePlace.ofNat i).toNat < t.size by rwa [hplace])
      refine ⟨path, h.mem_insert_beginnings_iff.2 (Option.isSome_of_eq_some hpath), ?_⟩
      simp [hpath, hplace]
  have hroot : [] ∉ beginnings (entries.map Prod.fst) := fun hmem => (mem_beginnings.1 hmem).1 rfl
  rw [Finset.card_insert_of_notMem hroot, Finset.card_range] at hpaths
  omega

/-! ## Where names end -/

/-- A path that leads to a node begins the path of a name, and goes on unless it is all of it. -/
theorem ends_of_children_eq_nil (h : t.Spells entries) (hwf : t.WF)
    (hsize : t.size ≤ UInt32.size) {id : NodePlace} (hid : id.toNat < t.size)
    (hnone : (t.node id).children = []) : (t.node id).endsName = true ∨ t.size = 1 := by
  by_cases hentries : entries = []
  · right
    rw [h.size_eq hwf hsize, hentries]
    rfl
  left
  obtain ⟨path, hpath⟩ := hwf.exists_path hid
  have hbegins : ∃ entry ∈ entries, path <+: chunks entry.1.toList := by
    rcases h.isSome_find?_iff.1 (Option.isSome_of_eq_some hpath) with rfl | hbegins
    · obtain ⟨entry, hentry⟩ := List.exists_mem_of_ne_nil entries hentries
      exact ⟨entry, hentry, List.nil_prefix⟩
    · exact hbegins
  obtain ⟨⟨name, field⟩, hentry, rest, hrest⟩ := hbegins
  cases rest with
  | nil =>
    have hfield : t.fieldAt path = some field :=
      h.fieldAt_eq_some_iff.2 ⟨name, hentry, by rw [← hrest, List.append_nil]⟩
    rw [fieldAt, hpath, Option.bind_some] at hfield
    rw [Node.endsName, hfield]
    rfl
  | cons k rest =>
    -- the path of the name goes on through a child
    have hlonger : (t.find? .root (path ++ [k])).isSome = true :=
      h.isSome_find?_iff.2 (.inr ⟨(name, field), hentry, rest, by rw [← hrest]; simp⟩)
    obtain ⟨child, hchild⟩ := Option.isSome_iff_exists.1 hlonger
    obtain ⟨parent, hparent, hmem, -⟩ := hwf.exists_parent_of_find? hchild
    rw [hpath, Option.some.injEq] at hparent
    rw [← hparent, hnone] at hmem
    cases hmem

theorem depth_le_iff_names (h : t.Spells entries) {n : Nat} :
    t.depth ≤ n ↔ ∀ name ∈ entries.map Prod.fst, (name.length + 7) / 8 ≤ n := by
  simp only [h.depth_le_iff, List.forall_mem_map, length_chunks, String.length_toList]

theorem depth_attained (h : t.Spells entries) :
    (entries.map Prod.fst = [] ∧ t.depth = 0) ∨
      ∃ name ∈ entries.map Prod.fst, (name.length + 7) / 8 = t.depth := by
  by_cases hattained : ∃ name ∈ entries.map Prod.fst, (name.length + 7) / 8 = t.depth
  · exact .inr hattained
  have hbelow : ∀ name ∈ entries.map Prod.fst, (name.length + 7) / 8 ≤ t.depth - 1 := by
    intro name hname
    have hdepth := h.depth_le_iff_names.1 (Nat.le_refl _) name hname
    have hne : (name.length + 7) / 8 ≠ t.depth := fun heq => hattained ⟨name, hname, heq⟩
    omega
  have hzero : t.depth = 0 := by
    have := h.depth_le_iff_names.2 hbelow
    omega
  refine .inl ⟨List.eq_nil_iff_forall_not_mem.2 fun name hname => ?_, hzero⟩
  refine hattained ⟨name, hname, ?_⟩
  have := h.depth_le_iff_names.1 (Nat.le_refl _) name hname
  omega

end Spells

theorem toNat_lt_of_endsName {id : NodePlace} (hends : (t.node id).endsName = true) :
    id.toNat < t.size := by
  refine Nat.lt_of_not_le fun hle => ?_
  rw [node_eq_fresh_of_size_le hle] at hends
  cases hends

theorem exists_endsAt_iff {name : String} :
    (∃ id, t.EndsAt name id) ↔ (t.get? name).isSome = true := by
  cases hpack : pack name with
  | error bad => simp [EndsAt, hpack, get?_of_pack_error hpack]
  | ok path =>
    rw [get?_of_pack hpack, fieldAt]
    cases hfind : t.find? .root path <;> simp [EndsAt, hpack, hfind, Node.endsName]

theorem EndsAt.place_unique {name : String} {a b : NodePlace} (ha : t.EndsAt name a)
    (hb : t.EndsAt name b) : a = b := by
  obtain ⟨p, hp, ha, -⟩ := ha
  obtain ⟨q, hq, hb, -⟩ := hb
  obtain rfl : p = q := Except.ok.inj (hp.symm.trans hq)
  exact Option.some.inj (ha.symm.trans hb)

theorem EndsAt.name_unique (hwf : t.WF) {a b : String} {id : NodePlace} (ha : t.EndsAt a id)
    (hb : t.EndsAt b id) : a = b := by
  obtain ⟨p, hp, ha, -⟩ := ha
  obtain ⟨q, hq, hb, -⟩ := hb
  obtain rfl : p = q := hwf.path_unique ha hb
  exact pack_injective hp hq

theorem Represents.exists_endsAt (h : t.Represents entries) (hspells : t.Spells entries)
    {id : NodePlace} (hends : (t.node id).endsName = true) : ∃ name, t.EndsAt name id := by
  obtain ⟨path, hpath⟩ := h.wf.exists_path (toNat_lt_of_endsName hends)
  obtain ⟨field, hfield⟩ := Option.isSome_iff_exists.1 hends
  obtain ⟨name, hmem, hchunks⟩ := hspells.fieldAt_eq_some_iff.1
    (show t.fieldAt path = some field by rw [fieldAt, hpath, Option.bind_some, hfield])
  obtain ⟨other, q, hq, hother, -⟩ :=
    exists_endsAt_iff.2 (Option.isSome_of_eq_some (h.get?_iff.2 hmem))
  obtain rfl : q = path := (pack_eq_ok_iff.1 hq).2.symm.trans hchunks
  exact ⟨name, q, hq, hpath, hends⟩

/-! ## All of it -/

/-- Whatever names were inserted with whatever outcome, the array is a tree of the names whose
insertion succeeded. -/
theorem isTreeOf_ofCalls (calls : List (String × Position))
    (hsize : (ofCalls calls).size ≤ UInt32.size) :
    (ofCalls calls).IsTreeOf ((succeeded calls).map Prod.fst) := by
  have h := represents_ofCalls calls hsize
  have hspells := spells_ofCalls calls hsize
  have hwf := h.wf
  exact {
    root_place := rfl
    root_key := hwf.root_key
    root_ends_no_name := by rw [Node.endsName, h.root_field]; rfl
    root_not_child := hwf.root_not_child
    parent := fun hne hid => by
      obtain ⟨parent, hparent⟩ := hwf.exists_parent hne hid
      refine ⟨parent, hwf.lt_child hparent, ?_, fun other hother hmem => ?_⟩
      · simpa using count_children hwf hparent parent
      · exact hother (hwf.parent_unique hmem hparent)
    child_lt := hwf.child_lt
    path := fun hid => by
      obtain ⟨path, hpath⟩ := hwf.exists_path hid
      exact ⟨path, hpath, fun other hother => hwf.path_unique hother hpath⟩
    ascending := hwf.ascending
    key_ne_zero := hwf.key_ne_zero
    searches := hwf.searches
    ends_of_children_eq_nil := hspells.ends_of_children_eq_nil hwf hsize
    size_eq := hspells.size_eq hwf hsize
    ends_iff := exists_endsAt_iff.trans h.mem_names_iff.symm
    name_of_ends := fun hends => by
      obtain ⟨name, hname⟩ := h.exists_endsAt hspells hends
      exact ⟨name, hname, fun other hother => hother.name_unique hwf hname⟩
    place_unique := EndsAt.place_unique
    length_le_depth := hspells.depth_le_iff_names.1 (Nat.le_refl _) _
    depth_attained := hspells.depth_attained }

/-- A name, the beginning of it as another name, and two insertions that fail. -/
theorem isTreeOf_two_names :
    (ofCalls [("Identity2", ⟨0⟩), ("Identity", ⟨1⟩), ("", ⟨2⟩), ("Identity", ⟨3⟩)]).size ≤
        UInt32.size ∧
      (ofCalls [("Identity2", ⟨0⟩), ("Identity", ⟨1⟩), ("", ⟨2⟩), ("Identity", ⟨3⟩)]).IsTreeOf
        ["Identity2", "Identity"] :=
  have hsize : (ofCalls [("Identity2", ⟨0⟩), ("Identity", ⟨1⟩), ("", ⟨2⟩),
      ("Identity", ⟨3⟩)]).size ≤ UInt32.size := by decide +kernel
  have hnames : (succeeded [("Identity2", ⟨0⟩), ("Identity", ⟨1⟩), ("", ⟨2⟩),
      ("Identity", ⟨3⟩)]).map Prod.fst = ["Identity2", "Identity"] := by decide +kernel
  ⟨hsize, hnames ▸ isTreeOf_ofCalls _ hsize⟩

end Trie
end TypedRecords.Name
