import Mathlib.Data.List.Nodup
import TypedRecords.Proofs.Name.Packing
import TypedRecords.Proofs.Name.Trie

/-!
# Insertion as an update of a map

A trie stands for the names inserted into it and their fields (`Trie.Represents`). Planting a path
changes the field of this path only (`WF.plant`), so a successful insertion adds one entry; which
names are refused, and why, depends on the entries alone (`Represents.insert_eq`). All checks are
made before the first node is added: insertion as a procedure that edits the trie at hand leaves
it as it was when it fails (`insertInPlace_eq`).
-/

namespace TypedRecords.Name.Trie

/-- The field of the name whose path is given. -/
def fieldAt (t : Trie) (path : List UInt64) : Option Position :=
  (t.find? .root path).bind fun id => (t.node id).field

theorem get?_of_pack {t : Trie} {s : String} {path : List UInt64} (h : pack s = .ok path) :
    t.get? s = t.fieldAt path := by
  rw [get?, h]
  rfl

theorem get?_of_pack_error {t : Trie} {s : String} {bad : BadChar} (h : pack s = .error bad) :
    t.get? s = none := by
  rw [get?, h]

theorem isTaken_eq (t : Trie) (path : List UInt64) : t.isTaken path = (t.fieldAt path).isSome := by
  unfold isTaken fieldAt
  cases t.find? .root path <;> rfl

/-! ## Planting a path -/

/-- Two tries whose nodes have the same keys and children. -/
structure SameShape (t t' : Trie) : Prop where
  size : t'.size = t.size
  key (id : NodePlace) : (t'.node id).key = (t.node id).key
  children (id : NodePlace) : (t'.node id).children = (t.node id).children

namespace SameShape

variable {t t' : Trie}

theorem find?_eq (h : SameShape t t') (start : NodePlace) (path : List UInt64) :
    t'.find? start path = t.find? start path := by
  induction path generalizing start with
  | nil => rfl
  | cons k path ih =>
    have hchild : t'.child? start k = t.child? start k := by
      simp only [child?, h.key, h.children]
    rw [find?_cons, find?_cons, hchild]
    congr
    funext child
    exact ih child

theorem wf (h : SameShape t t') (hwf : t.WF) : t'.WF where
  size_pos := h.size ▸ hwf.size_pos
  root_key := (h.key .root).trans hwf.root_key
  lt_child hmem := hwf.lt_child (h.children _ ▸ hmem)
  child_lt hmem := h.size ▸ hwf.child_lt (h.children _ ▸ hmem)
  parent_unique ha hb := hwf.parent_unique (h.children _ ▸ ha) (h.children _ ▸ hb)
  exists_parent hne hlt := by
    obtain ⟨parent, hparent⟩ := hwf.exists_parent hne (h.size ▸ hlt)
    exact ⟨parent, (h.children parent).symm ▸ hparent⟩
  ascending id := by
    rw [h.children]
    exact (hwf.ascending id).congr fun child _ => h.key child
  key_ne_zero hmem := (h.key _).symm ▸ hwf.key_ne_zero (h.children _ ▸ hmem)

end SameShape

theorem node_plant (t : Trie) (path : List UInt64) (field : Position)
    (hlast : (t.grow .root path).1.toNat < (t.grow .root path).2.size) (id : NodePlace) :
    (t.plant path field).node id =
      if id = (t.grow .root path).1 then
        { (t.grow .root path).2.node id with field := some field }
      else (t.grow .root path).2.node id := by
  simp only [plant, node, Array.getD_eq_getD_getElem?, Array.getElem?_modify]
  by_cases hid : id = (t.grow .root path).1
  · rw [if_pos hid, if_pos (by rw [hid]), hid, Array.getElem?_eq_getElem hlast]
    rfl
  · rw [if_neg hid, if_neg (fun heq => hid (NodePlace.toNat_inj.1 heq.symm))]

/-- What planting `path` for `field` changes. -/
structure Planted (t t' : Trie) (path : List UInt64) (field : Position) : Prop where
  wf : t'.WF
  depth : t'.depth = max t.depth path.length
  fieldAt_eq (q : List UInt64) : t'.fieldAt q = if q = path then some field else t.fieldAt q
  prefix_of_new {q : List UInt64} {id : NodePlace} :
    t.find? .root q = none → t'.find? .root q = some id → q <+: path

theorem size_plant (t : Trie) (path : List UInt64) (field : Position) :
    (t.plant path field).size = (t.grow .root path).2.size := by
  simp [plant, size]

theorem WF.plant {t : Trie} (h : t.WF) {path : List UInt64} (field : Position)
    (hpath : ∀ k ∈ path, k ≠ 0) (hsize : (t.plant path field).size ≤ UInt32.size) :
    Planted t (t.plant path field) path field := by
  have hgrown : Grown t (t.grow .root path).2 ([] ++ path) (t.grow .root path).1 :=
    h.grow rfl hpath (by rwa [← size_plant t path field])
  rw [List.nil_append] at hgrown
  have hlast := hgrown.wf.toNat_lt_of_find? hgrown.find?_last
  have hnode := node_plant t path field hlast
  have hshape : SameShape (t.grow .root path).2 (t.plant path field) := by
    refine ⟨size_plant t path field, fun id => ?_, fun id => ?_⟩
    · rw [hnode]
      split <;> rfl
    · rw [hnode]
      split <;> rfl
  refine ⟨hshape.wf hgrown.wf, ?_, ?_, ?_⟩
  · show max (t.grow .root path).2.depth path.length = _
    rw [hgrown.depth]
  · intro q
    rw [fieldAt, hshape.find?_eq]
    split
    · next hq =>
      rw [hq, hgrown.find?_last, Option.bind_some, hnode, if_pos rfl]
    · next hq =>
      cases hold : t.find? .root q with
      | some id =>
        have hne : id ≠ (t.grow .root path).1 := by
          rintro rfl
          exact hq (hgrown.wf.path_unique (hgrown.find?_old hold) hgrown.find?_last)
        rw [hgrown.find?_old hold, Option.bind_some, hnode, if_neg hne, hgrown.field_eq, fieldAt,
          hold, Option.bind_some]
      | none =>
        rw [fieldAt, hold, Option.bind_none]
        cases hnew : (t.grow .root path).2.find? .root q with
        | none => rfl
        | some id =>
          -- a node created on the way has no field
          have hne : id ≠ (t.grow .root path).1 := by
            rintro rfl
            exact hq (hgrown.wf.path_unique hnew hgrown.find?_last)
          have hfresh := (hgrown.prefix_of_new hold hnew).2
          rw [Option.bind_some, hnode, if_neg hne, hgrown.field_eq,
            node_eq_fresh_of_size_le hfresh]
          rfl
  · intro q id hold hnew
    rw [hshape.find?_eq] at hnew
    exact (hgrown.prefix_of_new hold hnew).1

/-! ## Tries and the names they hold -/

/-- Why a name is refused when the names `taken` have been inserted; the first cause wins. -/
def refusal (taken : List String) (name : String) : Option Failure :=
  if name = "" then some .nameEmpty
  else
    match firstBad? name.toList with
    | some bad => some (.nameUnpackable name bad.char bad.offset)
    | none => if name ∈ taken then some (.nameTaken name) else none

theorem refusal_eq_none_iff {taken : List String} {name : String} :
    refusal taken name = none ↔
      name ≠ "" ∧ (∀ c ∈ name.toList, isPackable c) ∧ name ∉ taken := by
  rw [refusal, ← firstBad?_eq_none_iff]
  split
  · next hempty => simp [hempty]
  · next hempty =>
    cases firstBad? name.toList <;> simp [hempty]

/-- A trie that maps exactly the names of `entries` to their fields. -/
structure Represents (t : Trie) (entries : List (String × Position)) : Prop where
  wf : t.WF
  length_le_depth {path : List UInt64} {id : NodePlace} :
    t.find? .root path = some id → path.length ≤ t.depth
  nodup : (entries.map Prod.fst).Nodup
  ne_empty {entry : String × Position} : entry ∈ entries → entry.1 ≠ ""
  get?_iff {name : String} {field : Position} :
    t.get? name = some field ↔ (name, field) ∈ entries

theorem Represents.empty : Represents .empty [] where
  wf := .empty
  length_le_depth {path id} hfind := by
    cases path with
    | nil => exact Nat.zero_le _
    | cons k path => simp [find?_cons, child?, Node.fresh] at hfind
  nodup := List.nodup_nil
  ne_empty h := by cases h
  get?_iff {name field} := by
    rw [get?]
    cases pack name with
    | error bad => simp
    | ok path =>
      cases path with
      | nil => simp [find?, Node.fresh]
      | cons k path => simp [find?_cons, child?, Node.fresh]

namespace Represents

variable {t : Trie} {entries : List (String × Position)}

theorem mem_names_iff (h : t.Represents entries) {name : String} :
    name ∈ entries.map Prod.fst ↔ (t.get? name).isSome := by
  rw [Option.isSome_iff_exists, List.mem_map]
  constructor
  · rintro ⟨⟨name, field⟩, hmem, rfl⟩
    exact ⟨field, h.get?_iff.2 hmem⟩
  · rintro ⟨field, hget⟩
    exact ⟨(name, field), h.get?_iff.1 hget, rfl⟩

theorem root_field (h : t.Represents entries) : t.root.field = none := by
  rw [Option.eq_none_iff_forall_ne_some]
  intro field hfield
  have hpack : pack "" = .ok [] := pack_eq_ok_iff.2 ⟨by simp, by simp⟩
  have hget : t.get? "" = some field := (get?_of_pack hpack).trans hfield
  exact h.ne_empty (h.get?_iff.1 hget) rfl

/-- A path is taken if it is the path of a name that was inserted. -/
theorem isTaken_iff (h : t.Represents entries) {name : String} {path : List UInt64}
    (hpack : pack name = .ok path) : t.isTaken path = true ↔ name ∈ entries.map Prod.fst := by
  rw [isTaken_eq, h.mem_names_iff, get?_of_pack hpack]

/-- The entries alone decide whether a name is refused and for what cause. -/
theorem insert_eq (h : t.Represents entries) (name : String) (field : Position) :
    t.insert name field = match refusal (entries.map Prod.fst) name with
      | some failure => .error failure
      | none => .ok (t.plant (chunks name.toList) field) := by
  unfold insert refusal
  by_cases hempty : name = ""
  · simp [hempty]
  rw [if_neg (by simpa using hempty), if_neg hempty, pack_eq]
  cases hbad : firstBad? name.toList with
  | some bad => rfl
  | none =>
    have hpack : pack name = .ok (chunks name.toList) :=
      pack_eq_ok_iff.2 ⟨firstBad?_eq_none_iff.1 hbad, rfl⟩
    simp only [h.isTaken_iff hpack]
    split <;> rfl

/-- A name that is not refused is one entry more. -/
theorem plant (h : t.Represents entries) {name : String} (field : Position)
    (hname : refusal (entries.map Prod.fst) name = none)
    (hsize : (t.plant (chunks name.toList) field).size ≤ UInt32.size) :
    (t.plant (chunks name.toList) field).Represents (entries ++ [(name, field)]) := by
  obtain ⟨hempty, hpackable, hnew⟩ := refusal_eq_none_iff.1 hname
  have hpack : pack name = .ok (chunks name.toList) := pack_eq_ok_iff.2 ⟨hpackable, rfl⟩
  have hplanted := h.wf.plant field (ne_zero_of_mem_chunks hpackable) hsize
  refine ⟨hplanted.wf, ?_, ?_, ?_, ?_⟩
  · intro path id hfind
    rw [hplanted.depth]
    cases hold : t.find? .root path with
    | some id' => exact Nat.le_trans (h.length_le_depth hold) (Nat.le_max_left ..)
    | none => exact Nat.le_trans (hplanted.prefix_of_new hold hfind).length_le (Nat.le_max_right ..)
  · rw [List.map_append, List.nodup_append]
    refine ⟨h.nodup, List.nodup_singleton _, ?_⟩
    rintro a ha b hb rfl
    obtain rfl : a = name := List.mem_singleton.1 hb
    exact hnew ha
  · intro entry hentry
    rcases List.mem_append.1 hentry with hold | hlast
    · exact h.ne_empty hold
    · rw [List.mem_singleton.1 hlast]
      exact hempty
  · intro s i
    rw [List.mem_append, List.mem_singleton, Prod.mk.injEq, ← h.get?_iff]
    cases hs : pack s with
    | error bad =>
      have hne : s ≠ name := by
        rintro rfl
        rw [hpack] at hs
        cases hs
      simp [get?_of_pack_error hs, hne]
    | ok path =>
      rw [get?_of_pack hs, get?_of_pack hs, hplanted.fieldAt_eq]
      by_cases hpath : path = chunks name.toList
      · obtain rfl : s = name := pack_injective hs (hpath ▸ hpack)
        have hnone : t.fieldAt path = none := by
          rw [← get?_of_pack hs, Option.eq_none_iff_forall_ne_some]
          exact fun i hget => hnew (h.mem_names_iff.2 (by rw [hget]; rfl))
        rw [if_pos hpath, hnone]
        simp [eq_comm]
      · have hne : s ≠ name := by
          rintro rfl
          rw [hpack] at hs
          exact hpath (Except.ok.inj hs).symm
        rw [if_neg hpath]
        simp [hne]

end Represents

/-! ## Insertion in place -/

/-- The child that a chunk leads to, added to the trie at hand if it is missing. -/
def childOrAdd (parent : NodePlace) (k : UInt64) : EStateM Failure Trie NodePlace := do
  match (← get).child? parent k with
  | some child => return child
  | none => modifyGet (·.addChild parent k)

/-- Insertion as a procedure that edits the trie at hand. What it has changed when it fails stays
changed. -/
def insertInPlace (name : String) (field : Position) : EStateM Failure Trie Unit := do
  if name.isEmpty then throw .nameEmpty
  match pack name with
  | .error bad => throw (.nameUnpackable name bad.char bad.offset)
  | .ok path =>
    if (← get).isTaken path then throw (.nameTaken name)
    let last ← path.foldlM childOrAdd .root
    modify fun t =>
      { t with nodes := t.nodes.modify last.toNat fun n => { n with field := some field } }
    modify fun t => { t with depth := max t.depth path.length }

/-- Reading the trie at hand leaves it there. -/
theorem get_run (t : Trie) : (get : EStateM Failure Trie Trie) t = .ok t t := rfl

theorem childOrAdd_run (parent : NodePlace) (k : UInt64) (t : Trie) :
    childOrAdd parent k t = match t.child? parent k with
      | some child => .ok child t
      | none => .ok (t.addChild parent k).1 (t.addChild parent k).2 := by
  simp only [childOrAdd, bind, EStateM.bind, get_run]
  cases t.child? parent k <;> rfl

theorem foldlM_childOrAdd (start : NodePlace) (path : List UInt64) (t : Trie) :
    path.foldlM childOrAdd start t = .ok (t.grow start path).1 (t.grow start path).2 := by
  induction path generalizing start t with
  | nil => rfl
  | cons k path ih =>
    rw [List.foldlM_cons, grow]
    simp only [bind, EStateM.bind, childOrAdd_run]
    cases t.child? start k with
    | some child => exact ih child t
    | none => exact ih (t.addChild start k).1 (t.addChild start k).2

/-- A failed insertion leaves the trie at hand as it was. -/
theorem insertInPlace_eq (name : String) (field : Position) (t : Trie) :
    insertInPlace name field t = match t.insert name field with
      | .ok t' => .ok () t'
      | .error failure => .error failure t := by
  unfold insertInPlace insert
  by_cases hempty : name.isEmpty = true
  · rw [if_pos hempty, if_pos hempty]
    rfl
  rw [if_neg hempty, if_neg hempty]
  cases pack name with
  | error bad => rfl
  | ok path =>
    simp only [bind, EStateM.bind, get_run]
    by_cases htaken : t.isTaken path = true
    · rw [if_pos htaken, if_pos htaken]
      rfl
    · rw [if_neg htaken, if_neg htaken]
      simp only [EStateM.bind, foldlM_childOrAdd]
      rfl

/-! ## Insertions in sequence -/

/-- One more insertion: the trie after it, and the calls that succeeded so far. -/
def attempt (state : Trie × List (String × Position)) (call : String × Position) :
    Trie × List (String × Position) :=
  match state.1.insert call.1 call.2 with
  | .ok t => (t, state.2 ++ [call])
  | .error _ => state

/-- The trie after insertions in order, the first of them into an empty trie. -/
def ofCalls (calls : List (String × Position)) : Trie := (calls.foldl attempt (.empty, [])).1

/-- The insertions that succeed. -/
def succeeded (calls : List (String × Position)) : List (String × Position) :=
  (calls.foldl attempt (.empty, [])).2

/-- An insertion that succeeds plants a path. -/
theorem eq_plant_of_insert {t t' : Trie} {name : String} {field : Position}
    (h : t.insert name field = .ok t') : t' = t.plant (chunks name.toList) field := by
  unfold insert at h
  split at h
  · cases h
  · split at h
    · cases h
    · next path hpack =>
      rw [(pack_eq_ok_iff.1 hpack).2]
      split at h
      · cases h
      · exact (Except.ok.inj h).symm

theorem size_le_insert {t t' : Trie} {name : String} {field : Position}
    (h : t.insert name field = .ok t') : t.size ≤ t'.size := by
  rw [eq_plant_of_insert h, size_plant]
  exact size_le_grow t .root _

/-- The name of an insertion that succeeds is not refused. -/
theorem Represents.insert_eq_ok {t t' : Trie} {entries : List (String × Position)}
    (h : t.Represents entries) {name : String} {field : Position}
    (hins : t.insert name field = .ok t') :
    refusal (entries.map Prod.fst) name = none ∧ t' = t.plant (chunks name.toList) field := by
  refine ⟨?_, eq_plant_of_insert hins⟩
  rw [h.insert_eq] at hins
  cases hname : refusal (entries.map Prod.fst) name with
  | some failure => simp [hname] at hins
  | none => rfl

theorem Represents.insert {t t' : Trie} {entries : List (String × Position)}
    (h : t.Represents entries) {name : String} {field : Position}
    (hins : t.insert name field = .ok t') (hsize : t'.size ≤ UInt32.size) :
    t'.Represents (entries ++ [(name, field)]) := by
  obtain ⟨hname, rfl⟩ := h.insert_eq_ok hins
  exact h.plant field hname hsize

/-- A property of tries and their entries that holds of the empty trie and is kept by every
successful insertion holds after any insertions. -/
theorem ofCalls_induction {P : Trie → List (String × Position) → Prop} (empty : P .empty [])
    (insert : ∀ {t t' : Trie} {entries : List (String × Position)} {name : String}
      {field : Position}, t.insert name field = .ok t' → t'.size ≤ UInt32.size → P t entries →
        P t' (entries ++ [(name, field)]))
    (calls : List (String × Position)) (hsize : (ofCalls calls).size ≤ UInt32.size) :
    P (ofCalls calls) (succeeded calls) := by
  induction calls using List.reverseRecOn with
  | nil => exact empty
  | append_singleton calls call ih =>
    have hof : ofCalls (calls ++ [call]) = (attempt (ofCalls calls, succeeded calls) call).1 := by
      simp [ofCalls, succeeded]
    have hsucc : succeeded (calls ++ [call]) =
        (attempt (ofCalls calls, succeeded calls) call).2 := by simp [ofCalls, succeeded]
    rw [hof] at hsize
    rw [hof, hsucc]
    unfold attempt at hsize ⊢
    cases hins : (ofCalls calls).insert call.1 call.2 with
    | error failure =>
      simp only [hins] at hsize ⊢
      exact ih hsize
    | ok t =>
      simp only [hins] at hsize ⊢
      exact insert hins hsize (ih (Nat.le_trans (size_le_insert hins) hsize))

/-- After any insertions the trie holds those that succeeded. -/
theorem represents_ofCalls (calls : List (String × Position))
    (hsize : (ofCalls calls).size ≤ UInt32.size) :
    (ofCalls calls).Represents (succeeded calls) :=
  ofCalls_induction .empty (fun hins hsize h => h.insert hins hsize) calls hsize

/-- The trie is an exact map and a failed insertion changes nothing. Whether a name is refused, and
for what cause, depends on the names inserted before; the field of a name is the one of the only
insertion of it that succeeded. -/
theorem insert_atomic_and_get?_exact (calls : List (String × Position))
    (hsize : (ofCalls calls).size ≤ UInt32.size) :
    (∀ name field,
      match refusal ((succeeded calls).map Prod.fst) name with
      | some failure =>
        (ofCalls calls).insert name field = .error failure ∧
          insertInPlace name field (ofCalls calls) = .error failure (ofCalls calls)
      | none => ∃ t', (ofCalls calls).insert name field = .ok t' ∧
          insertInPlace name field (ofCalls calls) = .ok () t') ∧
    (∀ name field, (∃ t', (ofCalls calls).insert name field = .ok t') ↔
      name ≠ "" ∧ (∀ c ∈ name.toList, 0 < c.toNat ∧ c.toNat ≤ 0xFF) ∧
        ∀ field', (name, field') ∉ succeeded calls) ∧
    ((succeeded calls).map Prod.fst).Nodup ∧
    ∀ s field, (ofCalls calls).get? s = some field ↔ (s, field) ∈ succeeded calls := by
  have h := represents_ofCalls calls hsize
  refine ⟨fun name field => ?_, fun name field => ?_, h.nodup, fun s field => h.get?_iff⟩
  · have hins := h.insert_eq name field
    cases hname : refusal ((succeeded calls).map Prod.fst) name with
    | some failure =>
      rw [hname] at hins
      exact ⟨hins, by rw [insertInPlace_eq, hins]⟩
    | none =>
      rw [hname] at hins
      exact ⟨_, hins, by rw [insertInPlace_eq, hins]⟩
  · have hnew : (∀ field', (name, field') ∉ succeeded calls) ↔
        name ∉ (succeeded calls).map Prod.fst := by simp
    simp only [hnew, ← isPackable_iff]
    rw [← refusal_eq_none_iff, h.insert_eq]
    cases refusal ((succeeded calls).map Prod.fst) name <;> simp

/-- A name, a longer one that begins with it, and the first one again. -/
theorem get?_ofCalls_shared_nodes :
    (ofCalls [("Identity", ⟨0⟩), ("Identity2", ⟨1⟩), ("Identity", ⟨2⟩)]).size ≤ UInt32.size ∧
      (ofCalls [("Identity", ⟨0⟩), ("Identity2", ⟨1⟩), ("Identity", ⟨2⟩)]).get? "Identity" =
        some ⟨0⟩ :=
  have hsize : (ofCalls [("Identity", ⟨0⟩), ("Identity2", ⟨1⟩), ("Identity", ⟨2⟩)]).size ≤
      UInt32.size := by decide +kernel
  ⟨hsize, ((insert_atomic_and_get?_exact _ hsize).2.2.2 _ _).2 (by decide +kernel)⟩

end TypedRecords.Name.Trie
