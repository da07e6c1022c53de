import TypedRecords.Proofs.Name.Program.Size
import TypedRecords.Proofs.Name.Trie.Wrapping

/-!
# When the ids of steps wrap

The id of a step is its place, cut to 32 bits, and a walk begins at the id of the last step. Where
runs are cut down to single items there are more steps than nodes, so that the ids of steps can wrap
although those of nodes do not. If there is one step more than there are ids, every walk begins at
the first step. When that step scans nothing but one arm behind which nothing lies, the program
finds one text of a single chunk and no other (`Program.resolve_of_opensWith`), and neither need
that text be a name nor any name be that text (`Trie.Fits.resolve_compile_wrapped`).
-/

namespace TypedRecords.Name

/-! ## What is laid out first -/

namespace Layout

/-- The first step scans the first arm alone. -/
structure OpensWith (l : Layout) (arm : Arm) : Prop where
  step : l.steps[0]? = some (.scan 0 1)
  arm : l.arms[0]? = some arm

theorem opensWith_pushScan (arm : Arm) : (empty.pushScan [arm]).2.OpensWith arm := ⟨rfl, rfl⟩

theorem OpensWith.mono {l l' : Layout} {arm : Arm} (h : l.OpensWith arm) (hwithin : l.Within l') :
    l'.OpensWith arm := by
  have hstep := hwithin.step_eq (Array.getElem?_eq_some_iff.1 h.step).1
  have harm := hwithin.arm_eq (Array.getElem?_eq_some_iff.1 h.arm).1
  exact ⟨hstep.trans h.step, harm.trans h.arm⟩

end Layout

section

variable {α : Type} {arm : α → Layout → Arm × Layout}

/-- What the arm of the first item lays out stands first when a run is laid out. -/
theorem Layout.within_lay_bisect {key : α → UInt64} {limit : Nat} {run : List α}
    (harm : ∀ item ∈ run, ∀ l : Layout, l.Within (arm item l).2) {first : α}
    (hfirst : run.head? = some first) (l : Layout) :
    (arm first l).2.Within ((bisect key limit run).lay arm l).2 := by
  fun_induction bisect key limit run with
  | case1 run hshort =>
    obtain ⟨others, rfl⟩ := List.head?_eq_some_iff.1 hfirst
    have hothers := within_layArms (fun x hx => harm x (List.mem_cons_of_mem _ hx)) (arm first l).2
    exact hothers.trans (within_pushScan _ _)
  | case2 run hlong hhalf ihlower ihupper =>
    have hhead : (run.take (run.length / 2)).head? = some first := by
      rw [List.head?_take, if_neg (by omega), hfirst]
    have hlower := ihlower (fun x hx => harm x (List.mem_of_mem_take hx)) hhead
    refine hlower.trans ((within_lay (fun x hx => ?_) _).trans (within_push _ _))
    rw [items_bisect] at hx
    exact harm x (List.mem_of_mem_drop hx)

/-- The step for the whole of a bisection is the last one laid out. -/
theorem Bisection.fst_lay (b : Bisection α) (l : Layout) :
    (b.lay arm l).1 = .ofNat ((b.lay arm l).2.steps.size - 1) := by
  cases b <;> simp [lay, Layout.pushScan, Layout.push, StepPlace.ofNat]

end

namespace Trie

theorem fst_layLevel (t : Trie) (limit depth : Nat) (ids : List NodePlace) (l : Layout) :
    (t.layLevel limit depth ids l).1 =
      .ofNat ((t.layLevel limit depth ids l).2.steps.size - 1) := by
  cases depth with
  | zero => simp [layLevel, Layout.pushScan, Layout.push, StepPlace.ofNat]
  | succ depth =>
    rw [layLevel_succ]
    exact Bisection.fst_lay _ l

/-- Walks begin at the place of the last step, cut to 32 bits. -/
theorem entry_compile (t : Trie) (limit : Nat) :
    (t.compile limit).entry = .ofNat ((t.compile limit).steps.size - 1) :=
  t.fst_layLevel limit t.depth t.root.children .empty

end Trie

/-! ## A program that begins with its first step -/

theorem Reader.remaining_eq_nil_iff {r : Reader} : r.remaining = .ok [] ↔ r.rest = [] := by
  refine ⟨fun h => ?_, remaining_of_rest_eq_nil⟩
  by_contra hne
  rw [remaining_of_rest_ne_nil hne] at h
  cases hnext : r.next with
  | error bad => simp [hnext] at h
  | ok read =>
    rw [hnext] at h
    cases hrest : read.2.remaining <;> simp [hrest] at h

/-- A text has one chunk if it ends behind its first one. -/
theorem Reader.remaining_eq_singleton_iff {r : Reader} {k : UInt64} (hk : k ≠ 0) :
    r.remaining = .ok [k] ↔ ∃ r', r.next = .ok (k, r') ∧ r'.rest = [] := by
  by_cases hrest : r.rest = []
  · rw [remaining_of_rest_eq_nil hrest, next_of_rest_eq_nil hrest]
    simp [hk.symm]
  · rw [remaining_of_rest_ne_nil hrest]
    cases hnext : r.next with
    | error bad => simp
    | ok read =>
      obtain ⟨k', r'⟩ := read
      have hend := remaining_eq_nil_iff (r := r')
      cases hremaining : r'.remaining <;> simp_all

section

variable {p : Program} {k : UInt64} {field : Position}
  (hopens : p.layout.OpensWith ⟨k, some field, none⟩)

include hopens

theorem Layout.OpensWith.armsIn?_eq : p.armsIn? 0 1 = some [⟨k, some field, none⟩] := by
  obtain ⟨hlt, -⟩ := Array.getElem?_eq_some_iff.1 hopens.arm
  have hfirst : p.arms.toList.head? = some ⟨k, some field, none⟩ := by
    rw [List.head?_eq_getElem?, Array.getElem?_toList]
    exact hopens.arm
  have hrange : (p.arms.extract 0 1).toList = [⟨k, some field, none⟩] := by
    rw [Array.toList_extract, List.extract_eq_take_drop, List.drop_zero, List.take_one, hfirst]
    rfl
  exact (if_pos ⟨by decide, hlt⟩).trans (congrArg some hrange)

/-- A walk that begins with the scan of one arm, behind which nothing lies, ends there. -/
theorem Layout.OpensWith.run_eq (hentry : p.entry.toNat = 0) (chunk : UInt64) (r : Reader) :
    p.run p.steps.size ⟨p.entry, chunk, r⟩ =
      .answer (if k = chunk ∧ r.rest = [] then some field else none) := by
  obtain ⟨moves, hmoves⟩ : ∃ moves, p.steps.size = moves + 1 :=
    Nat.exists_eq_add_one_of_ne_zero (Nat.ne_of_gt (Array.getElem?_eq_some_iff.1 hopens.step).1)
  have hstep : p.steps[p.entry.toNat]? = some (.scan 0 1) := hentry ▸ hopens.step
  rw [hmoves, Program.run_succ, Program.move_scan hstep hopens.armsIn?_eq]
  by_cases hchunk : k = chunk
  · by_cases hrest : r.rest = [] <;> simp [Program.follow, Program.after, hchunk, hrest]
  · simp [Program.after, hchunk]

/-- So the program finds the one text whose only chunk is the arm's key. -/
theorem Program.resolve_of_opensWith (hentry : p.entry.toNat = 0) (hk : k ≠ 0) {name : String}
    {i : Position} : p.resolve name = some i ↔ pack name = .ok [k] ∧ field = i := by
  have hpack : pack name = .ok [k] ↔ _ := Reader.remaining_eq_singleton_iff hk
  rw [hpack, resolve, begin?]
  cases hnext : (Reader.ofString name).next with
  | error bad => simp
  | ok read =>
    obtain ⟨chunk, r⟩ := read
    simp only [bind, Option.bind, hopens.run_eq hentry]
    by_cases hfound : k = chunk ∧ r.rest = []
    · rw [if_pos hfound]
      simp [hfound]
    · have hnone : ¬∃ r', (.ok (chunk, r) : Except BadChar _) = .ok (k, r') ∧ r'.rest = [] := by
        rintro ⟨r', hread, hrest⟩
        obtain ⟨rfl, rfl⟩ := Prod.mk.inj (Except.ok.inj hread)
        exact hfound ⟨rfl, hrest⟩
      rw [if_neg hfound]
      constructor
      · intro hsome
        cases hsome
      · rintro ⟨hread, -⟩
        exact absurd hread hnone

end

namespace Trie

/-! ## Names that fork once -/

/-- Every child of the root has one child, at which a name ends. This one has the key `k` and no
children. -/
structure Forks (t : Trie) (k : UInt64) : Prop where
  depth : t.depth = 2
  leaf {id : NodePlace} : id ∈ t.root.children → ∃ leaf field,
    (t.node id).children = [leaf] ∧ t.node leaf = ⟨k, some field, []⟩

theorem layLevel_leaf {t : Trie} {leaf : NodePlace} (h : (t.node leaf).children = [])
    (limit depth : Nat) (l : Layout) : t.layLevel limit (depth + 1) [leaf] l =
      l.pushScan [⟨(t.node leaf).key, (t.node leaf).field, none⟩] := by
  have hshort : [leaf].length < max limit 2 := by
    rw [List.length_singleton]
    omega
  have harm : t.levelArm limit depth leaf l = (⟨(t.node leaf).key, (t.node leaf).field, none⟩, l) :=
    if_pos (List.isEmpty_iff.2 h)
  rw [layLevel_succ, bisect_of_lt hshort, Bisection.lay]
  simp only [layArms, harm]

namespace Forks

variable {t : Trie} {k : UInt64} (h : t.Forks k)

include h

/-- The arm of a child of the root costs the scan of one arm. -/
theorem exists_levelArm {id : NodePlace} (hid : id ∈ t.root.children) (limit : Nat) :
    ∃ field, ∀ l, (t.levelArm limit 1 id l).2 = (l.pushScan [⟨k, some field, none⟩]).2 := by
  obtain ⟨leaf, field, hchildren, hleaf⟩ := h.leaf hid
  refine ⟨field, fun l => ?_⟩
  rw [levelArm, hchildren, if_neg (by simp), layLevel_leaf (by rw [hleaf]), hleaf]

theorem compile_eq (limit : Nat) : (t.compile limit).layout =
    ((bisect (fun id => (t.node id).key) limit t.root.children).lay (t.levelArm limit 1)
      .empty).2 := by
  rw [Program.layout, compile, h.depth]
  rfl

/-- Where runs are cut down to single items, there are three steps for every child of the root, but
for one. -/
theorem steps_size_compile {limit : Nat} (hlimit : limit ≤ 2) (hne : t.root.children ≠ []) :
    (t.compile limit).steps.size + 1 = 3 * t.root.children.length := by
  have hcost : ∀ id ∈ (bisect (fun id => (t.node id).key) limit t.root.children).items,
      ∀ l, (t.levelArm limit 1 id l).2.steps.size = l.steps.size + 1 := by
    intro id hid l
    rw [items_bisect] at hid
    obtain ⟨field, hlevel⟩ := h.exists_levelArm hid limit
    rw [hlevel]
    exact Layout.counts_steps_size.pushScan l _
  have hsize := Layout.counts_steps_size.lay hcost .empty
  have hcuts := cuts_add_one hlimit (List.length_pos_iff.2 hne)
  rw [← h.compile_eq, items_bisect, cutCount_bisect, List.map_const', List.sum_replicate_nat]
    at hsize
  have hempty : Layout.empty.steps.size = 0 := rfl
  dsimp only [Program.layout] at hsize
  omega

/-- The first step scans the arm of the leaf that is laid out first. -/
theorem opensWith_compile (limit : Nat) (hne : t.root.children ≠ []) :
    ∃ field, (t.compile limit).layout.OpensWith ⟨k, some field, none⟩ := by
  obtain ⟨first, others, hfirst⟩ := List.exists_cons_of_ne_nil hne
  obtain ⟨field, hlevel⟩ := h.exists_levelArm (hfirst ▸ List.mem_cons_self) limit
  refine ⟨field, ?_⟩
  rw [h.compile_eq]
  refine Layout.OpensWith.mono ?_ (Layout.within_lay_bisect (fun id hid l => ?_)
    (congrArg List.head? hfirst) .empty)
  · rw [hlevel]
    exact Layout.opensWith_pushScan _
  · obtain ⟨other, hother⟩ := h.exists_levelArm hid limit
    rw [hother]
    exact Layout.within_pushScan l _

end Forks

theorem WF.find?_child {t : Trie} (hwf : t.WF) {p : List UInt64} {id child : NodePlace}
    (hfind : t.find? .root p = some id) (hchild : child ∈ (t.node id).children) :
    t.find? .root (p ++ [(t.node child).key]) = some child := by
  rw [find?_append_singleton, hfind]
  exact hwf.child?_eq_some_iff.2 ⟨hchild, rfl⟩

namespace Fits

variable {t : Trie} {entries : List (String × Position)} {k : UInt64} (h : t.Fits entries)
  (hpaths : ∀ entry ∈ entries, ∃ first, chunks entry.1.toList = [first, k])

include h

theorem pack_eq {entry : String × Position} (hentry : entry ∈ entries) :
    pack entry.1 = .ok (chunks entry.1.toList) := by
  cases hpack : pack entry.1 with
  | ok path => rw [(pack_eq_ok_iff.1 hpack).2]
  | error bad =>
    have hget := h.represents.get?_iff.2 hentry
    rw [get?_of_pack_error hpack] at hget
    cases hget

include hpaths

/-- A path that leads to a node begins the path of a name. -/
theorem prefix_of_find? {path : List UInt64} {id : NodePlace} (hne : path ≠ [])
    (hfind : t.find? .root path = some id) :
    ∃ entry ∈ entries, ∃ first, chunks entry.1.toList = [first, k] ∧ path <+: [first, k] := by
  rcases h.spells.isSome_find?_iff.1 (Option.isSome_of_eq_some hfind) with
    rfl | ⟨entry, hentry, hpath⟩
  · exact absurd rfl hne
  · obtain ⟨first, hfirst⟩ := hpaths entry hentry
    exact ⟨entry, hentry, first, hfirst, hfirst ▸ hpath⟩

/-- A name goes on through every child of the root. -/
theorem exists_entry {id : NodePlace} (hid : id ∈ t.root.children) :
    ∃ entry ∈ entries, chunks entry.1.toList = [(t.node id).key, k] := by
  have hfind : t.find? .root [(t.node id).key] = some id :=
    h.represents.wf.find?_child (p := []) rfl hid
  obtain ⟨entry, hentry, first, hchunks, hprefix⟩ := h.prefix_of_find? hpaths (by simp) hfind
  obtain rfl : (t.node id).key = first := by simpa using hprefix
  exact ⟨entry, hentry, hchunks⟩

/-- It ends at the only node below, which has nothing below it. -/
theorem exists_leaf {id : NodePlace} (hid : id ∈ t.root.children) : ∃ leaf field,
    (t.node id).children = [leaf] ∧ t.node leaf = ⟨k, some field, []⟩ := by
  have hwf := h.represents.wf
  have hfind : t.find? .root [(t.node id).key] = some id := hwf.find?_child (p := []) rfl hid
  obtain ⟨⟨name, field⟩, hentry, hchunks⟩ := h.exists_entry hpaths hid
  have hend := h.spells.fieldAt_eq_some_iff.2 ⟨name, hentry, hchunks⟩
  obtain ⟨leaf, hleaf, hfield⟩ := Option.bind_eq_some_iff.1 hend
  obtain ⟨parent, hparent, hmem, hkey⟩ := hwf.exists_parent_of_find? (p := [_]) hleaf
  obtain rfl : id = parent := Option.some.inj (hfind.symm.trans hparent)
  have honly : ∀ child ∈ (t.node id).children, child = leaf := by
    intro child hchild
    obtain ⟨-, -, first, -, hprefix⟩ :=
      h.prefix_of_find? hpaths (by simp) (hwf.find?_child hfind hchild)
    have hsame : (t.node id).key = first ∧ (t.node child).key = k := by simpa using hprefix
    exact Option.some.inj ((hwf.child?_eq_some_iff.2 ⟨hchild, hsame.2⟩).symm.trans
      (hwf.child?_eq_some_iff.2 ⟨hmem, hkey⟩))
  have hnone : (t.node leaf).children = [] := by
    rw [List.eq_nil_iff_forall_not_mem]
    intro child hchild
    obtain ⟨-, -, first, -, hprefix⟩ :=
      h.prefix_of_find? hpaths (by simp) (hwf.find?_child hleaf hchild)
    exact absurd hprefix.length_le (by simp)
  have hperm : (t.node id).children.Perm [leaf] := by
    have hnodup := (hwf.ascending id).nodup_keys.of_map _
    refine (List.perm_ext_iff_of_nodup hnodup (List.nodup_singleton _)).2 fun child => ?_
    rw [List.mem_singleton]
    exact ⟨honly child, fun hchild => hchild ▸ hmem⟩
  refine ⟨leaf, field, List.perm_singleton.1 hperm, ?_⟩
  rw [← hkey, ← hfield, ← hnone]

theorem forks (hne : entries ≠ []) : t.Forks k := by
  refine ⟨?_, h.exists_leaf hpaths⟩
  have htwo {entry : String × Position} (hentry : entry ∈ entries) :
      (chunks entry.1.toList).length = 2 := by
    obtain ⟨first, hfirst⟩ := hpaths entry hentry
    rw [hfirst]
    rfl
  obtain ⟨entry, hentry⟩ := List.exists_mem_of_ne_nil entries hne
  have hle := h.spells.depth_le_iff.2 fun entry hentry => Nat.le_of_eq (htwo hentry)
  have hge := h.spells.depth_le_iff.1 (Nat.le_refl _) entry hentry
  rw [htwo hentry] at hge
  exact Nat.le_antisymm hle hge

/-- There are as many children of the root as names. -/
theorem length_children : t.root.children.length = entries.length := by
  have hwf := h.represents.wf
  have hleft : ((t.root.children.map fun id => (t.node id).key).map ([·, k])).Nodup :=
    (hwf.ascending .root).nodup_keys.map fun a b hab => (List.cons.inj hab).1
  have hright : ((entries.map Prod.fst).map fun name => chunks name.toList).Nodup := by
    refine h.represents.nodup.map_on fun name hname name' hname' hsame => ?_
    obtain ⟨entry, hentry, rfl⟩ := List.mem_map.1 hname
    obtain ⟨entry', hentry', rfl⟩ := List.mem_map.1 hname'
    exact pack_injective (h.pack_eq hentry) ((h.pack_eq hentry').trans (congrArg _ hsame.symm))
  have hperm := (List.perm_ext_iff_of_nodup hleft hright).2 fun path => ?_
  · simpa using hperm.length_eq
  rw [List.map_map, List.map_map, List.mem_map, List.mem_map]
  constructor
  · rintro ⟨id, hid, rfl⟩
    exact h.exists_entry hpaths hid
  · rintro ⟨entry, hentry, rfl⟩
    obtain ⟨first, hfirst⟩ := hpaths entry hentry
    have hsome : (t.find? .root ([] ++ [first])).isSome = true :=
      h.spells.isSome_find?_iff.2 (.inr ⟨entry, hentry, by rw [hfirst]; exact ⟨[k], rfl⟩⟩)
    obtain ⟨id, hid⟩ := Option.isSome_iff_exists.1 hsome
    obtain ⟨parent, hparent, hmem, hkey⟩ := hwf.exists_parent_of_find? hid
    obtain rfl : .root = parent := Option.some.inj hparent
    exact ⟨id, hmem, by simp [hkey, hfirst]⟩

/-- Where runs are cut down to single items, names of two chunks, the second of them the same for
all, can be so many that there is one step more than ids. The program finds no name of two chunks
then, but the text of the second chunk alone. -/
theorem resolve_compile_wrapped {limit : Nat} (hlimit : limit ≤ 2)
    (hcount : 3 * entries.length = UInt32.size + 2) : ∃ field, ∀ name i,
      (t.compile limit).resolve name = some i ↔ pack name = .ok [k] ∧ field = i := by
  have hpos : 0 < entries.length := by omega
  have hforks := h.forks hpaths (List.ne_nil_of_length_pos hpos)
  have hchildren := h.length_children hpaths
  have hne : t.root.children ≠ [] := List.ne_nil_of_length_pos (hchildren ▸ hpos)
  have hsteps := hforks.steps_size_compile hlimit hne
  obtain ⟨field, hopens⟩ := hforks.opensWith_compile limit hne
  have hentry : (t.compile limit).entry.toNat = 0 := by
    have hlast : (t.compile limit).steps.size - 1 = UInt32.size := by omega
    rw [entry_compile, hlast]
    decide
  have hk : k ≠ 0 := by
    obtain ⟨entry, hentry⟩ := List.exists_mem_of_length_pos hpos
    obtain ⟨first, hfirst⟩ := hpaths entry hentry
    refine ne_zero_of_mem_chunks (pack_eq_ok_iff.1 (h.pack_eq hentry)).1 k ?_
    simp [hfirst]
  exact ⟨field, fun name i => Program.resolve_of_opensWith hopens hentry hk⟩

end Fits
end Trie
end TypedRecords.Name
