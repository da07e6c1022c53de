import Mathlib.Data.Multiset.Bind
import Mathlib.Data.Multiset.Range
import TypedRecords.Proofs.Name.Trie

/-!
# Visiting every node once

Going through a trie from the root meets the root and, for every node met, the node's children
(`visited_eq`). Since every other node is the child of exactly one node, which lies before it, this
alone settles by induction over the array that every node is met exactly once (`perm_preorder`).
-/

namespace TypedRecords.Name

/-- The place of the node that lies at `i`. -/
def NodePlace.ofNat (i : Nat) : NodePlace := ⟨.ofNat i⟩

theorem NodePlace.toNat_ofNat {i : Nat} (h : i < UInt32.size) : (ofNat i).toNat = i :=
  UInt32.toNat_ofNat_of_lt' h

theorem NodePlace.ofNat_toNat (id : NodePlace) : ofNat id.toNat = id := by
  simp [ofNat, toNat]

namespace Trie

/-- No path below the nodes `ids` is so long that going down `depth` levels misses its end. -/
def Shallow (t : Trie) (depth : Nat) (ids : List NodePlace) : Prop :=
  ∀ id ∈ ids, ∀ path last, t.find? id path = some last → path.length < depth

theorem Shallow.children {t : Trie} (hwf : t.WF) {depth : Nat} {ids : List NodePlace}
    (h : t.Shallow (depth + 1) ids) {id : NodePlace} (hid : id ∈ ids) :
    t.Shallow depth (t.node id).children := by
  intro child hchild path last hfind
  have hlonger : t.find? id ((t.node child).key :: path) = some last := by
    rw [find?_cons, hwf.child?_eq_some_iff.2 ⟨hchild, rfl⟩]
    exact hfind
  have := h id hid _ _ hlonger
  rw [List.length_cons] at this
  omega

theorem Shallow.eq_nil {t : Trie} {ids : List NodePlace} (h : t.Shallow 0 ids) : ids = [] := by
  rw [List.eq_nil_iff_forall_not_mem]
  intro id hid
  exact Nat.not_lt_zero _ (h id hid [] id rfl)

theorem shallow_root {t : Trie}
    (hdepth : ∀ path last, t.find? .root path = some last → path.length ≤ t.depth) :
    t.Shallow (t.depth + 1) [.root] := by
  intro id hid path last hfind
  obtain rfl := List.mem_singleton.1 hid
  exact Nat.lt_succ_of_le (hdepth path last hfind)

/-- The nodes met below a node and itself, going down `depth` levels. -/
def visited (t : Trie) (depth : Nat) (id : NodePlace) : Multiset NodePlace :=
  (t.visit depth 0 id).map Visit.id

variable {t : Trie}

theorem map_id_visit (t : Trie) (depth level : Nat) (id : NodePlace) :
    (t.visit depth level id).map Visit.id = (t.visit depth 0 id).map Visit.id := by
  induction depth generalizing level id with
  | zero => rfl
  | succ depth ih =>
    simp only [visit, List.map_cons, List.map_flatMap]
    congr 1
    refine List.flatMap_congr fun child _ => ?_
    rw [ih (level + 1) child, ih (0 + 1) child]

theorem visited_zero (t : Trie) (id : NodePlace) : t.visited 0 id = {id} := rfl

theorem visited_succ (t : Trie) (depth : Nat) (id : NodePlace) :
    t.visited (depth + 1) id =
      {id} + Multiset.bind (t.node id).children (t.visited depth) := by
  unfold visited
  rw [Multiset.coe_bind, visit, List.map_cons, List.map_flatMap, ← Multiset.cons_coe,
    Multiset.singleton_add]
  congr 2
  exact List.flatMap_congr fun child _ => t.map_id_visit depth (0 + 1) child

/-- Besides the first node, exactly the children of the nodes met are met. -/
theorem visited_eq (hwf : t.WF) {depth : Nat} {id : NodePlace}
    (hshallow : t.Shallow (depth + 1) [id]) :
    t.visited depth id =
      {id} + (t.visited depth id).bind fun met => (t.node met).children := by
  induction depth generalizing id with
  | zero =>
    have hnone : (t.node id).children = [] :=
      (hshallow.children hwf (List.mem_singleton_self id)).eq_nil
    rw [visited_zero, Multiset.singleton_bind, hnone]
    rfl
  | succ depth ih =>
    have hchildren : ∀ child ∈ ((t.node id).children : Multiset NodePlace),
        t.visited depth child =
          {child} + (t.visited depth child).bind fun met => (t.node met).children := by
      intro child hchild
      have hbelow := hshallow.children hwf (List.mem_singleton_self id)
      refine ih fun other hother => ?_
      rw [List.mem_singleton.1 hother]
      exact hbelow child hchild
    rw [visited_succ, Multiset.add_bind, Multiset.singleton_bind, Multiset.bind_assoc]
    conv_lhs => rw [Multiset.bind_congr hchildren, Multiset.bind_add, Multiset.bind_singleton,
      Multiset.map_id']

theorem count_children (hwf : t.WF) {id parent : NodePlace}
    (hparent : id ∈ (t.node parent).children) (met : NodePlace) :
    ((t.node met).children : Multiset NodePlace).count id = if met = parent then 1 else 0 := by
  rw [Multiset.coe_count]
  split
  · next heq =>
    subst heq
    exact List.count_eq_one_of_mem (List.Nodup.of_map _ (hwf.ascending met).nodup_keys) hparent
  · next hne =>
    rw [List.count_eq_zero]
    exact fun hmem => hne (hwf.parent_unique hmem hparent)

theorem count_bind_children (hwf : t.WF) {id parent : NodePlace}
    (hparent : id ∈ (t.node parent).children) (met : Multiset NodePlace) :
    (met.bind fun met => ((t.node met).children : Multiset NodePlace)).count id =
      met.count parent := by
  induction met using Multiset.induction with
  | empty => rfl
  | cons first others ih =>
    rw [Multiset.cons_bind, Multiset.count_add, ih, count_children hwf hparent, Multiset.count_cons,
      Nat.add_comm]
    simp only [eq_comm]

section

variable (hwf : t.WF) (hdepth : ∀ path last, t.find? .root path = some last → path.length ≤ t.depth)

include hwf hdepth

theorem count_visited {id : NodePlace} (hid : id.toNat < t.size) :
    (t.visited t.depth .root).count id = 1 := by
  have hvisited := visited_eq hwf (shallow_root hdepth)
  -- the parent of a node lies before it in the array
  induction hn : id.toNat using Nat.strongRecOn generalizing id with
  | _ n ih =>
    conv_lhs => rw [hvisited]
    rw [Multiset.count_add]
    by_cases hroot : id = .root
    · subst hroot
      rw [Multiset.count_singleton_self, Multiset.count_eq_zero.2]
      intro hmem
      obtain ⟨met, -, hchild⟩ := Multiset.mem_bind.1 hmem
      exact hwf.root_not_child met hchild
    · obtain ⟨parent, hparent⟩ := hwf.exists_parent hroot hid
      have hlt := hwf.lt_child hparent
      rw [count_bind_children hwf hparent, ih parent.toNat (hn ▸ hlt) (by omega) rfl,
        Multiset.count_eq_zero.2]
      simpa using hroot

theorem toNat_lt_of_mem_visited {id : NodePlace} (hid : id ∈ t.visited t.depth .root) :
    id.toNat < t.size := by
  rw [visited_eq hwf (shallow_root hdepth), Multiset.mem_add, Multiset.mem_singleton,
    Multiset.mem_bind] at hid
  rcases hid with rfl | ⟨met, -, hchild⟩
  · exact hwf.size_pos
  · exact hwf.child_lt hchild

/-- Every node is met once. -/
theorem visited_eq_map_range (hsize : t.size ≤ UInt32.size) :
    t.visited t.depth .root = (Multiset.range t.size).map NodePlace.ofNat := by
  have hinj : ∀ i ∈ Multiset.range t.size, ∀ j ∈ Multiset.range t.size,
      NodePlace.ofNat i = NodePlace.ofNat j → i = j := by
    intro i hi j hj heq
    rw [Multiset.mem_range] at hi hj
    rw [← NodePlace.toNat_ofNat (Nat.lt_of_lt_of_le hi hsize), heq,
      NodePlace.toNat_ofNat (Nat.lt_of_lt_of_le hj hsize)]
  have hnodup : (t.visited t.depth .root).Nodup := by
    rw [Multiset.nodup_iff_count_eq_one]
    exact fun id hid => count_visited hwf hdepth (toNat_lt_of_mem_visited hwf hdepth hid)
  rw [Multiset.Nodup.ext hnodup (Multiset.Nodup.map_on hinj (Multiset.nodup_range _))]
  intro id
  rw [Multiset.mem_map]
  constructor
  · intro hid
    exact ⟨id.toNat, Multiset.mem_range.2 (toNat_lt_of_mem_visited hwf hdepth hid), id.ofNat_toNat⟩
  · rintro ⟨i, hi, rfl⟩
    rw [Multiset.mem_range] at hi
    rw [← Multiset.one_le_count_iff_mem, count_visited hwf hdepth]
    rwa [NodePlace.toNat_ofNat (Nat.lt_of_lt_of_le hi hsize)]

end

theorem node_of_mem_visit {depth level : Nat} {id : NodePlace} {v : Visit}
    (hv : v ∈ t.visit depth level id) : v.node = t.node v.id := by
  induction depth generalizing level id with
  | zero =>
    obtain rfl := List.mem_singleton.1 hv
    rfl
  | succ depth ih =>
    rcases List.mem_cons.1 hv with rfl | hv
    · rfl
    · obtain ⟨child, -, hv⟩ := List.mem_flatMap.1 hv
      exact ih hv

/-- Going through a trie meets every node of the array once. -/
theorem perm_preorder (hwf : t.WF)
    (hdepth : ∀ path last, t.find? .root path = some last → path.length ≤ t.depth)
    (hsize : t.size ≤ UInt32.size) : (t.preorder.map Visit.node).Perm t.nodes.toList := by
  have hids : (t.preorder.map Visit.id).Perm ((List.range t.size).map NodePlace.ofNat) := by
    rw [← Multiset.coe_eq_coe]
    exact visited_eq_map_range hwf hdepth hsize
  have hnodes : t.preorder.map Visit.node = (t.preorder.map Visit.id).map t.node := by
    rw [List.map_map]
    exact List.map_congr_left fun v hv => node_of_mem_visit hv
  have harray : ((List.range t.size).map NodePlace.ofNat).map t.node = t.nodes.toList := by
    refine List.ext_getElem (by simp [size]) fun i hi hi' => ?_
    have hlt : i < t.size := by simpa using hi
    simp [node, NodePlace.toNat_ofNat (Nat.lt_of_lt_of_le hlt hsize),
      show i < t.nodes.size from hlt]
  rw [hnodes, ← harray]
  exact hids.map _

end Trie
end TypedRecords.Name
