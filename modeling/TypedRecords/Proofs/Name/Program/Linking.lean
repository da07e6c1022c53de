import Mathlib.Data.Multiset.Bind
import Mathlib.Data.Multiset.Range
import TypedRecords.Proofs.Name.Program.Layout

/-!
# References, ranges and arms of a layout

While a trie is laid out, the steps that nothing refers to yet are pending: each push refers to
pending steps, appends one step and makes this one pending (`Layout.Linked`). In the end only the
entry is pending, so every other step is referred to once. The ranges of the scans follow each other
without a gap (`Tiles`), and the arms are those of the nodes below the root (`outlines_layLevel`).
-/

namespace TypedRecords.Name

/-- The place of the step laid out after `i` others. -/
def StepPlace.ofNat (i : Nat) : StepPlace := ⟨.ofNat i⟩

theorem StepPlace.toNat_ofNat {i : Nat} (h : i < UInt32.size) : (ofNat i).toNat = i :=
  UInt32.toNat_ofNat_of_lt' h

theorem StepPlace.ofNat_toNat (step : StepPlace) : ofNat step.toNat = step := by
  simp [ofNat, toNat]

namespace Step

/-- The steps that a step goes on to without an arm. -/
def targets : Step → List StepPlace
  | .scan .. => []
  | .split _ lower upper => [lower, upper]

/-- The range of arms that a step scans. -/
def range? : Step → Option (UInt32 × UInt32)
  | .scan first last => some (first, last)
  | .split .. => none

end Step

/-- Ranges that begin at `start`, end at `stop`, and each begin where the one before ends. -/
def Tiles : List (UInt32 × UInt32) → Nat → Nat → Prop
  | [], start, stop => start = stop
  | (first, last) :: ranges, start, stop =>
    first.toNat = start ∧ first ≤ last ∧ Tiles ranges last.toNat stop

theorem Tiles.append_singleton {ranges : List (UInt32 × UInt32)} {start : Nat}
    {first last : UInt32} (h : Tiles ranges start first.toNat) (hle : first ≤ last) :
    Tiles (ranges ++ [(first, last)]) start last.toNat := by
  induction ranges generalizing start with
  | nil => exact ⟨h.symm, hle, rfl⟩
  | cons range ranges ih => exact ⟨h.1, h.2.1, ih h.2.2⟩

namespace Layout

/-- The places that steps and arms refer to, as often as they do. -/
def references (l : Layout) : List StepPlace :=
  l.steps.toList.flatMap Step.targets ++ l.arms.toList.filterMap Arm.next

/-- The ranges of the scans, in order. -/
def ranges (l : Layout) : List (UInt32 × UInt32) := l.steps.toList.filterMap Step.range?

/-- All steps but the pending ones are referred to once, and the scans cover the arms in order. -/
structure Linked (l : Layout) (pending : Multiset StepPlace) : Prop where
  referenced : (l.references : Multiset StepPlace) + pending =
    (Multiset.range l.steps.size).map StepPlace.ofNat
  tiled : l.arms.size < UInt32.size → Tiles l.ranges 0 l.arms.size

theorem references_push (l : Layout) (step : Step) :
    ((l.push step).2.references : Multiset StepPlace) = l.references + step.targets := by
  simp only [references, push, Array.toList_push, List.flatMap_append, List.flatMap_singleton,
    ← Multiset.coe_add]
  exact add_right_comm ..

theorem references_pushScan (l : Layout) (arms : List Arm) :
    ((l.pushScan arms).2.references : Multiset StepPlace) =
      l.references + arms.filterMap Arm.next := by
  simp only [references, pushScan, push, Array.toList_push, List.flatMap_append,
    List.flatMap_singleton, Step.targets, List.append_nil, Array.toList_appendList,
    List.filterMap_append, ← Multiset.coe_add, add_assoc]

theorem map_range_push (l : Layout) (step : Step) :
    (Multiset.range (l.push step).2.steps.size).map StepPlace.ofNat =
      {(l.push step).1} + (Multiset.range l.steps.size).map StepPlace.ofNat := by
  rw [push, Array.size_push, Multiset.range_succ, Multiset.map_cons]
  rfl

namespace Linked

variable {l : Layout} {pending : Multiset StepPlace}

theorem empty : Layout.empty.Linked 0 := ⟨rfl, fun _ => rfl⟩

/-- Every step is counted among the references or among the pending ones. -/
theorem length_references (h : l.Linked pending) :
    l.references.length + pending.card = l.steps.size := by
  simpa using congrArg Multiset.card h.referenced

/-- A split refers to two pending steps. -/
theorem push_split {pivot : UInt64} {lower upper : StepPlace}
    (h : l.Linked ({upper} + ({lower} + pending))) :
    (l.push (.split pivot lower upper)).2.Linked
      ({(l.push (.split pivot lower upper)).1} + pending) := by
  constructor
  · rw [references_push, map_range_push, ← h.referenced, Step.targets]
    have htargets : (([lower, upper] : List StepPlace) : Multiset StepPlace) =
        {upper} + {lower} := by
      rw [add_comm]
      rfl
    rw [htargets, add_left_comm, add_assoc, add_assoc]
  · intro hsize
    have hranges : (l.push (.split pivot lower upper)).2.ranges = l.ranges := by
      simp [ranges, push, Step.range?]
    rw [hranges]
    exact h.tiled hsize

/-- A scan refers to the pending steps that its arms go on to. -/
theorem pushScan {arms : List Arm} (h : l.Linked (arms.filterMap Arm.next + pending)) :
    (l.pushScan arms).2.Linked ({(l.pushScan arms).1} + pending) := by
  constructor
  · have hrange : (Multiset.range (l.pushScan arms).2.steps.size).map StepPlace.ofNat =
        {(l.pushScan arms).1} + (Multiset.range l.steps.size).map StepPlace.ofNat :=
      map_range_push ..
    rw [references_pushScan, hrange, ← h.referenced, add_left_comm, add_assoc]
  · intro hsize
    have hall : (l.pushScan arms).2.arms.size = l.arms.size + arms.length := by
      rw [Layout.pushScan, push, ← Array.length_toList, Array.toList_appendList,
        List.length_append, Array.length_toList]
    have hranges : (l.pushScan arms).2.ranges =
        l.ranges ++ [(.ofNat l.arms.size, .ofNat (l.arms.size + arms.length))] := by
      rw [← hall]
      simp [ranges, Layout.pushScan, push, Step.range?]
    rw [hall] at hsize
    have hfirst : (UInt32.ofNat l.arms.size).toNat = l.arms.size :=
      UInt32.toNat_ofNat_of_lt' (by omega)
    have hlast : (UInt32.ofNat (l.arms.size + arms.length)).toNat = l.arms.size + arms.length :=
      UInt32.toNat_ofNat_of_lt' hsize
    have hle : UInt32.ofNat l.arms.size ≤ UInt32.ofNat (l.arms.size + arms.length) := by
      rw [UInt32.le_iff_toNat_le, hfirst, hlast]
      exact Nat.le_add_right ..
    have htiled := h.tiled (by omega)
    rw [← hfirst] at htiled
    have hmore := htiled.append_singleton hle
    rw [hlast] at hmore
    rw [hranges, hall]
    exact hmore

end Linked
end Layout

/-! ## Laying out keeps the links -/

section

variable {α : Type} {arm : α → Layout → Arm × Layout}

/-- Laying out the arm of an item makes the step pending that the arm goes on to. -/
def LinksArm (arm : α → Layout → Arm × Layout) (item : α) : Prop :=
  ∀ (l : Layout) (pending : Multiset StepPlace), l.Linked pending →
    (arm item l).2.Linked ((arm item l).1.next.toList + pending)

theorem linked_layArms {items : List α} (h : ∀ item ∈ items, LinksArm arm item) {l : Layout}
    {pending : Multiset StepPlace} (hl : l.Linked pending) :
    (layArms arm items l).2.Linked ((layArms arm items l).1.filterMap Arm.next + pending) := by
  induction items generalizing l pending with
  | nil => simpa [layArms] using hl
  | cons item items ih =>
    have hfirst := h item List.mem_cons_self l pending hl
    have hothers := ih (fun x hx => h x (List.mem_cons_of_mem _ hx)) hfirst
    rw [layArms]
    have hnext : ((((arm item l).1 :: (layArms arm items (arm item l).2).1).filterMap Arm.next :
        List StepPlace) : Multiset StepPlace) =
        (layArms arm items (arm item l).2).1.filterMap Arm.next + (arm item l).1.next.toList := by
      rw [List.filterMap_cons, add_comm]
      cases (arm item l).1.next <;> rfl
    rw [hnext, add_assoc]
    exact hothers

theorem Bisection.linked_lay {b : Bisection α} (h : ∀ item ∈ b.items, LinksArm arm item)
    {l : Layout} {pending : Multiset StepPlace} (hl : l.Linked pending) :
    (b.lay arm l).2.Linked ({(b.lay arm l).1} + pending) := by
  induction b generalizing l pending with
  | run items =>
    rw [lay]
    exact (linked_layArms h hl).pushScan
  | cut pivot lower upper ihlower ihupper =>
    have hlower := ihlower (fun x hx => h x (List.mem_append_left _ hx)) hl
    have hupper := ihupper (fun x hx => h x (List.mem_append_right _ hx)) hlower
    rw [lay]
    exact hupper.push_split

end

theorem Trie.linked_layLevel (t : Trie) (limit depth : Nat) (ids : List NodePlace) {l : Layout}
    {pending : Multiset StepPlace} (hl : l.Linked pending) :
    (t.layLevel limit depth ids l).2.Linked ({(t.layLevel limit depth ids l).1} + pending) := by
  induction depth generalizing ids l pending with
  | zero => exact Layout.Linked.pushScan (by simpa using hl)
  | succ depth ih =>
    rw [layLevel_succ]
    refine Bisection.linked_lay (fun id _ l pending hl => ?_) hl
    unfold levelArm
    split
    · simpa using hl
    · exact ih _ hl

/-! ## Arms and nodes -/

/-- Key, field, and whether there are steps for chunks behind the arm's. -/
def Arm.outline (a : Arm) : UInt64 × Option Position × Bool := (a.key, a.field, a.next.isSome)

/-- Key, field, and whether the node has children. -/
def Node.outline (n : Node) : UInt64 × Option Position × Bool :=
  (n.key, n.field, !n.children.isEmpty)

/-- The outlines of the arms laid out. -/
def Layout.outlines (l : Layout) : Multiset (UInt64 × Option Position × Bool) :=
  l.arms.toList.map Arm.outline

section

variable {α : Type} {arm : α → Layout → Arm × Layout} {f : α → UInt64 × Option Position × Bool}
  {g : α → Multiset (UInt64 × Option Position × Bool)}
  (harm : ∀ item l, (arm item l).1.outline = f item)
  (hlay : ∀ item l, (arm item l).2.outlines = l.outlines + g item)

include harm hlay

theorem outlines_layArms (items : List α) (l : Layout) :
    (layArms arm items l).1.map Arm.outline = items.map f ∧
      (layArms arm items l).2.outlines = l.outlines + Multiset.bind items g := by
  induction items generalizing l with
  | nil => exact ⟨rfl, (add_zero _).symm⟩
  | cons item items ih =>
    obtain ⟨hothers, hlaid⟩ := ih (arm item l).2
    rw [layArms]
    constructor
    · rw [List.map_cons, List.map_cons, harm, hothers]
    · rw [hlaid, hlay, ← Multiset.cons_coe, Multiset.cons_bind, add_assoc]

theorem Bisection.outlines_lay (b : Bisection α) (l : Layout) :
    (b.lay arm l).2.outlines =
      l.outlines + Multiset.bind b.items fun item => f item ::ₘ g item := by
  induction b generalizing l with
  | run items =>
    obtain ⟨hitems, hlaid⟩ := outlines_layArms harm hlay items l
    have hpush : ((layArms arm items l).2.pushScan (layArms arm items l).1).2.outlines =
        (layArms arm items l).2.outlines + ((layArms arm items l).1.map Arm.outline) := by
      simp [Layout.outlines, Layout.pushScan, Layout.push]
    rw [lay, hpush, hlaid, hitems, Multiset.bind_cons, Bisection.items, Multiset.map_coe, add_assoc,
      add_comm (Multiset.bind _ g)]
  | cut pivot lower upper ihlower ihupper =>
    have hpush (l : Layout) (step : Step) : (l.push step).2.outlines = l.outlines := rfl
    rw [lay, hpush, ihupper, ihlower, Bisection.items, ← Multiset.coe_add, Multiset.add_bind,
      add_assoc]

end

namespace Trie

/-- The outlines of the nodes on the first `depth` levels from a node on. -/
def outlines (t : Trie) : Nat → NodePlace → Multiset (UInt64 × Option Position × Bool)
  | 0, _ => 0
  | depth + 1, id => (t.node id).outline ::ₘ Multiset.bind (t.node id).children (t.outlines depth)

theorem bind_outlines_zero (t : Trie) (ids : List NodePlace) :
    Multiset.bind ids (t.outlines 0) = 0 :=
  (Multiset.bind_congr fun _ _ => rfl).trans (Multiset.bind_zero _)

theorem outlines_layLevel (t : Trie) (limit depth : Nat) (ids : List NodePlace) (l : Layout) :
    (t.layLevel limit depth ids l).2.outlines =
      l.outlines + Multiset.bind ids (t.outlines depth) := by
  induction depth generalizing ids l with
  | zero =>
    rw [bind_outlines_zero, add_zero, layLevel]
    simp [Layout.outlines, Layout.pushScan, Layout.push]
  | succ depth ih =>
    have hlay (id : NodePlace) (l : Layout) : (t.levelArm limit depth id l).2.outlines =
        l.outlines + Multiset.bind (t.node id).children (t.outlines depth) := by
      unfold levelArm
      split
      · next hleaf =>
        rw [List.isEmpty_iff] at hleaf
        rw [hleaf, Multiset.coe_nil, Multiset.zero_bind, add_zero]
      · exact ih _ l
    have harm (id : NodePlace) (l : Layout) :
        (t.levelArm limit depth id l).1.outline = (t.node id).outline := by
      unfold levelArm
      split
      · next hleaf => simp [Arm.outline, Node.outline, hleaf]
      · next hinner => simp [Arm.outline, Node.outline, hinner]
    rw [layLevel_succ, Bisection.outlines_lay harm hlay, items_bisect]
    rfl

theorem map_outline_visit (t : Trie) (depth level : Nat) (id : NodePlace) :
    ((t.visit depth level id).map (·.node.outline) : Multiset _) = t.outlines (depth + 1) id := by
  induction depth generalizing level id with
  | zero =>
    rw [outlines, bind_outlines_zero]
    rfl
  | succ depth ih =>
    rw [visit, List.map_cons, List.map_flatMap, ← Multiset.cons_coe, ← Multiset.coe_bind]
    simp only [ih]
    rfl

/-- The root is the first node. -/
theorem WF.nodes_eq_cons {t : Trie} (hwf : t.WF) :
    t.nodes.toList = t.root :: t.nodes.toList.tail := by
  have hpos : 0 < t.nodes.toList.length := hwf.size_pos
  have hzero : 0 < t.nodes.size := hwf.size_pos
  have hhead : t.nodes.toList.head (List.ne_nil_of_length_pos hpos) = t.root := by
    rw [List.head_eq_getElem]
    simp [root, node, NodePlace.root, NodePlace.toNat, hzero]
  rw [← hhead, List.cons_head_tail]

/-- The arms of a compiled trie are those of the nodes other than the root. -/
theorem outlines_compile {t : Trie} (hwf : t.WF)
    (hdepth : ∀ path last, t.find? .root path = some last → path.length ≤ t.depth)
    (hsize : t.size ≤ UInt32.size) (limit : Nat) :
    ((t.compile limit).arms.toList.map Arm.outline).Perm
      (t.nodes.toList.tail.map Node.outline) := by
  have hlaid : (t.compile limit).layout.outlines =
      Multiset.bind t.root.children (t.outlines t.depth) :=
    (outlines_layLevel t limit t.depth t.root.children .empty).trans (zero_add _)
  have hall : t.root.outline ::ₘ (t.compile limit).layout.outlines =
      ((t.nodes.toList.map Node.outline : List _) : Multiset _) := by
    rw [hlaid, ← Multiset.coe_eq_coe.2 ((perm_preorder hwf hdepth hsize).map Node.outline),
      List.map_map]
    exact (map_outline_visit t t.depth 0 .root).symm
  rw [hwf.nodes_eq_cons, List.map_cons, ← Multiset.cons_coe] at hall
  exact Multiset.coe_eq_coe.1 (Multiset.cons_inj_right _ |>.1 hall)

end Trie
end TypedRecords.Name
