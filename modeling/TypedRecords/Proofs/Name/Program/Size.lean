import Mathlib.Algebra.Order.BigOperators.Group.List
import TypedRecords.Proofs.Name.Bisection.Balance
import TypedRecords.Proofs.Name.Program.Shape
import TypedRecords.Proofs.Name.Trie.Arena

/-!
# How long programs are

A program has one split for every cut of the children of a node (`Trie.countP_split_compile`), and
besides, for every split and every node with children, one scan. So a larger limit makes the program
no longer (`Trie.compile_antitone`). All nodes but the root are children of one node, so that bounds
for single nodes sum up to bounds by the number of nodes: from the limit 4 on, which is the one used
where none is asked for, there are at most as many steps as nodes, and below it there may be more,
though less than twice as many (`Trie.compile_size_bounds`).
-/

namespace TypedRecords.Name

-- Sums start from the core zero here, whatever algebra is imported.
attribute [local instance (2000)] Zero.ofOfNat0

/-! ## Counting what is laid out -/

/-- A count of what is laid out that grows by `scan` with every scan and by `split` with every
split. -/
structure Layout.Counts (count : Layout → Nat) (scan split : Nat) : Prop where
  pushScan (l : Layout) (arms : List Arm) : count (l.pushScan arms).2 = count l + scan
  push_split (l : Layout) (pivot : UInt64) (lower upper : StepPlace) :
    count (l.push (.split pivot lower upper)).2 = count l + split

/-- The number of splits laid out. -/
def Layout.splitCount (l : Layout) : Nat := l.steps.toList.countP (·.range?.isNone)

theorem Layout.counts_splitCount : Counts splitCount 0 1 where
  pushScan l arms := by simp [splitCount, Layout.pushScan, push, Step.range?]
  push_split l pivot lower upper := by simp [splitCount, push, Step.range?]

theorem Layout.counts_steps_size : Counts (·.steps.size) 1 1 where
  pushScan l arms := by simp [Layout.pushScan, push]
  push_split l pivot lower upper := by simp [push]

section

variable {α : Type} {arm : α → Layout → Arm × Layout} {count : Layout → Nat} {scan split : Nat}
  {below : α → Nat}

theorem count_layArms {items : List α}
    (h : ∀ item ∈ items, ∀ l, count (arm item l).2 = count l + below item) (l : Layout) :
    count (layArms arm items l).2 = count l + (items.map below).sum := by
  induction items generalizing l with
  | nil => rfl
  | cons item items ih =>
    rw [layArms, ih (fun x hx => h x (List.mem_cons_of_mem _ hx)), h item List.mem_cons_self,
      List.map_cons, List.sum_cons, Nat.add_assoc]

/-- A bisection is laid out as a split for every cut and one scan more than cuts. -/
theorem Layout.Counts.lay (hcount : Counts count scan split) {b : Bisection α}
    (h : ∀ item ∈ b.items, ∀ l, count (arm item l).2 = count l + below item) (l : Layout) :
    count (b.lay arm l).2 =
      count l + (b.cutCount + 1) * scan + b.cutCount * split + (b.items.map below).sum := by
  induction b generalizing l with
  | run items =>
    rw [Bisection.items] at h ⊢
    rw [Bisection.lay, hcount.pushScan, count_layArms h, Bisection.cutCount]
    ring
  | cut pivot lower upper ihlower ihupper =>
    rw [Bisection.lay, hcount.push_split,
      ihupper (fun x hx => h x (List.mem_append_right _ hx)),
      ihlower (fun x hx => h x (List.mem_append_left _ hx)), Bisection.cutCount, Bisection.items,
      List.map_append, List.sum_append_nat]
    ring

end

namespace Trie

variable {t : Trie}

/-- For every node met from a node on, as many splits are laid out as its children take cuts. -/
theorem splitCount_layLevel (hwf : t.WF) (limit : Nat) {depth level : Nat} {id : NodePlace}
    (hshallow : t.Shallow depth (t.node id).children) (l : Layout) :
    (t.layLevel limit depth (t.node id).children l).2.splitCount = l.splitCount +
      ((t.visit depth level id).map fun v => cuts limit v.node.children.length).sum := by
  induction depth generalizing level id l with
  | zero =>
    rw [layLevel, Layout.counts_splitCount.pushScan, visit, List.map_singleton, List.sum_singleton,
      hshallow.eq_nil, List.length_nil, cuts_zero, Nat.add_zero]
  | succ depth ih =>
    have harm : ∀ child ∈ (bisect (fun id => (t.node id).key) limit (t.node id).children).items,
        ∀ l, (t.levelArm limit depth child l).2.splitCount = l.splitCount +
          ((t.visit depth (level + 1) child).map
            fun v => cuts limit v.node.children.length).sum := by
      intro child hchild l
      rw [items_bisect] at hchild
      unfold levelArm
      split
      · next hleaf =>
        rw [List.isEmpty_iff] at hleaf
        cases depth <;> simp [visit, hleaf]
      · exact ih (hshallow.children hwf hchild) l
    rw [layLevel_succ, Layout.counts_splitCount.lay harm, items_bisect, cutCount_bisect, visit,
      List.map_cons, List.sum_cons, List.map_flatMap, List.flatMap_def, List.sum_flatten,
      List.map_map, Nat.mul_zero, Nat.mul_one, Nat.add_zero, Nat.add_assoc]
    rfl

/-! ## Steps of a program -/

/-- The number of cuts that the children of every one of the nodes take. -/
def cutTotal (limit : Nat) (nodes : List Node) : Nat :=
  (nodes.map fun n => cuts limit n.children.length).sum

/-- The number of children that the nodes have. -/
def childTotal (nodes : List Node) : Nat := (nodes.map fun n => n.children.length).sum

namespace Represents

variable {entries : List (String × Position)}

/-- There is one split for every cut of the children of a node. -/
theorem countP_split_compile (h : t.Represents entries) (hsize : t.size ≤ UInt32.size)
    (limit : Nat) :
    (t.compile limit).steps.toList.countP (·.range?.isNone) = cutTotal limit t.nodes.toList := by
  have hdepth : ∀ path last, t.find? .root path = some last → path.length ≤ t.depth :=
    fun _ _ hfind => h.length_le_depth hfind
  have hshallow : t.Shallow t.depth t.root.children :=
    (shallow_root hdepth).children h.wf (List.mem_singleton_self _)
  have hlaid : (t.compile limit).layout.splitCount =
      0 + (t.preorder.map fun v => cuts limit v.node.children.length).sum :=
    splitCount_layLevel h.wf limit hshallow .empty
  have hnodes := (perm_preorder h.wf hdepth hsize).map fun n => cuts limit n.children.length
  rw [List.map_map] at hnodes
  rw [Nat.zero_add] at hlaid
  exact hlaid.trans hnodes.sum_nat

/-- Besides the splits there is a scan for every split and every node with children. -/
theorem steps_size_compile (h : t.Represents entries) (hsize : t.size ≤ UInt32.size)
    (limit : Nat) :
    (t.compile limit).steps.size = 2 * cutTotal limit t.nodes.toList + t.innerSize := by
  -- splits refer to two steps, and nothing refers to the entry
  have hreferences : (t.compile limit).layout.references.length + 1 =
      (t.compile limit).steps.size :=
    (t.linked_layLevel limit t.depth t.root.children .empty).length_references
  have hsplits := h.countP_split_compile hsize limit
  have hnexts := h.countP_next_compile hsize limit
  rw [Layout.length_references] at hreferences
  dsimp only [Program.layout] at hreferences
  omega

/-- Every node but the root is a child of one node. -/
theorem childTotal_add_one (h : t.Represents entries) (hsize : t.size ≤ UInt32.size) :
    childTotal t.nodes.toList + 1 = t.size := by
  have hdepth : ∀ path last, t.find? .root path = some last → path.length ≤ t.depth :=
    fun _ _ hfind => h.length_le_depth hfind
  have hnodes := perm_preorder h.wf hdepth hsize
  have hmet : t.visited t.depth .root = t.preorder.map Visit.id := rfl
  have hvisited := congrArg Multiset.card (visited_eq h.wf (shallow_root hdepth))
  rw [hmet, Multiset.card_add, Multiset.card_singleton, Multiset.card_bind, Multiset.map_coe,
    Multiset.sum_coe, List.map_map, Multiset.coe_card, List.length_map, Nat.add_comm] at hvisited
  have hchildren : t.preorder.map ((fun n : Node => n.children.length) ∘ Visit.node) =
      t.preorder.map ((Multiset.card ∘ fun met => ((t.node met).children : Multiset NodePlace)) ∘
        Visit.id) :=
    List.map_congr_left fun v hv => by simp [node_of_mem_visit hv]
  have hsum := (hnodes.map fun n => n.children.length).sum_nat
  rw [List.map_map, hchildren] at hsum
  have hlength : t.preorder.length = t.size := by simpa [size] using hnodes.length_eq
  rw [childTotal, ← hsum, ← hlength]
  exact hvisited.symm

end Represents

/-! ## Bounds by the number of nodes -/

/-- A bound for the steps that dispatch over the children of one node is one for all of them. -/
theorem steps_le_childTotal {limit a b : Nat}
    (hnode : ∀ n, 0 < n → a * (2 * cuts limit n + 1) ≤ b * n) (nodes : List Node) :
    a * (2 * cutTotal limit nodes + nodes.countP (!·.children.isEmpty)) ≤ b * childTotal nodes := by
  induction nodes with
  | nil => simp [cutTotal, childTotal]
  | cons first others ih =>
    rw [cutTotal, childTotal, List.map_cons, List.sum_cons, List.map_cons, List.sum_cons,
      List.countP_cons, ← cutTotal, ← childTotal]
    cases hchildren : first.children with
    | nil => simpa using ih
    | cons child children =>
      have hfirst := hnode (child :: children).length (Nat.succ_pos _)
      simp only [List.isEmpty_cons, Bool.not_false, if_true]
      calc
        _ = a * (2 * cuts limit (child :: children).length + 1) +
            a * (2 * cutTotal limit others + others.countP (!·.children.isEmpty)) := by ring
        _ ≤ b * (child :: children).length + b * childTotal others := Nat.add_le_add hfirst ih
        _ = _ := (Nat.mul_add ..).symm

/-- At the least limit every child but the first costs a cut. -/
theorem cutTotal_add_countP {limit : Nat} (hlimit : limit ≤ 2) (nodes : List Node) :
    cutTotal limit nodes + nodes.countP (!·.children.isEmpty) = childTotal nodes := by
  induction nodes with
  | nil => rfl
  | cons first others ih =>
    rw [cutTotal, childTotal, List.map_cons, List.sum_cons, List.map_cons, List.sum_cons,
      List.countP_cons, ← cutTotal, ← childTotal]
    cases hchildren : first.children with
    | nil => simpa using ih
    | cons child children =>
      have hfirst : cuts limit (children.length + 1) + 1 = children.length + 1 :=
        cuts_add_one hlimit (Nat.succ_pos _)
      simp only [List.isEmpty_cons, Bool.not_false, if_true, List.length_cons]
      omega

theorem innerSize_le (t : Trie) :
    t.innerSize ≤ t.nodes.toList.countP (!·.children.isEmpty) + 1 :=
  Nat.succ_le_succ (List.tail_sublist _).countP_le

/-- If there are other nodes, the root has children. -/
theorem innerSize_eq (hwf : t.WF) (hlarge : 1 < t.size) :
    t.innerSize = t.nodes.toList.countP (!·.children.isEmpty) := by
  have hsecond : (NodePlace.ofNat 1).toNat = 1 := NodePlace.toNat_ofNat (by decide)
  have hbelow : NodePlace.ofNat 1 ≠ .root := by decide
  obtain ⟨parent, hparent⟩ := hwf.exists_parent hbelow (hsecond ▸ hlarge)
  have hfirst : parent.toNat = 0 := by
    have := hwf.lt_child hparent
    omega
  obtain rfl : parent = .root := by
    rw [← parent.ofNat_toNat, hfirst]
    rfl
  have hroot : (!t.root.children.isEmpty) = true := by
    rw [root, Bool.not_eq_true', List.isEmpty_eq_false_iff]
    exact List.ne_nil_of_mem hparent
  rw [hwf.nodes_eq_cons, List.countP_cons, if_pos hroot, innerSize]

namespace Represents

variable {entries : List (String × Position)}

/-- The same bound holds of the whole program, up to the root. -/
theorem steps_size_compile_le (h : t.Represents entries) (hsize : t.size ≤ UInt32.size)
    (limit : Nat) {a b : Nat} (hnode : ∀ n, 0 < n → a * (2 * cuts limit n + 1) ≤ b * n) :
    a * (t.compile limit).steps.size + b ≤ b * t.size + a := by
  have hsteps := steps_le_childTotal hnode t.nodes.toList
  have hinner := Nat.mul_le_mul_left a t.innerSize_le
  rw [h.steps_size_compile hsize, ← h.childTotal_add_one hsize]
  simp only [Nat.mul_add, Nat.mul_one] at hsteps hinner ⊢
  omega

/-- At the least limit there are two steps for every node but the root, less one for every node with
children. -/
theorem steps_size_compile_finest (h : t.Represents entries) (hsize : t.size ≤ UInt32.size)
    {limit : Nat} (hlimit : limit ≤ 2) (hlarge : 1 < t.size) :
    (t.compile limit).steps.size + t.innerSize + 2 = 2 * t.size := by
  have hcuts := cutTotal_add_countP hlimit t.nodes.toList
  have hchildren := h.childTotal_add_one hsize
  rw [h.steps_size_compile hsize, innerSize_eq h.wf hlarge]
  omega

end Represents

/-! ## The depth -/

/-- The number of characters of the longest name, zero if there is none. -/
def longest (names : List String) : Nat := names.foldr (fun name most => max name.length most) 0

theorem longest_le_iff {names : List String} {n : Nat} :
    longest names ≤ n ↔ ∀ name ∈ names, name.length ≤ n := by
  induction names with
  | nil => simp [longest]
  | cons name names ih =>
    simp only [longest, List.foldr_cons, Nat.max_le, List.forall_mem_cons] at ih ⊢
    rw [ih]

theorem Spells.depth_eq {entries : List (String × Position)} (h : t.Spells entries) :
    t.depth = (longest (entries.map Prod.fst) + 7) / 8 := by
  refine eq_of_forall_ge_iff fun n => ?_
  have hlongest : (longest (entries.map Prod.fst) + 7) / 8 ≤ n ↔
      longest (entries.map Prod.fst) ≤ 8 * n := by omega
  rw [h.depth_le_iff_names, hlongest, longest_le_iff]
  exact forall₂_congr fun name _ => by omega

/-- Whatever names were inserted with whatever outcome, a larger limit makes the program no longer.
At all limits there is an arm for every node but the root, and the depth is the number of chunks of
the longest name. At a limit above the number of children of every node there is no split, and one
scan for every node with children. -/
theorem compile_antitone (calls : List (String × Position))
    (hsize : (ofCalls calls).size ≤ UInt32.size) :
    (∀ limit limit', limit ≤ limit' → ((ofCalls calls).compile limit').steps.size ≤
      ((ofCalls calls).compile limit).steps.size) ∧
    (∀ limit, ((ofCalls calls).compile limit).arms.size + 1 = (ofCalls calls).size ∧
      ((ofCalls calls).compile limit).depth =
        (longest ((succeeded calls).map Prod.fst) + 7) / 8) ∧
    ∀ limit, (∀ n ∈ (ofCalls calls).nodes, n.children.length < limit) →
      ((ofCalls calls).compile limit).steps.toList.countP (·.range?.isNone) = 0 ∧
      ((ofCalls calls).compile limit).steps.toList.countP (·.range?.isSome) =
        (ofCalls calls).innerSize := by
  have h := represents_ofCalls calls hsize
  refine ⟨fun limit limit' hle => ?_, fun limit => ⟨h.arms_size_compile hsize limit, ?_⟩,
    fun limit habove => ?_⟩
  · have hcuts : cutTotal limit' (ofCalls calls).nodes.toList ≤
        cutTotal limit (ofCalls calls).nodes.toList :=
      List.sum_le_sum fun n _ => cuts_antitone hle n.children.length
    rw [h.steps_size_compile hsize, h.steps_size_compile hsize]
    omega
  · exact (spells_ofCalls calls hsize).depth_eq
  · have hcuts : cutTotal limit (ofCalls calls).nodes.toList = 0 := by
      refine List.sum_eq_zero fun count hcount => ?_
      obtain ⟨n, hn, rfl⟩ := List.mem_map.1 hcount
      exact cuts_of_lt (Nat.lt_of_lt_of_le (habove n (Array.mem_toList_iff.1 hn))
        (Nat.le_max_left ..))
    have hsplits := h.countP_split_compile hsize limit
    have hsteps := h.steps_size_compile hsize limit
    have hkinds := ((ofCalls calls).compile limit).layout.steps_size_eq
    dsimp only [Program.layout] at hkinds
    omega

/-- Five names on one level, one of them with another below it, at three limits. -/
theorem compile_antitone_three_limits :
    (ofCalls [("b", ⟨0⟩), ("Identity", ⟨1⟩), ("d", ⟨2⟩), ("Identity2", ⟨3⟩), ("a", ⟨4⟩),
        ("c", ⟨5⟩)]).size ≤ UInt32.size ∧
      ((ofCalls [("b", ⟨0⟩), ("Identity", ⟨1⟩), ("d", ⟨2⟩), ("Identity2", ⟨3⟩), ("a", ⟨4⟩),
        ("c", ⟨5⟩)]).compile 4).steps.size ≤
      ((ofCalls [("b", ⟨0⟩), ("Identity", ⟨1⟩), ("d", ⟨2⟩), ("Identity2", ⟨3⟩), ("a", ⟨4⟩),
        ("c", ⟨5⟩)]).compile 2).steps.size ∧
      ((ofCalls [("b", ⟨0⟩), ("Identity", ⟨1⟩), ("d", ⟨2⟩), ("Identity2", ⟨3⟩), ("a", ⟨4⟩),
        ("c", ⟨5⟩)]).compile 2).depth = 2 ∧
      ((ofCalls [("b", ⟨0⟩), ("Identity", ⟨1⟩), ("d", ⟨2⟩), ("Identity2", ⟨3⟩), ("a", ⟨4⟩),
        ("c", ⟨5⟩)]).compile 6).steps.toList.countP (·.range?.isSome) = 2 :=
  have hsize : (ofCalls [("b", ⟨0⟩), ("Identity", ⟨1⟩), ("d", ⟨2⟩), ("Identity2", ⟨3⟩),
      ("a", ⟨4⟩), ("c", ⟨5⟩)]).size ≤ UInt32.size := by decide +kernel
  have hcompile := compile_antitone _ hsize
  ⟨hsize, hcompile.1 2 4 (by decide), (hcompile.2.1 2).2.trans (by decide +kernel),
    (hcompile.2.2 6 (by decide +kernel)).2.trans (by decide +kernel)⟩

/-- Whatever names were inserted with whatever outcome, there are fewer arms than nodes, and fewer
than twice as many steps. From the limit 4 on, there are at most as many steps as nodes; from 3 on,
fewer than four for every three nodes; and below 3, at most as many exactly if at most two nodes
below the root have no children. The program is well formed at the limits from 4 on, and at all
limits as long as twice the number of nodes can be counted in 32 bits. -/
theorem compile_size_bounds (calls : List (String × Position)) (limit : Nat)
    (hsize : (ofCalls calls).size ≤ UInt32.size) :
    ((ofCalls calls).compile limit).arms.size < (ofCalls calls).size ∧
    ((ofCalls calls).compile limit).steps.size < 2 * (ofCalls calls).size ∧
    (4 ≤ limit → ((ofCalls calls).compile limit).steps.size ≤ (ofCalls calls).size) ∧
    (3 ≤ limit → 3 * ((ofCalls calls).compile limit).steps.size < 4 * (ofCalls calls).size) ∧
    (limit ≤ 2 → (((ofCalls calls).compile limit).steps.size ≤ (ofCalls calls).size ↔
      (ofCalls calls).size ≤ (ofCalls calls).innerSize + 2)) ∧
    (4 ≤ limit ∨ 2 * (ofCalls calls).size ≤ UInt32.size →
      ((ofCalls calls).compile limit).WellFormed) := by
  have h := represents_ofCalls calls hsize
  have harms := h.arms_size_compile hsize limit
  have hpos := h.wf.size_pos
  have hone : cuts limit 1 = 0 := cuts_of_lt (by omega)
  have htwice : ((ofCalls calls).compile limit).steps.size < 2 * (ofCalls calls).size := by
    have hle := h.steps_size_compile_le hsize limit (a := 1) (b := 2) fun n hn => by
      have := cuts_lt limit hn
      omega
    omega
  have hfour (hlimit : 4 ≤ limit) :
      ((ofCalls calls).compile limit).steps.size ≤ (ofCalls calls).size := by
    have hle := h.steps_size_compile_le hsize limit (a := 1) (b := 1) fun n hn => by
      obtain rfl | htwo : n = 1 ∨ 2 ≤ n := by omega
      · rw [hone]
      · have := cuts_of_four_le hlimit htwo
        omega
    omega
  refine ⟨by omega, htwice, hfour, fun hlimit => ?_, fun hlimit => ?_, fun hsteps => ?_⟩
  · have hle := h.steps_size_compile_le hsize limit (a := 3) (b := 4) fun n hn => by
      obtain rfl | htwo : n = 1 ∨ 2 ≤ n := by omega
      · rw [hone]
        decide
      · have := cuts_of_three_le hlimit htwo
        omega
    omega
  · have hinner : 1 ≤ (ofCalls calls).innerSize := Nat.succ_pos _
    by_cases hlarge : 1 < (ofCalls calls).size
    · have := h.steps_size_compile_finest hsize hlimit hlarge
      omega
    · omega
  · refine h.wellFormed_compile ?_ (by omega)
    rcases hsteps with hlimit | hfit
    · exact (hfour hlimit).trans hsize
    · exact (Nat.le_of_lt htwice).trans hfit

/-- Three names at two limits. -/
theorem compile_size_bounds_two_limits :
    (ofCalls [("a", ⟨0⟩), ("b", ⟨1⟩), ("c", ⟨2⟩)]).size ≤ UInt32.size ∧
      ((ofCalls [("a", ⟨0⟩), ("b", ⟨1⟩), ("c", ⟨2⟩)]).compile 4).steps.size ≤ 4 ∧
      ((ofCalls [("a", ⟨0⟩), ("b", ⟨1⟩), ("c", ⟨2⟩)]).compile 2).steps.size < 8 ∧
      ((ofCalls [("a", ⟨0⟩), ("b", ⟨1⟩), ("c", ⟨2⟩)]).compile 2).WellFormed := by
  have hnodes : (ofCalls [("a", ⟨0⟩), ("b", ⟨1⟩), ("c", ⟨2⟩)]).size = 4 := by decide +kernel
  have hsize : (ofCalls [("a", ⟨0⟩), ("b", ⟨1⟩), ("c", ⟨2⟩)]).size ≤ UInt32.size :=
    hnodes ▸ by decide
  obtain ⟨-, -, hfour, -, -, -⟩ := compile_size_bounds _ 4 hsize
  obtain ⟨-, htwice, -, -, -, hwell⟩ := compile_size_bounds _ 2 hsize
  exact ⟨hsize, hnodes ▸ hfour (by decide), by rwa [hnodes] at htwice,
    hwell (.inr (hnodes ▸ by decide))⟩

/-- Four nodes take five steps at the limit 2, and thirteen take fifteen at the limit 3. -/
theorem not_steps_size_le_size :
    ¬ ((ofCalls [("a", ⟨0⟩), ("b", ⟨1⟩), ("c", ⟨2⟩)]).compile 2).steps.size ≤
      (ofCalls [("a", ⟨0⟩), ("b", ⟨1⟩), ("c", ⟨2⟩)]).size ∧
    ¬ ((ofCalls [("a", ⟨0⟩), ("b", ⟨1⟩), ("c", ⟨2⟩), ("d", ⟨3⟩), ("e", ⟨4⟩), ("f", ⟨5⟩),
        ("g", ⟨6⟩), ("h", ⟨7⟩), ("i", ⟨8⟩), ("j", ⟨9⟩), ("k", ⟨10⟩), ("l", ⟨11⟩)]).compile
          3).steps.size ≤
      (ofCalls [("a", ⟨0⟩), ("b", ⟨1⟩), ("c", ⟨2⟩), ("d", ⟨3⟩), ("e", ⟨4⟩), ("f", ⟨5⟩),
        ("g", ⟨6⟩), ("h", ⟨7⟩), ("i", ⟨8⟩), ("j", ⟨9⟩), ("k", ⟨10⟩), ("l", ⟨11⟩)]).size := by
  decide +kernel

end Trie
end TypedRecords.Name
