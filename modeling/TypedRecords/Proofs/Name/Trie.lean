import Mathlib.Data.List.Induction
import Mathlib.Data.List.TakeWhile
import TypedRecords.Name.Trie
import TypedRecords.Proofs.Name.Bisection

/-!
# The array of nodes is a tree

Every node but the root is the child of exactly one node, which lies before it in the array, and
the keys of siblings ascend strictly and are not zero (`Trie.WF`). A path therefore leads to at
most one node and a node lies at the end of one path only (`WF.path_unique`). Adding a child gives
one more path a node and changes no other (`WF.find?_added`); growing a path does so for each
of its prefixes that had none (`WF.grow`).
-/

namespace TypedRecords.Name

theorem NodePlace.toNat_inj {a b : NodePlace} : a.toNat = b.toNat ↔ a = b := by
  cases a
  cases b
  simp [NodePlace.toNat, UInt32.toNat_inj]

namespace Trie

/-! ## Shape -/

/-- The nodes form a tree under the root, in which siblings are sorted by key. -/
structure WF (t : Trie) : Prop where
  size_pos : 0 < t.size
  root_key : t.root.key = 0
  lt_child {id child : NodePlace} : child ∈ (t.node id).children → id.toNat < child.toNat
  child_lt {id child : NodePlace} : child ∈ (t.node id).children → child.toNat < t.size
  parent_unique {a b child : NodePlace} :
    child ∈ (t.node a).children → child ∈ (t.node b).children → a = b
  exists_parent {id : NodePlace} :
    id ≠ .root → id.toNat < t.size → ∃ parent, id ∈ (t.node parent).children
  ascending (id : NodePlace) : Ascending (fun child => (t.node child).key) (t.node id).children
  key_ne_zero {id child : NodePlace} : child ∈ (t.node id).children → (t.node child).key ≠ 0

theorem node_eq_fresh_of_size_le {t : Trie} {id : NodePlace} (h : t.size ≤ id.toNat) :
    t.node id = .fresh 0 := by
  simp [node, Array.getElem?_eq_none h]

@[simp] theorem node_empty (id : NodePlace) : empty.node id = .fresh 0 := by
  by_cases h : id.toNat = 0
  · simp [node, empty, h]
  · exact node_eq_fresh_of_size_le (by simp only [size, empty, List.size_toArray,
      List.length_cons, List.length_nil]; omega)

namespace WF

variable {t : Trie}

theorem empty : Trie.empty.WF where
  size_pos := by simp [Trie.empty, size]
  root_key := by simp [root, Node.fresh]
  lt_child h := by simp [Node.fresh] at h
  child_lt h := by simp [Node.fresh] at h
  parent_unique h := by simp [Node.fresh] at h
  exists_parent {id} hne hlt := by
    have hid : id.toNat = NodePlace.root.toNat := by
      simp only [size, Trie.empty, List.size_toArray, List.length_cons, List.length_nil] at hlt
      simp only [NodePlace.root, NodePlace.toNat, UInt32.toNat_zero] at hlt ⊢
      omega
    exact absurd (NodePlace.toNat_inj.1 hid) hne
  ascending id := by simp [Node.fresh, Ascending]
  key_ne_zero h := by simp [Node.fresh] at h

theorem root_not_child (h : t.WF) (id : NodePlace) : .root ∉ (t.node id).children := by
  intro hroot
  exact Nat.not_lt_zero _ (h.lt_child hroot)

/-- The child that a chunk leads to. -/
theorem child?_eq_some_iff (h : t.WF) {id child : NodePlace} {k : UInt64} :
    t.child? id k = some child ↔ child ∈ (t.node id).children ∧ (t.node child).key = k :=
  find?_eq_some_iff_of_ascending (h.ascending id)

end WF

/-! ## Paths -/

theorem find?_cons (t : Trie) (start : NodePlace) (k : UInt64) (path : List UInt64) :
    t.find? start (k :: path) = (t.child? start k).bind (t.find? · path) := rfl

theorem find?_append (t : Trie) (start : NodePlace) (p q : List UInt64) :
    t.find? start (p ++ q) = (t.find? start p).bind (t.find? · q) := by
  induction p generalizing start with
  | nil => rfl
  | cons k p ih =>
    rw [List.cons_append, find?_cons, find?_cons, Option.bind_assoc]
    congr
    funext child
    exact ih child

theorem find?_append_singleton (t : Trie) (start : NodePlace) (p : List UInt64) (k : UInt64) :
    t.find? start (p ++ [k]) = (t.find? start p).bind (t.child? · k) := by
  rw [find?_append]
  congr
  funext id
  rw [find?_cons]
  cases t.child? id k <;> rfl

namespace WF

variable {t : Trie}

/-- A path that is not empty ends at a child. -/
theorem exists_parent_of_find? (h : t.WF) {p : List UInt64} {k : UInt64} {id : NodePlace}
    (hfind : t.find? .root (p ++ [k]) = some id) :
    ∃ parent, t.find? .root p = some parent ∧ id ∈ (t.node parent).children ∧
      (t.node id).key = k := by
  rw [find?_append_singleton] at hfind
  obtain ⟨parent, hparent, hchild⟩ := Option.bind_eq_some_iff.1 hfind
  exact ⟨parent, hparent, h.child?_eq_some_iff.1 hchild⟩

theorem toNat_lt_of_find? (h : t.WF) {p : List UInt64} {id : NodePlace}
    (hfind : t.find? .root p = some id) : id.toNat < t.size := by
  induction p using List.reverseRecOn with
  | nil =>
    obtain rfl : .root = id := Option.some.inj hfind
    exact h.size_pos
  | append_singleton p k _ =>
    obtain ⟨parent, -, hmem, -⟩ := h.exists_parent_of_find? hfind
    exact h.child_lt hmem

/-- A node lies at the end of one path only. -/
theorem path_unique (h : t.WF) {p q : List UInt64} {id : NodePlace}
    (hp : t.find? .root p = some id) (hq : t.find? .root q = some id) : p = q := by
  induction p using List.reverseRecOn generalizing q id with
  | nil =>
    obtain rfl : .root = id := Option.some.inj hp
    rcases List.eq_nil_or_concat q with rfl | ⟨q, k, rfl⟩
    · rfl
    · rw [List.concat_eq_append] at hq
      obtain ⟨parent, -, hmem, -⟩ := h.exists_parent_of_find? hq
      exact absurd hmem (h.root_not_child parent)
  | append_singleton p k ih =>
    obtain ⟨parent, hparent, hmem, hkey⟩ := h.exists_parent_of_find? hp
    rcases List.eq_nil_or_concat q with rfl | ⟨q, k', rfl⟩
    · obtain rfl : .root = id := Option.some.inj hq
      exact absurd hmem (h.root_not_child parent)
    · rw [List.concat_eq_append] at hq ⊢
      obtain ⟨parent', hparent', hmem', hkey'⟩ := h.exists_parent_of_find? hq
      obtain rfl := h.parent_unique hmem hmem'
      rw [ih hparent hparent', ← hkey, ← hkey']

/-- Every node lies at the end of a path. -/
theorem exists_path (h : t.WF) {id : NodePlace} (hid : id.toNat < t.size) :
    ∃ p, t.find? .root p = some id := by
  induction hn : id.toNat using Nat.strongRecOn generalizing id with
  | _ n ih =>
    by_cases hroot : id = .root
    · exact ⟨[], by rw [hroot]; rfl⟩
    · obtain ⟨parent, hparent⟩ := h.exists_parent hroot hid
      have hlt := h.lt_child hparent
      obtain ⟨p, hp⟩ := ih parent.toNat (by omega) (by omega) rfl
      refine ⟨p ++ [(t.node id).key], ?_⟩
      rw [find?_append_singleton, hp]
      exact h.child?_eq_some_iff.2 ⟨hparent, rfl⟩

end WF

/-! ## Adding a child -/

/-- All that changes when `parent` gets a child for the chunk `k`. -/
structure Added (t t' : Trie) (parent child : NodePlace) (k : UInt64) : Prop where
  size : t'.size = t.size + 1
  depth : t'.depth = t.depth
  toNat_child : child.toNat = t.size
  node_child : t'.node child = .fresh k
  node_parent : t'.node parent =
    { t.node parent with children := t.placeChild k child (t.node parent).children }
  node_of_ne {id : NodePlace} : id ≠ child → id ≠ parent → t'.node id = t.node id

theorem size_addChild (t : Trie) (parent : NodePlace) (k : UInt64) :
    (t.addChild parent k).2.size = t.size + 1 := by
  simp [addChild, size]

theorem node_addChild {t : Trie} {parent : NodePlace} (k : UInt64) (hparent : parent.toNat < t.size)
    (id : NodePlace) : (t.addChild parent k).2.node id =
      if id = parent then
        { t.node parent with
          children := t.placeChild k (t.addChild parent k).1 (t.node parent).children }
      else if id.toNat = t.size then .fresh k else t.node id := by
  simp only [addChild, node, Array.getD_eq_getD_getElem?, Array.getElem?_modify,
    Array.getElem?_push]
  by_cases hid : id = parent
  · have hne : parent.toNat ≠ t.nodes.size := Nat.ne_of_lt hparent
    simp [hid, hne, Array.getElem?_eq_getElem hparent]
  · have hid' : ¬ parent.toNat = id.toNat := fun heq => hid (NodePlace.toNat_inj.1 heq.symm)
    rw [if_neg hid', if_neg hid]
    by_cases hlast : id.toNat = t.nodes.size
    · rw [if_pos hlast, if_pos (show id.toNat = t.size from hlast)]
      rfl
    · rw [if_neg hlast, if_neg (show ¬id.toNat = t.size from hlast)]

theorem added_addChild {t : Trie} {parent : NodePlace} (k : UInt64)
    (hparent : parent.toNat < t.size) (hsize : t.size < UInt32.size) :
    Added t (t.addChild parent k).2 parent (t.addChild parent k).1 k := by
  have hchild : (t.addChild parent k).1.toNat = t.size := by
    simp only [addChild, NodePlace.toNat]
    exact UInt32.toNat_ofNat_of_lt' hsize
  have hnode := node_addChild (t := t) k hparent
  refine ⟨size_addChild t parent k, rfl, hchild, ?_, ?_, ?_⟩
  · rw [hnode, if_neg (fun heq => by rw [heq] at hchild; omega), if_pos hchild]
  · rw [hnode, if_pos rfl]
  · intro id hne hne'
    rw [hnode, if_neg hne',
      if_neg (fun heq => hne (NodePlace.toNat_inj.1 (heq.trans hchild.symm)))]

namespace Added

variable {t t' : Trie} {parent child : NodePlace} {k : UInt64}

theorem ne_child (h : Added t t' parent child k) {id : NodePlace} (hid : id.toNat < t.size) :
    id ≠ child := by
  rintro rfl
  rw [h.toNat_child] at hid
  exact Nat.lt_irrefl _ hid

/-- Nodes keep their keys. -/
theorem key_eq (h : Added t t' parent child k) {id : NodePlace} (hid : id ≠ child) :
    (t'.node id).key = (t.node id).key := by
  by_cases hp : id = parent
  · rw [hp, h.node_parent]
  · rw [h.node_of_ne hid hp]

/-- Nodes keep their fields, and the new one has none. -/
theorem field_eq (h : Added t t' parent child k) (id : NodePlace) :
    (t'.node id).field = (t.node id).field := by
  by_cases hc : id = child
  · rw [hc, h.node_child, node_eq_fresh_of_size_le (Nat.le_of_eq h.toNat_child.symm)]
    rfl
  by_cases hp : id = parent
  · rw [hp, h.node_parent]
  · rw [h.node_of_ne hc hp]

theorem mem_placeChild {children : List NodePlace} {id : NodePlace} :
    id ∈ t.placeChild k child children ↔ id = child ∨ id ∈ children := by
  have hsplit := List.takeWhile_append_dropWhile
    (p := fun other => decide ((t.node other).key < k)) (l := children)
  conv_rhs => rw [← hsplit]
  simp only [placeChild, List.mem_append, List.mem_cons]
  tauto

/-- Only `parent` has one more child. -/
theorem mem_children_iff (h : Added t t' parent child k) (hparent : parent.toNat < t.size)
    {id id' : NodePlace} :
    id' ∈ (t'.node id).children ↔ id' ∈ (t.node id).children ∨ id = parent ∧ id' = child := by
  by_cases hc : id = child
  · have hne : id ≠ parent := by
      rintro rfl
      exact h.ne_child hparent hc
    rw [hc, h.node_child, node_eq_fresh_of_size_le (Nat.le_of_eq h.toNat_child.symm)]
    simp [Node.fresh, ← hc, hne]
  by_cases hp : id = parent
  · rw [hp, h.node_parent, mem_placeChild]
    simp [or_comm]
  · rw [h.node_of_ne hc hp]
    simp [hp]

end Added

/-- Behind the children with smaller keys come, if none has the key itself, those with greater. -/
theorem lt_key_of_mem_dropWhile {t : Trie} {k : UInt64} {children : List NodePlace}
    (hsorted : Ascending (fun id => (t.node id).key) children)
    (hne : ∀ id ∈ children, (t.node id).key ≠ k) {id : NodePlace}
    (hid : id ∈ children.dropWhile fun other => (t.node other).key < k) :
    k < (t.node id).key := by
  have hsub : Ascending (fun id => (t.node id).key)
      (children.dropWhile fun other => (t.node other).key < k) :=
    hsorted.sublist (List.dropWhile_sublist _)
  cases hdrop : children.dropWhile fun other => (t.node other).key < k with
  | nil => simp [hdrop] at hid
  | cons first later =>
    have hfirst : ¬ (t.node first).key < k := by
      have := List.head?_dropWhile_not (fun other => decide ((t.node other).key < k)) children
      simpa [hdrop] using this
    have hmem : first ∈ children := by
      refine (List.dropWhile_sublist fun other => decide ((t.node other).key < k)).subset ?_
      rw [hdrop]
      exact List.mem_cons_self
    have hlt : k < (t.node first).key :=
      UInt64.lt_of_le_of_ne (UInt64.not_lt.1 hfirst) (hne first hmem).symm
    rw [hdrop] at hid hsub
    rcases List.mem_cons.1 hid with rfl | hlater
    · exact hlt
    · exact UInt64.lt_trans hlt ((List.pairwise_cons.1 hsub).1 id hlater)

/-- A child placed among sorted ones without its key leaves them sorted. -/
theorem ascending_placeChild {t : Trie} {key' : NodePlace → UInt64} {child : NodePlace}
    {k : UInt64} {children : List NodePlace} (hchild : key' child = k)
    (hold : ∀ id ∈ children, key' id = (t.node id).key)
    (hne : ∀ id ∈ children, (t.node id).key ≠ k)
    (hsorted : Ascending (fun id => (t.node id).key) children) :
    Ascending key' (t.placeChild k child children) := by
  have hgreater {id : NodePlace}
      (hid : id ∈ children.dropWhile fun other => (t.node other).key < k) : k < key' id := by
    rw [hold id ((List.dropWhile_sublist _).subset hid)]
    exact lt_key_of_mem_dropWhile hsorted hne hid
  have hsmaller {id : NodePlace}
      (hid : id ∈ children.takeWhile fun other => (t.node other).key < k) : key' id < k := by
    rw [hold id ((List.takeWhile_sublist _).subset hid)]
    simpa using List.mem_takeWhile_imp hid
  have hsorted' : Ascending key' children := hsorted.congr hold
  refine List.pairwise_append.2 ⟨hsorted'.sublist (List.takeWhile_sublist _),
    List.pairwise_cons.2 ⟨fun id hid => ?_, hsorted'.sublist (List.dropWhile_sublist _)⟩,
    fun a ha b hb => ?_⟩
  · rw [hchild]
    exact hgreater hid
  · rcases List.mem_cons.1 hb with rfl | hb
    · rw [hchild]
      exact hsmaller ha
    · exact UInt64.lt_trans (hsmaller ha) (hgreater hb)

namespace WF

variable {t t' : Trie} {parent child : NodePlace} {k : UInt64}

theorem added (h : t.WF) (hadd : Added t t' parent child k) (hparent : parent.toNat < t.size)
    (hk : k ≠ 0) (hnone : t.child? parent k = none) : t'.WF where
  size_pos := by
    rw [hadd.size]
    exact Nat.succ_pos _
  root_key := by
    have hroot : NodePlace.root ≠ child := hadd.ne_child h.size_pos
    rw [root, hadd.key_eq hroot]
    exact h.root_key
  lt_child {id id'} hmem := by
    rcases (hadd.mem_children_iff hparent).1 hmem with hmem | ⟨rfl, rfl⟩
    · exact h.lt_child hmem
    · rw [hadd.toNat_child]
      exact hparent
  child_lt {id id'} hmem := by
    rw [hadd.size]
    rcases (hadd.mem_children_iff hparent).1 hmem with hmem | ⟨rfl, rfl⟩
    · exact Nat.lt_succ_of_lt (h.child_lt hmem)
    · rw [hadd.toNat_child]
      exact Nat.lt_succ_self _
  parent_unique {a b id} ha hb := by
    rcases (hadd.mem_children_iff hparent).1 ha with ha | ⟨rfl, rfl⟩ <;>
      rcases (hadd.mem_children_iff hparent).1 hb with hb | ⟨rfl, hid⟩
    · exact h.parent_unique ha hb
    · exact absurd hid (hadd.ne_child (h.child_lt ha))
    · exact absurd rfl (hadd.ne_child (h.child_lt hb))
    · rfl
  exists_parent {id} hne hlt := by
    by_cases hid : id = child
    · exact ⟨parent, (hadd.mem_children_iff hparent).2 (.inr ⟨rfl, hid⟩)⟩
    · have hlt' : id.toNat < t.size := by
        have hne' : id.toNat ≠ child.toNat := fun heq => hid (NodePlace.toNat_inj.1 heq)
        rw [hadd.size] at hlt
        rw [hadd.toNat_child] at hne'
        omega
      obtain ⟨p, hp⟩ := h.exists_parent hne hlt'
      exact ⟨p, (hadd.mem_children_iff hparent).2 (.inl hp)⟩
  ascending id := by
    by_cases hc : id = child
    · rw [hc, hadd.node_child]
      exact List.Pairwise.nil
    have hold : ∀ id' ∈ (t.node id).children, (t'.node id').key = (t.node id').key :=
      fun id' hmem => hadd.key_eq (hadd.ne_child (h.child_lt hmem))
    by_cases hp : id = parent
    · rw [hp] at hold ⊢
      rw [hadd.node_parent]
      refine ascending_placeChild (by rw [hadd.node_child]; rfl) hold ?_ (h.ascending parent)
      exact find?_key_eq_none_iff.1 hnone
    · rw [hadd.node_of_ne hc hp]
      exact (h.ascending id).congr hold
  key_ne_zero {id id'} hmem := by
    rcases (hadd.mem_children_iff hparent).1 hmem with hmem | ⟨rfl, rfl⟩
    · rw [hadd.key_eq (hadd.ne_child (h.child_lt hmem))]
      exact h.key_ne_zero hmem
    · rw [hadd.node_child]
      exact hk

theorem child?_added (h : t.WF) (hadd : Added t t' parent child k)
    (hparent : parent.toNat < t.size) (hk : k ≠ 0) (hnone : t.child? parent k = none)
    (id : NodePlace) (j : UInt64) :
    t'.child? id j = if id = parent ∧ j = k then some child else t.child? id j := by
  have h' : t'.WF := h.added hadd hparent hk hnone
  have hold {id' : NodePlace} (hmem : id' ∈ (t.node id).children) :
      (t'.node id').key = (t.node id').key := hadd.key_eq (hadd.ne_child (h.child_lt hmem))
  have hnew : (t'.node child).key = k := by rw [hadd.node_child]; rfl
  ext id'
  rw [h'.child?_eq_some_iff, hadd.mem_children_iff hparent]
  split
  · next hat =>
    obtain ⟨rfl, rfl⟩ := hat
    constructor
    · rintro ⟨hmem | ⟨-, rfl⟩, hkey⟩
      · exact absurd (hold hmem ▸ hkey) (find?_key_eq_none_iff.1 hnone id' hmem)
      · rfl
    · intro heq
      obtain rfl : child = id' := Option.some.inj heq
      exact ⟨.inr ⟨rfl, rfl⟩, hnew⟩
  · next hat =>
    rw [h.child?_eq_some_iff]
    constructor
    · rintro ⟨hmem | ⟨rfl, rfl⟩, hkey⟩
      · exact ⟨hmem, hold hmem ▸ hkey⟩
      · exact absurd ⟨rfl, hkey.symm.trans hnew⟩ hat
    · rintro ⟨hmem, hkey⟩
      exact ⟨.inl hmem, (hold hmem).trans hkey⟩

/-- A new child is the end of one more path; all other paths lead where they led. -/
theorem find?_added (h : t.WF) (hadd : Added t t' parent child k) (hk : k ≠ 0)
    {base : List UInt64} (hbase : t.find? .root base = some parent)
    (hnone : t.child? parent k = none) (path : List UInt64) :
    t'.find? .root path = if path = base ++ [k] then some child else t.find? .root path := by
  have hparent : parent.toNat < t.size := h.toNat_lt_of_find? hbase
  have hchild? := h.child?_added hadd hparent hk hnone
  induction path using List.reverseRecOn with
  | nil => rw [if_neg (by simp)]; rfl
  | append_singleton path j ih =>
    rw [find?_append_singleton, find?_append_singleton, ih]
    by_cases hpath : path = base ++ [k]
    · -- below the new child there is nothing yet
      have hchild : (t.child? parent k).bind (t.child? · j) = none := by rw [hnone]; rfl
      rw [if_pos hpath, if_neg (by simp [hpath]), hpath, find?_append_singleton, hbase,
        Option.bind_some, Option.bind_some, hnone, hchild?,
        if_neg (fun hat => hadd.ne_child hparent hat.1.symm)]
      simp [child?, node_eq_fresh_of_size_le (Nat.le_of_eq hadd.toNat_child.symm), Node.fresh]
    · rw [if_neg hpath]
      cases hfind : t.find? .root path with
      | none =>
        have hne : path ++ [j] ≠ base ++ [k] := by
          intro heq
          rw [(List.append_inj' heq rfl).1, hbase] at hfind
          cases hfind
        rw [if_neg hne]
        rfl
      | some id =>
        rw [Option.bind_some, Option.bind_some, hchild?]
        have hiff : (id = parent ∧ j = k) ↔ path ++ [j] = base ++ [k] := by
          constructor
          · rintro ⟨rfl, rfl⟩
            rw [h.path_unique hfind hbase]
          · intro heq
            obtain ⟨rfl, hj⟩ := List.append_inj' heq rfl
            rw [hbase] at hfind
            exact ⟨(Option.some.inj hfind).symm, List.singleton_inj.1 hj⟩
        simp only [hiff]

end WF

/-! ## Growing a path -/

/-- What changes when a path grows so far that it leads to `last`: each part of it leads to a node
now, and nodes that were there before stay. -/
structure Grown (t t' : Trie) (path : List UInt64) (last : NodePlace) : Prop where
  wf : t'.WF
  size_le : t.size ≤ t'.size
  depth : t'.depth = t.depth
  find?_last : t'.find? .root path = some last
  find?_old {q : List UInt64} {id : NodePlace} :
    t.find? .root q = some id → t'.find? .root q = some id
  field_eq (id : NodePlace) : (t'.node id).field = (t.node id).field
  prefix_of_new {q : List UInt64} {id : NodePlace} :
    t.find? .root q = none → t'.find? .root q = some id → q <+: path ∧ t.size ≤ id.toNat

theorem size_le_grow (t : Trie) (start : NodePlace) (path : List UInt64) :
    t.size ≤ (t.grow start path).2.size := by
  induction path generalizing t start with
  | nil => exact Nat.le_refl _
  | cons k path ih =>
    rw [grow]
    split
    · exact ih t _
    · have := ih (t.addChild start k).2 (t.addChild start k).1
      rw [size_addChild] at this
      exact Nat.le_of_succ_le this

theorem WF.grow {t : Trie} (h : t.WF) {start : NodePlace} {base path : List UInt64}
    (hbase : t.find? .root base = some start) (hpath : ∀ k ∈ path, k ≠ 0)
    (hsize : (t.grow start path).2.size ≤ UInt32.size) :
    Grown t (t.grow start path).2 (base ++ path) (t.grow start path).1 := by
  induction path generalizing t start base with
  | nil =>
    refine ⟨h, Nat.le_refl _, rfl, by rwa [List.append_nil], id, fun _ => rfl, ?_⟩
    intro q id hnone hsome
    rw [Trie.grow, hnone] at hsome
    cases hsome
  | cons k path ih =>
    have hk : k ≠ 0 := hpath k List.mem_cons_self
    have hpath' : ∀ j ∈ path, j ≠ 0 := fun j hj => hpath j (List.mem_cons_of_mem k hj)
    rw [List.append_cons]
    cases hchild : t.child? start k with
    | some child =>
      simp only [Trie.grow, hchild] at hsize ⊢
      refine ih h ?_ hpath' hsize
      rw [find?_append_singleton, hbase]
      exact hchild
    | none =>
      simp only [Trie.grow, hchild] at hsize ⊢
      have hstart : start.toNat < t.size := h.toNat_lt_of_find? hbase
      have hle := size_le_grow (t.addChild start k).2 (t.addChild start k).1 path
      rw [size_addChild] at hle
      have hadd := added_addChild k hstart (by omega)
      have hfind := h.find?_added hadd hk hbase hchild
      have hgrown := ih (h.added hadd hstart hk hchild)
        ((hfind (base ++ [k])).trans (if_pos rfl)) hpath' hsize
      have hnone : t.find? .root (base ++ [k]) = none := by
        rw [find?_append_singleton, hbase]
        exact hchild
      refine ⟨hgrown.wf, ?_, hgrown.depth.trans hadd.depth, hgrown.find?_last, ?_, ?_, ?_⟩
      · have := hgrown.size_le
        rw [hadd.size] at this
        exact Nat.le_of_succ_le this
      · intro q id hq
        refine hgrown.find?_old ((hfind q).trans ?_)
        rw [if_neg (fun heq => ?_), hq]
        rw [heq, hnone] at hq
        cases hq
      · intro id
        rw [hgrown.field_eq, hadd.field_eq]
      · intro q id hq hq'
        by_cases heq : q = base ++ [k]
        · have hid : id = (t.addChild start k).1 := by
            have := hgrown.find?_old ((hfind q).trans (if_pos heq))
            exact Option.some.inj (hq'.symm.trans this)
          exact ⟨heq ▸ List.prefix_append _ _, by rw [hid, hadd.toNat_child]⟩
        · obtain ⟨hpath, hid⟩ := hgrown.prefix_of_new ((hfind q).trans ((if_neg heq).trans hq)) hq'
          exact ⟨hpath, by rw [hadd.size] at hid; omega⟩

end Trie
end TypedRecords.Name
