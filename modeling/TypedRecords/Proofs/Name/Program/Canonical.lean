import Mathlib.Data.List.Sort
import TypedRecords.Proofs.Name.Program.Layout
import TypedRecords.Proofs.Name.Trie.Paths

/-!
# The program depends on the names alone

Tries that hold the same names for the same fields may number their nodes differently. What a node
contributes to the program is its key, its field and its children in key order, and the path that
leads to a node settles all of these: nodes at the end of one path are twins
(`Agree.twins_children`). Laying out siblings is the same for twins (`Agree.layLevel_eq`), so the
programs are the same, step by step and arm by arm (`compile_canonical`).
-/

namespace TypedRecords.Name

/-! ## Laying out related runs -/

section

variable {α β : Type} {arm : α → Layout → Arm × Layout} {arm' : β → Layout → Arm × Layout}

theorem layArms_congr {items : List α} {items' : List β}
    (h : List.Forall₂ (fun a b => ∀ l, arm a l = arm' b l) items items') (l : Layout) :
    layArms arm items l = layArms arm' items' l := by
  induction h generalizing l with
  | nil => rfl
  | cons hfirst _ ih => simp only [layArms, hfirst, ih]

variable {key : α → UInt64} {key' : β → UInt64}

/-- Items are cut at the same places and pivots if their keys are equal. -/
theorem lay_bisect_congr {limit : Nat} {items : List α} {items' : List β}
    (hkey : List.Forall₂ (fun a b => key a = key' b) items items')
    (harm : List.Forall₂ (fun a b => ∀ l, arm a l = arm' b l) items items') (l : Layout) :
    (bisect key limit items).lay arm l = (bisect key' limit items').lay arm' l := by
  fun_induction bisect key limit items generalizing items' l with
  | case1 items hshort =>
    have hrun : bisect key' limit items' = .run items' := by
      rw [bisect, dif_pos (by rwa [← hkey.length_eq])]
    rw [hrun, Bisection.lay, Bisection.lay, layArms_congr harm]
  | case2 items hlong hhalf ihlower ihupper =>
    have hlength := hkey.length_eq
    have hhalf' : items'.length / 2 < items'.length := by rwa [← hlength]
    have hcut : bisect key' limit items' = .cut (key' items'[items'.length / 2])
        (bisect key' limit (items'.take (items.length / 2)))
        (bisect key' limit (items'.drop (items.length / 2))) := by
      rw [bisect, dif_neg (by rwa [← hlength])]
      simp only [hlength]
    have hpivot : key items[items.length / 2] = key' items'[items'.length / 2] := by
      have := hkey.get hhalf (by omega)
      simpa [hlength] using this
    have hlower := ihlower (List.forall₂_take _ hkey) (List.forall₂_take _ harm)
    have hupper := ihupper (List.forall₂_drop _ hkey) (List.forall₂_drop _ harm)
    simp only [hcut, Bisection.lay, hlower, hupper, hpivot]

end

namespace Trie

/-! ## Twins -/

/-- The tries have nodes at the ends of the same paths, with the same fields. -/
structure Agree (t t' : Trie) : Prop where
  wf : t.WF
  wf' : t'.WF
  isSome_find?_iff (path : List UInt64) :
    (t.find? .root path).isSome = true ↔ (t'.find? .root path).isSome = true
  fieldAt_eq (path : List UInt64) : t.fieldAt path = t'.fieldAt path

/-- The nodes lie at the end of the same path. -/
def Twins (t t' : Trie) (id id' : NodePlace) : Prop :=
  ∃ path, t.find? .root path = some id ∧ t'.find? .root path = some id'

theorem twins_root (t t' : Trie) : Twins t t' .root .root := ⟨[], rfl, rfl⟩

/-- The keys of a node's children are the chunks that continue its path. -/
theorem WF.mem_keys_iff {t : Trie} (h : t.WF) {path : List UInt64} {id : NodePlace}
    (hpath : t.find? .root path = some id) {k : UInt64} :
    k ∈ (t.node id).children.map (fun child => (t.node child).key) ↔
      (t.find? .root (path ++ [k])).isSome = true := by
  rw [find?_append_singleton, hpath, Option.bind_some, Option.isSome_iff_exists, List.mem_map]
  simp only [h.child?_eq_some_iff]

namespace Agree

variable {t t' : Trie} (h : Agree t t') {id id' : NodePlace}

include h

theorem key_eq (htwins : Twins t t' id id') : (t.node id).key = (t'.node id').key := by
  obtain ⟨path, hpath, hpath'⟩ := htwins
  rcases List.eq_nil_or_concat path with rfl | ⟨path, k, rfl⟩
  · obtain rfl : .root = id := Option.some.inj hpath
    obtain rfl : .root = id' := Option.some.inj hpath'
    exact h.wf.root_key.trans h.wf'.root_key.symm
  · rw [List.concat_eq_append] at hpath hpath'
    obtain ⟨-, -, -, hkey⟩ := h.wf.exists_parent_of_find? hpath
    obtain ⟨-, -, -, hkey'⟩ := h.wf'.exists_parent_of_find? hpath'
    rw [hkey, hkey']

theorem field_eq (htwins : Twins t t' id id') : (t.node id).field = (t'.node id').field := by
  obtain ⟨path, hpath, hpath'⟩ := htwins
  have hfield := h.fieldAt_eq path
  rwa [fieldAt, fieldAt, hpath, hpath', Option.bind_some, Option.bind_some] at hfield

theorem map_key_children (htwins : Twins t t' id id') :
    (t.node id).children.map (fun child => (t.node child).key) =
      (t'.node id').children.map fun child => (t'.node child).key := by
  obtain ⟨path, hpath, hpath'⟩ := htwins
  have hsorted := List.pairwise_map.2 (h.wf.ascending id)
  have hsorted' := List.pairwise_map.2 (h.wf'.ascending id')
  refine hsorted.eq_of_mem_iff hsorted' fun k => ?_
  rw [h.wf.mem_keys_iff hpath, h.wf'.mem_keys_iff hpath', h.isSome_find?_iff]

/-- Twins have twins as children, in the same order. -/
theorem twins_children (htwins : Twins t t' id id') :
    List.Forall₂ (Twins t t') (t.node id).children (t'.node id').children := by
  have hkeys := h.map_key_children htwins
  obtain ⟨path, hpath, hpath'⟩ := htwins
  refine List.forall₂_iff_get.2 ⟨by simpa using congrArg List.length hkeys, fun n hn hn' => ?_⟩
  have hkey : (t.node (t.node id).children[n]).key = (t'.node (t'.node id').children[n]).key := by
    have := List.getElem_of_eq hkeys (i := n) (by rwa [List.length_map])
    rwa [List.getElem_map, List.getElem_map] at this
  -- the common key continues the common path to both children
  refine ⟨path ++ [(t.node (t.node id).children[n]).key], ?_, ?_⟩
  · rw [find?_append_singleton, hpath]
    exact h.wf.child?_eq_some_iff.2 ⟨List.getElem_mem hn, rfl⟩
  · rw [find?_append_singleton, hpath', hkey]
    exact h.wf'.child?_eq_some_iff.2 ⟨List.getElem_mem hn', rfl⟩

/-- Siblings are laid out as their twins are. -/
theorem layLevel_eq (limit : Nat) {depth : Nat} {ids ids' : List NodePlace}
    (hids : List.Forall₂ (Twins t t') ids ids') (l : Layout) :
    t.layLevel limit depth ids l = t'.layLevel limit depth ids' l := by
  induction depth generalizing ids ids' l with
  | zero => rfl
  | succ depth ih =>
    rw [layLevel_succ, layLevel_succ]
    refine lay_bisect_congr (hids.imp fun _ _ htwins => h.key_eq htwins)
      (hids.imp fun id id' htwins l => ?_) l
    have hchildren := h.twins_children htwins
    have hleaf : (t.node id).children.isEmpty = (t'.node id').children.isEmpty := by
      rw [Bool.eq_iff_iff, List.isEmpty_iff_length_eq_zero, List.isEmpty_iff_length_eq_zero,
        hchildren.length_eq]
    rw [levelArm, levelArm, h.key_eq htwins, h.field_eq htwins, hleaf, ih hchildren]

theorem compile_eq (hdepth : t.depth = t'.depth) (limit : Nat) :
    t.compile limit = t'.compile limit := by
  have hlayout : t.layLevel limit t.depth (t.node .root).children .empty =
      t'.layLevel limit t.depth (t'.node .root).children .empty :=
    h.layLevel_eq limit (h.twins_children (twins_root t t')) .empty
  rw [compile, compile, root, root, hlayout, hdepth]

end Agree

/-- Tries agree if the same names were inserted for the same fields. -/
theorem Spells.agree {t t' : Trie} {entries entries' : List (String × Position)}
    (h : t.Spells entries) (h' : t'.Spells entries') (hwf : t.WF) (hwf' : t'.WF)
    (hsame : ∀ entry, entry ∈ entries ↔ entry ∈ entries') :
    Agree t t' ∧ t.depth = t'.depth := by
  refine ⟨⟨hwf, hwf', fun path => ?_, fun path => ?_⟩, ?_⟩
  · simp only [h.isSome_find?_iff, h'.isSome_find?_iff, hsame]
  · ext field
    simp only [h.fieldAt_eq_some_iff, h'.fieldAt_eq_some_iff, hsame]
  · have hle (n : Nat) : t.depth ≤ n ↔ t'.depth ≤ n := by
      simp only [h.depth_le_iff, h'.depth_le_iff, hsame]
    exact Nat.le_antisymm ((hle _).2 (Nat.le_refl _)) ((hle _).1 (Nat.le_refl _))

/-- If the same insertions succeed in two runs, in whatever order and with whatever failures in
between, both tries have the same program: the same steps, the same arms in the same order, the
same entry and the same depth. -/
theorem compile_canonical (calls calls' : List (String × Position)) (limit : Nat)
    (hsize : (ofCalls calls).size ≤ UInt32.size) (hsize' : (ofCalls calls').size ≤ UInt32.size)
    (hsame : ∀ entry, entry ∈ succeeded calls ↔ entry ∈ succeeded calls') :
    (ofCalls calls).compile limit = (ofCalls calls').compile limit := by
  obtain ⟨hagree, hdepth⟩ := (spells_ofCalls calls hsize).agree (spells_ofCalls calls' hsize')
    (represents_ofCalls calls hsize).wf (represents_ofCalls calls' hsize').wf hsame
  exact hagree.compile_eq hdepth limit

/-- Names that begin alike, in two orders, with an empty name and a repeated one in between. -/
theorem compile_reordered_names :
    ofCalls [("Identity2", ⟨1⟩), ("Id", ⟨0⟩), ("Identity", ⟨2⟩)] ≠
        ofCalls [("", ⟨7⟩), ("Identity", ⟨2⟩), ("Id", ⟨0⟩), ("Id", ⟨3⟩), ("Identity2", ⟨1⟩)] ∧
      (ofCalls [("Identity2", ⟨1⟩), ("Id", ⟨0⟩), ("Identity", ⟨2⟩)]).compile 0 =
        (ofCalls [("", ⟨7⟩), ("Identity", ⟨2⟩), ("Id", ⟨0⟩), ("Id", ⟨3⟩),
          ("Identity2", ⟨1⟩)]).compile 0 := by
  have hsame : (succeeded [("Identity2", ⟨1⟩), ("Id", ⟨0⟩), ("Identity", ⟨2⟩)]).Perm
      (succeeded [("", ⟨7⟩), ("Identity", ⟨2⟩), ("Id", ⟨0⟩), ("Id", ⟨3⟩), ("Identity2", ⟨1⟩)]) := by
    decide +kernel
  exact ⟨by decide +kernel, compile_canonical _ _ 0 (by decide +kernel) (by decide +kernel)
    fun entry => hsame.mem_iff⟩

end Trie
end TypedRecords.Name
