import Mathlib.Data.List.Nodup
import TypedRecords.Name.Bisection

/-!
# Finding items in sorted and bisected runs

In a run whose keys ascend strictly an item is found by its key (`find?_eq_some_iff_of_ascending`).
Cutting the run keeps its items in order (`items_bisect`), and every cut separates them at its pivot
(`separates_bisect`), so that a search that turns at the pivots misses nothing.
-/

namespace TypedRecords.Name

/-- The keys of a run ascend strictly. -/
def Ascending {α : Type} (key : α → UInt64) (items : List α) : Prop :=
  items.Pairwise fun a b => key a < key b

section

variable {α : Type} {key : α → UInt64}

theorem Ascending.nodup_keys {items : List α} (h : Ascending key items) :
    (items.map key).Nodup := by
  rw [List.Nodup, List.pairwise_map]
  exact h.imp fun hlt => UInt64.ne_of_lt hlt

theorem Ascending.congr {key' : α → UInt64} {items : List α} (h : Ascending key items)
    (heq : ∀ item ∈ items, key' item = key item) : Ascending key' items :=
  h.imp_of_mem fun {a b} ha hb hlt => by rwa [heq a ha, heq b hb]

/-- An item of a sorted run is found by its key. -/
theorem find?_eq_some_iff_of_ascending {items : List α} (h : Ascending key items) {k : UInt64}
    {item : α} : items.find? (key · == k) = some item ↔ item ∈ items ∧ key item = k := by
  constructor
  · intro hfind
    exact ⟨List.mem_of_find?_eq_some hfind, by simpa using List.find?_some hfind⟩
  · rintro ⟨hmem, rfl⟩
    cases hfind : items.find? (key · == key item) with
    | none => simpa using List.find?_eq_none.1 hfind item hmem
    | some found =>
      have hkey : key found = key item := by simpa using List.find?_some hfind
      rw [List.inj_on_of_nodup_map h.nodup_keys (List.mem_of_find?_eq_some hfind) hmem hkey]

/-- A run without an item of the key. -/
theorem find?_key_eq_none_iff {items : List α} {k : UInt64} :
    items.find? (key · == k) = none ↔ ∀ item ∈ items, key item ≠ k := by
  simp [List.find?_eq_none]

namespace Bisection

/-- The items of all parts, in order. -/
def items : Bisection α → List α
  | .run items => items
  | .cut _ lower upper => lower.items ++ upper.items

/-- At every cut the lower items have keys below the pivot, and the upper ones have not. -/
def Separates (key : α → UInt64) : Bisection α → Prop
  | .run _ => True
  | .cut pivot lower upper =>
    (∀ item ∈ lower.items, key item < pivot) ∧ (∀ item ∈ upper.items, pivot ≤ key item) ∧
      lower.Separates key ∧ upper.Separates key

/-- Turning at the pivot does not miss an item. -/
theorem find?_cut {pivot : UInt64} {lower upper : Bisection α}
    (h : (cut pivot lower upper).Separates key) (k : UInt64) :
    (cut pivot lower upper).items.find? (key · == k) =
      if k < pivot then lower.items.find? (key · == k) else upper.items.find? (key · == k) := by
  obtain ⟨hlower, hupper, -, -⟩ := h
  rw [items, List.find?_append]
  split
  · next hk =>
    have hnone : upper.items.find? (key · == k) = none :=
      find?_key_eq_none_iff.2 fun item hitem heq =>
        UInt64.not_lt.2 (hupper item hitem) (heq ▸ hk)
    rw [hnone, Option.or_none]
  · next hk =>
    have hnone : lower.items.find? (key · == k) = none :=
      find?_key_eq_none_iff.2 fun item hitem heq => hk (heq ▸ hlower item hitem)
    rw [hnone, Option.none_or]

end Bisection

theorem bisect_nil (key : α → UInt64) (limit : Nat) : bisect key limit [] = .run [] := by
  rw [bisect, dif_pos (by simp only [List.length_nil]; omega)]

/-- Cutting keeps the items and their order. -/
@[simp] theorem items_bisect (limit : Nat) (run : List α) :
    (bisect key limit run).items = run := by
  fun_induction bisect key limit run with
  | case1 run hshort => rfl
  | case2 run hlong hhalf ihlower ihupper =>
    rw [Bisection.items, ihlower, ihupper, List.take_append_drop]

/-- In a sorted run every cut separates the items at its pivot. -/
theorem separates_bisect {limit : Nat} {run : List α} (h : Ascending key run) :
    (bisect key limit run).Separates key := by
  fun_induction bisect key limit run with
  | case1 run hshort => trivial
  | case2 run hlong hhalf ihlower ihupper =>
    have hsplit : Ascending key (run.take (run.length / 2) ++ run.drop (run.length / 2)) := by
      rwa [List.take_append_drop]
    obtain ⟨hlower, hupper, hacross⟩ := List.pairwise_append.1 hsplit
    have hdrop : run.drop (run.length / 2) =
        run[run.length / 2] :: run.drop (run.length / 2 + 1) := List.drop_eq_getElem_cons hhalf
    refine ⟨?_, ?_, ihlower hlower, ihupper hupper⟩
    · intro item hitem
      rw [items_bisect] at hitem
      exact hacross item hitem _ (by rw [hdrop]; exact List.mem_cons_self)
    · intro item hitem
      rw [items_bisect, hdrop] at hitem
      rw [hdrop] at hupper
      rcases List.mem_cons.1 hitem with rfl | hlater
      · exact UInt64.le_refl _
      · exact UInt64.le_of_lt ((List.pairwise_cons.1 hupper).1 item hlater)

end
end TypedRecords.Name
