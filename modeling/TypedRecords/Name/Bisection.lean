/-!
# Cutting sorted runs

A run of items in key order is cut in the middle until its parts are short enough to be scanned one
by one. At each cut the key of the upper part's first item is the pivot.
-/

namespace TypedRecords.Name

/-- A run of items, cut at pivots: below a pivot lies the lower part, from it on the upper one. -/
inductive Bisection (α : Type) where
  | run (items : List α)
  | cut (pivot : UInt64) (lower upper : Bisection α)
  deriving DecidableEq, Repr

/-- Cuts a run in the middle as long as it has `limit` items or more; limits below 2 count as 2. -/
def bisect {α : Type} (key : α → UInt64) (limit : Nat) (items : List α) : Bisection α :=
  if _ : items.length < max limit 2 then .run items
  else
    have : items.length / 2 < items.length := by omega
    .cut (key items[items.length / 2])
      (bisect key limit (items.take (items.length / 2)))
      (bisect key limit (items.drop (items.length / 2)))
termination_by items.length
decreasing_by all_goals simp only [List.length_take, List.length_drop]; omega

end TypedRecords.Name
