import Mathlib.Data.List.Forall2
import Mathlib.Data.Nat.Log
import TypedRecords.Proofs.Name.Bisection

/-!
# Bisected runs are balanced

Cutting in the middle reaches a part that is not cut further after at most as many cuts as the
logarithm of the run's length tells. Such a part is shorter than the limit, and at least half as
long as it if there was a cut at all (`balanced_bisect`).

How many cuts a run takes depends on its length alone (`cuts`). A larger limit takes fewer
(`cuts_antitone`); what they are at most, compared with the length, depends on how small the limit
is: every item but the first costs a cut at the limit 2, and from 4 on two items share one.
-/

namespace TypedRecords.Name

namespace Bisection

variable {α : Type}

/-- The parts that are not cut further, in order. -/
def runs : Bisection α → List (List α)
  | .run items => [items]
  | .cut _ lower upper => lower.runs ++ upper.runs

/-- The largest number of cuts on the way to a part that is not cut further. -/
def height : Bisection α → Nat
  | .run _ => 0
  | .cut _ lower upper => max lower.height upper.height + 1

/-- The number of cuts. -/
def cutCount : Bisection α → Nat
  | .run _ => 0
  | .cut _ lower upper => lower.cutCount + upper.cutCount + 1

theorem flatten_runs (b : Bisection α) : b.runs.flatten = b.items := by
  induction b with
  | run part => simp [runs, items]
  | cut pivot lower upper ihlower ihupper =>
    rw [runs, items, List.flatten_append, ihlower, ihupper]

/-- No way to a part has more cuts than it takes to halve all items down to one, and none has any
if the items are too few. Every part is shorter than the limit, and at least half as long as it if
the items are not too few. -/
structure Balanced (limit : Nat) (b : Bisection α) : Prop where
  height_le : b.height ≤ Nat.clog 2 b.items.length
  height_eq_zero : b.items.length < max limit 2 → b.height = 0
  length_le {part : List α} : part ∈ b.runs → part.length ≤ max limit 2 - 1
  le_length {part : List α} :
    max limit 2 ≤ b.items.length → part ∈ b.runs → max limit 2 / 2 ≤ part.length

/-- Bisections of the same shape whose parts correspond are balanced alike. -/
theorem Balanced.of_forall₂ {β : Type} {R : α → β → Prop} {limit : Nat} {b : Bisection α}
    {b' : Bisection β} (h : b.Balanced limit) (hheight : b'.height = b.height)
    (hruns : List.Forall₂ (List.Forall₂ R) b.runs b'.runs) : b'.Balanced limit := by
  have hitems : b'.items.length = b.items.length := by
    rw [← flatten_runs, ← flatten_runs]
    exact (List.rel_flatten hruns).length_eq.symm
  have hlengths : b.runs.map List.length = b'.runs.map List.length := by
    rw [← List.forall₂_eq_eq_eq, List.forall₂_map_left_iff, List.forall₂_map_right_iff]
    exact hruns.imp fun _ _ hpart => hpart.length_eq
  have hpartner {part : List β} (hpart : part ∈ b'.runs) :
      ∃ partner ∈ b.runs, partner.length = part.length :=
    List.mem_map.1 (hlengths ▸ List.mem_map_of_mem hpart)
  refine ⟨?_, ?_, ?_, ?_⟩
  · rw [hheight, hitems]
    exact h.height_le
  · rw [hheight, hitems]
    exact h.height_eq_zero
  · intro part hpart
    obtain ⟨partner, hmem, hlength⟩ := hpartner hpart
    exact hlength ▸ h.length_le hmem
  · intro part hlong hpart
    obtain ⟨partner, hmem, hlength⟩ := hpartner hpart
    exact hlength ▸ h.le_length (hitems ▸ hlong) hmem

end Bisection

section

variable {α : Type} {key : α → UInt64} {limit : Nat} {run part : List α}

/-! ## Height and parts -/

theorem bisect_of_lt (h : run.length < max limit 2) : bisect key limit run = .run run := by
  rw [bisect, dif_pos h]

/-- On every way there are at most as many cuts as it takes to halve the run down to one item. -/
theorem height_bisect_le (key : α → UInt64) (limit : Nat) (run : List α) :
    (bisect key limit run).height ≤ Nat.clog 2 run.length := by
  fun_induction bisect key limit run with
  | case1 run hshort => exact Nat.zero_le _
  | case2 run hlong hhalf ihlower ihupper =>
    have htwo : 1 < run.length := by omega
    have hclog : Nat.clog 2 run.length = Nat.clog 2 ((run.length + 1) / 2) + 1 :=
      Nat.clog_of_one_lt Nat.one_lt_two htwo
    have hlower : Nat.clog 2 (run.take (run.length / 2)).length ≤
        Nat.clog 2 ((run.length + 1) / 2) :=
      Nat.clog_mono_right 2 (by rw [List.length_take]; omega)
    have hupper : Nat.clog 2 (run.drop (run.length / 2)).length ≤
        Nat.clog 2 ((run.length + 1) / 2) :=
      Nat.clog_mono_right 2 (by rw [List.length_drop]; omega)
    rw [Bisection.height, hclog]
    exact Nat.succ_le_succ (Nat.max_le.2 ⟨ihlower.trans hlower, ihupper.trans hupper⟩)

theorem length_lt_of_mem_runs (h : part ∈ (bisect key limit run).runs) :
    part.length < max limit 2 := by
  fun_induction bisect key limit run with
  | case1 run hshort =>
    obtain rfl := List.mem_singleton.1 h
    exact hshort
  | case2 run hlong hhalf ihlower ihupper =>
    rcases List.mem_append.1 h with hlower | hupper
    · exact ihlower hlower
    · exact ihupper hupper

/-- Cutting leaves no part shorter than half the limit, unless the whole run is. -/
theorem le_length_of_mem_runs (h : part ∈ (bisect key limit run).runs) :
    min (max limit 2 / 2) run.length ≤ part.length := by
  fun_induction bisect key limit run with
  | case1 run hshort =>
    obtain rfl := List.mem_singleton.1 h
    exact Nat.min_le_right ..
  | case2 run hlong hhalf ihlower ihupper =>
    have hle : max limit 2 / 2 ≤ run.length / 2 :=
      Nat.div_le_div_right (Nat.not_lt.1 hlong)
    rcases List.mem_append.1 h with hlower | hupper
    · have := ihlower hlower
      rw [List.length_take] at this
      omega
    · have := ihupper hupper
      rw [List.length_drop] at this
      omega

theorem balanced_bisect (key : α → UInt64) (limit : Nat) (run : List α) :
    (bisect key limit run).Balanced limit where
  height_le := by
    rw [items_bisect]
    exact height_bisect_le key limit run
  height_eq_zero h := by
    rw [items_bisect] at h
    rw [bisect_of_lt h, Bisection.height]
  length_le hpart := Nat.le_sub_one_of_lt (length_lt_of_mem_runs hpart)
  le_length h hpart := by
    rw [items_bisect] at h
    have := le_length_of_mem_runs hpart
    omega

/-! ## The number of cuts -/

/-- The number of cuts that a run of `n` items takes. -/
def cuts (limit n : Nat) : Nat :=
  if n < max limit 2 then 0 else cuts limit (n / 2) + cuts limit (n - n / 2) + 1

theorem cutCount_bisect (key : α → UInt64) (limit : Nat) (run : List α) :
    (bisect key limit run).cutCount = cuts limit run.length := by
  fun_induction bisect key limit run with
  | case1 run hshort => rw [cuts, if_pos hshort, Bisection.cutCount]
  | case2 run hlong hhalf ihlower ihupper =>
    rw [cuts, if_neg hlong, Bisection.cutCount, ihlower, ihupper, List.length_take,
      List.length_drop, Nat.min_eq_left (Nat.le_of_lt hhalf)]

end

variable {limit n : Nat}

theorem cuts_of_lt (h : n < max limit 2) : cuts limit n = 0 := by
  rw [cuts, if_pos h]

@[simp] theorem cuts_zero (limit : Nat) : cuts limit 0 = 0 :=
  cuts_of_lt (Nat.lt_of_lt_of_le Nat.two_pos (Nat.le_max_right ..))

/-- A larger limit stops at larger parts, and up to there cuts at the same places. -/
theorem cuts_antitone {limit' : Nat} (h : limit ≤ limit') (n : Nat) :
    cuts limit' n ≤ cuts limit n := by
  fun_induction cuts limit' n with
  | case1 n hshort => exact Nat.zero_le _
  | case2 n hlong ihlower ihupper =>
    rw [cuts.eq_1 limit n, if_neg (by omega)]
    omega

/-- Without a lower limit a run is cut down to its items. -/
theorem cuts_add_one (hlimit : limit ≤ 2) (hn : 0 < n) : cuts limit n + 1 = n := by
  fun_induction cuts limit n with
  | case1 n hshort => omega
  | case2 n hlong ihlower ihupper =>
    have hlower := ihlower (by omega)
    have hupper := ihupper (by omega)
    omega

theorem cuts_lt (limit : Nat) (hn : 0 < n) : cuts limit n < n := by
  have hfinest : cuts 0 n + 1 = n := cuts_add_one (Nat.zero_le 2) hn
  have hle := cuts_antitone (Nat.zero_le limit) n
  omega

/-- From the limit 3 on, three items at least are left for two parts. -/
theorem cuts_of_three_le (hlimit : 3 ≤ limit) (hn : 2 ≤ n) : 3 * (cuts limit n + 1) ≤ 2 * n := by
  fun_induction cuts limit n with
  | case1 n hshort => omega
  | case2 n hlong ihlower ihupper =>
    have hupper := ihupper (by omega)
    by_cases hthree : n = 3
    · -- the lower part is a single item
      subst hthree
      rw [cuts_of_lt (n := 3 / 2) (by omega), cuts_of_lt (n := 3 - 3 / 2) (by omega)]
    · have hlower := ihlower (by omega)
      omega

/-- From the limit 4 on, every part has two items. -/
theorem cuts_of_four_le (hlimit : 4 ≤ limit) (hn : 2 ≤ n) : 2 * (cuts limit n + 1) ≤ n := by
  fun_induction cuts limit n with
  | case1 n hshort => omega
  | case2 n hlong ihlower ihupper =>
    have hlower := ihlower (by omega)
    have hupper := ihupper (by omega)
    omega

end TypedRecords.Name
