import TypedRecords.Proofs.Name.Bisection

/-!
# Binary search in a sorted run

A run can be searched by halving. In a run whose keys ascend strictly this finds the item with the
key, or the place that splits the smaller items from the greater ones (`Ascending.search_spec`). So
it finds what looking at one item after the other finds (`Ascending.find?_of_search_ok`), and a new
item put at the place it ends at stands behind all smaller ones (`Ascending.insertIdx_of_search`).
-/

namespace TypedRecords.Name

section

variable {α : Type} (key : α → UInt64) (k : UInt64)

/-- Keeps the half of a run in which the last item with a key of at most `k` lies, until one item is
left. -/
def searchBase (items : List α) : Nat :=
  if _ : items.length ≤ 1 then 0
  else
    have : items.length / 2 < items.length := by omega
    if k < key items[items.length / 2] then
      searchBase (items.take (items.length - items.length / 2))
    else items.length / 2 + searchBase (items.drop (items.length / 2))
termination_by items.length
decreasing_by all_goals simp only [List.length_take, List.length_drop]; omega

/-- Where the item with the key `k` lies in a sorted run, or else where it belongs. -/
def search (items : List α) : Except Nat Nat :=
  match items[searchBase key k items]? with
  | none => .error 0
  | some item =>
    if key item = k then .ok (searchBase key k items)
    else .error (searchBase key k items + if key item < k then 1 else 0)

variable {key k} {items : List α}

theorem Ascending.lt_of_lt (h : Ascending key items) {i j : Nat} (hij : i < j)
    (hj : j < items.length) : key items[i] < key items[j] :=
  List.pairwise_iff_getElem.1 h i j (by omega) hj hij

/-- The items behind the place where halving ends are greater, and the one there is not, unless it
is the first. -/
theorem Ascending.searchBase_spec (h : Ascending key items) (hne : items ≠ []) :
    ∃ hlt : searchBase key k items < items.length,
      (∀ i (hi : i < items.length), searchBase key k items < i → k < key items[i]) ∧
      (searchBase key k items = 0 ∨ key items[searchBase key k items] ≤ k) := by
  fun_induction searchBase key k items with
  | case1 items hshort =>
    have hpos := List.length_pos_iff.2 hne
    exact ⟨hpos, fun i hi hbehind => absurd hi (by omega), .inl rfl⟩
  | case2 items hlong hhalf hbelow ih =>
    have hlength : (items.take (items.length - items.length / 2)).length =
        items.length - items.length / 2 := by
      rw [List.length_take]
      omega
    obtain ⟨hlt, hbehind, hat⟩ := ih (h.sublist (List.take_sublist _ _))
      (List.ne_nil_of_length_pos (by omega))
    rw [List.getElem_take] at hat
    refine ⟨by omega, fun i hi hi' => ?_, hat⟩
    by_cases hinside : i < items.length - items.length / 2
    · have hgreater := hbehind i (by omega) hi'
      rwa [List.getElem_take] at hgreater
    · -- what is cut off lies behind the middle, or at it
      obtain heq | hlater : items.length / 2 = i ∨ items.length / 2 < i := by omega
      · simpa only [← heq] using hbelow
      · exact UInt64.lt_trans hbelow (h.lt_of_lt hlater hi)
  | case3 items hlong hhalf habove ih =>
    obtain ⟨hlt, hbehind, hat⟩ := ih (h.sublist (List.drop_sublist _ _))
      (List.ne_nil_of_length_pos (by rw [List.length_drop]; omega))
    rw [List.length_drop] at hlt
    rw [List.getElem_drop] at hat
    refine ⟨by omega, fun i hi hi' => ?_, ?_⟩
    · have hgreater := hbehind (i - items.length / 2) (by rw [List.length_drop]; omega) (by omega)
      rw [List.getElem_drop] at hgreater
      simpa only [Nat.add_sub_cancel' (show items.length / 2 ≤ i by omega)] using hgreater
    · refine .inr (hat.elim (fun hzero => ?_) id)
      simpa only [hzero, Nat.add_zero] using UInt64.not_lt.1 habove

theorem search_eq (hlt : searchBase key k items < items.length) :
    search key k items =
      if key items[searchBase key k items] = k then .ok (searchBase key k items)
      else if key items[searchBase key k items] < k then .error (searchBase key k items + 1)
      else .error (searchBase key k items) := by
  unfold search
  rw [List.getElem?_eq_getElem hlt]
  split_ifs with hkey hbelow <;> simp [*]

/-- In a sorted run a search finds the item with the key, or the place between the smaller items and
the greater ones. -/
theorem Ascending.search_spec (h : Ascending key items) :
    match search key k items with
    | .ok i => ∃ item, items[i]? = some item ∧ key item = k
    | .error i => i ≤ items.length ∧
        (∀ item ∈ items.take i, key item < k) ∧ ∀ item ∈ items.drop i, k < key item := by
  by_cases hne : items = []
  · simp [hne, search]
  obtain ⟨hlt, hbehind, hat⟩ := h.searchBase_spec (k := k) hne
  rw [search_eq hlt]
  generalize searchBase key k items = base at hlt hbehind hat
  split_ifs with hkey hbelow
  · exact ⟨_, List.getElem?_eq_getElem hlt, hkey⟩
  · refine ⟨hlt, fun item hitem => ?_, fun item hitem => ?_⟩
    · obtain ⟨i, hi, rfl⟩ := List.mem_take_iff_getElem.1 hitem
      obtain rfl | hbefore : i = base ∨ i < base := by omega
      · exact hbelow
      · exact UInt64.lt_trans (h.lt_of_lt hbefore hlt) hbelow
    · obtain ⟨i, hi, rfl⟩ := List.mem_drop_iff_getElem.1 hitem
      exact hbehind _ (by omega) (by omega)
  · have hgreater := UInt64.lt_of_le_of_ne (UInt64.not_lt.1 hbelow) (Ne.symm hkey)
    refine ⟨Nat.le_of_lt hlt, fun item hitem => ?_, fun item hitem => ?_⟩
    · -- an item before a greater one would have to be smaller
      obtain ⟨i, hi, rfl⟩ := List.mem_take_iff_getElem.1 hitem
      have hle := hat.resolve_left (by omega)
      exact absurd (UInt64.lt_of_le_of_ne hle hkey) hbelow
    · obtain ⟨i, hi, rfl⟩ := List.mem_drop_iff_getElem.1 hitem
      obtain rfl | hafter : i = 0 ∨ 0 < i := by omega
      · simpa only [Nat.add_zero] using hgreater
      · exact hbehind _ (by omega) (by omega)

/-- What a search finds is what looking at one item after the other finds. -/
theorem Ascending.find?_of_search_ok (h : Ascending key items) {i : Nat}
    (hsearch : search key k items = .ok i) :
    ∃ item, items[i]? = some item ∧ items.find? (key · == k) = some item := by
  have hspec := h.search_spec (k := k)
  simp only [hsearch] at hspec
  obtain ⟨item, hitem, hkey⟩ := hspec
  exact ⟨item, hitem,
    (find?_eq_some_iff_of_ascending h).2 ⟨List.mem_of_getElem? hitem, hkey⟩⟩

theorem Ascending.find?_of_search_error (h : Ascending key items) {i : Nat}
    (hsearch : search key k items = .error i) : items.find? (key · == k) = none := by
  have hspec := h.search_spec (k := k)
  simp only [hsearch] at hspec
  obtain ⟨-, hsmaller, hgreater⟩ := hspec
  rw [find?_key_eq_none_iff]
  intro item hitem
  rw [← List.take_append_drop i items, List.mem_append] at hitem
  rcases hitem with hbefore | hbehind
  · exact UInt64.ne_of_lt (hsmaller item hbefore)
  · exact (UInt64.ne_of_lt (hgreater item hbehind)).symm

end

/-- An item put where the items with a property end, if all those in front have it and none of those
behind. -/
theorem takeWhile_append_cons_dropWhile {α : Type} {p : α → Bool} (new : α) {items : List α}
    {i : Nat} (hi : i ≤ items.length) (hfront : ∀ item ∈ items.take i, p item = true)
    (hbehind : ∀ item ∈ items.drop i, p item = false) :
    items.takeWhile p ++ new :: items.dropWhile p = items.insertIdx i new := by
  induction items generalizing i with
  | nil =>
    obtain rfl : i = 0 := Nat.le_zero.1 hi
    rfl
  | cons first items ih =>
    cases i with
    | zero =>
      have hfirst : p first = false := hbehind first List.mem_cons_self
      simp [hfirst]
    | succ i =>
      have hfirst : p first = true := hfront first List.mem_cons_self
      have hrest := ih (Nat.le_of_succ_le_succ hi)
        (fun item hitem => hfront item (List.mem_cons_of_mem first hitem)) hbehind
      simp [hfirst, hrest]

/-- Where a search ends without an item, there the item belongs. -/
theorem Ascending.insertIdx_of_search {α : Type} {key : α → UInt64} {k : UInt64} {items : List α}
    (h : Ascending key items) {i : Nat} (hsearch : search key k items = .error i) (new : α) :
    items.takeWhile (fun item => key item < k) ++
      new :: items.dropWhile (fun item => key item < k) = items.insertIdx i new := by
  have hspec := h.search_spec (k := k)
  simp only [hsearch] at hspec
  obtain ⟨hi, hsmaller, hgreater⟩ := hspec
  refine takeWhile_append_cons_dropWhile new hi (fun item hitem => ?_) fun item hitem => ?_
  · exact decide_eq_true (hsmaller item hitem)
  · exact decide_eq_false (UInt64.lt_asymm (hgreater item hitem))

end TypedRecords.Name
