import Mathlib.Data.List.Forall2

/-!
# Lists related item by item

Items at the same place of two related lists are related, and so are the lists when related items
are put at one place of both.
-/

namespace TypedRecords

variable {α β : Type} {R : α → β → Prop} {as : List α} {bs : List β}

theorem forall₂_getElem? (h : List.Forall₂ R as bs) (k : Nat) : Option.Rel R as[k]? bs[k]? := by
  induction h generalizing k with
  | nil => exact .none
  | cons hab _ ih =>
    cases k with
    | zero => exact .some hab
    | succ k => exact ih k

theorem forall₂_mem_left (h : List.Forall₂ R as bs) {a : α} (ha : a ∈ as) : ∃ b ∈ bs, R a b := by
  induction h with
  | nil => cases ha
  | @cons a' b as bs hab _ ih =>
    rcases List.mem_cons.1 ha with rfl | hlater
    · exact ⟨b, List.mem_cons_self, hab⟩
    · obtain ⟨b', hb', hab'⟩ := ih hlater
      exact ⟨b', List.mem_cons_of_mem _ hb', hab'⟩

theorem forall₂_set (h : List.Forall₂ R as bs) (k : Nat) {a : α} {b : β} (hab : R a b) :
    List.Forall₂ R (as.set k a) (bs.set k b) := by
  induction h generalizing k with
  | nil => exact .nil
  | cons hfirst hothers ih =>
    cases k with
    | zero => exact .cons hab hothers
    | succ k => exact .cons hfirst (ih k)

end TypedRecords
