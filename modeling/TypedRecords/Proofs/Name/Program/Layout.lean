import Mathlib.Data.List.Forall2
import TypedRecords.Name.Program.Compile
import TypedRecords.Proofs.Name.Trie.Preorder

/-!
# The steps laid out for a trie

`Program.Codes` says what the steps for a bisected run of items look like in a finished program, and
`Program.Dispatches` what those for the children of a node look like. Both speak of the program
only; that compiling a trie lays out such steps is `Trie.dispatches_compile`. Steps are only ever
appended, so what one part lays out is still there in the finished program (`Layout.Within`).
-/

namespace TypedRecords.Name

/-! ## Steps for runs and for nodes -/

namespace Program

/-- The steps from `step` on decide between the items of a bisection: a split for every cut, and for
every run a scan of arms that are related to the items. They lead back to earlier steps only. -/
def Codes {α : Type} (p : Program) (R : α → Arm → Prop) : Bisection α → StepPlace → Prop
  | .run items, step => ∃ first last arms,
    p.steps[step.toNat]? = some (.scan first last) ∧ p.armsIn? first last = some arms ∧
      List.Forall₂ R items arms ∧
      ∀ arm ∈ arms, ∀ next, arm.next = some next → next.toNat < step.toNat
  | .cut pivot lower upper, step => ∃ lowerStep upperStep,
    p.steps[step.toNat]? = some (.split pivot lowerStep upperStep) ∧
      lowerStep.toNat < step.toNat ∧ upperStep.toNat < step.toNat ∧
      p.Codes R lower lowerStep ∧ p.Codes R upper upperStep

/-- The steps from `step` on dispatch over sibling nodes. The arm of a node that has children
goes on to steps that dispatch over these. -/
inductive Dispatches (p : Program) (t : Trie) (limit : Nat) : List NodePlace → StepPlace → Prop
  | intro {ids : List NodePlace} {step : StepPlace} (R : NodePlace → Arm → Prop)
      (codes : p.Codes R (bisect (fun id => (t.node id).key) limit ids) step)
      (key : ∀ id arm, R id arm → arm.key = (t.node id).key)
      (field : ∀ id arm, R id arm → arm.field = (t.node id).field)
      (leaf : ∀ id arm, R id arm → arm.next = none → (t.node id).children = [])
      (inner : ∀ id arm next, R id arm → arm.next = some next →
        p.Dispatches t limit (t.node id).children next) :
      p.Dispatches t limit ids step

/-- The steps and arms of a finished program. -/
def layout (p : Program) : Layout := ⟨p.steps, p.arms⟩

end Program

/-! ## Layouts grow at their ends -/

namespace Layout

/-- The steps and arms of `l` are the first ones of `l'`. -/
structure Within (l l' : Layout) : Prop where
  steps : l.steps.toList <+: l'.steps.toList
  arms : l.arms.toList <+: l'.arms.toList

namespace Within

variable {l l' l'' : Layout}

theorem refl (l : Layout) : l.Within l := ⟨List.prefix_rfl, List.prefix_rfl⟩

theorem trans (h : l.Within l') (h' : l'.Within l'') : l.Within l'' :=
  ⟨h.steps.trans h'.steps, h.arms.trans h'.arms⟩

theorem steps_size_le (h : l.Within l') : l.steps.size ≤ l'.steps.size := by
  simpa using h.steps.length_le

theorem arms_size_le (h : l.Within l') : l.arms.size ≤ l'.arms.size := by
  simpa using h.arms.length_le

theorem step_eq (h : l.Within l') {i : Nat} (hi : i < l.steps.size) :
    l'.steps[i]? = l.steps[i]? := by
  obtain ⟨later, hlater⟩ := h.steps
  rw [← Array.getElem?_toList, ← hlater, List.getElem?_append_left (by simpa using hi),
    Array.getElem?_toList]

theorem arm_eq (h : l.Within l') {i : Nat} (hi : i < l.arms.size) : l'.arms[i]? = l.arms[i]? := by
  obtain ⟨later, hlater⟩ := h.arms
  rw [← Array.getElem?_toList, ← hlater, List.getElem?_append_left (by simpa using hi),
    Array.getElem?_toList]

end Within

theorem within_push (l : Layout) (step : Step) : l.Within (l.push step).2 :=
  ⟨by simp [push], by simp [push]⟩

theorem within_pushScan (l : Layout) (arms : List Arm) : l.Within (l.pushScan arms).2 :=
  ⟨by simp [pushScan, push], by simp [pushScan, push]⟩

section

variable {α : Type} {arm : α → Layout → Arm × Layout}

/-- Laying out arms only appends if laying out each of them does. -/
theorem within_layArms {items : List α}
    (h : ∀ item ∈ items, ∀ l : Layout, l.Within (arm item l).2) (l : Layout) :
    l.Within (layArms arm items l).2 := by
  induction items generalizing l with
  | nil => exact .refl l
  | cons item items ih =>
    have hfirst := h item List.mem_cons_self l
    exact hfirst.trans (ih (fun x hx => h x (List.mem_cons_of_mem _ hx)) _)

/-- And so does laying out a bisection. -/
theorem within_lay {b : Bisection α} (h : ∀ item ∈ b.items, ∀ l : Layout, l.Within (arm item l).2)
    (l : Layout) : l.Within (b.lay arm l).2 := by
  induction b generalizing l with
  | run items => exact (within_layArms h l).trans (within_pushScan _ _)
  | cut pivot lower upper ihlower ihupper =>
    have hlower := ihlower (fun x hx => h x (List.mem_append_left _ hx)) l
    have hupper := ihupper (fun x hx => h x (List.mem_append_right _ hx)) (lower.lay arm l).2
    exact (hlower.trans hupper).trans (within_push _ _)

end

end Layout

section

variable {p : Program} (hsteps : p.steps.size ≤ UInt32.size) (harms : p.arms.size < UInt32.size)

include hsteps in
theorem Layout.push_place {l : Layout} {step : Step}
    (h : (l.push step).2.Within p.layout) :
    (l.push step).1.toNat = l.steps.size ∧ p.steps[l.steps.size]? = some step := by
  have hsize : l.steps.size < p.steps.size := by
    have : l.steps.size + 1 ≤ p.steps.size := by
      simpa [push, Program.layout] using h.steps_size_le
    omega
  constructor
  · exact UInt32.toNat_ofNat_of_lt' (Nat.lt_of_lt_of_le hsize hsteps)
  · have := h.step_eq (i := l.steps.size) (by simp [push])
    simpa [push, Program.layout] using this

include harms in
theorem Layout.armsIn?_pushScan {l : Layout} {arms : List Arm}
    (h : (l.pushScan arms).2.Within p.layout) :
    p.armsIn? (.ofNat l.arms.size) (.ofNat (l.arms ++ arms).size) = some arms := by
  have hsize : (l.arms ++ arms).size = l.arms.size + arms.length := by
    rw [← Array.length_toList, Array.toList_appendList, List.length_append, Array.length_toList]
  have hle : (l.arms ++ arms).size ≤ p.arms.size := h.arms_size_le
  have hfirst : (UInt32.ofNat l.arms.size).toNat = l.arms.size :=
    UInt32.toNat_ofNat_of_lt' (by omega)
  have hlast : (UInt32.ofNat (l.arms ++ arms).size).toNat = (l.arms ++ arms).size :=
    UInt32.toNat_ofNat_of_lt' (by omega)
  rw [Program.armsIn?, if_pos ⟨by rw [UInt32.le_iff_toNat_le]; omega, by omega⟩, hfirst, hlast,
    Array.toList_extract, hsize]
  obtain ⟨later, hlater⟩ := h.arms
  have htoList : p.arms.toList = l.arms.toList ++ (arms ++ later) := by
    rw [← List.append_assoc]
    simpa [pushScan, push, Program.layout] using hlater.symm
  rw [htoList]
  simp [List.extract]

/-- What laying out the arm of an item must do: it only appends, and in the finished program the
arm is related to the item and goes on to a step laid out before. -/
def LaysArm (p : Program) {α : Type} (arm : α → Layout → Arm × Layout) (R : α → Arm → Prop)
    (item : α) : Prop :=
  ∀ l : Layout, l.Within (arm item l).2 ∧
    ((arm item l).2.Within p.layout → R item (arm item l).1 ∧
      ∀ next, (arm item l).1.next = some next → next.toNat < (arm item l).2.steps.size)

variable {α : Type} {arm : α → Layout → Arm × Layout} {R : α → Arm → Prop}

theorem LaysArm.within {items : List α} (h : ∀ item ∈ items, LaysArm p arm R item) :
    ∀ item ∈ items, ∀ l : Layout, l.Within (arm item l).2 :=
  fun item hitem l => (h item hitem l).1

theorem layArms_spec {items : List α} (h : ∀ item ∈ items, LaysArm p arm R item) {l : Layout}
    (hp : (layArms arm items l).2.Within p.layout) :
    List.Forall₂ R items (layArms arm items l).1 ∧
      ∀ a ∈ (layArms arm items l).1, ∀ next, a.next = some next →
        next.toNat < (layArms arm items l).2.steps.size := by
  induction items generalizing l with
  | nil => exact ⟨.nil, by simp [layArms]⟩
  | cons item items ih =>
    have hothers : ∀ x ∈ items, LaysArm p arm R x := fun x hx => h x (List.mem_cons_of_mem _ hx)
    have hgrown := Layout.within_layArms (LaysArm.within hothers) (arm item l).2
    rw [layArms] at hp ⊢
    obtain ⟨hR, hnext⟩ := (h item List.mem_cons_self l).2 (hgrown.trans hp)
    obtain ⟨hRs, hnexts⟩ := ih hothers hp
    refine ⟨.cons hR hRs, fun a ha next hsome => ?_⟩
    rcases List.mem_cons.1 ha with rfl | ha
    · exact Nat.lt_of_lt_of_le (hnext next hsome) hgrown.steps_size_le
    · exact hnexts a ha next hsome

include hsteps harms in
/-- Laying out a bisection puts its first step last. -/
theorem Bisection.lay_spec {b : Bisection α} (h : ∀ item ∈ b.items, LaysArm p arm R item)
    {l : Layout} (hp : (b.lay arm l).2.Within p.layout) :
    (b.lay arm l).1.toNat + 1 = (b.lay arm l).2.steps.size ∧ p.Codes R b (b.lay arm l).1 := by
  induction b generalizing l with
  | run items =>
    rw [lay] at hp ⊢
    obtain ⟨hRs, hnexts⟩ := layArms_spec h ((Layout.within_pushScan _ _).trans hp)
    obtain ⟨hplace, hstep⟩ := Layout.push_place hsteps hp
    have hsize : (layArms arm items l).2.steps.size = ((layArms arm items l).2.pushScan
        (layArms arm items l).1).1.toNat := hplace.symm
    refine ⟨?_, ?_⟩
    · rw [← hsize]
      simp [Layout.pushScan, Layout.push]
    · refine ⟨_, _, _, ?_, Layout.armsIn?_pushScan harms hp, hRs, ?_⟩
      · rw [← hsize]
        exact hstep
      · rw [← hsize]
        exact hnexts
  | cut pivot lower upper ihlower ihupper =>
    have hlower := fun x hx => h x (List.mem_append_left _ hx)
    have hupper := fun x hx => h x (List.mem_append_right _ hx)
    have hgrown := Layout.within_lay (LaysArm.within hupper) (lower.lay arm l).2
    rw [lay] at hp ⊢
    have hpUpper := (Layout.within_push _ _).trans hp
    obtain ⟨hplace, hstep⟩ := Layout.push_place hsteps hp
    obtain ⟨hlowerPlace, hlowerCodes⟩ := ihlower hlower (hgrown.trans hpUpper)
    obtain ⟨hupperPlace, hupperCodes⟩ := ihupper hupper hpUpper
    have hle := hgrown.steps_size_le
    refine ⟨?_, _, _, ?_, ?_, ?_, hlowerCodes, hupperCodes⟩
    · rw [hplace]
      simp [Layout.push]
    · rw [hplace]
      exact hstep
    · rw [hplace]
      omega
    · rw [hplace]
      omega

/-- The arm of a node, with the steps for its children laid out. -/
def Trie.levelArm (t : Trie) (limit depth : Nat) (id : NodePlace) (l : Layout) : Arm × Layout :=
  if (t.node id).children.isEmpty then (⟨(t.node id).key, (t.node id).field, none⟩, l)
  else
    (⟨(t.node id).key, (t.node id).field, some (t.layLevel limit depth (t.node id).children l).1⟩,
      (t.layLevel limit depth (t.node id).children l).2)

theorem Trie.layLevel_succ (t : Trie) (limit depth : Nat) (ids : List NodePlace) (l : Layout) :
    t.layLevel limit (depth + 1) ids l =
      (bisect (fun id => (t.node id).key) limit ids).lay (t.levelArm limit depth) l := rfl

theorem Trie.within_layLevel (t : Trie) (limit depth : Nat) (ids : List NodePlace) (l : Layout) :
    l.Within (t.layLevel limit depth ids l).2 := by
  induction depth generalizing ids l with
  | zero => exact Layout.within_pushScan l []
  | succ depth ih =>
    rw [layLevel_succ]
    refine Layout.within_lay (fun id _ l => ?_) l
    unfold levelArm
    split
    · exact .refl l
    · exact ih _ l

/-- What the arm of a node looks like. -/
structure Program.ArmOf (p : Program) (t : Trie) (limit : Nat) (id : NodePlace) (arm : Arm) :
    Prop where
  key : arm.key = (t.node id).key
  field : arm.field = (t.node id).field
  leaf : arm.next = none → (t.node id).children = []
  inner {next : StepPlace} :
    arm.next = some next → p.Dispatches t limit (t.node id).children next

theorem Program.Dispatches.of_codes {t : Trie} {limit : Nat} {ids : List NodePlace}
    {step : StepPlace}
    (h : p.Codes (p.ArmOf t limit) (bisect (fun id => (t.node id).key) limit ids) step) :
    p.Dispatches t limit ids step :=
  .intro _ h (fun _ _ harm => harm.key) (fun _ _ harm => harm.field) (fun _ _ harm => harm.leaf)
    fun _ _ _ harm => harm.inner

/-- Laying out the arm of a node lays out the steps for its children. -/
theorem Trie.laysArm_levelArm {t : Trie} {limit depth : Nat} {id : NodePlace}
    (h : ∀ l, (t.layLevel limit depth (t.node id).children l).2.Within p.layout →
      (t.layLevel limit depth (t.node id).children l).1.toNat + 1 =
          (t.layLevel limit depth (t.node id).children l).2.steps.size ∧
        p.Dispatches t limit (t.node id).children
          (t.layLevel limit depth (t.node id).children l).1) :
    LaysArm p (t.levelArm limit depth) (p.ArmOf t limit) id := by
  intro l
  unfold levelArm
  split
  · next hleaf =>
    refine ⟨.refl l, fun _ => ⟨⟨rfl, rfl, fun _ => by simpa using hleaf, ?_⟩, ?_⟩⟩
    · intro next hnext
      cases hnext
    · intro next hnext
      cases hnext
  · refine ⟨t.within_layLevel limit depth _ l, fun hp => ?_⟩
    obtain ⟨hplace, hdispatches⟩ := h l hp
    refine ⟨⟨rfl, rfl, ?_, ?_⟩, ?_⟩
    · intro hnone
      cases hnone
    · intro next hnext
      cases hnext
      exact hdispatches
    · intro next hnext
      cases hnext
      exact Nat.lt_of_succ_le (Nat.le_of_eq hplace)

include hsteps harms in
/-- Laying out a level makes steps that dispatch over its nodes, the first of them last. -/
theorem Trie.layLevel_spec {t : Trie} (hwf : t.WF) (limit : Nat) {depth : Nat}
    {ids : List NodePlace} (hshallow : t.Shallow depth ids) {l : Layout}
    (hp : (t.layLevel limit depth ids l).2.Within p.layout) :
    (t.layLevel limit depth ids l).1.toNat + 1 = (t.layLevel limit depth ids l).2.steps.size ∧
      p.Dispatches t limit ids (t.layLevel limit depth ids l).1 := by
  induction depth generalizing ids l with
  | zero =>
    -- a node has at least the empty path, so only an empty level is out of levels
    obtain rfl : ids = [] := hshallow.eq_nil
    have hnone : ∀ id ∈ (Bisection.run ([] : List NodePlace)).items,
        LaysArm p (t.levelArm limit 0) (p.ArmOf t limit) id := by simp [Bisection.items]
    obtain ⟨hplace, hcodes⟩ := Bisection.lay_spec hsteps harms hnone hp
    exact ⟨hplace, .of_codes ((bisect_nil _ limit).symm ▸ hcodes)⟩
  | succ depth ih =>
    have harm : ∀ id ∈ (bisect (fun id => (t.node id).key) limit ids).items,
        LaysArm p (t.levelArm limit depth) (p.ArmOf t limit) id := by
      intro id hid
      rw [items_bisect] at hid
      exact laysArm_levelArm fun l hp => ih (hshallow.children hwf hid) hp
    rw [layLevel_succ] at hp ⊢
    obtain ⟨hplace, hcodes⟩ := Bisection.lay_spec hsteps harms harm hp
    exact ⟨hplace, .of_codes hcodes⟩

end

namespace Trie

variable {t : Trie} {limit : Nat}

/-- The program of a trie dispatches over the children of the root, beginning with its last step. -/
theorem dispatches_compile (hwf : t.WF)
    (hdepth : ∀ path last, t.find? .root path = some last → path.length ≤ t.depth)
    (hsteps : (t.compile limit).steps.size ≤ UInt32.size)
    (harms : (t.compile limit).arms.size < UInt32.size) :
    (t.compile limit).entry.toNat + 1 = (t.compile limit).steps.size ∧
      (t.compile limit).Dispatches t limit t.root.children (t.compile limit).entry := by
  have hshallow : t.Shallow t.depth t.root.children :=
    (shallow_root hdepth).children hwf (List.mem_singleton_self _)
  exact layLevel_spec hsteps harms hwf limit hshallow (Layout.Within.refl _)

end Trie
end TypedRecords.Name
