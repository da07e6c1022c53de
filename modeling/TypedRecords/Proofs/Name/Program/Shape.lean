import TypedRecords.Proofs.Name.Program.Linking
import TypedRecords.Proofs.Name.Program.Walk

/-!
# Compiled programs are well formed

What must hold at every step of a program is `Program.Sound`: a scan has its arms inside the
program, in ascending order of keys, and a split separates the keys on its sides; both go back to
earlier steps only. Together with the accounts of references and ranges this is
`Program.WellFormed`, from which it follows that every walk ends with an answer before it has taken
as many moves as there are steps (`Program.WellFormed.run_answers`). Compiled tries are well formed,
with one arm for every node but the root (`compile_wellFormed`).
-/

namespace TypedRecords.Name

namespace Program

/-- A key for which a walk that is at `step` finds an arm without leaving the level: that of an arm
of a scan that splits lead to. -/
inductive Offers (p : Program) : StepPlace → UInt64 → Prop
  | scan {step : StepPlace} {first last : UInt32} {arms : List Arm} {arm : Arm} :
      p.steps[step.toNat]? = some (.scan first last) → p.armsIn? first last = some arms →
      arm ∈ arms → p.Offers step arm.key
  | lower {step : StepPlace} {pivot : UInt64} {lower upper : StepPlace} {k : UInt64} :
      p.steps[step.toNat]? = some (.split pivot lower upper) → p.Offers lower k → p.Offers step k
  | upper {step : StepPlace} {pivot : UInt64} {lower upper : StepPlace} {k : UInt64} :
      p.steps[step.toNat]? = some (.split pivot lower upper) → p.Offers upper k → p.Offers step k

/-- What must hold at the step `i`. -/
def Sound (p : Program) (i : Nat) : Prop :=
  match p.steps[i]? with
  | none => False
  | some (.scan first last) => ∃ arms, p.armsIn? first last = some arms ∧
    Ascending Arm.key arms ∧
    ∀ arm ∈ arms, arm.key ≠ 0 ∧ ∀ next, arm.next = some next → next.toNat < i
  | some (.split pivot lower upper) => lower.toNat < i ∧ upper.toNat < i ∧
    (∀ k, p.Offers lower k → k < pivot) ∧ ∀ k, p.Offers upper k → pivot ≤ k

/-- The last step is the entry, every other step is referred to exactly once, the scans cover the
arms one after the other, and every step is sound. -/
structure WellFormed (p : Program) : Prop where
  entry_last : p.entry.toNat + 1 = p.steps.size
  referenced : (p.layout.references.map StepPlace.toNat).Perm (List.range p.entry.toNat)
  tiled : Tiles p.layout.ranges 0 p.arms.size
  sound {i : Nat} : i < p.steps.size → p.Sound i

/-! ## Walks end -/

/-- A walk over sound steps goes back at every move, and ends with an answer. -/
theorem run_answers {p : Program} (hsound : ∀ i, i < p.steps.size → p.Sound i) {w : Walk}
    (hstep : w.step.toNat < p.steps.size) {limit : Nat} (hlimit : w.step.toNat < limit) :
    ∃ field, p.run limit w = .answer field := by
  induction limit generalizing w with
  | zero => exact absurd hlimit (Nat.not_lt_zero _)
  | succ limit ih =>
    have honward {w' : Walk} (hback : w'.step.toNat < w.step.toNat) :
        ∃ field, p.run limit w' = .answer field :=
      ih (Nat.lt_trans hback hstep) (by omega)
    have hw := hsound _ hstep
    unfold Sound at hw
    rw [run_succ]
    split at hw
    · exact hw.elim
    · next first last hscan =>
      obtain ⟨arms, hin, -, harms⟩ := hw
      rw [move_scan hscan hin]
      split
      · exact ⟨_, rfl⟩
      · next arm hfind =>
        have hmem := List.mem_of_find?_eq_some hfind
        unfold follow
        split
        · exact ⟨_, rfl⟩
        · split
          · exact ⟨_, rfl⟩
          · next next hnext =>
            split
            · exact ⟨_, rfl⟩
            · exact honward ((harms arm hmem).2 next hnext)
    · next pivot lower upper hsplit =>
      obtain ⟨hlower, hupper, -, -⟩ := hw
      rw [move_split hsplit]
      refine honward ?_
      dsimp only
      split
      · exact hlower
      · exact hupper

theorem WellFormed.run_begin {p : Program} (h : p.WellFormed) {name : String} {w : Walk}
    (hbegin : p.begin? name = some w) : ∃ field, p.run p.steps.size w = .answer field := by
  have hentry : w.step = p.entry := by
    unfold begin? at hbegin
    split at hbegin
    · cases hbegin
    · cases hbegin
      rfl
  have hlast : w.step.toNat < p.steps.size := by
    rw [hentry, ← h.entry_last]
    exact Nat.lt_succ_self _
  exact run_answers (fun _ => h.sound) hlast hlast

/-! ## Steps that decide between the items of a bisection -/

section

variable {α : Type} {p : Program} {R : α → Arm → Prop} {key : α → UInt64}
  (hkey : ∀ item arm, R item arm → arm.key = key item)

include hkey

theorem map_key_of_forall₂ {items : List α} {arms : List Arm} (h : List.Forall₂ R items arms) :
    arms.map Arm.key = items.map key := by
  induction h with
  | nil => rfl
  | cons hR _ ih => rw [List.map_cons, List.map_cons, hkey _ _ hR, ih]

/-- The keys offered are those of the items. -/
theorem Codes.exists_item {b : Bisection α} {step : StepPlace} (h : p.Codes R b step) {k : UInt64}
    (hk : p.Offers step k) : ∃ item ∈ b.items, key item = k := by
  induction b generalizing step with
  | run items =>
    obtain ⟨first, last, arms, hstep, hin, hRs, -⟩ := h
    cases hk with
    | @scan _ first' last' arms' arm hstep' hin' harm =>
      rw [hstep] at hstep'
      cases hstep'
      rw [hin] at hin'
      cases hin'
      have hmem : arm.key ∈ arms.map Arm.key := List.mem_map_of_mem harm
      rw [map_key_of_forall₂ hkey hRs] at hmem
      exact List.mem_map.1 hmem
    | lower hstep' _ =>
      rw [hstep] at hstep'
      cases hstep'
    | upper hstep' _ =>
      rw [hstep] at hstep'
      cases hstep'
  | cut pivot lower upper ihlower ihupper =>
    obtain ⟨lowerStep, upperStep, hstep, -, -, hlower, hupper⟩ := h
    rw [Bisection.items]
    cases hk with
    | scan hstep' _ _ =>
      rw [hstep] at hstep'
      cases hstep'
    | lower hstep' hk =>
      rw [hstep] at hstep'
      cases hstep'
      obtain ⟨item, hitem, hkey⟩ := ihlower hlower hk
      exact ⟨item, List.mem_append_left _ hitem, hkey⟩
    | upper hstep' hk =>
      rw [hstep] at hstep'
      cases hstep'
      obtain ⟨item, hitem, hkey⟩ := ihupper hupper hk
      exact ⟨item, List.mem_append_right _ hitem, hkey⟩

/-- The step for a sorted bisection is sound. -/
theorem Codes.sound {b : Bisection α} {step : StepPlace} (h : p.Codes R b step)
    (hsep : b.Separates key) (hasc : Ascending key b.items) (hne : ∀ item ∈ b.items, key item ≠ 0) :
    p.Sound step.toNat := by
  unfold Sound
  cases b with
  | run items =>
    obtain ⟨first, last, arms, hstep, hin, hRs, hback⟩ := h
    have hkeys := map_key_of_forall₂ hkey hRs
    rw [hstep]
    refine ⟨arms, hin, ?_, fun arm harm => ⟨?_, hback arm harm⟩⟩
    · have hsorted : (items.map key).Pairwise (· < ·) := List.pairwise_map.2 hasc
      rw [← hkeys] at hsorted
      exact List.pairwise_map.1 hsorted
    · have hmem : arm.key ∈ items.map key := hkeys ▸ List.mem_map_of_mem harm
      obtain ⟨item, hitem, heq⟩ := List.mem_map.1 hmem
      rw [← heq]
      exact hne item hitem
  | cut pivot lower upper =>
    obtain ⟨lowerStep, upperStep, hstep, hlower, hupper, hcodesLower, hcodesUpper⟩ := h
    obtain ⟨hbelow, habove, -, -⟩ := hsep
    rw [hstep]
    refine ⟨hlower, hupper, fun k hk => ?_, fun k hk => ?_⟩
    · obtain ⟨item, hitem, rfl⟩ := hcodesLower.exists_item hkey hk
      exact hbelow item hitem
    · obtain ⟨item, hitem, rfl⟩ := hcodesUpper.exists_item hkey hk
      exact habove item hitem

end

/-! ## Every step laid out is sound -/

/-- The steps that `l'` has beyond those of `l` are sound. -/
def SoundBetween (p : Program) (l l' : Layout) : Prop :=
  ∀ i, l.steps.size ≤ i → i < l'.steps.size → p.Sound i

theorem SoundBetween.refl (p : Program) (l : Layout) : p.SoundBetween l l := by
  intro i hle hlt
  omega

theorem SoundBetween.trans {p : Program} {l l' l'' : Layout} (h : p.SoundBetween l l')
    (h' : p.SoundBetween l' l'') : p.SoundBetween l l'' := by
  intro i hle hlt
  by_cases hi : i < l'.steps.size
  · exact h i hle hi
  · exact h' i (Nat.not_lt.1 hi) hlt

theorem SoundBetween.last {p : Program} {l l' : Layout} (hsize : l'.steps.size = l.steps.size + 1)
    (h : p.Sound l.steps.size) : p.SoundBetween l l' := by
  intro i hle hlt
  obtain rfl : i = l.steps.size := by omega
  exact h

end Program

section

variable {p : Program} (hsteps : p.steps.size ≤ UInt32.size) (harms : p.arms.size < UInt32.size)
  {α : Type} {arm : α → Layout → Arm × Layout} {R : α → Arm → Prop} {key : α → UInt64}
  (hkey : ∀ item arm, R item arm → arm.key = key item)

/-- Laying out the arm of an item lays out sound steps. -/
def SoundArm (p : Program) {α : Type} (arm : α → Layout → Arm × Layout) (item : α) : Prop :=
  ∀ l : Layout, (arm item l).2.Within p.layout → p.SoundBetween l (arm item l).2

theorem soundBetween_layArms {items : List α} (h : ∀ item ∈ items, LaysArm p arm R item)
    (hsound : ∀ item ∈ items, SoundArm p arm item) (l : Layout)
    (hp : (layArms arm items l).2.Within p.layout) :
    p.SoundBetween l (layArms arm items l).2 := by
  induction items generalizing l with
  | nil => exact .refl p l
  | cons item items ih =>
    have hothers : ∀ x ∈ items, LaysArm p arm R x := fun x hx => h x (List.mem_cons_of_mem _ hx)
    rw [layArms] at hp ⊢
    have hwithin := Layout.within_layArms (LaysArm.within hothers) (arm item l).2
    refine (hsound item List.mem_cons_self l (hwithin.trans hp)).trans ?_
    exact ih hothers (fun x hx => hsound x (List.mem_cons_of_mem _ hx)) _ hp

include hsteps harms hkey in
theorem Bisection.soundBetween_lay {b : Bisection α} (h : ∀ item ∈ b.items, LaysArm p arm R item)
    (hsound : ∀ item ∈ b.items, SoundArm p arm item) (hsep : b.Separates key)
    (hasc : Ascending key b.items) (hne : ∀ item ∈ b.items, key item ≠ 0) (l : Layout)
    (hp : (b.lay arm l).2.Within p.layout) : p.SoundBetween l (b.lay arm l).2 := by
  -- the last step stands for the whole bisection; those before it are due to its parts
  obtain ⟨hplace, hcodes⟩ := Bisection.lay_spec hsteps harms h hp
  have hlast := hcodes.sound hkey hsep hasc hne
  induction b generalizing l with
  | run items =>
    have hsize : ((Bisection.run items).lay arm l).2.steps.size =
        (layArms arm items l).2.steps.size + 1 := by
      simp [lay, Layout.pushScan, Layout.push]
    rw [hsize, Nat.add_right_cancel_iff] at hplace
    rw [hplace] at hlast
    refine Program.SoundBetween.trans ?_ (.last hsize hlast)
    exact soundBetween_layArms h hsound l ((Layout.within_pushScan _ _).trans hp)
  | cut pivot lower upper ihlower ihupper =>
    have hlower := fun x hx => h x (List.mem_append_left _ hx)
    have hupper := fun x hx => h x (List.mem_append_right _ hx)
    obtain ⟨-, -, hsepLower, hsepUpper⟩ := hsep
    obtain ⟨hascLower, hascUpper, -⟩ := List.pairwise_append.1 hasc
    have hsize : ((Bisection.cut pivot lower upper).lay arm l).2.steps.size =
        (upper.lay arm (lower.lay arm l).2).2.steps.size + 1 := by
      simp [lay, Layout.push]
    rw [hsize, Nat.add_right_cancel_iff] at hplace
    rw [hplace] at hlast
    refine Program.SoundBetween.trans ?_ (.last hsize hlast)
    have hpUpper : (upper.lay arm (lower.lay arm l).2).2.Within p.layout :=
      (Layout.within_push _ _).trans hp
    have hgrown := Layout.within_lay (LaysArm.within hupper) (lower.lay arm l).2
    have hpLower : (lower.lay arm l).2.Within p.layout := hgrown.trans hpUpper
    obtain ⟨hplaceLower, hcodesLower⟩ := Bisection.lay_spec hsteps harms hlower hpLower
    obtain ⟨hplaceUpper, hcodesUpper⟩ := Bisection.lay_spec hsteps harms hupper hpUpper
    have hneLower := fun x hx => hne x (List.mem_append_left _ hx)
    have hneUpper := fun x hx => hne x (List.mem_append_right _ hx)
    refine (ihlower hlower (fun x hx => hsound x (List.mem_append_left _ hx)) hsepLower hascLower
      hneLower l hpLower hplaceLower hcodesLower ?_).trans
      (ihupper hupper (fun x hx => hsound x (List.mem_append_right _ hx)) hsepUpper hascUpper
        hneUpper _ hpUpper hplaceUpper hcodesUpper ?_)
    · exact hcodesLower.sound hkey hsepLower hascLower hneLower
    · exact hcodesUpper.sound hkey hsepUpper hascUpper hneUpper

omit hkey in
include hsteps harms in
theorem Trie.soundBetween_layLevel {t : Trie} (hwf : t.WF) (limit : Nat) {depth : Nat}
    {ids : List NodePlace} (hshallow : t.Shallow depth ids)
    (hasc : Ascending (fun id => (t.node id).key) ids) (hne : ∀ id ∈ ids, (t.node id).key ≠ 0)
    (l : Layout) (hp : (t.layLevel limit depth ids l).2.Within p.layout) :
    p.SoundBetween l (t.layLevel limit depth ids l).2 := by
  have hkey : ∀ id arm, p.ArmOf t limit id arm → arm.key = (t.node id).key := fun _ _ h => h.key
  induction depth generalizing ids l with
  | zero =>
    obtain rfl : ids = [] := hshallow.eq_nil
    have hnone : (Bisection.run ([] : List NodePlace)).items = [] := rfl
    have harm : ∀ id ∈ (Bisection.run ([] : List NodePlace)).items,
        LaysArm p (t.levelArm limit 0) (p.ArmOf t limit) id := by simp [hnone]
    exact Bisection.soundBetween_lay hsteps harms hkey harm (by simp [hnone]) trivial .nil
      (by simp [hnone]) l hp
  | succ depth ih =>
    have hbelow {id : NodePlace} (hid : id ∈ ids) := hshallow.children hwf hid
    rw [layLevel_succ] at hp ⊢
    refine Bisection.soundBetween_lay (R := p.ArmOf t limit) hsteps harms hkey ?_ ?_
      (separates_bisect hasc) ?_ ?_ l hp
    · intro id hid
      rw [items_bisect] at hid
      exact laysArm_levelArm fun l hp => layLevel_spec hsteps harms hwf limit (hbelow hid) hp
    · intro id hid l hpArm
      rw [items_bisect] at hid
      unfold levelArm at hpArm ⊢
      split
      · exact .refl p l
      · next hinner =>
        rw [if_neg hinner] at hpArm
        exact ih (hbelow hid) (hwf.ascending id) (fun _ hchild => hwf.key_ne_zero hchild) l hpArm
    · rwa [items_bisect]
    · intro id hid
      rw [items_bisect] at hid
      exact hne id hid

end

/-! ## Compiled tries -/

theorem Layout.steps_size_eq (l : Layout) :
    l.steps.size = l.steps.toList.countP (·.range?.isSome) +
      l.steps.toList.countP (·.range?.isNone) := by
  rw [← Array.length_toList, List.length_eq_countP_add_countP (·.range?.isSome)]
  simp only [Bool.not_eq_true, Option.isSome_eq_false_iff, Bool.decide_eq_true]

/-- Splits refer to two steps, and arms to one or none. -/
theorem Layout.length_references (l : Layout) :
    l.references.length = 2 * l.steps.toList.countP (·.range?.isNone) +
      l.arms.toList.countP (·.next.isSome) := by
  have htargets (steps : List Step) :
      (steps.flatMap Step.targets).length = 2 * steps.countP (·.range?.isNone) := by
    induction steps with
    | nil => rfl
    | cons step steps ih =>
      rw [List.flatMap_cons, List.length_append, ih, List.countP_cons]
      cases step with
      | scan first last => simp [Step.targets, Step.range?]
      | split pivot lower upper =>
        simp only [Step.targets, Step.range?, List.length_cons, List.length_nil,
          Option.isNone_none, if_true]
        omega
  have hnexts (arms : List Arm) :
      (arms.filterMap Arm.next).length = arms.countP (·.next.isSome) := by
    rw [List.length_filterMap_eq_countP]
  rw [references, List.length_append, htargets, hnexts]

namespace Trie

/-- The number of nodes that have children; the root counts in any case. -/
def innerSize (t : Trie) : Nat := t.nodes.toList.tail.countP (!·.children.isEmpty) + 1

variable {t : Trie}

theorem referenced_compile {limit : Nat}
    (hentry : (t.compile limit).entry.toNat + 1 = (t.compile limit).steps.size) :
    ((t.compile limit).layout.references.map StepPlace.toNat).Perm
      (List.range (t.compile limit).entry.toNat) := by
  have hreferenced : ((t.compile limit).layout.references : Multiset StepPlace) +
      ({(t.compile limit).entry} + 0) =
        (Multiset.range (t.compile limit).steps.size).map StepPlace.ofNat :=
    (t.linked_layLevel limit t.depth t.root.children .empty).referenced
  rw [add_zero, ← hentry, Multiset.range_succ, Multiset.map_cons, StepPlace.ofNat_toNat,
    ← Multiset.singleton_add, add_comm, add_right_inj] at hreferenced
  have hplaces : (Multiset.range (t.compile limit).entry.toNat).map
      (StepPlace.toNat ∘ StepPlace.ofNat) = Multiset.range (t.compile limit).entry.toNat := by
    refine (Multiset.map_congr rfl fun i hi => ?_).trans (Multiset.map_id _)
    have hlt := (t.compile limit).entry.raw.toNat_lt_size
    exact StepPlace.toNat_ofNat (Nat.lt_trans (Multiset.mem_range.1 hi) hlt)
  rw [← Multiset.coe_eq_coe, ← Multiset.map_coe, hreferenced, Multiset.map_map, hplaces]
  rfl

theorem Represents.wellFormed_compile {entries : List (String × Position)} {limit : Nat}
    (h : t.Represents entries) (hsteps : (t.compile limit).steps.size ≤ UInt32.size)
    (harms : (t.compile limit).arms.size < UInt32.size) : (t.compile limit).WellFormed := by
  have hdepth : ∀ path last, t.find? .root path = some last → path.length ≤ t.depth :=
    fun _ _ hfind => h.length_le_depth hfind
  obtain ⟨hentry, -⟩ := dispatches_compile h.wf hdepth hsteps harms
  have hshallow : t.Shallow t.depth t.root.children :=
    (shallow_root hdepth).children h.wf (List.mem_singleton_self _)
  have hsound := soundBetween_layLevel hsteps harms h.wf limit hshallow (h.wf.ascending .root)
    (fun _ hchild => h.wf.key_ne_zero hchild) .empty (Layout.Within.refl _)
  exact ⟨hentry, referenced_compile hentry,
    (t.linked_layLevel limit t.depth t.root.children .empty).tiled harms,
    fun hi => hsound _ (Nat.zero_le _) hi⟩

/-- Every node but the root has an arm. -/
theorem Represents.arms_size_compile {entries : List (String × Position)}
    (h : t.Represents entries) (hsize : t.size ≤ UInt32.size) (limit : Nat) :
    (t.compile limit).arms.size + 1 = t.size := by
  have hdepth : ∀ path last, t.find? .root path = some last → path.length ≤ t.depth :=
    fun _ _ hfind => h.length_le_depth hfind
  have hlength := (outlines_compile h.wf hdepth hsize limit).length_eq
  have hpos := h.wf.size_pos
  unfold size at hpos ⊢
  simp only [List.length_map, List.length_tail, Array.length_toList] at hlength
  omega

/-- The arms that go on to a step are those of nodes with children. -/
theorem Represents.countP_next_compile {entries : List (String × Position)}
    (h : t.Represents entries) (hsize : t.size ≤ UInt32.size) (limit : Nat) :
    (t.compile limit).arms.toList.countP (·.next.isSome) + 1 = t.innerSize := by
  have hdepth : ∀ path last, t.find? .root path = some last → path.length ≤ t.depth :=
    fun _ _ hfind => h.length_le_depth hfind
  have hcount := (outlines_compile h.wf hdepth hsize limit).countP_eq (·.2.2)
  rw [List.countP_map, List.countP_map] at hcount
  exact congrArg (· + 1) hcount

/-- There is one scan for every split and one more for every node with children. -/
theorem Represents.countP_scan_compile {entries : List (String × Position)} {limit : Nat}
    (h : t.Represents entries) (hsize : t.size ≤ UInt32.size)
    (hwell : (t.compile limit).WellFormed) :
    (t.compile limit).steps.toList.countP (·.range?.isSome) =
      (t.compile limit).steps.toList.countP (·.range?.isNone) + t.innerSize := by
  -- the references are counted once from where they stand and once from what they refer to
  have hreferences : (t.compile limit).layout.references.length + 1 =
      (t.compile limit).steps.size := by
    rw [← hwell.entry_last, Nat.add_right_cancel_iff]
    simpa using hwell.referenced.length_eq
  have hnexts := h.countP_next_compile hsize limit
  have hkinds := (t.compile limit).layout.steps_size_eq
  rw [Layout.length_references] at hreferences
  dsimp only [Program.layout] at hreferences hkinds
  omega

/-- Whatever names were inserted with whatever outcome, and wherever runs are cut, the program is
well formed, has an arm for every node but the root and a scan for every split and every node with
children, and every walk on it ends with an answer within as many moves as there are steps. -/
theorem compile_wellFormed (calls : List (String × Position)) (limit : Nat)
    (hsize : (ofCalls calls).size ≤ UInt32.size)
    (hsteps : ((ofCalls calls).compile limit).steps.size ≤ UInt32.size) :
    ((ofCalls calls).compile limit).WellFormed ∧
    ((ofCalls calls).compile limit).arms.size + 1 = (ofCalls calls).size ∧
    ((ofCalls calls).compile limit).steps.toList.countP (·.range?.isSome) =
      ((ofCalls calls).compile limit).steps.toList.countP (·.range?.isNone) +
        (ofCalls calls).innerSize ∧
    ∀ s w, ((ofCalls calls).compile limit).begin? s = some w →
      ∃ field, ((ofCalls calls).compile limit).run ((ofCalls calls).compile limit).steps.size w =
        .answer field := by
  have h := represents_ofCalls calls hsize
  have harms := h.arms_size_compile hsize limit
  have hwell := h.wellFormed_compile hsteps (by omega)
  exact ⟨hwell, harms, h.countP_scan_compile hsize hwell, fun _ _ => hwell.run_begin⟩

/-- Two levels, the upper one cut once. -/
theorem steps_compile_cut_level :
    (ofCalls [("Identity", ⟨0⟩), ("Identity2", ⟨1⟩), ("b", ⟨2⟩)]).size ≤ UInt32.size ∧
      ((ofCalls [("Identity", ⟨0⟩), ("Identity2", ⟨1⟩), ("b", ⟨2⟩)]).compile 2).steps.size = 4 ∧
      ((ofCalls [("Identity", ⟨0⟩), ("Identity2", ⟨1⟩), ("b", ⟨2⟩)]).compile
        2).steps.toList.countP (·.range?.isSome) = 3 :=
  have hsize : (ofCalls [("Identity", ⟨0⟩), ("Identity2", ⟨1⟩), ("b", ⟨2⟩)]).size ≤
      UInt32.size := by decide +kernel
  have hcompile := compile_wellFormed [("Identity", ⟨0⟩), ("Identity2", ⟨1⟩), ("b", ⟨2⟩)] 2 hsize
    (by decide +kernel)
  ⟨hsize, by decide +kernel, hcompile.2.2.1.trans (by decide +kernel)⟩

end Trie
end TypedRecords.Name
