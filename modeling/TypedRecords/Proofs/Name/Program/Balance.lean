import TypedRecords.Proofs.Name.Bisection.Balance
import TypedRecords.Proofs.Name.Program.Shape

/-!
# The dispatch over a node is balanced

What splits lead to from a step, down to the scans, is a bisection of arms (`Program.Unfolds`), and
the arms that bear the chunks of a path lead from the entry to one step at most (`Program.Leads`).
In the program of a trie the path of every node with children leads to a step, which unfolds to a
bisection of the arms for the children in the order of their keys, with a number of splits on every
way that is logarithmic in the number of children (`Trie.compile_balanced`).
-/

namespace TypedRecords.Name

namespace Program

/-- Splits lead from a step to the parts of a bisection, which are the arms of scans. -/
inductive Unfolds (p : Program) : StepPlace → Bisection Arm → Prop
  | scan {step : StepPlace} {first last : UInt32} {arms : List Arm} :
      p.steps[step.toNat]? = some (.scan first last) → p.armsIn? first last = some arms →
        p.Unfolds step (.run arms)
  | split {step lower upper : StepPlace} {pivot : UInt64} {below above : Bisection Arm} :
      p.steps[step.toNat]? = some (.split pivot lower upper) → p.Unfolds lower below →
        p.Unfolds upper above → p.Unfolds step (.cut pivot below above)

/-- Going on behind the arms that bear the chunks of a path leads from one step to another. -/
def Leads (p : Program) : List UInt64 → StepPlace → StepPlace → Prop
  | [], start, step => step = start
  | k :: path, start, step => ∃ b arm next, p.Unfolds start b ∧ arm ∈ b.items ∧ arm.key = k ∧
    arm.next = some next ∧ p.Leads path next step

variable {p : Program}

theorem Unfolds.unique {step : StepPlace} {b b' : Bisection Arm} (h : p.Unfolds step b)
    (h' : p.Unfolds step b') : b' = b := by
  induction h generalizing b' with
  | scan hstep hin =>
    cases h' with
    | scan hstep' hin' =>
      rw [hstep] at hstep'
      cases hstep'
      rw [hin] at hin'
      cases hin'
      rfl
    | split hstep' _ _ =>
      rw [hstep] at hstep'
      cases hstep'
  | split hstep _ _ ihlower ihupper =>
    cases h' with
    | scan hstep' _ =>
      rw [hstep] at hstep'
      cases hstep'
    | split hstep' hlower hupper =>
      rw [hstep] at hstep'
      cases hstep'
      rw [ihlower hlower, ihupper hupper]

/-- Steps for a bisection of items unfold to the same bisection of their arms. -/
theorem Codes.exists_unfolds {α : Type} {R : α → Arm → Prop} {b : Bisection α} {step : StepPlace}
    (h : p.Codes R b step) : ∃ b', p.Unfolds step b' ∧ b'.height = b.height ∧
      List.Forall₂ (List.Forall₂ R) b.runs b'.runs := by
  induction b generalizing step with
  | run items =>
    obtain ⟨first, last, arms, hstep, hin, hRs, -⟩ := h
    exact ⟨.run arms, .scan hstep hin, rfl, .cons hRs .nil⟩
  | cut pivot lower upper ihlower ihupper =>
    obtain ⟨lowerStep, upperStep, hstep, -, -, hlower, hupper⟩ := h
    obtain ⟨below, hbelow, hheight, hruns⟩ := ihlower hlower
    obtain ⟨above, habove, hheight', hruns'⟩ := ihupper hupper
    refine ⟨.cut pivot below above, .split hstep hbelow habove, ?_, List.rel_append hruns hruns'⟩
    rw [Bisection.height, Bisection.height, hheight, hheight']

variable {t : Trie} {limit : Nat}

/-- Steps that dispatch over nodes unfold to a balanced bisection of the arms for these nodes. -/
theorem Dispatches.exists_unfolds {ids : List NodePlace} {step : StepPlace}
    (h : p.Dispatches t limit ids step) : ∃ b, p.Unfolds step b ∧ b.Balanced limit ∧
      List.Forall₂ (p.ArmOf t limit) ids b.items := by
  cases h with
  | intro R codes key field leaf inner =>
    obtain ⟨b, hunfolds, hheight, hruns⟩ := codes.exists_unfolds
    refine ⟨b, hunfolds, (balanced_bisect _ limit ids).of_forall₂ hheight hruns, ?_⟩
    have hitems := List.rel_flatten hruns
    rw [Bisection.flatten_runs, Bisection.flatten_runs, items_bisect] at hitems
    exact hitems.imp fun id arm harm =>
      ⟨key id arm harm, field id arm harm, leaf id arm harm, inner id arm _ harm⟩

/-- The arms for nodes bear the keys and fields of these nodes, in order. -/
theorem map_key_field_of_forall₂ {ids : List NodePlace} {arms : List Arm}
    (h : List.Forall₂ (p.ArmOf t limit) ids arms) :
    arms.map (fun arm => (arm.key, arm.field)) =
      ids.map fun id => ((t.node id).key, (t.node id).field) := by
  induction h with
  | nil => rfl
  | cons harm _ ih => rw [List.map_cons, List.map_cons, ih, harm.key, harm.field]

/-- The arms for the children of a node ascend by key. -/
theorem ascending_arms (hwf : t.WF) {id : NodePlace} {arms : List Arm}
    (h : List.Forall₂ (p.ArmOf t limit) (t.node id).children arms) : Ascending Arm.key arms := by
  have hkeys := congrArg (List.map Prod.fst) (map_key_field_of_forall₂ h)
  simp only [List.map_map, Function.comp_def] at hkeys
  have hsorted := List.pairwise_map.2 (hwf.ascending id)
  rw [← hkeys] at hsorted
  exact List.pairwise_map.1 hsorted

/-- From the dispatch over a node, a path leads to the dispatch over the node at its end. -/
theorem Dispatches.exists_leads (hwf : t.WF) {path : List UInt64} {id last : NodePlace}
    {start : StepPlace} (h : p.Dispatches t limit (t.node id).children start)
    (hpath : t.find? id path = some last) (hinner : (t.node last).children ≠ []) :
    ∃ step, (∀ step', p.Leads path start step' ↔ step' = step) ∧
      p.Dispatches t limit (t.node last).children step := by
  induction path generalizing id start with
  | nil =>
    obtain rfl : id = last := Option.some.inj hpath
    exact ⟨start, fun _ => Iff.rfl, h⟩
  | cons k path ih =>
    rw [Trie.find?_cons] at hpath
    obtain ⟨child, hchild, hrest⟩ := Option.bind_eq_some_iff.1 hpath
    obtain ⟨b, hunfolds, -, harms⟩ := h.exists_unfolds
    -- the scan that holds the child's arm is the only one with an arm of this key
    have hfound := find?_arms harms (fun _ _ harm => harm.key) k
    rw [show (t.node id).children.find? (fun id => (t.node id).key == k) = some child from hchild]
      at hfound
    obtain ⟨arm, hmem, hfind, harm⟩ := hfound
    have honly {arm' : Arm} (hmem' : arm' ∈ b.items) (hkey : arm'.key = k) : arm' = arm := by
      have hfind' := (find?_eq_some_iff_of_ascending (ascending_arms hwf harms)).2 ⟨hmem', hkey⟩
      exact Option.some.inj (hfind'.symm.trans hfind)
    have hchildren : (t.node child).children ≠ [] := by
      intro hleaf
      cases path with
      | nil =>
        obtain rfl : child = last := Option.some.inj hrest
        exact hinner hleaf
      | cons k' path => simp [Trie.find?_cons, Trie.child?, hleaf] at hrest
    cases hnext : arm.next with
    | none => exact absurd (harm.leaf hnext) hchildren
    | some next =>
      obtain ⟨step, hstep, hdispatches⟩ := ih (harm.inner hnext) hrest
      refine ⟨step, fun step' => ⟨?_, fun heq => ?_⟩, hdispatches⟩
      · rintro ⟨b', arm', next', hunfolds', hmem', hkey, hnext', hleads⟩
        obtain rfl := hunfolds.unique hunfolds'
        obtain rfl := honly hmem' hkey
        obtain rfl := Option.some.inj (hnext.symm.trans hnext')
        exact (hstep step').1 hleads
      · have hkey : arm.key = k := harm.key.trans (hwf.child?_eq_some_iff.1 hchild).2
        exact ⟨b, arm, next, hunfolds, hmem, hkey, hnext, (hstep step').2 heq⟩

end Program

namespace Trie

/-- Whatever names were inserted with whatever outcome, and wherever runs are cut, the path of a
node with children leads through the program to exactly one step. Splits lead from there to a
balanced bisection of arms, which are those of the node's children in ascending order of keys. -/
theorem compile_balanced (calls : List (String × Position)) (limit : Nat)
    (hsize : (ofCalls calls).size ≤ UInt32.size)
    (hsteps : ((ofCalls calls).compile limit).steps.size ≤ UInt32.size)
    {id : NodePlace} (hid : id.toNat < (ofCalls calls).size)
    (hinner : ((ofCalls calls).node id).children ≠ []) :
    ∃ path step b, (ofCalls calls).find? .root path = some id ∧
      (∀ step', ((ofCalls calls).compile limit).Leads path ((ofCalls calls).compile limit).entry
        step' ↔ step' = step) ∧
      ((ofCalls calls).compile limit).Unfolds step b ∧ b.Balanced limit ∧
      b.items.map (fun arm => (arm.key, arm.field)) =
        ((ofCalls calls).node id).children.map
          (fun child => (((ofCalls calls).node child).key, ((ofCalls calls).node child).field)) ∧
      Ascending Arm.key b.items := by
  have h := represents_ofCalls calls hsize
  have harms := h.arms_size_compile hsize limit
  obtain ⟨path, hpath⟩ := h.wf.exists_path hid
  obtain ⟨-, hentry⟩ :=
    dispatches_compile h.wf (fun _ _ hfind => h.length_le_depth hfind) hsteps (by omega)
  obtain ⟨step, hleads, hdispatches⟩ := hentry.exists_leads h.wf hpath hinner
  obtain ⟨b, hunfolds, hbalanced, hitems⟩ := hdispatches.exists_unfolds
  exact ⟨path, step, b, hpath, hleads, hunfolds, hbalanced,
    Program.map_key_field_of_forall₂ hitems, Program.ascending_arms h.wf hitems⟩

/-- Three names that continue another one, cut down to single arms. -/
theorem compile_balanced_finest_cuts :
    (ofCalls [("Identity", ⟨0⟩), ("Identity3", ⟨1⟩), ("Identity1", ⟨2⟩),
        ("Identity2", ⟨3⟩)]).size ≤ UInt32.size ∧
      ∃ path step b, (ofCalls [("Identity", ⟨0⟩), ("Identity3", ⟨1⟩), ("Identity1", ⟨2⟩),
          ("Identity2", ⟨3⟩)]).find? .root path = some ⟨1⟩ ∧
        ((ofCalls [("Identity", ⟨0⟩), ("Identity3", ⟨1⟩), ("Identity1", ⟨2⟩),
          ("Identity2", ⟨3⟩)]).compile 0).Unfolds step b ∧
        b.items.map Arm.field = [some ⟨2⟩, some ⟨3⟩, some ⟨1⟩] ∧ b.height ≤ 2 ∧
        ∀ part ∈ b.runs, part.length = 1 := by
  have hsize : (ofCalls [("Identity", ⟨0⟩), ("Identity3", ⟨1⟩), ("Identity1", ⟨2⟩),
      ("Identity2", ⟨3⟩)]).size ≤ UInt32.size := by decide +kernel
  have hid : (⟨1⟩ : NodePlace).toNat < (ofCalls [("Identity", ⟨0⟩), ("Identity3", ⟨1⟩),
      ("Identity1", ⟨2⟩), ("Identity2", ⟨3⟩)]).size := by decide +kernel
  obtain ⟨path, step, b, hpath, -, hunfolds, hbalanced, hitems, -⟩ :=
    compile_balanced _ 0 hsize (by decide +kernel) hid (by decide +kernel)
  have hfields : b.items.map Arm.field = [some ⟨2⟩, some ⟨3⟩, some ⟨1⟩] := by
    have hfields := congrArg (List.map Prod.snd) hitems
    simp only [List.map_map, Function.comp_def] at hfields
    exact hfields.trans (by decide +kernel)
  have hlength : b.items.length = 3 := by simpa using congrArg List.length hfields
  refine ⟨hsize, path, step, b, hpath, hunfolds, hfields, ?_, fun part hpart => ?_⟩
  · have hheight := hbalanced.height_le
    rw [hlength] at hheight
    exact hheight.trans (by decide)
  · have hle := hbalanced.length_le hpart
    have hge := hbalanced.le_length (by omega) hpart
    omega

end Trie
end TypedRecords.Name
