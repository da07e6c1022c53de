import TypedRecords.Proofs.Name.Program.Layout
import TypedRecords.Proofs.Name.Trie.Insertion

/-!
# Walking a program is walking the trie

A walk over steps that dispatch over sibling nodes answers with the field that the trie has for the
rest of the text below these nodes (`run_of_dispatches`). Every step leads to earlier ones only, so
as many moves as the first step's place tells suffice. The program of a trie therefore resolves
every text to the field that the trie itself has for it (`Represents.run_compile`).
-/

namespace TypedRecords.Name

/-! ## Steps for bisected runs -/

namespace Program

/-- How a walk ends after a move that leaves it `limit` further ones. -/
def after (p : Program) (limit : Nat) : Move → Outcome
  | .onward w => p.run limit w
  | .answer field => .answer field
  | .astray => .astray

variable {p : Program}

theorem run_succ (limit : Nat) (w : Walk) : p.run (limit + 1) w = p.after limit (p.move w) := by
  rw [run]
  cases p.move w <;> rfl

theorem move_split {w : Walk} {pivot : UInt64} {lower upper : StepPlace}
    (h : p.steps[w.step.toNat]? = some (.split pivot lower upper)) :
    p.move w = .onward { w with step := if w.chunk < pivot then lower else upper } := by
  rw [move, h]

theorem move_scan {w : Walk} {first last : UInt32} {arms : List Arm}
    (h : p.steps[w.step.toNat]? = some (.scan first last))
    (harms : p.armsIn? first last = some arms) :
    p.move w = match arms.find? (·.key == w.chunk) with
      | none => .answer none
      | some arm => follow arm w.reader := by
  rw [move, h]
  cases hfind : arms.find? (·.key == w.chunk) <;> simp only [harms, hfind]

end Program

section

variable {α : Type} {p : Program} {key : α → UInt64} {R : α → Arm → Prop}

/-- A scan meets the arm of the item that is searched for. -/
theorem find?_arms {items : List α} {arms : List Arm} (h : List.Forall₂ R items arms)
    (hkey : ∀ item arm, R item arm → arm.key = key item) (k : UInt64) :
    match items.find? (key · == k) with
    | none => arms.find? (·.key == k) = none
    | some item => ∃ arm ∈ arms, arms.find? (·.key == k) = some arm ∧ R item arm := by
  induction h with
  | nil => rfl
  | @cons item arm items arms hR _ ih =>
    rw [List.find?_cons, List.find?_cons, hkey item arm hR]
    cases hk : key item == k with
    | true => exact ⟨arm, List.mem_cons_self, rfl, hR⟩
    | false =>
      cases hfind : items.find? (key · == k) with
      | none =>
        rw [hfind] at ih
        exact ih
      | some found =>
        rw [hfind] at ih
        obtain ⟨arm', hmem, hfound, hR'⟩ := ih
        exact ⟨arm', List.mem_cons_of_mem _ hmem, hfound, hR'⟩

/-- How walks on the chunk `k` end from `step` on when the search for the chunk gives `found`:
without a field if it is nothing, and else as an arm of the item found says, with moves left for
whatever lies behind this arm. -/
def Program.Finds (p : Program) (R : α → Arm → Prop) (step : StepPlace) (k : UInt64) :
    Option α → Prop
  | none => ∀ r n, step.toNat < n → p.run n ⟨step, k, r⟩ = .answer none
  | some item => ∃ arm, R item arm ∧ ∀ r n, step.toNat < n → ∃ m,
    (∀ next, arm.next = some next → next.toNat < m) ∧
      p.run n ⟨step, k, r⟩ = p.after m (Program.follow arm r)

theorem Program.Finds.of_onward {step side : StepPlace} {k : UInt64} {found : Option α}
    (h : p.Finds R side k found) (hback : side.toNat < step.toNat)
    (hmove : ∀ r, p.move ⟨step, k, r⟩ = .onward ⟨side, k, r⟩) : p.Finds R step k found := by
  have hrun (r : Reader) (n : Nat) (hn : step.toNat < n) :
      ∃ m, side.toNat < m ∧ p.run n ⟨step, k, r⟩ = p.run m ⟨side, k, r⟩ := by
    obtain ⟨m, rfl⟩ := Nat.exists_eq_add_one_of_ne_zero (Nat.ne_zero_of_lt hn)
    exact ⟨m, by omega, by rw [run_succ, hmove]; rfl⟩
  cases found with
  | none =>
    intro r n hn
    obtain ⟨m, hm, heq⟩ := hrun r n hn
    exact heq.trans (h r m hm)
  | some item =>
    obtain ⟨arm, hR, hend⟩ := h
    refine ⟨arm, hR, fun r n hn => ?_⟩
    obtain ⟨m, hm, heq⟩ := hrun r n hn
    obtain ⟨left, hleft, heq'⟩ := hend r m hm
    exact ⟨left, hleft, heq.trans heq'⟩

theorem Program.finds_of_codes (hkey : ∀ item arm, R item arm → arm.key = key item)
    {b : Bisection α} (hsep : b.Separates key) {step : StepPlace} (hcodes : p.Codes R b step)
    (k : UInt64) : p.Finds R step k (b.items.find? (key · == k)) := by
  induction b generalizing step with
  | run items =>
    obtain ⟨first, last, arms, hstep, hin, hRs, hback⟩ := hcodes
    have hmove (r : Reader) := p.move_scan (w := ⟨step, k, r⟩) hstep hin
    have hscan := find?_arms hRs hkey k
    rw [Bisection.items]
    cases hfind : items.find? (key · == k) with
    | none =>
      rw [hfind] at hscan
      intro r n hn
      obtain ⟨m, rfl⟩ := Nat.exists_eq_add_one_of_ne_zero (Nat.ne_zero_of_lt hn)
      rw [run_succ, hmove, hscan]
      rfl
    | some item =>
      rw [hfind] at hscan
      obtain ⟨arm, hmem, hfound, hR⟩ := hscan
      refine ⟨arm, hR, fun r n hn => ?_⟩
      obtain ⟨m, rfl⟩ := Nat.exists_eq_add_one_of_ne_zero (Nat.ne_zero_of_lt hn)
      refine ⟨m, fun next hnext => ?_, by rw [run_succ, hmove, hfound]⟩
      have := hback arm hmem next hnext
      omega
  | cut pivot lower upper ihlower ihupper =>
    rw [Bisection.find?_cut hsep]
    obtain ⟨lowerStep, upperStep, hstep, hlower, hupper, hcodesLower, hcodesUpper⟩ := hcodes
    obtain ⟨-, -, hsepLower, hsepUpper⟩ := hsep
    have hmove (r : Reader) := p.move_split (w := ⟨step, k, r⟩) hstep
    split
    · next hk =>
      simp only [if_pos hk] at hmove
      exact (ihlower hsepLower hcodesLower).of_onward hlower hmove
    · next hk =>
      simp only [if_neg hk] at hmove
      exact (ihupper hsepUpper hcodesUpper).of_onward hupper hmove

end

/-! ## Steps for nodes -/

/-- The field of the name that goes on below a node with the text at a reader. -/
def Trie.fieldBelow (t : Trie) (id : NodePlace) (r : Reader) : Option Position :=
  match r.remaining with
  | .error _ => none
  | .ok path => (t.find? id path).bind fun last => (t.node last).field

section

variable {p : Program} {t : Trie} {id : NodePlace} {r : Reader}

theorem Trie.fieldBelow_of_rest_eq_nil (h : r.rest = []) :
    t.fieldBelow id r = (t.node id).field := by
  rw [fieldBelow, Reader.remaining_of_rest_eq_nil h]
  rfl

theorem Trie.fieldBelow_of_next_error {bad : BadChar} (hnext : r.next = .error bad) :
    t.fieldBelow id r = none := by
  have hrest : r.rest ≠ [] := by
    intro hnil
    rw [Reader.next_of_rest_eq_nil hnil] at hnext
    cases hnext
  rw [fieldBelow, Reader.remaining_of_rest_ne_nil hrest, hnext]

theorem Trie.fieldBelow_of_next {k : UInt64} {r' : Reader} (h : r.rest ≠ [])
    (hnext : r.next = .ok (k, r')) :
    t.fieldBelow id r = (t.child? id k).bind (t.fieldBelow · r') := by
  rw [fieldBelow, Reader.remaining_of_rest_ne_nil h, hnext]
  cases hrest : r'.remaining with
  | error bad => simp [fieldBelow, hrest]
  | ok path => simp [fieldBelow, hrest, find?_cons, Option.bind_assoc]

/-- Behind a node that the text does not end at, the chunk after it decides. At the end of the
text this chunk is zero, and no node has it as its key. -/
theorem Trie.WF.fieldBelow_of_not_ended (hwf : t.WF) {k : UInt64} {r' : Reader}
    (hnot : ¬((t.node id).field.isSome = true ∧ r.rest = [])) (hnext : r.next = .ok (k, r')) :
    t.fieldBelow id r = (t.child? id k).bind (t.fieldBelow · r') := by
  by_cases hrest : r.rest = []
  · have hfield : (t.node id).field = none := by
      rw [← Option.not_isSome_iff_eq_none]
      exact fun hsome => hnot ⟨hsome, hrest⟩
    have hchild : t.child? id k = none := by
      rw [Reader.next_of_rest_eq_nil hrest] at hnext
      obtain ⟨rfl, -⟩ := Prod.mk.inj (Except.ok.inj hnext)
      exact find?_key_eq_none_iff.2 fun child hchild => hwf.key_ne_zero hchild
    rw [fieldBelow_of_rest_eq_nil hrest, hfield, hchild, Option.bind_none]
  · exact fieldBelow_of_next hrest hnext

/-- Walks over steps that dispatch over sibling nodes answer as the trie does below these nodes. -/
theorem Program.Dispatches.run_eq (hwf : t.WF) {limit : Nat} {ids : List NodePlace}
    {step : StepPlace} (h : p.Dispatches t limit ids step)
    (hasc : Ascending (fun id => (t.node id).key) ids) (k : UInt64) (r : Reader) {n : Nat}
    (hn : step.toNat < n) :
    p.run n ⟨step, k, r⟩ =
      .answer ((ids.find? fun id => (t.node id).key == k).bind (t.fieldBelow · r)) := by
  -- one level of the trie at a time; every arm leads back in the program, so the moves suffice
  induction h generalizing k r n with
  | @intro ids step R codes key field leaf inner ih =>
    have hfinds := finds_of_codes key (separates_bisect hasc) codes k
    rw [items_bisect] at hfinds
    cases hfind : ids.find? fun id => (t.node id).key == k with
    | none =>
      rw [hfind] at hfinds
      exact hfinds r n hn
    | some id =>
      rw [hfind] at hfinds
      obtain ⟨arm, hR, hend⟩ := hfinds
      obtain ⟨m, hback, heq⟩ := hend r n hn
      rw [heq, Option.bind_some, follow, field id arm hR]
      split
      · next hended =>
        simp only [Bool.and_eq_true, List.isEmpty_iff] at hended
        rw [Trie.fieldBelow_of_rest_eq_nil hended.2]
        rfl
      · next hnot =>
        simp only [Bool.and_eq_true, List.isEmpty_iff] at hnot
        cases hnext : r.next with
        | error bad =>
          rw [Trie.fieldBelow_of_next_error hnext]
          cases arm.next <;> rfl
        | ok read =>
          obtain ⟨k', r'⟩ := read
          rw [hwf.fieldBelow_of_not_ended hnot hnext]
          cases harm : arm.next with
          | none =>
            have hchild : t.child? id k' = none := by
              rw [Trie.child?, leaf id arm hR harm]
              rfl
            rw [hchild]
            rfl
          | some next =>
            exact ih id arm next hR harm (hwf.ascending id) k' r' (hback next harm)

end

/-! ## Compiled tries -/

namespace Trie

theorem get?_eq_fieldBelow (t : Trie) (s : String) :
    t.get? s = t.fieldBelow .root (.ofString s) := rfl

namespace Represents

variable {t : Trie} {entries : List (String × Position)} {limit : Nat}

section

variable (h : t.Represents entries) (hsteps : (t.compile limit).steps.size ≤ UInt32.size)
  (harms : (t.compile limit).arms.size < UInt32.size)

include h hsteps harms

/-- A walk that begins answers with the field that the trie has for the name. -/
theorem run_compile {s : String} {w : Walk} (hbegin : (t.compile limit).begin? s = some w) :
    (t.compile limit).run (t.compile limit).steps.size w = .answer (t.get? s) := by
  obtain ⟨hentry, hdispatches⟩ :=
    dispatches_compile h.wf (fun _ _ hfind => h.length_le_depth hfind) hsteps harms
  unfold Program.begin? at hbegin
  cases hnext : (Reader.ofString s).next with
  | error bad => simp [hnext] at hbegin
  | ok read =>
    obtain ⟨k, r⟩ := read
    simp only [hnext, Option.some.injEq] at hbegin
    subst hbegin
    have hnot : ¬((t.node .root).field.isSome = true ∧ (Reader.ofString s).rest = []) := by
      have hroot : (t.node .root).field = none := h.root_field
      simp [hroot]
    rw [hdispatches.run_eq h.wf (h.wf.ascending .root) k r (by omega), get?_eq_fieldBelow,
      h.wf.fieldBelow_of_not_ended hnot hnext]
    rfl

theorem resolve_compile (s : String) : (t.compile limit).resolve s = t.get? s := by
  rw [Program.resolve]
  cases hbegin : (t.compile limit).begin? s with
  | some w => simp [h.run_compile hsteps harms hbegin]
  | none =>
    unfold Program.begin? at hbegin
    cases hnext : (Reader.ofString s).next with
    | ok read => simp [hnext] at hbegin
    | error bad =>
      rw [get?_eq_fieldBelow, fieldBelow_of_next_error hnext]
      rfl

end
end Represents

/-- Compiling preserves what a trie answers, whatever names were inserted with whatever outcome and
wherever runs are cut: no walk leaves the program or runs out of moves, and every text resolves to
the field that the trie has for it. -/
theorem compile_preserves_get? (calls : List (String × Position)) (limit : Nat)
    (hsize : (ofCalls calls).size ≤ UInt32.size)
    (hsteps : ((ofCalls calls).compile limit).steps.size ≤ UInt32.size)
    (harms : ((ofCalls calls).compile limit).arms.size < UInt32.size) :
    (∀ s, ((ofCalls calls).compile limit).resolve s = (ofCalls calls).get? s) ∧
    (∀ s w, ((ofCalls calls).compile limit).begin? s = some w →
      ((ofCalls calls).compile limit).run ((ofCalls calls).compile limit).steps.size w =
        .answer ((ofCalls calls).get? s)) ∧
    ∀ limit', ((ofCalls calls).compile limit').steps.size ≤ UInt32.size →
      ((ofCalls calls).compile limit').arms.size < UInt32.size →
      ∀ s, ((ofCalls calls).compile limit').resolve s =
        ((ofCalls calls).compile limit).resolve s := by
  have h := represents_ofCalls calls hsize
  refine ⟨h.resolve_compile hsteps harms, fun s w => h.run_compile hsteps harms, ?_⟩
  intro limit' hsteps' harms' s
  rw [h.resolve_compile hsteps harms, h.resolve_compile hsteps' harms']

/-- Cut wherever possible, with a name that continues another one behind its eighth character. -/
theorem resolve_compile_finest_cuts :
    (ofCalls [("Identity", ⟨0⟩), ("Identity2", ⟨1⟩), ("b", ⟨2⟩), ("b", ⟨3⟩), ("", ⟨4⟩)]).size ≤
        UInt32.size ∧
      ((ofCalls [("Identity", ⟨0⟩), ("Identity2", ⟨1⟩), ("b", ⟨2⟩), ("b", ⟨3⟩),
        ("", ⟨4⟩)]).compile 0).resolve "Identity2" = some ⟨1⟩ :=
  have hsize : (ofCalls [("Identity", ⟨0⟩), ("Identity2", ⟨1⟩), ("b", ⟨2⟩), ("b", ⟨3⟩),
      ("", ⟨4⟩)]).size ≤ UInt32.size := by decide +kernel
  ⟨hsize, ((compile_preserves_get? _ 0 hsize (by decide +kernel) (by decide +kernel)).1 _).trans
    (by decide +kernel)⟩

end Trie
end TypedRecords.Name
