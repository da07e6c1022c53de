import TypedRecords.Proofs.Record.Contents
import TypedRecords.Record.Cursor

/-!
# Cursors meet every assigned field once

What a cursor has still to meet are the members of the presence words from its next position on
(`Cursor.pending`). Seeking finds the first of them (`PresenceWord.seek_eq`), and moving on takes
it off the list (`Cursor.advance_spec`), whatever words lie between. From the start the list holds
all assigned positions, so a cursor meets exactly these, in order, and then nothing more
(`cursor_meets_assigned_in_order`).
-/

namespace TypedRecords

/-! ## Seeking -/

theorem Position.toNat_eq_word_add_bit (i : Position) :
    i.toNat = i.word * wordWidth + i.bit := by
  rw [word, bit, Nat.mul_comm, Nat.div_add_mod]

theorem Position.bit_lt (i : Position) : i.bit < wordWidth := Nat.mod_lt _ (by decide)

theorem Position.toNat_lt_next_word (i : Position) : i.toNat < (i.word + 1) * wordWidth := by
  rw [Nat.add_mul, Nat.one_mul, toNat_eq_word_add_bit]
  exact Nat.add_lt_add_left i.bit_lt _

namespace PresenceWord

theorem seek_of_listFrom_eq_cons {word : PresenceWord} {start : Position} {bit : Nat}
    {others : List Nat} (hfrom : word.listFrom start.bit = bit :: others)
    (hlast : start.word * Position.wordWidth + bit + 1 < UInt32.size) (later : List PresenceWord) :
    seek (word :: later) start = (some ⟨.ofNat (start.word * Position.wordWidth + bit)⟩,
      ⟨.ofNat (start.word * Position.wordWidth + bit + 1)⟩) := by
  have hbit : start.bit ≤ bit := by
    have hmem : bit ∈ word.listFrom start.bit := hfrom ▸ List.mem_cons_self
    simpa using (List.mem_filter.1 hmem).2
  have hfound : start.toNat + (bit - start.bit) = start.word * Position.wordWidth + bit := by
    have := start.toNat_eq_word_add_bit
    omega
  unfold seek
  simp only [hfrom, Position.plus?, Position.ofNat?, Position.succ, hfound,
    if_pos (Nat.lt_of_succ_lt hlast), Option.getD_some,
    Position.toNat_ofNat (Nat.lt_of_succ_lt hlast), if_pos hlast]

theorem seek_of_listFrom_eq_nil {word : PresenceWord} {start : Position}
    (hfrom : word.listFrom start.bit = []) (later : List PresenceWord) :
    seek (word :: later) start =
      if (start.word + 1) * Position.wordWidth < UInt32.size then
        seek later ⟨.ofNat ((start.word + 1) * Position.wordWidth)⟩
      else (none, start) := by
  have hskip : start.toNat + (Position.wordWidth - start.bit) =
      (start.word + 1) * Position.wordWidth := by
    have := start.toNat_eq_word_add_bit
    have := start.bit_lt
    rw [Nat.add_mul, Nat.one_mul]
    omega
  rw [seek]
  simp only [hfrom, Position.plus?, Position.ofNat?, hskip]
  by_cases hfits : (start.word + 1) * Position.wordWidth < UInt32.size
  · simp only [if_pos hfits]
  · simp only [if_neg hfits]

/-- Seeking finds the first member from the start on, and stays where it is or moves on if there
is none. -/
theorem seek_eq (words : List PresenceWord)
    (hlast : ∀ n ∈ members words, n + 1 < UInt32.size) (start : Position) :
    match (members words).filter (start.toNat ≤ ·) with
    | [] => ∃ next, seek (words.drop start.word) start = (none, next) ∧ start.toNat ≤ next.toNat
    | n :: _ => seek (words.drop start.word) start = (some ⟨.ofNat n⟩, ⟨.ofNat (n + 1)⟩) := by
  -- one word at a time; the words that are left begin with the one of the start
  induction hdrop : words.drop start.word generalizing start with
  | nil =>
    rw [start.toNat_eq_word_add_bit, filter_members_of_drop_eq_nil hdrop]
    exact ⟨start, rfl, Nat.le_of_eq start.toNat_eq_word_add_bit.symm⟩
  | cons word later ih =>
    have hpending := filter_members_bit hdrop start.bit_lt
    rw [← start.toNat_eq_word_add_bit] at hpending
    cases hfrom : word.listFrom start.bit with
    | cons bit others =>
      rw [hfrom, List.map_cons, List.cons_append] at hpending
      have hmem : start.word * Position.wordWidth + bit ∈
          (members words).filter (start.toNat ≤ ·) := by
        rw [hpending]
        exact List.mem_cons_self
      rw [hpending]
      exact seek_of_listFrom_eq_cons hfrom (hlast _ (List.mem_of_mem_filter hmem)) later
    | nil =>
      have hlater : words.drop (start.word + 1) = later := by
        rw [← List.drop_drop, hdrop, List.drop_one, List.tail_cons]
      have hpending' : (members words).filter (start.toNat ≤ ·) =
          (members words).filter ((start.word + 1) * Position.wordWidth ≤ ·) := by
        rw [hpending, hfrom, List.map_nil, List.nil_append, filter_members_word, hlater]
      rw [seek_of_listFrom_eq_nil hfrom]
      by_cases hfits : (start.word + 1) * Position.wordWidth < UInt32.size
      · have hnext : Position.toNat ⟨.ofNat ((start.word + 1) * Position.wordWidth)⟩ =
            (start.word + 1) * Position.wordWidth := Position.toNat_ofNat hfits
        have hword : Position.word ⟨.ofNat ((start.word + 1) * Position.wordWidth)⟩ =
            start.word + 1 := by
          rw [Position.word, hnext, Nat.mul_div_cancel _ (by decide)]
        have ih := ih ⟨.ofNat ((start.word + 1) * Position.wordWidth)⟩ (by rw [hword, hlater])
        rw [hnext, ← hpending'] at ih
        rw [if_pos hfits]
        revert ih
        split
        · rintro ⟨next, hseek, hle⟩
          exact ⟨next, hseek, Nat.le_trans (Nat.le_of_lt start.toNat_lt_next_word) hle⟩
        · exact id
      · -- the next word would lie beyond the last position
        have hnone : (members words).filter (start.toNat ≤ ·) = [] := by
          rw [hpending', List.filter_eq_nil_iff]
          intro n hn
          have := hlast n hn
          simp only [decide_eq_true_eq]
          omega
        rw [hnone, if_neg hfits]
        exact ⟨start, rfl, Nat.le_refl _⟩

end PresenceWord

/-! ## Moving on -/

/-- The name and the value of the field at a position. -/
def RecordOf.entry {α : Type} (r : RecordOf α) (i : Position) : Option (String × α) := do
  let field ← r.schema.field? i
  let v ← r.slots[i.toNat]?
  return (field.name, v)

/-- The positions of the assigned fields. -/
def RecordOf.assigned {α : Type} (r : RecordOf α) : List Position :=
  (PresenceWord.members r.presence).map fun n => ⟨.ofNat n⟩

namespace Cursor

variable {α : Type}

/-- The members that are still to be met. -/
def pending (c : Cursor α) : List Nat :=
  (PresenceWord.members c.record.presence).filter (c.next.toNat ≤ ·)

theorem pending_start (r : RecordOf α) : (start r).pending = PresenceWord.members r.presence :=
  List.filter_eq_self.2 fun _ _ => by simp [start, Position.toNat]

/-- The number of fields still to be met is exact. -/
theorem remaining_eq (c : Cursor α) : c.remaining = c.pending.length := by
  unfold remaining pending
  rw [c.next.toNat_eq_word_add_bit]
  cases hdrop : c.record.presence.drop c.next.word with
  | nil =>
    rw [PresenceWord.filter_members_of_drop_eq_nil hdrop]
    rfl
  | cons word later =>
    rw [PresenceWord.filter_members_bit hdrop c.next.bit_lt, List.length_append, List.length_map,
      List.length_map, ← PresenceWord.sum_size_eq]

theorem item_eq (c : Cursor α) : c.item = c.current.bind c.record.entry := rfl

theorem nextItem_eq (c : Cursor α) : c.nextItem = (c.advance.item, c.advance) := by
  unfold nextItem moveNext
  cases hcurrent : c.advance.current with
  | none => simp [item_eq, hcurrent]
  | some i => rfl

section

variable {c : Cursor α}
  (hlast : ∀ n ∈ PresenceWord.members c.record.presence, n + 1 < UInt32.size)

include hlast

/-- Moving on takes the first member off those still to be met. -/
theorem advance_spec :
    match c.pending with
    | [] => c.advance.current = none ∧ c.advance.pending = []
    | n :: later => c.advance = ⟨c.record, ⟨.ofNat (n + 1)⟩, some ⟨.ofNat n⟩⟩ ∧
      c.advance.pending = later := by
  have hseek := PresenceWord.seek_eq c.record.presence hlast c.next
  unfold pending advance
  cases hpending : (PresenceWord.members c.record.presence).filter (c.next.toNat ≤ ·) with
  | nil =>
    rw [hpending] at hseek
    obtain ⟨next, hnext, hle⟩ := hseek
    rw [hnext]
    refine ⟨rfl, List.filter_eq_nil_iff.2 fun n hn => ?_⟩
    have := List.filter_eq_nil_iff.1 hpending n hn
    simp only [decide_eq_true_eq] at this ⊢
    omega
  | cons n later =>
    rw [hpending] at hseek
    rw [hseek]
    refine ⟨rfl, ?_⟩
    have hsorted : (n :: later).Pairwise (· < ·) := by
      rw [← hpending]
      exact (PresenceWord.pairwise_members _).filter _
    have hmem : n ∈ (PresenceWord.members c.record.presence).filter (c.next.toNat ≤ ·) := by
      rw [hpending]
      exact List.mem_cons_self
    obtain ⟨hn, hle⟩ := List.mem_filter.1 hmem
    have hfrom : (PresenceWord.members c.record.presence).filter (n + 1 ≤ ·) =
        (n :: later).filter (n + 1 ≤ ·) := by
      rw [← hpending, List.filter_filter]
      refine List.filter_congr fun m _ => ?_
      have : n + 1 ≤ m → c.next.toNat ≤ m := by
        have : c.next.toNat ≤ n := by simpa using hle
        omega
      simpa using this
    rw [Position.toNat_ofNat (hlast n hn), hfrom, List.filter_cons_of_neg (by simp)]
    refine List.filter_eq_self.2 fun m hm => ?_
    exact decide_eq_true (Nat.succ_le_of_lt ((List.pairwise_cons.1 hsorted).1 m hm))

theorem pending_advance : c.advance.pending = c.pending.tail := by
  have h := advance_spec hlast
  cases hpending : c.pending with
  | nil =>
    rw [hpending] at h
    exact h.2
  | cons n later =>
    rw [hpending] at h
    exact h.2

end

/-- A call that moves a cursor on. -/
inductive Move where
  | moveNext
  | nextItem

/-- The cursor after moving calls in order. -/
def after (c : Cursor α) (moves : List Move) : Cursor α :=
  moves.foldl (fun c => fun | .moveNext => c.moveNext.2 | .nextItem => c.nextItem.2) c

theorem after_cons (c : Cursor α) (m : Move) (moves : List Move) :
    c.after (m :: moves) = c.advance.after moves := by
  cases m with
  | moveNext => rfl
  | nextItem =>
    rw [after, List.foldl_cons]
    simp only [nextItem_eq]
    rfl

theorem record_after (c : Cursor α) (moves : List Move) : (c.after moves).record = c.record := by
  induction moves generalizing c with
  | nil => rfl
  | cons m moves ih =>
    rw [after_cons, ih]
    rfl

/-- Every call takes one member off, of whatever kind the calls are. -/
theorem pending_after {c : Cursor α}
    (hlast : ∀ n ∈ PresenceWord.members c.record.presence, n + 1 < UInt32.size)
    (moves : List Move) : (c.after moves).pending = c.pending.drop moves.length := by
  induction moves generalizing c with
  | nil => rfl
  | cons m moves ih =>
    have ih := ih (c := c.advance) hlast
    rw [after_cons, ih, pending_advance hlast, List.drop_tail, List.length_cons]

/-- Draining gives the entries of the members that are still to be met. -/
theorem forall₂_drain {c : Cursor α} {R : Nat → String × α → Prop}
    (hlast : ∀ n ∈ PresenceWord.members c.record.presence, n + 1 < UInt32.size)
    (hentry : ∀ n ∈ PresenceWord.members c.record.presence,
      ∃ x, c.record.entry ⟨.ofNat n⟩ = some x ∧ R n x) (limit : Nat) :
    List.Forall₂ R (c.pending.take limit) (c.drain limit).1 := by
  induction limit generalizing c with
  | zero => exact .nil
  | succ limit ih =>
    have ih := ih (c := c.advance) hlast hentry
    have h := advance_spec hlast
    rw [drain]
    cases hpending : c.pending with
    | nil =>
      rw [hpending] at h
      simp only [item_eq, h.1, Option.bind_none, List.take_nil]
      exact .nil
    | cons n later =>
      rw [hpending] at h
      have hn : n ∈ PresenceWord.members c.record.presence := by
        refine List.mem_of_mem_filter (p := (c.next.toNat ≤ ·)) ?_
        rw [← pending, hpending]
        exact List.mem_cons_self
      obtain ⟨x, hx, hR⟩ := hentry n hn
      have hitem : c.advance.item = some x := by
        rw [h.1]
        exact hx
      rw [h.2] at ih
      simp only [hitem, List.take_succ_cons]
      exact .cons hR ih

end Cursor

/-! ## Records made, copied and edited -/

namespace Refines

variable {s : Schema} {r : Record} {m : Contents} (h : Refines s r m)

include h

theorem lt_of_mem_members {n : Nat} (hn : n ∈ PresenceWord.members r.presence) : n < s.size := by
  obtain ⟨i, hi, rfl⟩ := (h.hasBit_iff n).1 (PresenceWord.mem_members.1 hn)
  exact h.lt_size hi

/-- An assigned field has a name and a value. -/
theorem entry_eq {i : Position} (hi : i ∈ m) :
    ∃ f v, s.fields[i.toNat]? = some f ∧ r.get? i = some v ∧ r.entry i = some (f.name, v) := by
  obtain ⟨v, hv⟩ := Finmap.mem_iff.1 hi
  have hf := List.getElem?_eq_getElem (h.lt_size hi)
  have hslot := h.slot hf
  rw [hv, Option.getD_some] at hslot
  refine ⟨_, v, hf, (h.get?_eq i).trans hv, ?_⟩
  rw [RecordOf.entry, Schema.field?, h.schema, hf, hslot]
  rfl

theorem mem_of_mem_members {n : Nat} (hn : n ∈ PresenceWord.members r.presence) :
    ⟨.ofNat n⟩ ∈ m := by
  obtain ⟨i, hi, rfl⟩ := (h.hasBit_iff n).1 (PresenceWord.mem_members.1 hn)
  rwa [i.ofNat_toNat]

theorem mem_assigned (i : Position) : i ∈ r.assigned ↔ i ∈ m := by
  unfold RecordOf.assigned
  rw [List.mem_map]
  constructor
  · rintro ⟨n, hn, rfl⟩
    exact h.mem_of_mem_members hn
  · intro hi
    exact ⟨i.toNat, PresenceWord.mem_members.2 ((h.hasBit_iff _).2 ⟨i, hi, rfl⟩), i.ofNat_toNat⟩

section

variable (hsize : s.size < UInt32.size)

include hsize

theorem succ_lt_of_mem_members :
    ∀ n ∈ PresenceWord.members r.presence, n + 1 < UInt32.size := by
  intro n hn
  have := h.lt_of_mem_members hn
  omega

theorem pairwise_assigned : r.assigned.Pairwise (·.toNat < ·.toNat) := by
  have hlast := h.succ_lt_of_mem_members hsize
  unfold RecordOf.assigned
  rw [List.pairwise_map]
  refine (PresenceWord.pairwise_members r.presence).imp_of_mem fun {a b} ha hb hlt => ?_
  rwa [Position.toNat_ofNat (Nat.lt_of_succ_lt (hlast a ha)),
    Position.toNat_ofNat (Nat.lt_of_succ_lt (hlast b hb))]

/-- The call after `moves` meets the next assigned field, or finds the record exhausted. -/
theorem cursor_call (moves : List Cursor.Move) :
    match r.assigned[moves.length]? with
    | some i => ∃ f v c, s.fields[i.toNat]? = some f ∧ r.get? i = some v ∧
      ((Cursor.start r).after moves).moveNext = (true, c) ∧
      ((Cursor.start r).after moves).nextItem = (some (f.name, v), c) ∧
      c.current = some i ∧ c.next.toNat = i.toNat + 1 ∧ c.item = some (f.name, v)
    | none => ∃ c, ((Cursor.start r).after moves).moveNext = (false, c) ∧
      ((Cursor.start r).after moves).nextItem = (none, c) ∧ c.current = none ∧ c.item = none := by
  have hlast := h.succ_lt_of_mem_members hsize
  have hrecord := Cursor.record_after (Cursor.start r) moves
  have hspec := Cursor.advance_spec (c := (Cursor.start r).after moves) (hrecord.symm ▸ hlast)
  have hpending := Cursor.pending_after (c := Cursor.start r) hlast moves
  rw [Cursor.pending_start] at hpending
  rw [hpending] at hspec
  rw [RecordOf.assigned, List.getElem?_map, ← List.head?_drop]
  simp only [Cursor.nextItem_eq, Cursor.moveNext]
  cases hdrop : (PresenceWord.members r.presence).drop moves.length with
  | nil =>
    rw [hdrop] at hspec
    refine ⟨_, ?_, ?_, hspec.1, ?_⟩
    · rw [hspec.1]
      rfl
    · rw [Cursor.item_eq, hspec.1]
      rfl
    · rw [Cursor.item_eq, hspec.1]
      rfl
  | cons n later =>
    rw [hdrop] at hspec
    have hn : n ∈ PresenceWord.members r.presence := by
      apply List.mem_of_mem_drop (i := moves.length)
      rw [hdrop]
      exact List.mem_cons_self
    obtain ⟨f, v, hf, hv, hentry⟩ := h.entry_eq (h.mem_of_mem_members hn)
    have hitem : ((Cursor.start r).after moves).advance.item = some (f.name, v) := by
      rw [Cursor.item_eq, hspec.1, hrecord]
      exact hentry
    refine ⟨f, v, _, hf, hv, ?_, ?_, ?_, ?_, hitem⟩
    · rw [hspec.1]
      rfl
    · rw [hitem]
    · rw [hspec.1]
    · rw [hspec.1, Position.toNat_ofNat (hlast n hn),
        Position.toNat_ofNat (Nat.lt_of_succ_lt (hlast n hn))]

theorem cursor_sizeBounds (moves : List Cursor.Move) :
    ((Cursor.start r).after moves).remaining =
      r.assigned.length - min moves.length r.assigned.length := by
  have hlast := h.succ_lt_of_mem_members hsize
  have hpending := Cursor.pending_after (c := Cursor.start r) hlast moves
  rw [Cursor.remaining_eq, hpending, Cursor.pending_start, List.length_drop, RecordOf.assigned,
    List.length_map]
  omega

theorem forall₂_items :
    List.Forall₂ (fun i item => ∃ f, s.fields[i.toNat]? = some f ∧ item.1 = f.name ∧
      r.get? i = some item.2) r.assigned r.items := by
  have hdrain := Cursor.forall₂_drain (c := Cursor.start r)
    (R := fun n item => ∃ f, s.fields[Position.toNat ⟨.ofNat n⟩]? = some f ∧ item.1 = f.name ∧
      r.get? ⟨.ofNat n⟩ = some item.2)
    (h.succ_lt_of_mem_members hsize) (fun n hn => by
      obtain ⟨f, v, hf, hv, hentry⟩ := h.entry_eq (h.mem_of_mem_members hn)
      exact ⟨_, hentry, f, hf, rfl, hv⟩) ((Cursor.start r).remaining + 1)
  have hall : (Cursor.start r).pending.length ≤ (Cursor.start r).remaining + 1 := by
    rw [Cursor.remaining_eq]
    exact Nat.le_succ _
  rw [List.take_of_length_le hall, Cursor.pending_start] at hdrain
  rw [RecordOf.assigned, List.forall₂_map_left_iff]
  exact hdrain

end
end Refines

/-- A record reached by any calls is enumerated exactly. Of the calls that move a fresh cursor on,
of whatever kinds and however many, each meets the next of the assigned positions and then has its
field under the cursor; once they are used up every call fails. The bounds on what is left are
exact all the time, and all items together are the assigned fields with their values, in order. -/
theorem cursor_meets_assigned_in_order {d : Draft} {s : Schema} (hok : d.compile.result = .ok s)
    (hsize : s.size < UInt32.size) (calls : List Call) {r : Record}
    (hr : r ∈ Call.records s calls) :
    ((∀ i, i ∈ r.assigned ↔ r.isAssigned i = true) ∧
      r.assigned.Pairwise (·.toNat < ·.toNat)) ∧
    (∀ moves : List Cursor.Move,
      (match r.assigned[moves.length]? with
      | some i => ∃ f v c, s.fields[i.toNat]? = some f ∧ r.get? i = some v ∧
        ((Cursor.start r).after moves).moveNext = (true, c) ∧
        ((Cursor.start r).after moves).nextItem = (some (f.name, v), c) ∧
        c.current = some i ∧ c.next.toNat = i.toNat + 1 ∧ c.item = some (f.name, v)
      | none => ∃ c, ((Cursor.start r).after moves).moveNext = (false, c) ∧
        ((Cursor.start r).after moves).nextItem = (none, c) ∧
        c.current = none ∧ c.item = none) ∧
      ((Cursor.start r).after moves).sizeBounds =
        (r.assigned.length - min moves.length r.assigned.length,
          some (r.assigned.length - min moves.length r.assigned.length))) ∧
    List.Forall₂ (fun i item => ∃ f, s.fields[i.toNat]? = some f ∧ item.1 = f.name ∧
      r.get? i = some item.2) r.assigned r.items ∧
    r.items.length = r.size := by
  have hwf : s.WF := Draft.wf_of_compileFolding hok
  obtain ⟨m, -, h⟩ := Call.exists_refines hwf hr
  have hitems := h.forall₂_items hsize
  refine ⟨⟨fun i => ?_, h.pairwise_assigned hsize⟩, fun moves => ⟨h.cursor_call hsize moves, ?_⟩,
    hitems, ?_⟩
  · rw [h.mem_assigned, h.isAssigned_iff]
  · rw [Cursor.sizeBounds, h.cursor_sizeBounds hsize]
  · rw [← hitems.length_eq, RecordOf.assigned, List.length_map, RecordOf.size,
      PresenceWord.sum_size_eq]

/-- The last position of a word and the first of the next one. -/
theorem items_across_words :
    match ((Draft.begin .empty).1.fields
      ((List.range 33).map fun i => (toString i, .int))).compile.result with
    | .ok s => s.size < UInt32.size ∧ ∃ r ∈ Call.records s
        [.new, .edit 0 (.set ⟨32⟩ (.int 7)), .edit 0 (.setNamed "31" (.int 5))],
      r.items.length = 2
    | .error _ => False := by
  have hruns : (((Draft.begin .empty).1.fields
      ((List.range 33).map fun i => (toString i, .int))).compile.result.toOption.any fun s =>
        decide (s.size < UInt32.size ∧ ∃ r ∈ Call.records s
          [.new, .edit 0 (.set ⟨32⟩ (.int 7)), .edit 0 (.setNamed "31" (.int 5))],
            r.size = 2)) = true := by
    decide +kernel
  have ⟨s, hok, hsize, r, hr, hlen⟩ := exists_ok_of_any hruns
  simp only [hok]
  exact ⟨hsize, r, hr, (cursor_meets_assigned_in_order hok hsize _ hr).2.2.2.trans hlen⟩

end TypedRecords
