import Mathlib.Data.List.Infix
import TypedRecords.Proofs.Schema.Assembly

/-!
# Which fault a draft is rejected for

Compiling a draft passes over its declarations three times: mixins are merged, names are compared,
and names are packed. Each pass reports the first fault that it meets, and a later pass is reached
only if the earlier ones found none. What is a fault depends on the declarations before it alone
(`TypeFault`, `NameFault`, `CharFault`), so that a pass is described by its list of declarations
(`Passes`) and the passes compose (`Passes.bind`).
-/

namespace TypedRecords

/-! ## First faults -/

section

variable {α : Type} (F : List α → α → Failure → Prop)

/-- No item has a fault; `F` tells which faults an item has behind those before it. -/
def Faultless (earlier items : List α) : Prop :=
  ∀ before item after e, items = before ++ item :: after → ¬F (earlier ++ before) item e

/-- The first item that has a fault has the fault `e`. -/
def FirstFault (earlier items : List α) (e : Failure) : Prop :=
  ∃ before item after, items = before ++ item :: after ∧ F (earlier ++ before) item e ∧
    Faultless F earlier before

variable {F}

theorem faultless_nil (earlier : List α) : Faultless F earlier [] := by
  intro before item after e h
  simp at h

theorem append_eq_append_cons {items others before after : List α} {item : α}
    (h : items ++ others = before ++ item :: after) :
    (∃ between, items = before ++ item :: between) ∨
      ∃ between, before = items ++ between ∧ others = between ++ item :: after := by
  rcases List.append_eq_append_iff.1 h with ⟨between, hbefore, hothers⟩ | ⟨between, hitems, hafter⟩
  · exact .inr ⟨between, hbefore, hothers⟩
  · rcases List.cons_eq_append_iff.1 hafter with ⟨rfl, hothers⟩ | ⟨between, rfl, -⟩
    · exact .inr ⟨[], by simpa using hitems.symm, hothers⟩
    · exact .inl ⟨between, hitems⟩

theorem faultless_append {earlier items others : List α} :
    Faultless F earlier (items ++ others) ↔
      Faultless F earlier items ∧ Faultless F (earlier ++ items) others := by
  constructor
  · intro h
    constructor
    · rintro before item after e rfl
      exact h before item (after ++ others) e (by simp)
    · rintro before item after e rfl
      rw [List.append_assoc]
      exact h (items ++ before) item after e (by simp)
  · rintro ⟨hitems, hothers⟩ before item after e h
    rcases append_eq_append_cons h with ⟨between, rfl⟩ | ⟨between, rfl, rfl⟩
    · exact hitems before item between e rfl
    · rw [← List.append_assoc]
      exact hothers between item after e rfl

theorem firstFault_append {earlier items others : List α} {e : Failure} :
    FirstFault F earlier (items ++ others) e ↔ FirstFault F earlier items e ∨
      Faultless F earlier items ∧ FirstFault F (earlier ++ items) others e := by
  constructor
  · rintro ⟨before, item, after, h, hfault, hbefore⟩
    rcases append_eq_append_cons h with ⟨between, rfl⟩ | ⟨between, rfl, rfl⟩
    · exact .inl ⟨before, item, between, rfl, hfault, hbefore⟩
    · obtain ⟨hitems, hbetween⟩ := faultless_append.1 hbefore
      rw [← List.append_assoc] at hfault
      exact .inr ⟨hitems, between, item, after, rfl, hfault, hbetween⟩
  · rintro (⟨before, item, after, rfl, hfault, hbefore⟩ |
      ⟨hitems, before, item, after, rfl, hfault, hbefore⟩)
    · exact ⟨before, item, after ++ others, by simp, hfault, hbefore⟩
    · refine ⟨items ++ before, item, after, by simp, ?_, faultless_append.2 ⟨hitems, hbefore⟩⟩
      rwa [← List.append_assoc]

theorem FirstFault.not_faultless {earlier items : List α} {e : Failure}
    (h : FirstFault F earlier items e) : ¬Faultless F earlier items := by
  obtain ⟨before, item, after, rfl, hfault, -⟩ := h
  exact fun hnone => hnone before item after e rfl hfault

theorem faultless_singleton {earlier : List α} {item : α} :
    Faultless F earlier [item] ↔ ∀ e, ¬F earlier item e := by
  constructor
  · intro h e
    simpa using h [] item [] e rfl
  · intro h before other after e heq
    obtain ⟨rfl, rfl, rfl⟩ : before = [] ∧ other = item ∧ after = [] := by
      cases before <;> simp_all
    simpa using h e

theorem firstFault_singleton {earlier : List α} {item : α} {e : Failure} :
    FirstFault F earlier [item] e ↔ F earlier item e := by
  constructor
  · rintro ⟨before, other, after, heq, hfault, -⟩
    obtain ⟨rfl, rfl, rfl⟩ : before = [] ∧ other = item ∧ after = [] := by
      cases before <;> simp_all
    simpa using hfault
  · intro hfault
    exact ⟨[], item, [], rfl, by simpa using hfault, faultless_nil _⟩

/-! ## Passes -/

variable {σ : Type} {Inv : List α → σ → Prop}

/-- What a pass over `items` gives: a state that the invariant relates to the items passed if none
of them has a fault, and else the first fault. -/
def Passes (F : List α → α → Failure → Prop) (Inv : List α → σ → Prop) (earlier items : List α) :
    Except Rejection σ → Prop
  | .ok s => Inv (earlier ++ items) s ∧ Faultless F earlier items
  | .error r => ∀ e, FirstFault F earlier items e ↔ e = r.error

namespace Passes

/-- Behind a pass that met a fault nothing else counts. -/
theorem error_or {earlier items : List α} {r : Rejection}
    (h : Passes F Inv earlier items (.error r : Except Rejection σ)) {P : Prop} {e : Failure} :
    FirstFault F earlier items e ∨ Faultless F earlier items ∧ P ↔ e = r.error := by
  constructor
  · rintro (hfirst | ⟨hnone, -⟩)
    · exact (h e).1 hfirst
    · exact absurd hnone ((h r.error).2 rfl).not_faultless
  · exact fun heq => .inl ((h e).2 heq)

/-- Behind a pass without a fault only the later ones count. -/
theorem ok_or {earlier items : List α} {s : σ} (h : Passes F Inv earlier items (.ok s))
    {P : Prop} {e : Failure} :
    FirstFault F earlier items e ∨ Faultless F earlier items ∧ P ↔ P := by
  constructor
  · rintro (hfirst | ⟨-, hP⟩)
    · exact absurd h.2 hfirst.not_faultless
    · exact hP
  · exact fun hP => .inr ⟨h.2, hP⟩

theorem not_faultless {earlier items : List α} {r : Rejection}
    (h : Passes F Inv earlier items (.error r : Except Rejection σ)) :
    ¬Faultless F earlier items :=
  ((h r.error).2 rfl).not_faultless

theorem nil {earlier : List α} {s : σ} (h : Inv earlier s) : Passes F Inv earlier [] (.ok s) := by
  refine ⟨?_, faultless_nil _⟩
  rwa [List.append_nil]

theorem singleton_ok {earlier : List α} {item : α} {s : σ} (h : Inv (earlier ++ [item]) s)
    (hnone : ∀ e, ¬F earlier item e) : Passes F Inv earlier [item] (.ok s) :=
  ⟨h, faultless_singleton.2 hnone⟩

theorem singleton_error {earlier : List α} {item : α} {r : Rejection}
    (h : ∀ e, F earlier item e ↔ e = r.error) :
    Passes F Inv earlier [item] (.error r : Except Rejection σ) :=
  fun e => firstFault_singleton.trans (h e)

/-- Passes compose. -/
theorem bind {earlier items others : List α} {result : Except Rejection σ}
    {onward : σ → Except Rejection σ} (h : Passes F Inv earlier items result)
    (honward : ∀ s, Inv (earlier ++ items) s →
      Passes F Inv (earlier ++ items) others (onward s)) :
    Passes F Inv earlier (items ++ others) (result >>= onward) := by
  cases result with
  | ok s =>
    have hothers := honward s h.1
    show Passes F Inv earlier (items ++ others) (onward s)
    cases hresult : onward s with
    | ok s' =>
      rw [hresult] at hothers
      refine ⟨?_, faultless_append.2 ⟨h.2, hothers.2⟩⟩
      rw [← List.append_assoc]
      exact hothers.1
    | error r =>
      rw [hresult] at hothers
      exact fun e => firstFault_append.trans (h.ok_or.trans (hothers e))
  | error r => exact fun e => firstFault_append.trans h.error_or

/-- A pass in steps, each of which passes over the items of one part. -/
theorem foldlM {β : Type} {parts : List β} {expand : β → List α} {step : σ → β → Except Rejection σ}
    {earlier : List α} (hstep : ∀ before part after s, parts = before ++ part :: after →
      Inv (earlier ++ before.flatMap expand) s →
        Passes F Inv (earlier ++ before.flatMap expand) (expand part) (step s part))
    {s : σ} (h : Inv earlier s) :
    Passes F Inv earlier (parts.flatMap expand) (parts.foldlM step s) := by
  induction parts generalizing earlier s with
  | nil => exact .nil h
  | cons part parts ih =>
    rw [List.foldlM_cons, List.flatMap_cons]
    have hfirst := hstep [] part parts s rfl (by simpa using h)
    rw [List.flatMap_nil, List.append_nil] at hfirst
    refine hfirst.bind fun s' hs' => ih (fun before other after s'' hparts hs'' => ?_) hs'
    have := hstep (part :: before) other after s'' (by rw [hparts]; rfl)
    rw [List.flatMap_cons, ← List.append_assoc] at this
    exact this hs''

end Passes
end

/-! ## The faults of declarations -/

namespace Declaration

/-- A field of a mixin as a declaration. -/
def mixed (field : String × DataType) : Declaration :=
  ⟨field.1, field.2, { Markers.none with mixedIn := true }⟩

/-- A mixin's field disagrees with the first declaration of its name. -/
def TypeFault (earlier : List Declaration) (d : Declaration) (e : Failure) : Prop :=
  ∃ first, earlier.find? (·.name == d.name) = some first ∧ first.type ≠ d.type ∧
    e = .typeConflict d.name first.type.describe d.type.describe

/-- The name is empty, or its image under `fold` is that of an earlier name. -/
def NameFault (fold : String → String) (earlier : List Declaration) (d : Declaration)
    (e : Failure) : Prop :=
  d.name = "" ∧ e = .nameEmpty ∨
    d.name ≠ "" ∧ (∃ other ∈ earlier, fold other.name = fold d.name) ∧ e = .nameTaken d.name

/-- A character of the name is NUL or above U+00FF; the first such is reported, with the number of
characters before it. -/
def CharFault (_earlier : List Declaration) (d : Declaration) (e : Failure) : Prop :=
  ∃ before bad after, d.name.toList = before ++ bad :: after ∧
    (∀ c ∈ before, 0 < c.toNat ∧ c.toNat ≤ 0xFF) ∧ (bad.toNat = 0 ∨ 0xFF < bad.toNat) ∧
      e = .nameUnpackable d.name bad before.length

/-- Adds a declaration unless there is one of its name. -/
def unite (declared : List Declaration) (d : Declaration) : List Declaration :=
  if declared.any (·.name == d.name) then declared else declared ++ [d]

theorem find?_foldl_unite (declared others : List Declaration) (name : String) :
    (others.foldl unite declared).find? (·.name == name) =
      (declared ++ others).find? (·.name == name) := by
  induction others generalizing declared with
  | nil => rw [List.foldl_nil, List.append_nil]
  | cons d others ih =>
    have hothers (first : List Declaration) : (first ++ others).find? (·.name == name) =
        (first.find? (·.name == name)).or (others.find? (·.name == name)) := List.find?_append
    rw [List.foldl_cons, ih, List.append_cons, hothers, hothers]
    congr 1
    unfold unite
    split
    · next htaken =>
      -- what is left out would stand behind another declaration of its name
      rw [List.find?_append]
      by_cases hd : d.name = name
      · obtain ⟨other, hother, hname⟩ := List.any_eq_true.1 htaken
        have hsome : (declared.find? (·.name == name)).isSome := by
          rw [List.find?_isSome]
          exact ⟨other, hother, hd ▸ hname⟩
        rw [Option.or_of_isSome hsome]
      · simp [hd]
    · rfl

end Declaration

namespace Draft

/-- The fields of the mixins, in order. -/
def mixedFields (d : Draft) : List Declaration :=
  d.mixins.flatMap fun mixin => mixin.fields.map Declaration.mixed

/-- The declared fields, followed by the fields of the mixins whose names are new. -/
def united (d : Draft) : List Declaration := d.mixedFields.foldl Declaration.unite d.declared

/-- Positions are enough for the declarations, and no node id wraps while their names are
inserted. -/
def WithinIds (d : Draft) (fold : String → String) : Prop :=
  ∀ declared ∈ d.merged.toOption, declared.length ≤ UInt32.size ∧
    (Declaration.vetNames fold [] declared = .ok () → ∀ before ∈ declared.inits,
      ∀ a ∈ (before.foldlM (Assembly.add d.id) Assembly.empty).toOption,
        a.trie.size ≤ UInt32.size)

instance (d : Draft) (fold : String → String) : Decidable (d.WithinIds fold) :=
  inferInstanceAs (Decidable (∀ _ ∈ _, _ ∧ (_ → ∀ _ ∈ _, ∀ _ ∈ _, _)))

namespace WithinIds

variable {d : Draft} {fold : String → String} {declared : List Declaration}

theorem length_le (h : d.WithinIds fold) (hmerged : d.merged = .ok declared) :
    declared.length ≤ UInt32.size :=
  (h declared (by rw [hmerged]; rfl)).1

theorem size_le (h : d.WithinIds fold) (hmerged : d.merged = .ok declared)
    (hvet : Declaration.vetNames fold [] declared = .ok ()) {before : List Declaration}
    (hbefore : before <+: declared) {a : Assembly}
    (ha : before.foldlM (Assembly.add d.id) .empty = .ok a) : a.trie.size ≤ UInt32.size :=
  (h declared (by rw [hmerged]; rfl)).2 hvet before ((List.mem_inits _ _).2 hbefore) a
    (by rw [ha]; rfl)

end WithinIds
end Draft

/-! ## The three passes -/

open Declaration

/-- What merging has made of the declarations met so far, the first of which are `declared`. -/
def Merging (declared earlier united : List Declaration) : Prop :=
  ∃ fields, earlier = declared ++ fields ∧ united = fields.foldl unite declared

theorem Merging.snoc {declared earlier united : List Declaration}
    (h : Merging declared earlier united) (d : Declaration) :
    Merging declared (earlier ++ [d]) (unite united d) := by
  obtain ⟨fields, rfl, rfl⟩ := h
  exact ⟨fields ++ [d], by simp, by simp⟩

theorem Merging.find?_eq {declared earlier united : List Declaration}
    (h : Merging declared earlier united) (name : String) :
    united.find? (·.name == name) = earlier.find? (·.name == name) := by
  obtain ⟨fields, rfl, rfl⟩ := h
  exact find?_foldl_unite declared fields name

theorem Mixin.passes_mergeField (mixin : String) {declared earlier united : List Declaration}
    (h : Merging declared earlier united) (field : String × DataType) :
    Passes TypeFault (Merging declared) earlier [mixed field]
      (mergeField mixin united field) := by
  obtain ⟨name, type⟩ := field
  have hnext := h.snoc (mixed (name, type))
  have hname := h.find?_eq name
  unfold mergeField
  dsimp only
  cases hfind : united.find? (·.name == name) with
  | none =>
    rw [hfind] at hname
    have hnew : united.any (·.name == name) = false := by simpa using hfind
    rw [unite, mixed, hnew] at hnext
    refine .singleton_ok hnext ?_
    rintro e ⟨first, hfirst, -⟩
    rw [mixed, ← hname] at hfirst
    cases hfirst
  | some existing =>
    rw [hfind] at hname
    dsimp only
    split
    · next htype =>
      have htaken : united.any (·.name == name) = true :=
        List.any_eq_true.2 ⟨existing, List.mem_of_find?_eq_some hfind,
          List.find?_some (p := fun d : Declaration => d.name == name) hfind⟩
      rw [unite, mixed, htaken] at hnext
      refine .singleton_ok hnext ?_
      rintro e ⟨first, hfirst, hne, -⟩
      rw [mixed, ← hname] at hfirst
      cases hfirst
      exact hne htype
    · next htype =>
      apply Passes.singleton_error
      intro e
      constructor
      · rintro ⟨first, hfirst, -, rfl⟩
        rw [mixed, ← hname] at hfirst
        cases hfirst
        rfl
      · rintro rfl
        exact ⟨existing, hname.symm, htype, rfl⟩

theorem Draft.passes_merged (d : Draft) :
    Passes TypeFault (Merging d.declared) d.declared d.mixedFields d.merged := by
  refine Passes.foldlM (fun _ mixin _ s _ hs => ?_) ⟨[], by simp, rfl⟩
  rw [List.map_eq_flatMap]
  exact Passes.foldlM (fun _ field _ s _ hs => Mixin.passes_mergeField mixin.name hs field) hs

theorem Declaration.vetNames_cons (fold : String → String) (seen : List String) (d : Declaration)
    (rest : List Declaration) : vetNames fold seen (d :: rest) =
      vetNames fold seen [d] >>= fun _ => vetNames fold (fold d.name :: seen) rest := by
  simp only [vetNames]
  split
  · rfl
  · split
    · rfl
    · rfl

theorem Declaration.passes_vetNames_singleton {fold : String → String} {earlier : List Declaration}
    {seen : List String}
    (hseen : ∀ image, image ∈ seen ↔ ∃ other ∈ earlier, fold other.name = image)
    (d : Declaration) :
    Passes (NameFault fold) (fun _ _ => True) earlier [d] (vetNames fold seen [d]) := by
  have htaken : seen.contains (fold d.name) = true ↔
      ∃ other ∈ earlier, fold other.name = fold d.name := by
    rw [List.contains_iff_mem, hseen]
  simp only [vetNames]
  split
  · next hempty =>
    rw [String.isEmpty_iff] at hempty
    apply Passes.singleton_error
    intro e
    simp [NameFault, hempty]
  · next hne =>
    rw [String.isEmpty_iff] at hne
    split
    · next hcontains =>
      apply Passes.singleton_error
      intro e
      simp [NameFault, hne, htaken.1 hcontains]
    · next hnew =>
      refine .singleton_ok trivial fun e => ?_
      rw [htaken] at hnew
      simp [NameFault, hne, hnew]

theorem Declaration.passes_vetNames {fold : String → String} {earlier : List Declaration}
    {seen : List String}
    (hseen : ∀ image, image ∈ seen ↔ ∃ other ∈ earlier, fold other.name = image)
    (declared : List Declaration) :
    Passes (NameFault fold) (fun _ _ => True) earlier declared (vetNames fold seen declared) := by
  induction declared generalizing earlier seen with
  | nil => exact .nil trivial
  | cons d rest ih =>
    rw [vetNames_cons, ← List.singleton_append]
    refine (passes_vetNames_singleton hseen d).bind fun _ _ => ih ?_
    intro image
    simp [hseen, or_comm, eq_comm]

/-- The names are faultless if they are not empty and their images differ. -/
theorem Declaration.faultless_nameFault_iff {fold : String → String}
    {declared : List Declaration} : Faultless (NameFault fold) [] declared ↔
      (∀ d ∈ declared, d.name ≠ "") ∧
        declared.Pairwise fun c d => fold c.name ≠ fold d.name := by
  induction declared using List.reverseRecOn with
  | nil => exact ⟨fun _ => ⟨by simp, .nil⟩, fun _ => faultless_nil []⟩
  | append_singleton earlier d ih =>
    -- an empty name would be reported first, and a taken one otherwise
    have hlast : (∀ e, ¬NameFault fold earlier d e) ↔
        d.name ≠ "" ∧ ∀ c ∈ earlier, fold c.name ≠ fold d.name := by
      by_cases hempty : d.name = ""
      · simp [NameFault, hempty]
      · simp only [NameFault, hempty, false_and, false_or, ne_eq, not_false_eq_true, true_and,
          not_and]
        constructor
        · exact fun h c hc hsame => h _ ⟨c, hc, hsame⟩ rfl
        · rintro h e ⟨c, hc, hsame⟩ -
          exact h c hc hsame
    rw [faultless_append, faultless_singleton, List.nil_append, hlast, ih, List.pairwise_append]
    simp only [List.forall_mem_append, List.forall_mem_singleton, List.pairwise_singleton,
      true_and]
    tauto

/-- Without a fault of the name, inserting it fails for its characters only. -/
theorem Declaration.insert_compiles {a : Assembly} {earlier : List Declaration} {d : Declaration}
    {fold : String → String} (ha : a.Compiles earlier) (hsize : a.trie.size ≤ UInt32.size)
    (hname : ∀ e, ¬NameFault fold earlier d e) (position : Position) :
    a.trie.insert d.name position = match Name.firstBad? d.name.toList with
      | some bad => .error (.nameUnpackable d.name bad.char bad.offset)
      | none => .ok (a.trie.plant (Name.chunks d.name.toList) position) := by
  have hne : d.name ≠ "" := fun hempty => hname .nameEmpty (.inl ⟨hempty, rfl⟩)
  have hnew : d.name ∉ (insertions earlier).map Prod.fst := by
    intro hmem
    obtain ⟨entry, hentry, hfst⟩ := List.mem_map.1 hmem
    obtain ⟨c, hc, hsame⟩ := exists_of_mem_insertions hentry
    -- equal names have equal images
    refine hname (.nameTaken d.name) (.inr ⟨hne, ⟨c, hc, ?_⟩, rfl⟩)
    exact congrArg fold (hsame.trans hfst)
  rw [(ha.represents hsize).insert_eq, Name.Trie.refusal, if_neg hne]
  cases hbad : Name.firstBad? d.name.toList with
  | some bad => rfl
  | none =>
    dsimp only
    rw [if_neg hnew]

theorem Declaration.charFault_iff {earlier : List Declaration} {d : Declaration} {e : Failure} :
    CharFault earlier d e ↔ ∃ bad, Name.firstBad? d.name.toList = some bad ∧
      e = .nameUnpackable d.name bad.char bad.offset := by
  have hunpackable (c : Char) : Name.isPackable c = false ↔ c.toNat = 0 ∨ 0xFF < c.toNat := by
    rw [← Bool.not_eq_true, Name.isPackable_iff]
    omega
  simp only [CharFault, Name.firstBad?_eq_some_iff, Name.isPackable_iff, hunpackable]
  constructor
  · rintro ⟨before, bad, after, hd, hbefore, hbad, rfl⟩
    exact ⟨⟨bad, before.length⟩, ⟨before, after, hd, hbefore, hbad, rfl⟩, rfl⟩
  · rintro ⟨bad, ⟨before, after, hd, hbefore, hbad, hoffset⟩, rfl⟩
    exact ⟨before, bad.char, after, hd, hbefore, hbad, by rw [hoffset]⟩

theorem Declaration.faultless_charFault_iff {declared : List Declaration} :
    Faultless CharFault [] declared ↔
      ∀ d ∈ declared, ∀ c ∈ d.name.toList, Name.isPackable c = true := by
  induction declared using List.reverseRecOn with
  | nil => exact ⟨fun _ => by simp, fun _ => faultless_nil []⟩
  | append_singleton earlier d ih =>
    have hlast : (∀ e, ¬CharFault earlier d e) ↔
        ∀ c ∈ d.name.toList, Name.isPackable c = true := by
      rw [← Name.firstBad?_eq_none_iff]
      simp only [charFault_iff]
      cases Name.firstBad? d.name.toList <;> simp
    rw [faultless_append, faultless_singleton, List.nil_append, hlast, ih, List.forall_mem_append,
      List.forall_mem_singleton]

section

variable {schema : SchemaRef} {fold : String → String} {declared : List Declaration}

/-- The declarations are compiled one after the other. -/
def Assembly.Holds (schema : SchemaRef) (declared : List Declaration) (a : Assembly) : Prop :=
  declared.foldlM (Assembly.add schema) .empty = .ok a

theorem Assembly.passes_add {a : Assembly} {earlier : List Declaration} {d : Declaration}
    (ha : Holds schema earlier a) (hlt : earlier.length < UInt32.size)
    (hsize : a.trie.size ≤ UInt32.size) (hname : ∀ e, ¬NameFault fold earlier d e) :
    Passes CharFault (Holds schema) earlier [d] (a.add schema d) := by
  have hcompiles : a.Compiles earlier := Assembly.Compiles.empty.foldlM ha
  have hcount : a.fields.length = earlier.length := by
    rw [hcompiles.fields, List.length_mapIdx]
  have hadd : (earlier ++ [d]).foldlM (Assembly.add schema) .empty = a.add schema d := by
    rw [List.foldlM_append, show earlier.foldlM (Assembly.add schema) .empty = .ok a from ha]
    exact bind_pure (a.add schema d)
  have hposition : Position.ofNat? a.fields.length = some ⟨.ofNat a.fields.length⟩ := by
    rw [Position.ofNat?, if_pos (hcount ▸ hlt)]
  have hinsert := insert_compiles hcompiles hsize hname ⟨.ofNat a.fields.length⟩
  unfold Assembly.add at hadd ⊢
  simp only [hposition] at hadd ⊢
  cases hbad : Name.firstBad? d.name.toList with
  | some bad =>
    simp only [hinsert, hbad]
    apply Passes.singleton_error
    intro e
    simp [charFault_iff, hbad]
  | none =>
    simp only [hinsert, hbad] at hadd ⊢
    refine .singleton_ok hadd fun e => ?_
    simp [charFault_iff, hbad]

/-- What follows when no name has a fault. -/
theorem Assembly.passes_foldlM (hlen : declared.length ≤ UInt32.size)
    (hnodes : ∀ {before a}, before <+: declared →
      before.foldlM (Assembly.add schema) .empty = .ok a → a.trie.size ≤ UInt32.size)
    (hnames : Faultless (NameFault fold) [] declared) :
    Passes CharFault (Holds schema) [] declared
      (declared.foldlM (Assembly.add schema) .empty) := by
  have hstep : ∀ before d after a, declared = before ++ d :: after →
      Holds schema ([] ++ before.flatMap fun d => [d]) a →
        Passes CharFault (Holds schema) ([] ++ before.flatMap fun d => [d]) [d]
          (a.add schema d) := by
    intro before d after a hparts ha
    rw [List.nil_append, List.flatMap_singleton'] at ha ⊢
    refine passes_add ha ?_ (hnodes ⟨d :: after, hparts.symm⟩ ha)
      fun e => hnames before d after e hparts
    rw [hparts, List.length_append, List.length_cons] at hlen
    omega
  have hpass := Passes.foldlM hstep (show Holds schema [] .empty from rfl)
  rwa [List.flatMap_singleton'] at hpass

end

/-! ## Compiling a draft -/

namespace Draft

variable {d : Draft} {fold : String → String}

theorem merged_eq_united {declared : List Declaration} (h : d.merged = .ok declared) :
    declared = d.united := by
  have hpass := d.passes_merged
  rw [h] at hpass
  obtain ⟨⟨fields, hfields, rfl⟩, -⟩ := hpass
  rw [united, List.append_cancel_left hfields]

theorem passes_vetNames_united (d : Draft) (fold : String → String) :
    Passes (NameFault fold) (fun _ _ => True) [] d.united (vetNames fold [] d.united) :=
  passes_vetNames (by simp) d.united

/-- Compiling a draft comes to insert the name of `c` with `a` assembled from what precedes `c`. -/
def Reaches (d : Draft) (fold : String → String) (a : Assembly) (c : Declaration) : Prop :=
  ∃ before after, d.merged = .ok (before ++ c :: after) ∧
    vetNames fold [] (before ++ c :: after) = .ok () ∧
      before.foldlM (Assembly.add d.id) .empty = .ok a

theorem WithinIds.insert_of_reaches (hids : d.WithinIds fold) {a : Assembly} {c : Declaration}
    (h : d.Reaches fold a c) {position : Position} {e : Failure}
    (hins : a.trie.insert c.name position = .error e) : CharFault [] c e := by
  obtain ⟨before, after, hmerged, hvet, ha⟩ := h
  have hsize := hids.size_le hmerged hvet (List.prefix_append before _) ha
  have hnames := d.passes_vetNames_united fold
  rw [← merged_eq_united hmerged, hvet] at hnames
  have hname : ∀ e, ¬NameFault fold before c e := fun e => hnames.2 before c after e rfl
  rw [insert_compiles (Assembly.Compiles.empty.foldlM ha) hsize hname] at hins
  rw [charFault_iff]
  cases hbad : Name.firstBad? c.name.toList with
  | none =>
    rw [hbad] at hins
    cases hins
  | some bad =>
    rw [hbad] at hins
    exact ⟨bad, rfl, (Except.error.inj hins).symm⟩

/-- The fault that a draft is rejected for: a conflict of types comes first, then a name that is
empty or taken, then a name that does not pack. -/
def Fault (d : Draft) (fold : String → String) (e : Failure) : Prop :=
  FirstFault TypeFault d.declared d.mixedFields e ∨
    Faultless TypeFault d.declared d.mixedFields ∧
      (FirstFault (NameFault fold) [] d.united e ∨
        Faultless (NameFault fold) [] d.united ∧ FirstFault CharFault [] d.united e)

/-- Nothing is wrong with the declarations of a draft. -/
structure Valid (d : Draft) (fold : String → String) : Prop where
  types : Faultless TypeFault d.declared d.mixedFields
  names : Faultless (NameFault fold) [] d.united
  chars : Faultless CharFault [] d.united

/-- A pass is reached only if those before it found no fault. -/
theorem assemble_spec (hids : d.WithinIds fold) :
    match d.assemble fold with
    | .ok _ => d.Valid fold
    | .error r => ¬d.Valid fold ∧ ∀ e, d.Fault fold e ↔ e = r.error := by
  have hmerging := d.passes_merged
  have hnames := d.passes_vetNames_united fold
  unfold assemble Fault
  cases hmerged : d.merged with
  | error r =>
    rw [hmerged] at hmerging
    exact ⟨fun h => hmerging.not_faultless h.types, fun e => hmerging.error_or⟩
  | ok declared =>
    rw [hmerged] at hmerging
    obtain rfl := merged_eq_united hmerged
    cases hvet : vetNames fold [] d.united with
    | error r =>
      rw [hvet] at hnames
      simp only [bind, Except.bind, hvet]
      refine ⟨fun h => hnames.not_faultless h.names, fun e => hmerging.ok_or.trans ?_⟩
      exact hnames.error_or
    | ok u =>
      rw [hvet] at hnames
      have hchars := Assembly.passes_foldlM (hids.length_le hmerged)
        (fun hbefore ha => hids.size_le hmerged hvet hbefore ha) hnames.2
      simp only [bind, Except.bind, hvet]
      cases hadd : d.united.foldlM (Assembly.add d.id) .empty with
      | error r =>
        rw [hadd] at hchars
        refine ⟨fun h => hchars.not_faultless h.chars, fun e => hmerging.ok_or.trans ?_⟩
        exact hnames.ok_or.trans (hchars e)
      | ok a =>
        rw [hadd] at hchars
        exact ⟨hmerging.2, hnames.2, hchars.2⟩

theorem exists_assemble (hids : d.WithinIds fold) (hvalid : d.Valid fold) :
    ∃ a, d.assemble fold = .ok a ∧ a.Compiles d.united := by
  have hspec := assemble_spec hids
  cases hassemble : d.assemble fold with
  | error r =>
    rw [hassemble] at hspec
    exact absurd hvalid hspec.1
  | ok a =>
    obtain ⟨declared, hmerged, -, hcompiles⟩ := compiles_assemble hassemble
    exact ⟨a, rfl, merged_eq_united hmerged ▸ hcompiles⟩

theorem Fault.not_valid {e : Failure} (h : d.Fault fold e) : ¬d.Valid fold := by
  rintro ⟨htypes, hnames, hchars⟩
  rcases h with h | ⟨-, h | ⟨-, h⟩⟩
  · exact h.not_faultless htypes
  · exact h.not_faultless hnames
  · exact h.not_faultless hchars

/-- Exactly the valid drafts compile, and the others are rejected for the first fault. The trie
never has to refuse a name for being empty or taken. -/
theorem compile_reports_first_fault (d : Draft) (fold : String → String)
    (hids : d.WithinIds fold) :
    (∀ e, (d.compileFolding fold).result = .error e ↔ d.Fault fold e) ∧
    ((∃ s, (d.compileFolding fold).result = .ok s) ↔ d.Valid fold) ∧
    ∀ a c, d.Reaches fold a c → ∀ position e, a.trie.insert c.name position = .error e →
      ∃ char offset, e = .nameUnpackable c.name char offset := by
  have hspec := assemble_spec hids
  refine ⟨fun e => ?_, ?_, fun a c hreaches position e hins => ?_⟩
  · unfold compileFolding
    cases hassemble : d.assemble fold with
    | error r =>
      rw [hassemble] at hspec
      rw [hspec.2, Except.error.injEq, eq_comm]
    | ok a =>
      rw [hassemble] at hspec
      constructor
      · intro h
        cases h
      · exact fun hfault => absurd hspec hfault.not_valid
  · unfold compileFolding
    cases hassemble : d.assemble fold with
    | error r =>
      rw [hassemble] at hspec
      simp [hspec.1]
    | ok a =>
      rw [hassemble] at hspec
      simp [hspec]
  · obtain ⟨before, bad, after, -, -, -, rfl⟩ := hids.insert_of_reaches hreaches hins
    exact ⟨bad, before.length, rfl⟩

/-- A draft with a mixin, and a name with a character above U+00FF. -/
theorem compile_reports_euro_sign :
    (((Draft.begin .empty).1.fields [("Id", .guid), ("In \u20ac", .decimal)]).mixIn
        ⟨"Entity", [("Id", .guid)]⟩).WithinIds Text.lowercase ∧
      (((Draft.begin .empty).1.fields [("Id", .guid), ("In \u20ac", .decimal)]).mixIn
        ⟨"Entity", [("Id", .guid)]⟩).Fault Text.lowercase
          (.nameUnpackable "In \u20ac" '\u20ac' 3) :=
  have hids : (((Draft.begin .empty).1.fields
      [("Id", .guid), ("In \u20ac", .decimal)]).mixIn
        ⟨"Entity", [("Id", .guid)]⟩).WithinIds Text.lowercase := by decide +kernel
  ⟨hids, ((compile_reports_first_fault _ _ hids).1 _).1 (by decide +kernel)⟩

/-- A mixin's field may agree with the first declaration of its name and disagree with a later one.
It is merged then, and the draft is rejected because the name is declared twice. -/
theorem not_typeConflict_of_any_declaration :
    ¬∀ (d : Draft) (fold : String → String), d.WithinIds fold → ∀ before c after,
      d.mixedFields = before ++ c :: after →
        (∃ other ∈ d.declared ++ before, other.name = c.name ∧ other.type ≠ c.type) →
          ∃ name old new, (d.compileFolding fold).result = .error (.typeConflict name old new) := by
  intro h
  have hids : (((Draft.begin .empty).1.fields [("a", .text), ("a", .int)]).mixIn
      ⟨"Named", [("a", .text)]⟩).WithinIds Text.lowercase := by decide +kernel
  have htaken : (((Draft.begin .empty).1.fields [("a", .text), ("a", .int)]).mixIn
      ⟨"Named", [("a", .text)]⟩).compile.result = .error (.nameTaken "a") := by decide +kernel
  obtain ⟨name, old, new, hconflict⟩ := h _ Text.lowercase hids [] (mixed ("a", .text)) [] rfl
    ⟨⟨"a", .int, .none⟩, by decide, rfl, by decide⟩
  rw [← compile, htaken] at hconflict
  cases hconflict

end Draft
end TypedRecords
