import TypedRecords.Proofs.Schema.Logging

/-!
# What a conflict of types shows

A conflict of types is reported and logged with the texts of the two types. The text of a type
begins with a word, and the word says how the type is built (`DataType.word`). The only types with
parts are lists and records; their part follows in angle brackets. No word contains an angle
bracket, so the word can be read off the text (`DataType.takeWhile_describe`), although the word of
decimals begins that of nullable decimals. Types can therefore be told apart by their texts
(`DataType.describe_inj`), and a conflict shows two different ones.
-/

namespace TypedRecords

/-! ## Texts of types -/

/-- Schema ids can be told apart by their texts. -/
theorem SchemaRef.text_inj {a b : SchemaRef} : a.text = b.text ↔ a = b := by
  refine ⟨fun h => ?_, congrArg text⟩
  rw [text, text, String.append_right_inj, Nat.toString_eq_repr, Nat.toString_eq_repr] at h
  have hdigits : Nat.toDigits 10 a.raw.toNat = Nat.toDigits 10 b.raw.toNat := by
    rw [← Nat.toList_repr, h, Nat.toList_repr]
  -- a number is read back from its digits
  have hraw : a.raw.toNat = b.raw.toNat := by
    rw [← Nat.ofDigitChars_ten_toDigits (n := a.raw.toNat), hdigits,
      Nat.ofDigitChars_ten_toDigits]
  exact congrArg SchemaRef.mk (UInt32.toNat_inj.1 hraw)

namespace DataType

/-- The word that the text of a type begins with. -/
def word : DataType → String
  | .list _ => "list"
  | .record _ => "record"
  | t => t.describe

/-- The word is what stands in the text in front of the first angle bracket. -/
theorem takeWhile_describe (t : DataType) :
    t.describe.toList.takeWhile (· != '<') = t.word.toList := by
  cases t with
  | list element => simp [describe, word]
  | record schema => simp [describe, word]
  | _ => decide

theorem word_eq_of_describe_eq {a b : DataType} (h : a.describe = b.describe) :
    a.word = b.word := by
  rw [← String.toList_inj, ← takeWhile_describe, h, takeWhile_describe]

/-- Types can be told apart by their texts: the words tell the constructors, and behind the same
word the same is enclosed in the brackets. -/
theorem describe_inj {a b : DataType} : a.describe = b.describe ↔ a = b := by
  refine ⟨fun h => ?_, congrArg describe⟩
  induction a generalizing b with
  | list element ih =>
    have hword := word_eq_of_describe_eq h
    cases b with
    | list other =>
      rw [describe, describe, String.append_left_inj, String.append_right_inj] at h
      rw [ih h]
    | _ => simp [word, describe] at hword
  | record schema =>
    have hword := word_eq_of_describe_eq h
    cases b with
    | record other =>
      rw [describe, describe, String.append_left_inj, String.append_right_inj] at h
      rw [SchemaRef.text_inj.1 h]
    | _ => simp [word, describe] at hword
  | _ =>
    have hword := word_eq_of_describe_eq h
    cases b <;> simp [word, describe] at hword ⊢

end DataType

/-! ## Conflicts -/

/-- Merging is rejected for conflicts of types alone, and what is reported and logged of a conflict
shows two texts. -/
theorem Mixin.conflict_of_merge {mixin : Mixin} {declared : List Declaration} {r : Rejection}
    (h : mixin.merge declared = .error r) :
    ∃ name old new, r = ⟨.typeConflict name old new, .typeConflict mixin.name name old new⟩ ∧
      old ≠ new := by
  obtain ⟨-, field, -, united, -, -, hfield⟩ := exists_of_foldlM_eq_error h
  obtain ⟨old, new, hne, rfl⟩ := rejection_of_mergeField hfield
  exact ⟨field.1, old.describe, new.describe, rfl, mt DataType.describe_inj.1 hne⟩

theorem Name.Trie.insert_ne_typeConflict (t : Name.Trie) (key : String) (field : Position)
    (name old new : String) : t.insert key field ≠ .error (.typeConflict name old new) := by
  unfold insert
  split
  · simp
  · split
    · simp
    · split <;> simp

theorem Assembly.error_ne_typeConflict {schema : SchemaRef} {a : Assembly} {d : Declaration}
    {r : Rejection} (h : add schema a d = .error r) (name old new : String) :
    r.error ≠ .typeConflict name old new := by
  unfold add at h
  dsimp only at h
  split at h
  · obtain rfl := Except.error.inj h
    simp
  · next position _ =>
    split at h
    · next e hins =>
      obtain rfl := Except.error.inj h
      rintro rfl
      exact a.trie.insert_ne_typeConflict d.name position name old new hins
    · cases h

namespace Draft

variable {d : Draft} {fold : String → String}

/-- A conflict of types that compiling reports was met in merging a mixin; names are vetted and
fields are added without any. -/
theorem merge_of_typeConflict {name old new : String}
    (h : (d.compileFolding fold).result = .error (.typeConflict name old new)) :
    ∃ mixin ∈ d.mixins, ∃ declared r,
      mixin.merge declared = .error r ∧ r.error = .typeConflict name old new := by
  obtain ⟨r, hassemble, hr⟩ := compileFolding_eq_error h
  rcases assemble_eq_error hassemble with hmerged | ⟨declared, -, hvet | ⟨-, hadd⟩⟩
  · obtain ⟨before, mixin, after, declared, hmixins, -, hmerge⟩ := exists_of_foldlM_eq_error hmerged
    exact ⟨mixin, by simp [hmixins], declared, r, hmerge, hr⟩
  · rcases Declaration.rejection_of_vetNames hvet with rfl | ⟨other, rfl⟩
    · cases hr
    · cases hr
  · obtain ⟨-, c, -, a, -, -, hstep⟩ := exists_of_foldlM_eq_error hadd
    exact absurd hr (Assembly.error_ne_typeConflict hstep name old new)

end Draft

/-- Types can be told apart by their texts. So no conflict of types shows one text twice, neither
in what merging a mixin into any declarations reports and logs, which is nothing but conflicts, nor
in what compiling a draft reports. -/
theorem texts_tell_types_apart :
    (∀ a b : DataType, a.describe = b.describe ↔ a = b) ∧
    (∀ (declared : List Declaration) (mixin : Mixin) (r : Rejection),
      mixin.merge declared = .error r → ∃ name old new,
        r = ⟨.typeConflict name old new, .typeConflict mixin.name name old new⟩ ∧ old ≠ new) ∧
    ∀ (d : Draft) (fold : String → String) (name old new : String),
      (d.compileFolding fold).result = .error (.typeConflict name old new) → old ≠ new := by
  refine ⟨fun a b => DataType.describe_inj, fun declared mixin r h => Mixin.conflict_of_merge h,
    fun d fold name old new h => ?_⟩
  obtain ⟨mixin, -, declared, r, hmerge, hr⟩ := Draft.merge_of_typeConflict h
  obtain ⟨name', old', new', rfl, hne⟩ := Mixin.conflict_of_merge hmerge
  cases hr
  exact hne

/-- Two types whose words begin alike are told apart in merging, and two whose ids begin alike in
compiling. -/
theorem texts_tell_decimals_and_schemas_apart :
    ((⟨"Priced", [("Rates", .list .nullableDecimal)]⟩ : Mixin).merge
        [⟨"Rates", .list .decimal, .none⟩] =
          .error ⟨.typeConflict "Rates" "list<decimal>" "list<decimal?>",
            .typeConflict "Priced" "Rates" "list<decimal>" "list<decimal?>"⟩ ∧
      "list<decimal>" ≠ "list<decimal?>") ∧
    ((((Draft.begin .empty).1.field "Owner" (.record ⟨1⟩)).mixIn
        ⟨"Owned", [("Owner", .record ⟨11⟩)]⟩).compile.result =
          .error (.typeConflict "Owner" "record<schema#1>" "record<schema#11>") ∧
      "record<schema#1>" ≠ "record<schema#11>") := by
  have hmerge : (⟨"Priced", [("Rates", .list .nullableDecimal)]⟩ : Mixin).merge
      [⟨"Rates", .list .decimal, .none⟩] =
        .error ⟨.typeConflict "Rates" "list<decimal>" "list<decimal?>",
          .typeConflict "Priced" "Rates" "list<decimal>" "list<decimal?>"⟩ := by decide +kernel
  have hcompile : (((Draft.begin .empty).1.field "Owner" (.record ⟨1⟩)).mixIn
      ⟨"Owned", [("Owner", .record ⟨11⟩)]⟩).compile.result =
        .error (.typeConflict "Owner" "record<schema#1>" "record<schema#11>") := by decide +kernel
  obtain ⟨-, hmerging, hcompiling⟩ := texts_tell_types_apart
  obtain ⟨name, old, new, hr, hne⟩ := hmerging _ _ _ hmerge
  cases hr
  exact ⟨⟨hmerge, hne⟩, hcompile, hcompiling _ _ _ _ _ hcompile⟩

end TypedRecords
