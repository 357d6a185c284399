-- The texts of an instrument. They are copied with `strncpy` into fields that lie
-- side by side, and read up to the first NUL: a text that fills its field runs on
-- into what follows it.
import Isere.OtelMetrics

open cstring push_list regions

namespace isere.otel

/-- The string that a callback of a text hands to `pb_encode_string`. -/
def exported (texts : Texts) (number : Int64) (behind : Bytes) (off : Nat) : Bytes :=
  cstr (fieldMemory texts number behind off)

/-- The string is the argument or its beginning, and fits in its field. -/
def OfField (arg : Bytes) (size : Nat) (s : Bytes) : Prop := s <+: cstr arg ∧ s.length ≤ size

structure ExportsItsTexts (args : TextArgs) (texts : Texts) (number : Int64) (behind : Bytes) :
    Prop where
  name : OfField args.name ISERE_OTEL_METRIC_MAX_NAME_LEN (exported texts number behind 0)
  description : OfField args.description ISERE_OTEL_METRIC_MAX_DESCRIPTION_LEN
    (exported texts number behind descriptionOff)
  unit : OfField args.unit ISERE_OTEL_METRIC_MAX_UNIT_LEN (exported texts number behind unitOff)

/-- Each text leaves room for its NUL, or the field behind it starts with one. -/
structure TextsFit (args : TextArgs) (number : Int64) : Prop where
  name : strlen args.name < ISERE_OTEL_METRIC_MAX_NAME_LEN ∨ cstr args.description = []
  description : strlen args.description < ISERE_OTEL_METRIC_MAX_DESCRIPTION_LEN ∨
    cstr args.unit = []
  unit : strlen args.unit < ISERE_OTEL_METRIC_MAX_UNIT_LEN ∨ number.toUInt64.toUInt8 = 0

/-! ## A field, and what follows it -/

section Field

variable {src after : Bytes} {n : Nat}

/-- A text that leaves room for its NUL is read back. -/
theorem cstr_copied_short (h : strlen src < n) : cstr (copied src n ++ after) = cstr src := by
  unfold strlen at h
  have hpadded : copied src n = padded n (cstr src) := by
    unfold copied padded
    rw [cstr_take, List.take_of_length_le (Nat.le_of_lt h)]
  rw [hpadded, padded_eq h, List.append_assoc, List.cons_append]
  exact cstr_append_nul (cstr_nul_free src) _

/-- A text that fills its field is read on into what follows. -/
theorem cstr_copied_full (h : n ≤ strlen src) :
    cstr (copied src n ++ after) = (cstr src).take n ++ cstr after := by
  unfold strlen at h
  have hlen : ((cstr src).take n).length = n := List.length_take_of_le h
  have hfull : copied src n = (cstr src).take n := by
    unfold copied
    rw [cstr_take, hlen, Nat.sub_self, List.replicate_zero, List.append_nil]
  have hfree : ∀ b ∈ (cstr src).take n, (b ≠ 0 : Bool) = true := by
    intro b hb
    have hne : b ≠ 0 := fun he => cstr_nul_free src (he ▸ List.mem_of_mem_take hb)
    simpa using hne
  rw [hfull]
  unfold cstr at hfree ⊢
  exact List.takeWhile_append_of_pos hfree

theorem cstr_copied_eq_nil (hn : 0 < n) : cstr (copied src n ++ after) = [] ↔ cstr src = [] := by
  rcases Nat.lt_or_ge (strlen src) n with h | h
  · rw [cstr_copied_short h]
  · have hpos : 0 < (cstr src).length := Nat.lt_of_lt_of_le hn h
    rw [cstr_copied_full h, List.append_eq_nil_iff, List.take_eq_nil_iff]
    constructor
    · rintro ⟨hzero | hnil, -⟩
      · omega
      · exact hnil
    · intro hnil
      simp [hnil] at hpos

/-- A field gives its text just when there is room for a NUL, or one follows. -/
theorem ofField_iff : OfField src n (cstr (copied src n ++ after)) ↔
    strlen src < n ∨ cstr after = [] := by
  rcases Nat.lt_or_ge (strlen src) n with h | h
  · rw [cstr_copied_short h]
    have hfits : OfField src n (cstr src) := ⟨List.prefix_rfl, Nat.le_of_lt h⟩
    exact ⟨fun _ => Or.inl h, fun _ => hfits⟩
  · have hlen : ((cstr src).take n).length = n := List.length_take_of_le h
    rw [cstr_copied_full h]
    unfold OfField
    rw [List.length_append, hlen]
    constructor
    · rintro ⟨-, hle⟩
      exact Or.inr (List.length_eq_zero_iff.mp (by omega))
    · rintro (hlt | hnil)
      · omega
      · rw [hnil, List.append_nil]
        exact ⟨List.take_prefix n _, Nat.le_refl n⟩

end Field

/-! ## The three texts -/

theorem copy_val (old : Texts) (args : TextArgs) : (old.copy args).val =
    copied args.name ISERE_OTEL_METRIC_MAX_NAME_LEN ++
      (copied args.description ISERE_OTEL_METRIC_MAX_DESCRIPTION_LEN ++
        copied args.unit ISERE_OTEL_METRIC_MAX_UNIT_LEN) := by
  have hname := strncpy_append [] old.val args.name ISERE_OTEL_METRIC_MAX_NAME_LEN
  have hdescription := strncpy_append (copied args.name ISERE_OTEL_METRIC_MAX_NAME_LEN)
    (old.val.drop ISERE_OTEL_METRIC_MAX_NAME_LEN) args.description
    ISERE_OTEL_METRIC_MAX_DESCRIPTION_LEN
  have hunit := strncpy_append (copied args.name ISERE_OTEL_METRIC_MAX_NAME_LEN ++
    copied args.description ISERE_OTEL_METRIC_MAX_DESCRIPTION_LEN) (old.val.drop unitOff) args.unit
    ISERE_OTEL_METRIC_MAX_UNIT_LEN
  have hend : (old.val.drop unitOff).drop ISERE_OTEL_METRIC_MAX_UNIT_LEN = [] := by
    rw [List.drop_drop]
    exact List.drop_eq_nil_of_le (by rw [old.property]; decide)
  rw [List.nil_append, List.length_nil, List.nil_append] at hname
  rw [copied_length, List.drop_drop] at hdescription
  rw [List.length_append, copied_length, copied_length, hend, List.append_nil,
    List.append_assoc] at hunit
  unfold Texts.copy
  simp only [hname]
  unfold descriptionOff
  rw [hdescription]
  unfold unitOff descriptionOff at hunit ⊢
  rw [hunit, List.append_assoc]

section Memory

variable (old : Texts) (args : TextArgs) (number : Int64) (behind : Bytes)

theorem unit_memory : fieldMemory (old.copy args) number behind unitOff =
    copied args.unit ISERE_OTEL_METRIC_MAX_UNIT_LEN ++ (le64 number ++ behind) := by
  have hlen : (copied args.name ISERE_OTEL_METRIC_MAX_NAME_LEN ++
      copied args.description ISERE_OTEL_METRIC_MAX_DESCRIPTION_LEN).length = unitOff := by
    rw [List.length_append, copied_length, copied_length]
    rfl
  unfold fieldMemory
  rw [copy_val, ← List.append_assoc, ← hlen, List.drop_left, List.append_assoc]

theorem description_memory : fieldMemory (old.copy args) number behind descriptionOff =
    copied args.description ISERE_OTEL_METRIC_MAX_DESCRIPTION_LEN ++
      fieldMemory (old.copy args) number behind unitOff := by
  have hlen : (copied args.name ISERE_OTEL_METRIC_MAX_NAME_LEN).length = descriptionOff :=
    copied_length _ _
  rw [unit_memory]
  unfold fieldMemory
  rw [copy_val, ← hlen, List.drop_left, List.append_assoc, List.append_assoc]

theorem name_memory : fieldMemory (old.copy args) number behind 0 =
    copied args.name ISERE_OTEL_METRIC_MAX_NAME_LEN ++
      fieldMemory (old.copy args) number behind descriptionOff := by
  rw [description_memory, unit_memory]
  unfold fieldMemory
  rw [copy_val, List.drop_zero]
  simp only [List.append_assoc]

/-- Behind the unit stands the number, whose lowest byte comes first. -/
theorem cstr_number_eq_nil : cstr (le64 number ++ behind) = [] ↔ number.toUInt64.toUInt8 = 0 := by
  have hfirst : le64 number = number.toUInt64.toUInt8 :: (le64 number).tail := by
    simp [le64, List.range, List.range.loop]
  rw [hfirst, List.cons_append, cstr_cons]
  by_cases hzero : number.toUInt64.toUInt8 = 0 <;> simp [hzero]

theorem exportsItsTexts_iff :
    ExportsItsTexts args (old.copy args) number behind ↔ TextsFit args number := by
  have hname : OfField args.name ISERE_OTEL_METRIC_MAX_NAME_LEN
      (exported (old.copy args) number behind 0) ↔
        strlen args.name < ISERE_OTEL_METRIC_MAX_NAME_LEN ∨ cstr args.description = [] := by
    unfold exported
    rw [name_memory, ofField_iff, description_memory, cstr_copied_eq_nil (by decide)]
  have hdescription : OfField args.description ISERE_OTEL_METRIC_MAX_DESCRIPTION_LEN
      (exported (old.copy args) number behind descriptionOff) ↔
        strlen args.description < ISERE_OTEL_METRIC_MAX_DESCRIPTION_LEN ∨ cstr args.unit = [] := by
    unfold exported
    rw [description_memory, ofField_iff, unit_memory, cstr_copied_eq_nil (by decide)]
  have hunit : OfField args.unit ISERE_OTEL_METRIC_MAX_UNIT_LEN
      (exported (old.copy args) number behind unitOff) ↔
        strlen args.unit < ISERE_OTEL_METRIC_MAX_UNIT_LEN ∨ number.toUInt64.toUInt8 = 0 := by
    unfold exported
    rw [unit_memory, ofField_iff, cstr_number_eq_nil]
  constructor
  · intro h
    exact ⟨hname.mp h.name, hdescription.mp h.description, hunit.mp h.unit⟩
  · intro h
    exact ⟨hname.mpr h.name, hdescription.mpr h.description, hunit.mpr h.unit⟩

end Memory

/-! ## The law -/

/-- The texts that the last counter or gauge exports are its own just when they fit, whatever its
number is by then. -/
theorem texts_are_exported_iff (m : Metrics) (args : TextArgs)
    (aggregation : AggregationTemporality) (old : Texts) (number : Int64) (behind : Bytes) :
    (∃ c, (isereOtelCreateCounter m args aggregation old).counters.values.getLast? = some c ∧
      (ExportsItsTexts args c.texts number behind ↔ TextsFit args number)) ∧
    ∃ g, (isereOtelCreateGauge m args old).gauges.values.getLast? = some g ∧
      (ExportsItsTexts args g.texts number behind ↔ TextsFit args number) := by
  refine ⟨⟨⟨old.copy args, 0, aggregation⟩, ?_, exportsItsTexts_iff old args number behind⟩,
    ⟨old.copy args, 0⟩, ?_, exportsItsTexts_iff old args number behind⟩
  · simp [isereOtelCreateCounter]
  · simp [isereOtelCreateGauge]

/-- A name of 64 bytes, and a description. -/
def longName : TextArgs where
  name := List.replicate 64 97
  description := ascii "d"
  unit := ascii "1"

/-- The name of 64 bytes goes out with the description behind it. -/
theorem a_long_name_runs_on :
    ¬∀ (m : Metrics) (args : TextArgs) (aggregation : AggregationTemporality) (old : Texts)
      (number : Int64) (behind : Bytes) (c : OtelMetricsCounter),
      (isereOtelCreateCounter m args aggregation old).counters.values.getLast? = some c →
        ExportsItsTexts args c.texts number behind := by
  intro h
  have old : Texts := ⟨List.replicate valueOff 0, List.length_replicate⟩
  have hlast := (h .start longName .delta old 0 [] ⟨old.copy longName, 0, .delta⟩
    (by simp [isereOtelCreateCounter])).name.2
  unfold exported at hlast
  rw [name_memory, cstr_copied_full (by decide), List.length_append, description_memory,
    cstr_copied_short (by decide)] at hlast
  revert hlast
  decide

end isere.otel
