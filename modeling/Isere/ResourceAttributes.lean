-- The strings that the resource attributes are made of. Each attribute that
-- nanopb encodes leaves the copies of its key and its value behind.
import Isere.OtelMetrics
import Isere.Runs

open cstring emitter runs

namespace isere.otel

/-- A call of the callback, in the sizing or in the writing of a message. -/
structure Pass (σ : Type) where
  field : Field
  stream : σ

section Passes

variable {σ : Type} (pb : NanopbCalls σ) (runtimeName : Bytes)

def passStep (m : Strings) (p : Pass σ) : Strings :=
  (encodeResourceAttributesKv pb runtimeName p.field m p.stream).2.1

/-- Each string that was made in between was freed once, and as many live as before. -/
structure Balanced (m m' : Strings) : Prop where
  live : m'.live = m.live
  freedOnce : ∀ p, m.next ≤ p → p < m'.next → m'.freed.count p = m.freed.count p + 1

/-- What nanopb gets for an attribute: its tag, and a message with the copies. -/
def attributeMessage (attr : OtelKv) : List (MessageField σ) :=
  [.callback .key (encodeString pb (strdup attr.key)),
   .callback .value (encodeMessage pb
     [.callback .stringValue (encodeString pb (strdup attr.value))])]

/-- nanopb takes the attribute: neither of the two calls for it fails. -/
def Takes (field : Field) (attr : OtelKv) (s : σ) : Prop :=
  ((pb.pbEncodeTagForField field).andThen (pb.pbEncodeSubmessage (attributeMessage pb attr)) s).1

/-! ## One attribute -/

/-- The strings with the copies of the key and the value of an attribute. -/
def Strings.withAttribute (m : Strings) (attr : OtelKv) : Strings where
  next := m.next + 2
  live := (m.next + 1, cstring.strdup attr.value) :: (m.next, cstring.strdup attr.key) :: m.live
  freed := m.freed

/-- The strings after the two copies were made and freed. -/
def Strings.again (m : Strings) : Strings where
  next := m.next + 2
  live := m.live
  freed := (m.next + 1) :: m.next :: m.freed

theorem free_withAttribute (m : Strings) (attr : OtelKv) :
    ((m.withAttribute attr).vPortFree m.next).vPortFree (m.next + 1) = m.again := by
  simp [Strings.withAttribute, Strings.vPortFree, Strings.again]

theorem keyValue_withAttribute (m : Strings) (attr : OtelKv) :
    keyValue pb (m.withAttribute attr) m.next (m.next + 1) = attributeMessage pb attr := by
  have hne : (m.next == m.next + 1) = false := by simp
  simp [keyValue, attributeMessage, Strings.read, Strings.withAttribute, List.lookup_cons, hne]

/-- An attribute is taken and leaves its strings, or it is not and they are freed. -/
theorem encodeAttributes_cons (field : Field) (attr : OtelKv) (attrs : List OtelKv) (m : Strings)
    (s : σ) :
    (Takes pb field attr s ∧ ∃ s', encodeAttributes pb field (attr :: attrs) m s =
      encodeAttributes pb field attrs (m.withAttribute attr) s') ∨
    (¬ Takes pb field attr s ∧
      (encodeAttributes pb field (attr :: attrs) m s).2.1 = m.again) := by
  have hkey : m.strdup attr.key = (m.next, (m.strdup attr.key).2) := rfl
  have hvalue : (m.strdup attr.key).2.strdup attr.value = (m.next + 1, m.withAttribute attr) := rfl
  rw [encodeAttributes, hkey]
  simp only [hvalue, free_withAttribute, keyValue_withAttribute]
  unfold Takes Writer.andThen
  cases htag : (pb.pbEncodeTagForField field s).1 with
  | false => exact Or.inr (by simp)
  | true =>
    cases hkv : (pb.pbEncodeSubmessage (attributeMessage pb attr)
        (pb.pbEncodeTagForField field s).2).1 with
    | false => exact Or.inr (by simp [hkv])
    | true => exact Or.inl ⟨by simp [hkv], _, rfl⟩

/-- No string that lived before is freed. -/
theorem encodeAttributes_live (field : Field) (attrs : List OtelKv) (m : Strings) (s : σ) :
    m.live.length ≤ (encodeAttributes pb field attrs m s).2.1.live.length := by
  induction attrs generalizing m s with
  | nil => exact Nat.le_refl _
  | cons attr attrs ih =>
    rcases encodeAttributes_cons pb field attr attrs m s with ⟨-, s', heq⟩ | ⟨-, heq⟩
    · rw [heq]
      have hle := ih (m.withAttribute attr) s'
      have hlen : (m.withAttribute attr).live.length = m.live.length + 2 := rfl
      omega
    · rw [heq]
      exact Nat.le_refl _

theorem again_balanced (m : Strings) : Balanced m m.again where
  live := rfl
  freedOnce := by
    intro p hge hlt
    simp only [Strings.again] at hlt ⊢
    obtain rfl | rfl : p = m.next ∨ p = m.next + 1 := by omega
    · simp
    · simp

/-! ## The law -/

/-- The first of the attributes. -/
def serviceName : OtelKv := ⟨ascii "service.name", ascii "isere"⟩

theorem otelResourceAttrs_eq : otelResourceAttrs runtimeName = [serviceName,
    ⟨ascii "service.version", ascii "0.0.1"⟩, ⟨ascii "runtime.name", runtimeName⟩] := rfl

theorem passStep_balanced_iff (m : Strings) (p : Pass σ) :
    Balanced m (passStep pb runtimeName m p) ↔ ¬ Takes pb p.field serviceName p.stream := by
  unfold passStep encodeResourceAttributesKv
  rw [otelResourceAttrs_eq]
  rcases encodeAttributes_cons pb p.field serviceName _ m p.stream with
    ⟨htakes, s', heq⟩ | ⟨hnot, heq⟩
  · have hle := encodeAttributes_live pb p.field
      [⟨ascii "service.version", ascii "0.0.1"⟩, ⟨ascii "runtime.name", runtimeName⟩]
      (m.withAttribute serviceName) s'
    constructor
    · intro hbalanced
      have hlive := congrArg List.length hbalanced.live
      rw [heq] at hlive
      have hlen : (m.withAttribute serviceName).live.length = m.live.length + 2 := rfl
      omega
    · intro hnot
      exact absurd htakes hnot
  · rw [heq]
    exact ⟨fun _ => hnot, fun _ => again_balanced m⟩

/-- Over all rounds of exports, the strings are balanced in every pass just when nanopb takes the
first attribute in none. -/
theorem strings_are_freed_iff (m : Strings) (rounds : List (List (Pass σ))) :
    StepsOk (passStep pb runtimeName) (fun m p => Balanced m (passStep pb runtimeName m p)) m
        rounds.flatten ↔
      ∀ passes ∈ rounds, ∀ p ∈ passes, ¬ Takes pb p.field serviceName p.stream := by
  simp only [passStep_balanced_iff]
  rw [stepsOk_input_iff]
  simp only [List.mem_flatten]
  exact ⟨fun h passes hpasses p hp => h p ⟨passes, hpasses, hp⟩,
    fun h p ⟨passes, hpasses, hp⟩ => h passes hpasses p hp⟩

end Passes

/-- An export that succeeds keeps two strings of each attribute. -/
theorem an_export_keeps_six_strings :
    ¬∀ (m : Strings) (p : Pass Stream),
      Balanced m (passStep (twoPass fun _ => true).toNanopbCalls (ascii "quickjs") m p) := by
  intro h
  have hlive := (h ⟨0, [], []⟩ ⟨.attributes, ⟨0, false, []⟩⟩).live
  revert hlive
  decide

end isere.otel
