-- What stays true of a history as it grows can be kept beside what a program
-- holds, so one proof about the values serves for every such fact.
import Isere.OwnedValues

open Std.Do runs

namespace ownership

/-- A fact about a history that further events keep. -/
structure Frame (ε : Type) where
  holds : List ε → Prop
  grows : ∀ t e, holds t → holds (t ++ [e])

variable {ε : Type}

namespace Frame

/-- Nothing is known of the history. -/
def any : Frame ε := { holds := fun _ => True, grows := fun _ _ _ => trivial }

/-- A value was used after it was given up. -/
def misused (D : Discipline ε) : Frame ε where
  holds t := ¬Allowed (UsesHeld D) t
  grows _ _ h hok := h (allowed_snoc_iff.mp hok).1

/-- These events happened. -/
def happened (es : List ε) : Frame ε where
  holds t := ∀ e ∈ es, e ∈ t
  grows _ _ h e he := List.mem_append_left _ (h e he)

def and (F G : Frame ε) : Frame ε where
  holds t := F.holds t ∧ G.holds t
  grows t e h := ⟨F.grows t e h.1, G.grows t e h.2⟩

@[simp] theorem any_holds (t : List ε) : (any : Frame ε).holds t := trivial

end Frame

variable (D : Discipline ε) (F : Frame ε)

/-- The program holds these values, and the fact holds of the history. -/
def HoldingIn (vs : List Nat) : Assertion (.arg (Log ε) .pure) := fun s =>
  ⌜Holds D vs s ∧ F.holds s.trace⌝

/-- One event, with the fact beside it. -/
theorem emit_in {us vs : List Nat} {e : ε}
    (h : ⦃Holding D us⦄ emit e ⦃⇓ _ => Holding D vs⦄) :
    ⦃HoldingIn D F us⦄ emit e ⦃⇓ _ => HoldingIn D F vs⦄ := by
  rintro s ⟨hs, hf⟩
  exact ⟨h s hs, F.grows _ _ hf⟩

theorem fresh_in {us : List Nat} {vs : Nat → List Nat} {e : Nat → ε}
    (h : ⦃Holding D us⦄ fresh e ⦃⇓ v => Holding D (vs v)⦄) :
    ⦃HoldingIn D F us⦄ fresh e ⦃⇓ v => HoldingIn D F (vs v)⦄ := by
  rintro s ⟨hs, hf⟩
  exact ⟨h s hs, F.grows _ _ hf⟩

/-- An event that happened. -/
theorem emit_happened {us vs : List Nat} {e : ε}
    (h : ⦃Holding D us⦄ emit e ⦃⇓ _ => Holding D vs⦄) :
    ⦃HoldingIn D F us⦄ emit e ⦃⇓ _ => HoldingIn D (F.and (Frame.happened [e])) vs⦄ := by
  rintro s ⟨hs, hf⟩
  refine ⟨h s hs, F.grows _ _ hf, fun e' he' => ?_⟩
  rw [List.mem_singleton.mp he']
  exact List.mem_append_right _ (List.mem_singleton_self _)

/-- A use of a value that was given up before, as another discipline has it. -/
theorem emit_misuse {D' : Discipline ε} {us vs : List Nat} {e : ε} {v : Nat}
    (h : ⦃Holding D us⦄ emit e ⦃⇓ _ => Holding D vs⦄)
    (hgiven : ∀ t, F.holds t → ∃ e' ∈ t, D'.gives e' = some v) (hu : v ∈ D'.uses e) :
    ⦃HoldingIn D F us⦄ emit e ⦃⇓ _ => HoldingIn D (F.and (Frame.misused D')) vs⦄ := by
  rintro s ⟨hs, hf⟩
  obtain ⟨e', he', hg⟩ := hgiven _ hf
  exact ⟨h s hs, F.grows _ _ hf, fun hok => (allowed_snoc_iff.mp hok).2 v hu e' he' hg⟩

variable {D F}

/-- What follows from the fact holds too. -/
theorem HoldingIn.mono {G : Frame ε} {vs : List Nat} {s : Log ε} (h : (HoldingIn D F vs s).down)
    (himp : ∀ t, F.holds t → G.holds t) : (HoldingIn D G vs s).down :=
  ⟨h.1, himp _ h.2⟩

end ownership
