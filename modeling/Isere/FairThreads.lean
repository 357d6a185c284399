-- Threads over one lock, under a scheduler that lets no thread wait forever
-- that can go on again and again. If the holder of the lock can always go on,
-- the lock is free again and again, and every program ends.
import Isere.Typestate
import Mathlib.Order.Filter.AtTopBot.Basic

open Filter

namespace typestate

variable {ι α ρ : Type}

/-! ## Endless runs -/

/-- The number of actions on the longest path of a program. -/
def Code.depth : Code α ρ → Nat
  | .done _ => 0
  | .act _ k => max (k true).depth (k false).depth + 1

theorem depth_lt (a : α) (k : Bool → Code α ρ) (b : Bool) : (k b).depth < (Code.act a k).depth := by
  cases b <;> simp only [Code.depth] <;> omega

def Code.Returned (p : Code α ρ) : Prop := ∃ r, p = .done r

/-- A run of threads, by the time. `holder` is the thread that has the lock, `ready` are the
threads that can make their next action, and `moves` those that make it. -/
structure Schedule (ι α ρ : Type) where
  code : Nat → ι → Code α ρ
  holder : Nat → Option ι
  ready : Nat → ι → Prop
  moves : Nat → ι → Prop

/-- A thread that can go on again and again does so. -/
def Schedule.Fair (s : Schedule ι α ρ) : Prop :=
  ∀ i, (∃ᶠ n in atTop, s.ready n i) → ∃ᶠ n in atTop, s.moves n i

/-- The rules of one lock. A thread goes on by its own moves only, the lock goes from hand to
hand by being free, its holder can always go on, and everyone can while it is free. -/
structure Schedule.OneLock (s : Schedule ι α ρ) : Prop where
  moved : ∀ n i, s.moves n i → ∃ a k b, s.code n i = .act a k ∧ s.code (n + 1) i = k b
  stays : ∀ n i, ¬s.moves n i → (s.code n i).Returned ∨ s.code (n + 1) i = s.code n i
  given : ∀ n i, s.holder n = some i → s.holder (n + 1) = some i ∨ s.holder (n + 1) = none
  busy : ∀ n i, s.holder n = some i → ¬(s.code n i).Returned
  holds : ∀ n i, s.holder n = some i → s.ready n i
  free : ∀ n i, s.holder n = none → ¬(s.code n i).Returned → s.ready n i

/-! ## What is fair -/

section Fair

variable {s : Schedule ι α ρ} {n : Nat} {i : ι}

/-- A program that goes on does not grow. -/
theorem Schedule.OneLock.depth_step (h : s.OneLock) (hi : ¬(s.code n i).Returned) :
    (s.code (n + 1) i).depth ≤ (s.code n i).depth := by
  by_cases hm : s.moves n i
  · obtain ⟨a, k, b, hcode, hnext⟩ := h.moved n i hm
    rw [hcode, hnext]
    exact Nat.le_of_lt (depth_lt a k b)
  · rcases h.stays n i hm with hret | hsame
    · exact absurd hret hi
    · rw [hsame]

theorem Schedule.OneLock.depth_le (h : s.OneLock) (hi : ∀ m, n ≤ m → ¬(s.code m i).Returned)
    {m : Nat} (hm : n ≤ m) : (s.code m i).depth ≤ (s.code n i).depth := by
  induction m, hm using Nat.le_induction with
  | base => exact Nat.le_refl _
  | succ m hm ih => exact (h.depth_step (hi m hm)).trans ih

/-- A thread that moves again and again comes to the end of its program. -/
theorem Schedule.OneLock.returns (h : s.OneLock) (hmoves : ∃ᶠ n in atTop, s.moves n i) (n : Nat) :
    ∃ m, n ≤ m ∧ (s.code m i).Returned := by
  -- by what is left of the program
  induction hd : (s.code n i).depth using Nat.strong_induction_on generalizing n with
  | _ d ih =>
    by_contra hno
    push Not at hno
    obtain ⟨m, hm, hmove⟩ := frequently_atTop.mp hmoves n
    obtain ⟨a, k, b, hcode, hnext⟩ := h.moved m i hmove
    have hle := h.depth_le hno hm
    have hlt : (s.code (m + 1) i).depth < d := by
      rw [hnext, ← hd]
      rw [hcode] at hle
      exact (depth_lt a k b).trans_le hle
    obtain ⟨m', hm', hret⟩ := ih _ hlt (m + 1) rfl
    exact hno m' (by omega) hret

/-- A lock that is never free stays with its holder. -/
theorem Schedule.OneLock.kept (h : s.OneLock) (hn : s.holder n = some i)
    (hno : ∀ m, n ≤ m → s.holder m ≠ none) {m : Nat} (hm : n ≤ m) : s.holder m = some i := by
  induction m, hm using Nat.le_induction with
  | base => exact hn
  | succ m hm ih => exact (h.given m i ih).resolve_right (hno (m + 1) (by omega))

theorem Schedule.Fair.lock_is_freed (hf : s.Fair) (h : s.OneLock) :
    ∃ᶠ n in atTop, s.holder n = none := by
  rw [frequently_atTop]
  intro n
  by_contra hno
  push Not at hno
  cases hn : s.holder n with
  | none => exact hno n (Nat.le_refl n) hn
  | some i =>
    have hkept : ∀ m, n ≤ m → s.holder m = some i := fun m hm => h.kept hn hno hm
    have hready : ∃ᶠ m in atTop, s.ready m i :=
      (eventually_ge_atTop n).frequently.mono fun m hm => h.holds m i (hkept m hm)
    obtain ⟨m, hm, hret⟩ := h.returns (hf i hready) n
    exact h.busy m i (hkept m hm) hret

/-- Every program comes to its end. -/
theorem Schedule.Fair.every_thread_returns (hf : s.Fair) (h : s.OneLock) (i : ι) (n : Nat) :
    ∃ m, n ≤ m ∧ (s.code m i).Returned := by
  by_contra hno
  push Not at hno
  have hready : ∃ᶠ m in atTop, s.ready m i :=
    ((hf.lock_is_freed h).and_eventually (eventually_ge_atTop n)).mono
      fun m ⟨hfree, hm⟩ => h.free m i hfree (hno m hm)
  obtain ⟨m, hm, hret⟩ := h.returns (hf i hready) n
  exact hno m hm hret

end Fair

end typestate
