-- The next power of two by smearing: a number is joined with its own shifts until
-- every bit below its highest is set, and one more is a power of two.
import Mathlib

namespace powers

/-- The powers of two that `n` fits in. -/
def above (n : Nat) : Set Nat := {p | (∃ k, p = 2 ^ k) ∧ n ≤ p}

/-- The first power of two that `n` fits in. -/
theorem least_above {n : Nat} (h : 0 < n) : IsLeast (above n) (2 ^ (n - 1).size) := by
  refine ⟨⟨⟨_, rfl⟩, ?_⟩, ?_⟩
  · have hlt := Nat.lt_size_self (n - 1)
    omega
  · rintro p ⟨⟨k, rfl⟩, hk⟩
    have hlt : n - 1 < 2 ^ k := by omega
    exact Nat.pow_le_pow_right (by decide) (Nat.size_le.mpr hlt)

/-- It stays the first one for all that still fits. -/
theorem least_above_mono {n n' p : Nat} (h : IsLeast (above n) p) (hle : n ≤ n') (hp : n' ≤ p) :
    IsLeast (above n') p :=
  ⟨⟨h.1.1, hp⟩, fun _ hq => h.2 ⟨hq.1, Nat.le_trans hle hq.2⟩⟩

/-! ## Smearing -/

/-- Each bit of `x` tells whether `v` has a bit in the window of `w` bits above. -/
def Smeared (w v x : Nat) : Prop :=
  ∀ i, x.testBit i = true ↔ ∃ j, i ≤ j ∧ j < i + w ∧ v.testBit j = true

theorem smeared_start (v : Nat) : Smeared 1 v v := by
  intro i
  constructor
  · exact fun h => ⟨i, Nat.le_refl i, Nat.lt_succ_self i, h⟩
  · rintro ⟨j, hle, hlt, h⟩
    obtain rfl : j = i := by omega
    exact h

/-- A shift by the window doubles it. -/
theorem Smeared.double {w v x : Nat} (h : Smeared w v x) : Smeared (w + w) v (x ||| (x >>> w)) := by
  intro i
  rw [Nat.testBit_or, Bool.or_eq_true, Nat.testBit_shiftRight, h i, h (w + i)]
  constructor
  · rintro (⟨j, hle, hlt, hj⟩ | ⟨j, hle, hlt, hj⟩)
    · exact ⟨j, hle, by omega, hj⟩
    · exact ⟨j, by omega, by omega, hj⟩
  · rintro ⟨j, hle, hlt, hj⟩
    by_cases hw : j < i + w
    · exact Or.inl ⟨j, hle, hw, hj⟩
    · exact Or.inr ⟨j, by omega, by omega, hj⟩

/-- A window over the whole number sets all bits below its highest. -/
theorem Smeared.full {w v x : Nat} (h : Smeared w v x) (hv : v < 2 ^ w) : x = 2 ^ v.size - 1 := by
  apply Nat.eq_of_testBit_eq
  intro i
  rw [Nat.testBit_two_pow_sub_one, Bool.eq_iff_iff, decide_eq_true_iff, Nat.lt_size, h i]
  constructor
  · rintro ⟨j, hle, -, hj⟩
    exact Nat.le_trans (Nat.pow_le_pow_right (by decide) hle) (Nat.ge_two_pow_of_testBit hj)
  · intro hle
    obtain ⟨j, hij, hj⟩ := Nat.exists_ge_and_testBit_of_ge_two_pow hle
    have hjw : 2 ^ j < 2 ^ w := Nat.lt_of_le_of_lt (Nat.ge_two_pow_of_testBit hj) hv
    have hlt : j < w := (Nat.pow_lt_pow_iff_right (by decide)).mp hjw
    exact ⟨j, hij, by omega, hj⟩

end powers
