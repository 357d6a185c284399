-- Values that a library hands out and the program gives up, each of them once.
-- The rules go from what the program holds before a call to what it holds after.
import Isere.Runs
import Mathlib

open Std.Do runs

namespace ownership

/-- What an event does to the values: it hands one out, uses some, or gives one up. -/
structure Discipline (ε : Type) where
  made : ε → Option Nat
  uses : ε → List Nat
  gives : ε → Option Nat

/-- The events so far, and the name of the next value. -/
structure Log (ε : Type) where
  next : Nat
  trace : List ε

variable {ε : Type} (D : Discipline ε)

/-- None of the values that the event uses was given up before it. -/
def UsesHeld (pre : List ε) (e : ε) : Prop := ∀ v ∈ D.uses e, ∀ e' ∈ pre, D.gives e' ≠ some v

/-- How often a value was given up. -/
def timesGiven (t : List ε) (v : Nat) : Nat := t.countP (fun e => decide (D.gives e = some v))

/-- Each value is given up once, and is not used after that. -/
structure GivenOnce (t : List ε) : Prop where
  once : ∀ e ∈ t, ∀ v, D.made e = some v → timesGiven D t v = 1
  held : Allowed (UsesHeld D) t

/-! ## The programs -/

/-- An event of the program. -/
def emit (e : ε) : StateM (Log ε) Unit := fun s => ((), { s with trace := s.trace ++ [e] })

/-- An event that hands a value to the program. -/
def fresh (e : Nat → ε) : StateM (Log ε) Nat := fun s =>
  (s.next, { next := s.next + 1, trace := s.trace ++ [e s.next] })

/-- What a triple says of a run of its program. -/
theorem triple_run {σ α : Type} {m : StateM σ α} {P : Assertion (.arg σ .pure)}
    {Q : α → Assertion (.arg σ .pure)} (h : ⦃P⦄ m ⦃⇓ r => Q r⦄) {s : σ} (hs : (P s).down) :
    (Q (m s).1 (m s).2).down := h s hs

/-- A program that only returns keeps what holds. -/
theorem return_keeps {σ α : Type} {Q : α → Assertion (.arg σ .pure)} (r : α) :
    ⦃Q r⦄ (pure r : StateM σ α) ⦃⇓ r => Q r⦄ := .pure r (SPred.entails.refl (Q r))

/-! ## What the program holds -/

/-- The program holds these values, and gave up the others that it was handed. -/
structure Holds (vs : List Nat) (s : Log ε) : Prop where
  nodup : vs.Nodup
  lt : ∀ v ∈ vs, v < s.next
  made : ∀ e ∈ s.trace, ∀ v, D.made e = some v → v < s.next
  given : ∀ v, timesGiven D s.trace v = if v < s.next ∧ v ∉ vs then 1 else 0
  held : Allowed (UsesHeld D) s.trace

def Holding (vs : List Nat) : Assertion (.arg (Log ε) .pure) := fun s => ⌜Holds D vs s⌝

/-- A value was given up. -/
def Given (v : Nat) : Assertion (.arg (Log ε) .pure) := fun s =>
  ⌜∃ e ∈ s.trace, D.gives e = some v⌝

/-- A value was used after it was given up. -/
def Misused : Assertion (.arg (Log ε) .pure) := fun s => ⌜¬Allowed (UsesHeld D) s.trace⌝

/-- Of a value that the program holds, nothing was given up. -/
theorem Holds.not_given {vs : List Nat} {s : Log ε} (h : Holds D vs s) {v : Nat} (hv : v ∈ vs) :
    ∀ e ∈ s.trace, D.gives e ≠ some v := by
  intro e he hgives
  have hzero := h.given v
  rw [if_neg (by simp [hv])] at hzero
  have hnone := List.countP_eq_zero.mp hzero e he
  simp [hgives] at hnone

theorem Holds.givenOnce {s : Log ε} (h : Holds D [] s) : GivenOnce D s.trace where
  once e he v hv := by
    rw [h.given v, if_pos ⟨h.made e he v hv, by simp⟩]
  held := h.held

theorem holds_start : Holds D [] { next := 0, trace := [] } where
  nodup := List.nodup_nil
  lt := by simp
  made := by simp
  given := by simp [timesGiven]
  held := allowed_nil _

theorem timesGiven_snoc (t : List ε) (e : ε) (v : Nat) :
    timesGiven D (t ++ [e]) v = timesGiven D t v + if D.gives e = some v then 1 else 0 := by
  simp [timesGiven, List.countP_append, List.countP_singleton]

/-! ## The rules -/

/-- An event that only uses values that the program holds. -/
theorem emit_uses {vs : List Nat} {e : ε} (hm : D.made e = none) (hg : D.gives e = none)
    (hu : ∀ v ∈ D.uses e, v ∈ vs) : ⦃Holding D vs⦄ emit e ⦃⇓ _ => Holding D vs⦄ := by
  intro s h
  refine ⟨h.nodup, h.lt, ?_, ?_, ?_⟩
  · intro e' he' v hv
    rcases List.mem_append.mp he' with he' | he'
    · exact h.made e' he' v hv
    · rw [List.mem_singleton.mp he', hm] at hv
      simp at hv
  · intro v
    rw [timesGiven_snoc, h.given v, hg]
    simp
  · exact allowed_snoc_iff.mpr ⟨h.held, fun v hv => h.not_given D (hu v hv)⟩

/-- An event that gives up a value which the program holds. -/
theorem emit_gives {us vs : List Nat} {v : Nat} {e : ε} (hp : us.Perm (v :: vs))
    (hm : D.made e = none) (hg : D.gives e = some v) (hu : ∀ u ∈ D.uses e, u ∈ us) :
    ⦃Holding D us⦄ emit e ⦃⇓ _ => Holding D vs⦄ := by
  intro s h
  have hnodup := hp.nodup_iff.mp h.nodup
  refine ⟨(List.nodup_cons.mp hnodup).2, ?_, ?_, ?_, ?_⟩
  · intro u hu
    exact h.lt u (hp.mem_iff.mpr (List.mem_cons_of_mem v hu))
  · intro e' he' u hu
    rcases List.mem_append.mp he' with he' | he'
    · exact h.made e' he' u hu
    · rw [List.mem_singleton.mp he', hm] at hu
      simp at hu
  · intro u
    rw [timesGiven_snoc, h.given u, hg]
    have hmem : u ∈ us ↔ u = v ∨ u ∈ vs := by rw [hp.mem_iff, List.mem_cons]
    have hlt : v < s.next := h.lt v (hp.mem_iff.mpr List.mem_cons_self)
    by_cases huv : u = v
    · subst huv
      simp [hmem, hlt, (List.nodup_cons.mp hnodup).1]
    · simp [hmem, huv, Ne.symm huv]
  · exact allowed_snoc_iff.mpr ⟨h.held, fun u huses => h.not_given D (hu u huses)⟩

/-- An event that hands out a value. -/
theorem fresh_holds {vs : List Nat} {e : Nat → ε} (hm : ∀ v, D.made (e v) = some v)
    (hg : ∀ v, D.gives (e v) = none) (hu : ∀ v, D.uses (e v) = []) :
    ⦃Holding D vs⦄ fresh e ⦃⇓ v => Holding D (v :: vs)⦄ := by
  intro s h
  have hnot : s.next ∉ vs := fun hmem => Nat.lt_irrefl _ (h.lt _ hmem)
  refine ⟨List.nodup_cons.mpr ⟨hnot, h.nodup⟩, ?_, ?_, ?_, ?_⟩
  · intro v hv
    rcases List.mem_cons.mp hv with rfl | hv
    · exact Nat.lt_succ_self _
    · exact Nat.lt_succ_of_lt (h.lt v hv)
  · intro e' he' v hv
    rcases List.mem_append.mp he' with he' | he'
    · exact Nat.lt_succ_of_lt (h.made e' he' v hv)
    · rw [List.mem_singleton.mp he', hm, Option.some.injEq] at hv
      exact hv ▸ Nat.lt_succ_self _
  · intro v
    rw [timesGiven_snoc, h.given v, hg]
    have hlt : (v < s.next + 1 ∧ v ∉ s.next :: vs) ↔ v < s.next ∧ v ∉ vs := by
      rw [List.mem_cons, not_or]
      constructor
      · rintro ⟨hv, hne, hvs⟩
        exact ⟨by omega, hvs⟩
      · rintro ⟨hv, hvs⟩
        exact ⟨by omega, by omega, hvs⟩
    simp only [reduceCtorEq, ↓reduceIte, Nat.add_zero]
    exact (if_congr hlt rfl rfl).symm
  · exact allowed_snoc_iff.mpr ⟨h.held, fun v hv => by simp [hu] at hv⟩

/-! ## A use after the end -/

theorem emit_given {P : Assertion (.arg (Log ε) .pure)} {e : ε} {v : Nat}
    (hg : D.gives e = some v) : ⦃P⦄ emit e ⦃⇓ _ => Given D v⦄ := by
  intro s _
  exact ⟨e, by simp, hg⟩

theorem emit_misuses {e : ε} {v : Nat} (hu : v ∈ D.uses e) :
    ⦃Given D v⦄ emit e ⦃⇓ _ => Misused D⦄ := by
  rintro s ⟨e', he', hg⟩ hok
  exact (allowed_snoc_iff.mp hok).2 v hu e' he' hg

theorem emit_misused (e : ε) : ⦃Misused D⦄ emit e ⦃⇓ _ => Misused D⦄ := by
  intro s h hok
  exact h (allowed_snoc_iff.mp hok).1

theorem fresh_misused (e : Nat → ε) : ⦃Misused D⦄ fresh e ⦃⇓ _ => Misused D⦄ := by
  intro s h hok
  exact h (allowed_snoc_iff.mp hok).1

end ownership
