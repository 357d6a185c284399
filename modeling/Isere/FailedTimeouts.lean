-- What a setTimeout that throws leaves behind. Once it has a slot, it gives back only
-- the object: the reference stays in the slot, and so does a timer that did not start.
import Isere.FuncRefs

open runs

namespace isere.timers

/-- The second ledger is the first one but for what is given back: the slots have what
they had, no timer of theirs failed to start since, and each reference and timer that
was taken since is freed or deleted once. -/
structure Undone (l l' : Ledger) : Prop where
  slots : l'.table.slots = l.table.slots
  funcs : l'.funcs = l.funcs
  started : ∀ t, some t ∈ l'.table.slots → l'.table.fate t = .failed → some t ∈ l.table.slots
  refs : ∀ r, l.nextFunc ≤ r → r < l'.nextFunc → l'.freed r = 1
  handles : ∀ t, l.table.nextTimer ≤ t → t < l'.table.nextTimer → l'.deleted t = 1
  objects : l'.objects = l.objects

/-- The arguments pass and a slot is free, and the timer cannot be made, or there is no
room for its start. -/
def failsLate (l : Ledger) (args : SetTimeoutArgs) : Bool :=
  args.passes && (polyfillTimerGetFreeSlot l.table.slots).isSome &&
    (!args.created || configTIMER_QUEUE_LENGTH ≤ l.table.queue.length)

theorem Undone.refl (l : Ledger) : Undone l l :=
  ⟨rfl, rfl, fun _ ht _ => ht, fun _ hle hlt => absurd hlt (Nat.not_lt.mpr hle),
    fun _ hle hlt => absurd hlt (Nat.not_lt.mpr hle), rfl⟩

/-- The reference that stays in the slot is not freed. -/
theorem not_undone_of_dupFunc {l : Ledger} (h : FuncsOk l) (i : Nat) :
    ¬Undone l (l.dupFunc i) := by
  intro hundone
  have hfreed : l.freed l.nextFunc = 1 :=
    hundone.refs l.nextFunc (Nat.le_refl _) (Nat.lt_succ_self _)
  rw [(h.unborn (Nat.le_refl _)).1] at hfreed
  cases hfreed

/-- The timer that could not be started stays in the slot. -/
theorem not_undone_of_create {l : Ledger} {i : Nat}
    (hi : polyfillTimerGetFreeSlot l.table.slots = some i) :
    ¬Undone l { l.dupFunc i with table := timers.polyfillTimerSetTimeout l.table true } := by
  intro hundone
  have hslots := congrArg (fun slots => slots[i]?) hundone.slots
  have hfree := freeSlot_spec hi
  simp only [setTimeout_takes hi, hfree] at hslots
  simp [(List.getElem?_eq_some_iff.mp hfree).1] at hslots

/-- In every state that a sequence reaches, a `setTimeout` that throws is undone just if
it does not fail after it has a slot. -/
theorem a_throw_is_undone_iff (moves : List Move) (args : SetTimeoutArgs) :
    ((∃ e, ((run Ledger.step Ledger.start moves).polyfillTimerSetTimeout args).2 = .error e) →
      Undone (run Ledger.step Ledger.start moves)
        ((run Ledger.step Ledger.start moves).polyfillTimerSetTimeout args).1) ↔
      failsLate (run Ledger.step Ledger.start moves) args = false := by
  have hfuncs := run_funcsOk moves
  generalize run Ledger.step Ledger.start moves = l at hfuncs ⊢
  rcases l.setTimeout_cases args with ⟨e, heq, -, hfull⟩ |
    ⟨i, hpass, hi, ⟨hc, heq⟩ | ⟨hc, hq, heq⟩ | ⟨hc, hq, heq⟩⟩
  · have hearly : failsLate l args = false := by
      cases hpass : args.passes with
      | false => simp [failsLate, hpass]
      | true => simp [failsLate, hfull hpass]
    rw [heq]
    exact ⟨fun _ => hearly, fun _ _ => Undone.refl l⟩
  · have hlate : failsLate l args = true := by simp [failsLate, hpass, hi, hc]
    rw [heq, hlate]
    refine ⟨fun h => absurd (h ⟨_, rfl⟩) (not_undone_of_dupFunc hfuncs i), fun h => nomatch h⟩
  · have hlate : failsLate l args = true := by simp [failsLate, hpass, hi, hq]
    rw [heq, hlate]
    exact ⟨fun h => absurd (h ⟨_, rfl⟩) (not_undone_of_create hi), fun h => nomatch h⟩
  · have hstarts : failsLate l args = false := by
      simp [failsLate, hc, Nat.not_le.mpr hq]
    rw [heq]
    exact ⟨fun _ => hstarts, fun _ ⟨e, he⟩ => nomatch he⟩

/-- The first `setTimeout` of a script, without memory for the timer. -/
theorem a_failed_timer_keeps_its_function :
    ¬ ∀ moves args,
      (∃ e, ((run Ledger.step Ledger.start moves).polyfillTimerSetTimeout args).2 = .error e) →
      Undone (run Ledger.step Ledger.start moves)
        ((run Ledger.step Ledger.start moves).polyfillTimerSetTimeout args).1 := by
  intro h
  have hundone := h [] { plainArgs with created := false }
    ⟨.internalError "insufficient memory", by decide +kernel⟩
  exact absurd (hundone.refs 0 (Nat.le_refl 0) (by decide +kernel)) (by decide +kernel)

end isere.timers
