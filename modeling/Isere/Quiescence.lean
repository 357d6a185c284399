-- A poll of a QuickJS context returns 0 when there is no work left, as long as
-- it sees each timer that waits: the timer is active when the poll comes to its
-- slot, and none is started behind the back of the poll.
import Isere.Runs
import Isere.TimerSlots

open runs

namespace isere.timers

/-! ## What a poll sees -/

/-- The context has no work left: no `setTimeout` that succeeded waits to fire,
and no job is pending. -/
def Quiescent (s : Timers) : Prop := (∀ t, s.fate t ≠ .waiting) ∧ s.jobs = 0

variable {s s' : Timers}

theorem setTimeout_frame (s : Timers) (created : Bool) :
    (polyfillTimerSetTimeout s created).pc = s.pc ∧
      (polyfillTimerSetTimeout s created).jobs = s.jobs := by
  rcases setTimeout_cases s created with heq | ⟨i, -, -, ⟨-, heq⟩ | ⟨-, heq⟩⟩ <;> rw [heq] <;>
    exact ⟨rfl, rfl⟩

theorem clearTimeout_frame (s : Timers) (timer : TimerId) :
    (polyfillTimerClearTimeout s timer).pc = s.pc ∧
      (polyfillTimerClearTimeout s timer).jobs = s.jobs ∧
      (polyfillTimerClearTimeout s timer).slots = s.slots := by
  obtain ⟨hpc, hjobs, hslots, -⟩ := xTimerGenericCommand_frame s (.stop timer)
  unfold polyfillTimerClearTimeout
  split
  · exact ⟨rfl, rfl, rfl⟩
  · exact ⟨hpc, hjobs, hslots⟩

theorem op_pc (s : Timers) (o : JsOp) : (o.run s).pc = s.pc := by
  cases o with
  | setTimeout created => exact (setTimeout_frame s created).1
  | clearTimeout t => exact (clearTimeout_frame s t).1
  | enqueueJob => rfl

/-- What a poll knows at each point: no timer waits in the slots it has passed,
then none waits at all, and when it returns 0 there is no work. -/
def PollOk (s : Timers) : Prop :=
  match s.pc with
  | .scanning i => ∀ (j : Nat) (t : TimerId), j < i → s.slots[j]? = some (some t) →
      s.fate t ≠ .waiting
  | .jobs false => ∀ t, s.fate t ≠ .waiting
  | .returned r => r = 0 → Quiescent s
  | _ => True

theorem PollOk.congr (h : PollOk s) (hp : s'.pc = s.pc)
    (hs : ∀ (j : Nat) (t : TimerId), s'.slots[j]? = some (some t) → s.slots[j]? = some (some t))
    (hf : ∀ t, s'.fate t = .waiting → s.fate t = .waiting) (hj : s'.jobs = s.jobs) :
    PollOk s' := by
  unfold PollOk at h ⊢
  rw [hp]
  split at h
  · exact fun j t hlt hslot hw => h j t hlt (hs j t hslot) (hf t hw)
  · exact fun t hw => h t (hf t hw)
  · exact fun hr => ⟨fun t hw => (h hr).1 t (hf t hw), hj.trans (h hr).2⟩
  · trivial

end isere.timers
