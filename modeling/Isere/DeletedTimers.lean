-- The timers that isere_js_polyfill_timer_deinit deletes: those that are in a slot by
-- then. The end of a callback takes its timer out of the slot, and no one deletes it.
import Isere.TimerLedger

open runs slot_table

namespace isere.timers

/-- Each timer that was made is given to `xTimerDelete` once. -/
def AllDeleted (l : Ledger) : Prop := ∀ t, t < l.table.nextTimer → l.deleted t = 1

/-- A callback comes to its end. -/
def endsCallback (l : Ledger) : Move → Bool
  | .callbackEnd => l.table.running ≠ none
  | _ => false

/-- Each timer that was made is in a slot. -/
def AllKept (s : Timers) : Prop := ∀ t, t < s.nextTimer → some t ∈ s.slots

/-! ## What a move keeps -/

theorem AllKept.still {s s' : Timers} (h : Still s s') : AllKept s' ↔ AllKept s := by
  unfold AllKept
  rw [h.slots, h.nextTimer]

/-- A new timer is in its slot. -/
theorem create_allKept {s : Timers} {i : Nat} (hi : polyfillTimerGetFreeSlot s.slots = some i) :
    AllKept (polyfillTimerSetTimeout s true) ↔ AllKept s := by
  rw [setTimeout_takes hi]
  simp only [AllKept, mem_take (freeSlot_spec hi)]
  constructor
  · intro h t ht
    exact (h t (Nat.lt_succ_of_lt ht)).resolve_right (Nat.ne_of_lt ht)
  · intro h t ht
    exact (Nat.lt_succ_iff_lt_or_eq.mp ht).imp (h t) id

/-- The timer of the callback that ends is in no slot any more. -/
theorem callbackEnd_not_allKept {l : Ledger} (h : LedgerOk l) {t : TimerId}
    (hr : l.table.running = some t) : ¬AllKept (l.callbackEnd t).table := by
  intro hkept
  have hslot : l.table.slots[l.table.slotOf t]? = some (some t) :=
    h.table.held t (Or.inr (Or.inr (Or.inl hr)))
  have ht := ((h.handles.mem t).mp (List.mem_of_getElem? hslot)).1
  exact ((mem_release hslot (h.handles.once t)).mp (hkept t ht)).2 rfl

/-- Only the end of a callback takes a timer out of its slot. -/
theorem step_allKept {l : Ledger} (h : LedgerOk l) (m : Move) :
    AllKept (l.step m).table ↔ AllKept l.table ∧ endsCallback l m = false := by
  rcases l.step_cases m with ⟨s, hs, hend, heq⟩ |
    ⟨args, i, rfl, hi, ⟨-, heq⟩ | ⟨objects, heq⟩⟩ | ⟨t, rfl, -, heq⟩ | ⟨t, rfl, hr, heq⟩
  · have hends : endsCallback l m = false := by
      cases m with
      | callbackEnd => simp [endsCallback, hend rfl]
      | _ => rfl
    rw [heq, hends]
    simp [AllKept.still hs]
  · rw [heq]
    simp [endsCallback, Ledger.dupFunc]
  · rw [heq]
    simp [endsCallback, create_allKept hi]
  · rw [heq]
    exact (and_iff_left rfl).symm
  · rw [heq]
    simp [endsCallback, hr, callbackEnd_not_allKept h hr]

theorem step_deleted (l : Ledger) (m : Move) : (l.step m).deleted = l.deleted := by
  rcases l.step_cases m with ⟨s, -, -, heq⟩ | ⟨args, i, -, -, ⟨-, heq⟩ | ⟨objects, heq⟩⟩ |
    ⟨t, -, -, heq⟩ | ⟨t, -, -, heq⟩ <;> rw [heq] <;> rfl

/-! ## The law -/

theorem run_allKept {l : Ledger} (h : LedgerOk l) (moves : List Move) :
    AllKept (run Ledger.step l moves).table ↔
      AllKept l.table ∧ StepsOk Ledger.step (fun l m => endsCallback l m = false) l moves := by
  induction moves generalizing l with
  | nil => simp [StepsOk]
  | cons m moves ih => rw [run_cons, ih (step_ledgerOk h m), step_allKept h, and_assoc, StepsOk]

/-- Each timer of a sequence is deleted once by the deinit just if no callback has come
to its end before. -/
theorem every_timer_is_deleted_once_iff (moves : List Move) :
    AllDeleted (run Ledger.step Ledger.start moves).polyfillTimerDeinit ↔
      StepsOk Ledger.step (fun l m => endsCallback l m = false) Ledger.start moves := by
  have hok := run_ledgerOk moves
  have hkept : AllKept Ledger.start.table := fun t ht => nomatch ht
  have hdeleted : ∀ t, (run Ledger.step Ledger.start moves).deleted t = 0 :=
    run_inv_all (I := fun l => ∀ t, l.deleted t = 0)
      (fun l m h t => (congrFun (step_deleted l m) t).trans (h t)) (fun _ => rfl) moves
  have hrun := run_allKept start_ledgerOk moves
  rw [and_iff_right hkept] at hrun
  rw [← hrun]
  generalize run Ledger.step Ledger.start moves = l at hok hdeleted ⊢
  unfold AllDeleted AllKept
  rw [deinit_table hok, stopAll_nextTimer]
  refine forall_congr' fun t => imp_congr_right fun _ => ?_
  have honce := hok.handles.once t
  rw [deinit_deleted hok, hdeleted, ← List.count_pos_iff]
  omega

/-- A timer fires, with an empty queue before the deinit. -/
def firingMoves : List Move := [.setTimeout plainArgs, .take, .expire 0, .callbackEnd]

theorem a_fired_timer_is_lost : ¬ ∀ moves,
    StepsOk Ledger.step (fun l m => callsSucceed l m = true) Ledger.start moves →
    (run Ledger.step Ledger.start moves).table.queue.length +
      2 * ISERE_JS_POLYFILLS_MAX_TIMERS ≤ configTIMER_QUEUE_LENGTH →
    (run Ledger.step Ledger.start moves).table.running = none →
    AllDeleted (run Ledger.step Ledger.start moves).polyfillTimerDeinit := by
  intro h
  have hall := h firingMoves (by decide +kernel) (by decide +kernel) (by decide +kernel)
  exact absurd (hall 0 (by decide +kernel)) (by decide +kernel)

end isere.timers
