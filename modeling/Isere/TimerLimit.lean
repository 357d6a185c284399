-- When setTimeout throws that the timer limit is exceeded. A slot stays taken after a
-- clearTimeout of its timer, and until the end of its callback.
import Isere.TimerLedger

open runs slot_table

namespace isere.timers

/-- The timers that were started, and neither fired nor were cleared. -/
def Ledger.pending (l : Ledger) : Nat :=
  (List.range l.table.nextTimer).countP (fun t => l.table.fate t = .waiting)

/-- A `setTimeout` throws that the limit is exceeded only at the limit. -/
def limitOk (l : Ledger) : Move → Bool
  | .setTimeout args =>
    (l.polyfillTimerSetTimeout args).2 ≠ .error (.internalError "exceeded timer limit") ||
      l.pending = ISERE_JS_POLYFILLS_MAX_TIMERS
  | _ => true

/-- The slot is taken by a timer that was cleared, or whose callback runs. -/
def stale (s : Timers) : Option TimerId → Bool
  | none => false
  | some t => s.fate t = .cleared || s.running = some t

/-- A `setTimeout` finds a free slot, or none that is stale. -/
def slotsServe (l : Ledger) : Move → Bool
  | .setTimeout args =>
    !args.passes || (polyfillTimerGetFreeSlot l.table.slots).isSome ||
      l.table.slots.all (fun timer => !stale l.table timer)
  | _ => true

/-- A slot is not taken by a timer that could not be started. -/
def SlotsStarted (s : Timers) : Prop :=
  ∀ t, some t ∈ s.slots → s.fate t ≠ .fresh ∧ s.fate t ≠ .failed

/-! ## What a move keeps -/

theorem SlotsStarted.still {s s' : Timers} (h : SlotsStarted s) (hs : Still s s') :
    SlotsStarted s' := by
  intro t ht
  have hold := h t (hs.slots ▸ ht)
  rcases hs.fate t with heq | ⟨-, hclear⟩
  · rw [heq]
    exact hold
  · simp [hclear]

/-- A timer that was started takes a free slot. -/
theorem create_slotsStarted {s : Timers} (h : SlotsStarted s) (hH : HandlesOk s) {i : Nat}
    (hi : polyfillTimerGetFreeSlot s.slots = some i)
    (hroom : s.queue.length < configTIMER_QUEUE_LENGTH) :
    SlotsStarted (polyfillTimerSetTimeout s true) := by
  rw [setTimeout_takes hi]
  intro t ht
  rcases (mem_take (freeSlot_spec hi)).mp ht with hold | rfl
  · have hne : t ≠ s.nextTimer := Nat.ne_of_lt ((hH.mem t).mp hold).1
    simpa [hne] using h t hold
  · simp [hroom]

theorem step_slotsStarted {l : Ledger} (h : SlotsStarted l.table) (hok : LedgerOk l) {m : Move}
    (hc : callsSucceed l m = true) : SlotsStarted (l.step m).table := by
  rcases l.step_cases m with ⟨s, hs, -, heq⟩ |
    ⟨args, i, rfl, hi, ⟨-, heq⟩ | ⟨objects, heq⟩⟩ | ⟨t, -, -, heq⟩ | ⟨t, -, -, heq⟩
  · rw [heq]
    exact h.still hs
  · rw [heq]
    exact h
  · simp only [callsSucceed, Bool.and_eq_true, decide_eq_true_eq] at hc
    rw [heq]
    exact create_slotsStarted h hok.handles hi hc.2
  · rw [heq]
    intro u hu
    by_cases hut : u = t
    · simp [Ledger.expire, expire, hut]
    · simpa [Ledger.expire, expire, hut] using h u hu
  · rw [heq]
    intro u hu
    rcases List.mem_or_eq_of_mem_set hu with hold | hnone
    · exact h u hold
    · cases hnone

/-! ## The law -/

theorem freeSlot_eq_none {slots : List (Option TimerId)} :
    polyfillTimerGetFreeSlot slots = none ↔ none ∉ slots := by
  simp only [polyfillTimerGetFreeSlot, List.findIdx?_eq_none_iff, decide_eq_false_iff_not]
  exact ⟨fun h hmem => h none hmem rfl, fun h x hx hnone => h (hnone ▸ hx)⟩

/-- `setTimeout` throws that the limit is exceeded when no slot is free. -/
theorem limit_iff (l : Ledger) (args : SetTimeoutArgs) :
    (l.polyfillTimerSetTimeout args).2 = .error (.internalError "exceeded timer limit") ↔
      args.passes = true ∧ polyfillTimerGetFreeSlot l.table.slots = none := by
  rcases l.setTimeout_cases args with ⟨e, heq, hlimit, hfull⟩ |
    ⟨i, -, hi, ⟨-, heq⟩ | ⟨-, -, heq⟩ | ⟨-, -, heq⟩⟩
  · rw [heq, Except.error.injEq, ← hlimit]
    exact ⟨fun h => ⟨h, hfull h⟩, And.left⟩
  all_goals simp [heq, hi]

theorem waiting_mem {s : Timers} (h : TimersOk s) {t : TimerId} (ht : s.fate t = .waiting) :
    some t ∈ s.slots :=
  List.mem_of_getElem? (h.held t (Or.inr (Or.inr (Or.inr ht))))

/-- The timer of a slot waits, unless the slot is stale. -/
theorem waiting_iff {s : Timers} (h : SlotsStarted s) (hT : TimersOk s) (hH : HandlesOk s)
    {t : TimerId} (ht : some t ∈ s.slots) : s.fate t = .waiting ↔ stale s (some t) = false := by
  simp only [stale, Bool.or_eq_false_iff, decide_eq_false_iff_not]
  constructor
  · intro hwait
    refine ⟨by simp [hwait], ?_⟩
    exact fun hrun => (hT.runs t hrun).2 hwait
  · rintro ⟨hcleared, hrun⟩
    obtain ⟨hfresh, hfailed⟩ := h t ht
    have hended := ((hH.mem t).mp ht).2
    cases hfate : s.fate t with
    | fresh => exact absurd hfate hfresh
    | failed => exact absurd hfate hfailed
    | waiting => rfl
    | cleared => exact absurd hfate hcleared
    | fired => exact absurd ⟨hfate, hrun⟩ hended

/-- With every slot taken, as many timers wait just if no slot is stale. -/
theorem pending_full {l : Ledger} (h : SlotsStarted l.table) (hok : LedgerOk l)
    (hfull : none ∉ l.table.slots) : l.pending = ISERE_JS_POLYFILLS_MAX_TIMERS ↔
      ∀ timer ∈ l.table.slots, stale l.table timer = false := by
  have hcount := count_full_iff (p := fun t => l.table.fate t = .waiting) hfull hok.handles.once
    (fun t ht => ((hok.handles.mem t).mp ht).1)
    (fun t ht => waiting_mem hok.table (of_decide_eq_true ht))
  rw [← hok.handles.length, Ledger.pending, hcount]
  constructor
  · intro hwait timer htimer
    cases timer with
    | none => rfl
    | some t =>
      exact (waiting_iff h hok.table hok.handles htimer).mp (of_decide_eq_true (hwait t htimer))
  · intro hserve t ht
    exact decide_eq_true ((waiting_iff h hok.table hok.handles ht).mpr (hserve (some t) ht))

theorem limitOk_iff {l : Ledger} (h : SlotsStarted l.table) (hok : LedgerOk l) (m : Move) :
    limitOk l m = true ↔ slotsServe l m = true := by
  cases m with
  | setTimeout args =>
    simp only [limitOk, slotsServe, Bool.or_eq_true, decide_eq_true_eq, ne_eq, limit_iff,
      Bool.not_eq_true', List.all_eq_true]
    cases hpass : args.passes with
    | false => simp
    | true =>
      cases hfull : polyfillTimerGetFreeSlot l.table.slots with
      | none => simpa using pending_full h hok (freeSlot_eq_none.mp hfull)
      | some i => simp
  | clearTimeout timer => exact Iff.rfl
  | take => exact Iff.rfl
  | expire t => exact Iff.rfl
  | callbackEnd => exact Iff.rfl
  | other => exact Iff.rfl

/-- When the calls of FreeRTOS succeed, the limit is thrown only with that many
timers pending, just if no `setTimeout` finds every slot taken and one of them stale. -/
theorem the_limit_counts_pending_timers_iff (moves : List Move)
    (h : StepsOk Ledger.step (fun l m => callsSucceed l m = true) Ledger.start moves) :
    StepsOk Ledger.step (fun l m => limitOk l m = true) Ledger.start moves ↔
      StepsOk Ledger.step (fun l m => slotsServe l m = true) Ledger.start moves := by
  have hiff : StepsOk Ledger.step (fun l m => limitOk l m = true ↔ slotsServe l m = true)
      Ledger.start moves := by
    refine StepsOk.with_inv (I := fun l => LedgerOk l ∧ SlotsStarted l.table) ?_
      ⟨start_ledgerOk, by simp [SlotsStarted, Ledger.start, step, start]⟩ h
    rintro l m ⟨hok, hstarted⟩ hc
    exact ⟨⟨step_ledgerOk hok m, step_slotsStarted hstarted hok hc⟩, limitOk_iff hstarted hok m⟩
  constructor
  · intro hlimit
    exact (hiff.and hlimit).mono (fun _ _ h => h.1.mp h.2)
  · intro hserve
    exact (hiff.and hserve).mono (fun _ _ h => h.1.mpr h.2)

/-- Timers fire and are made again, more of them than there are slots. -/
def reusingMoves : List Move :=
  (List.range 7).flatMap fun t => [.setTimeout plainArgs, .take, .expire t, .callbackEnd]

theorem fired_timers_leave_room :
    StepsOk Ledger.step (fun l m => limitOk l m = true) Ledger.start reusingMoves :=
  (the_limit_counts_pending_timers_iff reusingMoves (by decide +kernel)).mpr (by decide +kernel)

/-- Five timers, one of which is cleared, and one more. -/
def clearingMoves : List Move :=
  (List.range 5).flatMap (fun _ => [.setTimeout plainArgs, .take]) ++
    [.clearTimeout 0, .take, .setTimeout plainArgs]

theorem a_cleared_timer_keeps_its_slot :
    ¬ ∀ moves, StepsOk Ledger.step (fun l m => callsSucceed l m = true) Ledger.start moves →
      StepsOk Ledger.step (fun l m => limitOk l m = true) Ledger.start moves :=
  fun h => absurd (h clearingMoves (by decide +kernel)) (by decide +kernel)

end isere.timers
