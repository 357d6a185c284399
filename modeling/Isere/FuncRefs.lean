-- The references to functions in the slots: each is called at most once, never after
-- it was freed, and freed once by the time that the deinit returns.
import Isere.TimerLedger

open runs slot_table

namespace isere.timers

/-! ## The invariant -/

/-- A taken slot has a reference. A reference is freed, or in a slot, and the callback
that runs has the one of its slot. -/
structure FuncsOk (l : Ledger) : Prop where
  held : ∀ (i : Nat) (t : TimerId), l.table.slots[i]? = some (some t) →
    ∃ r, l.funcs[i]? = some (some r)
  once : ∀ r, l.freed r + l.funcs.count (some r) ≤ if r < l.nextFunc then 1 else 0
  idle : l.table.running = none → l.func = none
  runs : ∀ t, l.table.running = some t →
    ∃ r, l.func = some r ∧ l.funcs[l.table.slotOf t]? = some (some r)
  called : ∀ r, 0 < l.calls r → l.func = some r ∨ 0 < l.freed r
  calledOnce : ∀ r, l.calls r ≤ 1

/-- A free slot has no reference, and each one that was taken is freed or in a slot. -/
structure Balanced (l : Ledger) : Prop where
  free : ∀ i : Nat, l.table.slots[i]? = some none → l.funcs[i]? = some none
  each : ∀ r, r < l.nextFunc → l.freed r + l.funcs.count (some r) = 1

variable {l : Ledger}

/-- A reference in a slot is not freed. -/
theorem FuncsOk.live (h : FuncsOk l) {r : FuncRef} (hr : some r ∈ l.funcs) : l.freed r = 0 := by
  have honce := h.once r
  have hpos := List.count_pos_iff.mpr hr
  split at honce <;> omega

/-- The next reference is not freed, and in no slot. -/
theorem FuncsOk.unborn (h : FuncsOk l) {r : FuncRef} (hr : l.nextFunc ≤ r) :
    l.freed r = 0 ∧ l.funcs.count (some r) = 0 := by
  have honce := h.once r
  rw [if_neg (Nat.not_lt.mpr hr)] at honce
  omega

/-- The timers change, and neither their slots nor the callback that runs. -/
theorem FuncsOk.still (h : FuncsOk l) {s : Timers} (hs : Still l.table s) :
    FuncsOk { l with table := s } := by
  refine ⟨?_, h.once, ?_, ?_, h.called, h.calledOnce⟩
  · intro i t ht
    exact h.held i t (hs.slots ▸ ht)
  · intro hidle
    exact h.idle (hs.running ▸ hidle)
  · intro t ht
    simp only [hs.slotOf]
    exact h.runs t (hs.running ▸ ht)

/-! ## What a move keeps -/

/-- A reference comes into a free slot, which a timer may take. -/
theorem FuncsOk.dupFunc (h : FuncsOk l) (hok : LedgerOk l) {i : Nat}
    (hi : l.table.slots[i]? = some none) {s : Timers} {objects : Nat}
    (hs : ∀ j, j ≠ i → s.slots[j]? = l.table.slots[j]?) (hr : s.running = l.table.running)
    (hof : ∀ t, l.table.running = some t → s.slotOf t = l.table.slotOf t) :
    FuncsOk { l.dupFunc i with table := s, objects := objects } := by
  have hlt : i < l.funcs.length := by
    rw [hok.length, ← hok.handles.length]
    exact (List.getElem?_eq_some_iff.mp hi).1
  refine ⟨?_, ?_, ?_, ?_, h.called, h.calledOnce⟩
  · intro j t ht
    by_cases hj : j = i
    · subst hj
      exact ⟨l.nextFunc, by simp [Ledger.dupFunc, hlt]⟩
    · obtain ⟨r, hfunc⟩ := h.held j t (hs j hj ▸ ht)
      exact ⟨r, by simpa [Ledger.dupFunc, List.getElem?_set_ne (Ne.symm hj)] using hfunc⟩
  · intro r
    exact once_overwrite (h.once r)
  · intro hidle
    exact h.idle (hr ▸ hidle)
  · intro t ht
    have hrun : l.table.running = some t := hr ▸ ht
    obtain ⟨r, hfunc, hslot⟩ := h.runs t hrun
    have hheld := hok.table.held t (Or.inr (Or.inr (Or.inl hrun)))
    have hne : i ≠ l.table.slotOf t := by
      rintro rfl
      rw [hi] at hheld
      cases hheld
    refine ⟨r, hfunc, ?_⟩
    simp only [hof t hrun]
    simpa [Ledger.dupFunc, List.getElem?_set_ne hne] using hslot

/-- A new timer takes the slot of the reference. -/
theorem FuncsOk.create (h : FuncsOk l) (hok : LedgerOk l) {i : Nat}
    (hi : polyfillTimerGetFreeSlot l.table.slots = some i) {objects : Nat} :
    FuncsOk { l.dupFunc i with
      table := timers.polyfillTimerSetTimeout l.table true, objects := objects } := by
  rw [setTimeout_takes hi]
  refine h.dupFunc hok (freeSlot_spec hi) ?_ rfl ?_
  · intro j hj
    exact List.getElem?_set_ne (Ne.symm hj)
  · intro t ht
    have hne : t ≠ l.table.nextTimer := by
      rintro rfl
      exact (not_inUse (hok.table.unborn _ (Nat.le_refl _)).1).2.2.1 ht
    exact Function.update_of_ne hne ..

/-- A timer that expires has a reference in its slot. -/
theorem expire_func (h : FuncsOk l) (hok : LedgerOk l) {t : TimerId}
    (ht : l.table.expires t = true) :
    ∃ r, (l.expire t).func = some r ∧ l.funcs[l.table.slotOf t]? = some (some r) := by
  simp only [Timers.expires, Bool.and_eq_true, decide_eq_true_eq] at ht
  obtain ⟨r, hr⟩ := h.held _ t (hok.table.held t (Or.inl ht.2))
  exact ⟨r, by simp [Ledger.expire, hr], hr⟩

theorem expire_funcsOk (h : FuncsOk l) (hok : LedgerOk l) {t : TimerId}
    (ht : l.table.expires t = true) : FuncsOk (l.expire t) := by
  obtain ⟨r, hfunc, hslot⟩ := expire_func h hok ht
  simp only [Timers.expires, Bool.and_eq_true, decide_eq_true_eq] at ht
  have hlive := h.live (List.mem_of_getElem? hslot)
  have hnone := h.idle ht.1
  have hcalls : ∀ r', (l.expire t).calls r' = l.calls r' + if some r = some r' then 1 else 0 := by
    intro r'
    rw [← hfunc, ← count_apply]
    rfl
  refine ⟨h.held, h.once, ?_, ?_, ?_, ?_⟩
  · intro hr
    cases hr
  · intro u hu
    obtain rfl : t = u := Option.some.inj hu
    exact ⟨r, hfunc, hslot⟩
  · intro r' hpos
    rw [hcalls] at hpos
    by_cases hrr : some r = some r'
    · exact Or.inl (hfunc.trans hrr)
    · rw [if_neg hrr] at hpos
      have hcalled := h.called r' hpos
      rw [hnone] at hcalled
      exact Or.inr (hcalled.resolve_left (by simp))
  · intro r'
    rw [hcalls]
    split
    · rename_i hrr
      obtain rfl := Option.some.inj hrr
      have hzero : l.calls r = 0 := by
        by_contra hne
        have hcalled := h.called r (Nat.pos_of_ne_zero hne)
        rw [hnone, hlive] at hcalled
        simp at hcalled
      omega
    · exact h.calledOnce r'

/-- The end of the callback moves its reference out of the slot, to those freed. -/
theorem callbackEnd_freed (h : FuncsOk l) {t : TimerId} (ht : l.table.running = some t)
    (r : FuncRef) : (l.callbackEnd t).freed r + (l.callbackEnd t).funcs.count (some r) =
      l.freed r + l.funcs.count (some r) := by
  obtain ⟨r', hfunc, hslot⟩ := h.runs t ht
  have hcount := count_release (b := r) hslot
  simp only [Ledger.callbackEnd, count_apply, hfunc, Option.some.injEq]
  omega

theorem callbackEnd_funcsOk (h : FuncsOk l) {t : TimerId} (ht : l.table.running = some t) :
    FuncsOk (l.callbackEnd t) := by
  obtain ⟨r, hfunc, hslot⟩ := h.runs t ht
  refine ⟨?_, ?_, fun _ => rfl, (fun _ hu => nomatch hu), ?_, h.calledOnce⟩
  · intro i u hu
    have hne : l.table.slotOf t ≠ i := by
      rintro rfl
      simp [Ledger.callbackEnd, callbackEnd, List.getElem?_set] at hu
    simp only [Ledger.callbackEnd, callbackEnd, List.getElem?_set_ne hne] at hu ⊢
    exact h.held i u hu
  · intro r'
    rw [callbackEnd_freed h ht]
    exact h.once r'
  · intro r' hpos
    right
    have hcalled := h.called r' hpos
    simp only [Ledger.callbackEnd, count_apply]
    rw [hfunc] at hcalled ⊢
    rcases hcalled with hrr | hfreed
    · rw [if_pos hrr]
      exact Nat.succ_pos _
    · exact Nat.add_pos_left hfreed _

theorem step_funcsOk (h : FuncsOk l) (hok : LedgerOk l) (m : Move) : FuncsOk (l.step m) := by
  rcases l.step_cases m with ⟨s, hs, -, heq⟩ |
    ⟨args, i, -, hi, ⟨-, heq⟩ | ⟨objects, heq⟩⟩ | ⟨t, -, ht, heq⟩ | ⟨t, -, hr, heq⟩
  · rw [heq]
    exact h.still hs
  · rw [heq]
    exact h.dupFunc hok (freeSlot_spec hi) (fun _ _ => rfl) rfl (fun _ _ => rfl)
  · rw [heq]
    exact h.create hok hi
  · rw [heq]
    exact expire_funcsOk h hok ht
  · rw [heq]
    exact callbackEnd_funcsOk h hr

theorem start_funcsOk : FuncsOk Ledger.start := by
  refine ⟨?_, ?_, fun _ => rfl, (fun _ ht => nomatch ht), ?_, ?_⟩
  · intro i t ht
    have hfree := List.eq_of_mem_replicate (List.mem_of_getElem? ht)
    cases hfree
  · intro r
    simp [Ledger.start, List.count_replicate]
  · intro r hr
    exact absurd hr (Nat.lt_irrefl 0)
  · intro r
    exact Nat.zero_le 1

/-- Every sequence keeps the references. -/
theorem run_funcsOk (moves : List Move) : FuncsOk (run Ledger.step Ledger.start moves) :=
  (run_inv_all (I := fun l => LedgerOk l ∧ FuncsOk l)
    (fun _ m h => ⟨step_ledgerOk h.1 m, step_funcsOk h.2 h.1 m⟩)
    ⟨start_ledgerOk, start_funcsOk⟩ moves).2

/-! ## With memory for each timer -/

/-- `xTimerCreate` does not fail. -/
def Move.creates : Move → Bool
  | .setTimeout args => args.created
  | _ => true

theorem create_balanced (hb : Balanced l) (h : FuncsOk l) {i : Nat}
    (hi : polyfillTimerGetFreeSlot l.table.slots = some i) {objects : Nat} :
    Balanced { l.dupFunc i with
      table := timers.polyfillTimerSetTimeout l.table true, objects := objects } := by
  rw [setTimeout_takes hi]
  have hnone := hb.free i (freeSlot_spec hi)
  refine ⟨?_, ?_⟩
  · intro j hj
    have hne : i ≠ j := by
      rintro rfl
      simp [List.getElem?_set] at hj
    simp only [List.getElem?_set_ne hne] at hj
    simpa [Ledger.dupFunc, List.getElem?_set_ne hne] using hb.free j hj
  · intro r hr
    simp only [Ledger.dupFunc, count_take hnone]
    rcases Nat.lt_succ_iff_lt_or_eq.mp hr with hlt | rfl
    · rw [if_neg (Nat.ne_of_gt hlt)]
      exact hb.each r hlt
    · obtain ⟨hfreed, hcount⟩ := h.unborn (Nat.le_refl l.nextFunc)
      simp [hfreed, hcount]

theorem callbackEnd_balanced (hb : Balanced l) (h : FuncsOk l) {t : TimerId}
    (hr : l.table.running = some t) : Balanced (l.callbackEnd t) := by
  obtain ⟨r, -, hslot⟩ := h.runs t hr
  refine ⟨?_, ?_⟩
  · intro i hi
    by_cases hne : l.table.slotOf t = i
    · subst hne
      simp [Ledger.callbackEnd, (List.getElem?_eq_some_iff.mp hslot).1]
    · simp only [Ledger.callbackEnd, callbackEnd, List.getElem?_set_ne hne] at hi ⊢
      exact hb.free i hi
  · intro r hr'
    rw [callbackEnd_freed h hr]
    exact hb.each r hr'

theorem step_balanced (hb : Balanced l) (h : FuncsOk l) {m : Move} (hm : m.creates = true) :
    Balanced (l.step m) := by
  rcases l.step_cases m with ⟨s, hs, -, heq⟩ |
    ⟨args, i, rfl, hi, ⟨hc, -⟩ | ⟨objects, heq⟩⟩ | ⟨t, -, -, heq⟩ | ⟨t, -, hr, heq⟩
  · rw [heq]
    exact ⟨fun i hi => hb.free i (hs.slots ▸ hi), hb.each⟩
  · rw [Move.creates, hc] at hm
    cases hm
  · rw [heq]
    exact create_balanced hb h hi
  · rw [heq]
    exact ⟨hb.free, hb.each⟩
  · rw [heq]
    exact callbackEnd_balanced hb h hr

theorem start_balanced : Balanced Ledger.start :=
  ⟨fun _ hi => hi, fun r hr => absurd hr (Nat.not_lt_zero r)⟩

/-! ## The law -/

/-- A callback is called with a reference that is not freed. -/
def callsLive (l : Ledger) : Move → Prop
  | .expire t => l.table.expires t = true → ∃ r, (l.expire t).func = some r ∧ l.freed r = 0
  | _ => True

theorem callsLive_of_ok (h : FuncsOk l) (hok : LedgerOk l) (m : Move) : callsLive l m := by
  cases m with
  | expire t =>
    intro ht
    obtain ⟨r, hfunc, hslot⟩ := expire_func h hok ht
    exact ⟨r, hfunc, h.live (List.mem_of_getElem? hslot)⟩
  | setTimeout args => trivial
  | clearTimeout timer => trivial
  | take => trivial
  | callbackEnd => trivial
  | other => trivial

/-- In a sequence with memory for each timer, each reference is freed once by the time
that the deinit returns, no callback is called with one that was freed, and each of
them is called at most once. -/
theorem every_reference_is_freed_once (moves : List Move)
    (hcreates : ∀ m ∈ moves, m.creates = true) :
    (∀ r, r < (run Ledger.step Ledger.start moves).polyfillTimerDeinit.nextFunc →
      (run Ledger.step Ledger.start moves).polyfillTimerDeinit.freed r = 1) ∧
    StepsOk Ledger.step callsLive Ledger.start moves ∧
    ∀ r, (run Ledger.step Ledger.start moves).polyfillTimerDeinit.calls r ≤ 1 := by
  have hall : StepsOk Ledger.step (fun _ m => m.creates = true) Ledger.start moves :=
    StepsOk.of_forall hcreates
  refine ⟨?_, ?_, ?_⟩
  · have hok := run_ledgerOk moves
    have hinv : (LedgerOk (run Ledger.step Ledger.start moves) ∧
        FuncsOk (run Ledger.step Ledger.start moves)) ∧
        Balanced (run Ledger.step Ledger.start moves) :=
      run_inv (I := fun l => (LedgerOk l ∧ FuncsOk l) ∧ Balanced l)
        (fun l m h hm => ⟨⟨step_ledgerOk h.1.1 m, step_funcsOk h.1.2 h.1.1 m⟩,
          step_balanced h.2 h.1.2 hm⟩)
        ⟨⟨start_ledgerOk, start_funcsOk⟩, start_balanced⟩ hall
    intro r hr
    rw [(deinit_frame _).1] at hr
    rw [deinit_freed hok]
    exact hinv.2.each r hr
  · exact StepsOk.with_inv (I := fun l => LedgerOk l ∧ FuncsOk l)
      (fun l m h _ => ⟨⟨step_ledgerOk h.1 m, step_funcsOk h.2 h.1 m⟩, callsLive_of_ok h.2 h.1 m⟩)
      ⟨start_ledgerOk, start_funcsOk⟩ hall
  · intro r
    rw [(deinit_frame _).2]
    exact (run_funcsOk moves).calledOnce r

/-- A callback makes a timer and clears one, and another timer is in its slot at the end. -/
def nestingMoves : List Move :=
  [.setTimeout plainArgs, .setTimeout plainArgs, .take, .take, .expire 0, .setTimeout plainArgs,
    .clearTimeout 1, .callbackEnd, .take, .take, .setTimeout plainArgs]

theorem nested_timers_are_freed :
    (∀ r, r < (run Ledger.step Ledger.start nestingMoves).polyfillTimerDeinit.nextFunc →
      (run Ledger.step Ledger.start nestingMoves).polyfillTimerDeinit.freed r = 1) ∧
    StepsOk Ledger.step callsLive Ledger.start nestingMoves ∧
    ∀ r, (run Ledger.step Ledger.start nestingMoves).polyfillTimerDeinit.calls r ≤ 1 :=
  every_reference_is_freed_once nestingMoves (by decide)

end isere.timers
