-- Where the handles of xTimerCreate are: each holds one slot of the context, from
-- the setTimeout that made it until the end of its callback.
import Isere.SlotTable
import Isere.TimerSlots

open slot_table

namespace isere.timers

/-! ## What a step can do -/

/-- The slots and the callback that runs are the same, and a timer that waited may be
cleared. -/
structure Still (s s' : Timers) : Prop where
  slots : s'.slots = s.slots
  slotOf : s'.slotOf = s.slotOf
  nextTimer : s'.nextTimer = s.nextTimer
  running : s'.running = s.running
  fate : ∀ t, s'.fate t = s.fate t ∨ (s.fate t = .waiting ∧ s'.fate t = .cleared)

theorem Still.refl (s : Timers) : Still s s := ⟨rfl, rfl, rfl, rfl, fun _ => Or.inl rfl⟩

theorem Still.fired {s s' : Timers} (h : Still s s') (t : TimerId) :
    s'.fate t = .fired ↔ s.fate t = .fired := by
  rcases h.fate t with heq | ⟨hwait, hclear⟩
  · rw [heq]
  · simp [hwait, hclear]

theorem command_still (s : Timers) (c : Command) : Still s (xTimerGenericCommand s c).1 := by
  unfold xTimerGenericCommand
  split <;> exact ⟨rfl, rfl, rfl, rfl, fun _ => Or.inl rfl⟩

theorem clearTimeout_still (s : Timers) (timer : TimerId) :
    Still s (polyfillTimerClearTimeout s timer) := by
  unfold polyfillTimerClearTimeout
  split
  · exact Still.refl s
  · have hstop := command_still s (.stop timer)
    refine ⟨hstop.slots, hstop.slotOf, hstop.nextTimer, hstop.running, ?_⟩
    intro t
    by_cases ht : t = timer
    · subst ht
      simp only [Function.update_self]
      split
      · exact Or.inr ⟨‹_›, rfl⟩
      · exact Or.inl rfl
    · exact Or.inl (Function.update_of_ne ht ..)

theorem take_still (s : Timers) : Still s (takeCommand s) := by
  unfold takeCommand
  split <;> exact ⟨rfl, rfl, rfl, rfl, fun _ => Or.inl rfl⟩

theorem next_still (s : Timers) (thrown : Bool) : Still s (next s thrown) := by
  have hpc : ∀ (s' : Timers) (pc : Pc) (jobs : Nat), Still s s' → Still s { s' with pc, jobs } :=
    fun s' pc jobs h => ⟨h.slots, h.slotOf, h.nextTimer, h.running, h.fate⟩
  have hrefl := Still.refl s
  unfold next
  split
  · exact hrefl
  · exact hpc s _ _ hrefl
  · unfold scanSlot
    split
    · exact hpc s _ _ hrefl
    · exact hpc s _ _ hrefl
    · split <;> exact hpc s _ _ hrefl
  · unfold executePendingJob
    split <;> exact hpc s _ _ hrefl
  · exact hpc s _ _ hrefl
  · exact hpc s _ _ hrefl
  · unfold stopSlot
    split
    · exact hpc s _ _ hrefl
    · exact hpc s _ _ hrefl
    · exact hpc _ _ _ (command_still s _)
  · exact hpc _ _ _ (command_still s _)
  · exact hrefl

theorem op_cases (s : Timers) (o : JsOp) : Still s (o.run s) ∨
    ∃ i, polyfillTimerGetFreeSlot s.slots = some i ∧ o.run s = polyfillTimerSetTimeout s true := by
  cases o with
  | setTimeout created =>
    cases created with
    | false =>
      left
      rcases setTimeout_cases s false with heq | ⟨i, -, hc, -⟩
      · simp only [JsOp.run]
        rw [heq]
        exact Still.refl s
      · cases hc
    | true =>
      cases hi : polyfillTimerGetFreeSlot s.slots with
      | none =>
        left
        simpa [JsOp.run, polyfillTimerSetTimeout, hi] using Still.refl s
      | some i => exact Or.inr ⟨i, rfl, rfl⟩
  | clearTimeout timer => exact Or.inl (clearTimeout_still s timer)
  | enqueueJob => exact Or.inl ⟨rfl, rfl, rfl, rfl, fun _ => Or.inl rfl⟩

/-- A step leaves the slots, makes a timer, begins a callback or ends one. -/
theorem step_cases (s : Timers) (input : Input) : Still s (step s input) ∨
    (∃ i, polyfillTimerGetFreeSlot s.slots = some i ∧
      step s input = polyfillTimerSetTimeout s true) ∨
    (∃ t, s.running = none ∧ s.active t = true ∧ step s input = expire s t) ∨
    (∃ t, s.running = some t ∧ step s input = callbackEnd s t) := by
  cases input with
  | call c =>
    left
    simp only [step]
    split
    · exact ⟨rfl, rfl, rfl, rfl, fun _ => Or.inl rfl⟩
    · exact Still.refl s
  | script o =>
    simp only [step]
    split
    · exact (op_cases s o).imp_right Or.inl
    · exact Or.inl (Still.refl s)
  | next thrown => exact Or.inl (next_still s thrown)
  | take =>
    left
    simp only [step]
    split
    · exact take_still s
    · exact Still.refl s
  | expire t =>
    simp only [step]
    split
    · rename_i hc
      exact Or.inr (Or.inr (Or.inl ⟨t, hc.1, hc.2, rfl⟩))
    · exact Or.inl (Still.refl s)
  | callback o =>
    simp only [step]
    split
    · exact Or.inl (Still.refl s)
    · exact (op_cases s o).imp_right Or.inl
  | callbackEnd =>
    simp only [step]
    split
    · exact Or.inl (Still.refl s)
    · exact Or.inr (Or.inr (Or.inr ⟨_, ‹_›, rfl⟩))
  | other => exact Or.inl (command_still s .other)

/-! ## The invariant -/

/-- The callback of the timer has come to its end. -/
def Ended (s : Timers) (t : TimerId) : Prop := s.fate t = .fired ∧ s.running ≠ some t

structure HandlesOk (s : Timers) : Prop where
  length : s.slots.length = ISERE_JS_POLYFILLS_MAX_TIMERS
  once : ∀ t, s.slots.count (some t) ≤ 1
  mem : ∀ t, some t ∈ s.slots ↔ t < s.nextTimer ∧ ¬Ended s t
  fires : ∀ t, s.running = some t → s.fate t = .fired

variable {s s' : Timers}

/-! ## What the steps keep -/

theorem HandlesOk.still (h : HandlesOk s) (hs : Still s s') : HandlesOk s' := by
  have hended : ∀ t, Ended s' t ↔ Ended s t := by
    intro t
    unfold Ended
    rw [hs.fired, hs.running]
  refine ⟨hs.slots ▸ h.length, hs.slots ▸ h.once, ?_, ?_⟩
  · intro t
    rw [hs.slots, hs.nextTimer, hended]
    exact h.mem t
  · intro t ht
    exact (hs.fired t).mpr (h.fires t (hs.running ▸ ht))

/-- A new timer takes a free slot. -/
theorem create_handlesOk (hT : TimersOk s) (h : HandlesOk s) {i : Nat}
    (hi : polyfillTimerGetFreeSlot s.slots = some i) :
    HandlesOk (polyfillTimerSetTimeout s true) := by
  rw [setTimeout_takes hi]
  have hfree := freeSlot_spec hi
  have hfate : (if s.queue.length < configTIMER_QUEUE_LENGTH then Fate.waiting else .failed) ≠
      .fired := by split <;> simp
  obtain ⟨hunused, hslot⟩ := hT.unborn s.nextTimer (Nat.le_refl _)
  refine ⟨by simp [h.length], ?_, ?_, ?_⟩
  · intro t
    rw [count_take hfree]
    split
    · rename_i ht
      subst ht
      simp [List.count_eq_zero.mpr hslot]
    · exact h.once t
  · intro t
    rw [mem_take hfree, h.mem t]
    by_cases ht : t = s.nextTimer
    · subst ht
      simp [Ended, hfate]
    · have hlt : t < s.nextTimer + 1 ↔ t < s.nextTimer :=
        ⟨fun h => Nat.lt_of_le_of_ne (Nat.le_of_lt_succ h) ht, Nat.lt_succ_of_lt⟩
      simp [Ended, ht, hlt]
  · intro t ht
    have hne : t ≠ s.nextTimer := by
      rintro rfl
      exact (not_inUse hunused).2.2.1 ht
    simpa [hne] using h.fires t ht

theorem expire_handlesOk (hT : TimersOk s) (h : HandlesOk s) (hr : s.running = none) {t : TimerId}
    (ha : s.active t = true) : HandlesOk (expire s t) := by
  have hmem : some t ∈ s.slots := List.mem_of_getElem? (hT.held t (Or.inl ha))
  refine ⟨h.length, h.once, ?_, ?_⟩
  · intro u
    have hu := h.mem u
    by_cases hut : u = t
    · subst hut
      simpa [Ended, expire, hmem] using ((h.mem u).mp hmem).1
    · simpa [Ended, expire, hr, hut, Ne.symm hut] using hu
  · intro u hu
    obtain rfl : t = u := Option.some.inj hu
    simp [expire]

/-- The callback ends, and the slot is free. -/
theorem callbackEnd_handlesOk (hT : TimersOk s) (h : HandlesOk s) {t : TimerId}
    (hr : s.running = some t) : HandlesOk (callbackEnd s t) := by
  have hslot : s.slots[s.slotOf t]? = some (some t) := hT.held t (Or.inr (Or.inr (Or.inl hr)))
  refine ⟨by simp [callbackEnd, h.length], ?_, ?_, fun u hu => nomatch hu⟩
  · intro u
    exact Nat.le_trans (Nat.le.intro (count_release hslot).symm) (h.once u)
  · intro u
    have hu := h.mem u
    simp only [callbackEnd]
    rw [mem_release hslot (h.once t)]
    by_cases hut : u = t
    · subst hut
      simp [Ended, h.fires u hr]
    · simpa [Ended, hr, hut, Ne.symm hut] using hu

/-- Every step keeps each handle in its slot until its callback has ended. -/
theorem step_handlesOk (hT : TimersOk s) (h : HandlesOk s) (input : Input) :
    HandlesOk (step s input) := by
  rcases step_cases s input with hs | ⟨i, hi, heq⟩ | ⟨t, hr, ha, heq⟩ | ⟨t, hr, heq⟩
  · exact h.still hs
  · rw [heq]
    exact create_handlesOk hT h hi
  · rw [heq]
    exact expire_handlesOk hT h hr ha
  · rw [heq]
    exact callbackEnd_handlesOk hT h hr

theorem start_handlesOk : HandlesOk start := by
  refine ⟨rfl, ?_, ?_, fun t ht => nomatch ht⟩
  · intro t
    simp [start, List.count_replicate]
  · intro t
    simp [start]

end isere.timers
