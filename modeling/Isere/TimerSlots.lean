-- The slots of the timers of a context: a timer that waits, that is on its way to
-- the daemon, or whose callback runs, holds the slot of its ID.
import Isere.JsTimers
import Mathlib.Data.List.Count
import Mathlib.Tactic.Common

namespace isere.timers

/-! ## What the script does -/

/-- A command only changes the queue. -/
theorem xTimerGenericCommand_frame (s : Timers) (c : Command) :
    (xTimerGenericCommand s c).1.pc = s.pc ∧ (xTimerGenericCommand s c).1.jobs = s.jobs ∧
      (xTimerGenericCommand s c).1.slots = s.slots ∧
      (xTimerGenericCommand s c).1.fate = s.fate := by
  unfold xTimerGenericCommand
  split <;> exact ⟨rfl, rfl, rfl, rfl⟩

/-- With a free slot and memory, `setTimeout` makes a timer. It waits if there is room
for its start. -/
theorem setTimeout_takes {s : Timers} {i : Nat} (hi : polyfillTimerGetFreeSlot s.slots = some i) :
    polyfillTimerSetTimeout s true = { s with
      slots := s.slots.set i (some s.nextTimer),
      slotOf := Function.update s.slotOf s.nextTimer i,
      nextTimer := s.nextTimer + 1,
      queue := if s.queue.length < configTIMER_QUEUE_LENGTH then s.queue ++ [.start s.nextTimer]
        else s.queue,
      fate := Function.update s.fate s.nextTimer
        (if s.queue.length < configTIMER_QUEUE_LENGTH then .waiting else .failed) } := by
  unfold polyfillTimerSetTimeout
  rw [hi]
  by_cases hq : s.queue.length < configTIMER_QUEUE_LENGTH <;> simp [xTimerGenericCommand, hq]

/-- `setTimeout` fails before it takes a slot, takes one and fails to start the
timer, or starts it. -/
theorem setTimeout_cases (s : Timers) (created : Bool) : polyfillTimerSetTimeout s created = s ∨
    ∃ i, polyfillTimerGetFreeSlot s.slots = some i ∧ created = true ∧
      ((configTIMER_QUEUE_LENGTH ≤ s.queue.length ∧ polyfillTimerSetTimeout s created =
        { s with
          slots := s.slots.set i (some s.nextTimer),
          slotOf := Function.update s.slotOf s.nextTimer i,
          nextTimer := s.nextTimer + 1,
          fate := Function.update s.fate s.nextTimer .failed }) ∨
      (s.queue.length < configTIMER_QUEUE_LENGTH ∧ polyfillTimerSetTimeout s created =
        { s with
          slots := s.slots.set i (some s.nextTimer),
          slotOf := Function.update s.slotOf s.nextTimer i,
          nextTimer := s.nextTimer + 1,
          queue := s.queue ++ [.start s.nextTimer],
          fate := Function.update s.fate s.nextTimer .waiting })) := by
  cases hi : polyfillTimerGetFreeSlot s.slots with
  | none => exact Or.inl (by simp [polyfillTimerSetTimeout, hi])
  | some i =>
    cases created with
    | false => exact Or.inl (by simp [polyfillTimerSetTimeout, hi])
    | true =>
      refine Or.inr ⟨i, rfl, rfl, ?_⟩
      rw [setTimeout_takes hi]
      by_cases hq : s.queue.length < configTIMER_QUEUE_LENGTH
      · exact Or.inr ⟨hq, by simp [hq]⟩
      · exact Or.inl ⟨Nat.not_lt.mp hq, by simp [hq]⟩

theorem freeSlot_spec {slots : List (Option TimerId)} {i : Nat}
    (h : polyfillTimerGetFreeSlot slots = some i) : slots[i]? = some none := by
  obtain ⟨hlt, hfree, -⟩ := List.findIdx?_eq_some_iff_getElem.mp h
  rw [List.getElem?_eq_getElem hlt]
  simpa using hfree

/-! ## The invariant -/

/-- The timer is on its way to fire, or fires. -/
def InUse (s : Timers) (t : TimerId) : Prop :=
  s.active t = true ∨ .start t ∈ s.queue ∨ s.running = some t ∨ s.fate t = .waiting

structure TimersOk (s : Timers) : Prop where
  unborn : ∀ t, s.nextTimer ≤ t → ¬InUse s t ∧ some t ∉ s.slots
  held : ∀ t, InUse s t → s.slots[s.slotOf t]? = some (some t)
  once : ∀ t, .start t ∈ s.queue →
    s.active t = false ∧ s.running ≠ some t ∧ s.queue.count (.start t) = 1
  runs : ∀ t, s.running = some t → s.active t = false ∧ s.fate t ≠ .waiting

variable {s s' : Timers}

/-- No timer becomes active, starts to wait or is started. -/
theorem TimersOk.congr (h : TimersOk s) (hs : s'.slots = s.slots) (hof : s'.slotOf = s.slotOf)
    (hn : s'.nextTimer = s.nextTimer) (ha : ∀ t, s'.active t = true → s.active t = true)
    (hr : s'.running = s.running) (hf : ∀ t, s'.fate t = .waiting → s.fate t = .waiting)
    (hq : ∀ t, s'.queue.count (.start t) = s.queue.count (.start t)) : TimersOk s' := by
  have hmem : ∀ t, .start t ∈ s'.queue ↔ .start t ∈ s.queue := by
    intro t
    rw [← List.count_pos_iff, ← List.count_pos_iff, hq]
  have hidle : ∀ t, s.active t = false → s'.active t = false := by
    intro t ht
    rw [← Bool.not_eq_true]
    intro hact
    rw [ha t hact] at ht
    cases ht
  have hin : ∀ t, InUse s' t → InUse s t := by
    intro t ht
    unfold InUse at ht
    rw [hr, hmem] at ht
    exact ht.imp (ha t) (Or.imp_right (Or.imp_right (hf t)))
  refine ⟨?_, ?_, ?_, ?_⟩
  · intro t ht
    rw [hs]
    exact ⟨fun hu => (h.unborn t (hn ▸ ht)).1 (hin t hu), (h.unborn t (hn ▸ ht)).2⟩
  · intro t ht
    rw [hs, hof]
    exact h.held t (hin t ht)
  · intro t ht
    obtain ⟨hact, hrun, hcount⟩ := h.once t ((hmem t).mp ht)
    rw [hr, hq]
    exact ⟨hidle t hact, hrun, hcount⟩
  · intro t ht
    obtain ⟨hact, hwait⟩ := h.runs t (hr ▸ ht)
    exact ⟨hidle t hact, fun hw => hwait (hf t hw)⟩

/-- A command that is no start. -/
theorem TimersOk.command (h : TimersOk s) {c : Command} (hc : ∀ t, c ≠ .start t) :
    TimersOk (xTimerGenericCommand s c).1 := by
  unfold xTimerGenericCommand
  split
  · refine h.congr rfl rfl rfl (fun _ ht => ht) rfl (fun _ ht => ht) ?_
    intro t
    simp [List.count_append, hc t]
  · exact h

theorem not_inUse {t : TimerId} (h : ¬InUse s t) : s.active t = false ∧ .start t ∉ s.queue ∧
    s.running ≠ some t ∧ s.fate t ≠ .waiting := by
  simpa [InUse, not_or] using h

/-- A new timer takes a free slot. If it is started, its start is queued. -/
theorem TimersOk.create (h : TimersOk s) {i : Nat} (hi : s.slots[i]? = some none)
    {queue : List Command} {fate : Fate}
    (hq : (queue = s.queue ∧ fate ≠ .waiting) ∨ queue = s.queue ++ [.start s.nextTimer]) :
    TimersOk { s with
      slots := s.slots.set i (some s.nextTimer),
      slotOf := Function.update s.slotOf s.nextTimer i,
      nextTimer := s.nextTimer + 1,
      queue := queue,
      fate := Function.update s.fate s.nextTimer fate } := by
  obtain ⟨hunused, hslot⟩ := h.unborn s.nextTimer (Nat.le_refl _)
  obtain ⟨hact, hnq, hrun, -⟩ := not_inUse hunused
  have hlt : i < s.slots.length := (List.getElem?_eq_some_iff.mp hi).1
  have hcount : ∀ t, t ≠ s.nextTimer → queue.count (.start t) = s.queue.count (.start t) := by
    intro t ht
    rcases hq with ⟨rfl, -⟩ | rfl
    · rfl
    · simp [List.count_append, Ne.symm ht]
  have hmem : ∀ t, t ≠ s.nextTimer → (.start t ∈ queue ↔ .start t ∈ s.queue) := by
    intro t ht
    rw [← List.count_pos_iff, ← List.count_pos_iff, hcount t ht]
  refine ⟨?_, ?_, ?_, ?_⟩
  · intro t ht
    have hne : t ≠ s.nextTimer := Nat.ne_of_gt (Nat.lt_of_succ_le ht)
    obtain ⟨hun, hsl⟩ := h.unborn t (Nat.le_of_succ_le ht)
    constructor
    · simpa [InUse, hne, hmem t hne] using hun
    · intro hset
      rcases List.mem_or_eq_of_mem_set hset with hold | hnew
      · exact hsl hold
      · exact hne (Option.some.inj hnew)
  · intro t ht
    by_cases hne : t = s.nextTimer
    · subst hne
      simp [hlt]
    · have hin : InUse s t := by simpa [InUse, hne, hmem t hne] using ht
      have hheld := h.held t hin
      have hother : i ≠ s.slotOf t := by
        rintro rfl
        rw [hi] at hheld
        cases hheld
      simpa [hne, List.getElem?_set_ne hother] using hheld
  · intro t ht
    by_cases hne : t = s.nextTimer
    · subst hne
      refine ⟨hact, hrun, ?_⟩
      rcases hq with ⟨rfl, -⟩ | rfl
      · exact absurd ht hnq
      · simp [List.count_append, List.count_eq_zero_of_not_mem hnq]
    · rw [hcount t hne]
      exact h.once t ((hmem t hne).mp ht)
  · intro t ht
    have hne : t ≠ s.nextTimer := by
      rintro rfl
      exact hrun ht
    simpa [hne] using h.runs t ht

/-! ## What the steps keep -/

theorem op_timersOk (h : TimersOk s) (o : JsOp) : TimersOk (o.run s) := by
  cases o with
  | setTimeout created =>
    simp only [JsOp.run]
    rcases setTimeout_cases s created with heq | ⟨i, hi, -, ⟨-, heq⟩ | ⟨-, heq⟩⟩
    · rw [heq]
      exact h
    · rw [heq]
      exact h.create (freeSlot_spec hi) (Or.inl ⟨rfl, by simp⟩)
    · rw [heq]
      exact h.create (freeSlot_spec hi) (Or.inr rfl)
  | clearTimeout t =>
    simp only [JsOp.run, polyfillTimerClearTimeout]
    split
    · exact h
    · have hcmd := h.command (c := .stop t) (by simp)
      have hfate := (xTimerGenericCommand_frame s (.stop t)).2.2.2
      refine hcmd.congr rfl rfl rfl (fun _ ht => ht) rfl ?_ (fun _ => rfl)
      intro u hu
      rw [hfate]
      by_cases hut : u = t
      · subst hut
        simp only [Function.update_self] at hu
        split at hu
        · cases hu
        · exact hu
      · simpa [hut] using hu
  | enqueueJob => exact h.congr rfl rfl rfl (fun _ ht => ht) rfl (fun _ ht => ht) (fun _ => rfl)

theorem update_false {active : TimerId → Bool} {t u : TimerId}
    (h : Function.update active t false u = true) : active u = true := by
  by_cases hu : u = t
  · subst hu
    simp at h
  · simpa [hu] using h

theorem take_timersOk (h : TimersOk s) (hr : s.running = none) : TimersOk (takeCommand s) := by
  unfold takeCommand
  split
  · exact h
  · rename_i t queue hq
    obtain ⟨-, -, hcount⟩ := h.once t (by simp [hq])
    have hgone : .start t ∉ queue := by
      rw [hq, List.count_cons_self] at hcount
      exact List.count_eq_zero.mp (Nat.succ.inj hcount)
    have hmem : ∀ u, .start u ∈ queue → .start u ∈ s.queue :=
      fun u hu => hq ▸ List.mem_cons_of_mem _ hu
    have hin : ∀ u, InUse { s with queue, active := Function.update s.active t true } u →
        InUse s u := by
      intro u hu
      by_cases hut : u = t
      · subst hut
        exact Or.inr (Or.inl (by simp [hq]))
      · simp only [InUse, Function.update_of_ne hut] at hu
        exact hu.imp_right (Or.imp_left (hmem u))
    refine ⟨?_, fun u hu => h.held u (hin u hu), ?_, ?_⟩
    · exact fun u hu => ⟨fun hin' => (h.unborn u hu).1 (hin u hin'), (h.unborn u hu).2⟩
    · intro u hu
      have hut : u ≠ t := by
        rintro rfl
        exact hgone hu
      obtain ⟨hact, hrun, hcount'⟩ := h.once u (hmem u hu)
      refine ⟨by simpa [hut] using hact, hrun, ?_⟩
      rw [hq, List.count_cons_of_ne (by simpa using Ne.symm hut)] at hcount'
      exact hcount'
    · intro u hu
      rw [hr] at hu
      cases hu
  · rename_i t queue hq
    exact h.congr rfl rfl rfl (fun _ => update_false) rfl (fun _ ht => ht) (fun u => by simp [hq])
  · rename_i t queue hq
    exact h.congr rfl rfl rfl (fun _ => update_false) rfl (fun _ ht => ht) (fun u => by simp [hq])
  · rename_i queue hq
    exact h.congr rfl rfl rfl (fun _ ht => ht) rfl (fun _ ht => ht) (fun u => by simp [hq])

theorem expire_timersOk (h : TimersOk s) (hr : s.running = none) {t : TimerId}
    (ha : s.active t = true) : TimersOk (expire s t) := by
  have hin : ∀ u, InUse (expire s t) u → InUse s u := by
    intro u hu
    by_cases hut : u = t
    · subst hut
      exact Or.inl ha
    · simpa [InUse, expire, hut, Ne.symm hut, hr] using hu
  refine ⟨?_, fun u hu => h.held u (hin u hu), ?_, ?_⟩
  · exact fun u hu => ⟨fun hin' => (h.unborn u hu).1 (hin u hin'), (h.unborn u hu).2⟩
  · intro u hu
    obtain ⟨hact, -, hcount⟩ := h.once u hu
    have hut : u ≠ t := by
      rintro rfl
      rw [ha] at hact
      cases hact
    exact ⟨by simpa [expire, hut] using hact, by simp [expire, Ne.symm hut], hcount⟩
  · intro u hu
    obtain rfl : t = u := Option.some.inj hu
    simp [expire]

theorem callbackEnd_timersOk (h : TimersOk s) {t : TimerId} (hr : s.running = some t) :
    TimersOk (callbackEnd s t) := by
  have hin : ∀ u, InUse (callbackEnd s t) u → InUse s u ∧ u ≠ t := by
    intro u hu
    have hold : InUse s u := by
      simp only [InUse, callbackEnd] at hu
      simp only [InUse]
      tauto
    refine ⟨hold, ?_⟩
    rintro rfl
    obtain ⟨hact, hwait⟩ := h.runs u hr
    rcases hu with hu | hu | hu | hu
    · exact absurd (hu.symm.trans hact) (by simp)
    · exact (h.once u hu).2.1 hr
    · cases hu
    · exact hwait hu
  refine ⟨?_, ?_, ?_, ?_⟩
  · intro u hu
    refine ⟨fun hin' => (h.unborn u hu).1 (hin u hin').1, ?_⟩
    intro hmem
    rcases List.mem_or_eq_of_mem_set hmem with hold | hnew
    · exact (h.unborn u hu).2 hold
    · cases hnew
  · intro u hu
    obtain ⟨hold, hut⟩ := hin u hu
    have hheld := h.held u hold
    have hother : s.slotOf t ≠ s.slotOf u := by
      intro heq
      have hrun := h.held t (Or.inr (Or.inr (Or.inl hr)))
      rw [heq, hheld] at hrun
      exact hut (by simpa using hrun)
    simpa [callbackEnd, List.getElem?_set_ne hother] using hheld
  · intro u hu
    obtain ⟨hact, -, hcount⟩ := h.once u hu
    exact ⟨hact, by simp [callbackEnd], hcount⟩
  · intro u hu
    cases hu

/-- A step of the httpd task outside of its script queues at most a stop or a
delete. -/
theorem next_timersOk (h : TimersOk s) (thrown : Bool) : TimersOk (next s thrown) := by
  have hpc : ∀ (s : Timers) (pc : Pc) (jobs : Nat), TimersOk s →
      TimersOk { s with pc, jobs } :=
    fun s pc jobs h => h.congr rfl rfl rfl (fun _ ht => ht) rfl (fun _ ht => ht) (fun _ => rfl)
  unfold next
  split
  · exact h
  · exact hpc s _ _ h
  · unfold scanSlot
    split
    · exact hpc s _ _ h
    · exact hpc s _ _ h
    · split <;> exact hpc s _ _ h
  · unfold executePendingJob
    split <;> exact hpc s _ _ h
  · exact hpc s _ _ h
  · exact hpc s _ _ h
  · unfold stopSlot
    split
    · exact hpc s _ _ h
    · exact hpc s _ _ h
    · exact hpc _ _ _ (h.command (by simp))
  · exact hpc _ _ _ (h.command (by simp))
  · exact h

/-- Every step keeps the slots of the timers. -/
theorem step_timersOk (h : TimersOk s) (input : Input) : TimersOk (step s input) := by
  cases input with
  | call c =>
    simp only [step]
    split
    · exact h.congr rfl rfl rfl (fun _ ht => ht) rfl (fun _ ht => ht) (fun _ => rfl)
    · exact h
  | script o =>
    simp only [step]
    split
    · exact op_timersOk h o
    · exact h
  | next thrown => exact next_timersOk h thrown
  | take =>
    simp only [step]
    split
    · exact take_timersOk h ‹_›
    · exact h
  | expire t =>
    simp only [step]
    split
    · rename_i hc
      exact expire_timersOk h hc.1 hc.2
    · exact h
  | callback o =>
    simp only [step]
    split
    · exact h
    · exact op_timersOk h o
  | callbackEnd =>
    simp only [step]
    split
    · exact h
    · exact callbackEnd_timersOk h ‹_›
  | other => exact h.command (by simp)

theorem start_timersOk : TimersOk start := by
  refine ⟨?_, ?_, ?_, ?_⟩
  · intro t _
    exact ⟨by simp [InUse, start], by simp [start]⟩
  · intro t ht
    simp [InUse, start] at ht
  · intro t ht
    simp [start] at ht
  · intro t ht
    simp [start] at ht

end isere.timers
