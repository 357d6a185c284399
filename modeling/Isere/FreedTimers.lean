-- After js_runtime_deinit_context has freed a QuickJS context, no callback of its
-- timers runs, as long as the daemon has nothing of it left to do at that moment.
-- The stops and deletes that the deinit posts do not bring that about.
import Isere.Quiescence

open runs

namespace isere.timers

/-! ## A daemon with nothing left to do -/

/-- No timer of the context is active or on its way to be, and no callback runs. -/
def Quiet (s : Timers) : Prop :=
  s.running = none ∧ ∀ t, s.active t = false ∧ .start t ∉ s.queue

/-- `Quiet`, over the timers that exist. -/
def idleDaemon (s : Timers) : Bool :=
  s.running = none && (List.range s.nextTimer).all (fun t => !s.active t && .start t ∉ s.queue)

/-- The context is freed with an idle daemon. -/
def freesIdle (s : Timers) : Input → Bool
  | .next _ =>
    match s.pc with
    | .stopping i => s.slots[i]?.isSome || idleDaemon s
    | _ => true
  | _ => true

variable {s s' : Timers}

theorem TimersOk.quiet (h : TimersOk s) (hidle : idleDaemon s = true) : Quiet s := by
  simp only [idleDaemon, Bool.and_eq_true, decide_eq_true_eq, List.all_eq_true, List.mem_range,
    Bool.not_eq_true'] at hidle
  refine ⟨hidle.1, ?_⟩
  intro t
  by_cases ht : t < s.nextTimer
  · exact hidle.2 t ht
  · obtain ⟨hact, hstart, -, -⟩ := not_inUse (h.unborn t (Nat.not_lt.mp ht)).1
    exact ⟨hact, hstart⟩

/-- No timer becomes active or is started. -/
theorem Quiet.congr (h : Quiet s) (hr : s'.running = s.running)
    (ha : ∀ t, s'.active t = true → s.active t = true)
    (hq : ∀ t, .start t ∈ s'.queue → .start t ∈ s.queue) : Quiet s' := by
  refine ⟨hr.trans h.1, ?_⟩
  intro t
  obtain ⟨hact, hstart⟩ := h.2 t
  refine ⟨?_, fun hmem => hstart (hq t hmem)⟩
  rw [← Bool.not_eq_true] at hact ⊢
  exact fun hup => hact (ha t hup)

/-! ## Steps after the free -/

/-- Once freed, a context stays freed, and an idle daemon stays idle. -/
theorem step_quiet (hp : s.pc = .freed) (hq : Quiet s) (input : Input) :
    (step s input).pc = .freed ∧ Quiet (step s input) := by
  obtain ⟨hrun, hidle⟩ := id hq
  cases input with
  | call c => simpa [step, hp] using hq
  | script o => simpa [step, hp, Pc.inScript] using hq
  | next thrown => simpa [step, next, hp] using hq
  | take =>
    simp only [step]
    rw [if_pos hrun]
    unfold takeCommand
    split
    · exact ⟨hp, hq⟩
    · rename_i t queue hqueue
      exact absurd (by simp [hqueue]) (hidle t).2
    · rename_i t queue hqueue
      exact ⟨hp, hq.congr rfl (fun _ => update_false) (fun u hu => by simp [hqueue, hu])⟩
    · rename_i t queue hqueue
      exact ⟨hp, hq.congr rfl (fun _ => update_false) (fun u hu => by simp [hqueue, hu])⟩
    · rename_i queue hqueue
      exact ⟨hp, hq.congr rfl (fun _ hu => hu) (fun u hu => by simp [hqueue, hu])⟩
  | expire t => simpa [step, (hidle t).1] using ⟨hp, hq⟩
  | callback o => simpa [step, hrun] using ⟨hp, hq⟩
  | callbackEnd => simpa [step, hrun] using ⟨hp, hq⟩
  | other =>
    simp only [step, xTimerGenericCommand]
    split
    · exact ⟨hp, hq.congr rfl (fun _ hu => hu) (fun u hu => by simpa using hu)⟩
    · exact ⟨hp, hq⟩

/-- Scripts, the daemon and the other contexts leave the httpd task where it is. -/
theorem step_pc {input : Input} (hc : ∀ c, input ≠ .call c) (hn : ∀ thrown, input ≠ .next thrown) :
    (step s input).pc = s.pc := by
  cases input with
  | call c => exact absurd rfl (hc c)
  | script o =>
    simp only [step]
    split
    · exact op_pc s o
    · rfl
  | next thrown => exact absurd rfl (hn thrown)
  | take =>
    simp only [step, takeCommand]
    split
    · split <;> rfl
    · rfl
  | expire t =>
    simp only [step]
    split <;> rfl
  | callback o =>
    simp only [step]
    split
    · rfl
    · exact op_pc s o
  | callbackEnd =>
    simp only [step]
    split <;> rfl
  | other => exact (xTimerGenericCommand_frame s .other).1

/-- Only the deinit frees the context, after the last slot. -/
theorem next_frees {thrown : Bool} (hp : s.pc ≠ .freed) (hf : (next s thrown).pc = .freed) :
    ∃ i, s.pc = .stopping i ∧ s.slots[i]? = none ∧ next s thrown = { s with pc := .freed } := by
  unfold next at hf ⊢
  split at hf
  · exact absurd hf hp
  · cases hf
  · unfold scanSlot at hf
    split at hf
    · cases hf
    · cases hf
    · split at hf <;> cases hf
  · unfold executePendingJob at hf
    split at hf <;> cases hf
  · cases hf
  · cases hf
  · rename_i i hpc
    unfold stopSlot at hf ⊢
    split at hf
    · rename_i hend
      exact ⟨i, hpc, hend, rfl⟩
    · cases hf
    · cases hf
  · cases hf
  · exact absurd hf hp

theorem frees {input : Input} (hp : s.pc ≠ .freed) (hf : (step s input).pc = .freed) :
    ∃ thrown i, input = .next thrown ∧ s.pc = .stopping i ∧ s.slots[i]? = none ∧
      step s input = { s with pc := .freed } := by
  by_cases hcall : ∃ c, input = .call c
  · obtain ⟨c, rfl⟩ := hcall
    simp only [step] at hf
    split at hf
    · cases c <;> cases hf
    · exact absurd hf hp
  · by_cases hnext : ∃ thrown, input = .next thrown
    · obtain ⟨thrown, rfl⟩ := hnext
      obtain ⟨i, hpc, hend, heq⟩ := next_frees hp hf
      exact ⟨thrown, i, rfl, hpc, hend, heq⟩
    · have hpc := step_pc (s := s) (not_exists.mp hcall) (not_exists.mp hnext)
      exact absurd (hpc.symm.trans hf) hp

/-! ## The law -/

theorem step_freed (h : TimersOk s) (hq : s.pc = .freed → Quiet s) {input : Input}
    (hok : freesIdle s input = true) (hf : (step s input).pc = .freed) :
    Quiet (step s input) := by
  by_cases hp : s.pc = .freed
  · exact (step_quiet hp (hq hp) input).2
  · obtain ⟨thrown, i, rfl, hpc, hend, heq⟩ := frees hp hf
    rw [heq]
    have hidle : idleDaemon s = true := by simpa [freesIdle, hpc, hend] using hok
    exact h.quiet hidle

/-- In every run where a context is freed only with an idle daemon, no callback
runs once it is freed. -/
theorem no_callback_runs_once_freed (inputs : List Input)
    (h : StepsOk step (fun s input => freesIdle s input = true) start inputs) :
    (run step start inputs).pc = .freed → (run step start inputs).running = none := by
  have hinv : TimersOk (run step start inputs) ∧
      ((run step start inputs).pc = .freed → Quiet (run step start inputs)) := by
    refine run_inv (I := fun s => TimersOk s ∧ (s.pc = .freed → Quiet s)) ?_ ?_ h
    · intro s input hs hok
      exact ⟨step_timersOk hs.1 input, step_freed hs.1 hs.2 hok⟩
    · exact ⟨start_timersOk, fun hf => nomatch hf⟩
  exact fun hf => (hinv.2 hf).1

/-- The calls of a deinit, with the timers of `n` slots to stop and delete. -/
def deinitSteps (n : Nat) : List Input :=
  .call .deinit :: List.replicate (ISERE_JS_POLYFILLS_MAX_TIMERS + n + 1) (.next false)

/-- A timer fires, one is cleared, and the daemon takes the stop before the free. -/
def clearedInputs : List Input :=
  [.call .eval, .script (.setTimeout true), .script (.setTimeout true), .next false, .take,
    .take, .expire 0, .callback (.clearTimeout 1), .callbackEnd, .take] ++ deinitSteps 1

theorem a_cleared_timer_stays_silent :
    (run step start clearedInputs).pc = .freed ∧ (run step start clearedInputs).running = none :=
  ⟨by decide +kernel, no_callback_runs_once_freed clearedInputs (by decide +kernel)
    (by decide +kernel)⟩

/-- The timer expires before the daemon takes the stop that the deinit posted. -/
theorem a_timer_outlives_its_context :
    ∃ inputs, (run step start inputs).pc = .freed ∧ (run step start inputs).running = some 0 :=
  ⟨[.call .eval, .script (.setTimeout true), .next false, .take] ++ deinitSteps 1 ++ [.expire 0],
    by decide +kernel, by decide +kernel⟩

/-! ## What a free without an idle daemon lets happen -/

theorem takeCommand_cons {c : Command} {queue : List Command} (h : s.queue = c :: queue) :
    (takeCommand s).queue = queue ∧ (takeCommand s).running = s.running ∧
      (takeCommand s).pc = s.pc := by
  unfold takeCommand
  rw [h]
  cases c <;> exact ⟨rfl, rfl, rfl⟩

/-- A start on the queue makes its timer active in the end. -/
theorem takes_the_start {t : TimerId} (queue : List Command) (s : Timers) (hq : s.queue = queue)
    (hr : s.running = none) (ht : .start t ∈ queue) :
    ∃ inputs, (run step s inputs).active t = true ∧ (run step s inputs).running = none ∧
      (run step s inputs).pc = s.pc := by
  induction queue generalizing s with
  | nil => cases ht
  | cons c queue ih =>
    obtain ⟨hrest, hrun, hpc⟩ := takeCommand_cons hq
    have hstep : step s .take = takeCommand s := by simp [step, hr]
    by_cases hc : c = .start t
    · subst hc
      refine ⟨[.take], ?_⟩
      rw [run_cons, run_nil, hstep]
      refine ⟨?_, hrun.trans hr, hpc⟩
      unfold takeCommand
      rw [hq]
      exact Function.update_self ..
    · have hlater : .start t ∈ queue := (List.mem_cons.mp ht).resolve_left (Ne.symm hc)
      obtain ⟨inputs, hact, hrun', hpc'⟩ := ih (takeCommand s) hrest (hrun.trans hr) hlater
      refine ⟨.take :: inputs, ?_⟩
      rw [run_cons, hstep]
      exact ⟨hact, hrun', hpc'.trans hpc⟩

/-- Whenever the daemon is not idle at the free, a callback can run after it. -/
theorem a_busy_daemon_calls_back {i : Nat} (hp : s.pc = .stopping i) (hi : s.slots[i]? = none)
    (hbusy : idleDaemon s = false) :
    ∃ inputs, (run step s (.next false :: inputs)).pc = .freed ∧
      (run step s (.next false :: inputs)).running ≠ none := by
  have hfree : step s (.next false) = { s with pc := .freed } := by
    simp [step, next, stopSlot, hp, hi]
  have hexpire : ∀ (s : Timers) (t : TimerId), s.running = none → s.active t = true →
      s.pc = .freed → (step s (.expire t)).pc = .freed ∧ (step s (.expire t)).running ≠ none := by
    intro s t hr ha hf
    simp [step, hr, ha, expire, hf]
  by_cases hr : s.running = none
  · simp only [idleDaemon, hr, decide_true, Bool.true_and, List.all_eq_false, List.mem_range,
      Bool.and_eq_true, Bool.not_eq_true', decide_eq_true_eq, not_and_or, Bool.not_eq_false,
      not_not] at hbusy
    obtain ⟨t, -, hact | hstart⟩ := hbusy
    · refine ⟨[.expire t], ?_⟩
      rw [run_cons, hfree]
      exact hexpire _ t hr hact rfl
    · obtain ⟨inputs, hact, hrun, hpc⟩ :=
        takes_the_start s.queue { s with pc := .freed } rfl hr hstart
      refine ⟨inputs ++ [.expire t], ?_⟩
      rw [run_cons, hfree, run_append]
      exact hexpire _ t hrun hact hpc
  · refine ⟨[], ?_⟩
    rw [run_cons, hfree]
    exact ⟨rfl, hr⟩

end isere.timers
