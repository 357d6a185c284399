-- What polyfill_timer_setTimeout of src/polyfills/quickjs/timer.c takes, and who gives
-- it back: the object, the reference to the function, and the timer, with an
-- account of how often each reference is freed and each timer is deleted.
import Isere.FreedTimers
import Isere.TimerHandles

open runs

namespace isere.timers

/-- A reference that `JS_DupValue` takes for a slot. Each is the next one. -/
abbrev FuncRef := Nat

/-- What `setTimeout` gets: whether its first argument is a function, its second one
a number, and there is memory for the object and for the timer. -/
structure SetTimeoutArgs where
  isFunction : Bool
  isNumber : Bool
  object : Bool
  created : Bool
  deriving DecidableEq, Repr

/-- What `setTimeout` throws. `objectError` is the exception of `JS_NewObjectClass`. -/
inductive Thrown
  | typeError (message : String)
  | internalError (message : String)
  | objectError
  deriving DecidableEq, Repr

/-- The timers, with the `func` of each slot and that of the callback that runs. `freed`,
`calls`, `deleted` and `objects` are not in the source: they count the `JS_FreeValue`
and the `JS_Call` of a reference, the `xTimerDelete` of a timer, and the objects. -/
structure Ledger where
  table : Timers
  funcs : List (Option FuncRef)
  nextFunc : FuncRef
  func : Option FuncRef
  freed : FuncRef → Nat
  calls : FuncRef → Nat
  deleted : TimerId → Nat
  objects : Nat

/-- One more for the entry `x`, if there is one. -/
def count (f : Nat → Nat) : Option Nat → Nat → Nat
  | none => f
  | some x => Function.update f x (f x + 1)

/-! ## The functions of the script -/

/-- `tmr->func = JS_DupValue(ctx, func)`, of slot `i`. -/
def Ledger.dupFunc (l : Ledger) (i : Nat) : Ledger :=
  { l with funcs := l.funcs.set i (some l.nextFunc), nextFunc := l.nextFunc + 1 }

/-- `JS_NewObjectClass`. -/
def Ledger.newObject (l : Ledger) : Ledger := { l with objects := l.objects + 1 }

/-- `JS_FreeValue` of the object. -/
def Ledger.freeObject (l : Ledger) : Ledger := { l with objects := l.objects - 1 }

/-- `polyfill_timer_setTimeout`. The object that it returns has the timer. -/
def Ledger.polyfillTimerSetTimeout (l : Ledger) (args : SetTimeoutArgs) :
    Ledger × Except Thrown TimerId :=
  if !args.isFunction then (l, .error (.typeError "not a function"))
  else if !args.isNumber then (l, .error (.typeError "not a number"))
  else if !args.object then (l, .error .objectError)
  else
    let l := l.newObject
    match polyfillTimerGetFreeSlot l.table.slots with
    | none => (l.freeObject, .error (.internalError "exceeded timer limit"))
    | some i =>
      let l := l.dupFunc i
      if !args.created then (l.freeObject, .error (.internalError "insufficient memory"))
      else
        let timer := l.table.nextTimer
        let s := { l.table with
          slots := l.table.slots.set i (some timer),
          slotOf := Function.update l.table.slotOf timer i,
          nextTimer := timer + 1 }
        match xTimerGenericCommand s (.start timer) with
        | (s, false) =>
          ({ l with table := { s with fate := Function.update s.fate timer .failed } }.freeObject,
            .error (.internalError "timer could not be started"))
        | (s, true) =>
          ({ l with table := { s with fate := Function.update s.fate timer .waiting } }, .ok timer)

/-! ## The callback and the deinit -/

/-- The timer expires, and `polyfill_timer_callback` calls the `func` of its slot. -/
def Ledger.expire (l : Ledger) (t : TimerId) : Ledger :=
  let func := l.funcs[l.table.slotOf t]?.join
  { l with table := timers.expire l.table t, func := func, calls := count l.calls func }

/-- The end of `polyfill_timer_callback`, which frees that `func`. -/
def Ledger.callbackEnd (l : Ledger) (t : TimerId) : Ledger :=
  { l with
    table := timers.callbackEnd l.table t,
    funcs := l.funcs.set (l.table.slotOf t) none,
    func := none,
    freed := count l.freed l.func }

/-- `xTimerStop` and `xTimerDelete` of the timer of a slot. -/
def stopAndDelete (s : Timers) : Option TimerId → Timers
  | none => s
  | some timer =>
    (xTimerGenericCommand (xTimerGenericCommand s (.stop timer)).1 (.delete timer)).1

/-- One slot of the loop of `isere_js_polyfill_timer_deinit`. -/
def Ledger.deinitSlot (l : Ledger) (tmr : Option TimerId × Option FuncRef) : Ledger :=
  { l with
    table := stopAndDelete l.table tmr.1,
    deleted := count l.deleted tmr.1,
    freed := count l.freed tmr.2 }

/-- `isere_js_polyfill_timer_deinit`. -/
def Ledger.polyfillTimerDeinit (l : Ledger) : Ledger :=
  (l.table.slots.zip l.funcs).foldl Ledger.deinitSlot l

/-! ## Sequences -/

/-- What can come next for the context: a function of the script, be it in the httpd
task or in a callback; the daemon with a command, an expiry or the end of the
callback; or another context with a command. -/
inductive Move
  | setTimeout (args : SetTimeoutArgs)
  | clearTimeout (timer : TimerId)
  | take
  | expire (t : TimerId)
  | callbackEnd
  | other
  deriving DecidableEq, Repr

/-- The daemon can begin the callback of the timer. -/
def Timers.expires (s : Timers) (t : TimerId) : Bool := s.running = none && s.active t

def Ledger.step (l : Ledger) : Move → Ledger
  | .setTimeout args => (l.polyfillTimerSetTimeout args).1
  | .clearTimeout timer => { l with table := polyfillTimerClearTimeout l.table timer }
  | .take => { l with table := timers.step l.table .take }
  | .expire t => if l.table.expires t then l.expire t else l
  | .callbackEnd =>
    match l.table.running with
    | none => l
    | some t => l.callbackEnd t
  | .other => { l with table := timers.step l.table .other }

/-- The context after `isere_js_polyfill_timer_init`, in its script. -/
def Ledger.start : Ledger where
  table := timers.step timers.start (.call .eval)
  funcs := List.replicate ISERE_JS_POLYFILLS_MAX_TIMERS none
  nextFunc := 0
  func := none
  freed := fun _ => 0
  calls := fun _ => 0
  deleted := fun _ => 0
  objects := 0

/-- The calls of FreeRTOS succeed. -/
def callsSucceed (l : Ledger) : Move → Bool
  | .setTimeout args => args.created && l.table.queue.length < configTIMER_QUEUE_LENGTH
  | .clearTimeout _ => l.table.queue.length < configTIMER_QUEUE_LENGTH
  | _ => true

/-- A `setTimeout` with a function and a number, and memory for all of it. -/
def plainArgs : SetTimeoutArgs := ⟨true, true, true, true⟩

/-! ## What a setTimeout does -/

/-- The arguments pass, and there is an object. -/
def SetTimeoutArgs.passes (args : SetTimeoutArgs) : Bool :=
  args.isFunction && args.isNumber && args.object

/-- `setTimeout` throws before it takes a slot; it takes a reference and no timer; it
takes both and does not start the timer; or it starts it. -/
theorem Ledger.setTimeout_cases (l : Ledger) (args : SetTimeoutArgs) :
    (∃ e, l.polyfillTimerSetTimeout args = (l, .error e) ∧
      (args.passes = true ↔ e = .internalError "exceeded timer limit") ∧
      (args.passes = true → polyfillTimerGetFreeSlot l.table.slots = none)) ∨
    ∃ i, args.passes = true ∧ polyfillTimerGetFreeSlot l.table.slots = some i ∧
      ((args.created = false ∧ l.polyfillTimerSetTimeout args =
        (l.dupFunc i, .error (.internalError "insufficient memory"))) ∨
      (args.created = true ∧ configTIMER_QUEUE_LENGTH ≤ l.table.queue.length ∧
        l.polyfillTimerSetTimeout args =
          ({ l.dupFunc i with table := timers.polyfillTimerSetTimeout l.table true },
            .error (.internalError "timer could not be started"))) ∨
      (args.created = true ∧ l.table.queue.length < configTIMER_QUEUE_LENGTH ∧
        l.polyfillTimerSetTimeout args =
          ({ (l.dupFunc i).newObject with table := timers.polyfillTimerSetTimeout l.table true },
            .ok l.table.nextTimer))) := by
  obtain ⟨isFunction, isNumber, object, created⟩ := args
  cases isFunction with
  | false => exact Or.inl ⟨_, rfl, by simp [SetTimeoutArgs.passes], fun h => nomatch h⟩
  | true =>
    cases isNumber with
    | false => exact Or.inl ⟨_, rfl, by simp [SetTimeoutArgs.passes], fun h => nomatch h⟩
    | true =>
      cases object with
      | false => exact Or.inl ⟨_, rfl, by simp [SetTimeoutArgs.passes], fun h => nomatch h⟩
      | true =>
        cases hi : polyfillTimerGetFreeSlot l.table.slots with
        | none =>
          refine Or.inl ⟨.internalError "exceeded timer limit", ?_, by simp [SetTimeoutArgs.passes],
            fun _ => rfl⟩
          simp [Ledger.polyfillTimerSetTimeout, Ledger.newObject, Ledger.freeObject, hi]
        | some i =>
          refine Or.inr ⟨i, rfl, rfl, ?_⟩
          cases created with
          | false =>
            left
            simp [Ledger.polyfillTimerSetTimeout, Ledger.newObject, Ledger.freeObject,
              Ledger.dupFunc, hi]
          | true =>
            right
            rw [setTimeout_takes hi]
            by_cases hq : l.table.queue.length < configTIMER_QUEUE_LENGTH
            · exact Or.inr ⟨rfl, hq, by simp [Ledger.polyfillTimerSetTimeout, Ledger.newObject,
                Ledger.dupFunc, xTimerGenericCommand, hi, hq]⟩
            · exact Or.inl ⟨rfl, Nat.not_lt.mp hq, by simp [Ledger.polyfillTimerSetTimeout,
                Ledger.newObject, Ledger.freeObject, Ledger.dupFunc, xTimerGenericCommand, hi, hq]⟩

/-- A move leaves the slots, takes a reference, with a timer or without, begins a callback
or ends one. -/
theorem Ledger.step_cases (l : Ledger) (m : Move) :
    (∃ s, Still l.table s ∧ (m = .callbackEnd → l.table.running = none) ∧
      l.step m = { l with table := s }) ∨
    (∃ args i, m = .setTimeout args ∧ polyfillTimerGetFreeSlot l.table.slots = some i ∧
      ((args.created = false ∧ l.step m = l.dupFunc i) ∨
        ∃ objects, l.step m = { l.dupFunc i with
          table := timers.polyfillTimerSetTimeout l.table true, objects := objects })) ∨
    (∃ t, m = .expire t ∧ l.table.expires t = true ∧ l.step m = l.expire t) ∨
    ∃ t, m = .callbackEnd ∧ l.table.running = some t ∧ l.step m = l.callbackEnd t := by
  cases m with
  | setTimeout args =>
    rcases l.setTimeout_cases args with ⟨e, heq, -⟩ |
      ⟨i, -, hi, ⟨hc, heq⟩ | ⟨-, -, heq⟩ | ⟨-, -, heq⟩⟩
    · exact Or.inl ⟨l.table, Still.refl _, by simp, congrArg Prod.fst heq⟩
    · exact Or.inr (Or.inl ⟨args, i, rfl, hi, Or.inl ⟨hc, congrArg Prod.fst heq⟩⟩)
    · exact Or.inr (Or.inl ⟨args, i, rfl, hi, Or.inr ⟨_, congrArg Prod.fst heq⟩⟩)
    · exact Or.inr (Or.inl ⟨args, i, rfl, hi, Or.inr ⟨_, congrArg Prod.fst heq⟩⟩)
  | clearTimeout timer => exact Or.inl ⟨_, clearTimeout_still l.table timer, by simp, rfl⟩
  | take =>
    left
    refine ⟨_, ?_, by simp, rfl⟩
    simp only [timers.step]
    split
    · exact take_still l.table
    · exact Still.refl l.table
  | expire t =>
    by_cases ht : l.table.expires t = true
    · exact Or.inr (Or.inr (Or.inl ⟨t, rfl, ht, if_pos ht⟩))
    · exact Or.inl ⟨l.table, Still.refl _, by simp, if_neg ht⟩
  | callbackEnd =>
    cases hr : l.table.running with
    | none => exact Or.inl ⟨l.table, Still.refl _, fun _ => rfl, by simp [Ledger.step, hr]⟩
    | some t => exact Or.inr (Or.inr (Or.inr ⟨t, rfl, rfl, by simp [Ledger.step, hr]⟩))
  | other => exact Or.inl ⟨_, command_still l.table .other, by simp, rfl⟩

/-! ## The timers of the ledger -/

/-- A move, as what the httpd task or the daemon does with the timers. -/
def Move.inputs : Move → List Input
  | .setTimeout args => if args.passes then [.script (.setTimeout args.created)] else []
  | .clearTimeout timer => [.script (.clearTimeout timer)]
  | .take => [.take]
  | .expire t => [.expire t]
  | .callbackEnd => [.callbackEnd]
  | .other => [.other]

theorem setTimeout_table (l : Ledger) (args : SetTimeoutArgs) :
    (l.polyfillTimerSetTimeout args).1.table =
      if args.passes then polyfillTimerSetTimeout l.table args.created else l.table := by
  rcases l.setTimeout_cases args with ⟨e, heq, -, hfull⟩ |
    ⟨i, hpass, hi, ⟨hc, heq⟩ | ⟨hc, -, heq⟩ | ⟨hc, -, heq⟩⟩
  · rw [heq]
    split
    · simp [polyfillTimerSetTimeout, hfull ‹_›]
    · rfl
  · rw [heq, if_pos hpass, hc]
    simp [polyfillTimerSetTimeout, hi, Ledger.dupFunc]
  · rw [heq, if_pos hpass, hc]
  · rw [heq, if_pos hpass, hc]

/-- A step of the ledger is a step of its timers. -/
theorem step_table {l : Ledger} (hp : l.table.pc = .script) (m : Move) :
    (l.step m).table = run timers.step l.table m.inputs := by
  have hin : l.table.pc.inScript = true := by rw [hp]; rfl
  cases m with
  | setTimeout args =>
    simp only [Ledger.step, Move.inputs, setTimeout_table]
    split
    · simp [timers.step, hin, JsOp.run]
    · rfl
  | clearTimeout timer => simp [Ledger.step, Move.inputs, timers.step, hin, JsOp.run]
  | take => rfl
  | expire t =>
    simp only [Ledger.step, Move.inputs, Timers.expires, Bool.and_eq_true, decide_eq_true_eq]
    split
    · simp [timers.step, Ledger.expire, *]
    · simp [timers.step, *]
  | callbackEnd =>
    cases hr : l.table.running <;>
      simp [Ledger.step, Move.inputs, timers.step, Ledger.callbackEnd, hr]
  | other => rfl

/-- No move is of the httpd task outside of its script. -/
theorem Move.not_call {m : Move} {input : Input} (h : input ∈ m.inputs) :
    (∀ c, input ≠ .call c) ∧ ∀ thrown, input ≠ .next thrown := by
  cases m with
  | setTimeout args =>
    simp only [Move.inputs] at h
    split at h
    · simp [List.mem_singleton.mp h]
    · cases h
  | clearTimeout timer => simp [List.mem_singleton.mp h]
  | take => simp [List.mem_singleton.mp h]
  | expire t => simp [List.mem_singleton.mp h]
  | callbackEnd => simp [List.mem_singleton.mp h]
  | other => simp [List.mem_singleton.mp h]

structure LedgerOk (l : Ledger) : Prop where
  script : l.table.pc = .script
  table : TimersOk l.table
  handles : HandlesOk l.table
  length : l.funcs.length = ISERE_JS_POLYFILLS_MAX_TIMERS

theorem step_funcs_length (l : Ledger) (m : Move) :
    (l.step m).funcs.length = l.funcs.length := by
  rcases l.step_cases m with ⟨s, -, -, heq⟩ | ⟨args, i, -, -, ⟨-, heq⟩ | ⟨objects, heq⟩⟩ |
    ⟨t, -, -, heq⟩ | ⟨t, -, -, heq⟩ <;> rw [heq]
  · exact List.length_set
  · exact List.length_set
  · rfl
  · exact List.length_set

theorem step_ledgerOk {l : Ledger} (h : LedgerOk l) (m : Move) : LedgerOk (l.step m) := by
  have hinv : (l.step m).table.pc = .script ∧ TimersOk (l.step m).table ∧
      HandlesOk (l.step m).table := by
    rw [step_table h.script m]
    refine run_inv (I := fun s => s.pc = .script ∧ TimersOk s ∧ HandlesOk s) ?_
      ⟨h.script, h.table, h.handles⟩ (StepsOk.of_forall (fun _ hin => Move.not_call hin))
    rintro s input ⟨hp, hT, hH⟩ ⟨hcall, hnext⟩
    exact ⟨(step_pc hcall hnext).trans hp, step_timersOk hT input, step_handlesOk hT hH input⟩
  exact ⟨hinv.1, hinv.2.1, hinv.2.2, (step_funcs_length l m).trans h.length⟩

theorem start_ledgerOk : LedgerOk Ledger.start :=
  ⟨rfl, step_timersOk start_timersOk (.call .eval),
    step_handlesOk start_timersOk start_handlesOk (.call .eval), rfl⟩

/-- Every sequence keeps the slots. -/
theorem run_ledgerOk (moves : List Move) : LedgerOk (run Ledger.step Ledger.start moves) :=
  run_inv_all (I := LedgerOk) (fun _ m h => step_ledgerOk h m) start_ledgerOk moves

/-! ## The deinit -/

theorem deinit_table {l : Ledger} (h : LedgerOk l) :
    l.polyfillTimerDeinit.table = l.table.slots.foldl stopAndDelete l.table := by
  have hfold : ∀ (slots : List (Option TimerId × Option FuncRef)) (l : Ledger),
      (slots.foldl Ledger.deinitSlot l).table =
        (slots.map Prod.fst).foldl stopAndDelete l.table := by
    intro slots
    induction slots with
    | nil => exact fun l => rfl
    | cons tmr slots ih => exact fun l => ih (l.deinitSlot tmr)
  unfold Ledger.polyfillTimerDeinit
  rw [hfold, List.map_fst_zip (Nat.le_of_eq (h.handles.length.trans h.length.symm))]

/-- The same timers, with the httpd task elsewhere. -/
def Timers.goTo (s : Timers) (pc : Pc) : Timers := { s with pc := pc }

/-- Where the httpd task stands is nothing to the commands. -/
theorem command_goTo (s : Timers) (pc : Pc) (c : Command) :
    (xTimerGenericCommand (s.goTo pc) c).1 = (xTimerGenericCommand s c).1.goTo pc := by
  by_cases hq : s.queue.length < configTIMER_QUEUE_LENGTH <;>
    simp [xTimerGenericCommand, Timers.goTo, hq]

theorem stopAndDelete_goTo (s : Timers) (pc : Pc) (timer : Option TimerId) :
    stopAndDelete (s.goTo pc) timer = (stopAndDelete s timer).goTo pc := by
  cases timer with
  | none => rfl
  | some timer => simp only [stopAndDelete, command_goTo]

theorem stopAll_goTo (slots : List (Option TimerId)) (s : Timers) (pc : Pc) :
    slots.foldl stopAndDelete (s.goTo pc) = (slots.foldl stopAndDelete s).goTo pc := by
  induction slots generalizing s with
  | nil => rfl
  | cons timer slots ih => rw [List.foldl_cons, stopAndDelete_goTo, ih, List.foldl_cons]

theorem stopAndDelete_slots (s : Timers) (timer : Option TimerId) :
    (stopAndDelete s timer).slots = s.slots := by
  cases timer with
  | none => rfl
  | some timer =>
    simp only [stopAndDelete]
    rw [(xTimerGenericCommand_frame _ _).2.2.1, (xTimerGenericCommand_frame _ _).2.2.1]

theorem stopAll_nextTimer (slots : List (Option TimerId)) (s : Timers) :
    (slots.foldl stopAndDelete s).nextTimer = s.nextTimer := by
  have hcommand : ∀ (s : Timers) (c : Command),
      (xTimerGenericCommand s c).1.nextTimer = s.nextTimer := by
    intro s c
    unfold xTimerGenericCommand
    split <;> rfl
  induction slots generalizing s with
  | nil => rfl
  | cons timer slots ih =>
    rw [List.foldl_cons, ih]
    cases timer with
    | none => rfl
    | some t => rw [stopAndDelete, hcommand, hcommand]

/-- One slot takes the httpd task one step, or two. -/
theorem stopSlot_run {s : Timers} {i : Nat} {timer : Option TimerId} (hp : s.pc = .stopping i)
    (hi : s.slots[i]? = some timer) : ∃ n, run timers.step s (List.replicate n (.next false)) =
      (stopAndDelete s timer).goTo (.stopping (i + 1)) := by
  cases timer with
  | none =>
    refine ⟨1, ?_⟩
    simp [List.replicate, timers.step, next, hp, stopSlot, hi, stopAndDelete, Timers.goTo]
  | some t =>
    refine ⟨2, ?_⟩
    have hstop : timers.step s (.next false) =
        (xTimerGenericCommand s (.stop t)).1.goTo (.deleting i t) := by
      simp [timers.step, next, hp, stopSlot, hi, Timers.goTo]
    have hdelete : ∀ s : Timers, timers.step (s.goTo (.deleting i t)) (.next false) =
        (xTimerGenericCommand s (.delete t)).1.goTo (.stopping (i + 1)) := by
      intro s
      have hnext : timers.step (s.goTo (.deleting i t)) (.next false) =
          (xTimerGenericCommand (s.goTo (.deleting i t)) (.delete t)).1.goTo
            (.stopping (i + 1)) := rfl
      rw [hnext, command_goTo]
      rfl
    simp only [List.replicate, run_cons, run_nil, hstop, hdelete, stopAndDelete]

/-- The httpd task goes through the slots from `i` on, and frees the context. -/
theorem stopAll_run (rest : List (Option TimerId)) (s : Timers) (i : Nat)
    (hp : s.pc = .stopping i) (hrest : s.slots.drop i = rest) :
    ∃ n, run timers.step s (List.replicate n (.next false)) =
      (rest.foldl stopAndDelete s).goTo .freed := by
  induction rest generalizing s i with
  | nil =>
    refine ⟨1, ?_⟩
    have hend : s.slots[i]? = none := List.getElem?_eq_none (List.drop_eq_nil_iff.mp hrest)
    simp [List.replicate, timers.step, next, hp, stopSlot, hend, Timers.goTo]
  | cons timer rest ih =>
    have hi : s.slots[i]? = some timer := by
      have hhead := congrArg (fun l => l[0]?) hrest
      simpa using hhead
    have htail : s.slots.drop (i + 1) = rest := by
      rw [← List.drop_drop, hrest]
      rfl
    obtain ⟨n, hn⟩ := stopSlot_run hp hi
    obtain ⟨m, hm⟩ := ih ((stopAndDelete s timer).goTo (.stopping (i + 1))) (i + 1) rfl
      (by rw [← htail, ← stopAndDelete_slots s timer]; rfl)
    refine ⟨n + m, ?_⟩
    rw [List.replicate_add, run_append, hn, hm, stopAll_goTo, List.foldl_cons]
    rfl

/-- A sequence and the deinit are a run of the httpd task and the daemon, in which
nothing comes between the steps of the deinit. -/
theorem sequence_run (moves : List Move) : ∃ inputs, run timers.step timers.start inputs =
    (run Ledger.step Ledger.start moves).polyfillTimerDeinit.table.goTo .freed := by
  obtain ⟨hok, inputs, hin⟩ : LedgerOk (run Ledger.step Ledger.start moves) ∧
      ∃ inputs, (run Ledger.step Ledger.start moves).table =
        run timers.step timers.start inputs := by
    refine run_inv_all (I := fun l => LedgerOk l ∧ ∃ inputs, l.table =
      run timers.step timers.start inputs) ?_ ⟨start_ledgerOk, [.call .eval], rfl⟩ moves
    rintro l m ⟨hl, inputs, hin⟩
    refine ⟨step_ledgerOk hl m, inputs ++ m.inputs, ?_⟩
    rw [step_table hl.script, hin, run_append]
  generalize run Ledger.step Ledger.start moves = l at hok hin ⊢
  have hcall : run timers.step l.table [.next false, .call .deinit] =
      l.table.goTo (.stopping 0) := by
    simp [timers.step, next, hok.script, Timers.goTo, Call.pc]
  obtain ⟨n, hn⟩ := stopAll_run l.table.slots (l.table.goTo (.stopping 0)) 0 rfl rfl
  refine ⟨inputs ++ [.next false, .call .deinit] ++ List.replicate n (.next false), ?_⟩
  rw [run_append, run_append, ← hin, hcall, hn, stopAll_goTo, deinit_table hok]
  rfl

theorem count_apply (f : Nat → Nat) (x : Option Nat) (n : Nat) :
    count f x n = f n + if x = some n then 1 else 0 := by
  cases x with
  | none => rfl
  | some m =>
    by_cases hmn : m = n
    · subst hmn
      simp [count]
    · simp [count, hmn, Ne.symm hmn]

/-- The deinit deletes each timer as often as it is in a slot. -/
theorem deinit_deleted {l : Ledger} (h : LedgerOk l) (t : TimerId) :
    l.polyfillTimerDeinit.deleted t = l.deleted t + l.table.slots.count (some t) := by
  have hcount := slot_table.foldl_count (f := Ledger.deinitSlot) (g := fun l => l.deleted t)
    (fun l tmr => count_apply l.deleted tmr.1 t) (l.table.slots.zip l.funcs) l
  rwa [List.map_fst_zip (Nat.le_of_eq (h.handles.length.trans h.length.symm))] at hcount

/-- The deinit frees each reference as often as it is in a slot. -/
theorem deinit_freed {l : Ledger} (h : LedgerOk l) (r : FuncRef) :
    l.polyfillTimerDeinit.freed r = l.freed r + l.funcs.count (some r) := by
  have hcount := slot_table.foldl_count (f := Ledger.deinitSlot) (g := fun l => l.freed r)
    (fun l tmr => count_apply l.freed tmr.2 r) (l.table.slots.zip l.funcs) l
  rwa [List.map_snd_zip (Nat.le_of_eq (h.length.trans h.handles.length.symm))] at hcount

/-- The deinit takes no reference and calls none. -/
theorem deinit_frame (l : Ledger) : l.polyfillTimerDeinit.nextFunc = l.nextFunc ∧
    l.polyfillTimerDeinit.calls = l.calls := by
  have hfold : ∀ (slots : List (Option TimerId × Option FuncRef)) (l : Ledger),
      (slots.foldl Ledger.deinitSlot l).nextFunc = l.nextFunc ∧
        (slots.foldl Ledger.deinitSlot l).calls = l.calls := by
    intro slots
    induction slots with
    | nil => exact fun l => ⟨rfl, rfl⟩
    | cons tmr slots ih => exact fun l => ih (l.deinitSlot tmr)
  exact hfold _ l

end isere.timers
