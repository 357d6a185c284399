-- The timers of a QuickJS context: src/polyfills/quickjs/timer.c, the poll and
-- the end of a context in quickjs.c, and the timer daemon of FreeRTOS. The httpd
-- task and the daemon take turns at any point.
import Mathlib.Data.List.Basic
import Mathlib.Logic.Function.Basic

namespace isere.timers

def ISERE_JS_POLYFILLS_MAX_TIMERS : Nat := 5

def configTIMER_QUEUE_LENGTH : Nat := 10

/-- A `TimerHandle_t`. Each `xTimerCreate` gives the next one. -/
abbrev TimerId := Nat

/-- The commands on the queue of the daemon. `other` is one for a timer of
another context. -/
inductive Command
  | start (t : TimerId)
  | stop (t : TimerId)
  | delete (t : TimerId)
  | other
  deriving DecidableEq, Repr

/-- What became of a `setTimeout`: it failed, it waits to fire, or it was cleared
or fired. -/
inductive Fate
  | fresh
  | failed
  | waiting
  | cleared
  | fired
  deriving DecidableEq, Repr

/-- Where the httpd task stands with the context: between calls; in the script of
`js_runtime_eval_handler`; in `js_runtime_poll`, before a slot, before the jobs,
in a job, or at its return; in `js_runtime_deinit_context`, at a slot; or after it. -/
inductive Pc
  | idle
  | script
  | scanning (i : Nat)
  | jobs (tmrerr : Bool)
  | job
  | returned (r : Int)
  | stopping (i : Nat)
  | deleting (i : Nat) (t : TimerId)
  | freed
  deriving DecidableEq, Repr

/-- The context, the command queue, and the timers of the daemon. `slotOf` is the
slot in the ID of a timer. `running` is the timer whose callback runs. `fate` is
not in the source. -/
structure Timers where
  slots : List (Option TimerId)
  slotOf : TimerId → Nat
  nextTimer : TimerId
  queue : List Command
  active : TimerId → Bool
  running : Option TimerId
  jobs : Nat
  fate : TimerId → Fate
  pc : Pc

/-! ## The functions of the script -/

/-- A command with a block time of zero: it is on the queue, or it failed. -/
def xTimerGenericCommand (s : Timers) (c : Command) : Timers × Bool :=
  if s.queue.length < configTIMER_QUEUE_LENGTH then ({ s with queue := s.queue ++ [c] }, true)
  else (s, false)

/-- `__polyfill_timer_get_free_slot`. -/
def polyfillTimerGetFreeSlot (slots : List (Option TimerId)) : Option Nat :=
  slots.findIdx? (fun timer => timer = none)

/-- `polyfill_timer_setTimeout` with a function and a number. `created` tells
whether `xTimerCreate` finds memory. -/
def polyfillTimerSetTimeout (s : Timers) (created : Bool) : Timers :=
  match polyfillTimerGetFreeSlot s.slots with
  | none => s
  | some i =>
    if !created then s
    else
      let timer := s.nextTimer
      let s := { s with
        slots := s.slots.set i (some timer),
        slotOf := Function.update s.slotOf timer i,
        nextTimer := timer + 1 }
      let r := xTimerGenericCommand s (.start timer)
      { r.1 with fate := Function.update s.fate timer (if r.2 then .waiting else .failed) }

/-- `polyfill_timer_clearTimeout` of an object that a `setTimeout` returned. The
result of `xTimerStop` is not looked at. -/
def polyfillTimerClearTimeout (s : Timers) (timer : TimerId) : Timers :=
  if s.fate timer = .fresh ∨ s.fate timer = .failed then s
  else
    let fate := if s.fate timer = .waiting then .cleared else s.fate timer
    { (xTimerGenericCommand s (.stop timer)).1 with fate := Function.update s.fate timer fate }

/-- What a script does to the context. -/
inductive JsOp
  | setTimeout (created : Bool)
  | clearTimeout (timer : TimerId)
  | enqueueJob
  deriving DecidableEq, Repr

def JsOp.run (s : Timers) : JsOp → Timers
  | .setTimeout created => polyfillTimerSetTimeout s created
  | .clearTimeout timer => polyfillTimerClearTimeout s timer
  | .enqueueJob => { s with jobs := s.jobs + 1 }

/-! ## The httpd task -/

/-- The calls for the context, after `js_runtime_init_context`. -/
inductive Call
  | eval
  | poll
  | deinit
  deriving DecidableEq, Repr

def Call.pc : Call → Pc
  | .eval => .script
  | .poll => .scanning 0
  | .deinit => .stopping 0

/-- One slot of the loop of `isere_js_polyfill_timer_poll`. -/
def scanSlot (s : Timers) (i : Nat) : Timers :=
  match s.slots[i]? with
  | none => { s with pc := .jobs false }
  | some none => { s with pc := .scanning (i + 1) }
  | some (some timer) =>
    if s.active timer then { s with pc := .jobs true } else { s with pc := .scanning (i + 1) }

/-- `JS_ExecutePendingJob`, up to the job. Without a job its result is 0. -/
def executePendingJob (s : Timers) (tmrerr : Bool) : Timers :=
  if s.jobs = 0 then { s with pc := .returned (if tmrerr then 1 else 0) }
  else { s with jobs := s.jobs - 1, pc := .job }

/-- One slot of the loop of `isere_js_polyfill_timer_deinit`, up to `xTimerStop`;
or, after the last of them, `JS_FreeContext`. -/
def stopSlot (s : Timers) (i : Nat) : Timers :=
  match s.slots[i]? with
  | none => { s with pc := .freed }
  | some none => { s with pc := .stopping (i + 1) }
  | some (some timer) =>
    { (xTimerGenericCommand s (.stop timer)).1 with pc := .deleting i timer }

/-- The next step of the httpd task. `thrown` tells how a job ended. -/
def next (s : Timers) (thrown : Bool) : Timers :=
  match s.pc with
  | .idle => s
  | .script => { s with pc := .idle }
  | .scanning i => scanSlot s i
  | .jobs tmrerr => executePendingJob s tmrerr
  | .job => { s with pc := .returned (if thrown then -1 else 1) }
  | .returned _ => { s with pc := .idle }
  | .stopping i => stopSlot s i
  | .deleting i timer =>
    { (xTimerGenericCommand s (.delete timer)).1 with pc := .stopping (i + 1) }
  | .freed => s

/-- The httpd task runs a script of the context. -/
def Pc.inScript : Pc → Bool
  | .script => true
  | .job => true
  | _ => false

/-! ## The timer daemon -/

/-- The daemon takes the first command. Each of them takes the timer out of the
active list first, and a start puts it there. -/
def takeCommand (s : Timers) : Timers :=
  match s.queue with
  | [] => s
  | .start t :: queue => { s with queue, active := Function.update s.active t true }
  | .stop t :: queue => { s with queue, active := Function.update s.active t false }
  | .delete t :: queue => { s with queue, active := Function.update s.active t false }
  | .other :: queue => { s with queue }

/-- A timer expires, and `polyfill_timer_callback` begins. -/
def expire (s : Timers) (t : TimerId) : Timers :=
  { s with
    active := Function.update s.active t false,
    running := some t,
    fate := Function.update s.fate t .fired }

/-- The end of `polyfill_timer_callback`. -/
def callbackEnd (s : Timers) (t : TimerId) : Timers :=
  { s with slots := s.slots.set (s.slotOf t) none, running := none }

/-- Who goes on: the httpd task with a call, with its script or with its next
step; the daemon with a command, an expiry, or the script or the end of the
callback; or another context with a command. -/
inductive Input
  | call (c : Call)
  | script (o : JsOp)
  | next (thrown : Bool)
  | take
  | expire (t : TimerId)
  | callback (o : JsOp)
  | callbackEnd
  | other
  deriving DecidableEq, Repr

def step (s : Timers) : Input → Timers
  | .call c => if s.pc = .idle then { s with pc := c.pc } else s
  | .script o => if s.pc.inScript then o.run s else s
  | .next thrown => next s thrown
  | .take => if s.running = none then takeCommand s else s
  | .expire t => if s.running = none ∧ s.active t then expire s t else s
  | .callback o => if s.running = none then s else o.run s
  | .callbackEnd =>
    match s.running with
    | none => s
    | some t => callbackEnd s t
  | .other => (xTimerGenericCommand s .other).1

/-- The context after `isere_js_polyfill_timer_init`. -/
def start : Timers where
  slots := List.replicate ISERE_JS_POLYFILLS_MAX_TIMERS none
  slotOf := fun _ => 0
  nextTimer := 0
  queue := []
  active := fun _ => false
  running := none
  jobs := 0
  fate := fun _ => .fresh
  pc := .idle

end isere.timers
