-- The calls of a task on its event loop, one after the other. What they do to the
-- loop of lists, they do to the loop in memory, and the same watchers are called
-- back with the same events.
import Isere.Runs
import Isere.UvRefinement

open checked intrusive runs

namespace isere.uv

variable {ω : Type} [DecidableEq ω]

/-- One call of a task on its event loop: it sets up a watcher for a descriptor,
starts or stops one, polls, and goes over the slots until the poll is over. -/
inductive LoopCall (ω : Type)
  | init (w : ω) (fd : Int)
  | start (w : ω)
  | stop (w : ω)
  | poll (ready : Int) (eintr : Bool) (revents : Nat → Events)
  | slot (i : Nat)
  | done

/-- The loop of lists after a call, when the task watches for the events of `mask`. -/
def LoopCall.run (mask : Events) (loop : UvLoop ω) : LoopCall ω → UvLoop ω
  | .init w fd => loop.setIo w { pevents := 0, events := 0, fd }
  | .start w => uvIoStart loop w mask
  | .stop w => uvIoStop loop w mask
  | .poll ready eintr revents =>
    if loop.nfds = 0 then loop
    else if ready < 0 ∧ !eintr then isereTcpPoll (drainWatcherQueue loop) ready revents
    else { isereTcpPoll (drainWatcherQueue loop) ready revents with pollFdsIterating := true }
  | .slot i => (uvPollSlot loop i).1
  | .done => { loop with pollFdsIterating := false }

/-- The watcher that a call calls back, with its events. -/
def LoopCall.called (loop : UvLoop ω) : LoopCall ω → Option (ω × Events)
  | .slot i => (uvPollSlot loop i).2
  | _ => none

/-- The callbacks of a list of calls. -/
def callbacksOf (mask : Events) : UvLoop ω → List (LoopCall ω) → List (ω × Events)
  | _, [] => []
  | loop, call :: calls =>
    (call.called loop).toList ++ callbacksOf mask (call.run mask loop) calls

namespace memory

/-- The loop in memory after a call, and the callbacks so far. The loop over the
queue of watchers gets a turn for each watched descriptor. -/
def exec (mask : Events) (r : Realloc ω) (t : LoopMemory ω × List (ω × Events)) :
    LoopCall ω → Except Fault (LoopMemory ω × List (ω × Events))
  | .init w fd => .ok (initIo t.1 w { pevents := 0, events := 0, fd }, t.2)
  | .start w => do
    let m ← uvIoStart r t.1 w mask
    .ok (m, t.2)
  | .stop w => do
    let m ← uvIoStop t.1 w mask
    .ok (m, t.2)
  | .poll ready eintr revents => do
    let m ← uvIoPoll r t.1.nfds t.1 ready eintr revents
    .ok (m, t.2)
  | .slot i => do
    let (m, called) ← uvPollSlot t.1 i
    .ok (m, t.2 ++ called.toList)
  | .done => .ok ({ t.1 with pollFdsIterating := false }, t.2)

end memory

/-! ## The loop of lists -/

/-- What a task has to see to before a call. -/
def CallOk (loop : UvLoop ω) : LoopCall ω → Prop
  | .init w fd => 0 ≤ fd ∧ ∀ fd', loop.watchers fd' ≠ some w
  | .start w => (0 ≤ (loop.io w).fd ∧ (loop.io w).fd + 3 ≤ 2 ^ 31) ∧
      loop.watchers (loop.io w).fd.toNat = none ∧ ∀ fd, loop.watchers fd ≠ some w
  | .stop w => 0 ≤ (loop.io w).fd
  | .poll _ _ _ => loop.pollFdsIterating = false
  | .slot _ => loop.pollFdsIterating = true
  | .done => True

variable {mask : Events} {loop : UvLoop ω}

omit [DecidableEq ω] in
theorem uvPlatformLoopInit_ok {io : ω → UvIo} (h : ∀ w, (io w).pevents = 0) :
    LoopOk mask (uvPlatformLoopInit io) [] where
  table := uvPlatformLoopInit_table h
  counted := by simp [UvLoop.watched, uvPlatformLoopInit]
  single := fun _ _ => Nat.zero_le 1
  inside := fun _ hpe => absurd hpe List.not_mem_nil
  placed := fun _ _ hw => absurd hw (by simp [uvPlatformLoopInit])
  queued := fun _ hw => absurd hw List.not_mem_nil
  nodup := List.nodup_nil
  asks := fun _ _ hw => absurd hw (by simp [uvPlatformLoopInit])

/-- A call that is allowed keeps the tables of the loop. -/
theorem callOk_keeps (hmask : mask ≠ 0) (h : LoopOk mask loop loop.watcherQueue)
    (call : LoopCall ω) (hok : CallOk loop call) :
    LoopOk mask (call.run mask loop) (call.run mask loop).watcherQueue := by
  cases call with
  | init w fd => exact h.renew hok.2 (by simp)
  | start w => exact h.start hmask hok.1.1 hok.2.1 hok.2.2
  | stop w => exact h.stop w
  | poll ready eintr revents =>
    obtain ⟨hpolled, -⟩ := h.polled hok ready revents
    simp only [LoopCall.run]
    split
    · exact h
    · split
      · exact hpolled
      · exact hpolled.iterate true
  | slot i =>
    simp only [LoopCall.run]
    rw [(uvPollSlot_rest loop i).2]
    exact h.slot hok i
  | done => exact h.iterate false

/-- The loop of lists before its slots are gone over. -/
theorem poll_same (ready : Int) (eintr : Bool) (revents : Nat → Events) :
    SameTable loop ((LoopCall.poll ready eintr revents).run mask loop) := by
  have hpoll := (drainWatcherQueue_same loop).trans (isereTcpPoll_same _ ready revents)
  simp only [LoopCall.run]
  split
  · exact SameTable.refl loop
  · split
    · exact hpoll
    · exact ⟨hpoll.watchers, hpoll.nwatchers, hpoll.fd, hpoll.pevents⟩

/-- Only a new watcher gets another descriptor. -/
theorem run_fd (h : TableOk mask loop) {call : LoopCall ω} (hcall : ∀ w fd, call ≠ .init w fd)
    (w : ω) : ((call.run mask loop).io w).fd = (loop.io w).fd := by
  cases call with
  | init w fd => exact absurd rfl (hcall w fd)
  | start w' => exact uvIoStart_fd loop w' w mask
  | stop w' => exact uvIoStop_fd mask loop w' w (h.masked w')
  | poll ready eintr revents => exact (poll_same ready eintr revents).fd w
  | slot i => exact (uvPollSlot_same loop i).fd w
  | done => rfl

/-- A task may stop a watcher with a descriptor any number of times. -/
theorem stops_ok {w : ω} (h : LoopOk mask loop loop.watcherQueue) (hfd : 0 ≤ (loop.io w).fd)
    {calls : List (LoopCall ω)} (hall : ∀ call ∈ calls, call = .stop w) :
    StepsOk (LoopCall.run mask) CallOk loop calls := by
  induction calls generalizing loop with
  | nil => trivial
  | cons call calls ih =>
    obtain rfl := hall call List.mem_cons_self
    refine ⟨hfd, ih (h.stop w) ?_ (fun call' hin => hall call' (List.mem_cons_of_mem _ hin))⟩
    rwa [run_fd h.table (by simp)]

namespace memory

/-! ## The loop in memory -/

omit [DecidableEq ω] in
theorem Refines.congr {made made' : ω → Prop} {m : LoopMemory ω} (h : Refines made m loop)
    (hmade : ∀ w, made' w ↔ made w) : Refines made' m loop :=
  { h with
    alone := fun w hw => h.alone w ((hmade w).mp hw)
    queued := fun w hw => (hmade w).mpr (h.queued w hw) }

/-- The loop in memory holds the loop of lists, and each watcher with a descriptor
was set up. -/
abbrev HoldsLoop (m : LoopMemory ω) (loop : UvLoop ω) : Prop :=
  Refines (fun w => 0 ≤ (loop.io w).fd) m loop

/-- The loop before any watcher is set up. -/
theorem uvPlatformLoopInit_holds (links : Links (QueueNode ω)) {io : ω → UvIo}
    (h : ∀ w, (io w).fd = -1) :
    HoldsLoop (uvPlatformLoopInit links io) (uv.uvPlatformLoopInit io) where
  slots := holds_nil
  used := rfl
  size := rfl
  iterating := rfl
  queue := ring_nil_iff.mpr (uvQueueInit_alone links .head)
  alone := fun w hw => absurd hw (by simp [uv.uvPlatformLoopInit, h])
  queued := fun _ hw => absurd hw List.not_mem_nil
  nwatchers := rfl
  room := Or.inl ⟨rfl, rfl⟩
  entries := fun _ hfd => absurd hfd (Nat.not_lt_zero _)
  limit := show 0 + 2 ≤ 2 ^ 31 by decide
  nfds := rfl
  io := rfl

theorem init_holds (h : LoopOk mask loop loop.watcherQueue) {m : LoopMemory ω}
    (hm : HoldsLoop m loop) {w : ω} (hw : ∀ fd, loop.watchers fd ≠ some w) {fd : Int}
    (hfd : 0 ≤ fd) : HoldsLoop (initIo m w { pevents := 0, events := 0, fd })
      (loop.setIo w { pevents := 0, events := 0, fd }) := by
  have hq : w ∉ loop.watcherQueue := by
    intro hin
    obtain ⟨fd', hfd'⟩ := h.queued w hin
    exact hw fd' hfd'
  refine (initIo_refines hm hq _).congr (fun w' => ?_)
  by_cases hne : w' = w <;> simp [UvLoop.setIo, hne, hfd]

/-- A call on the loop in memory. -/
theorem exec_ends (h : LoopOk mask loop loop.watcherQueue)
    (hmask : mask &&& ~~~(UV_POLLIN ||| UV_POLLOUT) = 0) (hne : mask ≠ 0) {m : LoopMemory ω}
    (hm : HoldsLoop m loop) (r : Realloc ω) (called : List (ω × Events)) {call : LoopCall ω}
    (hok : CallOk loop call) :
    Ends (fun t => HoldsLoop t.1 (call.run mask loop) ∧
      t.2 = called ++ (call.called loop).toList) (exec mask r (m, called) call) := by
  have hfds : (∀ w fd, call ≠ .init w fd) → ∀ {m' : LoopMemory ω},
      Refines (fun w => 0 ≤ (loop.io w).fd) m' (call.run mask loop) →
      HoldsLoop m' (call.run mask loop) := by
    intro hcall m' hm'
    exact hm'.congr (fun w => by rw [run_fd h.table hcall])
  have hnone : called = called ++ (none : Option (ω × Events)).toList := (List.append_nil _).symm
  cases call with
  | init w fd => exact ⟨init_holds h hm hok.2 hok.1, hnone⟩
  | start w =>
    refine (uvIoStart_ends hm r h.table hok.1.1 hmask hne hok.1.1 hok.1.2).bind ?_
    exact fun m' hm' => ⟨hfds (by simp) hm', hnone⟩
  | stop w =>
    have hfd : -1 ≤ (loop.io w).fd := Int.le_trans (by decide) hok
    refine (uvIoStop_ends hm hok hmask hne hfd (fun fd hw => h.counts hw)).bind ?_
    exact fun m' hm' => ⟨hfds (by simp) hm', hnone⟩
  | poll ready eintr revents =>
    have hturns : loop.watcherQueue.length ≤ m.nfds := by
      rw [hm.nfds]
      exact h.queue_le
    refine (uvIoPoll_ends r hm hturns h hok ready eintr revents).bind ?_
    exact fun m' hm' => ⟨hfds (by simp) hm', hnone⟩
  | slot i =>
    refine (uvPollSlot_ends hm h i).bind ?_
    rintro ⟨m', called'⟩ ⟨hm', hcalled⟩
    exact ⟨hfds (by simp) hm', congrArg (called ++ ·.toList) hcalled⟩
  | done => exact ⟨hfds (by simp) (hm.iterate false), hnone⟩

/-- The calls of a task, one after the other. -/
theorem exec_all_ends (h : LoopOk mask loop loop.watcherQueue)
    (hmask : mask &&& ~~~(UV_POLLIN ||| UV_POLLOUT) = 0) (hne : mask ≠ 0) {m : LoopMemory ω}
    (hm : HoldsLoop m loop) (r : Realloc ω) (called : List (ω × Events))
    {calls : List (LoopCall ω)} (hok : StepsOk (LoopCall.run mask) CallOk loop calls) :
    Ends (fun t => HoldsLoop t.1 (runs.run (LoopCall.run mask) loop calls) ∧
        t.2 = called ++ callbacksOf mask loop calls)
      (calls.foldlM (exec mask r) (m, called)) := by
  induction calls generalizing loop m called with
  | nil => exact ⟨hm, (List.append_nil _).symm⟩
  | cons call calls ih =>
    rw [List.foldlM_cons]
    refine (exec_ends h hmask hne hm r called hok.1).bind ?_
    rintro ⟨m', called'⟩ ⟨hm', hcalled⟩
    rw [callbacksOf, ← List.append_assoc, ← hcalled]
    exact ih (callOk_keeps hne h call hok.1) hm' called' hok.2

end memory

end isere.uv
