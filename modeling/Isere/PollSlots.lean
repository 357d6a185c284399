-- The poll slots of the event loop. As long as the watcher of a slot is still
-- there when a poll comes to the slot, each slot has a descriptor of its own,
-- inside the watcher table. A slot without a watcher is invalidated and stays.
import Isere.HttpdSteps
import Mathlib.Data.List.Perm.Subperm

open cstring intrusive isere.tcp isere.uv runs Relation

namespace isere.uv

variable {ω : Type}

/-! ## The slots -/

/-- The slots have different descriptors, and these are inside the table. So do
the watchers that wait for a slot. -/
structure SlotsOk (mask : Events) (loop : UvLoop ω) : Prop where
  masked : ∀ w, (loop.io w).pevents &&& ~~~mask = 0
  nodup : (loop.pollFds.map PollFd.fd).Nodup
  slots : ∀ pe ∈ loop.pollFds, 0 ≤ pe.fd ∧ pe.fd < loop.nwatchers
  queued : ∀ w ∈ loop.watcherQueue, 0 ≤ (loop.io w).fd ∧ (loop.io w).fd < loop.nwatchers

/-- Slots with different descriptors inside the table are no more than its entries. -/
theorem SlotsOk.length_le {mask : Events} {loop : UvLoop ω} (h : SlotsOk mask loop) :
    loop.pollFds.length ≤ loop.nwatchers := by
  have hsub : loop.pollFds.map PollFd.fd ⊆ (List.range loop.nwatchers).map Int.ofNat := by
    intro fd hfd
    obtain ⟨pe, hpe, rfl⟩ := List.mem_map.mp hfd
    have hs := h.slots pe hpe
    rw [List.mem_map]
    exact ⟨pe.fd.toNat, by rw [List.mem_range]; omega, Int.toNat_of_nonneg hs.1⟩
  simpa using (List.Nodup.subperm h.nodup hsub).length_le

/-- The part of the loop that `SlotsOk` reads. -/
theorem SlotsOk.congr {mask : Events} {loop loop' : UvLoop ω} (h : SlotsOk mask loop)
    (hf : loop'.pollFds.map PollFd.fd = loop.pollFds.map PollFd.fd)
    (hio : ∀ w, (loop'.io w).pevents = (loop.io w).pevents ∧ (loop'.io w).fd = (loop.io w).fd)
    (hn : loop'.nwatchers = loop.nwatchers) (hq : loop'.watcherQueue ⊆ loop.watcherQueue) :
    SlotsOk mask loop' := by
  refine ⟨?_, hf ▸ h.nodup, ?_, ?_⟩
  · intro w
    rw [(hio w).1]
    exact h.masked w
  · intro pe hpe
    have hfd : pe.fd ∈ loop.pollFds.map PollFd.fd := hf ▸ List.mem_map_of_mem hpe
    obtain ⟨pe', hpe', he⟩ := List.mem_map.mp hfd
    rw [← he, hn]
    exact h.slots pe' hpe'
  · intro w hw
    rw [(hio w).2, hn]
    exact h.queued w (hq hw)

/-- A watcher with a descriptor inside the table gets its slot. -/
theorem SlotsOk.add {mask : Events} {loop : UvLoop ω} (h : SlotsOk mask loop) (w : ω)
    (hw : 0 ≤ (loop.io w).fd ∧ (loop.io w).fd < loop.nwatchers) :
    SlotsOk mask (uvPollfdsAdd loop w) := by
  have hs := uvPollfdsAdd_same loop w
  have hqueue : (uvPollfdsAdd loop w).watcherQueue = loop.watcherQueue :=
    (uvPollfdsAdd_rest loop w).2
  have hio : ∀ w', ((uvPollfdsAdd loop w).io w').pevents = (loop.io w').pevents ∧
      ((uvPollfdsAdd loop w).io w').fd = (loop.io w').fd := fun w' => ⟨hs.pevents w', hs.fd w'⟩
  rcases (uvPollfdsAdd_fds loop w).2 with he | ⟨hnew, he⟩
  · exact h.congr he hio hs.nwatchers (hqueue ▸ List.Subset.refl _)
  · refine ⟨?_, ?_, ?_, ?_⟩
    · intro w'
      rw [hs.pevents]
      exact h.masked w'
    · rw [he, List.nodup_append]
      refine ⟨h.nodup, List.nodup_singleton _, ?_⟩
      intro a ha b hb
      rw [List.mem_singleton.mp hb]
      exact ne_of_mem_of_not_mem ha hnew
    · intro pe hpe
      have hmem : pe.fd ∈ loop.pollFds.map PollFd.fd ++ [(loop.io w).fd] :=
        he ▸ List.mem_map_of_mem hpe
      rw [hs.nwatchers]
      rcases List.mem_append.mp hmem with hold | hnew
      · obtain ⟨pe', hpe', heq⟩ := List.mem_map.mp hold
        rw [← heq]
        exact h.slots pe' hpe'
      · rw [List.mem_singleton.mp hnew]
        exact hw
    · intro w' hw'
      rw [hs.fd, hs.nwatchers]
      exact h.queued w' (hqueue ▸ hw')

theorem SlotsOk.poll {mask : Events} {loop : UvLoop ω} (h : SlotsOk mask loop) (ready : Int)
    (revents : Nat → Events) : SlotsOk mask (isereTcpPoll loop ready revents) := by
  unfold isereTcpPoll
  split
  · exact h
  · refine h.congr ?_ (fun _ => ⟨rfl, rfl⟩) rfl (List.Subset.refl _)
    apply List.ext_getElem?
    intro j
    rw [List.getElem?_map, List.getElem?_map, List.getElem?_mapIdx]
    cases loop.pollFds[j]? <;> rfl

/-- A slot with its watcher keeps its descriptor. -/
theorem SlotsOk.slot {mask : Events} {loop : UvLoop ω} (h : SlotsOk mask loop) (i : Nat)
    (hw : ∀ pe ∈ loop.pollFds[i]?, (loop.watchers pe.fd.toNat).isSome = true) :
    SlotsOk mask (uvPollSlot loop i).1 := by
  unfold uvPollSlot
  split
  · exact h
  · rename_i pe hpe
    split
    · exact h
    · split
      · rename_i hnone
        have hsome := hw pe hpe
        rw [hnone] at hsome
        cases hsome
      · refine h.congr ?_ (fun _ => ⟨rfl, rfl⟩) rfl (List.Subset.refl _)
        exact map_set_same hpe rfl

variable [DecidableEq ω]

/-! ## The operations of the loop -/

/-- What a callback does to the event loop: it starts a watcher on a descriptor,
or stops one. -/
inductive WatcherOp (mask : Events) : UvLoop ω → UvLoop ω → Prop
  | start {loop : UvLoop ω} (w : ω) {fd : Int} (hfd : 0 ≤ fd) : WatcherOp mask loop
      (uvIoStart (loop.setIo w { pevents := 0, events := 0, fd := fd }) w mask)
  | stop {loop : UvLoop ω} (w : ω) : WatcherOp mask loop (uvIoStop loop w mask)

/-- What a server does to its event loop, in any order: start a watcher on a
descriptor, stop one, poll, go over a slot, and end the poll. -/
inductive LoopOp (mask : Events) : UvLoop ω → UvLoop ω → Prop
  | start {loop : UvLoop ω} (w : ω) {fd : Int} (hfd : 0 ≤ fd) : LoopOp mask loop
      (uvIoStart (loop.setIo w { pevents := 0, events := 0, fd := fd }) w mask)
  | stop {loop : UvLoop ω} (w : ω) : LoopOp mask loop (uvIoStop loop w mask)
  | poll {loop : UvLoop ω} (ready : Int) (revents : Nat → Events) :
      LoopOp mask loop (isereTcpPoll (drainWatcherQueue loop) ready revents)
  | iterate {loop : UvLoop ω} (b : Bool) : LoopOp mask loop { loop with pollFdsIterating := b }
  | slot {loop : UvLoop ω} (i : Nat)
      (hw : ∀ pe ∈ loop.pollFds[i]?, (loop.watchers pe.fd.toNat).isSome = true) :
      LoopOp mask loop (uvPollSlot loop i).1

theorem WatcherOp.loopOp {mask : Events} {loop loop' : UvLoop ω} (h : WatcherOp mask loop loop') :
    LoopOp mask loop loop' := by
  cases h with
  | start w hfd => exact .start w hfd
  | stop w => exact .stop w

theorem SlotsOk.start {mask : Events} {loop : UvLoop ω} (h : SlotsOk mask loop) (w : ω) {fd : Int}
    (hfd : 0 ≤ fd) :
    SlotsOk mask (uvIoStart (loop.setIo w { pevents := 0, events := 0, fd := fd }) w mask) := by
  have hio : ((loop.setIo w { pevents := 0, events := 0, fd := fd }).io w).fd = fd := by
    simp [UvLoop.setIo]
  have hn := maybeResize_nwatchers (loop.setIo w { pevents := 0, events := 0, fd := fd })
    (fd.toNat + 1)
  have hsame : (loop.setIo w { pevents := 0, events := 0, fd := fd }).nwatchers =
    loop.nwatchers := rfl
  rw [hsame] at hn
  rw [uvIoStart_eq, hio]
  refine ⟨?_, h.nodup, ?_, ?_⟩
  · intro w'
    by_cases hw : w' = w
    · subst hw
      simp [UvLoop.setIo]
    · simpa [UvLoop.setIo, hw] using h.masked w'
  · intro pe hpe
    have hs := h.slots pe hpe
    simp only
    omega
  · intro w' hw'
    by_cases hw : w' = w
    · subst hw
      simp only [Function.update_self, hio]
      omega
    · have hin : w' ∈ loop.watcherQueue := by
        have hmem : w' ∈ if w ∈ loop.watcherQueue then loop.watcherQueue
          else loop.watcherQueue ++ [w] := hw'
        by_cases hq : w ∈ loop.watcherQueue
        · rwa [if_pos hq] at hmem
        · simpa [if_neg hq, hw] using hmem
      have hq := h.queued w' hin
      have hother : (loop.setIo w { pevents := 0, events := 0, fd := fd }).io w' = loop.io w' := by
        simp [UvLoop.setIo, hw]
      simp only [ne_eq, hw, not_false_eq_true, Function.update_of_ne, hother]
      omega

theorem SlotsOk.stop {mask : Events} {loop : UvLoop ω} (h : SlotsOk mask loop) (w : ω) :
    SlotsOk mask (uvIoStop loop w mask) := by
  by_cases hout : (loop.io w).fd = -1 ∨ loop.nwatchers ≤ (loop.io w).fd.toNat
  · rw [uvIoStop_out mask hout]
    exact h
  · rw [not_or, Nat.not_le] at hout
    rw [uvIoStop_eq (h.masked w) hout.1 hout.2]
    refine ⟨?_, h.nodup, h.slots, ?_⟩
    · intro w'
      by_cases hw : w' = w
      · subst hw
        simp
      · simpa [hw] using h.masked w'
    · intro w' hw'
      have hq := h.queued w' (List.mem_of_mem_erase hw')
      by_cases hw : w' = w
      · subst hw
        simpa using hq
      · simpa [hw] using hq

theorem SlotsOk.drain {mask : Events} {loop : UvLoop ω} (h : SlotsOk mask loop) :
    SlotsOk mask (drainWatcherQueue loop) := by
  have hfold : ∀ (q : List ω) (l : UvLoop ω), SlotsOk mask l →
      (∀ w ∈ q, 0 ≤ (l.io w).fd ∧ (l.io w).fd < l.nwatchers) →
      SlotsOk mask (q.foldl (fun loop w =>
        let loop := uvPollfdsAdd loop w
        loop.setIo w { loop.io w with events := (loop.io w).pevents }) l) := by
    intro q
    induction q with
    | nil => exact fun l hl _ => hl
    | cons w q ih =>
      intro l hl hq
      have hadd := hl.add w (hq w (by simp))
      have hsame := uvPollfdsAdd_same l w
      have hio : ∀ w', ((uvPollfdsAdd l w).setIo w { (uvPollfdsAdd l w).io w with
          events := ((uvPollfdsAdd l w).io w).pevents }).io w' =
          if w' = w then { (uvPollfdsAdd l w).io w with
            events := ((uvPollfdsAdd l w).io w).pevents } else (uvPollfdsAdd l w).io w' := by
        intro w'
        simp [UvLoop.setIo, Function.update_apply]
      apply ih
      · refine hadd.congr rfl (fun w' => ?_) rfl (List.Subset.refl _)
        rw [hio]
        by_cases hw : w' = w <;> simp [hw]
      · intro w' hw'
        have hw := hq w' (List.mem_cons_of_mem w hw')
        have hfd : ((uvPollfdsAdd l w).io w').fd = (l.io w').fd := hsame.fd w'
        have hn : (uvPollfdsAdd l w).nwatchers = l.nwatchers := hsame.nwatchers
        rw [hio]
        simp only [UvLoop.setIo]
        by_cases hww : w' = w
        · subst hww
          simp only [↓reduceIte]
          rw [hfd, hn]
          exact hw
        · simp only [hww, ↓reduceIte]
          rw [hfd, hn]
          exact hw
  refine hfold loop.watcherQueue _ ⟨h.masked, h.nodup, h.slots, ?_⟩ h.queued
  intro w hw
  cases hw

/-- Every operation keeps the slots. -/
theorem loopOp_slotsOk {mask : Events} {loop loop' : UvLoop ω} (hop : LoopOp mask loop loop')
    (h : SlotsOk mask loop) : SlotsOk mask loop' := by
  cases hop with
  | start w hfd => exact h.start w hfd
  | stop w => exact h.stop w
  | poll ready revents => exact h.drain.poll ready revents
  | iterate b => exact ⟨h.masked, h.nodup, h.slots, h.queued⟩
  | slot i hw => exact h.slot i hw

end isere.uv

namespace isere.httpd

/-! ## The loop of the server -/

def Phase.slot : Phase → Option Nat
  | .iterating i => some i
  | _ => none

/-- The step comes to no slot, or to one whose watcher is still in the table. -/
def SlotWatched (s : Httpd) (_os : Os) : Prop :=
  ∀ i ∈ s.phase.slot, ∀ pe ∈ s.loop.pollFds[i]?, (s.loop.watchers pe.fd.toNat).isSome = true

instance (s : Httpd) (os : Os) : Decidable (SlotWatched s os) :=
  inferInstanceAs (Decidable (∀ i ∈ s.phase.slot, ∀ pe ∈ s.loop.pollFds[i]?,
    (s.loop.watchers pe.fd.toNat).isSome = true))

/-- Several operations of the loop. -/
abbrev LoopRun (loop loop' : UvLoop WatcherId) : Prop :=
  ReflTransGen (LoopOp UV_POLLIN) loop loop'

/-- Several operations of callbacks. -/
abbrev WatcherRun (loop loop' : UvLoop WatcherId) : Prop :=
  ReflTransGen (WatcherOp UV_POLLIN) loop loop'

theorem WatcherRun.loopRun {loop loop' : UvLoop WatcherId} (h : WatcherRun loop loop') :
    LoopRun loop loop' := h.lift id (fun _ _ hop => hop.loopOp)

variable {cfg : Config} {l : Llhttp} {y : Yuarel}

theorem cleanup_watcherRun (s : Httpd) (c : ConnId) :
    WatcherRun s.loop (httpdCleanupConn s c).loop := by
  rw [cleanup_loop]
  exact .single (.stop _)

/-- A callback stops the watcher of its connection, or leaves the loop alone. -/
theorem onCallback_watcherRun (c : ConnId) (os : Os) (s : Httpd) (cb : Callback) :
    WatcherRun s.loop (onCallback cfg y c os s cb).loop := by
  by_cases hcb : cb = .messageComplete
  · subst hcb
    cases hd : cfg.dispatches (s.conns c).req with
    | true =>
      rw [onCallback_dispatch cfg y c os s hd]
      exact .single (.stop _)
    | false =>
      obtain ⟨a, -, heq⟩ := onCallback_answer cfg y c os s hd
      rw [heq, log_loop, cleanup_loop]
      exact .head (.stop _) (.single (.stop _))
  · rw [onCallback_piece cfg y c os s hcb]
    exact .refl

theorem onPoll_watcherRun (s : Httpd) (c : ConnId) (events : Events) (os : Os) :
    WatcherRun s.loop (onPoll cfg l y s c events os).loop := by
  refine star_inv (I := fun s' => WatcherRun s.loop s'.loop) ?_
    (onPoll_moves cfg l y s c events os) .refl
  intro s1 s2 h hmove
  cases hmove with
  | logged _ => exact h
  | cleaned => exact h.trans (cleanup_watcherRun s1 c)
  | fed chunk => exact h
  | callback cb => exact h.trans (onCallback_watcherRun c os s1 cb)

theorem onConnected_watcherRun (s : Httpd) (events : Events) (os : Os) :
    WatcherRun s.loop (onConnected cfg s events os).loop := by
  rcases onConnected_cases cfg s events os with h | ⟨-, hfd, h⟩
  · rw [h]
  · rw [h]
    exact .single (.start _ hfd)

/-- A step of the server runs operations of its loop. -/
theorem step_loopRun {s : Httpd} {os : Os} (hw : SlotWatched s os) :
    LoopRun s.loop (step cfg l y s os).loop := by
  unfold step
  split
  · split
    · exact .single (.stop _)
    · unfold pollStep
      simp only
      split
      · exact .refl
      · split
        · exact .single (.poll _ _)
        · exact .head (.poll _ _) (.single (.iterate true))
  · rename_i i hs
    unfold slotStep
    split
    · exact .single (.iterate false)
    · have hslot : LoopOp UV_POLLIN s.loop (uvPollSlot s.loop i).1 :=
        .slot i (hw i (by simp [Phase.slot, hs]))
      simp only
      split
      · exact .single hslot
      · exact .head hslot (onConnected_watcherRun
          { s with loop := (uvPollSlot s.loop i).1, phase := .iterating (i + 1) } _ os).loopRun
      · exact .head hslot (onPoll_watcherRun
          { s with loop := (uvPollSlot s.loop i).1, phase := .iterating (i + 1) } _ _ os).loopRun
  · obtain ⟨q, p, heq, -⟩ := drainStep_moves s
    rw [heq]
  · rename_i c hs
    rcases pollingStep_cases s c os with ⟨-, -, heq⟩ | ⟨-, -, heq⟩ | heq
    · rw [heq]
      exact (cleanup_watcherRun (polledJs s c os) c).loopRun
    · rw [heq]
      exact .refl
    · rw [heq]
      exact (cleanup_watcherRun ((polledJs s c os).log _) c).loopRun
  · exact .refl

/-! ## The law -/

theorem start_slotsOk (serverfd : Nat) : SlotsOk UV_POLLIN (start serverfd).loop := by
  have hinit : SlotsOk UV_POLLIN (uvPlatformLoopInit (startIo serverfd)) := by
    refine ⟨fun w => ?_, List.nodup_nil, fun pe hpe => ?_, fun w hw => ?_⟩
    · simp [uvPlatformLoopInit, startIo]
    · cases hpe
    · cases hw
  have hself : (uvPlatformLoopInit (startIo serverfd)).setIo .server
      { pevents := 0, events := 0, fd := serverfd } = uvPlatformLoopInit (startIo serverfd) := by
    have hserver : ({ pevents := 0, events := 0, fd := serverfd } : UvIo) =
        startIo serverfd .server := rfl
    simp only [UvLoop.setIo, uvPlatformLoopInit, hserver, Function.update_eq_self]
  have hstart := hinit.start .server (show (0 : Int) ≤ serverfd by omega)
  rwa [hself] at hstart

/-- No slot below `poll_fds_used` is an invalidated one, and the slots are no
more than the entries of the watcher table. -/
def NoDeadSlot (s : Httpd) : Prop :=
  (∀ pe ∈ s.loop.pollFds, pe.fd ≠ -1) ∧ s.loop.pollFds.length ≤ s.loop.nwatchers

/-- In every run in which each slot still has its watcher when a poll comes to
it, no state has an invalidated slot, or more slots than watchers fit. -/
theorem a_run_with_watched_slots_has_no_dead_slot (cfg : Config) (l : Llhttp) (y : Yuarel)
    (serverfd : Nat) (is : List Os)
    (h : StepsOk (step cfg l y) SlotWatched (start serverfd) is) :
    NoDeadSlot (run (step cfg l y) (start serverfd) is) := by
  have hslots : SlotsOk UV_POLLIN (run (step cfg l y) (start serverfd) is).loop :=
    run_inv (I := fun s : Httpd => SlotsOk UV_POLLIN s.loop)
      (fun _ _ hs hw => star_inv (R := LoopOp UV_POLLIN)
        (fun _ _ hl hop => loopOp_slotsOk hop hl) (step_loopRun hw) hs)
      (start_slotsOk serverfd) h
  refine ⟨fun pe hpe hfd => ?_, hslots.length_le⟩
  have := (hslots.slots pe hpe).1
  omega

theorem an_idle_connection_keeps_its_slot : NoDeadSlot
    (run (step { maxConns := 12, hasHandler := true } rootLlhttp slashYuarel) (start 3)
      (acceptAt 5 ++ [Os.readable 0, Os.quiet, Os.quiet, Os.quiet])) :=
  a_run_with_watched_slots_has_no_dead_slot _ _ _ _ _ (by decide +kernel)

/-- The server after a client connects on descriptor 5 and goes, and one more
poll of the sockets. -/
def afterClose : Httpd :=
  run (step { maxConns := 12, hasHandler := true } rootLlhttp slashYuarel) (start 3)
    (acceptAt 5 ++ receiveAt [] ++ [Os.quiet, Os.quiet, Os.readable 0, Os.quiet, Os.quiet,
      Os.quiet])

/-- The poll that finds the slot without its watcher leaves it behind. -/
theorem a_closed_connection_leaves_a_dead_slot :
    afterClose.phase = .drain ∧ ¬NoDeadSlot afterClose := by
  refine ⟨by decide +kernel, fun h => ?_⟩
  have hdead : ∃ pe ∈ afterClose.loop.pollFds, pe.fd = -1 := by decide +kernel
  obtain ⟨pe, hpe, hfd⟩ := hdead
  exact h.1 pe hpe hfd

end isere.httpd
