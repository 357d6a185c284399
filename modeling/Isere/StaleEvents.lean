-- The events that uv__io_poll gives to a watcher. The revents of a slot stay in
-- the array from one poll to the next, and a poll that a signal interrupts goes
-- on to the slots as if it had set them.
import Isere.PollSlots
import Isere.WatchedLoop

open cstring intrusive isere.tcp isere.uv runs Relation

namespace isere.uv

variable {ω : Type}

/-! ## Old events -/

/-- A slot that would call its watcher with the events that it has. -/
def UvLoop.Stale (loop : UvLoop ω) (pe : PollFd) : Prop :=
  pe.fd ≠ -1 ∧ ∃ w, loop.watchers pe.fd.toNat = some w ∧
    pe.revents &&& ((loop.io w).pevents ||| POLLERR ||| POLLHUP) ≠ 0

/-- What a slot keeps from one poll to the next. -/
def PollFd.kept (pe : PollFd) : Int × Events := (pe.fd, pe.revents)

/-- A slot calls its watcher just when it has events for it. -/
theorem uvPollSlot_calls_iff (loop : UvLoop ω) (i : Nat) : (uvPollSlot loop i).2 ≠ none ↔
    ∃ pe, loop.pollFds[i]? = some pe ∧ loop.Stale pe := by
  unfold uvPollSlot UvLoop.Stale
  cases loop.pollFds[i]? with
  | none => simp
  | some pe =>
    by_cases hfd : pe.fd = -1
    · simp [hfd]
    · cases hw : loop.watchers pe.fd.toNat <;> simp [hfd, hw]

/-- The events of a call are among those of the slot. -/
theorem uvPollSlot_events {loop : UvLoop ω} {i : Nat} {w : ω} {events : Events}
    (h : (uvPollSlot loop i).2 = some (w, events)) :
    ∃ pe, loop.pollFds[i]? = some pe ∧
      events = pe.revents &&& ((loop.io w).pevents ||| POLLERR ||| POLLHUP) := by
  unfold uvPollSlot at h
  split at h
  · cases h
  · rename_i pe hpe
    split at h
    · cases h
    · split at h
      · cases h
      · simp only [Option.ite_none_left_eq_some, Option.some.injEq, Prod.mk.injEq] at h
        obtain ⟨-, rfl, rfl⟩ := h
        exact ⟨pe, hpe, rfl⟩

/-- Masks leave no event that was not there. -/
theorem masked_out (a mask mask' : Events) : a &&& mask &&& mask' &&& ~~~a = 0 := by
  ext i hi
  cases ha : a[i] <;> simp [ha]

/-- A slot after its turn or that of another: it has lost events, or is given up. -/
structure Fades (pe pe' : PollFd) : Prop where
  fd : pe'.fd = pe.fd ∨ pe'.fd = -1
  revents : ∃ mask, pe'.revents = pe.revents &&& mask

theorem Fades.refl (pe : PollFd) : Fades pe pe :=
  ⟨Or.inl rfl, BitVec.allOnes 32, BitVec.and_allOnes.symm⟩

/-- No turn of a slot adds an event or a descriptor, and it leaves the other slots
that have a watcher. -/
theorem uvPollSlot_fades {loop : UvLoop ω} (hit : loop.pollFdsIterating = true) (i : Nat) :
    (uvPollSlot loop i).1.pollFds.length = loop.pollFds.length ∧
      ∀ (j : Nat) (pe' : PollFd), (uvPollSlot loop i).1.pollFds[j]? = some pe' →
        ∃ pe, loop.pollFds[j]? = some pe ∧ Fades pe pe' ∧
          (j ≠ i → (loop.watchers pe.fd.toNat).isSome → pe' = pe) := by
  unfold uvPollSlot
  split
  · exact ⟨rfl, fun j pe' hj => ⟨pe', hj, Fades.refl pe', fun _ _ => rfl⟩⟩
  · rename_i pe hpe
    split
    · exact ⟨rfl, fun j pe' hj => ⟨pe', hj, Fades.refl pe', fun _ _ => rfl⟩⟩
    · split
      · rename_i hnone
        unfold uvPlatformInvalidateFd
        rw [if_pos hit]
        refine ⟨List.length_map _, fun j pe' hj => ?_⟩
        simp only [List.getElem?_map, Option.map_eq_some_iff] at hj
        obtain ⟨pe0, hpe0, rfl⟩ := hj
        by_cases hfd : pe0.fd = pe.fd
        · rw [if_pos hfd]
          refine ⟨pe0, hpe0, ⟨Or.inr rfl, 0, BitVec.and_zero.symm⟩, fun _ hw => ?_⟩
          rw [hfd, hnone] at hw
          cases hw
        · rw [if_neg hfd]
          exact ⟨pe0, hpe0, Fades.refl pe0, fun _ _ => rfl⟩
      · refine ⟨List.length_set, fun j pe' hj => ?_⟩
        rw [List.getElem?_set] at hj
        by_cases hij : i = j
        · subst hij
          rw [if_pos rfl, if_pos (List.getElem?_eq_some_iff.mp hpe).1, Option.some.injEq] at hj
          subst hj
          exact ⟨pe, hpe, ⟨Or.inl rfl, _, rfl⟩, fun hne => absurd rfl hne⟩
        · rw [if_neg hij] at hj
          exact ⟨pe', hj, Fades.refl pe', fun _ _ => rfl⟩

/-- A slot that has faded calls its watcher only if it would have called it before. -/
theorem Fades.stale {loop loop' : UvLoop ω} (hs : SameTable loop loop') {pe pe' : PollFd}
    (h : Fades pe pe') (hstale : loop'.Stale pe') : loop.Stale pe := by
  obtain ⟨hfd, w, hw, hne⟩ := hstale
  obtain ⟨mask, hmask⟩ := h.revents
  have hsame : pe'.fd = pe.fd := h.fd.resolve_right hfd
  rw [hsame, hs.watchers] at hw
  refine ⟨hsame ▸ hfd, w, hw, fun hzero => hne ?_⟩
  rw [hmask, hs.pevents, BitVec.and_assoc, BitVec.and_comm mask, ← BitVec.and_assoc, hzero]
  exact BitVec.zero_and

/-! ## The slots before the poll -/

/-- A slot of a queued watcher has no events. -/
theorem uvPollfdsAdd_kept (loop : UvLoop ω) (w : ω) : ∃ fds : List Int,
    (uvPollfdsAdd loop w).pollFds.map PollFd.kept =
      loop.pollFds.map PollFd.kept ++ fds.map (·, 0) := by
  unfold uvPollfdsAdd
  split
  · exact ⟨[], by simp⟩
  · simp only
    split
    · rename_i i hi
      refine ⟨[], ?_⟩
      apply List.ext_getElem?
      intro j
      simp only [List.map_nil, List.append_nil, List.getElem?_map, List.getElem?_modify]
      by_cases hij : i = j <;> cases loop.pollFds[j]? <;> simp [hij, PollFd.kept]
    · exact ⟨[(loop.io w).fd], by simp [PollFd.kept]⟩

/-- What a slot keeps tells whether it would call its watcher. -/
theorem stale_kept {loop loop' : UvLoop ω} (hs : SameTable loop loop') {pe pe' : PollFd}
    (h : pe'.kept = pe.kept) : loop'.Stale pe' ↔ loop.Stale pe := by
  obtain ⟨hfd, hrevents⟩ := Prod.mk.inj h
  unfold UvLoop.Stale
  simp only [hfd, hrevents, hs.watchers, hs.pevents]

variable [DecidableEq ω]

/-- The drain of the queue leaves the slots, and adds some without events. -/
theorem drainWatcherQueue_kept (loop : UvLoop ω) : ∃ fds : List Int,
    (drainWatcherQueue loop).pollFds.map PollFd.kept =
      loop.pollFds.map PollFd.kept ++ fds.map (·, 0) := by
  refine drainWatcherQueue_inv (I := fun l => ∃ fds : List Int,
    l.pollFds.map PollFd.kept = loop.pollFds.map PollFd.kept ++ fds.map (·, 0)) ?_ ⟨[], by simp⟩
  rintro l w ⟨fds, hfds⟩
  obtain ⟨more, hmore⟩ := uvPollfdsAdd_kept l w
  refine ⟨fds ++ more, ?_⟩
  rw [List.map_append, ← List.append_assoc, ← hfds]
  exact hmore

/-- The drain leaves the slots where they are. -/
theorem drainWatcherQueue_slot (loop : UvLoop ω) {k : Nat} {pe : PollFd}
    (hk : loop.pollFds[k]? = some pe) :
    ∃ pe', (drainWatcherQueue loop).pollFds[k]? = some pe' ∧ pe'.kept = pe.kept := by
  obtain ⟨fds, hfds⟩ := drainWatcherQueue_kept loop
  have hget := congrArg (fun l => l[k]?) hfds
  have hlt := (List.getElem?_eq_some_iff.mp hk).1
  simp only [List.getElem?_map] at hget
  rw [List.getElem?_append_left (by rwa [List.length_map]), List.getElem?_map, hk,
    Option.map_some, Option.map_eq_some_iff] at hget
  exact hget

/-- The drain makes no slot that would call its watcher. -/
theorem drainWatcherQueue_calm {loop : UvLoop ω} (h : ∀ pe ∈ loop.pollFds, ¬ loop.Stale pe) :
    ∀ pe ∈ (drainWatcherQueue loop).pollFds, ¬ (drainWatcherQueue loop).Stale pe := by
  intro pe hpe hstale
  obtain ⟨fds, hfds⟩ := drainWatcherQueue_kept loop
  have hmem : pe.kept ∈ loop.pollFds.map PollFd.kept ++ fds.map (·, 0) :=
    hfds ▸ List.mem_map_of_mem hpe
  rcases List.mem_append.mp hmem with hold | hnew
  · obtain ⟨pe0, hpe0, he⟩ := List.mem_map.mp hold
    exact h pe0 hpe0 ((stale_kept (drainWatcherQueue_same loop) he.symm).mp hstale)
  · obtain ⟨fd, -, he⟩ := List.mem_map.mp hnew
    obtain ⟨-, w, -, hne⟩ := hstale
    rw [← (Prod.mk.inj he).2] at hne
    exact hne BitVec.zero_and

/-- What a callback does leaves the slots. -/
theorem WatcherOp.slots {mask : Events} {loop loop' : UvLoop ω} (h : WatcherOp mask loop loop') :
    loop'.pollFds = loop.pollFds ∧ loop'.pollFdsIterating = loop.pollFdsIterating := by
  cases h with
  | start w hfd => exact ⟨by rw [uvIoStart_eq]; rfl, uvIoStart_iterating _ _ _⟩
  | stop w =>
    refine ⟨?_, uvIoStop_iterating _ _ _⟩
    unfold uvIoStop
    simp only
    split_ifs <;> rfl

end isere.uv

namespace isere.httpd

/-! ## The calls of one poll -/

/-- In the poll that begins here, whatever happens at its slots, a watcher is
called only if `isere_tcp_poll` succeeded, and only with events that it reported
for the slot. -/
def FreshEvents (cfg : Config) (l : Llhttp) (y : Yuarel) (s : Httpd) (os : Os) : Prop :=
  (pollStep cfg s os).phase = .iterating 0 → ∀ (oss : List Os) (w : WatcherId) (events : Events),
    oss.length < (pollStep cfg s os).loop.pollFds.length →
    (uvPollSlot (run (step cfg l y) (pollStep cfg s os) oss).loop oss.length).2 =
      some (w, events) →
    0 ≤ os.ready ∧ events &&& ~~~os.revents oss.length = 0

variable {cfg : Config} {l : Llhttp} {y : Yuarel}

theorem onCallback_phase (c : ConnId) (os : Os) (s : Httpd) (cb : Callback) :
    (onCallback cfg y c os s cb).phase = s.phase := by
  by_cases hcb : cb = .messageComplete
  · subst hcb
    cases hd : cfg.dispatches (s.conns c).req with
    | true =>
      rw [onCallback_dispatch cfg y c os s hd]
      rfl
    | false =>
      obtain ⟨a, -, heq⟩ := onCallback_answer cfg y c os s hd
      rw [heq]
      simp
  · rw [onCallback_piece cfg y c os s hcb]
    rfl

theorem onPoll_phase (s : Httpd) (c : ConnId) (events : Events) (os : Os) :
    (onPoll cfg l y s c events os).phase = s.phase := by
  refine star_inv (I := fun s' => s'.phase = s.phase) ?_ (onPoll_moves cfg l y s c events os) rfl
  intro s1 s2 h hmove
  cases hmove with
  | logged _ => exact h
  | cleaned => exact (cleanup_phase s1 c).trans h
  | fed chunk => exact h
  | callback cb => exact (onCallback_phase c os s1 cb).trans h

theorem onConnected_phase (s : Httpd) (events : Events) (os : Os) :
    (onConnected cfg s events os).phase = s.phase := by
  rcases onConnected_cases cfg s events os with h | ⟨-, -, h⟩ <;> rw [h]
  exact addConn_phase s os.accept

theorem onPoll_quiet (s : Httpd) (c : ConnId) (events : Events) :
    (onPoll cfg l y s c events Os.quiet).loop = s.loop := by
  unfold onPoll
  split <;> rfl

theorem onConnected_quiet (s : Httpd) (events : Events) :
    (onConnected cfg s events Os.quiet).loop = s.loop := by
  rcases onConnected_cases cfg s events Os.quiet with hsame | ⟨-, haccept, -⟩
  · rw [hsame]
  · exact absurd haccept (by decide)

theorem watcherRun_slots {loop loop' : UvLoop WatcherId} (h : WatcherRun loop loop') :
    loop'.pollFds = loop.pollFds ∧ loop'.pollFdsIterating = loop.pollFdsIterating :=
  star_inv (I := fun a => a.pollFds = loop.pollFds ∧ a.pollFdsIterating = loop.pollFdsIterating)
    (fun _ _ ha hop => ⟨hop.slots.1.trans ha.1, hop.slots.2.trans ha.2⟩) h ⟨rfl, rfl⟩

variable (cfg l y) in
/-- The turn of a slot: what its callback does comes after, and a quiet callback
does nothing to the loop. -/
theorem slot_turn {s : Httpd} {i : Nat} (hs : s.phase = .iterating i)
    (hi : i < s.loop.pollFds.length) (os : Os) :
    (step cfg l y s os).phase = .iterating (i + 1) ∧
      WatcherRun (uvPollSlot s.loop i).1 (step cfg l y s os).loop ∧
      ((uvPollSlot s.loop i).2 = none ∨ os = Os.quiet →
        (step cfg l y s os).loop = (uvPollSlot s.loop i).1) := by
  unfold step
  rw [hs]
  simp only
  unfold slotStep
  rw [if_neg (Nat.not_le.mpr hi)]
  simp only
  cases hcall : (uvPollSlot s.loop i).2 with
  | none => exact ⟨rfl, .refl, fun _ => rfl⟩
  | some r =>
    obtain ⟨w, events⟩ := r
    have hquiet : some (w, events) = none ∨ os = Os.quiet → os = Os.quiet := by simp
    cases w with
    | server =>
      refine ⟨onConnected_phase _ events os, onConnected_watcherRun { s with
        loop := (uvPollSlot s.loop i).1, phase := .iterating (i + 1) } events os, fun h => ?_⟩
      rw [hquiet h]
      exact onConnected_quiet _ events
    | conn c =>
      refine ⟨onPoll_phase _ c events os, onPoll_watcherRun { s with
        loop := (uvPollSlot s.loop i).1, phase := .iterating (i + 1) } c events os, fun h => ?_⟩
      rw [hquiet h]
      exact onPoll_quiet _ c events

variable (cfg l y) in
/-- What the turns of the slots keep of the loop, the first part of a poll keeps. -/
theorem slots_run (oss : List Os) {I : UvLoop WatcherId → Prop} {s : Httpd}
    (hs : s.phase = .iterating 0) (hit : s.loop.pollFdsIterating = true) (h : I s.loop)
    (hlen : oss.length ≤ s.loop.pollFds.length)
    (hI : ∀ i < oss.length, ∀ os ∈ oss, ∀ loop loop' : UvLoop WatcherId,
      loop.pollFdsIterating = true → I loop → WatcherRun (uvPollSlot loop i).1 loop' →
      ((uvPollSlot loop i).2 = none ∨ os = Os.quiet → loop' = (uvPollSlot loop i).1) → I loop') :
    let s' := run (step cfg l y) s oss
    s'.phase = .iterating oss.length ∧ s'.loop.pollFdsIterating = true ∧
      s'.loop.pollFds.length = s.loop.pollFds.length ∧ I s'.loop := by
  induction oss using List.reverseRecOn with
  | nil => exact ⟨hs, hit, rfl, h⟩
  | append_singleton oss os ih =>
    rw [List.length_append, List.length_singleton] at hlen hI
    obtain ⟨hphase, hiter, hslots, hinv⟩ := ih (by omega) (fun i hi os' hos =>
      hI i (by omega) os' (List.mem_append_left _ hos))
    simp only [run_append, List.length_append, List.length_singleton]
    obtain ⟨hphase', hrun, hquiet⟩ := slot_turn cfg l y hphase
      (by rw [hslots]; omega) os
    obtain ⟨hfds, hiter'⟩ := watcherRun_slots hrun
    refine ⟨hphase', hiter'.trans ((uvPollSlot_rest _ _).1.trans hiter), ?_, ?_⟩
    · exact (congrArg List.length hfds).trans
        ((uvPollSlot_fades hiter oss.length).1.trans hslots)
    · exact hI oss.length (Nat.lt_succ_self _) os (List.mem_append_right _ List.mem_cons_self) _ _
        hiter hinv hrun hquiet

/-! ## The law -/

/-- A poll that goes on to its slots has watchers, and did not fail but for a
signal. -/
theorem pollStep_iterates {s : Httpd} {os : Os}
    (h : (pollStep cfg s os).phase = .iterating 0) : s.loop.nfds ≠ 0 ∧
      (0 ≤ os.ready ∨ os.eintr = true) ∧ (pollStep cfg s os).loop =
        { isereTcpPoll (drainWatcherQueue s.loop) os.ready os.revents with
          pollFdsIterating := true } := by
  unfold pollStep at h ⊢
  split_ifs at h ⊢ with hn hfail
  · exact absurd h (afterPoll_notIterating cfg 0)
  · exact absurd h (afterPoll_notIterating cfg 0)
  · refine ⟨hn, ?_, rfl⟩
    rw [not_and_or, Int.not_lt, Bool.not_eq_true', Bool.not_eq_false] at hfail
    exact hfail

theorem pollStep_interrupted (cfg : Config) {s : Httpd} {os : Os} (hn : s.loop.nfds ≠ 0)
    (he : os.eintr = true) : (pollStep cfg s os).phase = .iterating 0 := by
  unfold pollStep
  simp [hn, he]

/-- A poll that succeeds calls a watcher only with what it reported. -/
theorem fresh_of_ready {s : Httpd} {os : Os} (hready : 0 ≤ os.ready) :
    FreshEvents cfg l y s os := by
  intro hp oss w events hlt hcall
  obtain ⟨-, -, hloop⟩ := pollStep_iterates hp
  -- each slot has some of the events that the poll reported for it
  have hset : ∀ (j : Nat) (pe : PollFd), (pollStep cfg s os).loop.pollFds[j]? = some pe →
      ∃ mask, pe.revents = os.revents j &&& mask := by
    intro j pe hj
    rw [hloop] at hj
    simp only [isereTcpPoll, if_neg (Int.not_lt.mpr hready), List.getElem?_mapIdx,
      Option.map_eq_some_iff] at hj
    obtain ⟨pe0, -, rfl⟩ := hj
    by_cases hfd : pe0.fd < 0
    · exact ⟨0, by simp [hfd]⟩
    · exact ⟨BitVec.allOnes 32, by rw [BitVec.and_allOnes, if_neg hfd]⟩
  obtain ⟨-, -, -, hkept⟩ := slots_run cfg l y oss (I := fun loop =>
    ∀ (j : Nat) (pe : PollFd), loop.pollFds[j]? = some pe →
      ∃ mask, pe.revents = os.revents j &&& mask) hp (by rw [hloop]) hset (Nat.le_of_lt hlt) (by
    intro i _ os' _ loop loop' hit hinv hrun _ j pe' hj
    rw [(watcherRun_slots hrun).1] at hj
    obtain ⟨pe, hpe, hfades, -⟩ := (uvPollSlot_fades hit i).2 j pe' hj
    obtain ⟨mask, hmask⟩ := hfades.revents
    obtain ⟨mask', hmask'⟩ := hinv j pe hpe
    exact ⟨mask' &&& mask, by rw [hmask, hmask', BitVec.and_assoc]⟩)
  obtain ⟨pe, hpe, rfl⟩ := uvPollSlot_events hcall
  obtain ⟨mask, hmask⟩ := hkept _ pe hpe
  refine ⟨hready, ?_⟩
  rw [hmask]
  exact masked_out _ _ _

/-- Without old events, a poll that is interrupted calls nobody. -/
theorem fresh_of_calm {s : Httpd} {os : Os} (hready : os.ready < 0)
    (hcalm : ∀ pe ∈ s.loop.pollFds, ¬ s.loop.Stale pe) : FreshEvents cfg l y s os := by
  intro hp oss w events hlt hcall
  obtain ⟨-, -, hloop⟩ := pollStep_iterates hp
  unfold isereTcpPoll at hloop
  rw [if_pos hready] at hloop
  have hbegin : ∀ pe ∈ (pollStep cfg s os).loop.pollFds, ¬ (pollStep cfg s os).loop.Stale pe := by
    rw [hloop]
    exact drainWatcherQueue_calm hcalm
  have hnone : ∀ (loop : UvLoop WatcherId) i, (∀ pe ∈ loop.pollFds, ¬ loop.Stale pe) →
      (uvPollSlot loop i).2 = none := by
    intro loop i hcalm
    by_contra hsome
    obtain ⟨pe, hpe, hstale⟩ := (uvPollSlot_calls_iff loop i).mp hsome
    exact hcalm pe (List.mem_of_getElem? hpe) hstale
  obtain ⟨-, -, -, hkept⟩ := slots_run cfg l y oss
    (I := fun loop => ∀ pe ∈ loop.pollFds, ¬ loop.Stale pe) hp (by rw [hloop]) hbegin
    (Nat.le_of_lt hlt) (by
    intro i _ os' _ loop loop' hit hinv _ hquiet pe' hpe' hstale
    rw [hquiet (Or.inl (hnone loop i hinv))] at hpe' hstale
    obtain ⟨j, hj⟩ := List.mem_iff_getElem?.mp hpe'
    obtain ⟨pe, hpe, hfades, -⟩ := (uvPollSlot_fades hit i).2 j pe' hj
    exact hinv pe (List.mem_of_getElem? hpe) (hfades.stale (uvPollSlot_same loop i) hstale))
  rw [hnone _ _ hkept] at hcall
  cases hcall

/-- A slot with old events, before which nothing happens, calls its watcher. -/
theorem stale_slot_calls {s : Httpd} {os : Os} (hn : s.loop.nfds ≠ 0) (hready : os.ready < 0)
    (he : os.eintr = true) {pe : PollFd} (hpe : pe ∈ s.loop.pollFds) (hstale : s.loop.Stale pe) :
    ¬ FreshEvents cfg l y s os := by
  intro hfresh
  have hp := pollStep_interrupted cfg hn he
  obtain ⟨-, -, hloop⟩ := pollStep_iterates hp
  unfold isereTcpPoll at hloop
  rw [if_pos hready] at hloop
  obtain ⟨k, hk⟩ := List.mem_iff_getElem?.mp hpe
  obtain ⟨pe', hk', hkept⟩ := drainWatcherQueue_slot s.loop hk
  have hbegin : SameTable s.loop (pollStep cfg s os).loop ∧
      (pollStep cfg s os).loop.pollFds[k]? = some pe' := by
    rw [hloop]
    have hsame := drainWatcherQueue_same s.loop
    exact ⟨⟨hsame.watchers, hsame.nwatchers, hsame.fd, hsame.pevents⟩, hk'⟩
  have hlt := (List.getElem?_eq_some_iff.mp hbegin.2).1
  obtain ⟨-, -, -, hsame, hslot⟩ := slots_run cfg l y (List.replicate k Os.quiet)
    (I := fun loop => SameTable s.loop loop ∧ loop.pollFds[k]? = some pe') hp (by rw [hloop])
    hbegin (by rw [List.length_replicate]; exact Nat.le_of_lt hlt) (by
    intro i hi os' hos loop loop' hit hinv _ hquiet
    rw [List.length_replicate] at hi
    rw [hquiet (Or.inr (List.eq_of_mem_replicate hos))]
    refine ⟨hinv.1.trans (uvPollSlot_same loop i), ?_⟩
    have hlen : k < (uvPollSlot loop i).1.pollFds.length := by
      rw [(uvPollSlot_fades hit i).1]
      exact (List.getElem?_eq_some_iff.mp hinv.2).1
    obtain ⟨pe0, hpe0, -, hsame⟩ := (uvPollSlot_fades hit i).2 k _
      (List.getElem?_eq_getElem hlen)
    rw [hinv.2, Option.some.injEq] at hpe0
    subst hpe0
    rw [List.getElem?_eq_getElem hlen, hsame (Nat.ne_of_gt hi) ?_]
    obtain ⟨-, w, hw, -⟩ := (stale_kept hinv.1 hkept).mpr hstale
    rw [hw]
    rfl)
  have hcalls := (uvPollSlot_calls_iff _ k).mpr ⟨pe', hslot, (stale_kept hsame hkept).mpr hstale⟩
  obtain ⟨⟨w, events⟩, hcall⟩ := Option.ne_none_iff_exists'.mp hcalls
  have hnow := hfresh hp (List.replicate k Os.quiet) w events
    (by rw [List.length_replicate]; exact hlt) (by rw [List.length_replicate]; exact hcall)
  exact absurd hnow.1 (Int.not_le.mpr hready)

/-- Every watcher is called only with what its poll reported just when the poll
does not come to the slots after a signal, or no slot has old events then. -/
theorem callbacks_get_fresh_events_iff (cfg : Config) (l : Llhttp) (y : Yuarel) (s : Httpd)
    (os : Os) : FreshEvents cfg l y s os ↔
      s.loop.nfds = 0 ∨ 0 ≤ os.ready ∨ os.eintr = false ∨
        ∀ pe ∈ s.loop.pollFds, ¬ s.loop.Stale pe := by
  constructor
  · intro h
    by_contra hnot
    simp only [not_or, not_forall, Int.not_le, Bool.not_eq_false, not_not] at hnot
    obtain ⟨hn, hready, he, pe, hpe, hstale⟩ := hnot
    exact stale_slot_calls hn hready he hpe hstale h
  · rintro (hn | hready | he | hcalm)
    · exact fun hp => absurd hn (pollStep_iterates hp).1
    · exact fresh_of_ready hready
    · intro hp
      obtain ⟨-, hwhy, -⟩ := pollStep_iterates hp
      exact fresh_of_ready (hwhy.resolve_right (by simp [he])) hp
    · by_cases hready : 0 ≤ os.ready
      · exact fresh_of_ready hready
      · exact fresh_of_calm (Int.not_le.mp hready) hcalm

/-- A signal after a poll that found a client at the server: `__on_connected` is
called again, with the event of the poll before. -/
theorem an_interrupted_poll_repeats_old_events :
    ¬ ∀ (cfg : Config) (l : Llhttp) (y : Yuarel) (serverfd : Nat) (is : List Os) (os : Os),
      FreshEvents cfg l y (run (step cfg l y) (start serverfd) is) os := by
  intro h
  have hcall := h { maxConns := 12, hasHandler := false } rootLlhttp slashYuarel 3
    [Os.readable 0, Os.quiet, Os.quiet] { Os.quiet with ready := -1, eintr := true }
    (by decide +kernel) [] .server UV_POLLIN (by decide +kernel) (by decide +kernel)
  exact absurd hcall.1 (by decide)

end isere.httpd
