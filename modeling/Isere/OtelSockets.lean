-- The sockets of the OpenTelemetry task. Whatever fails on the way, the task has
-- at most one socket open, and at most one entry in the table of its loop, which
-- is that of the socket.
import Isere.Otel
import Isere.Runs
import Isere.WatchedLoop

open isere.tcp isere.uv runs

namespace isere.otel

/-! ## The calls that open and close sockets -/

/-- `isere_tcp_socket_new`, whose result overwrites `__otel->fd`, or `isere_tcp_close`. -/
inductive SocketCall
  | new (fd : Int)
  | close (fd : Int)
  deriving DecidableEq, Repr

/-- The sockets that are open after one more call. A new socket is one of the system's if it is
not negative. -/
def SocketCall.apply (opened : List Int) : SocketCall → List Int
  | .new fd => if 0 ≤ fd then fd :: opened else opened
  | .close fd => opened.erase fd

/-- The task, and the calls that it made. -/
structure TaskRun where
  task : Otel
  tcp : Tcp
  calls : List SocketCall

def TaskRun.start : TaskRun := ⟨otel.start, ⟨0⟩, []⟩

/-- The step waits for the connection, and polls. -/
def polls (o : Otel) (os : OtelOs) : Bool :=
  decide (o.phase = .loop) && !os.shouldExit && decide (o.lastConnectAttempt ≠ 0)

/-- The task after the poll, if the step polls. -/
def polled (o : Otel) (os : OtelOs) : Otel := if polls o os then poll o os else o

/-- A step connects for the first time, or gives the connection up and connects again, or leaves
the socket as it is. -/
theorem step_cases (o : Otel) (t : Tcp) (os : OtelOs) :
    (o.phase = .connect ∧ (step o t os).1 = { connectToOtel o os with phase := .loop }) ∨
    (o.phase = .loop ∧ givesUp o os = true ∧
      (step o t os).1 = connectToOtel (disconnectFromOtel (polled o os) t).1 os) ∨
    (o.phase ≠ .connect ∧ givesUp o os = false ∧
      ((step o t os).1 = polled o os ∨
        polls o os = false ∧ ((∃ lastSent, (step o t os).1 = { o with lastSent }) ∨
          (step o t os).1 =
            { o with loop := uvIoStop o.loop () UV_POLLOUT, phase := .exited }))) := by
  unfold step
  cases hp : o.phase with
  | connect => exact Or.inl ⟨rfl, rfl⟩
  | exited =>
    exact Or.inr (Or.inr ⟨by simp, by simp [givesUp, hp], by simp [polled, polls, hp]⟩)
  | loop =>
    right
    cases he : os.shouldExit with
    | true => exact Or.inr ⟨by simp, by simp [givesUp, he], by simp [polls, he]⟩
    | false =>
      unfold turn givesUp reconnect polled polls
      by_cases hc : o.lastConnectAttempt = 0
      · by_cases hi : os.tickInterval - o.lastSent > ISERE_OTEL_SEND_INTERVAL_MS
        · cases henc : os.encodeOk <;> cases hw : writeFails os <;>
            simp [hc, hi, hp, he]
        · exact Or.inr ⟨by simp, by simp [hc, hi], by simp [hc, hi]⟩
      · by_cases ht : os.tickTimeout - (poll o os).lastConnectAttempt >
            ISERE_OTEL_CONNECT_TIMEOUT_MS
        · exact Or.inl ⟨by simp, by simp [hc, ht, hp, he], by simp [hc, ht, hp, he]⟩
        · exact Or.inr ⟨by simp, by simp [hc, ht], by simp [hc, ht, hp, he]⟩

/-! ## The loop of the task -/

/-- The tables of the loop agree, and what is in them is for the socket of the task. -/
structure OtelOk (o : Otel) : Prop where
  loop : LoopOk UV_POLLOUT o.loop o.loop.watcherQueue
  resting : o.loop.pollFdsIterating = false
  current : ∀ fd w, o.loop.watchers fd = some w → (fd : Int) = o.fd

/-- The table is empty. -/
def Unwatched (loop : UvLoop Unit) : Prop := ∀ fd w, loop.watchers fd ≠ some w

theorem start_ok : OtelOk start ∧ Unwatched start.loop := by
  have htable : TableOk UV_POLLOUT start.loop := uvPlatformLoopInit_table (fun _ => rfl)
  have hempty : Unwatched start.loop := fun fd w hw => by cases hw
  refine ⟨⟨⟨htable, ?_, ?_, ?_, ?_, ?_, List.nodup_nil, ?_⟩, rfl, ?_⟩, hempty⟩
  · simp [UvLoop.watched, start, uvPlatformLoopInit]
  · intro fd _
    simp [start, uvPlatformLoopInit]
  · intro pe hpe
    cases hpe
  · exact fun fd w hw => absurd hw (hempty fd w)
  · intro w hw
    cases hw
  · exact fun fd w hw => absurd hw (hempty fd w)
  · exact fun fd w hw => absurd hw (hempty fd w)

theorem disconnectFromOtel_ok {o : Otel} (h : OtelOk o) (t : Tcp) :
    OtelOk (disconnectFromOtel o t).1 ∧ Unwatched (disconnectFromOtel o t).1.loop := by
  have hiff := uvIoStop_watchers_iff h.loop.table ()
  have hempty : Unwatched (disconnectFromOtel o t).1.loop := by
    intro fd w hw
    exact ((hiff w fd).mp hw).2 rfl
  refine ⟨⟨h.loop.stop (), ?_, fun fd w hw => absurd hw (hempty fd w)⟩, hempty⟩
  exact (uvIoStop_iterating _ _ _).trans h.resting

theorem connectToOtel_phase (o : Otel) (os : OtelOs) : (connectToOtel o os).phase = o.phase := by
  unfold connectToOtel
  simp only
  split_ifs <;> rfl

/-- Wherever the connect stops, the table has at most the new socket. -/
theorem connectToOtel_ok {o : Otel} (h : OtelOk o) (hempty : Unwatched o.loop) (os : OtelOs) :
    OtelOk (connectToOtel o os) := by
  have hstays : ∀ (fd : Int) (attempt : UInt64),
      OtelOk { o with fd := fd, lastConnectAttempt := attempt } := by
    intro fd attempt
    exact ⟨h.loop, h.resting, fun n w hw => absurd hw (hempty n w)⟩
  unfold connectToOtel
  simp only
  by_cases hsocket : os.socket < 0
  · rw [if_pos hsocket]
    exact hstays os.socket o.lastConnectAttempt
  rw [if_neg hsocket]
  cases os.nonblockOk with
  | false => exact hstays os.socket o.lastConnectAttempt
  | true =>
    simp only [Bool.not_true, Bool.false_eq_true, ↓reduceIte]
    by_cases hconnect : os.connect < 0 ∧ os.connect ≠ -2
    · rw [if_pos hconnect]
      exact hstays os.socket os.tickConnect
    rw [if_neg hconnect]
    have hrenew : LoopOk UV_POLLOUT
        (o.loop.setIo () { o.loop.io () with events := 0, fd := os.socket })
        o.loop.watcherQueue := h.loop.renew (hempty · ()) (h.loop.table.masked ())
    have hfree : o.loop.watchers os.socket.toNat = none := by
      rw [Option.eq_none_iff_forall_ne_some]
      exact hempty _
    have hloop := hrenew.start (w := ()) (by decide) (by simpa [UvLoop.setIo] using hsocket)
      (by simpa [UvLoop.setIo] using hfree) (hempty · ())
    refine ⟨hloop, ?_, ?_⟩
    · rw [uvIoStart_iterating]
      exact h.resting
    · intro fd w hw
      rw [← hloop.table.fd_eq fd w hw, uvIoStart_fd]
      simp [UvLoop.setIo]

/-! ## A poll -/

/-- The slots as the loop of a poll finds them. -/
def polledLoop (o : Otel) (os : OtelOs) : UvLoop Unit :=
  isereTcpPoll (drainWatcherQueue o.loop) os.ready os.revents

theorem polledLoop_same (o : Otel) (os : OtelOs) : SameTable o.loop (polledLoop o os) :=
  (drainWatcherQueue_same o.loop).trans (isereTcpPoll_same _ os.ready os.revents)

/-- The task while the loop looks at its slots, in a poll of `o`. -/
structure Polling (o o' : Otel) : Prop where
  loop : LoopOk UV_POLLOUT o'.loop o'.loop.watcherQueue
  iterating : o'.loop.pollFdsIterating = true
  watchers : ∀ fd w, o'.loop.watchers fd = some w → o.loop.watchers fd = some w
  fd : o'.fd = o.fd
  phase : o'.phase = o.phase
  attempt : o'.lastConnectAttempt = o.lastConnectAttempt ∨ o'.lastConnectAttempt = 0

variable {o o' : Otel}

theorem onConnected_polling (h : Polling o o') (os : OtelOs) : Polling o (onConnected o' os) where
  loop := h.loop.stop ()
  iterating := (uvIoStop_iterating _ _ _).trans h.iterating
  watchers := fun fd w hw => h.watchers fd w (uvIoStop_watchers hw)
  fd := h.fd
  phase := h.phase
  attempt := Or.inr rfl

theorem slot_polling (h : Polling o o') (i : Nat) :
    Polling o { o' with loop := (uvPollSlot o'.loop i).1 } := by
  obtain ⟨hiterating, hqueue⟩ := uvPollSlot_rest o'.loop i
  refine ⟨?_, hiterating.trans h.iterating, ?_, h.fd, h.phase, h.attempt⟩
  · simp only [hqueue]
    exact h.loop.slot h.iterating i
  · intro fd w hw
    exact h.watchers fd w ((uvPollSlot_same o'.loop i).watchers ▸ hw)

theorem pollSlot_polling (h : Polling o o') (os : OtelOs) (i : Nat) :
    Polling o (pollSlot os o' i) := by
  have hslot := slot_polling h i
  unfold pollSlot
  simp only
  cases (uvPollSlot o'.loop i).2 with
  | none => exact hslot
  | some call => exact onConnected_polling hslot os

theorem pollSlots_polling (os : OtelOs) (is : List Nat) (h : Polling o o') :
    Polling o (is.foldl (pollSlot os) o') := by
  induction is generalizing o' with
  | nil => exact h
  | cons i is ih => exact ih (pollSlot_polling h os i)

/-- A poll ends at once, or looks at the slots of the polled loop. -/
theorem poll_cases (o : Otel) (os : OtelOs) :
    (o.loop.nfds = 0 ∧ poll o os = o) ∨
    (os.ready < 0 ∧ os.eintr = false ∧ poll o os = { o with loop := polledLoop o os }) ∨
    ((0 ≤ os.ready ∨ os.eintr = true) ∧
      let o' := (List.range (polledLoop o os).pollFds.length).foldl (pollSlot os)
        { o with loop := { polledLoop o os with pollFdsIterating := true } }
      poll o os = { o' with loop := { o'.loop with pollFdsIterating := false } }) := by
  unfold poll polledLoop
  by_cases hnone : o.loop.nfds = 0
  · exact Or.inl ⟨hnone, by simp [hnone]⟩
  by_cases hready : os.ready < 0
  · cases hintr : os.eintr with
    | false => exact Or.inr (Or.inl ⟨hready, rfl, by simp [hnone, hready]⟩)
    | true => exact Or.inr (Or.inr ⟨Or.inr rfl, by simp [hnone]⟩)
  · exact Or.inr (Or.inr ⟨Or.inl (Int.not_lt.mp hready), by simp [hnone, hready]⟩)

theorem polledLoop_ok (h : OtelOk o) (os : OtelOs) :
    LoopOk UV_POLLOUT (polledLoop o os) (polledLoop o os).watcherQueue ∧
      (polledLoop o os).pollFdsIterating = false :=
  h.loop.polled h.resting os.ready os.revents

theorem polledLoop_polling (h : OtelOk o) (os : OtelOs) :
    Polling o { o with loop := { polledLoop o os with pollFdsIterating := true } } where
  loop := (polledLoop_ok h os).1.iterate true
  iterating := rfl
  watchers := fun _ _ hw => (polledLoop_same o os).watchers ▸ hw
  fd := rfl
  phase := rfl
  attempt := Or.inl rfl

/-- What a poll leaves as it was. -/
structure Polled (o o' : Otel) : Prop where
  ok : OtelOk o'
  watchers : ∀ fd w, o'.loop.watchers fd = some w → o.loop.watchers fd = some w
  fd : o'.fd = o.fd
  phase : o'.phase = o.phase
  attempt : o'.lastConnectAttempt = o.lastConnectAttempt ∨ o'.lastConnectAttempt = 0

theorem poll_polled (h : OtelOk o) (os : OtelOs) : Polled o (poll o os) := by
  rcases poll_cases o os with ⟨-, heq⟩ | ⟨-, -, heq⟩ | ⟨-, heq⟩
  · rw [heq]
    exact ⟨h, fun _ _ hw => hw, rfl, rfl, Or.inl rfl⟩
  · obtain ⟨hloop, hresting⟩ := polledLoop_ok h os
    have hsame := (polledLoop_same o os).watchers
    rw [heq]
    refine ⟨⟨hloop, hresting, ?_⟩, fun _ _ hw => hsame ▸ hw, rfl, rfl, Or.inl rfl⟩
    intro fd w hw
    exact h.current fd w (hsame ▸ hw)
  · have hslots := pollSlots_polling os (List.range (polledLoop o os).pollFds.length)
      (polledLoop_polling h os)
    simp only at heq
    rw [heq]
    refine ⟨⟨hslots.loop.iterate false, rfl, ?_⟩, hslots.watchers, hslots.fd, hslots.phase,
      hslots.attempt⟩
    intro fd w hw
    rw [hslots.fd]
    exact h.current fd w (hslots.watchers fd w hw)

theorem polled_polled (h : OtelOk o) (os : OtelOs) : Polled o (polled o os) := by
  unfold polled
  by_cases hp : polls o os = true
  · rw [if_pos hp]
    exact poll_polled h os
  · rw [if_neg hp]
    exact ⟨h, fun _ _ hw => hw, rfl, rfl, Or.inl rfl⟩

/-! ## The law -/

/-- Before its first connect the task has nothing in its table. -/
structure TaskOk (o : Otel) : Prop extends OtelOk o where
  unwatched : o.phase = .connect → Unwatched o.loop

theorem step_ok (h : TaskOk o) (t : Tcp) (os : OtelOs) :
    TaskOk (step o t os).1 ∧ (step o t os).1.phase ≠ .connect := by
  have hpolled := polled_polled h.toOtelOk os
  rcases step_cases o t os with ⟨hp, heq⟩ | ⟨hp, -, heq⟩ |
    ⟨hp, -, heq | ⟨-, ⟨lastSent, heq⟩ | heq⟩⟩ <;> rw [heq]
  · have hconnected := connectToOtel_ok h.toOtelOk (h.unwatched hp) os
    exact ⟨⟨⟨hconnected.loop, hconnected.resting, hconnected.current⟩, by simp⟩, by simp⟩
  · obtain ⟨hdisconnected, hempty⟩ := disconnectFromOtel_ok hpolled.ok t
    have hphase : (connectToOtel (disconnectFromOtel (polled o os) t).1 os).phase = .loop := by
      rw [connectToOtel_phase]
      exact hpolled.phase.trans hp
    exact ⟨⟨connectToOtel_ok hdisconnected hempty os, by simp [hphase]⟩, by simp [hphase]⟩
  · have hphase : (polled o os).phase ≠ .connect := hpolled.phase ▸ hp
    exact ⟨⟨hpolled.ok, fun hconnect => absurd hconnect hphase⟩, hphase⟩
  · exact ⟨⟨⟨h.loop, h.resting, h.current⟩, fun hconnect => absurd hconnect hp⟩, hp⟩
  · obtain ⟨hstopped, -⟩ := disconnectFromOtel_ok h.toOtelOk t
    exact ⟨⟨⟨hstopped.loop, hstopped.resting, hstopped.current⟩, by simp⟩, by simp⟩

end isere.otel
