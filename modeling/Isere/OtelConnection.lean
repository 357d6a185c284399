-- When the OpenTelemetry task sends, and when it connects again. The task knows
-- of its connection only by `last_connect_attempt`, whose 0 stands for "not
-- connecting", and does not look at the events that its socket reports.
import Isere.Exports
import Isere.OtelSockets
import Isere.StaleEvents

open isere.tcp isere.uv runs

namespace isere.otel

/-! ## The connection, as the system has it -/

/-- What became of the connect on the socket of the task. -/
inductive Connection
  | none
  | pending
  | failed
  | established
  deriving DecidableEq, Repr

/-- The connection after `__connect_to_otel`. -/
def connectResult (os : OtelOs) : Connection :=
  if os.socket < 0 ∨ os.nonblockOk = false then .none
  else if os.connect = -2 then .pending
  else if os.connect < 0 then .failed
  else .established

/-- The slots of the socket of the task, as a poll finds them. -/
def socketSlots (o : Otel) (os : OtelOs) : List PollFd :=
  (polledLoop o os).pollFds.filter (fun pe => pe.fd = o.fd)

/-- The connection after a poll: an error or a hang-up that the socket reports ends a connect
that is pending, and else the socket is connected when it can be written. -/
def Connection.reported (c : Connection) (o : Otel) (os : OtelOs) : Connection :=
  if c ≠ .pending ∨ o.loop.nfds = 0 ∨ os.ready < 0 then c
  else if (socketSlots o os).any (fun pe => pe.revents &&& (POLLERR ||| POLLHUP) ≠ 0) then .failed
  else if (socketSlots o os).any (fun pe => pe.revents &&& UV_POLLOUT ≠ 0) then .established
  else .pending

/-- The task, its connection, and the tick of its last `__connect_to_otel`. -/
structure Client where
  task : Otel
  tcp : Tcp
  connection : Connection
  attempted : UInt64

def Client.start : Client := ⟨otel.start, ⟨0⟩, .none, 0⟩

def connects (o : Otel) (os : OtelOs) : Bool := decide (o.phase = .connect) || givesUp o os

/-- The connection after the poll of the step, if it polls. -/
def Client.polledConnection (s : Client) (os : OtelOs) : Connection :=
  if polls s.task os then s.connection.reported s.task os else s.connection

def clientStep (s : Client) (os : OtelOs) : Client :=
  let r := step s.task s.tcp os
  if connects s.task os then
    { task := r.1, tcp := r.2, connection := connectResult os, attempted := os.tickConnect }
  else
    { task := r.1, tcp := r.2, connection := s.polledConnection os, attempted := s.attempted }

/-! ## What is asked of it -/

/-- The step sends only over a connection that is established, and one that is not is given up
only after its time. -/
structure Orderly (s : Client) (os : OtelOs) : Prop where
  sends : sends s.task os = true → s.connection = .established
  retries : givesUp s.task os = true → s.polledConnection os = .established ∨
    s.attempted.toNat + ISERE_OTEL_CONNECT_TIMEOUT_MS.toNat < os.tickTimeout.toNat

/-- What the step is told leaves the task with a right idea of its connection. -/
structure Benign (s : Client) (os : OtelOs) : Prop where
  /-- A connect gets its socket, at a tick that is not 0 or with success at once. -/
  connects : connects s.task os = true →
    0 ≤ os.socket ∧ os.nonblockOk = true ∧ (os.tickConnect ≠ 0 ∨ 0 ≤ os.connect)
  /-- Events that call the watcher are from this poll, and without an error or a hang-up. -/
  reports : polls s.task os = true → s.connection ≠ .established →
    (0 ≤ os.ready ∨ os.eintr = true) → ∀ pe ∈ (polledLoop s.task os).pollFds,
      (polledLoop s.task os).Stale pe → 0 ≤ os.ready ∧ pe.revents &&& (POLLERR ||| POLLHUP) = 0
  /-- The tick count does not start over while the task waits. -/
  ticks : polls s.task os = true → s.polledConnection os ≠ .established →
    s.attempted ≤ os.tickTimeout

/-! ## A poll that calls no one -/

section Poll

variable {o : Otel} {os : OtelOs}

/-- With no slot that would call its watcher, no slot does. -/
theorem pollSlot_calm (os : OtelOs) (i : Nat) (hit : o.loop.pollFdsIterating = true)
    (hcalm : ∀ pe ∈ o.loop.pollFds, ¬ o.loop.Stale pe) :
    (pollSlot os o i).loop.pollFdsIterating = true ∧
      (∀ pe ∈ (pollSlot os o i).loop.pollFds, ¬ (pollSlot os o i).loop.Stale pe) ∧
      (pollSlot os o i).lastConnectAttempt = o.lastConnectAttempt := by
  have hnone : (uvPollSlot o.loop i).2 = none := by
    by_contra hcalls
    obtain ⟨pe, hpe, hstale⟩ := (uvPollSlot_calls_iff o.loop i).mp hcalls
    exact hcalm pe (List.mem_of_getElem? hpe) hstale
  unfold pollSlot
  simp only [hnone]
  refine ⟨(uvPollSlot_rest o.loop i).1.trans hit, ?_, trivial⟩
  intro pe' hpe' hstale
  obtain ⟨j, hj⟩ := List.mem_iff_getElem?.mp hpe'
  obtain ⟨pe, hpe, hfades, -⟩ := (uvPollSlot_fades hit i).2 j pe' hj
  exact hcalm pe (List.mem_of_getElem? hpe) (hfades.stale (uvPollSlot_same o.loop i) hstale)

theorem pollSlots_calm (os : OtelOs) (is : List Nat) (hit : o.loop.pollFdsIterating = true)
    (hcalm : ∀ pe ∈ o.loop.pollFds, ¬ o.loop.Stale pe) :
    (is.foldl (pollSlot os) o).lastConnectAttempt = o.lastConnectAttempt := by
  induction is generalizing o with
  | nil => rfl
  | cons i is ih =>
    obtain ⟨hit', hcalm', hattempt⟩ := pollSlot_calm os i hit hcalm
    exact (ih hit' hcalm').trans hattempt

/-- A poll ends the wait only if a slot of it calls its watcher. -/
theorem poll_attempt (h : (poll o os).lastConnectAttempt ≠ o.lastConnectAttempt) :
    (0 ≤ os.ready ∨ os.eintr = true) ∧
      ∃ pe ∈ (polledLoop o os).pollFds, (polledLoop o os).Stale pe := by
  rcases poll_cases o os with ⟨-, heq⟩ | ⟨-, -, heq⟩ | ⟨hready, heq⟩
  · rw [heq] at h
    exact absurd rfl h
  · rw [heq] at h
    exact absurd rfl h
  · refine ⟨hready, ?_⟩
    by_contra hcalm
    push Not at hcalm
    simp only at heq
    rw [heq] at h
    exact h (pollSlots_calm (o := { o with loop := { polledLoop o os with
      pollFdsIterating := true } }) os _ rfl hcalm)

/-! ## The events of the socket -/

/-- Events that a watcher for writing gets, without an error or a hang-up, are that it can write. -/
theorem writable {revents pevents : Events} (hmasked : pevents &&& ~~~UV_POLLOUT = 0)
    (hgets : revents &&& (pevents ||| POLLERR ||| POLLHUP) ≠ 0)
    (hclean : revents &&& (POLLERR ||| POLLHUP) = 0) : revents &&& UV_POLLOUT ≠ 0 := by
  intro hzero
  apply hgets
  ext i hi
  have hbit := congrArg (fun e : Events => e[i]) hmasked
  have hbit' := congrArg (fun e : Events => e[i]) hclean
  have hbit'' := congrArg (fun e : Events => e[i]) hzero
  simp only [BitVec.getElem_and, BitVec.getElem_or, BitVec.getElem_not] at hbit hbit' hbit'' ⊢
  cases hr : revents[i] <;> cases hp : pevents[i] <;> cases ho : UV_POLLOUT[i] <;>
    simp_all

/-- A slot that calls a watcher is one of the socket. -/
theorem stale_socketSlots (h : OtelOk o) {pe : PollFd} (hpe : pe ∈ (polledLoop o os).pollFds)
    (hstale : (polledLoop o os).Stale pe) :
    pe ∈ socketSlots o os ∧ ∃ w, o.loop.watchers pe.fd.toNat = some w := by
  obtain ⟨hfd, w, hw, -⟩ := hstale
  have hcurrent := h.current pe.fd.toNat w ((polledLoop_same o os).watchers ▸ hw)
  have hinside := ((polledLoop_ok h os).1.inside pe hpe).resolve_left hfd
  have heq : pe.fd = o.fd := by omega
  refine ⟨List.mem_filter.mpr ⟨hpe, by simpa using heq⟩, w, ?_⟩
  rw [← (polledLoop_same o os).watchers]
  exact hw

/-- With a watcher in the table, a slot of the socket with an error would call it. -/
theorem socketSlots_stale (h : OtelOk o) {fd : Nat} {w : Unit} (hw : o.loop.watchers fd = some w)
    {pe : PollFd} (hpe : pe ∈ socketSlots o os)
    (herror : pe.revents &&& (POLLERR ||| POLLHUP) ≠ 0) : (polledLoop o os).Stale pe := by
  have hfd : pe.fd = o.fd := by simpa using (List.mem_filter.mp hpe).2
  have hcurrent := h.current fd w hw
  have htoNat : pe.fd.toNat = fd := by omega
  refine ⟨by omega, w, ?_, ?_⟩
  · rw [(polledLoop_same o os).watchers, htoNat]
    exact hw
  · intro hzero
    rw [BitVec.or_assoc, BitVec.and_or_distrib_left] at hzero
    exact herror (BitVec.or_eq_zero_iff.mp hzero).2

end Poll

/-! ## What the task knows -/

/-- The task waits while its connection is not established. -/
structure ClientOk (s : Client) : Prop where
  task : TaskOk s.task
  settled : s.task.phase = .loop → s.task.lastConnectAttempt = 0 → s.connection = .established
  attempted : s.task.lastConnectAttempt ≠ 0 → s.task.lastConnectAttempt = s.attempted
  watched : ∀ fd w, s.task.loop.watchers fd = some w →
    s.connection = .pending ∨ s.connection = .established

section Step

variable {s : Client} {os : OtelOs}

/-- After a benign poll a watcher is there for a connect that goes on or has succeeded. -/
theorem polledConnection_watched (h : ClientOk s) (hb : Benign s os) {fd : Nat} {w : Unit}
    (hw : s.task.loop.watchers fd = some w) :
    s.polledConnection os = .pending ∨ s.polledConnection os = .established := by
  unfold Client.polledConnection
  by_cases hpolls : polls s.task os = true
  · rw [if_pos hpolls]
    unfold Connection.reported
    by_cases hstays : s.connection ≠ .pending ∨ s.task.loop.nfds = 0 ∨ os.ready < 0
    · rw [if_pos hstays]
      exact h.watched fd w hw
    rw [if_neg hstays]
    push Not at hstays
    obtain ⟨hpending, -, hready⟩ := hstays
    have hclean : (socketSlots s.task os).any
        (fun pe => pe.revents &&& (POLLERR ||| POLLHUP) ≠ 0) = false := by
      rw [List.any_eq_false]
      intro pe hpe herror
      have herror' : pe.revents &&& (POLLERR ||| POLLHUP) ≠ 0 := by simpa using herror
      have hne : s.connection ≠ .established := by simp [hpending]
      exact herror' (hb.reports hpolls hne (Or.inl hready) pe (List.mem_filter.mp hpe).1
        (socketSlots_stale h.task.toOtelOk hw hpe herror')).2
    rw [hclean, if_neg Bool.false_ne_true]
    split_ifs
    · exact Or.inr rfl
    · exact Or.inl rfl
  · rw [if_neg hpolls]
    exact h.watched fd w hw

/-- A benign poll ends the wait only when the connection is established. -/
theorem polledConnection_settled (h : ClientOk s) (hb : Benign s os)
    (hpolls : polls s.task os = true) (hsettled : (poll s.task os).lastConnectAttempt = 0) :
    s.polledConnection os = .established := by
  have hwaits : s.task.lastConnectAttempt ≠ 0 := by
    simp only [polls, Bool.and_eq_true, decide_eq_true_eq] at hpolls
    exact hpolls.2
  obtain ⟨hlooks, pe, hpe, hstale⟩ := poll_attempt (by rw [hsettled]; exact hwaits.symm)
  obtain ⟨hslot, w, hw⟩ := stale_socketSlots h.task.toOtelOk hpe hstale
  rcases polledConnection_watched h hb hw with hpending | hestablished
  · -- the slot that called tells that the socket can be written
    unfold Client.polledConnection at hpending
    rw [if_pos hpolls] at hpending
    by_cases hne : s.connection = .established
    · simp [Connection.reported, hne] at hpending
    obtain ⟨hready, hclean⟩ := hb.reports hpolls hne hlooks pe hpe hstale
    have hwrites :
        (socketSlots s.task os).any (fun pe => pe.revents &&& UV_POLLOUT ≠ 0) = true := by
      obtain ⟨-, w', -, hgets⟩ := hstale
      have hmasked := (polledLoop_ok h.task.toOtelOk os).1.table.masked w'
      rw [List.any_eq_true]
      exact ⟨pe, hslot, by simpa using writable hmasked hgets hclean⟩
    have hnfds : s.task.loop.nfds ≠ 0 := by
      intro hzero
      unfold poll at hsettled
      rw [if_pos hzero] at hsettled
      exact hwaits hsettled
    unfold Connection.reported at hpending
    rw [hwrites] at hpending
    split_ifs at hpending with hstays herror hwrites'
    · rcases hstays with hnot | hzero | hlt
      · exact absurd hpending hnot
      · exact absurd hzero hnfds
      · omega
    · exact absurd rfl hwrites'
  · exact hestablished

/-- With a right idea of its connection, the task sends and connects again when it should. -/
theorem benign_orderly (h : ClientOk s) (hb : Benign s os) : Orderly s os := by
  have hsends : sends s.task os = true → s.connection = .established := by
    intro hsends
    simp only [sends, Bool.and_eq_true, decide_eq_true_eq] at hsends
    exact h.settled hsends.1.1.1.1 hsends.1.1.2
  refine ⟨hsends, fun hup => ?_⟩
  by_cases hpolls : polls s.task os = true
  · by_cases hdone : s.polledConnection os = .established
    · exact Or.inl hdone
    have hattempt : (poll s.task os).lastConnectAttempt = s.attempted := by
      rcases (poll_polled h.task.toOtelOk os).attempt with heq | hzero
      · simp only [polls, Bool.and_eq_true, decide_eq_true_eq] at hpolls
        rw [heq, h.attempted hpolls.2]
      · exact absurd (polledConnection_settled h hb hpolls hzero) hdone
    have hle := hb.ticks hpolls hdone
    simp only [polls, Bool.and_eq_true, decide_eq_true_eq] at hpolls
    simp only [givesUp, hpolls.1.1, hpolls.1.2, hpolls.2, hattempt, ne_eq, not_false_eq_true,
      ↓reduceIte, decide_true, Bool.true_and, decide_eq_true_eq] at hup
    have hlt := UInt64.lt_iff_toNat_lt.mp hup
    rw [UInt64.toNat_sub_of_le _ _ hle] at hlt
    exact Or.inr (by omega)
  · have hsent : sends s.task os = true := by
      simp only [polls, givesUp, Bool.and_eq_true, decide_eq_true_eq, not_and] at hpolls hup
      have hzero : s.task.lastConnectAttempt = 0 := by
        by_contra hne
        exact hpolls hup.1 hne
      simp only [hzero, ne_eq, not_true_eq_false, ↓reduceIte, Bool.and_eq_true,
        decide_eq_true_eq] at hup
      simp only [sends, Bool.and_eq_true, decide_eq_true_eq]
      exact ⟨⟨⟨hup.1, hzero⟩, hup.2.1.1⟩, hup.2.1.2⟩
    left
    unfold Client.polledConnection
    rw [if_neg hpolls]
    exact hsends hsent

/-! ## What a step keeps -/

theorem connectToOtel_attempt {o : Otel} (hsocket : 0 ≤ os.socket)
    (hnonblock : os.nonblockOk = true) :
    (connectToOtel o os).lastConnectAttempt = os.tickConnect := by
  unfold connectToOtel
  simp only [Int.not_lt.mpr hsocket, hnonblock, ↓reduceIte, Bool.not_true, Bool.false_eq_true]
  split_ifs <;> rfl

theorem connectToOtel_watched {o : Otel} (hempty : Unwatched o.loop) {fd : Nat} {w : Unit}
    (hw : (connectToOtel o os).loop.watchers fd = some w) :
    connectResult os = .pending ∨ connectResult os = .established := by
  unfold connectToOtel at hw
  simp only at hw
  split_ifs at hw with hsocket hnonblock hconnect
  · exact absurd hw (hempty fd w)
  · exact absurd hw (hempty fd w)
  · exact absurd hw (hempty fd w)
  · unfold connectResult
    have hgot : ¬ (os.socket < 0 ∨ os.nonblockOk = false) := by
      simp only [Bool.not_eq_true', Bool.not_eq_false] at hnonblock
      simp [hsocket, hnonblock]
    rw [if_neg hgot]
    split_ifs with hpending hfailed
    · exact Or.inl rfl
    · exact absurd ⟨hfailed, hpending⟩ hconnect
    · exact Or.inr rfl

/-- A step that connects does so with nothing in the table. -/
theorem step_connects (h : TaskOk s.task) (hc : connects s.task os = true) : ∃ o,
    Unwatched o.loop ∧
    (step s.task s.tcp os).1.loop = (connectToOtel o os).loop ∧
    (step s.task s.tcp os).1.lastConnectAttempt = (connectToOtel o os).lastConnectAttempt := by
  have hpolled := polled_polled h.toOtelOk os
  simp only [connects, Bool.or_eq_true, decide_eq_true_eq] at hc
  rcases step_cases s.task s.tcp os with ⟨hp, heq⟩ | ⟨-, -, heq⟩ | ⟨hp, hup, -⟩
  · rw [heq]
    exact ⟨s.task, h.unwatched hp, rfl, rfl⟩
  · rw [heq]
    exact ⟨_, (disconnectFromOtel_ok hpolled.ok s.tcp).2, rfl, rfl⟩
  · rcases hc with hconnect | hgives
    · exact absurd hconnect hp
    · rw [hup] at hgives
      cases hgives

theorem clientStep_ok (h : ClientOk s) (hb : Benign s os) : ClientOk (clientStep s os) := by
  have htask := (step_ok h.task s.tcp os).1
  unfold clientStep
  by_cases hc : connects s.task os = true
  · obtain ⟨o, hempty, hloop, hattempt⟩ := step_connects h.task hc
    obtain ⟨hsocket, hnonblock, htick⟩ := hb.connects hc
    rw [connectToOtel_attempt hsocket hnonblock] at hattempt
    simp only [if_pos hc]
    refine ⟨htask, ?_, fun _ => hattempt, ?_⟩
    · intro _ hzero
      have hconnect : 0 ≤ os.connect :=
        htick.resolve_left (fun hne => hne (hattempt.symm.trans hzero))
      simp only [connectResult, Int.not_lt.mpr hsocket, hnonblock, Int.not_lt.mpr hconnect]
      simp only [Bool.true_eq_false, or_self, ↓reduceIte]
      rw [if_neg (by omega)]
    · intro fd w hw
      exact connectToOtel_watched hempty (hloop ▸ hw)
  · simp only [if_neg hc]
    have hpolled := polled_polled h.task.toOtelOk os
    simp only [connects, Bool.or_eq_true, decide_eq_true_eq, not_or] at hc
    rcases step_cases s.task s.tcp os with ⟨hp, -⟩ | ⟨-, hup, -⟩ |
      ⟨-, -, heq | ⟨hpolls, ⟨lastSent, heq⟩ | heq⟩⟩
    · exact absurd hp hc.1
    · exact absurd hup hc.2
    · rw [heq] at htask
      simp only [heq]
      refine ⟨htask, ?_, ?_, ?_⟩
      · intro hphase hzero
        unfold polled at hphase hzero
        by_cases hpolls : polls s.task os = true
        · rw [if_pos hpolls] at hzero
          exact polledConnection_settled h hb hpolls hzero
        · rw [if_neg hpolls] at hphase hzero
          unfold Client.polledConnection
          rw [if_neg hpolls]
          exact h.settled hphase hzero
      · intro hne
        have hattempt := hpolled.attempt.resolve_right hne
        rw [hattempt] at hne ⊢
        exact h.attempted hne
      · exact fun fd w hw => polledConnection_watched h hb (hpolled.watchers fd w hw)
    · have hsame : s.polledConnection os = s.connection := by
        simp [Client.polledConnection, hpolls]
      rw [heq] at htask
      simp only [heq, hsame]
      exact ⟨htask, h.settled, h.attempted, h.watched⟩
    · have hsame : s.polledConnection os = s.connection := by
        simp [Client.polledConnection, hpolls]
      rw [heq] at htask
      simp only [heq, hsame]
      refine ⟨htask, ?_, h.attempted, ?_⟩
      · intro hphase
        cases hphase
      · exact fun fd w hw => h.watched fd w (uvIoStop_watchers hw)

end Step

theorem start_clientOk : ClientOk .start where
  task := ⟨start_ok.1, fun _ => start_ok.2⟩
  settled := by
    intro hphase
    cases hphase
  attempted := fun hne => absurd rfl hne
  watched := fun fd w hw => absurd hw (start_ok.2 fd w)

/-! ## The law -/

/-- In every run whose steps are all benign, the task sends only over established connections, and
gives up others only after their time. -/
theorem the_task_sends_when_connected (oss : List OtelOs)
    (h : StepsOk clientStep Benign .start oss) : StepsOk clientStep Orderly .start oss :=
  h.with_inv (fun _ _ hs hb => ⟨clientStep_ok hs hb, benign_orderly hs hb⟩) start_clientOk

instance (loop : UvLoop Unit) (pe : PollFd) : Decidable (loop.Stale pe) :=
  inferInstanceAs (Decidable (_ ∧ ∃ _ : Unit, _ ∧ _))

instance (s : Client) (os : OtelOs) : Decidable (Benign s os) :=
  decidable_of_iff
    ((connects s.task os = true →
        0 ≤ os.socket ∧ os.nonblockOk = true ∧ (os.tickConnect ≠ 0 ∨ 0 ≤ os.connect)) ∧
      (polls s.task os = true → s.connection ≠ .established →
        (0 ≤ os.ready ∨ os.eintr = true) → ∀ pe ∈ (polledLoop s.task os).pollFds,
          (polledLoop s.task os).Stale pe →
            0 ≤ os.ready ∧ pe.revents &&& (POLLERR ||| POLLHUP) = 0) ∧
      (polls s.task os = true → s.polledConnection os ≠ .established →
        s.attempted ≤ os.tickTimeout))
    ⟨fun h => ⟨h.1, h.2.1, h.2.2⟩, fun h => ⟨h.connects, h.reports, h.ticks⟩⟩

/-- A turn of the task at a tick, with what connect answers and what the socket reports. -/
def tickOs (tick : UInt64) (connect : Int) (revents : Events) : OtelOs where
  shouldExit := false
  socket := 4
  nonblockOk := true
  connect := connect
  ready := 1
  eintr := false
  revents := fun _ => revents
  encodeOk := true
  writes := fun _ => 1
  tickConnect := tick
  tickConnected := tick
  tickTimeout := tick
  tickInterval := tick
  tickSent := tick

/-- A connect that is pending, then done, and a turn that sends. -/
theorem a_connection_is_used_when_established : StepsOk clientStep Orderly .start
    [tickOs 1 (-2) 0, tickOs 101 (-2) 0, tickOs 201 (-2) UV_POLLOUT, tickOs 301 (-2) 0] :=
  the_task_sends_when_connected _ (by decide +kernel)

/-- The collector refuses the connection: the socket reports an error, and the task sends. -/
theorem a_refused_connection_is_used :
    ¬∀ oss : List OtelOs, StepsOk clientStep Orderly .start oss := by
  intro h
  have hsends := (h [tickOs 1 (-2) 0, tickOs 101 (-2) (UV_POLLOUT ||| POLLERR ||| POLLHUP),
    tickOs 201 (-2) 0]).2.2.1.sends
  exact absurd hsends (by decide +kernel)

end isere.otel
