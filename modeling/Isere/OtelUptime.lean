-- What the collector gets after the first seconds. When its connect has come to an
-- end, `__on_connected` sets `last_connect_attempt` to 0, and the turn then takes the
-- tick count itself for the time that the connect took. Once that is over the timeout,
-- a connection is given up in the turn that establishes it.
import Isere.OtelConnection

open cstring isere.tcp isere.uv runs writes

namespace isere.otel

/-! ## The connections -/

/-- The task and what it sent, with its connection and the ticks at which it opened those that it
dropped. -/
structure Uplink extends Exporter where
  connection : Connection
  attempted : UInt64
  opened : List UInt64

def Uplink.start : Uplink := ⟨Exporter.start, .none, 0, []⟩

def Uplink.client (u : Uplink) : Client := ⟨u.task, u.tcp, u.connection, u.attempted⟩

def uplinkStep (col : Collector) (u : Uplink) (i : ExportOs) : Uplink where
  toExporter := exportStep col u.toExporter i
  connection := (clientStep u.client i.os).connection
  attempted := (clientStep u.client i.os).attempted
  opened := if givesUp u.task i.os then u.opened ++ [u.attempted] else u.opened

/-- The tick count does not start over while the task waits, and a write to a socket that was
never connected fails. -/
structure Told (u : Uplink) (i : ExportOs) : Prop where
  ticks : polls u.task i.os = true → u.attempted ≤ i.os.tickTimeout
  writes : sends u.task i.os = true → u.connection = .none → i.os.writes 0 < 0

instance (u : Uplink) (i : ExportOs) : Decidable (Told u i) :=
  decidable_of_iff
    ((polls u.task i.os = true → u.attempted ≤ i.os.tickTimeout) ∧
      (sends u.task i.os = true → u.connection = .none → i.os.writes 0 < 0))
    ⟨fun h => ⟨h.1, h.2⟩, fun h => ⟨h.ticks, h.writes⟩⟩

/-- A connection that took bytes was opened before the timeout was over. -/
def Early (opened : UInt64) (sent : Bytes) : Prop :=
  sent = [] ∨ opened ≤ ISERE_OTEL_CONNECT_TIMEOUT_MS

/-- The collector gets bytes on early connections only. -/
structure EarlyOnly (u : Uplink) : Prop where
  current : Early u.attempted u.wire.current
  dropped : List.Forall₂ Early u.opened u.wire.dropped

/-- A task that does not wait has a socket that was never connected, or an early connection. -/
structure UplinkOk (u : Uplink) : Prop extends EarlyOnly u where
  task : TaskOk u.task
  unused : u.task.phase = .connect → u.wire.current = []
  ready : u.task.lastConnectAttempt = 0 →
    u.connection = .none ∨ u.attempted ≤ ISERE_OTEL_CONNECT_TIMEOUT_MS

/-! ## One turn -/

section Step

variable {col : Collector} {u : Uplink} {o : Otel} {os : OtelOs} {i : ExportOs}

theorem Early.append {opened : UInt64} {b c : Bytes} (hb : Early opened b) (hc : Early opened c) :
    Early opened (b ++ c) := by
  rcases hb with rfl | hb
  · exact hc
  · exact Or.inr hb

theorem sends_ready (h : sends o os = true) : o.phase = .loop ∧ o.lastConnectAttempt = 0 := by
  simp only [sends, Bool.and_eq_true, decide_eq_true_eq] at h
  exact ⟨h.1.1.1.1, h.1.1.2⟩

/-- What a turn sends goes over an early connection, or nowhere. -/
theorem sent_early (h : UplinkOk u) (ht : Told u i) : Early u.attempted (sent col u.task i) := by
  unfold sent
  by_cases hs : sends u.task i.os = true
  · rw [if_pos hs]
    rcases h.ready (sends_ready hs).2 with hnone | hearly
    · left
      simp [requestWrites, accepted, ht.writes hs hnone]
    · exact Or.inr hearly
  · rw [if_neg hs]
    exact Or.inl rfl

/-- After `__connect_to_otel` the task waits, or it has no connection, or it is tick 0. -/
theorem connectToOtel_ready (hr : (connectToOtel o os).lastConnectAttempt = 0) :
    connectResult os = .none ∨ os.tickConnect ≤ ISERE_OTEL_CONNECT_TIMEOUT_MS := by
  by_cases hgot : os.socket < 0 ∨ os.nonblockOk = false
  · left
    rw [connectResult, if_pos hgot]
  · right
    push Not at hgot
    rw [connectToOtel_attempt hgot.1 (by simpa using hgot.2)] at hr
    rw [hr]
    decide

/-- A turn whose poll ends the wait keeps the connection just before the timeout is over. -/
theorem polled_kept_iff (hpolls : polls o os = true) (hr : (poll o os).lastConnectAttempt = 0) :
    givesUp o os = false ↔ os.tickTimeout ≤ ISERE_OTEL_CONNECT_TIMEOUT_MS := by
  simp only [polls, Bool.and_eq_true, decide_eq_true_eq, Bool.not_eq_true'] at hpolls
  simp [givesUp, hpolls, hr]

theorem clientStep_connects {s : Client} (hc : connects s.task os = true) :
    (clientStep s os).connection = connectResult os ∧
      (clientStep s os).attempted = os.tickConnect := by
  simp only [clientStep, hc, ↓reduceIte, and_self]

theorem clientStep_keeps {s : Client} (hc : connects s.task os = false) :
    (clientStep s os).connection = s.polledConnection os ∧
      (clientStep s os).attempted = s.attempted := by
  simp only [clientStep, hc, Bool.false_eq_true, ↓reduceIte, and_self]

/-- A turn that does not poll leaves the connection as it is. -/
theorem polledConnection_same {s : Client} (hp : polls s.task os = false) :
    s.polledConnection os = s.connection := by
  simp [Client.polledConnection, hp]

theorem uplinkStep_ready (h : UplinkOk u) (ht : Told u i)
    (hr : (step u.task u.tcp i.os).1.lastConnectAttempt = 0) :
    (clientStep u.client i.os).connection = .none ∨
      (clientStep u.client i.os).attempted ≤ ISERE_OTEL_CONNECT_TIMEOUT_MS := by
  cases hc : connects u.task i.os with
  | true =>
    obtain ⟨o, -, -, hattempt⟩ := step_connects (s := u.client) h.task hc
    obtain ⟨hconnection, hattempted⟩ := clientStep_connects (s := u.client) hc
    rw [hconnection, hattempted]
    exact connectToOtel_ready (hattempt.symm.trans hr)
  | false =>
    obtain ⟨hconnection, hattempted⟩ := clientStep_keeps (s := u.client) hc
    rw [hconnection, hattempted]
    simp only [connects, Bool.or_eq_false_iff, decide_eq_false_iff_not] at hc
    cases hpolls : polls u.task i.os with
    | true =>
      right
      have hpolled : (poll u.task i.os).lastConnectAttempt = 0 := by
        rcases step_cases u.task u.tcp i.os with ⟨hp, -⟩ | ⟨-, hup, -⟩ | ⟨-, -, heq | ⟨hno, -⟩⟩
        · exact absurd hp hc.1
        · simp [hc.2] at hup
        · rwa [heq, polled, if_pos hpolls] at hr
        · simp [hpolls] at hno
      exact UInt64.le_trans (ht.ticks hpolls) ((polled_kept_iff hpolls hpolled).mp hc.2)
    | false =>
      rw [polledConnection_same (s := u.client) hpolls]
      apply h.ready
      rcases step_cases u.task u.tcp i.os with ⟨hp, -⟩ | ⟨-, hup, -⟩ |
        ⟨-, -, heq | ⟨-, ⟨lastSent, heq⟩ | heq⟩⟩
      · exact absurd hp hc.1
      · simp [hc.2] at hup
      · rwa [heq, polled, if_neg (by simp [hpolls])] at hr
      · rwa [heq] at hr
      · rwa [heq] at hr

/-- A connection that is given up keeps what it got, and the next one has got nothing. -/
theorem uplinkStep_early (h : UplinkOk u) (ht : Told u i) : EarlyOnly (uplinkStep col u i) := by
  have hlog : Early u.attempted (u.wire.current ++ sent col u.task i) :=
    h.current.append (sent_early h ht)
  cases hup : givesUp u.task i.os with
  | true =>
    simp only [uplinkStep, exportStep, hup, ↓reduceIte]
    refine ⟨Or.inl rfl, ?_⟩
    exact List.rel_append h.dropped (List.Forall₂.cons hlog List.Forall₂.nil)
  | false =>
    simp only [uplinkStep, exportStep, hup, Bool.false_eq_true, ↓reduceIte]
    refine ⟨?_, h.dropped⟩
    by_cases hp : u.task.phase = .connect
    · have hnothing : sends u.task i.os = false := by simp [sends, hp]
      left
      simp [sent, hnothing, h.unused hp]
    · have hc : connects u.client.task i.os = false := by
        simp only [Uplink.client, connects, hp, hup, decide_false, Bool.or_self]
      rw [(clientStep_keeps hc).2]
      exact hlog

theorem uplinkStep_ok (h : UplinkOk u) (ht : Told u i) : UplinkOk (uplinkStep col u i) where
  toEarlyOnly := uplinkStep_early h ht
  task := (step_ok h.task u.tcp i.os).1
  unused hp := absurd hp (step_ok h.task u.tcp i.os).2
  ready hr := uplinkStep_ready h ht hr

end Step

/-! ## The law -/

theorem start_uplinkOk : UplinkOk .start where
  current := Or.inl rfl
  dropped := List.Forall₂.nil
  task := start_clientOk.task
  unused _ := rfl
  ready _ := Or.inl rfl

theorem run_exporter (col : Collector) (u : Uplink) (is : List ExportOs) :
    (run (uplinkStep col) u is).toExporter = run (exportStep col) u.toExporter is := by
  induction is generalizing u with
  | nil => rfl
  | cons i is ih => exact ih (uplinkStep col u i)

/-- In every run in which the tick count does not start over while the task waits, and a write to
a socket that was never connected fails: each connection on which the collector gets a byte was
opened at a tick of at most `ISERE_OTEL_CONNECT_TIMEOUT_MS`, whatever comes of the sockets, the
connects, the polls and the writes. -/
theorem only_early_connections_carry_metrics (col : Collector) (is : List ExportOs)
    (h : StepsOk (uplinkStep col) Told .start is) :
    (run (uplinkStep col) .start is).toExporter = run (exportStep col) .start is ∧
      EarlyOnly (run (uplinkStep col) .start is) := by
  have hok : UplinkOk (run (uplinkStep col) .start is) :=
    run_inv (I := UplinkOk) (fun _ _ hu ht => uplinkStep_ok hu ht) start_uplinkOk h
  exact ⟨run_exporter col .start is, hok.toEarlyOnly⟩

/-- The collector goes away after 20 seconds, and is back at once. -/
def awayAndBack : List ExportOs :=
  [turnAt 1 wholeWrites, turnAt 101 wholeWrites, turnAt 201 wholeWrites,
    turnAt 20201 (fun _ => -1), turnAt 20301 wholeWrites, turnAt 20401 wholeWrites,
    turnAt 20501 wholeWrites]

theorem a_collector_that_goes_away_is_lost :
    (run (uplinkStep localCollector) .start awayAndBack).toExporter =
        run (exportStep localCollector) .start awayAndBack ∧
      EarlyOnly (run (uplinkStep localCollector) .start awayAndBack) :=
  only_early_connections_carry_metrics _ _ (by decide +kernel)

/-- Each of its new connections is given up in the turn that establishes it. -/
example : (run (exportStep localCollector) .start awayAndBack).wire =
    { current := [], dropped := [request localCollector smallPayload, [], [], []] } := by
  decide +kernel

end isere.otel
