-- The bytes that the OpenTelemetry task sends. On each connection the collector
-- reads complete requests, as long as no write takes a part of its text only.
import Isere.Otel
import Isere.Response
import Isere.Runs
import Isere.Writes

open cstring isere.tcp isere.uv runs writes

namespace isere.otel

def ISERE_OTEL_TX_BUF_LEN : Nat := 512

/-! ## One request -/

/-- `ISERE_OTEL_HOST` and `ISERE_OTEL_PORT`, as texts, from the build. -/
structure Collector where
  host : Bytes
  port : Bytes

/-- The metrics that `pb_encode` left in `__tx_buf`. -/
abbrev Payload := { p : Bytes // p.length ≤ ISERE_OTEL_TX_BUF_LEN }

/-- `metrics_http_header1`. -/
def metricsHttpHeader1 (col : Collector) : Bytes :=
  ascii "POST /v1/metrics HTTP/1.1\r\nHost: " ++ col.host ++ ascii ":" ++ col.port ++
    ascii "\r\nContent-Type: application/x-protobuf\r\nContent-Length: "

/-- `content_length`. It has room for the digits of any payload. -/
def contentLength (p : Payload) : Bytes := httpd.decimal p.val.length

/-- `metrics_http_header2`. -/
def metricsHttpHeader2 : Bytes :=
  ascii "\r\nConnection: keep-alive\r\nUser-Agent: isere/0.0.1\r\n\r\n"

/-- The texts of the five writes of a request. -/
def requestWrites (col : Collector) (p : Payload) : List Bytes :=
  [metricsHttpHeader1 col, contentLength p, metricsHttpHeader2, p.val, ascii "\r\n"]

/-- A complete request: the head with the length of the payload, the payload and
a CRLF. -/
def request (col : Collector) (p : Payload) : Bytes := (requestWrites col p).flatten

/-! ## The wire -/

/-- The bytes that the connections to the collector accepted: the connection of
now, and those that were dropped. -/
structure Wire where
  current : Bytes
  dropped : List Bytes
  deriving DecidableEq, Repr

/-- The task and what it sent. -/
structure Exporter where
  task : Otel
  tcp : Tcp
  wire : Wire

/-- What the world answers in one turn, with the metrics that are encoded in it. -/
structure ExportOs where
  os : OtelOs
  payload : Payload

/-- The turn sends the metrics. -/
def sends (o : Otel) (os : OtelOs) : Bool :=
  decide (o.phase = .loop) && !os.shouldExit && decide (o.lastConnectAttempt = 0) &&
    decide (os.tickInterval - o.lastSent > ISERE_OTEL_SEND_INTERVAL_MS) && os.encodeOk

/-- The bytes that the connection accepts in a turn. -/
def sent (col : Collector) (o : Otel) (i : ExportOs) : Bytes :=
  if sends o i.os then accepted i.os.writes 0 (requestWrites col i.payload) else []

/-- A turn, with the bytes of its writes. A task that gives its connection up
opens the next one. -/
def exportStep (col : Collector) (e : Exporter) (i : ExportOs) : Exporter :=
  let r := step e.task e.tcp i.os
  let log := e.wire.current ++ sent col e.task i
  { task := r.1, tcp := r.2,
    wire :=
      if givesUp e.task i.os then { current := [], dropped := e.wire.dropped ++ [log] }
      else { e.wire with current := log } }

def Exporter.start : Exporter := ⟨otel.start, ⟨0⟩, ⟨[], []⟩⟩

/-! ## What a collector reads -/

/-- Complete requests, one after the other. -/
def Requests (col : Collector) (b : Bytes) : Prop :=
  ∃ ps : List Payload, b = ps.flatMap (request col)

/-- A proper part of a request. -/
def Part (col : Collector) (b : Bytes) : Prop := ∃ p, b <+: request col p ∧ b ≠ request col p

/-- Each connection has complete requests, and after them at most a part of one,
if it was dropped. -/
structure Framed (col : Collector) (w : Wire) : Prop where
  current : Requests col w.current
  dropped : ∀ b ∈ w.dropped, ∃ a c, b = a ++ c ∧ Requests col a ∧ Part col c

/-- No write of the turn is short: each takes all of its text or fails, but for
one right before a write that fails. -/
def NoShortWrite (col : Collector) (e : Exporter) (i : ExportOs) : Prop :=
  sends e.task i.os → Whole i.os.writes 0 (requestWrites col i.payload)

instance (col : Collector) (e : Exporter) (i : ExportOs) : Decidable (NoShortWrite col e i) :=
  inferInstanceAs (Decidable (_ → _))

section Laws

variable (col : Collector)

theorem requests_nil : Requests col [] := ⟨[], rfl⟩

theorem Requests.append {a : Bytes} (h : Requests col a) (p : Payload) :
    Requests col (a ++ request col p) := by
  obtain ⟨ps, rfl⟩ := h
  exact ⟨ps ++ [p], by simp⟩

theorem last_write_ne (p : Payload) :
    ∀ t, (requestWrites col p).getLast? = some t → t ≠ [] := by
  intro t ht
  obtain rfl : ascii "\r\n" = t := by simpa [requestWrites] using ht
  decide

theorem request_ne_nil (p : Payload) : request col p ≠ [] :=
  flatten_ne_nil (List.cons_ne_nil _ _) (last_write_ne col p)

theorem part_nil : Part col [] :=
  ⟨⟨[], Nat.zero_le _⟩, List.nil_prefix, (request_ne_nil col _).symm⟩

/-- The writes of a request fail as the task looks at them. -/
theorem fails_iff (os : OtelOs) (p : Payload) :
    Fails os.writes 0 (requestWrites col p) ↔ writeFails os = true := by
  simp [requestWrites, Fails, writeFails, List.range, List.range.loop]

/-- When the task sends, it gives its connection up just when a write fails. -/
theorem givesUp_of_sends {o : Otel} {os : OtelOs} (h : sends o os = true) :
    givesUp o os = writeFails os := by
  simp only [sends, Bool.and_eq_true, decide_eq_true_eq, Bool.not_eq_true'] at h
  obtain ⟨⟨⟨⟨hp, he⟩, hl⟩, hi⟩, henc⟩ := h
  simp [givesUp, hp, he, hl, hi, henc]

/-- What a turn sends on a connection that it gives up is a part of a request. -/
theorem sent_part {e : Exporter} {i : ExportOs} (hw : NoShortWrite col e i)
    (hup : givesUp e.task i.os = true) : Part col (sent col e.task i) := by
  unfold sent
  by_cases hs : sends e.task i.os = true
  · rw [if_pos hs]
    rw [givesUp_of_sends hs, ← fails_iff col i.os i.payload] at hup
    exact ⟨i.payload, accepted_part (hw hs) hup (last_write_ne col i.payload)⟩
  · rw [if_neg hs]
    exact part_nil col

/-- What a turn sends on a connection that it keeps is a request, or nothing. -/
theorem sent_request {e : Exporter} {i : ExportOs} (hw : NoShortWrite col e i)
    (hup : givesUp e.task i.os = false) :
    sent col e.task i = request col i.payload ∨ sent col e.task i = [] := by
  unfold sent
  by_cases hs : sends e.task i.os = true
  · rw [if_pos hs]
    left
    apply accepted_whole (hw hs)
    rw [fails_iff, ← givesUp_of_sends hs, hup]
    exact Bool.false_ne_true
  · rw [if_neg hs]
    exact Or.inr rfl

/-- A turn without a short write keeps the framing. -/
theorem framed_step {e : Exporter} {i : ExportOs} (h : Framed col e.wire)
    (hw : NoShortWrite col e i) : Framed col (exportStep col e i).wire := by
  unfold exportStep
  cases hup : givesUp e.task i.os with
  | true =>
    refine ⟨requests_nil col, fun b hb => ?_⟩
    rcases List.mem_append.mp hb with hb | hb
    · exact h.dropped b hb
    · exact ⟨_, _, List.mem_singleton.mp hb, h.current, sent_part col hw hup⟩
  | false =>
    refine ⟨?_, h.dropped⟩
    simp only [Bool.false_eq_true, ↓reduceIte]
    rcases sent_request col hw hup with hsent | hsent
    · rw [hsent]
      exact h.current.append col i.payload
    · rw [hsent, List.append_nil]
      exact h.current

/-- In every run without short writes, each connection to the collector has
complete requests, and a part of one only where it was dropped. -/
theorem the_collector_reads_whole_requests (is : List ExportOs)
    (h : StepsOk (exportStep col) (NoShortWrite col) .start is) :
    Framed col (run (exportStep col) .start is).wire := by
  have hstart : Framed col Exporter.start.wire :=
    ⟨requests_nil col, fun b hb => absurd hb List.not_mem_nil⟩
  exact run_inv (I := fun e => Framed col e.wire) (fun e i he hw => framed_step col he hw) hstart h

end Laws

/-! ## Two runs -/

/-- The collector of a build that sets nothing. -/
def localCollector : Collector := ⟨ascii "127.0.0.1", ascii "4318"⟩

def smallPayload : Payload := ⟨[1, 2, 3], by decide⟩

/-- Every write takes its text. -/
def wholeWrites (i : Nat) : Int :=
  (((requestWrites localCollector smallPayload)[i]?).map List.length).getD 0

/-- The first write takes one byte. -/
def shortFirst (i : Nat) : Int := if i = 0 then 1 else wholeWrites i

/-- A turn of the task at a tick, with a socket that can be written. -/
def turnAt (tick : UInt64) (writes : Nat → Int) : ExportOs where
  payload := smallPayload
  os := {
    shouldExit := false, socket := 4, nonblockOk := true, connect := 0, ready := 1,
    eintr := false, revents := fun _ => UV_POLLOUT, encodeOk := true, writes := writes,
    tickConnect := tick, tickConnected := tick, tickTimeout := tick, tickInterval := tick,
    tickSent := tick }

theorem a_whole_export_is_framed : Framed localCollector (run (exportStep localCollector) .start
    [turnAt 1 wholeWrites, turnAt 101 wholeWrites, turnAt 201 wholeWrites]).wire :=
  the_collector_reads_whole_requests localCollector _ (by decide +kernel)

/-- A request starts with `PO`. -/
theorem request_begins (col : Collector) (p : Payload) : (request col p).take 2 = [80, 79] := by
  rfl

/-- The collector gets the `P` of the request line, and then the length. -/
theorem a_short_write_breaks_the_framing :
    ¬∀ (col : Collector) (is : List ExportOs),
      Framed col (run (exportStep col) .start is).wire := by
  intro h
  have hcurrent := (h localCollector
    [turnAt 1 wholeWrites, turnAt 101 wholeWrites, turnAt 201 shortFirst]).current
  obtain ⟨ps, hps⟩ := hcurrent
  have hbegins : ((run (exportStep localCollector) .start [turnAt 1 wholeWrites,
      turnAt 101 wholeWrites, turnAt 201 shortFirst]).wire.current).take 2 = [80, 51] := by
    decide +kernel
  rw [hps] at hbegins
  cases ps with
  | nil => cases hbegins
  | cons p ps =>
    have hlen : 2 ≤ (request localCollector p).length := by
      have htake := congrArg List.length (request_begins localCollector p)
      rw [List.length_take] at htake
      exact inf_eq_left.mp htake
    rw [List.flatMap_cons, List.take_append_of_le_length hlen, request_begins] at hbegins
    exact absurd hbegins (by decide)

end isere.otel
