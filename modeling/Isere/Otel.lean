-- The OpenTelemetry task of src/otel.c, up to the text of the metrics that it
-- sends: its connection to the collector, and when it gives that up. It shares
-- the connection counter of the tcp module with the server.
import Isere.Tcp
import Isere.UvLoop

open isere.tcp isere.uv

namespace isere.otel

def ISERE_OTEL_CONNECT_TIMEOUT_MS : UInt64 := 5000
def ISERE_OTEL_SEND_INTERVAL_MS : UInt64 := 15000

/-- Where the task stands: before its first connect, in its loop, or after it. -/
inductive Phase
  | connect
  | loop
  | exited
  deriving DecidableEq, Repr

/-- The part of `isere_otel_t` that the task changes. `lastConnectAttempt` is 0
when the task is not connecting. -/
structure Otel where
  fd : Int
  lastConnectAttempt : UInt64
  lastSent : UInt64
  loop : UvLoop Unit
  phase : Phase

/-- What the world answers in one turn of the loop. The ticks are those of the
calls of `xTaskGetTickCount`, which counts milliseconds, by where they stand. -/
structure OtelOs where
  shouldExit : Bool
  socket : Int
  nonblockOk : Bool
  connect : Int
  ready : Int
  eintr : Bool
  revents : Nat → Events
  encodeOk : Bool
  writes : Nat → Int
  tickConnect : UInt64
  tickConnected : UInt64
  tickTimeout : UInt64
  tickInterval : UInt64
  tickSent : UInt64

/-- `__otel` after `isere_otel_init`. -/
def start : Otel where
  fd := -1
  lastConnectAttempt := 0
  lastSent := 0
  loop := uvPlatformLoopInit (fun _ => { pevents := 0, events := 0, fd := 0 })
  phase := .connect

/-! ## The connection -/

/-- `__on_connected`. -/
def onConnected (o : Otel) (os : OtelOs) : Otel :=
  { o with
    loop := uvIoStop o.loop () UV_POLLOUT,
    lastConnectAttempt := 0,
    lastSent := os.tickConnected - ISERE_OTEL_SEND_INTERVAL_MS }

/-- `__connect_to_otel`. The result is not looked at. The watcher is on no queue
here, so `uv__queue_init` leaves the loop as it is. -/
def connectToOtel (o : Otel) (os : OtelOs) : Otel :=
  let o := { o with fd := os.socket }
  if o.fd < 0 then o
  else if !os.nonblockOk then o
  else
    let o := { o with lastConnectAttempt := os.tickConnect }
    if os.connect < 0 ∧ os.connect ≠ -2 then o
    else
      let loop := o.loop.setIo () { o.loop.io () with events := 0, fd := o.fd }
      { o with loop := uvIoStart loop () UV_POLLOUT }

/-- `__disconnect_from_otel`. -/
def disconnectFromOtel (o : Otel) (t : Tcp) : Otel × Tcp :=
  ({ o with lastConnectAttempt := 0, loop := uvIoStop o.loop () UV_POLLOUT },
    isereTcpClose t o.fd)

def reconnect (o : Otel) (t : Tcp) (os : OtelOs) : Otel × Tcp :=
  let r := disconnectFromOtel o t
  (connectToOtel r.1 os, r.2)

/-! ## The task -/

/-- One poll slot of the loop of the task. -/
def pollSlot (os : OtelOs) (o : Otel) (i : Nat) : Otel :=
  let r := uvPollSlot o.loop i
  let o := { o with loop := r.1 }
  match r.2 with
  | none => o
  | some _ => onConnected o os

/-- `uv__io_poll` on the loop of the task. -/
def poll (o : Otel) (os : OtelOs) : Otel :=
  if o.loop.nfds = 0 then o
  else
    let loop := isereTcpPoll (drainWatcherQueue o.loop) os.ready os.revents
    if os.ready < 0 ∧ !os.eintr then { o with loop }
    else
      let o := (List.range loop.pollFds.length).foldl (pollSlot os)
        { o with loop := { loop with pollFdsIterating := true } }
      { o with loop := { o.loop with pollFdsIterating := false } }

/-- A write of the metrics fails. The writes after it are not made. -/
def writeFails (os : OtelOs) : Bool := (List.range 5).any (fun i => decide (os.writes i < 0))

/-- One turn of the loop of `__otel_task`. -/
def turn (o : Otel) (t : Tcp) (os : OtelOs) : Otel × Tcp :=
  if o.lastConnectAttempt ≠ 0 then
    let o := poll o os
    if os.tickTimeout - o.lastConnectAttempt > ISERE_OTEL_CONNECT_TIMEOUT_MS then
      reconnect o t os
    else (o, t)
  else if os.tickInterval - o.lastSent > ISERE_OTEL_SEND_INTERVAL_MS then
    if !os.encodeOk then (o, t)
    else if writeFails os then reconnect o t os
    else ({ o with lastSent := os.tickSent }, t)
  else (o, t)

/-- One step of `__otel_task`. -/
def step (o : Otel) (t : Tcp) (os : OtelOs) : Otel × Tcp :=
  match o.phase with
  | .connect => ({ connectToOtel o os with phase := .loop }, t)
  | .loop =>
    if os.shouldExit then
      ({ o with loop := uvIoStop o.loop () UV_POLLOUT, phase := .exited }, t)
    else turn o t os
  | .exited => (o, t)

/-! ## What a step does to the counter -/

/-- The step gives the connection up: it takes too long, or a write fails. -/
def givesUp (o : Otel) (os : OtelOs) : Bool :=
  decide (o.phase = .loop) && !os.shouldExit &&
    if o.lastConnectAttempt ≠ 0 then
      decide (os.tickTimeout - (poll o os).lastConnectAttempt > ISERE_OTEL_CONNECT_TIMEOUT_MS)
    else
      decide (os.tickInterval - o.lastSent > ISERE_OTEL_SEND_INTERVAL_MS) && os.encodeOk &&
        writeFails os

theorem turn_tcp (o : Otel) (t : Tcp) (os : OtelOs) (hp : o.phase = .loop)
    (he : os.shouldExit = false) : (turn o t os).2 =
      if givesUp o os then { numOfTcpConns := t.numOfTcpConns - 1 } else t := by
  unfold turn givesUp
  by_cases hc : o.lastConnectAttempt = 0
  · by_cases hi : os.tickInterval - o.lastSent > ISERE_OTEL_SEND_INTERVAL_MS
    · cases henc : os.encodeOk <;> cases hw : writeFails os <;>
        simp [hc, hi, hp, he, reconnect, disconnectFromOtel, isereTcpClose]
    · simp [hc, hi]
  · by_cases ht : os.tickTimeout - (poll o os).lastConnectAttempt > ISERE_OTEL_CONNECT_TIMEOUT_MS
    · simp [hc, ht, hp, he, reconnect, disconnectFromOtel, isereTcpClose]
    · simp [hc, ht]

/-- A step takes one from the counter when it gives the connection up, and does
not touch it otherwise. -/
theorem step_tcp (o : Otel) (t : Tcp) (os : OtelOs) : (step o t os).2 =
    if givesUp o os then { numOfTcpConns := t.numOfTcpConns - 1 } else t := by
  unfold step
  cases hp : o.phase with
  | connect => simp [givesUp, hp]
  | loop =>
    cases he : os.shouldExit with
    | true => simp [givesUp, he]
    | false => simpa using turn_tcp o t os hp he
  | exited => simp [givesUp, hp]

end isere.otel
