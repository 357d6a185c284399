-- The httpd task of src/httpd.c as a step function: one turn of the poll loop,
-- one poll slot, or one half of a turn of the drain loop at a time. What the
-- system, llhttp and the JavaScript engine answer is the input of the step.
import Isere.Request
import Isere.Response
import Isere.Runs
import Isere.Tcp
import Isere.UvLoop
import Isere.UvQueue

open cstring intrusive isere.tcp isere.uv

namespace isere.httpd

/-- The address of an `httpd_conn_t`. Each accept gives the next one. -/
abbrev ConnId := Nat

/-- The watchers of the loop: the one of the server, and one in each connection. -/
inductive WatcherId
  | server
  | conn (c : ConnId)
  deriving DecidableEq, Repr

/-- The nodes of `js_queue`: its head, and one in each connection. -/
inductive JsNode
  | head
  | conn (c : ConnId)
  deriving DecidableEq, Repr

/-- The life of the memory of a connection. -/
inductive Life
  | fresh
  | live
  | cleaned
  deriving DecidableEq, Repr

/-- `httpd_conn_t`. `fed` are the chunks that its parser was given. `life` is
not in the source: it says whether `__httpd_cleanup_conn` freed the memory. -/
structure HttpdConn where
  fd : Int
  recvd : Int
  fed : List Bytes
  req : Request
  jsInitialized : Bool
  response : Response
  life : Life

/-- What happened to the connections, for the laws about whole runs. -/
inductive Event
  | accepted (c : ConnId)
  | polled (c : ConnId)
  | callback (c : ConnId) (cb : Callback)
  | parser (c : ConnId)
  | handler (c : ConnId) (args : HandlerArgs)
  | wrote (c : ConnId) (a : Answer)
  | jsPolled (c : ConnId) (result : Int)
  | closed (c : ConnId)
  | freed (c : ConnId)
  deriving DecidableEq, Repr

/-- The connection that an event uses. -/
def Event.conn : Event → ConnId
  | .accepted c => c
  | .polled c => c
  | .callback c _ => c
  | .parser c => c
  | .handler c _ => c
  | .wrote c _ => c
  | .jsPolled c _ => c
  | .closed c => c
  | .freed c => c

/-- Where the task stands: before a poll, at a poll slot, at the head of the
drain loop, inside it with a connection off the queue, or after its exit. -/
inductive Phase
  | loop
  | iterating (i : Nat)
  | drain
  | polling (c : ConnId)
  | exited
  deriving DecidableEq, Repr

/-- `isere_httpd_t`, the connections, and the state of the tcp module. -/
structure Httpd where
  loop : UvLoop WatcherId
  jsQueue : Links JsNode
  conns : ConnId → HttpdConn
  nextConn : ConnId
  tcp : Tcp
  phase : Phase
  trace : List Event

structure Config where
  maxConns : UInt32
  hasHandler : Bool

/-- The result of `recv` on a client socket. -/
inductive Recv
  | eintr
  | error
  | data (avail : Bytes)
  deriving DecidableEq, Repr

/-- What the world answers in one step. `handler` and `jsResponse` are the
response object after a call of the handler, or of `isere_js_poll`, that called
`cb`. The call of the handler is told by the length of the history before it. -/
structure Os where
  shouldExit : Bool
  ready : Int
  eintr : Bool
  revents : Nat → Events
  accept : Int
  mallocOk : Bool
  recv : Recv
  handler : Nat → Option Response
  jsPoll : Int
  jsResponse : Option Response

/-- A step in which nothing happens. -/
def Os.quiet : Os where
  shouldExit := false
  ready := 0
  eintr := false
  revents := fun _ => 0
  accept := -1
  mallocOk := true
  recv := .eintr
  handler := fun _ => none
  jsPoll := 0
  jsResponse := none

/-! ## Small updates -/

def Httpd.log (s : Httpd) (e : Event) : Httpd := { s with trace := s.trace ++ [e] }

def Httpd.setConn (s : Httpd) (c : ConnId) (conn : HttpdConn) : Httpd :=
  { s with conns := Function.update s.conns c conn }

def Httpd.setReq (s : Httpd) (c : ConnId) (r : Request) : Httpd :=
  s.setConn c { s.conns c with req := r }

def Httpd.setResponse (s : Httpd) (c : ConnId) (r : Option Response) : Httpd :=
  s.setConn c { s.conns c with response := r.getD (s.conns c).response }

/-! ## The end of a connection -/

/-- `isere_js_free_context` and the removal from the queue, at the start of
`__httpd_cleanup_conn`. -/
def leaveJsQueue (s : Httpd) (c : ConnId) : Httpd :=
  if (s.conns c).jsInitialized then
    { s with jsQueue := uvQueueRemove s.jsQueue (.conn c) }.setConn c
      { s.conns c with jsInitialized := false }
  else s

/-- `__httpd_cleanup_conn`. -/
def httpdCleanupConn (s : Httpd) (c : ConnId) : Httpd :=
  let s := leaveJsQueue s c
  let s := { s with loop := uvIoStop s.loop (.conn c) UV_POLLIN }
  let s := { s with tcp := isereTcpClose s.tcp (s.conns c).fd }.log (.closed c)
  (s.setConn c { s.conns c with life := .cleaned }).log (.freed c)

/-! ## The callbacks of llhttp -/

section Task

variable (cfg : Config) (l : Llhttp) (y : Yuarel)

/-- The part of `__on_message_complete` for a request that goes to the handler.
The result of `isere_js_new_context` is not looked at. -/
def dispatch (s : Httpd) (c : ConnId) (os : Os) : Httpd :=
  let s := { s with jsQueue := uvQueueInit s.jsQueue (.conn c) }
  let s := s.setConn c { s.conns c with jsInitialized := true }
  let response := os.handler s.trace.length
  let s := (s.log (.handler c (s.conns c).req.handlerArgs)).setResponse c response
  { s with jsQueue := uvQueueInsertTail s.jsQueue .head (.conn c) }

/-- `__on_message_complete`. -/
def onMessageComplete (s : Httpd) (c : ConnId) (os : Os) : Httpd :=
  let s := { s with loop := uvIoStop s.loop (.conn c) UV_POLLIN }
  if (s.conns c).req.notFound then httpdCleanupConn (s.log (.wrote c .notFound)) c
  else if !cfg.hasHandler then httpdCleanupConn (s.log (.wrote c .bare)) c
  else dispatch s c os

/-- One callback of llhttp. `llhttp_execute` keeps its state in the parser, so
it goes on with the parser after the callback. -/
def onCallback (c : ConnId) (os : Os) (s : Httpd) (cb : Callback) : Httpd :=
  let s := s.log (.callback c cb)
  let s :=
    match cb with
    | .messageComplete => onMessageComplete cfg s c os
    | cb => s.setReq c ((s.conns c).req.onCallback y cb)
  s.log (.parser c)

/-- `llhttp_execute` on the parser of a connection. -/
def llhttpExecute (s : Httpd) (c : ConnId) (os : Os) (chunk : Bytes) : Httpd × LlhttpErrno :=
  let r := l.execute (s.conns c).fed chunk
  let s := s.setConn c { s.conns c with fed := (s.conns c).fed ++ [chunk] }
  (r.1.foldl (onCallback cfg y c os) s, r.2)

/-! ## The callbacks of the loop -/

/-- `__on_poll`. The kernel gives at most the length of the line buffer. -/
def onPoll (s : Httpd) (c : ConnId) (events : Events) (os : Os) : Httpd :=
  if events &&& UV_POLLIN ≠ UV_POLLIN then s
  else
    let s := s.log (.polled c)
    match os.recv with
    | .eintr => s
    | .error => httpdCleanupConn s c
    | .data avail =>
      let chunk := avail.take ISERE_HTTPD_LINE_BUFFER_LEN
      if chunk = [] then httpdCleanupConn s c
      else if (s.conns c).recvd + chunk.length > ISERE_HTTPD_MAX_HTTP_REQUEST_LEN then
        httpdCleanupConn (s.log (.wrote c .tooLarge)) c
      else
        let r := llhttpExecute cfg l y s c os chunk
        if r.2 ≠ .HPE_OK then httpdCleanupConn r.1 c else r.1

/-- A connection as `__on_connected` sets it up. -/
def HttpdConn.initial (fd : Int) : HttpdConn where
  fd := fd
  recvd := 0
  fed := []
  req := Request.zero
  jsInitialized := false
  response := Response.initial
  life := .live

/-- `__on_connected`. -/
def onConnected (s : Httpd) (events : Events) (os : Os) : Httpd :=
  if events &&& UV_POLLIN ≠ UV_POLLIN then s
  else
    let r := isereTcpAccept cfg.maxConns s.tcp os.accept
    let s := { s with tcp := r.1 }
    if r.2 < 0 then s
    else if !os.mallocOk then { s with tcp := isereTcpClose s.tcp r.2 }
    else
      let c := s.nextConn
      let s := { s with nextConn := c + 1 }.setConn c (HttpdConn.initial r.2)
      let loop := s.loop.setIo (.conn c) { pevents := 0, events := 0, fd := r.2 }
      { s with loop := uvIoStart loop (.conn c) UV_POLLIN }.log (.accepted c)

/-! ## The task -/

/-- Where the task goes after `uv__io_poll`. -/
def afterPoll : Phase := if cfg.hasHandler then .drain else .loop

/-- `uv__io_poll` up to its loop over the slots. -/
def pollStep (s : Httpd) (os : Os) : Httpd :=
  if s.loop.nfds = 0 then { s with phase := afterPoll cfg }
  else
    let loop := isereTcpPoll (drainWatcherQueue s.loop) os.ready os.revents
    if os.ready < 0 ∧ !os.eintr then { s with loop, phase := afterPoll cfg }
    else { s with loop := { loop with pollFdsIterating := true }, phase := .iterating 0 }

/-- One poll slot of `uv__io_poll`. -/
def slotStep (s : Httpd) (i : Nat) (os : Os) : Httpd :=
  if s.loop.pollFds.length ≤ i then
    { s with loop := { s.loop with pollFdsIterating := false }, phase := afterPoll cfg }
  else
    let r := uvPollSlot s.loop i
    let s := { s with loop := r.1, phase := .iterating (i + 1) }
    match r.2 with
    | none => s
    | some (.server, events) => onConnected cfg s events os
    | some (.conn c, events) => onPoll cfg l y s c events os

/-- The head of the drain loop: take the first connection off the queue. -/
def drainStep (s : Httpd) : Httpd :=
  if uvQueueEmpty s.jsQueue .head then { s with phase := .loop }
  else
    let q := uvQueueHead s.jsQueue .head
    let s := { s with jsQueue := uvQueueInit (uvQueueRemove s.jsQueue q) q }
    match q with
    | .head => s
    | .conn c => if (s.conns c).fd = -1 then s else { s with phase := .polling c }

/-- The rest of the drain loop, for the connection that it took. -/
def pollingStep (s : Httpd) (c : ConnId) (os : Os) : Httpd :=
  let callbacked := (s.conns c).response.completed
  let s := { (s.log (.jsPolled c os.jsPoll)).setResponse c os.jsResponse with phase := .drain }
  if !callbacked ∧ os.jsPoll ≠ 0 then
    if os.jsPoll < 0 then httpdCleanupConn s c
    else { s with jsQueue := uvQueueInsertTail s.jsQueue .head (.conn c) }
  else httpdCleanupConn (s.log (.wrote c (httpdWriteback (s.conns c).response))) c

/-- One step of `__httpd_task`. -/
def step (s : Httpd) (os : Os) : Httpd :=
  match s.phase with
  | .loop =>
    if os.shouldExit then
      { s with loop := uvIoStop s.loop .server UV_POLLIN, phase := .exited }
    else pollStep cfg s os
  | .iterating i => slotStep cfg l y s i os
  | .drain => drainStep s
  | .polling c => pollingStep s c os
  | .exited => s

end Task

/-! ## The start -/

/-- The memory of a connection before it is allocated. -/
def HttpdConn.fresh : HttpdConn := { HttpdConn.initial (-1) with life := .fresh }

/-- The watchers before any of them starts. -/
def startIo (serverfd : Nat) (w : WatcherId) : UvIo where
  pevents := 0
  events := 0
  fd := if w = .server then (serverfd : Int) else -1

/-- The task as its loop starts, with the listening socket `serverfd`. -/
def start (serverfd : Nat) : Httpd where
  loop := uvIoStart (uvPlatformLoopInit (startIo serverfd)) .server UV_POLLIN
  jsQueue := ⟨id, id⟩
  conns := fun _ => HttpdConn.fresh
  nextConn := 0
  tcp := ⟨0⟩
  phase := .loop
  trace := []

end isere.httpd
