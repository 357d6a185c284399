-- One connection by itself: its memory and what happens to it, as a machine that
-- gets its own accept, its own events and its own turns of the drain loop, and
-- knows nothing of any other connection. Every run of the httpd task, seen from
-- a connection, is a run of this machine.
import Isere.Components
import Isere.HttpdInvariant

open cstring runs isere.uv isere.tcp

namespace isere.httpd

/-! ## The machine of one connection -/

/-- What happened to a connection: an `Event` with the connection left out. -/
inductive Deed
  | accepted
  | polled
  | callback (cb : Callback)
  | parser
  | handler (args : HandlerArgs)
  | wrote (a : Answer)
  | jsPolled (result : Int)
  | closed
  | freed
  deriving DecidableEq, Repr

def Event.deed : Event → Deed
  | .accepted _ => .accepted
  | .polled _ => .polled
  | .callback _ cb => .callback cb
  | .parser _ => .parser
  | .handler _ args => .handler args
  | .wrote _ a => .wrote a
  | .jsPolled _ result => .jsPolled result
  | .closed _ => .closed
  | .freed _ => .freed

/-- The memory of a connection, and what happened to it. -/
structure Session where
  conn : HttpdConn
  deeds : List Deed

def Session.fresh : Session := { conn := HttpdConn.fresh, deeds := [] }

/-- What comes to a connection: its accept with the descriptor, a call of
`__on_poll`, or its turn in the drain loop. `handler` is told the length of its
own history. -/
inductive Turn
  | accepted (fd : Int)
  | ready (events : Events) (recv : Recv) (handler : Nat → Option Response)
  | drained (jsPoll : Int) (jsResponse : Option Response)

def Session.log (t : Session) (d : Deed) : Session := { t with deeds := t.deeds ++ [d] }

/-- `__httpd_cleanup_conn`. -/
def Session.cleanup (t : Session) : Session where
  conn := { t.conn with jsInitialized := false, life := .cleaned }
  deeds := t.deeds ++ [.closed, .freed]

section Machine

variable (cfg : Config) (l : Llhttp) (y : Yuarel)

/-- The part of `__on_message_complete` for a request that goes to the handler. -/
def Session.dispatch (t : Session) (handler : Nat → Option Response) : Session where
  conn := { t.conn with
    jsInitialized := true, response := (handler t.deeds.length).getD t.conn.response }
  deeds := t.deeds ++ [.handler t.conn.req.handlerArgs]

/-- `__on_message_complete`. -/
def Session.onMessageComplete (t : Session) (handler : Nat → Option Response) : Session :=
  if t.conn.req.notFound then (t.log (.wrote .notFound)).cleanup
  else if !cfg.hasHandler then (t.log (.wrote .bare)).cleanup
  else t.dispatch handler

/-- One callback of llhttp. -/
def Session.onCallback (handler : Nat → Option Response) (t : Session) (cb : Callback) : Session :=
  let t := t.log (.callback cb)
  let t :=
    match cb with
    | .messageComplete => t.onMessageComplete cfg handler
    | cb => { t with conn := { t.conn with req := t.conn.req.onCallback y cb } }
  t.log .parser

/-- `llhttp_execute`. -/
def Session.execute (t : Session) (handler : Nat → Option Response) (chunk : Bytes) :
    Session × LlhttpErrno :=
  let r := l.execute t.conn.fed chunk
  let t := { t with conn := { t.conn with fed := t.conn.fed ++ [chunk] } }
  (r.1.foldl (Session.onCallback cfg y handler) t, r.2)

/-- `__on_poll`. -/
def Session.onPoll (t : Session) (events : Events) (recv : Recv)
    (handler : Nat → Option Response) : Session :=
  if events &&& UV_POLLIN ≠ UV_POLLIN then t
  else
    let t := t.log .polled
    match recv with
    | .eintr => t
    | .error => t.cleanup
    | .data avail =>
      let chunk := avail.take ISERE_HTTPD_LINE_BUFFER_LEN
      if chunk = [] then t.cleanup
      else if t.conn.recvd + chunk.length > ISERE_HTTPD_MAX_HTTP_REQUEST_LEN then
        (t.log (.wrote .tooLarge)).cleanup
      else
        let r := t.execute cfg l y handler chunk
        if r.2 ≠ .HPE_OK then r.1.cleanup else r.1

/-- The drain loop, for this connection. -/
def Session.polling (t : Session) (jsPoll : Int) (jsResponse : Option Response) : Session :=
  let callbacked := t.conn.response.completed
  let t := t.log (.jsPolled jsPoll)
  let t := { t with conn := { t.conn with response := jsResponse.getD t.conn.response } }
  if !callbacked ∧ jsPoll ≠ 0 then
    if jsPoll < 0 then t.cleanup else t
  else (t.log (.wrote (httpdWriteback t.conn.response))).cleanup

/-- One turn of a connection. -/
def Session.step (t : Session) : Turn → Session
  | .accepted fd => { conn := HttpdConn.initial fd, deeds := t.deeds ++ [.accepted] }
  | .ready events recv handler => t.onPoll cfg l y events recv handler
  | .drained jsPoll jsResponse => t.polling jsPoll jsResponse

end Machine

/-! ## A connection of the task -/

/-- What the task knows of a connection. -/
def sessionOf (c : ConnId) (s : Httpd) : Session where
  conn := s.conns c
  deeds := (s.trace.filter (fun e => e.conn = c)).map Event.deed

/-- The number of events of the other connections. -/
def elsewhere (c : ConnId) (s : Httpd) : Nat := s.trace.countP (fun e => e.conn ≠ c)

/-- `__on_connected` sets up a connection. -/
def admits (cfg : Config) (s : Httpd) (events : Events) (os : Os) : Bool :=
  events &&& UV_POLLIN = UV_POLLIN && !atLimit cfg.maxConns s.tcp && decide (0 ≤ os.accept) &&
    os.mallocOk

/-- What a step of the task brings to a connection. The handler is told by the
length of the whole history, so the events of the others are added. -/
def turnOf (cfg : Config) (c : ConnId) (s : Httpd) (os : Os) : Option Turn :=
  match s.phase with
  | .iterating i =>
    match (uvPollSlot s.loop i).2 with
    | some (.server, events) =>
      if s.nextConn = c ∧ admits cfg s events os then some (.accepted os.accept) else none
    | some (.conn d, events) =>
      if d = c then
        some (.ready events os.recv (fun n => os.handler (n + elsewhere c s)))
      else none
    | none => none
  | .polling d => if d = c then some (.drained os.jsPoll os.jsResponse) else none
  | _ => none

/-! ## The parts of a step, seen from a connection -/

section Seen

variable (cfg : Config) (l : Llhttp) (y : Yuarel)

theorem length_history (c : ConnId) (s : Httpd) :
    s.trace.length = (sessionOf c s).deeds.length + elsewhere c s := by
  have hsplit := List.length_eq_countP_add_countP (fun e : Event => e.conn = c) (l := s.trace)
  simpa [sessionOf, elsewhere, List.countP_eq_length_filter] using hsplit

/-- The same memory and history of a connection. -/
theorem sessionOf_congr {c : ConnId} {s s' : Httpd} (hconn : s'.conns c = s.conns c)
    (htrace : s'.trace = s.trace) : sessionOf c s' = sessionOf c s := by
  rw [sessionOf, sessionOf, hconn, htrace]

/-- What happens to another connection is not seen. -/
theorem sessionOf_other {c d : ConnId} (h : d ≠ c) {s s' : Httpd}
    (hconn : s'.conns c = s.conns c) {es : List Event} (htrace : s'.trace = s.trace ++ es)
    (hes : ∀ e ∈ es, e.conn = d) : sessionOf c s' = sessionOf c s := by
  have hnone : es.filter (fun e => e.conn = c) = [] := by
    rw [List.filter_eq_nil_iff]
    intro e he
    simp [hes e he, h]
  rw [sessionOf, sessionOf, hconn, htrace, List.filter_append, hnone, List.append_nil]

/-- What happens to the connection itself is all seen. -/
theorem sessionOf_own {c : ConnId} {s s' : Httpd} {es : List Event}
    (htrace : s'.trace = s.trace ++ es) (hes : ∀ e ∈ es, e.conn = c) :
    (sessionOf c s').deeds = (sessionOf c s).deeds ++ es.map Event.deed ∧
      elsewhere c s' = elsewhere c s := by
  have hall : es.filter (fun e => e.conn = c) = es := by
    rw [List.filter_eq_self]
    intro e he
    simp [hes e he]
  have hnone : es.countP (fun e => e.conn ≠ c) = 0 := by
    rw [List.countP_eq_zero]
    intro e he
    simp [hes e he]
  constructor
  · rw [sessionOf, sessionOf, htrace, List.filter_append, hall, List.map_append]
  · rw [elsewhere, elsewhere, htrace, List.countP_append, hnone, Nat.add_zero]

/-- A part of the task on a connection does on its session what the machine does,
and adds events of this connection only. -/
structure Acts (c : ConnId) (s s' : Httpd) (t' : Session) : Prop where
  session : sessionOf c s' = t'
  elsewhere : elsewhere c s' = elsewhere c s

theorem acts_of {c : ConnId} {s s' : Httpd} {t' : Session} (es : List Event)
    (htrace : s'.trace = s.trace ++ es) (hes : ∀ e ∈ es, e.conn = c)
    (hconn : s'.conns c = t'.conn)
    (hdeeds : t'.deeds = (sessionOf c s).deeds ++ es.map Event.deed) :
    Acts c s s' t' := by
  obtain ⟨hown, helse⟩ := sessionOf_own htrace hes
  refine ⟨?_, helse⟩
  have hfst : (sessionOf c s').conn = t'.conn := hconn
  have hsnd : (sessionOf c s').deeds = t'.deeds := hown.trans hdeeds.symm
  cases t'
  cases hses : sessionOf c s'
  rw [hses] at hfst hsnd
  simp only at hfst hsnd
  rw [hfst, hsnd]

/-- Nothing that is seen of the connection moves. -/
theorem acts_still {c : ConnId} {s s1 : Httpd} (hconn : s1.conns c = s.conns c)
    (htrace : s1.trace = s.trace) : Acts c s s1 (sessionOf c s) :=
  ⟨sessionOf_congr hconn htrace, by rw [elsewhere, elsewhere, htrace]⟩

/-- One part after the other. -/
theorem Acts.andThen {c : ConnId} {s s1 s2 : Httpd} {t1 : Session} (h : Acts c s s1 t1)
    (f : Session → Session) (h2 : Acts c s1 s2 (f (sessionOf c s1))) : Acts c s s2 (f t1) := by
  refine ⟨?_, h2.elsewhere.trans h.elsewhere⟩
  rw [h2.session, h.session]

theorem acts_log (c : ConnId) (s : Httpd) {e : Event} (he : e.conn = c) :
    Acts c s (s.log e) ((sessionOf c s).log e.deed) :=
  acts_of [e] (log_trace s e) (by simpa using he) (by simp [Session.log, sessionOf])
    (by simp [Session.log])

theorem acts_cleanup (c : ConnId) (s : Httpd) :
    Acts c s (httpdCleanupConn s c) (sessionOf c s).cleanup :=
  acts_of _ (cleanup_trace s c) (by simp [Event.conn]) (cleanup_conns_self s c)
    (by simp [Session.cleanup, Event.deed])

/-- An answer, and the end of the connection. -/
theorem acts_answer (c : ConnId) (s : Httpd) (a : Answer) :
    Acts c s (httpdCleanupConn (s.log (.wrote c a)) c)
      ((sessionOf c s).log (.wrote a)).cleanup :=
  (acts_log c s (e := .wrote c a) rfl).andThen Session.cleanup (acts_cleanup c _)

/-- The handler gives the same response, told by either history. -/
theorem acts_dispatch (c : ConnId) (s : Httpd) (os : Os) :
    Acts c s (dispatch s c os)
      ((sessionOf c s).dispatch (fun n => os.handler (n + elsewhere c s))) := by
  refine acts_of _ (dispatch_trace s c os) (by simp [Event.conn]) ?_
    (by simp [Session.dispatch, Event.deed, sessionOf])
  rw [dispatch_conns_self, Session.dispatch, ← length_history]
  simp only [sessionOf]

/-- The end of a message. -/
theorem acts_onMessageComplete (c : ConnId) (os : Os) (s : Httpd) :
    Acts c s (onMessageComplete cfg s c os) ((sessionOf c s).onMessageComplete cfg
      (fun n => os.handler (n + elsewhere c s))) := by
  have hstop : Acts c s { s with loop := uvIoStop s.loop (.conn c) UV_POLLIN } (sessionOf c s) :=
    acts_still rfl rfl
  unfold onMessageComplete Session.onMessageComplete
  by_cases hn : (s.conns c).req.notFound = true
  · simp only [sessionOf, hn, ↓reduceIte]
    exact hstop.andThen (fun t => (t.log (.wrote .notFound)).cleanup) (acts_answer c _ .notFound)
  · by_cases hh : cfg.hasHandler = true
    · simp only [sessionOf, hn, hh, Bool.not_true, Bool.false_eq_true, ↓reduceIte]
      have hgo := acts_dispatch c { s with loop := uvIoStop s.loop (.conn c) UV_POLLIN } os
      rw [hstop.elsewhere] at hgo
      exact hstop.andThen (fun t => t.dispatch (fun n => os.handler (n + elsewhere c s))) hgo
    · simp only [sessionOf, hn, hh, Bool.not_false, Bool.false_eq_true, ↓reduceIte]
      exact hstop.andThen (fun t => (t.log (.wrote .bare)).cleanup) (acts_answer c _ .bare)

/-- One callback of llhttp. -/
theorem acts_onCallback (c : ConnId) (os : Os) (s : Httpd) (cb : Callback) :
    Acts c s (onCallback cfg y c os s cb) ((sessionOf c s).onCallback cfg y
      (fun n => os.handler (n + elsewhere c s)) cb) := by
  by_cases hcb : cb = .messageComplete
  · subst hcb
    have hlog := acts_log c s (e := .callback c .messageComplete) rfl
    have hmessage := acts_onMessageComplete cfg c os (s.log (.callback c .messageComplete))
    rw [hlog.elsewhere] at hmessage
    have hdone := hlog.andThen
      (fun t => t.onMessageComplete cfg (fun n => os.handler (n + elsewhere c s))) hmessage
    exact hdone.andThen (fun t => t.log .parser) (acts_log c _ (e := .parser c) rfl)
  · have hsession : (sessionOf c s).onCallback cfg y (fun n => os.handler (n + elsewhere c s)) cb =
        { conn := { s.conns c with req := (s.conns c).req.onCallback y cb },
          deeds := (sessionOf c s).deeds ++ [.callback cb, .parser] } := by
      cases cb <;> simp [Session.onCallback, Session.log, sessionOf] at hcb ⊢
    rw [hsession]
    refine acts_of _ (piece_trace cfg y c os s hcb) (by simp [Event.conn]) ?_ (by simp [Event.deed])
    rw [onCallback_piece cfg y c os s hcb]
    simp [Httpd.setReq]

theorem acts_callbacks (c : ConnId) (os : Os) (cbs : List Callback) (s : Httpd) :
    Acts c s (cbs.foldl (onCallback cfg y c os) s) (cbs.foldl
      (Session.onCallback cfg y (fun n => os.handler (n + elsewhere c s))) (sessionOf c s)) := by
  induction cbs generalizing s with
  | nil => exact acts_still rfl rfl
  | cons cb cbs ih =>
    have hone := acts_onCallback cfg y c os s cb
    have hrest := ih (onCallback cfg y c os s cb)
    rw [hone.elsewhere] at hrest
    exact hone.andThen (fun t => cbs.foldl
      (Session.onCallback cfg y (fun n => os.handler (n + elsewhere c s))) t) hrest

/-- `llhttp_execute` gives the same callbacks for what the parser was fed. -/
theorem acts_execute (c : ConnId) (os : Os) (s : Httpd) (chunk : Bytes) :
    Acts c s (llhttpExecute cfg l y s c os chunk).1 ((sessionOf c s).execute cfg l y
        (fun n => os.handler (n + elsewhere c s)) chunk).1 ∧
      ((sessionOf c s).execute cfg l y (fun n => os.handler (n + elsewhere c s)) chunk).2 =
        (llhttpExecute cfg l y s c os chunk).2 := by
  refine ⟨?_, rfl⟩
  have hfed : Acts c s (s.setConn c { s.conns c with fed := (s.conns c).fed ++ [chunk] })
      { conn := { s.conns c with fed := (s.conns c).fed ++ [chunk] },
        deeds := (sessionOf c s).deeds } :=
    acts_of [] (by simp) (by simp) (by simp) (by simp)
  have hcalls := acts_callbacks cfg y c os (l.execute (s.conns c).fed chunk).1
    (s.setConn c { s.conns c with fed := (s.conns c).fed ++ [chunk] })
  rw [hfed.elsewhere] at hcalls
  exact hfed.andThen (fun t => (l.execute (s.conns c).fed chunk).1.foldl
    (Session.onCallback cfg y (fun n => os.handler (n + elsewhere c s))) t) hcalls

/-- `__on_poll`. -/
theorem acts_onPoll (c : ConnId) (s : Httpd) (events : Events) (os : Os) :
    Acts c s (onPoll cfg l y s c events os) ((sessionOf c s).onPoll cfg l y events os.recv
      (fun n => os.handler (n + elsewhere c s))) := by
  have hpolled := acts_log c s (e := .polled c) rfl
  unfold onPoll Session.onPoll
  by_cases hev : events &&& UV_POLLIN = UV_POLLIN
  · simp only [hev, ne_eq, not_true_eq_false, ↓reduceIte]
    cases os.recv with
    | eintr => exact hpolled
    | error => exact hpolled.andThen Session.cleanup (acts_cleanup c _)
    | data avail =>
      simp only
      generalize avail.take ISERE_HTTPD_LINE_BUFFER_LEN = chunk
      by_cases hnil : chunk = []
      · rw [if_pos hnil, if_pos hnil]
        exact hpolled.andThen Session.cleanup (acts_cleanup c _)
      · rw [if_neg hnil, if_neg hnil]
        by_cases hlarge : (s.conns c).recvd + chunk.length > ISERE_HTTPD_MAX_HTTP_REQUEST_LEN
        · simp only [log_conns, Session.log, sessionOf, hlarge, ↓reduceIte]
          exact hpolled.andThen (fun t => (t.log (.wrote .tooLarge)).cleanup)
            (acts_answer c _ .tooLarge)
        · obtain ⟨hcalls, herr⟩ := acts_execute cfg l y c os (s.log (.polled c)) chunk
          rw [hpolled.elsewhere] at hcalls herr
          rw [hpolled.session] at herr
          have hexec := hpolled.andThen (fun t => (t.execute cfg l y
            (fun n => os.handler (n + elsewhere c s)) chunk).1) hcalls
          have herr' : (((sessionOf c s).log .polled).execute cfg l y
              (fun n => os.handler (n + elsewhere c s)) chunk).2 =
              (llhttpExecute cfg l y (s.log (.polled c)) c os chunk).2 := herr
          have hroom : ¬ ((sessionOf c s).log .polled).conn.recvd + chunk.length >
              ISERE_HTTPD_MAX_HTTP_REQUEST_LEN := hlarge
          have hroom' : ¬ ((s.log (.polled c)).conns c).recvd + chunk.length >
              ISERE_HTTPD_MAX_HTTP_REQUEST_LEN := hlarge
          rw [if_neg hroom, if_neg hroom', herr']
          by_cases hok : (llhttpExecute cfg l y (s.log (.polled c)) c os chunk).2 ≠ .HPE_OK
          · rw [if_pos hok, if_pos hok]
            exact hexec.andThen Session.cleanup (acts_cleanup c _)
          · rw [if_neg hok, if_neg hok]
            exact hexec
  · simp only [hev, ne_eq, not_false_eq_true, ↓reduceIte]
    exact acts_still rfl rfl

/-- The drain loop, for the connection that it took. -/
theorem acts_pollingStep (c : ConnId) (s : Httpd) (os : Os) :
    Acts c s (pollingStep s c os) ((sessionOf c s).polling os.jsPoll os.jsResponse) := by
  have hpolled : Acts c s (polledJs s c os)
      { conn := { s.conns c with response := os.jsResponse.getD (s.conns c).response },
        deeds := (sessionOf c s).deeds ++ [.jsPolled os.jsPoll] } :=
    acts_of _ (polledJs_trace s c os) (by simp [Event.conn])
      (by simp [polledJs, Httpd.setResponse]) (by simp [Event.deed])
  unfold pollingStep Session.polling
  simp only
  by_cases hgo : (!(s.conns c).response.completed) = true ∧ os.jsPoll ≠ 0
  · have hgo' : (!(sessionOf c s).conn.response.completed) = true ∧ os.jsPoll ≠ 0 := hgo
    rw [if_pos hgo, if_pos hgo']
    by_cases hneg : os.jsPoll < 0
    · rw [if_pos hneg, if_pos hneg]
      exact hpolled.andThen Session.cleanup (acts_cleanup c _)
    · rw [if_neg hneg, if_neg hneg]
      exact hpolled.andThen id (acts_still rfl rfl)
  · have hgo' : ¬ ((!(sessionOf c s).conn.response.completed) = true ∧ os.jsPoll ≠ 0) := hgo
    rw [if_neg hgo, if_neg hgo']
    exact hpolled.andThen (fun t => (t.log (.wrote (httpdWriteback t.conn.response))).cleanup)
      (acts_answer c (polledJs s c os) _)

/-! ## A step, seen from a connection -/

theorem onConnected_eq (s : Httpd) (events : Events) (os : Os) :
    onConnected cfg s events os = if admits cfg s events os then addConn s os.accept else s := by
  unfold onConnected admits
  by_cases hev : events &&& UV_POLLIN = UV_POLLIN
  · cases hlim : atLimit cfg.maxConns s.tcp with
    | true => simp [hev, hlim, isereTcpAccept]
    | false =>
      by_cases hfd : os.accept < 0
      · simp [hev, hlim, isereTcpAccept, hfd]
      · cases hm : os.mallocOk with
        | true =>
          simp [hev, hlim, isereTcpAccept, hfd, Int.not_lt.mp hfd, addConn, Httpd.log,
            Httpd.setConn]
        | false => simp [hev, hlim, isereTcpAccept, hfd, isereTcpClose]
  · simp [hev]

/-- An accept makes the connection with the next number, and no other. -/
theorem sessionOf_onConnected (c : ConnId) (s : Httpd) (events : Events) (os : Os) :
    sessionOf c (onConnected cfg s events os) =
      if s.nextConn = c ∧ admits cfg s events os = true then
        { conn := HttpdConn.initial os.accept, deeds := (sessionOf c s).deeds ++ [.accepted] }
      else sessionOf c s := by
  rw [onConnected_eq]
  by_cases hok : admits cfg s events os = true
  · simp only [hok, ↓reduceIte, and_true]
    by_cases hc : s.nextConn = c
    · subst hc
      rw [if_pos rfl]
      exact (acts_of [.accepted s.nextConn] (addConn_trace s os.accept)
        (by simp [Event.conn]) (addConn_conns_self s os.accept) (by simp [Event.deed])).session
    · rw [if_neg hc]
      exact sessionOf_other hc (addConn_conns_other s (Ne.symm hc)) (addConn_trace s os.accept)
        (by simp [Event.conn])
  · simp [hok]

/-- What is not on the connection is not seen from it. -/
theorem sessionOf_onPoll_other {c d : ConnId} (h : d ≠ c) (s : Httpd) (events : Events) (os : Os) :
    sessionOf c (onPoll cfg l y s d events os) = sessionOf c s := by
  refine star_inv (I := fun s' => sessionOf c s' = sessionOf c s) ?_
    (onPoll_moves cfg l y s d events os) rfl
  intro s1 s2 hkept hmove
  rw [← hkept]
  cases hmove with
  | @logged e he =>
    have hd : e.conn = d := by rcases he with rfl | rfl <;> simp [Event.conn]
    exact sessionOf_other h (log_conns s1 e ▸ rfl) (log_trace s1 e) (by simpa using hd)
  | cleaned =>
    exact sessionOf_other h (cleanup_conns_other s1 h.symm) (cleanup_trace s1 d)
      (by simp [Event.conn])
  | fed chunk => exact sessionOf_congr (by simp [h.symm]) (setConn_trace s1 d _)
  | callback cb =>
    by_cases hcb : cb = .messageComplete
    · subst hcb
      cases hdis : cfg.dispatches (s1.conns d).req with
      | true =>
        rw [onCallback_dispatch cfg y d os s1 hdis]
        have htrace : ((dispatch (stopReading s1 d) d os).log (.parser d)).trace = s1.trace ++
            [.callback d .messageComplete, .handler d (s1.conns d).req.handlerArgs, .parser d] := by
          simp
        exact sessionOf_other h (by simp [h.symm]) htrace (by simp [Event.conn])
      | false =>
        obtain ⟨a, -, heq⟩ := onCallback_answer cfg y d os s1 hdis
        rw [heq]
        have htrace : ((httpdCleanupConn ((stopReading s1 d).log (.wrote d a)) d).log
            (.parser d)).trace = s1.trace ++
              [.callback d .messageComplete, .wrote d a, .closed d, .freed d, .parser d] := by
          simp
        exact sessionOf_other h (by simp [h.symm]) htrace (by simp [Event.conn])
    · refine sessionOf_other h ?_ (piece_trace cfg y d os s1 hcb) (by simp [Event.conn])
      rw [onCallback_piece cfg y d os s1 hcb]
      simp [Httpd.setReq, h.symm]

theorem sessionOf_pollingStep_other {c d : ConnId} (h : d ≠ c) (s : Httpd) (os : Os) :
    sessionOf c (pollingStep s d os) = sessionOf c s := by
  have hpolled : sessionOf c (polledJs s d os) = sessionOf c s :=
    sessionOf_other h (polledJs_conns_other s h.symm os) (polledJs_trace s d os)
      (by simp [Event.conn])
  have hclean : ∀ s', sessionOf c (httpdCleanupConn s' d) = sessionOf c s' := fun s' =>
    sessionOf_other h (cleanup_conns_other s' h.symm) (cleanup_trace s' d) (by simp [Event.conn])
  rcases pollingStep_cases s d os with ⟨-, -, heq⟩ | ⟨-, -, heq⟩ | heq
  · rw [heq, hclean, hpolled]
  · rw [heq, ← hpolled]
    exact sessionOf_congr rfl rfl
  · rw [heq, hclean, ← hpolled]
    exact sessionOf_other h (by rw [log_conns]) (log_trace _ _) (by simp [Event.conn])

/-- A step is a turn of the connection, or is not seen from it. -/
theorem sessionOf_step (c : ConnId) (s : Httpd) (os : Os) :
    sessionOf c (step cfg l y s os) =
      (turnOf cfg c s os).elim (sessionOf c s) ((sessionOf c s).step cfg l y) := by
  unfold step turnOf
  cases hphase : s.phase with
  | loop =>
    simp only [Option.elim_none]
    split
    · exact sessionOf_congr rfl rfl
    · obtain ⟨loop, p, heq, -⟩ := pollStep_moves cfg s os
      rw [heq]
      exact sessionOf_congr rfl rfl
  | iterating i =>
    simp only
    unfold slotStep
    by_cases hi : s.loop.pollFds.length ≤ i
    · have hnone : uvPollSlot s.loop i = (s.loop, none) := by
        simp [uvPollSlot, List.getElem?_eq_none hi]
      simp only [hi, ↓reduceIte, hnone, Option.elim_none]
      exact sessionOf_congr rfl rfl
    · rw [if_neg hi]
      have hslot : sessionOf c
          { s with loop := (uvPollSlot s.loop i).1, phase := .iterating (i + 1) } =
          sessionOf c s := sessionOf_congr rfl rfl
      cases hcall : (uvPollSlot s.loop i).2 with
      | none => simpa only [hcall, Option.elim_none] using hslot
      | some r =>
        obtain ⟨w, events⟩ := r
        cases w with
        | server =>
          simp only [hcall]
          rw [sessionOf_onConnected, hslot]
          have hadmits : admits cfg
              { s with loop := (uvPollSlot s.loop i).1, phase := .iterating (i + 1) } events os =
              admits cfg s events os := rfl
          rw [hadmits]
          by_cases hc : s.nextConn = c ∧ admits cfg s events os = true
          · rw [if_pos hc, if_pos hc]
            rfl
          · rw [if_neg hc, if_neg hc]
            rfl
        | conn d =>
          simp only [hcall]
          by_cases hd : d = c
          · subst hd
            have hpoll := (acts_onPoll cfg l y d
              { s with loop := (uvPollSlot s.loop i).1, phase := .iterating (i + 1) } events
              os).session
            rw [hslot] at hpoll
            rw [if_pos rfl]
            exact hpoll
          · rw [if_neg hd, sessionOf_onPoll_other cfg l y hd]
            exact hslot
  | drain =>
    obtain ⟨q, p, heq, -⟩ := drainStep_moves s
    simp only [heq, Option.elim_none]
    exact sessionOf_congr rfl rfl
  | polling d =>
    simp only
    by_cases hd : d = c
    · subst hd
      rw [if_pos rfl]
      exact (acts_pollingStep d s os).session
    · rw [if_neg hd]
      exact sessionOf_pollingStep_other hd s os
  | exited => rfl

variable {cfg l y} in
/-- A connection without a turn stays as it is. -/
theorem conns_of_no_turn {s : Httpd} {c : ConnId} {os : Os} (h : turnOf cfg c s os = none) :
    (step cfg l y s os).conns c = s.conns c := by
  have hsame := sessionOf_step cfg l y c s os
  rw [h, Option.elim_none] at hsame
  exact congrArg Session.conn hsame

/-- A connection, as a component of the task. -/
def session (c : ConnId) : Component (step cfg l y) (Session.step cfg l y) where
  view := sessionOf c
  input := turnOf cfg c
  moves s os turn h := by
    rw [sessionOf_step, h, Option.elim_some]
  stays s os h := by
    rw [sessionOf_step, h, Option.elim_none]

end Seen

/-! ## The law -/

/-- In every run, the memory and the history of a connection are those of the
machine that gets the turns of this connection, and nothing else: whatever the other
clients send, and whenever their connections come and go. The memory of a connection
that was cleaned up is never given out again here; of a run that frees it twice this
says nothing about the heap. -/
theorem a_connection_is_a_machine_of_its_own (cfg : Config) (l : Llhttp) (y : Yuarel)
    (serverfd : Nat) (is : List Os) (c : ConnId) :
    sessionOf c (run (step cfg l y) (start serverfd) is) =
      run (Session.step cfg l y) Session.fresh ((session cfg l y c).inputs (start serverfd) is) :=
  (session cfg l y c).run_view (start serverfd) is

end isere.httpd
