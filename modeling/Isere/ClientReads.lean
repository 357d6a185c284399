-- What a client reads on its connection. The response that __handler_cb leaves comes
-- through the drain loop and __httpd_writeback to the wire, and the client reads of
-- it the status, the headers and the body that the handler gave.
import Isere.ConnProtocol
import Isere.WireFormat

open cstring crlf runs isere.uv isere.tcp

namespace isere.httpd

/-! ## What a connection is given, and what it gives -/

/-- What the callback left at a place of the history: that of a call of the handler. -/
def leftAt (handler : Nat → Option Response) : Deed × Nat → Option Response
  | (.handler _, n) => handler n
  | _ => none

/-- What the callback left in a part of the history that begins at `n`. -/
def leftIn (handler : Nat → Option Response) (n : Nat) (ds : List Deed) : List Response :=
  (ds.zipIdx n).filterMap (leftAt handler)

/-- What the callback left in a turn, first to last. -/
def Session.left (cfg : Config) (l : Llhttp) (y : Yuarel) (t : Session) : Turn → List Response
  | .accepted _ => []
  | .ready events recv handler => leftIn handler t.deeds.length
      ((t.step cfg l y (.ready events recv handler)).deeds.drop t.deeds.length)
  | .drained _ jsResponse => jsResponse.toList

/-- What the callback left for a connection along a run. -/
def results (cfg : Config) (l : Llhttp) (y : Yuarel) (c : ConnId) (s : Httpd) (is : List Os) :
    List Response :=
  outputsOf (Session.step cfg l y) (Session.left cfg l y) (sessionOf c s)
    ((session cfg l y c).inputs s is)

def Deed.answer : Deed → Option Answer
  | .wrote a => some a
  | _ => none

/-- The answers on a connection. -/
def Session.answers (t : Session) : List Answer := t.deeds.filterMap Deed.answer

/-- The bytes on a connection, if each write reads its memory. -/
def Session.sent (t : Session) : Option Bytes :=
  (t.answers.mapM Answer.writes).map (fun ws => ws.flatten.flatten)

theorem leftIn_append (handler : Nat → Option Response) (n : Nat) (ds es : List Deed) :
    leftIn handler n (ds ++ es) = leftIn handler n ds ++ leftIn handler (n + ds.length) es := by
  unfold leftIn
  rw [List.zipIdx_append, List.filterMap_append]

section Machine

variable {cfg : Config} {l : Llhttp} {y : Yuarel} {t t' t'' : Session}
  {handler : Nat → Option Response}

/-- A part of `__on_poll`: it polls no context, a connection that it leaves alive was
alive and got no answer, and the response is what the callback left last. -/
structure Goes (handler : Nat → Option Response) (t t' : Session) (es : List Deed) : Prop where
  deeds : t'.deeds = t.deeds ++ es
  unpolled : ∀ result, .jsPolled result ∉ es
  born : t.conn.life ≠ .fresh → t'.conn.life ≠ .fresh
  live : t'.conn.life = .live → t.conn.life = .live ∧ ∀ a, .wrote a ∉ es
  response : t'.conn.response =
    (leftIn handler t.deeds.length es).getLast?.getD t.conn.response

theorem Goes.refl (handler : Nat → Option Response) (t : Session) : Goes handler t t [] :=
  ⟨(List.append_nil _).symm, by simp, id, fun h => ⟨h, by simp⟩, rfl⟩

theorem Goes.trans {es es' : List Deed} (h : Goes handler t t' es) (h' : Goes handler t' t'' es') :
    Goes handler t t'' (es ++ es') where
  deeds := by rw [h'.deeds, h.deeds, List.append_assoc]
  unpolled result := by
    rw [List.mem_append, not_or]
    exact ⟨h.unpolled result, h'.unpolled result⟩
  born hb := h'.born (h.born hb)
  live hl := by
    obtain ⟨hl', hno'⟩ := h'.live hl
    obtain ⟨hl, hno⟩ := h.live hl'
    refine ⟨hl, fun a => ?_⟩
    rw [List.mem_append, not_or]
    exact ⟨hno a, hno' a⟩
  response := by
    rw [h'.response, h.response, leftIn_append, List.getLast?_append, h.deeds, List.length_append]
    cases (leftIn handler (t.deeds.length + es.length) es').getLast? <;> rfl

/-- A note that is no answer, no poll and no call of the handler. -/
theorem goes_log (handler : Nat → Option Response) (t : Session) {d : Deed}
    (hd : d = .polled ∨ d = .parser ∨ ∃ cb, d = .callback cb) : Goes handler t (t.log d) [d] := by
  refine ⟨rfl, ?_, id, fun h => ⟨h, ?_⟩, ?_⟩
  · rcases hd with rfl | rfl | ⟨cb, rfl⟩ <;> simp
  · rcases hd with rfl | rfl | ⟨cb, rfl⟩ <;> simp
  · rcases hd with rfl | rfl | ⟨cb, rfl⟩ <;> rfl

theorem goes_cleanup (handler : Nat → Option Response) (t : Session) :
    Goes handler t t.cleanup [.closed, .freed] :=
  ⟨rfl, by simp, fun _ => by simp [Session.cleanup], fun h => by simp [Session.cleanup] at h, rfl⟩

/-- An answer, and the end of the connection. -/
theorem goes_answer (handler : Nat → Option Response) (t : Session) (a : Answer) :
    Goes handler t (t.log (.wrote a)).cleanup [.wrote a, .closed, .freed] := by
  refine ⟨?_, by simp, fun _ => by simp [Session.cleanup],
    fun h => by simp [Session.cleanup] at h, rfl⟩
  simp [Session.cleanup, Session.log]

theorem goes_dispatch (handler : Nat → Option Response) (t : Session) :
    Goes handler t (t.dispatch handler) [.handler t.conn.req.handlerArgs] := by
  refine ⟨rfl, by simp, id, fun h => ⟨h, by simp⟩, ?_⟩
  simp only [Session.dispatch, leftIn, List.zipIdx_singleton, List.filterMap_cons, leftAt,
    List.filterMap_nil]
  cases handler t.deeds.length <;> rfl

theorem goes_onCallback (cfg : Config) (y : Yuarel) (handler : Nat → Option Response) (t : Session)
    (cb : Callback) : ∃ es, Goes handler t (t.onCallback cfg y handler cb) es := by
  have hlog : Goes handler t (t.log (.callback cb)) [.callback cb] :=
    goes_log handler t (Or.inr (Or.inr ⟨cb, rfl⟩))
  have hparser : ∀ t', Goes handler t' (t'.log .parser) [.parser] :=
    fun t' => goes_log handler t' (Or.inr (Or.inl rfl))
  unfold Session.onCallback
  by_cases hcb : cb = .messageComplete
  · subst hcb
    simp only
    obtain ⟨es, hes⟩ : ∃ es, Goes handler (t.log (.callback .messageComplete))
        ((t.log (.callback .messageComplete)).onMessageComplete cfg handler) es := by
      unfold Session.onMessageComplete
      split
      · exact ⟨_, goes_answer handler _ _⟩
      · split
        · exact ⟨_, goes_answer handler _ _⟩
        · exact ⟨_, goes_dispatch handler _⟩
    exact ⟨_, (hlog.trans hes).trans (hparser _)⟩
  · have hpiece : Goes handler (t.log (.callback cb)) { t.log (.callback cb) with
        conn := { (t.log (.callback cb)).conn with
          req := (t.log (.callback cb)).conn.req.onCallback y cb } } [] :=
      ⟨(List.append_nil _).symm, by simp, id, fun h => ⟨h, by simp⟩, rfl⟩
    have hall := (hlog.trans hpiece).trans (hparser _)
    refine ⟨[.callback cb] ++ [] ++ [.parser], ?_⟩
    cases cb <;> first | exact absurd rfl hcb | exact hall

theorem goes_callbacks (cfg : Config) (y : Yuarel) (handler : Nat → Option Response)
    (cbs : List Callback) (t : Session) :
    ∃ es, Goes handler t (cbs.foldl (Session.onCallback cfg y handler) t) es := by
  induction cbs generalizing t with
  | nil => exact ⟨[], Goes.refl handler t⟩
  | cons cb cbs ih =>
    obtain ⟨es, hes⟩ := goes_onCallback cfg y handler t cb
    obtain ⟨es', hes'⟩ := ih (t.onCallback cfg y handler cb)
    exact ⟨es ++ es', hes.trans hes'⟩

theorem goes_onPoll (cfg : Config) (l : Llhttp) (y : Yuarel) (handler : Nat → Option Response)
    (t : Session) (events : Events) (recv : Recv) :
    ∃ es, Goes handler t (t.onPoll cfg l y events recv handler) es := by
  have hpolled : Goes handler t (t.log .polled) [.polled] := goes_log handler t (Or.inl rfl)
  unfold Session.onPoll
  split
  · exact ⟨[], Goes.refl handler t⟩
  · simp only
    cases recv with
    | eintr => exact ⟨_, hpolled⟩
    | error => exact ⟨_, hpolled.trans (goes_cleanup handler _)⟩
    | data avail =>
      simp only
      split
      · exact ⟨_, hpolled.trans (goes_cleanup handler _)⟩
      · split
        · exact ⟨_, hpolled.trans (goes_answer handler _ _)⟩
        · unfold Session.execute
          simp only
          generalize avail.take ISERE_HTTPD_LINE_BUFFER_LEN = chunk
          have hfed : Goes handler (t.log .polled) { t.log .polled with
              conn := { (t.log .polled).conn with
                fed := (t.log .polled).conn.fed ++ [chunk] } } [] :=
            ⟨(List.append_nil _).symm, by simp, id, fun h => ⟨h, by simp⟩, rfl⟩
          obtain ⟨es, hes⟩ := goes_callbacks cfg y handler
            (l.execute (t.log .polled).conn.fed chunk).1 { t.log .polled with
              conn := { (t.log .polled).conn with fed := (t.log .polled).conn.fed ++ [chunk] } }
          have hcalls := (hpolled.trans hfed).trans hes
          split
          · exact ⟨_, hcalls.trans (goes_cleanup handler _)⟩
          · exact ⟨_, hcalls⟩

/-! ## What is known of a connection -/

/-- What is known when the callback left `res` so far: a connection that reads was never
polled, one that is alive has no answer yet, and one that ended after a poll, with no
failed poll, got its response as its one answer. -/
structure Told (res : List Response) (t : Session) : Prop where
  fresh : t.conn.life = .fresh → t.deeds = [] ∧ res = []
  reading : t.conn.status = some .reading → ∀ result, .jsPolled result ∉ t.deeds
  unanswered : t.conn.life = .live → t.answers = []
  response : t.conn.response = res.getLast?.getD Response.initial
  answered : t.conn.life = .cleaned → (∃ result, .jsPolled result ∈ t.deeds) →
    (∀ result, .jsPolled result ∈ t.deeds → 0 ≤ result) →
    t.answers = [httpdWriteback t.conn.response]

theorem answers_append (t : Session) (ds : List Deed) (h : t'.deeds = t.deeds ++ ds) :
    t'.answers = t.answers ++ ds.filterMap Deed.answer := by
  unfold Session.answers
  rw [h, List.filterMap_append]

theorem no_answers {ds : List Deed} (h : ∀ a, .wrote a ∉ ds) : ds.filterMap Deed.answer = [] := by
  rw [List.filterMap_eq_nil_iff]
  intro d hd
  cases d with
  | wrote a => exact absurd hd (h a)
  | _ => rfl

/-- A response that was left later counts. -/
theorem getLast_left (res left : List Response) (r : Response) :
    (res ++ left).getLast?.getD r = left.getLast?.getD (res.getLast?.getD r) := by
  rw [List.getLast?_append]
  cases left.getLast? <;> rfl

theorem Told.ready {res : List Response} (h : Told res t) (hread : t.conn.status = some .reading)
    (events : Events) (recv : Recv) (handler : Nat → Option Response) :
    Told (res ++ t.left cfg l y (.ready events recv handler))
      (t.step cfg l y (.ready events recv handler)) := by
  obtain ⟨es, hes⟩ := goes_onPoll cfg l y handler t events recv
  have hlive := (status_reading_iff.mp hread).1
  have hunpolled : ∀ result, .jsPolled result ∉ (t.onPoll cfg l y events recv handler).deeds := by
    intro result
    rw [hes.deeds, List.mem_append, not_or]
    exact ⟨h.reading hread result, hes.unpolled result⟩
  have hleft : t.left cfg l y (.ready events recv handler) =
      leftIn handler t.deeds.length es := by
    simp only [Session.left, Session.step]
    rw [hes.deeds, List.drop_left]
  rw [hleft]
  simp only [Session.step]
  refine ⟨fun hf => ?_, fun _ => hunpolled, fun hl => ?_, ?_, fun _ hp => ?_⟩
  · exact absurd hf (hes.born (by simp [hlive]))
  · rw [answers_append t _ hes.deeds, h.unanswered hlive, no_answers (hes.live hl).2]
    rfl
  · rw [getLast_left, ← h.response]
    exact hes.response
  · obtain ⟨result, hp⟩ := hp
    exact absurd hp (hunpolled result)

theorem Told.drained {res : List Response} (h : Told res t)
    (hhanded : t.conn.status = some .handed) (jsPoll : Int) (jsResponse : Option Response) :
    Told (res ++ t.left cfg l y (.drained jsPoll jsResponse))
      (t.step cfg l y (.drained jsPoll jsResponse)) := by
  obtain ⟨hlive, hjs⟩ := status_handed_iff.mp hhanded
  have hnone := h.unanswered hlive
  have hresponse : jsResponse.getD t.conn.response =
      (res ++ jsResponse.toList).getLast?.getD Response.initial := by
    rw [getLast_left, ← h.response]
    cases jsResponse <;> rfl
  simp only [Session.left, Session.step, Session.polling]
  split
  · split
    · rename_i hneg
      -- the poll failed
      refine ⟨by simp [Session.cleanup], by simp [Session.cleanup, HttpdConn.status],
        by simp [Session.cleanup], hresponse, fun _ _ hgood => ?_⟩
      have hpoll := hgood jsPoll (by simp [Session.cleanup, Session.log])
      omega
    · refine ⟨by simp [Session.log, hlive], by simp [Session.log, HttpdConn.status, hjs, hlive],
        fun _ => ?_, hresponse, by simp [Session.log, hlive]⟩
      rw [answers_append t [.jsPolled jsPoll] rfl, hnone]
      rfl
  · refine ⟨by simp [Session.cleanup], by simp [Session.cleanup, HttpdConn.status],
      by simp [Session.cleanup], hresponse, fun _ _ _ => ?_⟩
    rw [answers_append t [.jsPolled jsPoll, .wrote (httpdWriteback
      (jsResponse.getD t.conn.response)), .closed, .freed]
      (by simp [Session.cleanup, Session.log]), hnone]
    rfl

theorem Told.step {res : List Response} (h : Told res t) {turn : Turn}
    (hok : TurnAllowed cfg l y t.conn turn) :
    Told (res ++ t.left cfg l y turn) (t.step cfg l y turn) := by
  cases hok with
  | accepted fd hfresh =>
    obtain ⟨hdeeds, hres⟩ := h.fresh hfresh
    refine ⟨by simp [Session.step, HttpdConn.initial], ?_, fun _ => ?_, ?_,
      by simp [Session.step, HttpdConn.initial]⟩
    · simp [Session.step, hdeeds]
    · simp [Session.step, hdeeds, Session.answers, Deed.answer]
    · simp [Session.step, Session.left, hres, HttpdConn.initial]
  | ready handler hread _ => exact h.ready hread _ _ handler
  | drained jsPoll jsResponse hhanded => exact h.drained hhanded jsPoll jsResponse

end Machine

/-! ## Along a run -/

section Run

variable {cfg : Config} {l : Llhttp} {y : Yuarel} {c : ConnId}

/-- A step adds what the callback left in the turn that it brings. -/
theorem results_step (s : Httpd) (is : List Os) (os : Os) :
    results cfg l y c s (is ++ [os]) = results cfg l y c s is ++
      ((turnOf cfg c (run (step cfg l y) s is) os).toList.flatMap
        (Session.left cfg l y (sessionOf c (run (step cfg l y) s is)))) := by
  unfold results
  have hview : run (Session.step cfg l y) (sessionOf c s) ((session cfg l y c).inputs s is) =
      sessionOf c (run (step cfg l y) s is) := ((session cfg l y c).run_view s is).symm
  rw [Component.inputs_append, outputsOf_append, hview, Component.inputs_cons,
    Component.inputs_nil, List.append_nil]
  have hturn : (session cfg l y c).input (run (step cfg l y) s is) os =
      turnOf cfg c (run (step cfg l y) s is) os := rfl
  rw [hturn]
  cases turnOf cfg c (run (step cfg l y) s is) os with
  | none => rfl
  | some turn => simp [outputsOf]

theorem run_told (serverfd : Nat) {is : List Os}
    (h : StepsOk (step cfg l y) (OneDispatch cfg l y) (start serverfd) is) :
    Inv (run (step cfg l y) (start serverfd) is) ∧ ∀ c,
      Told (results cfg l y c (start serverfd) is)
        (sessionOf c (run (step cfg l y) (start serverfd) is)) := by
  induction is using List.reverseRecOn with
  | nil =>
    refine ⟨start_inv serverfd, fun c => ?_⟩
    refine ⟨fun _ => ⟨rfl, rfl⟩, ?_, fun _ => rfl, rfl, ?_⟩
    · intro _ result hp
      cases hp
    · intro hgone
      cases hgone
  | append_singleton is os ih =>
    obtain ⟨hi, htold⟩ := ih h.left
    have hone : OneDispatch cfg l y (run (step cfg l y) (start serverfd) is) os := h.right.1
    rw [run_append, run_cons, run_nil]
    refine ⟨step_inv hi hone.stepOk, fun c => ?_⟩
    rw [results_step, sessionOf_step]
    cases hturn : turnOf cfg c (run (step cfg l y) (start serverfd) is) os with
    | none => simpa using htold c
    | some turn => simpa using (htold c).step (turnOf_ok hi hone hturn)

end Run

/-! ## The law -/

/-- A value that the wire carries whole: a status of three digits, headers that are
strings without a line end, and a body with no U+0000 inside. -/
structure HandlerResult.Plain (rt : Runtime) (v : HandlerResult) (status : Nat)
    (headers : List (JsString × JsString)) (body : JsString) : Prop where
  digits : 100 ≤ status ∧ status < 1000
  code : (v.statusCode.getD 200).toInt = status
  strings : v.HeadersAre headers
  oneLine : ∀ p ∈ keptHeaders headers, ¬ lineEnd <:+: stored p.1 ∧ ¬ lineEnd <:+: stored p.2
  text : rt.bodyText v.body = some body
  noNul : .char '\x00' ∉ body.dropLast

/-- The handler was polled to its end: the connection is gone, and no poll failed. -/
structure Session.Finished (t : Session) : Prop where
  gone : t.conn.life = .cleaned
  polled : ∃ result, .jsPolled result ∈ t.deeds
  succeeds : ∀ result, .jsPolled result ∈ t.deeds → 0 ≤ result

/-- What `__httpd_writeback` sends of such a value, as a client reads it. -/
theorem plain_is_read {rt : Runtime} {v : HandlerResult} {status : Nat}
    {headers : List (JsString × JsString)} {body : JsString}
    (hv : v.Plain rt status headers body) {r : Response}
    (hr : rt.handlerCb [v] Response.initial = some r) :
    ∃ ws, (httpdWriteback r).writes = some ws ∧ readHead [] ws.flatten =
      some (sentLines (decimal status) (keptHeaders headers), utf8 body ++ ascii "\r\n\r\n") := by
  obtain ⟨r', hr', hcompleted, hstatus, hstores⟩ := handlerCb_strings rt hv.strings
  obtain rfl := Option.some.inj (hr.symm.trans hr')
  obtain ⟨hbody, hlen⟩ := handlerCb_body rt hv.text hr
  have hwhole := bodyWrite_whole (nul_mem_utf8_dropLast hv.noNul) hbody hlen
  have hdigits : r.statusCode.toInt = status := by rw [hstatus, hv.code]
  obtain ⟨head, hhead, htext⟩ := headWrites_lines hstores
    (by rw [hdigits]; exact status_of_three_digits hv.digits.1 hv.digits.2)
  refine ⟨head ++ [utf8 body, ascii "\r\n\r\n"], ?_, ?_⟩
  · rw [httpdWriteback, if_pos hcompleted]
    simp only [Answer.writes, responseWrites, hhead, hwhole, Option.bind_eq_bind, Option.bind_some]
  · rw [List.flatten_append, htext]
    apply readHead_writeHead
    intro line hline
    refine ⟨sentLines_ne _ _ line hline, ?_⟩
    exact (sentLines_free_iff (decimal_ne_cr status) _).mpr hv.oneLine line hline

/-- In every run in which no call of llhttp sends a second message of its connection to
the handler: if the handler of a connection called back once, with such a value, and was
polled to its end, then all that the client got is one response, and it reads of it the
status, the first 16 headers in their order, and the body with an empty line after it. -/
theorem the_client_reads_what_the_handler_gave (cfg : Config) (l : Llhttp) (y : Yuarel)
    (serverfd : Nat) (is : List Os) (c : ConnId)
    (h : StepsOk (step cfg l y) (OneDispatch cfg l y) (start serverfd) is)
    (hended : (sessionOf c (run (step cfg l y) (start serverfd) is)).Finished)
    (rt : Runtime) (v : HandlerResult) (r : Response)
    (hr : rt.handlerCb [v] Response.initial = some r)
    (hcalled : results cfg l y c (start serverfd) is = [r]) (status : Nat)
    (headers : List (JsString × JsString)) (body : JsString)
    (hv : v.Plain rt status headers body) :
    ∃ text, (sessionOf c (run (step cfg l y) (start serverfd) is)).sent = some text ∧
      readHead [] text = some (sentLines (decimal status) (keptHeaders headers),
        utf8 body ++ ascii "\r\n\r\n") := by
  obtain ⟨-, htold⟩ := run_told serverfd h
  have hone := (htold c).answered hended.gone hended.polled hended.succeeds
  have hresponse := (htold c).response
  rw [hcalled] at hresponse
  obtain ⟨ws, hws, hread⟩ := plain_is_read hv hr
  refine ⟨ws.flatten, ?_, hread⟩
  unfold Session.sent
  rw [hone, hresponse]
  simp [hws]

/-- What the callback leaves for a result with one header, and a body. -/
def greeting : Response :=
  { Response.initial with
    completed := true, numHeaderFields := 1, bodyLen := 2, body := some (strdup (ascii "hi")),
    headerNames := some (strdup (ascii "X-Name")) :: List.replicate 15 none,
    headerValues := some (strdup (ascii "a")) :: List.replicate 15 none }

/-- One request for `/`, whose handler calls back in its second poll. -/
def greeted : List Os :=
  acceptAt 5 ++ receiveAt (getRequest "/") ++
    [Os.quiet, Os.quiet, { Os.quiet with jsPoll := 1 }, Os.quiet,
      { Os.quiet with jsResponse := some greeting }]

def Deed.pollResult : Deed → Option Int
  | .jsPolled result => some result
  | _ => none

theorem a_client_reads_the_greeting : ∃ text, (sessionOf 0
    (run (step { maxConns := 12, hasHandler := true } rootLlhttp slashYuarel) (start 3)
      greeted)).sent = some text ∧
    readHead [] text = some (sentLines (decimal 200) (keptHeaders [(js "X-Name", js "a")]),
      utf8 (js "hi") ++ ascii "\r\n\r\n") := by
  have hpolls : ∀ d ∈ (sessionOf 0 (run (step { maxConns := 12, hasHandler := true } rootLlhttp
      slashYuarel) (start 3) greeted)).deeds, ∀ result ∈ d.pollResult, 0 ≤ result := by
    decide +kernel
  refine the_client_reads_what_the_handler_gave _ _ _ _ _ _ (by decide +kernel)
    ⟨by decide +kernel, ⟨1, by decide +kernel⟩, fun result h => hpolls _ h result rfl⟩
    .quickjs (oneHeader "a" "hi") greeting (by decide +kernel) (by decide +kernel) 200 _ _
    ⟨by decide, by decide +kernel, rfl, by decide +kernel, rfl, by decide⟩

end isere.httpd
