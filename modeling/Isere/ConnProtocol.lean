-- The protocol of a connection: an automaton over what may happen to it, from its
-- accept to the end of its memory. Every run of the httpd task follows it on each of
-- its connections, and the place in the automaton tells the state of the memory.
import Isere.JsQueue
import Isere.Sessions

open cstring runs isere.uv isere.tcp

namespace isere.httpd

/-! ## The automaton -/

/-- How far a connection has come. Inside a call of `llhttp_execute` the parser works
for a `Status`: `gone` when the call itself ended the connection, and the parser with
it. `inside` tells that of an end that a callback makes. -/
inductive Stage
  | unborn
  | accepted
  | ready
  | inCall (st : Status)
  | heard (st : Status)
  | ended (st : Status)
  | handling
  | turn (result : Int)
  | answered (inside : Bool)
  | closing (inside : Bool)
  | freed (inside : Bool)
  deriving DecidableEq

/-- The callbacks answer with these. -/
def Answer.byCallback : Answer → Bool
  | .notFound | .bare => true
  | _ => false

/-- `__httpd_writeback` answers with these. -/
def Answer.byWriteback : Answer → Bool
  | .bare | .response _ => true
  | _ => false

/-- What llhttp reports to the parser of a connection. -/
def Stage.report (st : Status) (cb : Callback) : Stage :=
  if cb = .messageComplete then .ended st else .heard st

/-- What may happen at a stage, and the stage after it. -/
def Stage.next : Stage → Deed → Option Stage
  | .unborn, .accepted => some .accepted
  | .accepted, .polled => some .ready
  -- a poll of a connection that reads
  | .ready, .polled => some .ready
  | .ready, .callback cb => some (Stage.report .reading cb)
  | .ready, .wrote .tooLarge => some (.answered false)
  | .ready, .closed => some (.closing false)
  -- the callbacks of a call
  | .inCall .reading, .polled => some .ready
  | .inCall st, .callback cb => some (Stage.report st cb)
  | .inCall _, .closed => some (.closing false)
  | .heard st, .parser => some (.inCall st)
  | .ended .reading, .handler _ => some .handling
  | .ended _, .wrote a => if a.byCallback then some (.answered true) else none
  | .handling, .parser => some (.inCall .handed)
  -- the turns of the drain loop
  | .inCall .handed, .jsPolled result => some (.turn result)
  | .turn last, .jsPolled result => if 0 < last then some (.turn result) else none
  | .turn _, .wrote a => if a.byWriteback then some (.answered false) else none
  | .turn last, .closed => if last < 0 then some (.closing false) else none
  -- the end, which the parser of the call outlives
  | .answered inside, .closed => some (.closing inside)
  | .closing inside, .freed => some (.freed inside)
  | .freed true, .parser => some (.inCall .gone)
  | _, _ => none

def Stage.follow (st : Stage) (ds : List Deed) : Option Stage := ds.foldlM Stage.next st

/-- The states of a connection between two steps of the task. -/
def HttpdConn.status (conn : HttpdConn) : Option Status :=
  match conn.life, conn.jsInitialized with
  | .live, false => some .reading
  | .live, true => some .handed
  | .cleaned, false => some .gone
  | _, _ => none

/-- The state of a connection that rests at a stage. -/
def Stage.rest : Stage → Option Status
  | .accepted | .ready => some .reading
  | .inCall st => some st
  | .turn last => if 0 < last then some .handed else none
  | .freed false => some .gone
  | _ => none

/-- The history leads to the stage, and the memory is as the stage says. -/
structure Session.At (t : Session) (stage : Stage) (st : Status) : Prop where
  deeds : Stage.unborn.follow t.deeds = some stage
  rest : stage.rest = some st
  conn : t.conn.status = some st

/-- The history follows the protocol. -/
def Session.Follows (t : Session) : Prop :=
  (t.deeds = [] ∧ t.conn.life = .fresh) ∨ ∃ stage st, t.At stage st

@[simp] theorem follow_cons (stage : Stage) (d : Deed) (ds : List Deed) :
    stage.follow (d :: ds) = (stage.next d).bind (fun stage => stage.follow ds) := rfl

@[simp] theorem follow_nil (stage : Stage) : stage.follow [] = some stage := rfl

theorem follow_append {stage stage' : Stage} {ds : List Deed} (h : stage.follow ds = some stage')
    (es : List Deed) : stage.follow (ds ++ es) = stage'.follow es := by
  unfold Stage.follow at h ⊢
  rw [List.foldlM_append, h, Option.bind_eq_bind, Option.bind_some]

/-! ## The ends of a connection -/

section Turn

variable {cfg : Config} {l : Llhttp} {y : Yuarel} {t : Session} {stage : Stage} {st : Status}

theorem follow_log (h : Stage.unborn.follow t.deeds = some stage) {d : Deed} {stage' : Stage}
    (hd : stage.next d = some stage') : Stage.unborn.follow (t.log d).deeds = some stage' := by
  simp only [Session.log]
  rw [follow_append h]
  simp only [follow_cons, hd, Option.bind_some, follow_nil]

/-- The end of a connection, from where the protocol allows it. -/
theorem cleanup_follows (h : Stage.unborn.follow t.deeds = some stage)
    (hc : stage.next .closed = some (.closing false)) : t.cleanup.At (.freed false) .gone := by
  refine ⟨?_, rfl, rfl⟩
  simp only [Session.cleanup]
  rw [follow_append h, follow_cons, hc]
  rfl

/-- The end of a connection after its answer. -/
theorem answer_follows (h : Stage.unborn.follow t.deeds = some stage) {a : Answer}
    (ha : stage.next (.wrote a) = some (.answered false)) :
    (t.log (.wrote a)).cleanup.At (.freed false) .gone :=
  cleanup_follows (follow_log h ha) rfl

theorem status_reading_iff {conn : HttpdConn} :
    conn.status = some .reading ↔ conn.life = .live ∧ conn.jsInitialized = false := by
  unfold HttpdConn.status
  cases conn.life <;> cases conn.jsInitialized <;> simp

theorem status_handed_iff {conn : HttpdConn} :
    conn.status = some .handed ↔ conn.life = .live ∧ conn.jsInitialized = true := by
  unfold HttpdConn.status
  cases conn.life <;> cases conn.jsInitialized <;> simp

/-! ## The callbacks of a call -/

/-- The stage is inside of a call, or right before one, and the parser works for `st`. -/
structure InCall (t : Session) (stage : Stage) (st : Status) : Prop extends t.At stage st where
  report : ∀ cb, stage.next (.callback cb) = some (Stage.report st cb)
  close : stage.next .closed = some (.closing false)

theorem inCall_of_at (h : t.At (.inCall st) st) : InCall t (.inCall st) st where
  toAt := h
  report cb := by cases st <;> rfl
  close := by cases st <;> rfl

/-- A callback inside a message. -/
theorem piece_follows (h : InCall t stage st) (handler : Nat → Option Response) {cb : Callback}
    (hcb : cb ≠ .messageComplete) :
    InCall (t.onCallback cfg y handler cb) (.inCall st) st ∧
      (t.onCallback cfg y handler cb).conn.req = t.conn.req.onCallback y cb := by
  have heq : t.onCallback cfg y handler cb =
      { conn := { t.conn with req := t.conn.req.onCallback y cb },
        deeds := t.deeds ++ [.callback cb, .parser] } := by
    cases cb <;> simp [Session.onCallback, Session.log] at hcb ⊢
  rw [heq]
  refine ⟨inCall_of_at ⟨?_, rfl, h.conn⟩, rfl⟩
  rw [follow_append h.deeds, follow_cons, h.report, Stage.report, if_neg hcb]
  rfl

/-- A message that goes to the handler. -/
theorem dispatch_follows (h : InCall t stage .reading) (handler : Nat → Option Response)
    (hd : cfg.dispatches t.conn.req = true) :
    InCall (t.onCallback cfg y handler .messageComplete) (.inCall .handed) .handed ∧
      (t.onCallback cfg y handler .messageComplete).conn.req = t.conn.req := by
  simp only [Config.dispatches, Bool.and_eq_true, Bool.not_eq_true'] at hd
  have heq : t.onCallback cfg y handler .messageComplete =
      ((t.log (.callback .messageComplete)).dispatch handler).log .parser := by
    simp [Session.onCallback, Session.onMessageComplete, Session.log, hd]
  rw [heq]
  refine ⟨inCall_of_at ⟨?_, rfl, ?_⟩, rfl⟩
  · simp only [Session.log, Session.dispatch, List.append_assoc]
    rw [follow_append h.deeds, List.singleton_append, follow_cons, h.report]
    rfl
  · have hlive := (status_reading_iff.mp h.conn).1
    simp [Session.log, Session.dispatch, HttpdConn.status, hlive]

/-- A message that is answered inside the callback. -/
theorem answered_follows (h : InCall t stage st) (handler : Nat → Option Response)
    (hd : cfg.dispatches t.conn.req = false) :
    InCall (t.onCallback cfg y handler .messageComplete) (.inCall .gone) .gone ∧
      (t.onCallback cfg y handler .messageComplete).conn.req = t.conn.req := by
  have heq : ∃ a, a.byCallback = true ∧ t.onCallback cfg y handler .messageComplete =
      (((t.log (.callback .messageComplete)).log (.wrote a)).cleanup).log .parser := by
    simp only [Config.dispatches, Bool.and_eq_false_iff, Bool.not_eq_false'] at hd
    by_cases hn : t.conn.req.notFound = true
    · exact ⟨.notFound, rfl,
        by simp [Session.onCallback, Session.onMessageComplete, Session.log, hn]⟩
    · have hh : cfg.hasHandler = false := hd.resolve_right hn
      exact ⟨.bare, rfl,
        by simp [Session.onCallback, Session.onMessageComplete, Session.log, hn, hh]⟩
  obtain ⟨a, ha, heq⟩ := heq
  rw [heq]
  refine ⟨inCall_of_at ⟨?_, rfl, rfl⟩, rfl⟩
  simp only [Session.log, Session.cleanup, List.append_assoc]
  rw [follow_append h.deeds, List.singleton_append, follow_cons, h.report]
  have hwrote : (Stage.ended st).next (.wrote a) = some (.answered true) := by
    cases st <;> simp only [Stage.next, ha, ↓reduceIte]
  simp only [Stage.report, ↓reduceIte, Option.bind_some, List.cons_append, follow_cons, hwrote]
  rfl

/-- The callbacks of a call lead to where its messages leave the connection. -/
theorem callbacks_follow (handler : Nat → Option Response) {cbs : List Callback}
    (h : InCall t stage st) (hok : st.Allows anyMode (cfg.ends y t.conn.req cbs)) :
    ∃ stage', InCall (cbs.foldl (Session.onCallback cfg y handler) t) stage'
      (st.after (cfg.ends y t.conn.req cbs)) := by
  -- on the callbacks: only the end of a message moves the status, and what is
  -- allowed after it is what is left of the ends
  induction cbs generalizing t stage st with
  | nil => exact ⟨stage, h⟩
  | cons cb cbs ih =>
    rw [List.foldl_cons]
    by_cases hcb : cb = .messageComplete
    · subst hcb
      simp only [Config.ends] at hok ⊢
      cases hd : cfg.dispatches t.conn.req with
      | true =>
        rw [hd] at hok
        cases st with
        | reading =>
          obtain ⟨hgo, hreq⟩ := dispatch_follows (y := y) h handler hd
          rw [← hreq] at hok ⊢
          exact ih hgo hok
        | handed => exact hok.elim
        | gone => exact hok.elim
      | false =>
        rw [hd] at hok
        obtain ⟨hgone, hreq⟩ := answered_follows (y := y) h handler hd
        rw [← hreq] at hok ⊢
        cases st with
        | reading => exact ih hgone hok.2
        | handed => exact ih hgone hok.2
        | gone => exact ih hgone hok.2
    · obtain ⟨hpiece, hreq⟩ : InCall (t.onCallback cfg y handler cb) (.inCall st) st ∧ _ :=
        piece_follows h handler hcb
      rw [ends_piece cfg y _ hcb, ← hreq] at hok ⊢
      exact ih hpiece hok

/-! ## The turns of a connection -/

theorem rest_reading {stage : Stage} (h : stage.rest = some .reading) :
    stage.next .polled = some .ready := by
  cases stage with
  | accepted => rfl
  | ready => rfl
  | inCall st =>
    obtain rfl : st = .reading := Option.some.inj h
    rfl
  | turn last =>
    simp only [Stage.rest] at h
    split at h <;> cases h
  | freed inside => cases inside <;> cases h
  | _ => cases h

theorem rest_handed {stage : Stage} (h : stage.rest = some .handed) (result : Int) :
    stage.next (.jsPolled result) = some (.turn result) := by
  cases stage with
  | inCall st =>
    obtain rfl : st = .handed := Option.some.inj h
    rfl
  | turn last =>
    simp only [Stage.rest] at h
    split at h
    · rename_i hlast
      simp only [Stage.next, hlast, ↓reduceIte]
    · cases h
  | freed inside => cases inside <;> cases h
  | _ => cases h

/-- A poll of a connection that waits for its request. -/
theorem polled_follows (h : t.At stage .reading) : InCall (t.log .polled) .ready .reading where
  deeds := follow_log h.deeds (rest_reading h.rest)
  rest := rfl
  conn := h.conn
  report _ := rfl
  close := rfl

/-- What llhttp may report of the bytes that a poll gives it. -/
def ReadOk (cfg : Config) (l : Llhttp) (y : Yuarel) (conn : HttpdConn) (events : Events)
    (recv : Recv) : Prop :=
  ∀ avail, recv = .data avail → events &&& UV_POLLIN = UV_POLLIN →
    avail.take ISERE_HTTPD_LINE_BUFFER_LEN ≠ [] →
    ¬conn.recvd + (avail.take ISERE_HTTPD_LINE_BUFFER_LEN).length >
      ISERE_HTTPD_MAX_HTTP_REQUEST_LEN →
    Status.reading.Allows anyMode (cfg.ends y conn.req
      (l.execute conn.fed (avail.take ISERE_HTTPD_LINE_BUFFER_LEN)).1)

theorem onPoll_follows (h : t.At stage .reading) {events : Events} {recv : Recv}
    (hok : ReadOk cfg l y t.conn events recv) (handler : Nat → Option Response) :
    ∃ stage' st', (t.onPoll cfg l y events recv handler).At stage' st' := by
  unfold Session.onPoll
  by_cases hev : events &&& UV_POLLIN = UV_POLLIN
  · rw [if_neg (by simpa using hev)]
    have hpolled := polled_follows h
    cases recv with
    | eintr => exact ⟨_, _, hpolled.toAt⟩
    | error => exact ⟨_, _, cleanup_follows hpolled.deeds hpolled.close⟩
    | data avail =>
      simp only
      split
      · exact ⟨_, _, cleanup_follows hpolled.deeds hpolled.close⟩
      · rename_i hne
        split
        · exact ⟨_, _, answer_follows hpolled.deeds rfl⟩
        · rename_i hlen
          have hallows := hok avail rfl hev hne hlen
          unfold Session.execute
          generalize avail.take ISERE_HTTPD_LINE_BUFFER_LEN = chunk at hallows ⊢
          have hfed : InCall { t.log .polled with conn := { (t.log .polled).conn with
              fed := (t.log .polled).conn.fed ++ [chunk] } } .ready .reading :=
            { hpolled with }
          obtain ⟨stage', hcalls⟩ := callbacks_follow (y := y) handler hfed hallows
          simp only
          split
          · exact ⟨_, _, cleanup_follows hcalls.deeds hcalls.close⟩
          · exact ⟨_, _, hcalls.toAt⟩
  · rw [if_pos hev]
    exact ⟨stage, .reading, h⟩

theorem polling_follows (h : t.At stage .handed) (jsPoll : Int) (jsResponse : Option Response) :
    ∃ stage' st', (t.polling jsPoll jsResponse).At stage' st' := by
  have hturn : Stage.unborn.follow (t.log (.jsPolled jsPoll)).deeds = some (.turn jsPoll) :=
    follow_log h.deeds (rest_handed h.rest jsPoll)
  unfold Session.polling
  simp only
  split
  · rename_i hgoes
    split
    · rename_i hneg
      refine ⟨_, _, cleanup_follows hturn ?_⟩
      simp only [Stage.next, hneg, ↓reduceIte]
    · rename_i hpos
      have hagain : (Stage.turn jsPoll).rest = some .handed := by
        simp only [Stage.rest, show 0 < jsPoll by omega, ↓reduceIte]
      exact ⟨_, _, hturn, hagain, h.conn⟩
  · have hwrote : ∀ r, (Stage.turn jsPoll).next (.wrote (httpdWriteback r)) =
        some (.answered false) := by
      intro r
      unfold httpdWriteback
      split <;> rfl
    exact ⟨_, _, answer_follows (by exact hturn) (hwrote _)⟩

end Turn

/-! ## A step of the task -/

section Step

variable {cfg : Config} {l : Llhttp} {y : Yuarel}

/-- The turns that a connection can have, by its state. -/
inductive TurnAllowed (cfg : Config) (l : Llhttp) (y : Yuarel) (conn : HttpdConn) : Turn → Prop
  | accepted (fd : Int) (h : conn.life = .fresh) : TurnAllowed cfg l y conn (.accepted fd)
  | ready {events : Events} {recv : Recv} (handler : Nat → Option Response)
      (h : conn.status = some .reading) (hok : ReadOk cfg l y conn events recv) :
      TurnAllowed cfg l y conn (.ready events recv handler)
  | drained (jsPoll : Int) (jsResponse : Option Response) (h : conn.status = some .handed) :
      TurnAllowed cfg l y conn (.drained jsPoll jsResponse)

theorem turnOf_ok {s : Httpd} {os : Os} {c : ConnId} (hi : Inv s)
    (hone : OneDispatch cfg l y s os) {turn : Turn} (h : turnOf cfg c s os = some turn) :
    TurnAllowed cfg l y (s.conns c) turn := by
  unfold turnOf at h
  cases hphase : s.phase with
  | loop => simp [hphase] at h
  | drain => simp [hphase] at h
  | exited => simp [hphase] at h
  | polling d =>
    simp only [hphase] at h
    split at h
    · rename_i hd
      subst hd
      obtain ⟨q, hq⟩ := hi.queue
      obtain rfl := Option.some.inj h
      exact .drained _ _ (status_handed_iff.mpr ⟨hi.taken_live hphase, (hq.taken d hphase).1⟩)
    · cases h
  | iterating i =>
    simp only [hphase] at h
    cases hcall : (uvPollSlot s.loop i).2 with
    | none => simp [hcall] at h
    | some r =>
      obtain ⟨w, events⟩ := r
      rw [hcall] at h
      cases w with
      | server =>
        simp only at h
        split at h
        · rename_i hc
          obtain ⟨rfl, -⟩ := hc
          obtain rfl := Option.some.inj h
          exact .accepted _ hi.conns.next_fresh.1
        · cases h
      | conn d =>
        simp only at h
        split at h
        · rename_i hd
          subst hd
          obtain rfl := Option.some.inj h
          obtain ⟨pe, -, -, hw⟩ := uvPollSlot_calls hcall
          refine .ready _ (status_reading_iff.mpr (hi.conns.watched _ d hw)) ?_
          intro avail hrecv hev hne hlen
          refine (OneDispatch.stepOk hone { conn := d, cbs := _, err := (l.execute (s.conns d).fed
            (avail.take ISERE_HTTPD_LINE_BUFFER_LEN)).2 } ?_).1
          simp only [Option.mem_def, parserCall, hphase, hrecv, hcall]
          rw [if_neg]
          rintro (hno | hno | hno)
          · exact hno hev
          · exact hne hno
          · exact hlen hno
        · cases h

/-- A turn that a connection can have follows the protocol. -/
theorem turn_follows {t : Session} (h : t.Follows) {turn : Turn}
    (hok : TurnAllowed cfg l y t.conn turn) : (t.step cfg l y turn).Follows := by
  rcases h with ⟨hnew, hfresh⟩ | ⟨stage, st, h⟩
  · cases hok with
    | accepted fd _ =>
      refine Or.inr ⟨.accepted, .reading, ?_, rfl, rfl⟩
      simp only [Session.step, hnew]
      rfl
    | ready _ hread _ => simp [(status_reading_iff.mp hread).1] at hfresh
    | drained _ _ hhanded => simp [(status_handed_iff.mp hhanded).1] at hfresh
  · cases hok with
    | accepted fd hfresh =>
      have hno := h.conn
      simp [HttpdConn.status, hfresh] at hno
    | ready handler hread hok =>
      obtain rfl := Option.some.inj (h.conn.symm.trans hread)
      exact Or.inr (onPoll_follows h hok handler)
    | drained jsPoll jsResponse hhanded =>
      obtain rfl := Option.some.inj (h.conn.symm.trans hhanded)
      exact Or.inr (polling_follows h jsPoll jsResponse)

end Step

/-! ## The law -/

theorem run_follows {cfg : Config} {l : Llhttp} {y : Yuarel} (serverfd : Nat) {is : List Os}
    (h : StepsOk (step cfg l y) (OneDispatch cfg l y) (start serverfd) is) (c : ConnId) :
    (sessionOf c (run (step cfg l y) (start serverfd) is)).Follows := by
  suffices hall : Inv (run (step cfg l y) (start serverfd) is) ∧
      ∀ c, (sessionOf c (run (step cfg l y) (start serverfd) is)).Follows from hall.2 c
  refine run_inv (I := fun s => Inv s ∧ ∀ c, (sessionOf c s).Follows) ?_ ⟨start_inv serverfd, ?_⟩ h
  · rintro s os ⟨hi, hall⟩ hone
    refine ⟨step_inv hi hone.stepOk, fun c => ?_⟩
    rw [sessionOf_step]
    cases hturn : turnOf cfg c s os with
    | none => exact hall c
    | some turn => exact turn_follows (hall c) (turnOf_ok hi hone hturn)
  · exact fun c => Or.inl ⟨rfl, rfl⟩

/-- In every run in which no call of llhttp sends a second message of its connection to
the handler, the history of each connection follows the protocol, and the stage that it
leads to tells the state of the connection. -/
theorem every_connection_follows_the_protocol (cfg : Config) (l : Llhttp) (y : Yuarel)
    (serverfd : Nat) (is : List Os)
    (h : StepsOk (step cfg l y) (OneDispatch cfg l y) (start serverfd) is) (c : ConnId) :
    (sessionOf c (run (step cfg l y) (start serverfd) is)).Follows :=
  run_follows serverfd h c

theorem a_request_follows_the_protocol : (sessionOf 0
    (run (step { maxConns := 12, hasHandler := true } rootLlhttp slashYuarel) (start 3)
      (acceptAt 5 ++ receiveAt (getRequest "/")))).Follows :=
  every_connection_follows_the_protocol _ _ _ _ _ (by decide +kernel) 0

end isere.httpd
