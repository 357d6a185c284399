-- Each step of the httpd task is made of the effects, as long as what llhttp
-- reports in the step meets a condition. So what every effect keeps, every run
-- keeps.
import Isere.HttpdInvariant

open cstring intrusive isere.tcp isere.uv runs Relation

namespace isere.httpd

/-! ## What llhttp reports in a step -/

/-- A call of `llhttp_execute`: the connection, the callbacks and the result. -/
structure Call where
  conn : ConnId
  cbs : List Callback
  err : LlhttpErrno

/-- The call of `llhttp_execute` in a step, if the step makes one. -/
def parserCall (l : Llhttp) (s : Httpd) (os : Os) : Option Call :=
  match s.phase, os.recv with
  | .iterating i, .data avail =>
    match (uvPollSlot s.loop i).2 with
    | some (.conn c, events) =>
      let chunk := avail.take ISERE_HTTPD_LINE_BUFFER_LEN
      if events &&& UV_POLLIN ≠ UV_POLLIN ∨ chunk = [] ∨
          (s.conns c).recvd + chunk.length > ISERE_HTTPD_MAX_HTTP_REQUEST_LEN then none
      else
        let r := l.execute (s.conns c).fed chunk
        some { conn := c, cbs := r.1, err := r.2 }
    | _ => none
  | _, _ => none

/-- The messages that end among the callbacks, in order: does each go to the
handler? The rest of them is answered inside the callback. -/
def Config.ends (cfg : Config) (y : Yuarel) (r : Request) : List Callback → List Bool
  | [] => []
  | .messageComplete :: cbs => cfg.dispatches r :: cfg.ends y r cbs
  | cb :: cbs => cfg.ends y (r.onCallback y cb) cbs

theorem ends_piece (cfg : Config) (y : Yuarel) (r : Request) {cb : Callback}
    (hcb : cb ≠ .messageComplete) (cbs : List Callback) :
    cfg.ends y r (cb :: cbs) = cfg.ends y (r.onCallback y cb) cbs := by
  cases cb <;> first | rfl | exact absurd rfl hcb

/-- Where a connection stands: it reads its request, its request went to the
handler, or it is gone. -/
inductive Status
  | reading
  | handed
  | gone
  deriving DecidableEq

def Status.At (s : Httpd) (c : ConnId) : Status → Prop
  | .reading => Reading s c
  | .handed => (s.conns c).life = .live ∧ (s.conns c).jsInitialized = true
  | .gone => (s.conns c).life = .cleaned ∧ (s.conns c).jsInitialized = false

/-- Where the messages that end leave a connection. -/
def Status.after : Status → List Bool → Status
  | st, [] => st
  | _, true :: ends => Status.after .handed ends
  | _, false :: ends => Status.after .gone ends

/-- The messages may end on a connection. Only the first of them goes to the
handler. -/
def Status.Allows (m : Mode) : Status → List Bool → Prop
  | _, [] => True
  | .reading, true :: ends => Status.Allows m .handed ends
  | _, true :: _ => False
  | .gone, false :: ends => m.again = true ∧ Status.Allows m .gone ends
  | _, false :: ends => m.stale = true ∧ Status.Allows m .gone ends

/-- llhttp may fail after a call that leaves a connection so. -/
def Status.MayFail (m : Mode) : Status → Prop
  | .reading => True
  | .handed => m.lateError = true
  | .gone => m.twice = true

/-- What a call may report on a connection that reads. -/
def CallOk (m : Mode) (ends : List Bool) (err : LlhttpErrno) : Prop :=
  Status.reading.Allows m ends ∧ (err ≠ .HPE_OK → (Status.reading.after ends).MayFail m)

/-- What llhttp reports in the step is allowed. -/
def StepOk (cfg : Config) (l : Llhttp) (y : Yuarel) (m : Mode) (s : Httpd) (os : Os) : Prop :=
  ∀ k ∈ parserCall l s os, CallOk m (cfg.ends y (s.conns k.conn).req k.cbs) k.err

/-! ## A call -/

section Call

variable {cfg : Config} {y : Yuarel} {m : Mode} {s : Httpd} {c : ConnId} {i : Nat}

theorem Status.At.hears {st : Status} (h : st.At s c) (hm : st = .gone → m.stale = true) :
    Hears m s c := by
  cases st with
  | reading => exact Or.inl h.1
  | handed => exact Or.inl h.1
  | gone => exact Or.inr ⟨hm rfl, h.1⟩

/-- A callback inside a message only changes the request. -/
theorem piece_effect (cfg : Config) (y : Yuarel) (os : Os) {cb : Callback}
    (hcb : cb ≠ .messageComplete) {st : Status} (h : st.At s c) :
    (onCallback cfg y c os s cb).phase = s.phase ∧ st.At (onCallback cfg y c os s cb) c ∧
      ((onCallback cfg y c os s cb).conns c).req = (s.conns c).req.onCallback y cb := by
  rw [onCallback_piece cfg y c os s hcb]
  cases st <;> simpa [Status.At, Reading, Httpd.setReq] using h

/-- A message that goes to the handler. -/
theorem dispatch_effect (os : Os) (hd : cfg.dispatches (s.conns c).req = true)
    (h : Reading s c) :
    (onCallback cfg y c os s .messageComplete).phase = s.phase ∧
      Status.handed.At (onCallback cfg y c os s .messageComplete) c ∧
      ((onCallback cfg y c os s .messageComplete).conns c).req = (s.conns c).req := by
  rw [onCallback_dispatch cfg y c os s hd]
  simpa [Status.At] using h.1

/-- A message that is answered inside the callback. -/
theorem answer_effect (os : Os) (hd : cfg.dispatches (s.conns c).req = false) :
    (onCallback cfg y c os s .messageComplete).phase = s.phase ∧
      Status.gone.At (onCallback cfg y c os s .messageComplete) c ∧
      ((onCallback cfg y c os s .messageComplete).conns c).req = (s.conns c).req := by
  obtain ⟨a, -, heq⟩ := onCallback_answer cfg y c os s hd
  rw [heq]
  simp [Status.At]

/-- The callbacks of a call, as effects. -/
theorem callbacks_star (st : Status) (os : Os) {cbs : List Callback} (hs : s.phase = .iterating i)
    (hst : st.At s c) (hm : st = .gone → m.stale = true)
    (hok : st.Allows m (cfg.ends y (s.conns c).req cbs)) :
    ReflTransGen (Trans cfg y m) s (cbs.foldl (onCallback cfg y c os) s) ∧
      (cbs.foldl (onCallback cfg y c os) s).phase = .iterating i ∧
      (st.after (cfg.ends y (s.conns c).req cbs)).At (cbs.foldl (onCallback cfg y c os) s) c := by
  -- on the callbacks: only the end of a message moves the status, and what is
  -- allowed after it is what is left of the ends
  induction cbs generalizing s st with
  | nil => exact ⟨.refl, hs, hst⟩
  | cons cb cbs ih =>
    rw [List.foldl_cons]
    by_cases hcb : cb = .messageComplete
    · subst hcb
      simp only [Config.ends] at hok ⊢
      cases hd : cfg.dispatches (s.conns c).req with
      | true =>
        rw [hd] at hok
        cases st with
        | reading =>
          obtain ⟨hp, hst', hr⟩ := dispatch_effect (y := y) os hd hst
          rw [← hr] at hok ⊢
          obtain ⟨hstar, hrest⟩ := ih _ (hp.trans hs) hst' (by simp) hok
          exact ⟨.head (.dispatched os hs hst hd) hstar, hrest⟩
        | handed => exact hok.elim
        | gone => exact hok.elim
      | false =>
        rw [hd] at hok
        obtain ⟨hp, hst', hr⟩ := answer_effect (y := y) os hd
        rw [← hr] at hok ⊢
        cases st with
        | reading =>
          obtain ⟨hstar, hrest⟩ := ih _ (hp.trans hs) hst' (fun _ => hok.1) hok.2
          exact ⟨.head (.answered os hs (Or.inl hst.1) hd hok.1) hstar, hrest⟩
        | handed =>
          obtain ⟨hstar, hrest⟩ := ih _ (hp.trans hs) hst' (fun _ => hok.1) hok.2
          exact ⟨.head (.answered os hs (Or.inl hst.1) hd hok.1) hstar, hrest⟩
        | gone =>
          obtain ⟨hstar, hrest⟩ := ih _ (hp.trans hs) hst' hm hok.2
          exact ⟨.head (.answered os hs (Or.inr ⟨hok.1, hst.1⟩) hd (hm rfl)) hstar, hrest⟩
    · obtain ⟨hp, hst', hr⟩ := piece_effect cfg y os hcb hst
      rw [ends_piece cfg y _ hcb, ← hr] at hok ⊢
      obtain ⟨hstar, hrest⟩ := ih _ (hp.trans hs) hst' hm hok
      exact ⟨.head (.piece os hs hcb (hst.hears hm)) hstar, hrest⟩

end Call

/-! ## A step -/

section Step

variable {cfg : Config} {l : Llhttp} {y : Yuarel} {m : Mode}

/-- The call of `llhttp_execute` that gives a parser its next chunk. -/
theorem llhttpExecute_star {s : Httpd} {c : ConnId} {i : Nat} {chunk : Bytes} (os : Os)
    (hs : s.phase = .iterating i) (hc : Reading s c)
    (hok : CallOk m (cfg.ends y (s.conns c).req (l.execute (s.conns c).fed chunk).1)
      (l.execute (s.conns c).fed chunk).2) :
    let r := llhttpExecute cfg l y s c os chunk
    ReflTransGen (Trans cfg y m) s r.1 ∧ r.1.phase = .iterating i ∧
      (r.2 ≠ .HPE_OK → Trans cfg y m r.1 (httpdCleanupConn r.1 c)) := by
  have hfed : Trans cfg y m s
      (s.setConn c { s.conns c with fed := (s.conns c).fed ++ [chunk] }) := .fed chunk hs hc
  have hread : Reading (s.setConn c { s.conns c with fed := (s.conns c).fed ++ [chunk] }) c := by
    simpa [Reading] using hc
  obtain ⟨hstar, hphase, hafter⟩ := callbacks_star (m := m) .reading os (by exact hs) hread
    (by simp) (by simpa using hok.1)
  refine ⟨.head hfed hstar, hphase, fun herr => ?_⟩
  have hmay := hok.2 herr
  simp only [setConn_conns, ↓reduceIte] at hafter
  cases hst : Status.reading.after
      (cfg.ends y (s.conns c).req (l.execute (s.conns c).fed chunk).1) with
  | reading =>
    rw [hst] at hafter
    exact .dropped hphase (Or.inl hafter.1) (fun h => absurd (hafter.2.symm.trans h) (by simp))
  | handed =>
    rw [hst] at hafter hmay
    exact .dropped hphase (Or.inl hafter.1) (fun _ => hmay)
  | gone =>
    rw [hst] at hafter hmay
    exact .dropped hphase (Or.inr ⟨hmay, hafter.1⟩)
      (fun h => absurd (hafter.2.symm.trans h) (by simp))

/-- `__on_poll` for a connection that reads. -/
theorem onPoll_star {s : Httpd} {c : ConnId} {i : Nat} {events : Events} (os : Os)
    (hs : s.phase = .iterating i) (hc : Reading s c)
    (hk : ∀ avail, os.recv = .data avail → avail.take ISERE_HTTPD_LINE_BUFFER_LEN ≠ [] →
      ¬(s.conns c).recvd + (avail.take ISERE_HTTPD_LINE_BUFFER_LEN).length >
        ISERE_HTTPD_MAX_HTTP_REQUEST_LEN →
      events &&& UV_POLLIN = UV_POLLIN →
      CallOk m (cfg.ends y (s.conns c).req
          (l.execute (s.conns c).fed (avail.take ISERE_HTTPD_LINE_BUFFER_LEN)).1)
        (l.execute (s.conns c).fed (avail.take ISERE_HTTPD_LINE_BUFFER_LEN)).2) :
    ReflTransGen (Trans cfg y m) s (onPoll cfg l y s c events os) := by
  unfold onPoll
  by_cases hev : events &&& UV_POLLIN = UV_POLLIN
  · simp only [hev, ne_eq, not_true_eq_false, ↓reduceIte]
    have hpolled : Trans cfg y m s (s.log (.polled c)) := .polled hs hc
    have hdrop : Trans cfg y m (s.log (.polled c)) (httpdCleanupConn (s.log (.polled c)) c) :=
      .dropped hs (Or.inl hc.1) (fun h => by simp [hc.2] at h)
    cases hrecv : os.recv with
    | eintr => exact .single hpolled
    | error => exact .head hpolled (.single hdrop)
    | data avail =>
      simp only
      split
      · exact .head hpolled (.single hdrop)
      · rename_i hne
        split
        · exact .head hpolled (.single (.tooLarge hs hc))
        · rename_i hlen
          obtain ⟨hstar, -, hafter⟩ := llhttpExecute_star (l := l) (s := s.log (.polled c)) os
            hs hc (hk avail hrecv hne hlen hev)
          refine .head hpolled (hstar.trans ?_)
          split
          · rename_i herr
            exact .single (hafter herr)
          · exact .refl
  · simp only [ne_eq, hev, not_false_eq_true, ↓reduceIte]
    exact .refl

theorem onConnected_star {s : Httpd} {i : Nat} (hs : s.phase = .iterating i) (events : Events)
    (os : Os) : ReflTransGen (Trans cfg y m) s (onConnected cfg s events os) := by
  rcases onConnected_cases cfg s events os with h | ⟨hlim, hfd, h⟩
  · rw [h]
  · rw [h]
    exact .single (.admitted hs hlim hfd)

theorem afterPoll_notPolling (cfg : Config) (c : ConnId) : afterPoll cfg ≠ .polling c := by
  unfold afterPoll
  split <;> simp

theorem afterPoll_notIterating (cfg : Config) (i : Nat) : afterPoll cfg ≠ .iterating i := by
  unfold afterPoll
  split <;> simp

/-- A poll slot calls the connection only while it reads. -/
theorem slotStep_star {s : Httpd} {i : Nat} {os : Os} (hi : Inv s) (hs : s.phase = .iterating i)
    (hok : StepOk cfg l y m s os) : ReflTransGen (Trans cfg y m) s (slotStep cfg l y s i os) := by
  have hs' : ∀ c, s.phase ≠ .polling c := by simp [hs]
  unfold slotStep
  split
  · exact .single (.table ⟨rfl, rfl, fun _ => rfl, fun _ => rfl⟩ hs' (afterPoll_notPolling cfg))
  · have htable : Trans cfg y m s
        { s with loop := (uvPollSlot s.loop i).1, phase := .iterating (i + 1) } :=
      .table (uvPollSlot_same s.loop i) hs' (by simp)
    simp only
    cases hcall : (uvPollSlot s.loop i).2 with
    | none => exact .single htable
    | some r =>
      obtain ⟨w, events⟩ := r
      refine .head htable ?_
      cases w with
      | server =>
        exact onConnected_star rfl events os
      | conn c =>
        obtain ⟨pe, -, -, hw⟩ := uvPollSlot_calls hcall
        refine onPoll_star os rfl (hi.conns.watched _ c hw) ?_
        intro avail hrecv hne hlen hev
        refine hok { conn := c, cbs := _, err := _ } ?_
        simp only [Option.mem_def, parserCall, hs, hrecv, hcall]
        rw [if_neg]
        rintro (h | h | h)
        · exact h hev
        · exact hne h
        · exact hlen h

/-- The head of the drain loop, with an empty queue. -/
theorem drainStep_empty {s : Httpd} (hq : QueueIs s []) :
    drainStep s = { s with phase := .loop } := by
  unfold drainStep
  rw [if_pos ((uvQueueEmpty_iff hq.ring).mpr rfl)]

/-- The head of the drain loop takes the first connection of the queue. -/
theorem drainStep_take {s : Httpd} (hi : Inv s) {c : ConnId} {q : List ConnId}
    (hq : QueueIs s (c :: q)) : drainStep s = { s with
      jsQueue := uvQueueInit (uvQueueRemove s.jsQueue (.conn c)) (.conn c),
      phase := .polling c } := by
  have hhead : uvQueueHead s.jsQueue .head = .conn c := hq.ring.next_head
  have hfd : (s.conns c).fd ≠ -1 := by
    have := hi.conns.fd c (hi.conns.js c ((hq.mem c).mp (by simp)).1)
    omega
  unfold drainStep
  rw [if_neg (by rw [uvQueueEmpty_iff hq.ring]; simp)]
  simp only [hhead, hfd, ↓reduceIte]

theorem drainStep_star {s : Httpd} (hi : Inv s) (hs : s.phase = .drain) :
    ReflTransGen (Trans cfg y m) s (drainStep s) := by
  obtain ⟨q, hq⟩ := hi.queue
  cases q with
  | nil =>
    rw [drainStep_empty hq]
    exact .single (.table (SameTable.refl _) (by simp [hs]) (by simp))
  | cons c q =>
    rw [drainStep_take hi hq]
    exact .single (.taken hs hq.ring.next_head)

/-- Each step of the task is a sequence of effects. -/
theorem step_star {s : Httpd} {os : Os} (hi : Inv s) (hok : StepOk cfg l y m s os) :
    ReflTransGen (Trans cfg y m) s (step cfg l y s os) := by
  unfold step
  split
  · rename_i hs
    have hs' : ∀ c, s.phase ≠ .polling c := by simp [hs]
    split
    · exact .single (.stopServer hs)
    · obtain ⟨loop, p, heq, hsame, hp⟩ := pollStep_moves cfg s os
      rw [heq]
      refine .single (.table hsame hs' ?_)
      rcases hp with rfl | rfl
      · exact afterPoll_notPolling cfg
      · simp
  · rename_i i hs
    exact slotStep_star hi hs hok
  · rename_i hs
    exact drainStep_star hi hs
  · rename_i c hs
    exact .single (pollingStep_trans cfg y m hs os)
  · exact .refl

end Step

/-! ## A run -/

section Run

variable {cfg : Config} {l : Llhttp} {y : Yuarel} {m : Mode}

/-- What every effect keeps, a step keeps. -/
theorem step_keeps {I : Httpd → Prop} (hI : ∀ s s', Inv s → I s → Trans cfg y m s s' → I s')
    {s : Httpd} {os : Os} (hi : Inv s) (h : I s) (hok : StepOk cfg l y m s os) :
    Inv (step cfg l y s os) ∧ I (step cfg l y s os) :=
  star_inv (I := fun s => Inv s ∧ I s)
    (fun s s' hs htrans => ⟨trans_inv htrans hs.1, hI s s' hs.1 hs.2 htrans⟩)
    (step_star hi hok) ⟨hi, h⟩

theorem step_inv {s : Httpd} {os : Os} (hi : Inv s) (hok : StepOk cfg l y m s os) :
    Inv (step cfg l y s os) :=
  star_inv (R := Trans cfg y m) (fun _ _ hi htrans => trans_inv htrans hi) (step_star hi hok) hi

/-- Only a step at a poll slot calls llhttp. -/
theorem stepOk_of_noSlot {s : Httpd} (hs : ∀ i, s.phase ≠ .iterating i) (os : Os) :
    StepOk cfg l y m s os := by
  intro k hk
  unfold parserCall at hk
  split at hk
  · exact absurd ‹_› (hs _)
  · cases hk

/-- At the start only the server is watched. -/
theorem start_watches_no_conn (serverfd fd : Nat) (c : ConnId) :
    (start serverfd).loop.watchers fd ≠ some (.conn c) := by
  intro hw
  simp only [start] at hw
  rcases uvIoStart_watchers hw with hw | hw
  · cases hw
  · cases hw.1

theorem start_inv (serverfd : Nat) : Inv (start serverfd) := by
  refine ⟨⟨?_, ?_, ?_, ?_, ?_⟩, [], ?_, ?_, ?_⟩
  · simp only [start]
    apply uvIoStart_table (uvPlatformLoopInit_table (fun _ => rfl))
    simp [uvPlatformLoopInit, startIo]
  · exact fun fd c hw => absurd hw (start_watches_no_conn serverfd fd c)
  · exact fun c => ⟨fun _ => Nat.zero_le c, fun _ => rfl⟩
  · intro c hj
    cases hj
  · intro c hlive
    cases hlive
  · exact ring_nil_iff.mpr ⟨rfl, rfl⟩
  · intro c
    simp [start, HttpdConn.fresh, HttpdConn.initial]
  · intro c hp
    cases hp

/-- What holds at the start and is kept by every effect holds after every run
whose steps meet the condition. -/
theorem run_keeps {I : Httpd → Prop} {serverfd : Nat}
    (hI : ∀ s s', Inv s → I s → Trans cfg y m s s' → I s') (h : I (start serverfd)) {is : List Os}
    (hok : StepsOk (step cfg l y) (StepOk cfg l y m) (start serverfd) is) :
    Inv (run (step cfg l y) (start serverfd) is) ∧ I (run (step cfg l y) (start serverfd) is) :=
  run_inv (I := fun s => Inv s ∧ I s) (fun _ _ hs => step_keeps hI hs.1 hs.2)
    ⟨start_inv serverfd, h⟩ hok

end Run

/-! ## Concrete runs -/

/-- A parser that knows what to report for some chunks, and nothing for others. -/
def scripted (script : List (Bytes × List Callback × LlhttpErrno)) : Llhttp where
  execute _ chunk := (script.lookup chunk).getD ([], .HPE_OK)

/-- What llhttp reports for a request `GET` of a path, with no header. -/
def getCallbacks (path : String) : List Callback :=
  [.method (ascii "GET"), .methodComplete, .url (ascii path), .urlComplete, .headersComplete,
    .messageComplete]

def getRequest (path : String) : Bytes := ascii "GET " ++ ascii path ++ ascii " HTTP/1.1\r\n\r\n"

/-- The parser that sees one request for `/`, or two of them in one chunk. -/
def rootLlhttp : Llhttp := scripted [
  (getRequest "/", getCallbacks "/", .HPE_OK),
  (getRequest "/" ++ getRequest "/", getCallbacks "/" ++ getCallbacks "/", .HPE_OK)]

/-- What `yuarel_parse` does to a path: a NUL over its slash, the path after it. -/
def slashYuarel : Yuarel where
  parse
    | 47 :: rest => { buf := 0 :: rest, path := some 1, query := none }
    | buf => { buf, path := none, query := none }

/-- A poll that finds events at one slot. -/
def Os.readable (slot : Nat) : Os :=
  { Os.quiet with ready := 1, revents := fun i => if i = slot then UV_POLLIN else 0 }

/-- An accept of `fd` at the slot of the server, up to the next poll. -/
def acceptAt (fd : Int) : List Os :=
  [Os.readable 0, { Os.quiet with accept := fd }, Os.quiet, Os.quiet]

/-- Bytes that arrive on the connection at slot 1. -/
def receiveAt (avail : Bytes) : List Os :=
  [Os.readable 1, Os.quiet, { Os.quiet with recv := .data avail }]

end isere.httpd
