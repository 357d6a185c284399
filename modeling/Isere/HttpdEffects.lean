-- What the parts of the httpd task do to its state, field by field: a cleanup,
-- a message that goes to the handler or is answered at once, and an accept.
import Isere.Httpd
import Isere.Runs
import Isere.WatcherTable

open cstring intrusive isere.tcp isere.uv runs Relation

namespace isere.httpd

/-! ## Small updates -/

@[simp] theorem log_trace (s : Httpd) (e : Event) : (s.log e).trace = s.trace ++ [e] := rfl
@[simp] theorem log_conns (s : Httpd) (e : Event) : (s.log e).conns = s.conns := rfl
@[simp] theorem log_loop (s : Httpd) (e : Event) : (s.log e).loop = s.loop := rfl
@[simp] theorem log_jsQueue (s : Httpd) (e : Event) : (s.log e).jsQueue = s.jsQueue := rfl
@[simp] theorem log_nextConn (s : Httpd) (e : Event) : (s.log e).nextConn = s.nextConn := rfl
@[simp] theorem log_phase (s : Httpd) (e : Event) : (s.log e).phase = s.phase := rfl
@[simp] theorem log_tcp (s : Httpd) (e : Event) : (s.log e).tcp = s.tcp := rfl

@[simp] theorem setConn_conns (s : Httpd) (c d : ConnId) (conn : HttpdConn) :
    (s.setConn c conn).conns d = if d = c then conn else s.conns d := by
  simp [Httpd.setConn, Function.update_apply]

@[simp] theorem setConn_loop (s : Httpd) (c : ConnId) (conn : HttpdConn) :
    (s.setConn c conn).loop = s.loop := rfl
@[simp] theorem setConn_jsQueue (s : Httpd) (c : ConnId) (conn : HttpdConn) :
    (s.setConn c conn).jsQueue = s.jsQueue := rfl
@[simp] theorem setConn_nextConn (s : Httpd) (c : ConnId) (conn : HttpdConn) :
    (s.setConn c conn).nextConn = s.nextConn := rfl
@[simp] theorem setConn_phase (s : Httpd) (c : ConnId) (conn : HttpdConn) :
    (s.setConn c conn).phase = s.phase := rfl
@[simp] theorem setConn_tcp (s : Httpd) (c : ConnId) (conn : HttpdConn) :
    (s.setConn c conn).tcp = s.tcp := rfl
@[simp] theorem setConn_trace (s : Httpd) (c : ConnId) (conn : HttpdConn) :
    (s.setConn c conn).trace = s.trace := rfl

/-- The chunk that a parser is given is only recorded. -/
theorem fed_conns (s : Httpd) (c : ConnId) (chunk : Bytes) (d : ConnId) :
    let s' := s.setConn c { s.conns c with fed := (s.conns c).fed ++ [chunk] }
    (s'.conns d).life = (s.conns d).life ∧
      (s'.conns d).jsInitialized = (s.conns d).jsInitialized ∧
      (s'.conns d).fd = (s.conns d).fd := by
  by_cases hd : d = c <;> simp [hd]

/-! ## A cleanup -/

theorem leaveJsQueue_conns (s : Httpd) (c d : ConnId) : (leaveJsQueue s c).conns d =
    if d = c then { s.conns c with jsInitialized := false } else s.conns d := by
  unfold leaveJsQueue
  split
  · simp
  · rename_i hj
    rw [Bool.not_eq_true] at hj
    have hself : { s.conns c with jsInitialized := false } = s.conns c := by rw [← hj]
    by_cases hd : d = c <;> simp [hd, hself]

theorem cleanup_conns (s : Httpd) (c d : ConnId) : (httpdCleanupConn s c).conns d =
    if d = c then { s.conns c with jsInitialized := false, life := .cleaned } else s.conns d := by
  unfold httpdCleanupConn
  by_cases hd : d = c <;> simp [leaveJsQueue_conns, hd]

@[simp] theorem cleanup_conns_self (s : Httpd) (c : ConnId) : (httpdCleanupConn s c).conns c =
    { s.conns c with jsInitialized := false, life := .cleaned } := by
  simp [cleanup_conns]

@[simp] theorem cleanup_conns_other (s : Httpd) {c d : ConnId} (h : d ≠ c) :
    (httpdCleanupConn s c).conns d = s.conns d := by
  simp [cleanup_conns, h]

@[simp] theorem cleanup_loop (s : Httpd) (c : ConnId) :
    (httpdCleanupConn s c).loop = uvIoStop s.loop (.conn c) UV_POLLIN := by
  unfold httpdCleanupConn leaveJsQueue
  split <;> rfl

theorem cleanup_jsQueue (s : Httpd) (c : ConnId) : (httpdCleanupConn s c).jsQueue =
    if (s.conns c).jsInitialized then uvQueueRemove s.jsQueue (.conn c) else s.jsQueue := by
  unfold httpdCleanupConn leaveJsQueue
  split <;> rfl

@[simp] theorem cleanup_nextConn (s : Httpd) (c : ConnId) :
    (httpdCleanupConn s c).nextConn = s.nextConn := by
  unfold httpdCleanupConn leaveJsQueue
  split <;> rfl

@[simp] theorem cleanup_phase (s : Httpd) (c : ConnId) :
    (httpdCleanupConn s c).phase = s.phase := by
  unfold httpdCleanupConn leaveJsQueue
  split <;> rfl

@[simp] theorem cleanup_tcp (s : Httpd) (c : ConnId) :
    (httpdCleanupConn s c).tcp = { numOfTcpConns := s.tcp.numOfTcpConns - 1 } := by
  unfold httpdCleanupConn leaveJsQueue
  split <;> rfl

@[simp] theorem cleanup_trace (s : Httpd) (c : ConnId) :
    (httpdCleanupConn s c).trace = s.trace ++ [.closed c, .freed c] := by
  unfold httpdCleanupConn leaveJsQueue
  split <;> simp

/-! ## A callback -/

section Callback

variable (cfg : Config) (y : Yuarel)

/-- A callback before the end of a message changes the request, and nothing else. -/
theorem onCallback_piece (c : ConnId) (os : Os) (s : Httpd) {cb : Callback}
    (hcb : cb ≠ .messageComplete) : onCallback cfg y c os s cb =
      (((s.log (.callback c cb)).setReq c ((s.conns c).req.onCallback y cb)).log (.parser c)) := by
  unfold onCallback
  cases cb <;> simp at hcb ⊢

theorem piece_trace (c : ConnId) (os : Os) (s : Httpd) {cb : Callback}
    (hcb : cb ≠ .messageComplete) :
    (onCallback cfg y c os s cb).trace = s.trace ++ [.callback c cb, .parser c] := by
  rw [onCallback_piece cfg y c os s hcb]
  simp [Httpd.setReq]

theorem piece_conns (c : ConnId) (os : Os) (s : Httpd) {cb : Callback}
    (hcb : cb ≠ .messageComplete) (d : ConnId) :
    ((onCallback cfg y c os s cb).conns d).life = (s.conns d).life ∧
      ((onCallback cfg y c os s cb).conns d).jsInitialized = (s.conns d).jsInitialized ∧
      ((onCallback cfg y c os s cb).conns d).fd = (s.conns d).fd := by
  rw [onCallback_piece cfg y c os s hcb]
  by_cases hd : d = c <;> simp [hd, Httpd.setReq]

/-- The state in which `__on_message_complete` has stopped the watcher. -/
def stopReading (s : Httpd) (c : ConnId) : Httpd :=
  { s.log (.callback c .messageComplete) with loop := uvIoStop s.loop (.conn c) UV_POLLIN }

@[simp] theorem stopReading_conns (s : Httpd) (c : ConnId) :
    (stopReading s c).conns = s.conns := rfl
@[simp] theorem stopReading_loop (s : Httpd) (c : ConnId) :
    (stopReading s c).loop = uvIoStop s.loop (.conn c) UV_POLLIN := rfl
@[simp] theorem stopReading_nextConn (s : Httpd) (c : ConnId) :
    (stopReading s c).nextConn = s.nextConn := rfl
@[simp] theorem stopReading_phase (s : Httpd) (c : ConnId) :
    (stopReading s c).phase = s.phase := rfl
@[simp] theorem stopReading_trace (s : Httpd) (c : ConnId) :
    (stopReading s c).trace = s.trace ++ [.callback c .messageComplete] := rfl

/-- The request goes to the handler: it is for the root path, and there is a
handler. -/
def Config.dispatches (r : Request) : Bool := cfg.hasHandler && !r.notFound

/-- A message that goes to the handler. -/
theorem onCallback_dispatch (c : ConnId) (os : Os) (s : Httpd)
    (h : cfg.dispatches (s.conns c).req = true) :
    onCallback cfg y c os s .messageComplete =
      (dispatch (stopReading s c) c os).log (.parser c) := by
  simp only [Config.dispatches, Bool.and_eq_true, Bool.not_eq_true'] at h
  simp [onCallback, onMessageComplete, stopReading, h.1, h.2]

/-- A message that is answered at once, 404 or the bare 200. -/
theorem onCallback_answer (c : ConnId) (os : Os) (s : Httpd)
    (h : cfg.dispatches (s.conns c).req = false) :
    ∃ a, (a = .notFound ∨ a = .bare) ∧ onCallback cfg y c os s .messageComplete =
      (httpdCleanupConn ((stopReading s c).log (.wrote c a)) c).log (.parser c) := by
  simp only [Config.dispatches, Bool.and_eq_false_iff, Bool.not_eq_false'] at h
  by_cases hn : (s.conns c).req.notFound = true
  · exact ⟨.notFound, Or.inl rfl, by simp [onCallback, onMessageComplete, stopReading, hn]⟩
  · have hh : cfg.hasHandler = false := h.resolve_right hn
    exact ⟨.bare, Or.inr rfl, by simp [onCallback, onMessageComplete, stopReading, hn, hh]⟩

end Callback

theorem dispatch_conns (s : Httpd) (c d : ConnId) (os : Os) : (dispatch s c os).conns d =
    if d = c then { s.conns c with
      jsInitialized := true, response := (os.handler s.trace.length).getD (s.conns c).response }
    else s.conns d := by
  unfold dispatch Httpd.setResponse
  by_cases h : d = c <;> simp [h]

@[simp] theorem dispatch_conns_self (s : Httpd) (c : ConnId) (os : Os) :
    (dispatch s c os).conns c = { s.conns c with
      jsInitialized := true,
      response := (os.handler s.trace.length).getD (s.conns c).response } := by
  simp [dispatch_conns]

@[simp] theorem dispatch_conns_other (s : Httpd) {c d : ConnId} (h : d ≠ c) (os : Os) :
    (dispatch s c os).conns d = s.conns d := by
  simp [dispatch_conns, h]

@[simp] theorem dispatch_loop (s : Httpd) (c : ConnId) (os : Os) :
    (dispatch s c os).loop = s.loop := rfl
@[simp] theorem dispatch_nextConn (s : Httpd) (c : ConnId) (os : Os) :
    (dispatch s c os).nextConn = s.nextConn := rfl
@[simp] theorem dispatch_phase (s : Httpd) (c : ConnId) (os : Os) :
    (dispatch s c os).phase = s.phase := rfl
@[simp] theorem dispatch_tcp (s : Httpd) (c : ConnId) (os : Os) :
    (dispatch s c os).tcp = s.tcp := rfl

@[simp] theorem dispatch_jsQueue (s : Httpd) (c : ConnId) (os : Os) : (dispatch s c os).jsQueue =
    uvQueueInsertTail (uvQueueInit s.jsQueue (.conn c)) .head (.conn c) := rfl

@[simp] theorem dispatch_trace (s : Httpd) (c : ConnId) (os : Os) :
    (dispatch s c os).trace = s.trace ++ [.handler c (s.conns c).req.handlerArgs] := by
  simp [dispatch, Httpd.setResponse]

/-! ## An accept -/

/-- The task after `__on_connected` set up a connection on `fd`. -/
def addConn (s : Httpd) (fd : Int) : Httpd :=
  let c := s.nextConn
  let loop := s.loop.setIo (.conn c) { pevents := 0, events := 0, fd := fd }
  { s with
    loop := uvIoStart loop (.conn c) UV_POLLIN,
    conns := Function.update s.conns c (HttpdConn.initial fd),
    nextConn := c + 1,
    tcp := { numOfTcpConns := s.tcp.numOfTcpConns + 1 },
    trace := s.trace ++ [.accepted c] }

@[simp] theorem addConn_conns_self (s : Httpd) (fd : Int) :
    (addConn s fd).conns s.nextConn = HttpdConn.initial fd := by
  simp [addConn]

@[simp] theorem addConn_conns_other (s : Httpd) {fd : Int} {d : ConnId} (h : d ≠ s.nextConn) :
    (addConn s fd).conns d = s.conns d := by
  simp [addConn, h]

@[simp] theorem addConn_nextConn (s : Httpd) (fd : Int) :
    (addConn s fd).nextConn = s.nextConn + 1 := rfl
@[simp] theorem addConn_jsQueue (s : Httpd) (fd : Int) : (addConn s fd).jsQueue = s.jsQueue := rfl
@[simp] theorem addConn_phase (s : Httpd) (fd : Int) : (addConn s fd).phase = s.phase := rfl
@[simp] theorem addConn_tcp (s : Httpd) (fd : Int) :
    (addConn s fd).tcp = { numOfTcpConns := s.tcp.numOfTcpConns + 1 } := rfl
@[simp] theorem addConn_trace (s : Httpd) (fd : Int) :
    (addConn s fd).trace = s.trace ++ [.accepted s.nextConn] := rfl

/-- `__on_connected` sets up a connection below the limit, or does nothing: a
connection that finds no memory is counted and then closed. -/
theorem onConnected_cases (cfg : Config) (s : Httpd) (events : Events) (os : Os) :
    onConnected cfg s events os = s ∨
      (atLimit cfg.maxConns s.tcp = false ∧ 0 ≤ os.accept ∧
        onConnected cfg s events os = addConn s os.accept) := by
  unfold onConnected
  by_cases hev : events &&& UV_POLLIN = UV_POLLIN
  · rcases isereTcpAccept_cases cfg.maxConns s.tcp os.accept with h | ⟨hlim, hos, h⟩
    · left
      simp [hev, h]
    · simp only [hev, ne_eq, not_true_eq_false, ↓reduceIte, h, Int.not_lt.mpr hos]
      cases hm : os.mallocOk with
      | true => exact Or.inr ⟨hlim, hos, by simp [addConn, Httpd.log, Httpd.setConn]⟩
      | false =>
        left
        simp [isereTcpClose]
  · left
    simp [hev]

/-! ## The moves of a poll callback -/

/-- One thing that `__on_poll` does on its connection. -/
inductive PollMove (cfg : Config) (y : Yuarel) (c : ConnId) (os : Os) : Httpd → Httpd → Prop
  | logged {s : Httpd} {e : Event} (he : e = .polled c ∨ e = .wrote c .tooLarge) :
      PollMove cfg y c os s (s.log e)
  | cleaned {s : Httpd} : PollMove cfg y c os s (httpdCleanupConn s c)
  | fed {s : Httpd} (chunk : Bytes) : PollMove cfg y c os s
      (s.setConn c { s.conns c with fed := (s.conns c).fed ++ [chunk] })
  | callback {s : Httpd} (cb : Callback) : PollMove cfg y c os s (onCallback cfg y c os s cb)

theorem callbacks_moves (cfg : Config) (y : Yuarel) (c : ConnId) (os : Os) (cbs : List Callback)
    (s : Httpd) :
    ReflTransGen (PollMove cfg y c os) s (cbs.foldl (onCallback cfg y c os) s) := by
  induction cbs generalizing s with
  | nil => exact .refl
  | cons cb cbs ih => exact .head (.callback cb) (ih _)

/-- `__on_poll` is made of these moves. -/
theorem onPoll_moves (cfg : Config) (l : Llhttp) (y : Yuarel) (s : Httpd) (c : ConnId)
    (events : Events) (os : Os) :
    ReflTransGen (PollMove cfg y c os) s (onPoll cfg l y s c events os) := by
  have hpolled : ReflTransGen (PollMove cfg y c os) s (s.log (.polled c)) :=
    .single (.logged (Or.inl rfl))
  unfold onPoll
  split
  · exact .refl
  · cases os.recv with
    | eintr => exact hpolled
    | error => exact hpolled.tail .cleaned
    | data avail =>
      simp only
      split
      · exact hpolled.tail .cleaned
      · split
        · exact (hpolled.tail (.logged (Or.inr rfl))).tail .cleaned
        · have hcalls : ReflTransGen (PollMove cfg y c os) s (llhttpExecute cfg l y
              (s.log (.polled c)) c os (avail.take ISERE_HTTPD_LINE_BUFFER_LEN)).1 :=
            (hpolled.tail (.fed _)).trans (callbacks_moves cfg y c os _ _)
          split
          · exact hcalls.tail .cleaned
          · exact hcalls

/-- What each move on a connection that was made keeps, `__on_poll` keeps. -/
theorem onPoll_rule {R : Httpd → Httpd → Prop} {cfg : Config} {y : Yuarel} {c : ConnId} {os : Os}
    (hrefl : ∀ s, R s s) (htrans : ∀ s s' s'', R s s' → R s' s'' → R s s'')
    (hnext : ∀ s s', R s s' → s.nextConn ≤ s'.nextConn)
    (hmove : ∀ s s', c < s.nextConn → PollMove cfg y c os s s' → R s s') (l : Llhttp) {s : Httpd}
    (hc : c < s.nextConn) (events : Events) : R s (onPoll cfg l y s c events os) := by
  have hrun : R s (onPoll cfg l y s c events os) ∧
      c < (onPoll cfg l y s c events os).nextConn := by
    refine star_inv (I := fun s' => R s s' ∧ c < s'.nextConn) ?_
      (onPoll_moves cfg l y s c events os) ⟨hrefl s, hc⟩
    rintro s1 s2 ⟨hkept, hc1⟩ hone
    have hstep := hmove s1 s2 hc1 hone
    exact ⟨htrans s s1 s2 hkept hstep, Nat.lt_of_lt_of_le hc1 (hnext s1 s2 hstep)⟩
  exact hrun.1

/-! ## The steps around the callbacks -/

/-- The step at the head of the event loop keeps the watcher table. -/
theorem pollStep_moves (cfg : Config) (s : Httpd) (os : Os) : ∃ loop p,
    pollStep cfg s os = { s with loop, phase := p } ∧ SameTable s.loop loop ∧
      (p = afterPoll cfg ∨ p = .iterating 0) := by
  have hpoll : SameTable s.loop (isereTcpPoll (drainWatcherQueue s.loop) os.ready os.revents) :=
    (drainWatcherQueue_same s.loop).trans (isereTcpPoll_same _ _ _)
  unfold pollStep
  simp only
  split
  · exact ⟨_, _, rfl, SameTable.refl _, Or.inl rfl⟩
  · split
    · exact ⟨_, _, rfl, hpoll, Or.inl rfl⟩
    · exact ⟨_, _, rfl, ⟨hpoll.watchers, hpoll.nwatchers, hpoll.fd, hpoll.pevents⟩, Or.inr rfl⟩

/-- The head of the drain loop moves links of the queue, and nothing else. -/
theorem drainStep_moves (s : Httpd) : ∃ q p,
    drainStep s = { s with jsQueue := q, phase := p } ∧
      (p = .loop ∨ p = s.phase ∨ ∃ c, p = .polling c ∧ (s.conns c).fd ≠ -1) := by
  unfold drainStep
  simp only
  split
  · exact ⟨_, _, rfl, Or.inl rfl⟩
  · split
    · exact ⟨_, _, rfl, Or.inr (Or.inl rfl)⟩
    · split
      · exact ⟨_, _, rfl, Or.inr (Or.inl rfl)⟩
      · rename_i hfd
        exact ⟨_, _, rfl, Or.inr (Or.inr ⟨_, rfl, hfd⟩)⟩

end isere.httpd
