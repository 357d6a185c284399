-- The result of a handler on its way to the client. The drain loop writes it
-- before it closes the connection, but for a result of a poll that fails.
import Isere.HandlerCb
import Isere.HttpdSteps
import Isere.Received

open cstring intrusive isere.tcp isere.uv runs

namespace isere.httpd

/-! ## The calls of the callback -/

/-- A response that `__handler_cb` left when it was called with a value. -/
def CbLeft (r : Response) : Prop :=
  ∃ (rt : Runtime) (v : HandlerResult) (rest : List HandlerResult) (r0 : Response),
    rt.handlerCb (v :: rest) r0 = some r

/-- The responses of a step are ones that the callback left. -/
def CbLeaves (os : Os) : Prop :=
  (∀ n r, os.handler n = some r → CbLeft r) ∧ ∀ r, os.jsResponse = some r → CbLeft r

/-- The callback was called for a connection in a step: in the poll of its
context, or in a call of its handler. -/
def CbCalled (os : Os) (s s' : Httpd) (c : ConnId) : Prop :=
  (s.phase = .polling c ∧ os.jsResponse.isSome) ∨
    ∃ n args, s.trace.length ≤ n ∧ s'.trace[n]? = some (.handler c args) ∧ (os.handler n).isSome

/-- The callback completes the response that it is called for. -/
theorem CbLeft.completed {r : Response} (h : CbLeft r) : r.completed = true := by
  obtain ⟨rt, v, rest, r0, h⟩ := h
  have hwith : ∀ store storeBody, handlerCbWith store storeBody (v :: rest) r0 = some r →
      r.completed = true := by
    intro store storeBody h
    simp only [handlerCbWith, Option.bind_eq_bind, Option.bind_eq_some_iff,
      Option.some.injEq] at h
    obtain ⟨r1, -, rfl⟩ := h
    rfl
  cases rt with
  | quickjs => exact hwith _ _ h
  | jerryscript => exact hwith _ _ h

/-! ## The task, with the calls so far -/

/-- The task, and the connections for which the callback was called. -/
structure Observed where
  task : Httpd
  called : ConnId → Prop

def Observed.start (serverfd : Nat) : Observed := ⟨httpd.start serverfd, fun _ => False⟩

/-- What a step adds to the history. -/
def newEvents (s s' : Httpd) : List Event := s'.trace.drop s.trace.length

section Task

variable (cfg : Config) (l : Llhttp) (y : Yuarel)

def observe (o : Observed) (os : Os) : Observed :=
  let task := step cfg l y o.task os
  { task, called := fun c => o.called c ∨ CbCalled os o.task task c }

/-- If the drain loop cleans a connection up with a completed response, it wrote
that response right before. It writes the bare 200 only if the callback was
never called. -/
def Delivers (o : Observed) (os : Os) : Prop :=
  ∀ c, o.task.phase = .polling c →
    let o' := observe cfg l y o os
    let response := (o'.task.conns c).response
    (.freed c ∈ newEvents o.task o'.task → response.completed = true →
      newEvents o.task o'.task =
        [.jsPolled c os.jsPoll, .wrote c (.response response), .closed c, .freed c]) ∧
    (.wrote c .bare ∈ newEvents o.task o'.task → ¬o'.called c)

end Task

/-- A poll that fails with no response so far does not call the callback. -/
def FailsWithoutResult (s : Httpd) (os : Os) : Prop :=
  match s.phase with
  | .polling c => (s.conns c).response.completed = false → os.jsPoll < 0 → os.jsResponse = none
  | _ => True

instance (s : Httpd) (os : Os) : Decidable (FailsWithoutResult s os) := by
  unfold FailsWithoutResult
  split
  · infer_instance
  · infer_instance

/-! ## The poll of one connection -/

section Poll

variable {cfg : Config} {l : Llhttp} {y : Yuarel}

theorem polledJs_response (s : Httpd) (c : ConnId) (os : Os) :
    ((polledJs s c os).conns c).response = os.jsResponse.getD (s.conns c).response := by
  simp [polledJs, Httpd.setResponse]

/-- A response that is not the bare 200 is complete. -/
theorem httpdWriteback_completed {r : Response} (h : r.completed = true) :
    httpdWriteback r = .response r := by
  simp [httpdWriteback, h]

theorem httpdWriteback_bare {r : Response} (h : httpdWriteback r = .bare) :
    r.completed = false := by
  unfold httpdWriteback at h
  split at h
  · cases h
  · simpa using ‹¬r.completed = true›

/-- The step at a connection delivers, when a poll that fails has no result and
every call of the callback so far completed the response. -/
theorem pollingStep_delivers {s : Httpd} {c : ConnId} {os : Os}
    (hfail : (s.conns c).response.completed = false → os.jsPoll < 0 → os.jsResponse = none) :
    (.freed c ∈ newEvents s (pollingStep s c os) →
      ((pollingStep s c os).conns c).response.completed = true →
      newEvents s (pollingStep s c os) = [.jsPolled c os.jsPoll,
        .wrote c (.response ((pollingStep s c os).conns c).response), .closed c, .freed c]) ∧
    (.wrote c .bare ∈ newEvents s (pollingStep s c os) →
      ((pollingStep s c os).conns c).response.completed = false) := by
  unfold newEvents
  rcases pollingStep_cases s c os with ⟨hopen, hneg, heq⟩ | ⟨-, -, heq⟩ | heq
  · rw [heq]
    have hresponse := polledJs_response s c os
    rw [hfail hopen hneg, Option.getD_none] at hresponse
    refine ⟨fun _ hdone => ?_, fun _ => ?_⟩
    · rw [cleanup_conns_self, hresponse, hopen] at hdone
      cases hdone
    · rw [cleanup_conns_self, hresponse, hopen]
  · rw [heq]
    simp [polledJs_trace]
  · rw [heq]
    refine ⟨fun _ hdone => ?_, fun hbare => ?_⟩
    · have hanswer : httpdWriteback ((polledJs s c os).conns c).response =
          .response ((polledJs s c os).conns c).response := by
        apply httpdWriteback_completed
        simpa using hdone
      rw [cleanup_conns_self, cleanup_trace, log_trace, polledJs_trace]
      simp [hanswer]
    · simp only [cleanup_trace, log_trace, polledJs_trace, List.append_assoc,
        List.drop_left] at hbare
      rw [cleanup_conns_self]
      apply httpdWriteback_bare
      simpa [eq_comm] using hbare

/-- Where a step delivers, a poll that fails has no result. -/
theorem failsWithoutResult_of_delivers {o : Observed} {os : Os} (hleft : CbLeaves os)
    (h : Delivers cfg l y o os) : FailsWithoutResult o.task os := by
  unfold FailsWithoutResult
  split
  · rename_i c hs
    intro hopen hneg
    obtain ⟨hwrote, -⟩ := h c hs
    have hstep : (observe cfg l y o os).task = httpdCleanupConn (polledJs o.task c os) c := by
      simp only [observe, step, hs]
      unfold pollingStep
      simp [hopen, hneg, Int.ne_of_lt hneg, polledJs]
    cases hresult : os.jsResponse with
    | none => rfl
    | some r =>
      have hdone := (hleft.2 r hresult).completed
      rw [hstep] at hwrote
      simp [newEvents, polledJs_trace, polledJs_response, hresult, hdone] at hwrote
  · trivial

end Poll

/-! ## The calls in a step -/

/-- A part of a step keeps completed responses, and completes those of the calls
of the handler that call back. -/
structure CbKept (os : Os) (s s' : Httpd) : Prop where
  trace : ∃ es, s'.trace = s.trace ++ es
  phase : s'.phase = s.phase
  nextConn : s.nextConn ≤ s'.nextConn
  fresh : ∀ c, s'.nextConn ≤ c → (s'.conns c).fd = (s.conns c).fd
  kept : ∀ c < s.nextConn, (s.conns c).response.completed = true →
    (s'.conns c).response.completed = true
  called : ∀ n c args, s.trace.length ≤ n → s'.trace[n]? = some (.handler c args) →
    (os.handler n).isSome → c < s'.nextConn ∧ (s'.conns c).response.completed = true

/-- A part that calls no handler and changes no response. -/
theorem CbKept.of_same {os : Os} {s s' : Httpd} (es : List Event)
    (htrace : s'.trace = s.trace ++ es) (hes : ∀ c args, Event.handler c args ∉ es)
    (hphase : s'.phase = s.phase) (hnext : s'.nextConn = s.nextConn)
    (hconns : ∀ c, (s'.conns c).fd = (s.conns c).fd ∧
      (s'.conns c).response = (s.conns c).response) : CbKept os s s' where
  trace := ⟨es, htrace⟩
  phase := hphase
  nextConn := Nat.le_of_eq hnext.symm
  fresh c _ := (hconns c).1
  kept c _ h := by rwa [(hconns c).2]
  called n c args hn h := by
    rw [htrace, List.getElem?_append_right hn] at h
    exact fun _ => absurd (List.mem_of_getElem? h) (hes c args)

theorem CbKept.refl (os : Os) (s : Httpd) : CbKept os s s :=
  .of_same [] (by simp) (by simp) rfl rfl (fun _ => ⟨rfl, rfl⟩)

theorem CbKept.trans {os : Os} {s s' s'' : Httpd} (h : CbKept os s s') (h' : CbKept os s' s'') :
    CbKept os s s'' where
  trace := by
    obtain ⟨es, hes⟩ := h.trace
    obtain ⟨es', hes'⟩ := h'.trace
    exact ⟨es ++ es', by rw [hes', hes, List.append_assoc]⟩
  phase := h'.phase.trans h.phase
  nextConn := h.nextConn.trans h'.nextConn
  fresh c hc := (h'.fresh c hc).trans (h.fresh c (h'.nextConn.trans hc))
  kept c hc hdone := h'.kept c (lt_of_lt_of_le hc h.nextConn) (h.kept c hc hdone)
  called n c args hn hev hcb := by
    by_cases hn' : s'.trace.length ≤ n
    · exact h'.called n c args hn' hev hcb
    · obtain ⟨es, hes⟩ := h'.trace
      rw [hes, List.getElem?_append_left (Nat.not_le.mp hn')] at hev
      obtain ⟨hc, hdone⟩ := h.called n c args hn hev hcb
      exact ⟨lt_of_lt_of_le hc h'.nextConn, h'.kept c hc hdone⟩

theorem cbKept_cleanup (os : Os) (s : Httpd) (c : ConnId) : CbKept os s (httpdCleanupConn s c) := by
  refine .of_same _ (cleanup_trace s c) (by simp) (cleanup_phase s c) (cleanup_nextConn s c) ?_
  intro d
  by_cases hd : d = c <;> simp [hd]

theorem cbKept_log (os : Os) (s : Httpd) {e : Event} (he : ∀ c args, e ≠ .handler c args) :
    CbKept os s (s.log e) :=
  .of_same _ (log_trace s e) (fun c args h => he c args (List.mem_singleton.mp h).symm) rfl rfl
    (fun _ => ⟨rfl, rfl⟩)

theorem cbKept_onCallback (cfg : Config) (y : Yuarel) {os : Os} (hleft : CbLeaves os) {s : Httpd}
    {c : ConnId} (hc : c < s.nextConn) (cb : Callback) :
    CbKept os s (onCallback cfg y c os s cb) := by
  by_cases hcb : cb = .messageComplete
  · subst hcb
    cases hgo : cfg.dispatches (s.conns c).req with
    | true =>
      rw [onCallback_dispatch cfg y c os s hgo]
      have hafter : ∀ d, (((dispatch (stopReading s c) c os).log (.parser c)).conns d).response =
          if d = c then (os.handler (s.trace.length + 1)).getD (s.conns c).response
          else (s.conns d).response := by
        intro d
        by_cases hd : d = c <;> simp [hd]
      have htrace : ((dispatch (stopReading s c) c os).log (.parser c)).trace = s.trace ++
          [.callback c .messageComplete, .handler c (s.conns c).req.handlerArgs, .parser c] := by
        simp
      refine ⟨⟨_, htrace⟩, rfl, Nat.le_refl _, ?_, ?_, ?_⟩
      · intro d _
        by_cases hd : d = c <;> simp [hd]
      · intro d _ hdone
        rw [hafter]
        split
        · rename_i hd
          subst hd
          cases hr : os.handler (s.trace.length + 1) with
          | none => simpa using hdone
          | some r => simpa using (hleft.1 _ r hr).completed
        · exact hdone
      · intro n d args hn hev hcall
        rw [htrace, List.getElem?_append_right hn] at hev
        -- the call of the handler is the second of the three events
        obtain ⟨hd, hone⟩ : d = c ∧ n = s.trace.length + 1 := by
          rcases hk : n - s.trace.length with _ | _ | _ | k
          · simp [hk] at hev
          · simp only [hk, List.getElem?_cons_succ, List.getElem?_cons_zero, Option.some.injEq,
              Event.handler.injEq] at hev
            exact ⟨hev.1.symm, by omega⟩
          · simp [hk] at hev
          · simp [hk] at hev
        subst hd
        obtain ⟨r, hr⟩ := Option.isSome_iff_exists.mp hcall
        rw [hone] at hr
        refine ⟨hc, ?_⟩
        rw [hafter, if_pos rfl, hr]
        exact (hleft.1 _ r hr).completed
    | false =>
      obtain ⟨a, -, heq⟩ := onCallback_answer cfg y c os s hgo
      rw [heq]
      have hstop : CbKept os s (stopReading s c) :=
        .of_same [.callback c .messageComplete] rfl (by simp) rfl rfl (fun _ => ⟨rfl, rfl⟩)
      have hwrote := hstop.trans (cbKept_log os _ (e := .wrote c a) (by simp))
      exact (hwrote.trans (cbKept_cleanup os _ c)).trans (cbKept_log os _ (by simp))
  · refine .of_same _ (piece_trace cfg y c os s hcb) (by simp) ?_ ?_ ?_
    · rw [onCallback_piece cfg y c os s hcb]
      rfl
    · rw [onCallback_piece cfg y c os s hcb]
      rfl
    · intro d
      rw [onCallback_piece cfg y c os s hcb]
      by_cases hd : d = c <;> simp [Httpd.setReq, hd]

theorem cbKept_onPoll (cfg : Config) (l : Llhttp) (y : Yuarel) {os : Os} (hleft : CbLeaves os)
    {s : Httpd} {c : ConnId} (hc : c < s.nextConn) (events : Events) :
    CbKept os s (onPoll cfg l y s c events os) := by
  refine onPoll_rule (R := CbKept os) (CbKept.refl os) (fun _ _ _ => CbKept.trans)
    (fun _ _ h => h.nextConn) ?_ l hc events
  intro s s' hc hmove
  cases hmove with
  | logged he =>
    rcases he with rfl | rfl
    · exact cbKept_log os s (by simp)
    · exact cbKept_log os s (by simp)
  | cleaned => exact cbKept_cleanup os s c
  | fed chunk =>
    refine .of_same [] (by simp) (by simp) rfl rfl (fun d => ?_)
    by_cases hd : d = c <;> simp [hd]
  | callback cb => exact cbKept_onCallback cfg y hleft hc cb

theorem cbKept_onConnected (cfg : Config) (s : Httpd) (events : Events) (os : Os) :
    CbKept os s (onConnected cfg s events os) := by
  rcases onConnected_cases cfg s events os with heq | ⟨-, -, heq⟩
  · rw [heq]
    exact CbKept.refl os s
  · rw [heq]
    refine ⟨⟨_, addConn_trace s os.accept⟩, rfl, Nat.le_succ _, ?_, ?_, ?_⟩
    · intro c hc
      rw [addConn_conns_other s (Nat.ne_of_gt hc)]
    · intro c hc hdone
      rwa [addConn_conns_other s (Nat.ne_of_lt hc)]
    · intro n c args hn hev
      rw [addConn_trace, List.getElem?_append_right hn] at hev
      have hin := List.mem_of_getElem? hev
      simp at hin

/-! ## A run -/

/-- What every run keeps whose calls of the callback have an argument. -/
structure CallsOk (l : Llhttp) (y : Yuarel) (o : Observed) : Prop where
  received : ReceivedOk l y o.task
  fresh : ∀ c, o.task.nextConn ≤ c → (o.task.conns c).fd = -1
  polling : ∀ c, o.task.phase = .polling c → c < o.task.nextConn
  called : ∀ c, o.called c → c < o.task.nextConn ∧ (o.task.conns c).response.completed = true

section Run

variable {cfg : Config} {l : Llhttp} {y : Yuarel}

/-- A part of a step at a poll slot. -/
theorem CallsOk.slot {o : Observed} (h : CallsOk l y o) {os : Os} {i : Nat} {s : Httpd}
    (hs : o.task.phase = .iterating i) (hconns : s.conns = o.task.conns)
    (hnext : s.nextConn = o.task.nextConn) (htrace : s.trace = o.task.trace)
    (hp : ∀ c, s.phase ≠ .polling c) (hkept : CbKept os s (step cfg l y o.task os)) :
    CallsOk l y (observe cfg l y o os) where
  received := step_received h.received os
  fresh c hc := by
    have hle := hkept.nextConn
    rw [hnext] at hle
    refine (hkept.fresh c hc).trans ?_
    rw [hconns]
    exact h.fresh c (hle.trans hc)
  polling c hc := absurd (hkept.phase ▸ hc) (hp c)
  called c hc := by
    have hle := hkept.nextConn
    rw [hnext] at hle
    rcases hc with hc | hc | ⟨n, args, hn, hev, hcb⟩
    · obtain ⟨hlt, hdone⟩ := h.called c hc
      refine ⟨lt_of_lt_of_le hlt hle, hkept.kept c (hnext ▸ hlt) ?_⟩
      rw [hconns]
      exact hdone
    · rw [hs] at hc
      cases hc.1
    · exact hkept.called n c args (htrace ▸ hn) hev hcb

/-- A step that only moves on, and calls nothing. -/
theorem CallsOk.moved {o : Observed} (h : CallsOk l y o) {os : Os}
    (hs : ∀ c, o.task.phase ≠ .polling c) {loop : UvLoop WatcherId} {q : Links JsNode} {p : Phase}
    (heq : step cfg l y o.task os = { o.task with loop, jsQueue := q, phase := p })
    (hp : ∀ c, p = .polling c → (o.task.conns c).fd ≠ -1) : CallsOk l y (observe cfg l y o os) := by
  refine ⟨step_received h.received os, ?_, ?_, ?_⟩
  · simp only [observe, heq]
    exact h.fresh
  · intro c hc
    simp only [observe, heq] at hc ⊢
    by_contra hge
    exact hp c hc (h.fresh c (Nat.not_lt.mp hge))
  · intro c hc
    simp only [observe, heq] at hc ⊢
    rcases hc with hc | hc | ⟨n, args, hn, hev, -⟩
    · exact h.called c hc
    · exact absurd hc.1 (hs c)
    · rw [List.getElem?_eq_none hn] at hev
      cases hev

theorem cbKept_pollingStep (s : Httpd) (c : ConnId) (os : Os) :
    CbKept os (polledJs s c os) (pollingStep s c os) := by
  rcases pollingStep_cases s c os with ⟨-, -, heq⟩ | ⟨-, -, heq⟩ | heq
  · rw [heq]
    exact cbKept_cleanup os _ c
  · rw [heq]
    exact .of_same [] (by simp) (by simp) rfl rfl (fun _ => ⟨rfl, rfl⟩)
  · rw [heq]
    exact (cbKept_log os _ (by simp)).trans (cbKept_cleanup os _ c)

/-- The poll keeps a completed response, and completes the one that it calls
back for. -/
theorem polledJs_completed {s : Httpd} {c d : ConnId} {os : Os} (hleft : CbLeaves os)
    (h : (s.conns d).response.completed = true ∨ (d = c ∧ os.jsResponse.isSome)) :
    ((polledJs s c os).conns d).response.completed = true := by
  by_cases hd : d = c
  · subst hd
    rw [polledJs_response]
    cases hr : os.jsResponse with
    | some r => exact (hleft.2 r hr).completed
    | none => simpa [hr] using h
  · simpa [polledJs, Httpd.setResponse, hd] using h

/-- The poll of a connection. -/
theorem CallsOk.polled {o : Observed} (h : CallsOk l y o) {os : Os} (hleft : CbLeaves os)
    {c : ConnId} (hs : o.task.phase = .polling c) : CallsOk l y (observe cfg l y o os) := by
  have hkept := cbKept_pollingStep o.task c os
  have hnext : (polledJs o.task c os).nextConn = o.task.nextConn := rfl
  have hstep : step cfg l y o.task os = pollingStep o.task c os := by simp only [step, hs]
  have hdone : ∀ d, d < o.task.nextConn →
      ((o.task.conns d).response.completed = true ∨ (d = c ∧ os.jsResponse.isSome)) →
      d < (pollingStep o.task c os).nextConn ∧
        ((pollingStep o.task c os).conns d).response.completed = true :=
    fun d hd hcb => ⟨lt_of_lt_of_le hd hkept.nextConn,
      hkept.kept d hd (polledJs_completed hleft hcb)⟩
  refine ⟨step_received h.received os, ?_, ?_, ?_⟩
  · intro d hd
    simp only [observe, hstep] at hd ⊢
    rw [hkept.fresh d hd, (polledJs_conns o.task c d os).2.2]
    exact h.fresh d (hkept.nextConn.trans hd)
  · intro d hd
    simp only [observe, hstep] at hd
    rw [hkept.phase] at hd
    cases hd
  · intro d hd
    simp only [observe, hstep] at hd ⊢
    rcases hd with hd | hd | ⟨n, args, hn, hev, hcb⟩
    · exact hdone d (h.called d hd).1 (Or.inl (h.called d hd).2)
    · obtain rfl : d = c := by simpa [hs, eq_comm] using hd.1
      exact hdone d (h.polling d hs) (Or.inr ⟨rfl, hd.2⟩)
    · by_cases hn' : (polledJs o.task c os).trace.length ≤ n
      · exact hkept.called n d args hn' hev hcb
      · -- the first event of the step is the poll itself
        obtain ⟨es, hes⟩ := hkept.trace
        have hlast : n = o.task.trace.length := by
          simp only [polledJs_trace, List.length_append, List.length_singleton] at hn'
          omega
        rw [hes, hlast, polledJs_trace] at hev
        simp at hev

/-- Each step keeps what is known of the calls. -/
theorem CallsOk.step {o : Observed} (h : CallsOk l y o) {os : Os} (hleft : CbLeaves os) :
    CallsOk l y (observe cfg l y o os) := by
  have hafter : ∀ c, afterPoll cfg = .polling c → (o.task.conns c).fd ≠ -1 :=
    fun c hc => absurd hc (afterPoll_notPolling cfg c)
  cases hs : o.task.phase with
  | loop =>
    have hne : ∀ c, o.task.phase ≠ .polling c := by simp [hs]
    have hstep : httpd.step cfg l y o.task os =
        if os.shouldExit then
          { o.task with loop := uvIoStop o.task.loop .server UV_POLLIN, phase := .exited }
        else pollStep cfg o.task os := by simp only [httpd.step, hs]
    split at hstep
    · exact h.moved hne hstep (by simp)
    · obtain ⟨loop, p, heq, -, rfl | rfl⟩ := pollStep_moves cfg o.task os
      · exact h.moved hne (hstep.trans heq) hafter
      · exact h.moved hne (hstep.trans heq) (by simp)
  | iterating i =>
    have hne : ∀ c, o.task.phase ≠ .polling c := by simp [hs]
    have hstep : httpd.step cfg l y o.task os = slotStep cfg l y o.task i os := by
      simp only [httpd.step, hs]
    have hslot : CbKept os { o.task with
          loop := (uvPollSlot o.task.loop i).1, phase := .iterating (i + 1) }
        (httpd.step cfg l y o.task os) → CallsOk l y (observe cfg l y o os) :=
      h.slot hs rfl rfl rfl (by simp)
    rw [hstep] at hslot
    unfold slotStep at hstep hslot
    split at hstep
    · exact h.moved hne hstep hafter
    · rename_i hlt
      apply hslot
      rw [if_neg hlt]
      simp only
      cases hcall : (uvPollSlot o.task.loop i).2 with
      | none => exact CbKept.refl os _
      | some r =>
        obtain ⟨w, events⟩ := r
        cases w with
        | server => exact cbKept_onConnected cfg _ events os
        | conn c =>
          obtain ⟨pe, -, -, hw⟩ := uvPollSlot_calls hcall
          exact cbKept_onPoll cfg l y hleft (by exact h.received.watched _ c hw) events
  | drain =>
    have hne : ∀ c, o.task.phase ≠ .polling c := by simp [hs]
    have hstep : httpd.step cfg l y o.task os = drainStep o.task := by simp only [httpd.step, hs]
    obtain ⟨q, p, heq, hp⟩ := drainStep_moves o.task
    refine h.moved hne (hstep.trans heq) ?_
    intro d hd
    rcases hp with rfl | rfl | ⟨c, rfl, hfd⟩
    · cases hd
    · exact absurd hd (hne d)
    · rw [← Phase.polling.inj hd]
      exact hfd
  | polling c => exact h.polled hleft hs
  | exited =>
    have hstep : httpd.step cfg l y o.task os = o.task := by simp only [httpd.step, hs]
    exact h.moved (by simp [hs]) hstep (fun c hc => absurd hc (by simp [hs]))

theorem start_calls (serverfd : Nat) : CallsOk l y (Observed.start serverfd) where
  received := start_received serverfd
  fresh _ _ := rfl
  polling c hc := by cases hc
  called c hc := hc.elim

/-- Where the callback is always called with a value, a run delivers exactly if
no poll that fails has a result. -/
theorem every_result_is_delivered_iff {serverfd : Nat} {is : List Os}
    (hleft : ∀ os ∈ is, CbLeaves os) :
    StepsOk (observe cfg l y) (Delivers cfg l y) (Observed.start serverfd) is ↔
      StepsOk (step cfg l y) FailsWithoutResult (start serverfd) is := by
  have hlift :
      StepsOk (observe cfg l y) (fun o => FailsWithoutResult o.task)
          (Observed.start serverfd) is ↔
        StepsOk (step cfg l y) FailsWithoutResult (start serverfd) is :=
    stepsOk_lift_iff (f := Observed.task) (fun _ _ => rfl)
  rw [← hlift]
  constructor
  · intro h
    exact (h.and (.of_forall hleft)).mono
      (fun o os hd => failsWithoutResult_of_delivers hd.2 hd.1)
  · intro h
    refine (h.and (.of_forall hleft)).with_inv (I := CallsOk l y) ?_ (start_calls serverfd)
    intro o os ho ⟨hfail, hl⟩
    have hnext : CallsOk l y (observe cfg l y o os) := ho.step hl
    refine ⟨hnext, fun c hs => ?_⟩
    have hstep : (observe cfg l y o os).task = pollingStep o.task c os := by
      simp only [observe, httpd.step, hs]
    simp only [FailsWithoutResult, hs] at hfail
    obtain ⟨hwrote, hbare⟩ := pollingStep_delivers hfail
    simp only [hstep]
    refine ⟨hwrote, fun h hcalled => ?_⟩
    have hdone := (hnext.called c hcalled).2
    rw [hstep, hbare h] at hdone
    cases hdone

end Run

/-! ## Two runs -/

theorem cbLeaves_of_none {os : Os} (hhandler : os.handler = fun _ => none)
    (hresponse : os.jsResponse = none) : CbLeaves os :=
  ⟨fun n r h => by simp [hhandler] at h, fun r h => by simp [hresponse] at h⟩

/-- What the callback leaves for a value with no fields. -/
def emptyResult : Response := { Response.initial with completed := true }

theorem cbLeft_emptyResult : CbLeft emptyResult :=
  ⟨.quickjs, ⟨none, none, .other⟩, [], Response.initial, rfl⟩

/-- One request for `/`, whose handler calls back in the first poll, with a
result for this poll. -/
def calledInPoll (result : Int) : List Os :=
  acceptAt 5 ++ receiveAt (getRequest "/") ++
    [Os.quiet, Os.quiet, { Os.quiet with jsPoll := result, jsResponse := some emptyResult }]

theorem calledInPoll_leaves (result : Int) : ∀ os ∈ calledInPoll result, CbLeaves os := by
  intro os hos
  simp only [calledInPoll, acceptAt, receiveAt, List.cons_append, List.nil_append,
    List.mem_cons, List.not_mem_nil, or_false] at hos
  rcases hos with rfl | rfl | rfl | rfl | rfl | rfl | rfl | rfl | rfl | rfl
  all_goals try exact cbLeaves_of_none rfl rfl
  constructor
  · intro n r h
    cases h
  · intro r h
    cases h
    exact cbLeft_emptyResult

theorem a_result_of_a_good_poll_is_delivered :
    StepsOk (observe { maxConns := 12, hasHandler := true } rootLlhttp slashYuarel)
      (Delivers { maxConns := 12, hasHandler := true } rootLlhttp slashYuarel) (Observed.start 3)
      (calledInPoll 0) :=
  (every_result_is_delivered_iff (calledInPoll_leaves 0)).mpr (by decide +kernel)

/-- The handler calls back in a poll that then fails: the connection is closed
with nothing written. -/
theorem a_result_of_a_failed_poll_is_dropped :
    ¬∀ (cfg : Config) (l : Llhttp) (y : Yuarel) (serverfd : Nat) (is : List Os),
      (∀ os ∈ is, CbLeaves os) →
        StepsOk (observe cfg l y) (Delivers cfg l y) (Observed.start serverfd) is := by
  intro h
  have hleft := calledInPoll_leaves (-1)
  have hdelivers := h { maxConns := 12, hasHandler := true } rootLlhttp slashYuarel 3
    (calledInPoll (-1)) hleft
  have hfail := (hdelivers.and (.of_forall hleft)).mono
    (fun o os hd => failsWithoutResult_of_delivers hd.2 hd.1)
  have hrun : StepsOk (step { maxConns := 12, hasHandler := true } rootLlhttp slashYuarel)
      FailsWithoutResult (start 3) (calledInPoll (-1)) :=
    (stepsOk_lift_iff (f := Observed.task) (fun _ _ => rfl)).mp hfail
  exact absurd hrun (by decide +kernel)

end isere.httpd
