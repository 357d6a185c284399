-- What a connection received: in every run its request is made by the callbacks
-- for the chunks that its parser was given, and so are the arguments that the
-- handler was called with.
import Isere.HttpdInvariant

open cstring runs isere.uv isere.tcp

namespace isere.httpd

/-- The callbacks for some chunks, after those in `fed`. -/
def Llhttp.callbacks (l : Llhttp) : List Bytes → List Bytes → List Callback
  | _, [] => []
  | fed, c :: cs => (l.execute fed c).1 ++ l.callbacks (fed ++ [c]) cs

/-- The request of a connection that received these chunks. -/
def received (l : Llhttp) (y : Yuarel) (cs : List Bytes) : Request :=
  (l.callbacks [] cs).foldl (Request.onCallback y) Request.zero

theorem callbacks_append (l : Llhttp) (fed cs cs' : List Bytes) :
    l.callbacks fed (cs ++ cs') = l.callbacks fed cs ++ l.callbacks (fed ++ cs) cs' := by
  induction cs generalizing fed with
  | nil => simp [Llhttp.callbacks]
  | cons c cs ih => simp [Llhttp.callbacks, ih]

theorem callbacks_snoc (l : Llhttp) (cs : List Bytes) (c : Bytes) :
    l.callbacks [] (cs ++ [c]) = l.callbacks [] cs ++ (l.execute cs c).1 := by
  simp [callbacks_append, Llhttp.callbacks]

/-- The handler got the request that these callbacks had made when a message
ended among them. -/
def HandedAt (y : Yuarel) (cbs : List Callback) (args : HandlerArgs) : Prop :=
  ∃ pre post, cbs = pre ++ .messageComplete :: post ∧
    args = (pre.foldl (Request.onCallback y) Request.zero).handlerArgs

theorem HandedAt.append {y : Yuarel} {cbs : List Callback} {args : HandlerArgs}
    (h : HandedAt y cbs args) (cbs' : List Callback) : HandedAt y (cbs ++ cbs') args := by
  obtain ⟨pre, post, rfl, hargs⟩ := h
  exact ⟨pre, post ++ cbs', by simp, hargs⟩

/-! ## A rule for steps -/

/-- Every part of a step keeps the property. -/
structure StepKeeps (cfg : Config) (l : Llhttp) (y : Yuarel) (I : Httpd → Prop) : Prop where
  watched : ∀ s, I s → ∀ fd c, s.loop.watchers fd = some (.conn c) → c < s.nextConn
  table : ∀ s s', I s → s'.conns = s.conns → s'.nextConn = s.nextConn → s'.trace = s.trace →
    (∀ fd w, s'.loop.watchers fd = some w → s.loop.watchers fd = some w) → I s'
  polled : ∀ s c, I s → I (s.log (.polled c))
  answered : ∀ s c a, I s → a ≠ .notFound → I (s.log (.wrote c a))
  polledJs : ∀ s c os, I s → I (polledJs s c os)
  cleanup : ∀ s c, I s → I (httpdCleanupConn s c)
  execute : ∀ s c chunk os, I s → c < s.nextConn → chunk ≠ [] →
    chunk.length ≤ ISERE_HTTPD_LINE_BUFFER_LEN → I (llhttpExecute cfg l y s c os chunk).1
  accept : ∀ s fd, I s → I (addConn s fd)

section Rule

variable {cfg : Config} {l : Llhttp} {y : Yuarel} {I : Httpd → Prop}

theorem StepKeeps.onPoll (h : StepKeeps cfg l y I) {s : Httpd} (hs : I s) {c : ConnId}
    (hc : c < s.nextConn) (events : Events) (os : Os) : I (onPoll cfg l y s c events os) := by
  have hpolled := h.polled s c hs
  unfold httpd.onPoll
  split
  · exact hs
  · simp only
    split
    · exact hpolled
    · exact h.cleanup _ c hpolled
    · split
      · exact h.cleanup _ c hpolled
      · rename_i hne
        split
        · exact h.cleanup _ c (h.answered _ c .tooLarge hpolled (by simp))
        · have hexec := h.execute _ c _ os hpolled hc hne (List.length_take_le _ _)
          split
          · exact h.cleanup _ c hexec
          · exact hexec

theorem StepKeeps.onConnected (h : StepKeeps cfg l y I) {s : Httpd} (hs : I s) (events : Events)
    (os : Os) : I (onConnected cfg s events os) := by
  rcases onConnected_cases cfg s events os with heq | ⟨-, -, heq⟩
  · rw [heq]
    exact hs
  · rw [heq]
    exact h.accept s os.accept hs

theorem httpdWriteback_found (r : Response) : httpdWriteback r ≠ .notFound := by
  unfold httpdWriteback
  split <;> simp

/-- What every part of a step keeps, a step keeps. -/
theorem StepKeeps.step (h : StepKeeps cfg l y I) {s : Httpd} (hs : I s) (os : Os) :
    I (step cfg l y s os) := by
  unfold httpd.step
  split
  · split
    · exact h.table _ _ hs rfl rfl rfl (fun _ _ hw => uvIoStop_watchers hw)
    · obtain ⟨loop, p, heq, hsame, -⟩ := pollStep_moves cfg s os
      rw [heq]
      exact h.table _ _ hs rfl rfl rfl (fun _ _ hw => hsame.watchers ▸ hw)
  · rename_i i hphase
    unfold slotStep
    split
    · exact h.table _ _ hs rfl rfl rfl (fun _ _ hw => hw)
    · have hsame := uvPollSlot_same s.loop i
      have hslot : I { s with loop := (uvPollSlot s.loop i).1, phase := .iterating (i + 1) } :=
        h.table _ _ hs rfl rfl rfl (fun _ _ hw => hsame.watchers ▸ hw)
      simp only
      cases hcall : (uvPollSlot s.loop i).2 with
      | none => exact hslot
      | some r =>
        obtain ⟨w, events⟩ := r
        cases w with
        | server => exact h.onConnected hslot events os
        | conn c =>
          obtain ⟨pe, -, -, hw⟩ := uvPollSlot_calls hcall
          exact h.onPoll hslot (h.watched s hs _ c hw) events os
  · obtain ⟨q, p, heq, -⟩ := drainStep_moves s
    rw [heq]
    exact h.table _ _ hs rfl rfl rfl (fun _ _ hw => hw)
  · rename_i c hphase
    have hpolled := h.polledJs s c os hs
    rcases pollingStep_cases s c os with ⟨-, -, heq⟩ | ⟨-, -, heq⟩ | heq
    · rw [heq]
      exact h.cleanup _ c hpolled
    · rw [heq]
      exact h.table _ _ hpolled rfl rfl rfl (fun _ _ hw => hw)
    · rw [heq]
      exact h.cleanup _ c (h.answered _ c _ hpolled (httpdWriteback_found _))
  · exact hs

end Rule

/-! ## Steps that read nothing -/

/-- The parts of the state that tell what was received do not change: the
requests and the chunks, the calls of the handler, and who may be watched. -/
structure Quiet (s s' : Httpd) : Prop where
  req : ∀ c, (s'.conns c).req = (s.conns c).req
  fed : ∀ c, (s'.conns c).fed = (s.conns c).fed
  nextConn : s'.nextConn = s.nextConn
  watchers : ∀ fd w, s'.loop.watchers fd = some w → s.loop.watchers fd = some w
  handler : ∀ c a, Event.handler c a ∈ s'.trace → Event.handler c a ∈ s.trace

theorem Quiet.refl (s : Httpd) : Quiet s s :=
  ⟨fun _ => rfl, fun _ => rfl, rfl, fun _ _ h => h, fun _ _ h => h⟩

theorem Quiet.trans {s s' s'' : Httpd} (h : Quiet s s') (h' : Quiet s' s'') : Quiet s s'' where
  req c := (h'.req c).trans (h.req c)
  fed c := (h'.fed c).trans (h.fed c)
  nextConn := h'.nextConn.trans h.nextConn
  watchers fd w hw := h.watchers fd w (h'.watchers fd w hw)
  handler c a ha := h.handler c a (h'.handler c a ha)

/-- A change of the queue, the table or the phase. -/
theorem Quiet.of_same {s s' : Httpd} (hconns : s'.conns = s.conns)
    (hnext : s'.nextConn = s.nextConn) (htrace : s'.trace = s.trace)
    (hw : ∀ fd w, s'.loop.watchers fd = some w → s.loop.watchers fd = some w) : Quiet s s' :=
  ⟨fun _ => by rw [hconns], fun _ => by rw [hconns], hnext, hw, fun _ _ h => htrace ▸ h⟩

theorem quiet_log (s : Httpd) {e : Event} (he : ∀ c a, e ≠ .handler c a) : Quiet s (s.log e) := by
  refine ⟨fun _ => rfl, fun _ => rfl, rfl, fun _ _ h => h, fun c a h => ?_⟩
  rcases List.mem_append.mp h with h | h
  · exact h
  · exact absurd (List.mem_singleton.mp h).symm (he c a)

theorem quiet_cleanup (s : Httpd) (c : ConnId) : Quiet s (httpdCleanupConn s c) := by
  refine ⟨fun d => ?_, fun d => ?_, cleanup_nextConn s c, fun fd w h => ?_, fun d a h => ?_⟩
  · rw [cleanup_conns]
    split <;> simp_all
  · rw [cleanup_conns]
    split <;> simp_all
  · rw [cleanup_loop] at h
    exact uvIoStop_watchers h
  · rw [cleanup_trace] at h
    simpa using h

/-! ## A call of llhttp -/

section Call

variable (cfg : Config) (l : Llhttp) (y : Yuarel)

/-- After callbacks on a connection its request is the one of all callbacks
since the accept, and the handler got a request of theirs. -/
structure Heard (s s' : Httpd) (c : ConnId) (all : List Callback) : Prop where
  req : (s'.conns c).req = all.foldl (Request.onCallback y) Request.zero
  other : ∀ d, d ≠ c → (s'.conns d).req = (s.conns d).req
  fed : ∀ d, (s'.conns d).fed = (s.conns d).fed
  nextConn : s'.nextConn = s.nextConn
  watchers : ∀ fd w, s'.loop.watchers fd = some w → s.loop.watchers fd = some w
  handler : ∀ d a, Event.handler d a ∈ s'.trace →
    Event.handler d a ∈ s.trace ∨ (d = c ∧ HandedAt y all a)

/-- One callback. -/
theorem heard_one (c : ConnId) (os : Os) {s : Httpd} {done : List Callback}
    (h : (s.conns c).req = done.foldl (Request.onCallback y) Request.zero) (cb : Callback) :
    Heard y s (onCallback cfg y c os s cb) c (done ++ [cb]) := by
  by_cases hcb : cb = .messageComplete
  · subst hcb
    have hreq : (done ++ [Callback.messageComplete]).foldl (Request.onCallback y) Request.zero =
        (s.conns c).req := by
      rw [List.foldl_append, h]
      rfl
    cases hd : cfg.dispatches (s.conns c).req with
    | true =>
      rw [onCallback_dispatch cfg y c os s hd]
      refine ⟨?_, fun d hne => ?_, fun d => ?_, rfl, fun fd w hw => uvIoStop_watchers hw, ?_⟩
      · simp [hreq]
      · simp [hne]
      · by_cases hne : d = c <;> simp [hne]
      · intro d a ha
        simp only [log_trace, dispatch_trace, stopReading_trace, List.mem_append,
          List.mem_singleton, Event.handler.injEq, reduceCtorEq, or_false] at ha
        rcases ha with ha | ⟨rfl, rfl⟩
        · exact Or.inl ha
        · exact Or.inr ⟨rfl, done, [], rfl, by rw [← h]; rfl⟩
    | false =>
      obtain ⟨a, -, heq⟩ := onCallback_answer cfg y c os s hd
      rw [heq]
      refine ⟨?_, fun d hne => ?_, fun d => ?_, ?_, fun fd w hw => ?_, ?_⟩
      · simp [hreq]
      · simp [hne]
      · by_cases hne : d = c <;> simp [hne]
      · simp
      · simp only [log_loop, cleanup_loop] at hw
        exact uvIoStop_watchers (uvIoStop_watchers hw)
      · intro d a ha
        left
        simpa using ha
  · rw [onCallback_piece cfg y c os s hcb]
    refine ⟨?_, fun d hne => ?_, fun d => ?_, rfl, fun fd w hw => hw, ?_⟩
    · simp [Httpd.setReq, h]
    · simp [Httpd.setReq, hne]
    · by_cases hne : d = c <;> simp [Httpd.setReq, hne]
    · intro d a ha
      left
      simpa [Httpd.setReq] using ha

/-- All callbacks of a call. -/
theorem heard_all (c : ConnId) (os : Os) {s : Httpd} {done : List Callback}
    (h : (s.conns c).req = done.foldl (Request.onCallback y) Request.zero) (cbs : List Callback) :
    Heard y s (cbs.foldl (onCallback cfg y c os) s) c (done ++ cbs) := by
  induction cbs generalizing s done with
  | nil =>
    refine ⟨?_, fun _ _ => rfl, fun _ => rfl, rfl, fun _ _ h => h, fun _ _ h => Or.inl h⟩
    rw [List.append_nil]
    exact h
  | cons cb cbs ih =>
    have hone := heard_one cfg y c os h cb
    have hrest := ih hone.req
    have hcat : done ++ [cb] ++ cbs = done ++ cb :: cbs := by simp
    rw [hcat] at hrest
    refine ⟨hrest.req, ?_, ?_, ?_, ?_, ?_⟩
    · exact fun d hne => (hrest.other d hne).trans (hone.other d hne)
    · exact fun d => (hrest.fed d).trans (hone.fed d)
    · exact hrest.nextConn.trans hone.nextConn
    · exact fun fd w hw => hone.watchers fd w (hrest.watchers fd w hw)
    · intro d a ha
      rcases hrest.handler d a ha with ha | ha
      · rcases hone.handler d a ha with ha | ⟨hd, hh⟩
        · exact Or.inl ha
        · refine Or.inr ⟨hd, ?_⟩
          rw [← hcat]
          exact hh.append cbs
      · exact Or.inr ha

end Call

/-! ## A run -/

/-- What the connections received, so far. -/
structure ReceivedOk (l : Llhttp) (y : Yuarel) (s : Httpd) : Prop where
  watched : ∀ fd c, s.loop.watchers fd = some (.conn c) → c < s.nextConn
  fresh : ∀ c, s.nextConn ≤ c → (s.conns c).fed = [] ∧ ∀ a, Event.handler c a ∉ s.trace
  req : ∀ c, (s.conns c).req = received l y (s.conns c).fed
  sizes : ∀ c, ∀ chunk ∈ (s.conns c).fed,
    chunk ≠ [] ∧ chunk.length ≤ ISERE_HTTPD_LINE_BUFFER_LEN
  handed : ∀ c a, Event.handler c a ∈ s.trace → HandedAt y (l.callbacks [] (s.conns c).fed) a

section Step

variable {cfg : Config} {l : Llhttp} {y : Yuarel}

theorem ReceivedOk.quiet {s s' : Httpd} (h : ReceivedOk l y s) (hq : Quiet s s') :
    ReceivedOk l y s' := by
  refine ⟨?_, ?_, ?_, ?_, ?_⟩
  · intro fd c hw
    rw [hq.nextConn]
    exact h.watched fd c (hq.watchers fd _ hw)
  · intro c hc
    rw [hq.nextConn] at hc
    rw [hq.fed]
    exact ⟨(h.fresh c hc).1, fun a ha => (h.fresh c hc).2 a (hq.handler c a ha)⟩
  · intro c
    rw [hq.req, hq.fed]
    exact h.req c
  · intro c
    rw [hq.fed]
    exact h.sizes c
  · intro c a ha
    rw [hq.fed]
    exact h.handed c a (hq.handler c a ha)

/-- A chunk for a connection that was accepted. -/
theorem ReceivedOk.execute {s : Httpd} (h : ReceivedOk l y s) {c : ConnId} (hc : c < s.nextConn)
    {chunk : Bytes} (hne : chunk ≠ []) (hlen : chunk.length ≤ ISERE_HTTPD_LINE_BUFFER_LEN)
    (os : Os) : ReceivedOk l y (llhttpExecute cfg l y s c os chunk).1 := by
  have hreq : ((s.setConn c { s.conns c with fed := (s.conns c).fed ++ [chunk] }).conns c).req =
      (l.callbacks [] (s.conns c).fed).foldl (Request.onCallback y) Request.zero := by
    simpa [received] using h.req c
  have hheard := heard_all cfg y c os hreq (l.execute (s.conns c).fed chunk).1
  rw [← callbacks_snoc] at hheard
  have hfed : ∀ d, ((llhttpExecute cfg l y s c os chunk).1.conns d).fed =
      if d = c then (s.conns c).fed ++ [chunk] else (s.conns d).fed := by
    intro d
    refine (hheard.fed d).trans ?_
    by_cases hd : d = c <;> simp [hd]
  have hnext : (llhttpExecute cfg l y s c os chunk).1.nextConn = s.nextConn := hheard.nextConn
  refine ⟨?_, ?_, ?_, ?_, ?_⟩
  · intro fd d hw
    rw [hnext]
    exact h.watched fd d (hheard.watchers fd _ hw)
  · intro d hd
    rw [hnext] at hd
    have hdc : d ≠ c := by
      rintro rfl
      exact Nat.lt_irrefl _ (lt_of_lt_of_le hc hd)
    rw [hfed, if_neg hdc]
    refine ⟨(h.fresh d hd).1, fun a ha => ?_⟩
    rcases hheard.handler d a ha with ha | ⟨hd', -⟩
    · exact (h.fresh d hd).2 a ha
    · exact hdc hd'
  · intro d
    rw [hfed]
    by_cases hd : d = c
    · subst hd
      rw [if_pos rfl]
      exact hheard.req
    · rw [if_neg hd]
      refine (hheard.other d hd).trans ?_
      simpa [hd] using h.req d
  · intro d
    rw [hfed]
    by_cases hd : d = c
    · rw [if_pos hd]
      intro b hb
      rcases List.mem_append.mp hb with hb | hb
      · exact h.sizes c b hb
      · rw [List.mem_singleton.mp hb]
        exact ⟨hne, hlen⟩
    · rw [if_neg hd]
      exact h.sizes d
  · intro d a ha
    rw [hfed]
    rcases hheard.handler d a ha with ha | ⟨hd, hh⟩
    · have hold := h.handed d a ha
      by_cases hd : d = c
      · subst hd
        rw [if_pos rfl, callbacks_snoc]
        exact hold.append _
      · rw [if_neg hd]
        exact hold
    · rw [if_pos hd]
      exact hh

theorem ReceivedOk.addConn {s : Httpd} (h : ReceivedOk l y s) (fd : Int) :
    ReceivedOk l y (addConn s fd) := by
  have hconns : ∀ c, (httpd.addConn s fd).conns c =
      if c = s.nextConn then HttpdConn.initial fd else s.conns c := by
    intro c
    by_cases hc : c = s.nextConn
    · rw [if_pos hc, hc, addConn_conns_self]
    · rw [if_neg hc, addConn_conns_other s hc]
  have htrace : ∀ c a, Event.handler c a ∈ (httpd.addConn s fd).trace →
      Event.handler c a ∈ s.trace := by
    intro c a ha
    simpa using ha
  refine ⟨?_, ?_, ?_, ?_, ?_⟩
  · intro fd' c hw
    rw [addConn_nextConn]
    rcases uvIoStart_watchers hw with hw | hw
    · exact Nat.lt_succ_of_lt (h.watched fd' c hw)
    · rw [WatcherId.conn.inj hw.1]
      exact Nat.lt_succ_self _
  · intro c hc
    rw [addConn_nextConn] at hc
    have hne : c ≠ s.nextConn := by
      rintro rfl
      exact Nat.lt_irrefl _ hc
    rw [hconns, if_neg hne]
    have hold := h.fresh c (Nat.le_of_succ_le hc)
    exact ⟨hold.1, fun a ha => hold.2 a (htrace c a ha)⟩
  · intro c
    rw [hconns]
    split
    · rfl
    · exact h.req c
  · intro c
    rw [hconns]
    split
    · intro b hb
      cases hb
    · exact h.sizes c
  · intro c a ha
    rw [hconns]
    split
    · rename_i hc
      exact absurd (htrace c a ha) ((h.fresh c (Nat.le_of_eq hc.symm)).2 a)
    · exact h.handed c a (htrace c a ha)

theorem ReceivedOk.polledJs {s : Httpd} (h : ReceivedOk l y s) (c : ConnId) (os : Os) :
    ReceivedOk l y (polledJs s c os) := by
  have hlog := h.quiet (quiet_log s (e := .jsPolled c os.jsPoll) (by simp))
  refine hlog.quiet ⟨?_, ?_, rfl, ?_, ?_⟩
  · intro d
    by_cases hd : d = c <;> simp [httpd.polledJs, Httpd.setResponse, hd]
  · intro d
    by_cases hd : d = c <;> simp [httpd.polledJs, Httpd.setResponse, hd]
  · exact fun _ _ hw => hw
  · exact fun _ _ ha => ha

variable (cfg) in
theorem received_keeps : StepKeeps cfg l y (ReceivedOk l y) where
  watched _ h := h.watched
  table _ _ h hconns hnext htrace hw := h.quiet (.of_same hconns hnext htrace hw)
  polled s _ h := h.quiet (quiet_log s (by simp))
  answered s _ _ h _ := h.quiet (quiet_log s (by simp))
  polledJs _ c os h := h.polledJs c os
  cleanup s c h := h.quiet (quiet_cleanup s c)
  execute _ _ _ os h hc hne hlen := h.execute hc hne hlen os
  accept _ fd h := h.addConn fd

/-- Each step of the task keeps what was received. -/
theorem step_received {s : Httpd} (h : ReceivedOk l y s) (os : Os) :
    ReceivedOk l y (step cfg l y s os) := (received_keeps cfg).step h os

theorem start_received (serverfd : Nat) : ReceivedOk l y (start serverfd) := by
  refine ⟨?_, ?_, ?_, ?_, ?_⟩
  · intro fd c hw
    simp only [start] at hw
    rcases uvIoStart_watchers hw with hw | hw
    · cases hw
    · cases hw.1
  · exact fun c _ => ⟨rfl, fun a ha => by cases ha⟩
  · exact fun c => rfl
  · intro c b hb
    cases hb
  · intro c a ha
    cases ha

/-- In every run, the handler of a connection got a request that the callbacks
for its chunks had made. -/
theorem run_received (serverfd : Nat) (is : List Os) :
    ReceivedOk l y (run (step cfg l y) (start serverfd) is) := by
  apply run_inv_all (I := ReceivedOk l y)
  · exact fun s os h => step_received h os
  · exact start_received serverfd

end Step

end isere.httpd
