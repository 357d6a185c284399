-- The server and its event loop in memory. Each step of the server makes a list
-- of calls on the loop. In a run that cleans no connection up twice they stay
-- inside of the arrays, whatever comes back from the system and the heap.
import Isere.Sockets
import Isere.UvCalls

open checked cstring intrusive isere.tcp isere.uv isere.uv.memory runs

namespace isere.httpd

section Calls

variable (cfg : Config) (l : Llhttp) (y : Yuarel)

/-! ## The calls of a step -/

/-- The calls of `__on_message_complete` on the loop: it stops the watcher, and the
cleanup of a request that it answers stops it again. -/
def callbackCalls (s : Httpd) (c : ConnId) : Callback → List (LoopCall WatcherId)
  | .messageComplete =>
    if cfg.dispatches (s.conns c).req then [.stop (.conn c)]
    else [.stop (.conn c), .stop (.conn c)]
  | _ => []

/-- The calls of the callbacks that `llhttp_execute` makes. -/
def callbacksCalls (c : ConnId) (os : Os) : Httpd → List Callback → List (LoopCall WatcherId)
  | _, [] => []
  | s, cb :: cbs => callbackCalls cfg s c cb ++ callbacksCalls c os (onCallback cfg y c os s cb) cbs

/-- The calls of `llhttp_execute`, and of the cleanup after an error. -/
def executeCalls (s : Httpd) (c : ConnId) (os : Os) (chunk : Bytes) :
    List (LoopCall WatcherId) :=
  let r := l.execute (s.conns c).fed chunk
  let s := s.setConn c { s.conns c with fed := (s.conns c).fed ++ [chunk] }
  callbacksCalls cfg y c os s r.1 ++ if r.2 = .HPE_OK then [] else [.stop (.conn c)]

/-- The calls of `__on_poll`. -/
def onPollCalls (s : Httpd) (c : ConnId) (events : Events) (os : Os) :
    List (LoopCall WatcherId) :=
  if events &&& UV_POLLIN ≠ UV_POLLIN then []
  else
    let s := s.log (.polled c)
    match os.recv with
    | .eintr => []
    | .error => [.stop (.conn c)]
    | .data avail =>
      let chunk := avail.take ISERE_HTTPD_LINE_BUFFER_LEN
      if chunk = [] ∨ (s.conns c).recvd + chunk.length > ISERE_HTTPD_MAX_HTTP_REQUEST_LEN then
        [.stop (.conn c)]
      else executeCalls cfg l y s c os chunk

/-- The calls of `__on_connected`. -/
def onConnectedCalls (s : Httpd) (events : Events) (os : Os) : List (LoopCall WatcherId) :=
  if events &&& UV_POLLIN ≠ UV_POLLIN then []
  else
    let r := isereTcpAccept cfg.maxConns s.tcp os.accept
    if r.2 < 0 ∨ !os.mallocOk then []
    else [.init (.conn s.nextConn) r.2, .start (.conn s.nextConn)]

/-- The calls of a step of `__httpd_task`. -/
def stepCalls (s : Httpd) (os : Os) : List (LoopCall WatcherId) :=
  match s.phase with
  | .loop => if os.shouldExit then [.stop .server] else [.poll os.ready os.eintr os.revents]
  | .iterating i =>
    if s.loop.pollFds.length ≤ i then [.done]
    else
      let r := uvPollSlot s.loop i
      let s := { s with loop := r.1, phase := .iterating (i + 1) }
      .slot i ::
        match r.2 with
        | none => []
        | some (.server, events) => onConnectedCalls cfg s events os
        | some (.conn c, events) => onPollCalls cfg l y s c events os
  | .drain => []
  | .polling c =>
    if !(s.conns c).response.completed ∧ 0 < os.jsPoll then []
    else [.stop (.conn c)]
  | .exited => []

/-- The calls of a run. -/
def runCalls : Httpd → List Os → List (LoopCall WatcherId)
  | _, [] => []
  | s, os :: is => stepCalls cfg l y s os ++ runCalls (step cfg l y s os) is

end Calls

variable {cfg : Config} {l : Llhttp} {y : Yuarel} {serverfd : Nat} {s : Httpd} {c : ConnId}
  {os : Os}

/-- What the calls do to the loop of lists. -/
abbrev loopAfter (loop : UvLoop WatcherId) (calls : List (LoopCall WatcherId)) : UvLoop WatcherId :=
  runs.run (LoopCall.run UV_POLLIN) loop calls

theorem callbackCalls_run (cb : Callback) :
    loopAfter s.loop (callbackCalls cfg s c cb) = (onCallback cfg y c os s cb).loop := by
  by_cases hcb : cb = .messageComplete
  · subst hcb
    unfold callbackCalls
    cases hd : cfg.dispatches (s.conns c).req with
    | true =>
      rw [onCallback_dispatch cfg y c os s hd]
      rfl
    | false =>
      obtain ⟨a, -, heq⟩ := onCallback_answer cfg y c os s hd
      rw [heq, log_loop, cleanup_loop]
      rfl
  · rw [onCallback_piece cfg y c os s hcb]
    cases cb <;> first | rfl | exact absurd rfl hcb

theorem callbacksCalls_run (s : Httpd) (cbs : List Callback) :
    loopAfter s.loop (callbacksCalls cfg y c os s cbs) =
      (cbs.foldl (onCallback cfg y c os) s).loop := by
  induction cbs generalizing s with
  | nil => rfl
  | cons cb cbs ih =>
    rw [callbacksCalls, loopAfter, run_append, List.foldl_cons, ← ih]
    exact congrArg (loopAfter · _) (callbackCalls_run cb)

theorem cleanupCalls_run (s : Httpd) (c : ConnId) :
    loopAfter s.loop [.stop (.conn c)] = (httpdCleanupConn s c).loop :=
  (cleanup_loop s c).symm

theorem executeCalls_run (chunk : Bytes) : loopAfter s.loop (executeCalls cfg l y s c os chunk) =
    (if (llhttpExecute cfg l y s c os chunk).2 ≠ .HPE_OK then
      httpdCleanupConn (llhttpExecute cfg l y s c os chunk).1 c
      else (llhttpExecute cfg l y s c os chunk).1).loop := by
  unfold executeCalls
  simp only
  rw [loopAfter, run_append]
  refine (congrArg (loopAfter · _) (callbacksCalls_run
    (s.setConn c { s.conns c with fed := (s.conns c).fed ++ [chunk] }) _)).trans ?_
  have hsame : (llhttpExecute cfg l y s c os chunk).2 = (l.execute (s.conns c).fed chunk).2 := rfl
  rw [hsame]
  by_cases herr : (l.execute (s.conns c).fed chunk).2 = .HPE_OK
  · rw [if_pos herr, if_neg (not_not_intro herr)]
    rfl
  · rw [if_neg herr, if_pos herr]
    exact cleanupCalls_run _ c

theorem onPollCalls_run (events : Events) :
    loopAfter s.loop (onPollCalls cfg l y s c events os) = (onPoll cfg l y s c events os).loop := by
  unfold onPollCalls onPoll
  split
  · rfl
  · simp only
    cases os.recv with
    | eintr => rfl
    | error => exact cleanupCalls_run (s.log (.polled c)) c
    | data avail =>
      simp only
      by_cases hnil : avail.take ISERE_HTTPD_LINE_BUFFER_LEN = []
      · rw [if_pos (Or.inl hnil), if_pos hnil]
        exact cleanupCalls_run (s.log (.polled c)) c
      · rw [if_neg hnil]
        split
        · rename_i hlong
          rw [if_pos (hlong.resolve_left hnil)]
          exact cleanupCalls_run ((s.log (.polled c)).log (.wrote c .tooLarge)) c
        · rename_i hfits
          rw [not_or] at hfits
          rw [if_neg hfits.2]
          exact executeCalls_run (s := s.log (.polled c)) _

theorem onConnectedCalls_run (events : Events) :
    loopAfter s.loop (onConnectedCalls cfg s events os) =
      (onConnected cfg s events os).loop := by
  unfold onConnectedCalls onConnected
  split
  · rfl
  · simp only
    split
    · rename_i hno
      split
      · rfl
      · rename_i hpos
        rw [if_pos (hno.resolve_left hpos)]
        rfl
    · rename_i hyes
      rw [not_or] at hyes
      rw [if_neg hyes.1, if_neg hyes.2]
      rfl

theorem pollingCalls_run : loopAfter s.loop
    (if !(s.conns c).response.completed ∧ 0 < os.jsPoll then [] else [.stop (.conn c)]) =
      (pollingStep s c os).loop := by
  unfold pollingStep
  simp only
  cases hopen : (s.conns c).response.completed with
  | true =>
    rw [if_neg (by simp), if_neg (by simp)]
    exact cleanupCalls_run ((polledJs s c os).log _) c
  | false =>
    rcases Int.lt_trichotomy os.jsPoll 0 with hneg | hzero | hpos
    · rw [if_neg (by omega), if_pos ⟨rfl, by omega⟩, if_pos hneg]
      exact cleanupCalls_run (polledJs s c os) c
    · rw [if_neg (by omega), if_neg (fun h => h.2 hzero)]
      exact cleanupCalls_run ((polledJs s c os).log _) c
    · rw [if_pos ⟨rfl, hpos⟩, if_pos ⟨rfl, by omega⟩, if_neg (by omega)]
      rfl

theorem stepCalls_run :
    loopAfter s.loop (stepCalls cfg l y s os) = (step cfg l y s os).loop := by
  unfold stepCalls step
  cases hs : s.phase with
  | loop =>
    simp only
    split
    · rfl
    · simp only [pollStep, loopAfter, run_cons, run_nil, LoopCall.run]
      split
      · rfl
      · split <;> rfl
  | iterating i =>
    simp only [slotStep]
    split
    · rfl
    · simp only [loopAfter, run_cons]
      cases hcall : (uvPollSlot s.loop i).2 with
      | none => rfl
      | some r =>
        obtain ⟨w, events⟩ := r
        cases w with
        | server => exact onConnectedCalls_run (s := { s with
            loop := (uvPollSlot s.loop i).1, phase := .iterating (i + 1) }) events
        | conn c => exact onPollCalls_run (s := { s with
            loop := (uvPollSlot s.loop i).1, phase := .iterating (i + 1) }) events
  | drain =>
    obtain ⟨q, p, heq, -⟩ := drainStep_moves s
    simp only [heq]
    rfl
  | polling c => exact pollingCalls_run
  | exited => rfl

theorem runCalls_run (is : List Os) : loopAfter s.loop (runCalls cfg l y s is) =
    (runs.run (step cfg l y) s is).loop := by
  induction is generalizing s with
  | nil => rfl
  | cons os is ih =>
    rw [runCalls, loopAfter, run_append, run_cons, ← ih]
    exact congrArg (loopAfter · _) stepCalls_run

/-! ## The calls are in order -/

/-- Each call is one that the loop allows. -/
abbrev LoopCallsOk (loop : UvLoop WatcherId) (calls : List (LoopCall WatcherId)) : Prop :=
  StepsOk (LoopCall.run UV_POLLIN) uv.CallOk loop calls

theorem callbackCalls_stop (cb : Callback) :
    ∀ call ∈ callbackCalls cfg s c cb, call = .stop (.conn c) := by
  unfold callbackCalls
  split
  · split <;> simp
  · simp

theorem callbacksCalls_stop (cbs : List Callback) :
    ∀ call ∈ callbacksCalls cfg y c os s cbs, call = .stop (.conn c) := by
  induction cbs generalizing s with
  | nil => simp [callbacksCalls]
  | cons cb cbs ih =>
    intro call hcall
    rcases List.mem_append.mp hcall with hin | hin
    · exact callbackCalls_stop cb call hin
    · exact ih call hin

/-- A connection only stops its own watcher. -/
theorem onPollCalls_stop (events : Events) :
    ∀ call ∈ onPollCalls cfg l y s c events os, call = .stop (.conn c) := by
  unfold onPollCalls
  split
  · simp
  · simp only
    cases os.recv with
    | eintr => simp
    | error => simp
    | data avail =>
      simp only
      split
      · simp
      · intro call hcall
        rcases List.mem_append.mp hcall with hin | hin
        · exact callbacksCalls_stop _ call hin
        · split at hin
          · cases hin
          · exact List.mem_singleton.mp hin

/-- The descriptor of an accept leaves the table of watchers its room. -/
def AcceptsSmall (os : Os) : Prop := os.accept + 3 ≤ 2 ^ 31

instance (os : Os) : Decidable (AcceptsSmall os) :=
  inferInstanceAs (Decidable (os.accept + 3 ≤ 2 ^ 31))

theorem onConnectedCalls_ok (h : SocketsOk serverfd s) (ha : AcceptsNew serverfd s os)
    (hsmall : AcceptsSmall os) (s' : Httpd) (hsame : SameTable s.loop s'.loop)
    (hnext : s'.nextConn = s.nextConn) (events : Events) :
    LoopCallsOk s'.loop (onConnectedCalls cfg s' events os) := by
  unfold onConnectedCalls
  split
  · trivial
  · simp only
    rcases isereTcpAccept_cases cfg.maxConns s'.tcp os.accept with hno | ⟨-, hpos, hyes⟩
    · rw [hno, if_pos (Or.inl (show (-1 : Int) < 0 by decide))]
      trivial
    · rw [hyes, hnext]
      obtain ⟨hnew, hclosed⟩ := ha hpos
      have hfree := h.unwatched hpos hnew hclosed
      have hout := h.next_unwatched
      rw [← hsame.watchers] at hfree hout
      split
      · trivial
      · refine ⟨⟨hpos, hout⟩, ⟨⟨?_, ?_⟩, ?_, hout⟩, trivial⟩
        · simpa [LoopCall.run, UvLoop.setIo] using hpos
        · simpa [LoopCall.run, UvLoop.setIo, AcceptsSmall] using hsmall
        · simpa [LoopCall.run, UvLoop.setIo] using hfree

theorem SocketsOk.conn_fd (h : SocketsOk serverfd s) (hlive : (s.conns c).life = .live) :
    0 ≤ (s.loop.io (.conn c)).fd := by
  rw [h.io]
  exact (h.opened c hlive).1

/-- The connection of the drain loop is alive, as it is cleaned up once. -/
theorem pollingCalls_ok (h : SocketsOk serverfd s) (hs : s.phase = .polling c)
    (honce : CleanedOnce (pollingStep s c os)) : LoopCallsOk s.loop
      (if !(s.conns c).response.completed ∧ 0 < os.jsPoll then [] else [.stop (.conn c)]) := by
  have hc := h.taken c hs
  have hpolled : ∀ s', Leads serverfd (polledJs s c os) s' → CleanedOnce (httpdCleanupConn s' c) →
      (s'.conns c).life = (s.conns c).life → c < s'.nextConn →
        LoopCallsOk s.loop [.stop (.conn c)] := by
    intro s' hleads ho hlife hlt
    have hgrows := ho.before (cleanup_grows s' c)
    have h' := (leads_polledJs hs os |>.trans hleads).keeps hgrows h
    have hlive := h'.live_before_cleanup hlt ho
    exact ⟨h.conn_fd (hlife ▸ hlive), trivial⟩
  split
  · trivial
  · rename_i hgo
    rcases pollingStep_cases s c os with ⟨-, -, heq⟩ | ⟨hopen, hpos, -⟩ | heq
    · rw [heq] at honce
      exact hpolled _ (Leads.refl _) honce (by simp) hc
    · exact absurd ⟨by simp [hopen], hpos⟩ hgo
    · rw [heq] at honce
      exact hpolled _ (leads_log _ (by simp [Event.Quiet])) honce (by simp) hc

/-- The calls of a step are in order, if the step cleans no connection up again. -/
theorem stepCalls_ok (h : SocketsOk serverfd s) (ha : AcceptsNew serverfd s os)
    (hsmall : AcceptsSmall os) (honce : CleanedOnce (step cfg l y s os)) :
    LoopCallsOk s.loop (stepCalls cfg l y s os) := by
  unfold step at honce
  unfold stepCalls
  cases hs : s.phase with
  | loop =>
    have hit : s.loop.pollFdsIterating = false := by
      simpa [hs] using h.iterating
    simp only
    split
    · refine ⟨?_, trivial⟩
      rw [uv.CallOk, h.server]
      exact Int.natCast_nonneg serverfd
    · exact ⟨hit, trivial⟩
  | iterating i =>
    have hit : s.loop.pollFdsIterating = true := h.iterating.mpr ⟨i, hs⟩
    have hsame := uvPollSlot_same s.loop i
    simp only
    split
    · exact ⟨trivial, trivial⟩
    · refine ⟨hit, ?_⟩
      have hslot := callOk_keeps (by decide) h.loop (.slot i) hit
      cases hcall : (uvPollSlot s.loop i).2 with
      | none => trivial
      | some r =>
        obtain ⟨w, events⟩ := r
        cases w with
        | server =>
          exact onConnectedCalls_ok h ha hsmall
            { s with loop := (uvPollSlot s.loop i).1, phase := .iterating (i + 1) } hsame rfl events
        | conn c =>
          obtain ⟨pe, -, -, hw⟩ := uvPollSlot_calls hcall
          refine stops_ok hslot ?_ (onPollCalls_stop events)
          rw [run_fd h.loop.table (by simp)]
          exact h.conn_fd (h.watched _ c hw)
  | drain => trivial
  | polling c =>
    rw [hs] at honce
    exact pollingCalls_ok h hs honce
  | exited => trivial

theorem runCalls_ok (h : SocketsOk serverfd s) {is : List Os}
    (ha : StepsOk (step cfg l y) (AcceptsNew serverfd) s is) (hsmall : ∀ os ∈ is, AcceptsSmall os)
    (honce : CleanedOnce (runs.run (step cfg l y) s is)) :
    LoopCallsOk s.loop (runCalls cfg l y s is) := by
  induction is generalizing s with
  | nil => trivial
  | cons os is ih =>
    obtain ⟨hos, his⟩ := List.forall_mem_cons.mp hsmall
    have hstep : CleanedOnce (step cfg l y s os) := honce.before (run_grows is)
    refine (stepCalls_ok h ha.1 hos hstep).append ?_
    rw [show runs.run (LoopCall.run UV_POLLIN) s.loop (stepCalls cfg l y s os) =
      (step cfg l y s os).loop from stepCalls_run]
    exact ih ((leads_step h ha.1).keeps hstep h) ha.2 his honce

/-! ## The law -/

/-- The watchers before the task sets one up. -/
def coldIo (_ : WatcherId) : UvIo := { pevents := 0, events := 0, fd := -1 }

/-- The calls of the task from its start, with the listening socket `serverfd`. -/
def serverCalls (cfg : Config) (l : Llhttp) (y : Yuarel) (serverfd : Nat) (is : List Os) :
    List (LoopCall WatcherId) :=
  .init .server serverfd :: .start .server :: runCalls cfg l y (start serverfd) is

theorem start_run (serverfd : Nat) : loopAfter (uv.uvPlatformLoopInit coldIo)
    [.init .server serverfd, .start .server] = (start serverfd).loop := by
  have hio : Function.update coldIo .server { pevents := 0, events := 0, fd := serverfd } =
      startIo serverfd := by
    funext w
    cases w <;> simp [coldIo, startIo]
  simp only [loopAfter, run_cons, run_nil, LoopCall.run, UvLoop.setIo, uv.uvPlatformLoopInit, hio,
    start]

theorem serverCalls_run (is : List Os) :
    loopAfter (uv.uvPlatformLoopInit coldIo) (serverCalls cfg l y serverfd is) =
      (runs.run (step cfg l y) (start serverfd) is).loop := by
  rw [← runCalls_run, ← start_run]
  rfl

/-- The loop in memory after the calls of a run, and its callbacks. `links` is what
the nodes of the watchers hold before they are set up. -/
def serverMemory (cfg : Config) (l : Llhttp) (y : Yuarel) (serverfd : Nat) (is : List Os)
    (r : Realloc WatcherId) (links : Links (QueueNode WatcherId)) :
    Except Fault (LoopMemory WatcherId × List (WatcherId × Events)) :=
  (serverCalls cfg l y serverfd is).foldlM (exec UV_POLLIN r)
    (uvPlatformLoopInit links coldIo, [])

/-- In every run that cleans no connection up twice, in which each accept gives the
number of no open socket, and no socket has a number above 2^31 - 3, the loop in
memory ends as the loop of the run, unless there is no memory: no access goes outside
of its array, no assertion fails and no loop goes on for ever. The watchers that it
calls back are those of the run. -/
theorem the_event_loop_stays_in_its_memory (cfg : Config) (l : Llhttp) (y : Yuarel)
    (serverfd : Nat) (is : List Os) (r : Realloc WatcherId) (links : Links (QueueNode WatcherId))
    (hserver : (serverfd : Int) + 3 ≤ 2 ^ 31) (hsmall : ∀ os ∈ is, AcceptsSmall os)
    (haccept : StepsOk (step cfg l y) (AcceptsNew serverfd) (start serverfd) is)
    (honce : CleanedOnce (runs.run (step cfg l y) (start serverfd) is)) :
    serverMemory cfg l y serverfd is r links = .error .memory ∨
      ∃ t, serverMemory cfg l y serverfd is r links = .ok t ∧
        HoldsLoop t.1 (runs.run (step cfg l y) (start serverfd) is).loop ∧
        t.2 = callbacksOf UV_POLLIN (uv.uvPlatformLoopInit coldIo)
          (serverCalls cfg l y serverfd is) := by
  have hinit : LoopOk UV_POLLIN (uv.uvPlatformLoopInit coldIo)
      (uv.uvPlatformLoopInit coldIo).watcherQueue := uvPlatformLoopInit_ok (fun _ => rfl)
  have hcalls : LoopCallsOk (uv.uvPlatformLoopInit coldIo) (serverCalls cfg l y serverfd is) := by
    have hfd : (0 : Int) ≤ serverfd := Int.natCast_nonneg serverfd
    refine ⟨⟨hfd, by simp [uv.uvPlatformLoopInit]⟩, ⟨⟨hfd, hserver⟩, ?_, ?_⟩, ?_⟩
    · simp [LoopCall.run, UvLoop.setIo, uv.uvPlatformLoopInit]
    · simp [LoopCall.run, UvLoop.setIo, uv.uvPlatformLoopInit]
    · have hrun := runCalls_ok (start_socketsOk serverfd) haccept hsmall honce
      rwa [← start_run] at hrun
  unfold serverMemory
  rw [← ends_iff, ← serverCalls_run]
  -- The calls are left aside, or the elaborator computes them.
  generalize serverCalls cfg l y serverfd is = calls at hcalls ⊢
  exact exec_all_ends hinit (by decide) (by decide)
    (uvPlatformLoopInit_holds links (fun _ => rfl)) r [] hcalls

/-- A heap that never runs out. -/
def plenty : Realloc WatcherId where
  pollFds := fun _ => some (fun _ => unusedSlot)
  watchers := fun _ => some (fun _ => none)

/-- A client connects and goes, and its slot is invalidated. -/
def comeAndGo : List Os :=
  acceptAt 5 ++ receiveAt [] ++ [Os.quiet, Os.quiet, Os.readable 0, Os.quiet, Os.quiet, Os.quiet]

theorem a_client_comes_and_goes_in_memory : ∃ t,
    serverMemory { maxConns := 12, hasHandler := true } rootLlhttp slashYuarel 3 comeAndGo plenty
      ⟨id, id⟩ = .ok t ∧
    HoldsLoop t.1 (runs.run (step { maxConns := 12, hasHandler := true } rootLlhttp slashYuarel)
      (start 3) comeAndGo).loop := by
  have hrun := the_event_loop_stays_in_its_memory { maxConns := 12, hasHandler := true } rootLlhttp
    slashYuarel 3 comeAndGo plenty ⟨id, id⟩ (by decide) (by decide +kernel) (by decide +kernel)
    (by decide +kernel)
  have hok : (serverMemory { maxConns := 12, hasHandler := true } rootLlhttp slashYuarel 3
      comeAndGo plenty ⟨id, id⟩).isOk = true := by decide +kernel
  rcases hrun with hno | ⟨t, ht, hholds, -⟩
  · rw [hno] at hok
    cases hok
  · exact ⟨t, ht, hholds⟩

end isere.httpd
