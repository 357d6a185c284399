-- The js_queue over whole runs: a ring of the connections that went to the
-- handler. It stays one as long as no call of llhttp sends a second message of
-- a connection to the handler.
import Isere.HttpdSteps

open cstring intrusive isere.tcp isere.uv runs

namespace isere.httpd

/-- A request of the connection went to `http_handler`. -/
def Dispatched (s : Httpd) (c : ConnId) : Prop := ∃ args, Event.handler c args ∈ s.trace

/-- The `js_queue` is a ring. Its members are the live connections that went to
the handler, less the one that the drain loop took. -/
def JsQueueOk (s : Httpd) : Prop :=
  ∃ l : List ConnId, Ring s.jsQueue .head (l.map .conn) ∧
    ∀ c, c ∈ l ↔ (s.conns c).life = .live ∧ Dispatched s c ∧ s.phase ≠ .polling c

/-- Among the messages that a call of llhttp ends, only the first may go to the
handler. -/
def OneDispatch (cfg : Config) (l : Llhttp) (y : Yuarel) (s : Httpd) (os : Os) : Prop :=
  ∀ k ∈ parserCall l s os, true ∉ (cfg.ends y (s.conns k.conn).req k.cbs).tail

instance (cfg : Config) (l : Llhttp) (y : Yuarel) (s : Httpd) (os : Os) :
    Decidable (OneDispatch cfg l y s os) :=
  inferInstanceAs (Decidable (∀ k ∈ parserCall l s os,
    true ∉ (cfg.ends y (s.conns k.conn).req k.cbs).tail))

theorem gone_allows {ends : List Bool} (h : true ∉ ends) (st : Status) :
    st.Allows anyMode ends := by
  induction ends generalizing st with
  | nil => cases st <;> trivial
  | cons e ends ih =>
    simp only [List.mem_cons, not_or] at h
    cases e with
    | true => exact absurd rfl h.1
    | false => cases st <;> exact ⟨rfl, ih h.2 .gone⟩

theorem OneDispatch.stepOk {cfg : Config} {l : Llhttp} {y : Yuarel} {s : Httpd} {os : Os}
    (h : OneDispatch cfg l y s os) : StepOk cfg l y anyMode s os := by
  intro k hk
  have htail := h k hk
  refine ⟨?_, fun _ => ?_⟩
  · cases hends : cfg.ends y (s.conns k.conn).req k.cbs with
    | nil => trivial
    | cons e ends =>
      rw [hends] at htail
      cases e with
      | true => exact gone_allows htail .handed
      | false => exact ⟨rfl, gone_allows htail .gone⟩
  · cases Status.reading.after (cfg.ends y (s.conns k.conn).req k.cbs) <;> trivial

/-! ## The history of the handler -/

/-- A connection that is not gone went to the handler if its JavaScript context
is up, and only then. -/
def HandlerKnown (s : Httpd) : Prop :=
  ∀ c, (s.conns c).life ≠ .cleaned → ((s.conns c).jsInitialized = true ↔ Dispatched s c)

/-- An effect that calls no handler. -/
theorem HandlerKnown.keep {s s' : Httpd} (h : HandlerKnown s) (es : List Event)
    (ht : s'.trace = s.trace ++ es) (hes : ∀ c args, .handler c args ∉ es)
    (hc : ∀ c, (s'.conns c).life ≠ .cleaned → (s.conns c).life ≠ .cleaned ∧
      (s'.conns c).jsInitialized = (s.conns c).jsInitialized) : HandlerKnown s' := by
  intro c hlife
  obtain ⟨hlife', hj⟩ := hc c hlife
  rw [hj, h c hlife']
  unfold Dispatched
  simp [ht, hes]

theorem HandlerKnown.cleanup {s : Httpd} (h : HandlerKnown s) (c : ConnId) :
    HandlerKnown (httpdCleanupConn s c) := by
  refine h.keep _ (cleanup_trace s c) (by simp) (fun d hd => ?_)
  by_cases hdc : d = c
  · subst hdc
    simp at hd
  · rw [cleanup_conns_other s hdc] at hd ⊢
    exact ⟨hd, rfl⟩

theorem HandlerKnown.polledJs {s : Httpd} (h : HandlerKnown s) (c : ConnId) (os : Os) :
    HandlerKnown (polledJs s c os) := by
  refine h.keep [.jsPolled c os.jsPoll] (polledJs_trace s c os)
    (by simp) (fun d hd => ?_)
  simpa using hd

theorem trans_handlerKnown {cfg : Config} {y : Yuarel} {m : Mode} {s s' : Httpd} (hi : Inv s)
    (h : HandlerKnown s) (htrans : Trans cfg y m s s') : HandlerKnown s' := by
  cases htrans with
  | table _ _ _ => exact h.keep [] (by simp) (by simp) (fun _ hd => ⟨hd, rfl⟩)
  | stopServer _ => exact h.keep [] (by simp) (by simp) (fun _ hd => ⟨hd, rfl⟩)
  | @admitted _ fd _ _ _ =>
    intro c hlife
    have htrace : Dispatched (addConn s fd) c ↔ Dispatched s c := by simp [Dispatched]
    by_cases hc : c = s.nextConn
    · subst hc
      obtain ⟨hfresh, hj⟩ := hi.conns.next_fresh
      have hnot := (h s.nextConn (by simp [hfresh])).not.mp (by simp [hj])
      simp [htrace, hnot, HttpdConn.initial]
    · rw [addConn_conns_other s hc] at hlife ⊢
      rw [htrace]
      exact h c hlife
  | polled _ _ => exact h.keep _ rfl (by simp) (fun _ hd => ⟨hd, rfl⟩)
  | @fed _ c chunk _ _ =>
    refine h.keep [] (by simp) (by simp) (fun d hd => ?_)
    have hsame := fed_conns s c chunk d
    exact ⟨hsame.1 ▸ hd, hsame.2.1⟩
  | @piece _ c cb os _ hcb _ =>
    refine h.keep _ (piece_trace cfg y c os s hcb) (by simp) (fun d hd => ?_)
    have hsame := piece_conns cfg y c os s hcb d
    exact ⟨hsame.1 ▸ hd, hsame.2.1⟩
  | @dispatched _ c os _ hr hd =>
    rw [onCallback_dispatch cfg y c os s hd]
    intro d hlife
    by_cases hdc : d = c
    · subst hdc
      simp [Dispatched]
    · simp only [log_conns, dispatch_conns_other _ hdc, stopReading_conns] at hlife ⊢
      rw [h d hlife]
      simp [Dispatched, hdc]
  | @answered _ c os _ _ hd _ =>
    obtain ⟨a, -, heq⟩ := onCallback_answer cfg y c os s hd
    rw [heq]
    have hlog : HandlerKnown ((stopReading s c).log (.wrote c a)) :=
      h.keep [.callback c .messageComplete, .wrote c a] (by simp) (by simp)
        (fun _ hd => ⟨hd, rfl⟩)
    exact (hlog.cleanup c).keep _ rfl (by simp) (fun _ hd => ⟨hd, rfl⟩)
  | @tooLarge _ c _ _ =>
    have hlog : HandlerKnown (s.log (.wrote c .tooLarge)) :=
      h.keep _ rfl (by simp) (fun _ hd => ⟨hd, rfl⟩)
    exact hlog.cleanup c
  | @dropped _ c _ _ _ => exact h.cleanup c
  | taken _ _ => exact h.keep [] (by simp) (by simp) (fun _ hd => ⟨hd, rfl⟩)
  | @requeued c os _ _ _ =>
    exact (h.polledJs c os).keep [] (by simp) (by simp) (fun _ hd => ⟨hd, rfl⟩)
  | @gaveUp c os _ _ => exact (h.polledJs c os).cleanup c
  | @wroteBack c os _ =>
    have hlog : HandlerKnown ((polledJs s c os).log
        (.wrote c (httpdWriteback ((polledJs s c os).conns c).response))) :=
      (h.polledJs c os).keep _ rfl (by simp) (fun _ hd => ⟨hd, rfl⟩)
    exact hlog.cleanup c

/-! ## The law -/

theorem HandlerKnown.jsQueueOk {s : Httpd} (hi : Inv s) (h : HandlerKnown s) : JsQueueOk s := by
  obtain ⟨l, q⟩ := hi.queue
  refine ⟨l, q.ring, fun c => ?_⟩
  rw [q.mem c]
  constructor
  · rintro ⟨hj, hp⟩
    have hlive := hi.conns.js c hj
    exact ⟨hlive, (h c (by simp [hlive])).mp hj, hp⟩
  · rintro ⟨hlive, hd, hp⟩
    exact ⟨(h c (by simp [hlive])).mpr hd, hp⟩

/-- In every run in which no call of llhttp sends a second message of its
connection to the handler, the `js_queue` is a ring of the dispatched
connections in every state that the run reaches. -/
theorem the_js_queue_is_a_ring_of_the_dispatched (cfg : Config) (l : Llhttp) (y : Yuarel)
    (serverfd : Nat) (is : List Os)
    (h : StepsOk (step cfg l y) (OneDispatch cfg l y) (start serverfd) is) :
    JsQueueOk (run (step cfg l y) (start serverfd) is) := by
  have hstart : HandlerKnown (start serverfd) := by
    intro c _
    simp [start, HttpdConn.fresh, HttpdConn.initial, Dispatched]
  have hok := h.mono (fun _ _ => OneDispatch.stepOk)
  obtain ⟨hi, hknown⟩ := run_keeps (I := HandlerKnown)
    (fun _ _ hi h htrans => trans_handlerKnown hi h htrans) hstart hok
  exact hknown.jsQueueOk hi

theorem one_request_keeps_the_js_queue : JsQueueOk
    (run (step { maxConns := 12, hasHandler := true } rootLlhttp slashYuarel) (start 3)
      (acceptAt 5 ++ receiveAt (getRequest "/"))) :=
  the_js_queue_is_a_ring_of_the_dispatched _ _ _ _ _ (by decide +kernel)

/-- The state after two pipelined requests for `/` in one `recv`. -/
def pipelined : Httpd :=
  run (step { maxConns := 12, hasHandler := true } rootLlhttp slashYuarel) (start 3)
    (acceptAt 5 ++ receiveAt (getRequest "/" ++ getRequest "/"))

/-- The second of two pipelined requests links the node of its connection to
itself, while the connection is on the queue. -/
theorem a_pipelined_request_breaks_the_js_queue : ¬JsQueueOk pipelined := by
  rintro ⟨l, hring, hmem⟩
  have hself : pipelined.jsQueue.next (.conn 0) = .conn 0 := by decide +kernel
  have hin : (0 : ConnId) ∈ l := by
    rw [hmem]
    refine ⟨by decide +kernel, ⟨?_, ?_⟩, by decide +kernel⟩
    · exact { method := ascii "GET", path := some [], query := none, headers := [], body := [] }
    · decide +kernel
  exact hring.next_ne_self (List.mem_map_of_mem hin) hself

end isere.httpd
