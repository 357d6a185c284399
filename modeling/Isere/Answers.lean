-- One response for each connection that sent a whole request, over whole runs.
-- It holds as long as llhttp reports no error in the call that sends a request
-- to the handler, and a call ends no message after an answered one.
import Isere.HttpdSteps

open cstring intrusive isere.tcp isere.uv runs

namespace isere.httpd

/-- The event writes a response to a request: the 404, the bare 200, or what
`__httpd_writeback` writes. -/
def Event.answers (c : ConnId) : Event → Bool
  | .wrote d a => decide (d = c ∧ a ≠ .tooLarge)
  | _ => false

/-- The response of a connection is due: a message ended, and no poll of its
JavaScript context failed. -/
def Due (t : List Event) (c : ConnId) : Prop :=
  .callback c .messageComplete ∈ t ∧ ∀ r, .jsPolled c r ∈ t → 0 ≤ r

/-- A connection with a response due gets exactly one before its cleanup. -/
def AnsweredOnce (s : Httpd) : Prop :=
  Allowed (fun pre e => ∀ c, e = .freed c → Due pre c → pre.countP (Event.answers c) = 1) s.trace

/-- The messages that a call of llhttp ends: none; one that goes to the handler,
with no error after it; one that is answered at once; or both, in this order. -/
def OneAnswer (cfg : Config) (l : Llhttp) (y : Yuarel) (s : Httpd) (os : Os) : Prop :=
  ∀ k ∈ parserCall l s os,
    let ends := cfg.ends y (s.conns k.conn).req k.cbs
    ends = [] ∨ (ends = [true] ∧ k.err = .HPE_OK) ∨ ends = [false] ∨ ends = [true, false]

instance (cfg : Config) (l : Llhttp) (y : Yuarel) (s : Httpd) (os : Os) :
    Decidable (OneAnswer cfg l y s os) :=
  inferInstanceAs (Decidable (∀ k ∈ parserCall l s os,
    let ends := cfg.ends y (s.conns k.conn).req k.cbs
    ends = [] ∨ (ends = [true] ∧ k.err = .HPE_OK) ∨ ends = [false] ∨ ends = [true, false]))

def answerMode : Mode := { stale := true, again := false, twice := true, lateError := false }

theorem OneAnswer.stepOk {cfg : Config} {l : Llhttp} {y : Yuarel} {s : Httpd} {os : Os}
    (h : OneAnswer cfg l y s os) : StepOk cfg l y answerMode s os := by
  intro k hk
  rcases h k hk with hends | ⟨hends, herr⟩ | hends | hends
  · rw [hends]
    exact ⟨trivial, fun _ => trivial⟩
  · rw [hends]
    exact ⟨trivial, fun hne => absurd herr hne⟩
  · rw [hends]
    exact ⟨⟨rfl, trivial⟩, fun _ => rfl⟩
  · rw [hends]
    exact ⟨⟨rfl, trivial⟩, fun _ => rfl⟩

/-! ## The invariant -/

/-- A connection that is not gone got no response yet, and one that reads ended
no message. One that is gone got its response if it was due. -/
structure AnswersOk (s : Httpd) : Prop where
  once : AnsweredOnce s
  unanswered : ∀ c, (s.conns c).life ≠ .cleaned → s.trace.countP (Event.answers c) = 0
  unheard : ∀ c, (s.conns c).life ≠ .cleaned → (s.conns c).jsInitialized = false →
    .callback c .messageComplete ∉ s.trace
  answered : ∀ c, (s.conns c).life = .cleaned → Due s.trace c →
    s.trace.countP (Event.answers c) = 1

theorem Due.left {t es : List Event} {c : ConnId} (h : Due (t ++ es) c)
    (hes : .callback c .messageComplete ∉ es) : Due t c := by
  refine ⟨?_, fun r hr => h.2 r (List.mem_append_left es hr)⟩
  rcases List.mem_append.mp h.1 with hin | hin
  · exact hin
  · exact absurd hin hes

theorem countP_append_of_none {t es : List Event} {p : Event → Bool}
    (h : ∀ e ∈ es, p e = false) : (t ++ es).countP p = t.countP p := by
  have hzero : es.countP p = 0 := List.countP_eq_zero.mpr (fun e he => by simp [h e he])
  rw [List.countP_append, hzero, Nat.add_zero]

/-- Events that end no connection and answer nothing. A message may end on a
connection that goes to the handler. -/
theorem AnswersOk.keep {s s' : Httpd} (h : AnswersOk s) (es : List Event)
    (ht : s'.trace = s.trace ++ es)
    (hes : ∀ e ∈ es, ∀ c, e ≠ .freed c ∧ Event.answers c e = false ∧
      (e = .callback c .messageComplete →
        (s'.conns c).life ≠ .cleaned ∧ (s'.conns c).jsInitialized = true))
    (hl : ∀ c, ((s'.conns c).life = .cleaned ↔ (s.conns c).life = .cleaned) ∧
      ((s'.conns c).life ≠ .cleaned → (s'.conns c).jsInitialized = false →
        (s.conns c).jsInitialized = false)) : AnswersOk s' := by
  have hcount : ∀ c, (s.trace ++ es).countP (Event.answers c) =
      s.trace.countP (Event.answers c) :=
    fun c => countP_append_of_none (fun e he => (hes e he c).2.1)
  refine ⟨?_, ?_, ?_, ?_⟩
  · unfold AnsweredOnce
    rw [ht]
    apply allowed_append h.once
    rintro pre e post rfl c rfl
    exact absurd rfl (hes (.freed c) (by simp) c).1
  · intro c hc
    rw [ht, hcount]
    exact h.unanswered c ((hl c).1.not.mp hc)
  · intro c hc hj hin
    rw [ht, List.mem_append] at hin
    rcases hin with hin | hin
    · exact h.unheard c ((hl c).1.not.mp hc) ((hl c).2 hc hj) hin
    · rw [((hes _ hin c).2.2 rfl).2] at hj
      cases hj
  · intro c hc hdue
    have hmc : .callback c .messageComplete ∉ es := fun hin => ((hes _ hin c).2.2 rfl).1 hc
    rw [ht] at hdue ⊢
    rw [hcount]
    exact h.answered c ((hl c).1.mp hc) (hdue.left hmc)

/-- An event of another connection says nothing about this one. -/
theorem other_event {e : Event} {c d : ConnId} (he : e.conn = c) (hd : d ≠ c) :
    e ≠ .freed d ∧ e ≠ .callback d .messageComplete ∧ (∀ r, e ≠ .jsPolled d r) ∧
      Event.answers d e = false := by
  refine ⟨?_, ?_, ?_, ?_⟩
  · rintro rfl
    exact hd he
  · rintro rfl
    exact hd he
  · rintro r rfl
    exact hd he
  · cases e with
    | wrote d' a =>
      simp only [Event.conn] at he
      simp [Event.answers, he, Ne.symm hd]
    | _ => rfl

/-- Events of one connection and then its cleanup, with its response written if
it was due. -/
theorem AnswersOk.finish {s s' : Httpd} (h : AnswersOk s) {c : ConnId} (es : List Event)
    (ht : s'.trace = s.trace ++ es) (hes : ∀ e ∈ es, e.conn = c ∧ e ≠ .freed c)
    (hdone : Due (s.trace ++ es) c → (s.trace ++ es).countP (Event.answers c) = 1)
    (hl : ∀ d, d ≠ c → (s'.conns d).life = (s.conns d).life ∧
      (s'.conns d).jsInitialized = (s.conns d).jsInitialized) :
    AnswersOk (httpdCleanupConn s' c) := by
  have htrace : (httpdCleanupConn s' c).trace = s.trace ++ es ++ [Event.closed c, .freed c] := by
    rw [cleanup_trace, ht]
  have hends : ∀ e ∈ es ++ [Event.closed c, .freed c], e.conn = c := by
    intro e he
    rcases List.mem_append.mp he with he | he
    · exact (hes e he).1
    · simp only [List.mem_cons, List.not_mem_nil, or_false] at he
      rcases he with rfl | rfl <;> rfl
  have hdue : Due (s.trace ++ es ++ [Event.closed c, .freed c]) c → Due (s.trace ++ es) c :=
    fun hd => hd.left (by simp)
  have hcount : (s.trace ++ es ++ [Event.closed c, .freed c]).countP (Event.answers c) =
      (s.trace ++ es).countP (Event.answers c) := by
    simp [List.countP_append, Event.answers]
  have hcount' : ∀ d, d ≠ c →
      (s.trace ++ es ++ [Event.closed c, .freed c]).countP (Event.answers d) =
        s.trace.countP (Event.answers d) := by
    intro d hd
    rw [List.append_assoc]
    exact countP_append_of_none (fun e he => (other_event (hends e he) hd).2.2.2)
  have hmc : ∀ d, d ≠ c → .callback d .messageComplete ∉ es ++ [Event.closed c, .freed c] :=
    fun d hd he => (other_event (hends _ he) hd).2.1 rfl
  refine ⟨?_, ?_, ?_, ?_⟩
  · unfold AnsweredOnce
    rw [htrace, show s.trace ++ es ++ [Event.closed c, .freed c] =
      (s.trace ++ es) ++ [.closed c] ++ [.freed c] by simp, allowed_snoc_iff, allowed_snoc_iff]
    refine ⟨⟨allowed_append h.once ?_, by simp⟩, ?_⟩
    · rintro pre e post rfl d rfl
      have hfree := hes (.freed d) (by simp)
      exact absurd (by rw [show d = c from hfree.1]) hfree.2
    · intro d hd hdue'
      simp only [Event.freed.injEq] at hd
      subst hd
      rw [List.countP_append]
      simpa [Event.answers] using hdone (hdue'.left (by simp))
  · intro d hd
    by_cases hdc : d = c
    · subst hdc
      simp at hd
    · rw [htrace, hcount' d hdc]
      rw [cleanup_conns_other s' hdc, (hl d hdc).1] at hd
      exact h.unanswered d hd
  · intro d hd hj hin
    by_cases hdc : d = c
    · subst hdc
      simp at hd
    · rw [cleanup_conns_other s' hdc] at hd hj
      rw [(hl d hdc).1] at hd
      rw [(hl d hdc).2] at hj
      rw [htrace, List.append_assoc, List.mem_append] at hin
      exact h.unheard d hd hj (hin.resolve_right (hmc d hdc))
  · intro d hd hdued
    rw [htrace] at hdued ⊢
    by_cases hdc : d = c
    · subst hdc
      rw [hcount]
      exact hdone (hdue hdued)
    · rw [hcount' d hdc]
      rw [cleanup_conns_other s' hdc, (hl d hdc).1] at hd
      rw [List.append_assoc] at hdued
      exact h.answered d hd (hdued.left (hmc d hdc))

theorem AnswersOk.polledJs {s : Httpd} (h : AnswersOk s) (c : ConnId) (os : Os) :
    AnswersOk (polledJs s c os) := by
  refine h.keep [.jsPolled c os.jsPoll] (polledJs_trace s c os)
    (by simp [Event.answers]) (fun d => ?_)
  simp

theorem trans_answersOk {cfg : Config} {y : Yuarel} {s s' : Httpd} (hi : Inv s) (h : AnswersOk s)
    (htrans : Trans cfg y answerMode s s') : AnswersOk s' := by
  cases htrans with
  | table _ _ _ => exact h.keep [] (by simp) (by simp) (by simp)
  | stopServer _ => exact h.keep [] (by simp) (by simp) (by simp)
  | admitted _ _ _ =>
    obtain ⟨hfresh, hj⟩ := hi.conns.next_fresh
    refine h.keep _ (addConn_trace s _) (by simp [Event.answers]) (fun d => ?_)
    by_cases hdc : d = s.nextConn
    · subst hdc
      simp [hfresh, hj, HttpdConn.initial]
    · rw [addConn_conns_other s hdc]
      simp
  | polled _ _ => exact h.keep _ rfl (by simp [Event.answers]) (by simp)
  | @fed _ c chunk _ _ =>
    refine h.keep [] (by simp) (by simp) (fun d => ?_)
    have hsame := fed_conns s c chunk d
    exact ⟨by rw [hsame.1], fun _ hj => hsame.2.1 ▸ hj⟩
  | @piece _ c cb os _ hcb _ =>
    refine h.keep _ (piece_trace cfg y c os s hcb) (by simp [Event.answers, hcb]) (fun d => ?_)
    have hsame := piece_conns cfg y c os s hcb d
    exact ⟨by rw [hsame.1], fun _ hj => hsame.2.1 ▸ hj⟩
  | @dispatched _ c os _ hr hgo =>
    rw [onCallback_dispatch cfg y c os s hgo]
    refine h.keep [.callback c .messageComplete,
      .handler c (s.conns c).req.handlerArgs, .parser c] (by simp) ?_ (fun d => ?_)
    · simp [Event.answers, hr.1]
    · by_cases hdc : d = c <;> simp [hdc]
  | @answered _ c os _ hr hgo _ =>
    obtain ⟨a, ha, heq⟩ := onCallback_answer cfg y c os s hgo
    rw [heq]
    have hlive : (s.conns c).life = .live := by simpa [answerMode] using hr
    have hzero := h.unanswered c (by simp [hlive])
    have hone : Event.answers c (.wrote c a) = true := by
      rcases ha with rfl | rfl <;> simp [Event.answers]
    have hnone : Event.answers c (.callback c .messageComplete) = false := rfl
    have hfin : AnswersOk (httpdCleanupConn ((stopReading s c).log (.wrote c a)) c) :=
      h.finish [.callback c .messageComplete, .wrote c a] (by simp) (by simp [Event.conn])
        (fun _ => by simp [List.countP_append, hzero, hone, hnone])
        (fun d _ => ⟨rfl, rfl⟩)
    exact hfin.keep _ rfl (by simp [Event.answers]) (by simp)
  | @tooLarge _ c _ hr =>
    have hnot := h.unheard c (by simp [hr.1]) hr.2
    exact h.finish [.wrote c .tooLarge] rfl (by simp [Event.conn])
      (fun hdue => absurd hdue.1 (by simpa using hnot)) (fun d _ => ⟨rfl, rfl⟩)
  | @dropped _ c _ hr hj =>
    refine h.finish [] (by simp) (by simp) ?_ (fun d _ => ⟨rfl, rfl⟩)
    rw [List.append_nil]
    intro hdue
    rcases hr with hlive | ⟨-, hgone⟩
    · have hreads : (s.conns c).jsInitialized = false := by simpa [answerMode] using hj
      exact absurd hdue.1 (h.unheard c (by simp [hlive]) hreads)
    · exact h.answered c hgone hdue
  | taken _ _ => exact h.keep [] (by simp) (by simp) (by simp)
  | @requeued c os hs _ _ =>
    exact (h.polledJs c os).keep [] (by simp) (by simp) (by simp)
  | @gaveUp c os hs hr =>
    refine h.finish [.jsPolled c os.jsPoll] (polledJs_trace s c os)
      (by simp [Event.conn]) (fun hdue => ?_) (fun d _ => by simp)
    have := hdue.2 os.jsPoll (by simp)
    omega
  | @wroteBack c os hs =>
    have hzero := (h.polledJs c os).unanswered c (by simp [hi.taken_live hs])
    have hone : Event.answers c
        (.wrote c (httpdWriteback ((polledJs s c os).conns c).response)) = true := by
      unfold httpdWriteback
      split <;> simp [Event.answers]
    exact (h.polledJs c os).finish _ rfl (by simp [Event.conn])
      (fun _ => by simp [List.countP_append, hzero, hone])
      (fun d _ => ⟨rfl, rfl⟩)

/-! ## The law -/

/-- In every run whose calls of llhttp end messages as `OneAnswer` says, each
connection on which a message ended gets exactly one response before its
cleanup, unless a poll of its JavaScript context fails. -/
theorem each_message_is_answered_once (cfg : Config) (l : Llhttp) (y : Yuarel) (serverfd : Nat)
    (is : List Os) (h : StepsOk (step cfg l y) (OneAnswer cfg l y) (start serverfd) is) :
    AnsweredOnce (run (step cfg l y) (start serverfd) is) := by
  have hstart : AnswersOk (start serverfd) := by
    refine ⟨allowed_nil _, ?_, ?_, ?_⟩
    · simp [start]
    · simp [start]
    · intro c hc
      cases hc
  exact (run_keeps (fun _ _ => trans_answersOk) hstart
    (h.mono (fun _ _ => OneAnswer.stepOk))).2.once

theorem one_request_is_answered_once : AnsweredOnce
    (run (step { maxConns := 12, hasHandler := true } rootLlhttp slashYuarel) (start 3)
      (acceptAt 5 ++ receiveAt (getRequest "/") ++ List.replicate 5 Os.quiet)) :=
  each_message_is_answered_once _ _ _ _ _ (by decide +kernel)

/-- The parser that fails after a request for `/`. -/
def trailingLlhttp : Llhttp := scripted [
  (getRequest "/" ++ ascii "!!", getCallbacks "/", .failed 6)]

/-- The history after a request for `/` with two more bytes in the same `recv`. -/
def unanswered : Httpd :=
  run (step { maxConns := 12, hasHandler := true } trailingLlhttp slashYuarel) (start 3)
    (acceptAt 5 ++ receiveAt (getRequest "/" ++ ascii "!!"))

/-- The error of llhttp cleans up the connection while its request is with the
handler, and no response is written. -/
theorem a_request_with_trailing_bytes_gets_no_answer : ¬AnsweredOnce unanswered := by
  intro h
  have hlast : unanswered.trace = unanswered.trace.dropLast ++ [.freed 0] := by decide +kernel
  have hmc : Event.callback 0 .messageComplete ∈ unanswered.trace.dropLast := by decide +kernel
  have hpolls : ∀ e ∈ unanswered.trace.dropLast, ∀ r, e ≠ .jsPolled 0 r := by
    have hnone : ∀ e ∈ unanswered.trace.dropLast,
        (match e with | .jsPolled _ _ => true | _ => false) = false := by decide +kernel
    rintro e he r rfl
    cases hnone _ he
  have hzero : unanswered.trace.dropLast.countP (Event.answers 0) = 0 := by decide +kernel
  have hone := h _ _ _ hlast 0 rfl ⟨hmc, fun r hr => absurd rfl (hpolls _ hr r)⟩
  rw [hzero] at hone
  cases hone

end isere.httpd
