-- The httpd task on top of the JerryScript runtime. What happens to a connection
-- tells the calls that the task makes for its context, and the runtime is never
-- called out of turn: each context is made once, and freed once when its
-- connection ends.
import Isere.ConnProtocol
import Isere.JerryProgress

open isere.httpd typestate runs

namespace isere.jerryscript

/-! ## The calls of the task -/

/-- What the engine does at one action of a call: it may run `__handler_cb` any number of
times before its answer. -/
structure Move where
  callbacks : List (List HandlerResult)
  answer : Bool

/-- The moves of the engine, by the place of the event in the history, the call and the
action. -/
abbrev World := Nat → Call → Nat → Move

def engineMoves (c : ConnId) : List Move → List Input
  | [] => []
  | m :: ms => m.callbacks.map (.callback c) ++ .next c m.answer :: engineMoves c ms

/-- A call of the runtime from its start to its end. There is none when it is out of turn:
while a call of the connection is under way, or at the wrong stage of its context. -/
def perform (w : Nat → Move) (js : Js) (c : ConnId) (call : Call) : Option Js :=
  match js.pool.code c, call.after (js.stage c) with
  | .done _, some _ =>
    some (run step js (.start c call :: engineMoves c ((List.range call.code.depth).map w)))
  | _, _ => none

/-- The runtime, with `conn->js.initialized` of each connection. -/
structure Served where
  js : Js
  initialized : ConnId → Bool

def Served.start : Served := { js := jerryscript.start, initialized := fun _ => false }

/-- What the task does with the runtime at an event: a message that goes to the handler in
`__on_message_complete`, a poll in the drain loop, or `__httpd_cleanup_conn`. -/
def onEvent (w : Call → Nat → Move) (s : Served) : httpd.Event → Option Served
  | .handler c args => do
    let js ← perform (w .newContext) s.js c .newContext
    let call := Call.eval args.headers.length
    let js ← perform (w call) js c call
    return { js, initialized := Function.update s.initialized c true }
  | .jsPolled c _ => do
    let js ← perform (w .poll) s.js c .poll
    return { s with js }
  | .closed c =>
    if s.initialized c then do
      let js ← perform (w .freeContext) s.js c .freeContext
      return { js, initialized := Function.update s.initialized c false }
    else some s
  | _ => some s

/-- The runtime after a history of the task. -/
def serve (world : World) : Nat → Served → List httpd.Event → Option Served
  | _, s, [] => some s
  | k, s, e :: es => (onEvent (world k) s e).bind fun s => serve world (k + 1) s es

/-- The contexts of the connections are as the task stands with them. -/
structure Kept (s : Httpd) (js : Js) : Prop where
  idle : ∀ c, (js.pool.code c).Returned
  unlocked : js.pool.shared.ctxMut = none
  untouched : ∀ c, ¬Dispatched s c → js.pool.shared.contextOf c = []
  handed : ∀ c, (s.conns c).status = some .handed →
    js.pool.shared.contextOf c = [.allocated c (js.pool.shared.context c)]
  ended : ∀ c, Dispatched s c → (s.conns c).status = some .gone →
    ∃ p, js.pool.shared.contextOf c = [.allocated c p, .freed c p]
  writes : ∀ c d, .wrote c d ∈ js.pool.shared.trace → d = some c

/-! ## One call -/

/-- No other connection has a call under way. -/
structure Alone (js : Js) (c : ConnId) : Prop where
  sound : Sound js
  others : ∀ d, d ≠ c → (js.pool.code d).Returned

section Call

variable {js : Js} {c : ConnId}

theorem Alone.canGo (h : Alone js c) (hc : ¬(js.pool.code c).Returned) : CanGo js.pool c := by
  cases hm : js.pool.shared.ctxMut with
  | none => exact canGo_of_free hc hm
  | some d =>
    have hd : d = c := by
      by_contra hne
      exact (h.sound.holder hm).1 (h.others d hne)
    subst hd
    exact (h.sound.holder hm).2

theorem Alone.keep (h : Alone js c) (input : Input) (hc : input.conn = c) :
    Alone (step js input) c where
  sound := step_sound h.sound input
  others d hd := by
    rw [step_other (by rw [hc]; exact Ne.symm hd)]
    exact h.others d hd

theorem callback_keeps (js : Js) (d : ConnId) (args : List HandlerResult) :
    (step js (.callback d args)).pool.code = js.pool.code ∧
      (step js (.callback d args)).stage = js.stage := by
  simp only [step]
  split
  · split <;> exact ⟨rfl, rfl⟩
  · exact ⟨rfl, rfl⟩

theorem Alone.callbacks (h : Alone js c) (args : List (List HandlerResult)) :
    Alone (run step js (args.map (.callback c))) c ∧
      (run step js (args.map (.callback c))).pool.code = js.pool.code ∧
      (run step js (args.map (.callback c))).stage = js.stage := by
  induction args generalizing js with
  | nil => exact ⟨h, rfl, rfl⟩
  | cons a args ih =>
    obtain ⟨halone, hcode, hstage⟩ := ih (h.keep (.callback c a) rfl)
    obtain ⟨hcode', hstage'⟩ := callback_keeps js c a
    exact ⟨halone, hcode.trans hcode', hstage.trans hstage'⟩

theorem returned_of_depth {p : Program} (h : p.depth ≤ 0) : p.Returned := by
  cases p with
  | done r => exact ⟨r, rfl⟩
  | act a k => simp [Code.depth] at h

/-- The call moves on, or it has returned. -/
theorem Alone.next (h : Alone js c) (answer : Bool) {n : Nat}
    (hn : (js.pool.code c).depth ≤ n + 1) :
    ((step js (.next c answer)).pool.code c).depth ≤ n := by
  by_cases hret : (js.pool.code c).Returned
  · obtain ⟨r, hr⟩ := hret
    have hstays : (step js (.next c answer)).pool.code c = .done r := by
      simp [step, Pool.next, hr]
    rw [hstays]
    exact Nat.zero_le n
  · obtain ⟨a, k, b, hcode, hnext⟩ := next_moves (h.canGo hret) answer
    rw [hnext]
    rw [hcode] at hn
    have hlt := depth_lt a k b
    omega

/-- A call that no other one disturbs returns after its actions. -/
theorem Alone.moves (h : Alone js c) (ms : List Move) (hd : (js.pool.code c).depth ≤ ms.length) :
    Alone (run step js (engineMoves c ms)) c ∧
      ((run step js (engineMoves c ms)).pool.code c).Returned ∧
      (run step js (engineMoves c ms)).stage = js.stage := by
  induction ms generalizing js with
  | nil => exact ⟨h, returned_of_depth hd, rfl⟩
  | cons m ms ih =>
    obtain ⟨halone, hcode, hstage⟩ := h.callbacks m.callbacks
    rw [engineMoves, run_append, run_cons]
    have hnext := halone.next m.answer (n := ms.length) (by rw [hcode]; simpa using hd)
    obtain ⟨halone', hret, hstage'⟩ :=
      ih (halone.keep (.next c m.answer) rfl) hnext
    exact ⟨halone', hret, hstage'.trans hstage⟩

/-- Every call has come to its end. -/
structure Quiet (js : Js) : Prop where
  sound : Sound js
  idle : ∀ c, (js.pool.code c).Returned

/-- A call in turn comes to its end, and its context is at the next stage. -/
theorem Quiet.performs (h : Quiet js) (w : Nat → Move) (c : ConnId) (call : Call) {st : Stage}
    (hst : call.after (js.stage c) = some st) : ∃ js', perform w js c call = some js' ∧ Quiet js' ∧
      js'.stage = Function.update js.stage c st := by
  obtain ⟨r, hr⟩ := h.idle c
  have hstart : step js (.start c call) =
      { pool := { js.pool with code := Function.update js.pool.code c call.code },
        stage := Function.update js.stage c st } := by
    simp only [step, hr, hst]
  have halone : Alone (step js (.start c call)) c := by
    refine ⟨step_sound h.sound _, fun d hd => ?_⟩
    rw [step_other (Ne.symm hd)]
    exact h.idle d
  obtain ⟨hend, hret, hstage⟩ := halone.moves ((List.range call.code.depth).map w)
    (by rw [hstart]; simp)
  refine ⟨_, ?_, ⟨hend.sound, fun d => ?_⟩, ?_⟩
  · rw [perform, hr, hst, run_cons]
  · by_cases hd : d = c
    · exact hd ▸ hret
    · exact hend.others d hd
  · rw [hstage, hstart]

end Call

/-! ## The calls of a connection that follows its protocol -/

/-- The context of a connection, by what its parser works for. -/
def ContextAt : Status → Stage → Prop
  | .reading, st => st = .fresh
  | .handed, st => st = .ready
  | .gone, st => st ≠ .ready

/-- The stage of a context that a stage of its connection goes with. -/
def Suits : httpd.Stage → Stage → Prop
  | .unborn | .accepted | .ready => ContextAt .reading
  | .inCall status | .heard status | .ended status => ContextAt status
  | .handling | .turn _ => ContextAt .handed
  | .answered _ => fun _ => True
  | .closing _ | .freed _ => ContextAt .gone

/-- The stage of a context after an event of its connection. -/
def Stage.afterDeed (st : Stage) : Deed → Option Stage
  | .handler args => (Call.newContext.after st).bind (Call.eval args.headers.length).after
  | .jsPolled _ => Call.poll.after st
  | .closed => if st = .ready then Call.freeContext.after st else some st
  | _ => some st

/-- The end of a connection frees its context, if it has one. -/
theorem closed_suits (st : Stage) : ∃ st', st.afterDeed .closed = some st' ∧
    ContextAt .gone st' ∧ (st' = .fresh ↔ st = .fresh ∧ ∀ args, Deed.closed ≠ .handler args) := by
  cases st with
  | fresh => exact ⟨.fresh, rfl, by simp [ContextAt], by simp⟩
  | ready => exact ⟨.gone, rfl, by simp [ContextAt], by simp⟩
  | gone => exact ⟨.gone, rfl, by simp [ContextAt], by simp⟩

/-- What the protocol allows next, the runtime takes. -/
theorem next_suits {stage stage' : httpd.Stage} {d : Deed} {st : Stage}
    (hnext : stage.next d = some stage') (h : Suits stage st) :
    ∃ st', st.afterDeed d = some st' ∧ Suits stage' st' ∧
      (st' = .fresh ↔ st = .fresh ∧ ∀ args, d ≠ .handler args) := by
  unfold httpd.Stage.next at hnext
  split at hnext
  all_goals try split at hnext
  all_goals cases hnext
  all_goals first
    | exact ⟨st, rfl, h, by simp⟩
    | exact ⟨st, rfl, trivial, by simp⟩
    | exact closed_suits st
    | obtain rfl : st = .fresh := h
      exact ⟨.ready, rfl, rfl, by simp⟩
    | obtain rfl : st = .ready := h
      exact ⟨.ready, rfl, rfl, by simp⟩
    | unfold httpd.Stage.report
      split <;> exact ⟨st, rfl, h, by simp⟩

/-- The runtime between two events. -/
structure Rests (s : Served) : Prop where
  quiet : Quiet s.js
  initialized : ∀ c, s.initialized c = true ↔ s.js.stage c = .ready

theorem Rests.update {s : Served} (h : Rests s) {js : Js} (hquiet : Quiet js) {c : ConnId}
    {st : Stage} (hstage : js.stage = Function.update s.js.stage c st) {b : Bool}
    (hb : b = true ↔ st = .ready) :
    Rests { js, initialized := Function.update s.initialized c b } where
  quiet := hquiet
  initialized d := by
    by_cases hd : d = c
    · subst hd
      simpa [hstage] using hb
    · simpa [hstage, Function.update_of_ne hd] using h.initialized d

theorem ready_of_poll {st st' : Stage} (h : Call.poll.after st = some st') :
    st = .ready ∧ st' = .ready := by
  cases st with
  | ready => exact ⟨rfl, (Option.some.inj h).symm⟩
  | fresh => cases h
  | gone => cases h

theorem ready_of_eval {n : Nat} {st st' : Stage} (h : (Call.eval n).after st = some st') :
    st' = .ready := by
  cases st with
  | ready => exact (Option.some.inj h).symm
  | fresh => cases h
  | gone => cases h

theorem Rests.onEvent {s : Served} (h : Rests s) (w : Call → Nat → Move) (e : httpd.Event)
    {st : Stage} (hst : (s.js.stage e.conn).afterDeed e.deed = some st) :
    ∃ s', onEvent w s e = some s' ∧ Rests s' ∧
      s'.js.stage = Function.update s.js.stage e.conn st := by
  cases e with
  | handler c args =>
    obtain ⟨st₁, hst₁, hst₂⟩ := Option.bind_eq_some_iff.mp hst
    obtain ⟨js₁, hjs₁, hquiet₁, hstage₁⟩ := h.quiet.performs (w .newContext) c .newContext hst₁
    obtain ⟨js₂, hjs₂, hquiet₂, hstage₂⟩ :=
      hquiet₁.performs (w (.eval args.headers.length)) c (.eval args.headers.length)
        (by rw [hstage₁, Function.update_self]; exact hst₂)
    have hstage : js₂.stage = Function.update s.js.stage c st := by
      rw [hstage₂, hstage₁, Function.update_idem]
    refine ⟨{ js := js₂, initialized := Function.update s.initialized c true }, ?_,
      h.update hquiet₂ hstage (by simp [ready_of_eval hst₂]), hstage⟩
    simp only [jerryscript.onEvent, hjs₁, hjs₂, Option.bind_eq_bind, Option.bind_some]
    rfl
  | jsPolled c result =>
    obtain ⟨js, hjs, hquiet, hstage⟩ := h.quiet.performs (w .poll) c .poll hst
    obtain ⟨hready, rfl⟩ := ready_of_poll hst
    have hrests := h.update hquiet hstage (b := s.initialized c)
      (by simpa using (h.initialized c).mpr hready)
    rw [Function.update_eq_self] at hrests
    refine ⟨{ s with js }, ?_, hrests, hstage⟩
    simp only [jerryscript.onEvent, hjs, Option.bind_eq_bind, Option.bind_some]
    rfl
  | closed c =>
    by_cases hready : s.js.stage c = .ready
    · have hgone : Call.freeContext.after (s.js.stage c) = some st := by
        rw [← hst]
        exact (if_pos hready).symm
      obtain ⟨js, hjs, hquiet, hstage⟩ := h.quiet.performs (w .freeContext) c .freeContext hgone
      have hst' : st = .gone := by
        rw [hready] at hgone
        exact (Option.some.inj hgone).symm
      refine ⟨{ js, initialized := Function.update s.initialized c false }, ?_,
        h.update hquiet hstage (by simp [hst']), hstage⟩
      simp only [jerryscript.onEvent, (h.initialized c).mpr hready, if_true, hjs,
        Option.bind_eq_bind, Option.bind_some]
      rfl
    · have hsame : s.js.stage c = st := by
        have heq : some (s.js.stage c) = some st := by
          rw [← hst]
          exact (if_neg hready).symm
        exact Option.some.inj heq
      refine ⟨s, ?_, h, ?_⟩
      · simp only [jerryscript.onEvent]
        rw [if_neg (fun hi => hready ((h.initialized c).mp hi))]
      · rw [← hsame]
        exact (Function.update_eq_self _ _).symm
  | _ =>
    obtain rfl := Option.some.inj hst
    exact ⟨s, rfl, h, (Function.update_eq_self _ _).symm⟩

/-- The deeds of a connection in a history. -/
def deedsOf (c : ConnId) (es : List httpd.Event) : List Deed :=
  (es.filter (fun e => e.conn = c)).map Event.deed

theorem deedsOf_cons (c : ConnId) (e : httpd.Event) (es : List httpd.Event) :
    deedsOf c (e :: es) = if e.conn = c then e.deed :: deedsOf c es else deedsOf c es := by
  by_cases h : e.conn = c <;> simp [deedsOf, h]

/-- While each connection follows its protocol, the runtime takes every call. -/
theorem Rests.serve {s : Served} (h : Rests s) (world : World) (k : Nat) (es : List httpd.Event)
    (stage : ConnId → httpd.Stage) (hsuits : ∀ c, Suits (stage c) (s.js.stage c))
    (hfollow : ∀ c, ∃ stage', (stage c).follow (deedsOf c es) = some stage') :
    ∃ s', serve world k s es = some s' ∧ Rests s' ∧
      (∀ c stage', (stage c).follow (deedsOf c es) = some stage' →
        Suits stage' (s'.js.stage c)) ∧
      ∀ c, s'.js.stage c = .fresh ↔
        s.js.stage c = .fresh ∧ ∀ args, .handler args ∉ deedsOf c es := by
  induction es generalizing k s stage with
  | nil =>
    refine ⟨s, rfl, h, fun c stage' hstage' => ?_, by simp [deedsOf]⟩
    rw [← Option.some.inj hstage']
    exact hsuits c
  | cons e es ih =>
    obtain ⟨stage₂, he⟩ := hfollow e.conn
    rw [deedsOf_cons, if_pos rfl, follow_cons] at he
    obtain ⟨stage₁, hnext, -⟩ := Option.bind_eq_some_iff.mp he
    obtain ⟨st, hst, hsuits₁, hfresh₁⟩ := next_suits hnext (hsuits e.conn)
    obtain ⟨s₁, hs₁, hrests₁, hstage₁⟩ := h.onEvent (world k) e hst
    have hafter : ∀ c, (stage c).follow (deedsOf c (e :: es)) =
        (Function.update stage e.conn stage₁ c).follow (deedsOf c es) := by
      intro c
      rw [deedsOf_cons]
      by_cases hc : e.conn = c
      · subst hc
        rw [if_pos rfl, follow_cons, hnext, Function.update_self, Option.bind_some]
      · rw [if_neg hc, Function.update_of_ne (Ne.symm hc)]
    have hsuits' : ∀ c, Suits (Function.update stage e.conn stage₁ c) (s₁.js.stage c) := by
      intro c
      rw [hstage₁]
      by_cases hc : c = e.conn
      · subst hc
        simpa using hsuits₁
      · simpa [Function.update_of_ne hc] using hsuits c
    simp only [hafter] at hfollow ⊢
    obtain ⟨s', hs', hrests, hends, hfresh⟩ := ih hrests₁ (k + 1) _ hsuits' hfollow
    refine ⟨s', ?_, hrests, hends, fun c => ?_⟩
    · rw [jerryscript.serve, hs₁, Option.bind_some, hs']
    · rw [hfresh, hstage₁, deedsOf_cons]
      by_cases hc : e.conn = c
      · subst hc
        rw [Function.update_self, hfresh₁, if_pos rfl]
        simp only [List.mem_cons, not_or, forall_and, and_assoc, ne_comm]
      · rw [Function.update_of_ne (Ne.symm hc), if_neg hc]

/-! ## The law -/

theorem start_rests : Rests Served.start where
  quiet := ⟨start_sound, fun _ => ⟨0, rfl⟩⟩
  initialized _ := by simp [Served.start, jerryscript.start]

/-- What a call has left of the context of a connection. -/
theorem Quiet.contextOf {js : Js} (h : Quiet js) (c : ConnId) :
    (js.stage c).view.engine.Holds js.pool.shared c := by
  obtain ⟨v, hshared, hobeys⟩ := h.sound
  obtain ⟨r, hr⟩ := h.idle c
  have hview := hobeys c
  rw [hr] at hview
  rw [← show v c = (js.stage c).view from hview]
  exact hshared.2.engine c

theorem dispatched_iff {s : Httpd} {c : ConnId} :
    Dispatched s c ↔ ∃ args, .handler args ∈ deedsOf c s.trace := by
  constructor
  · rintro ⟨args, hmem⟩
    exact ⟨args, List.mem_map.mpr ⟨.handler c args, by simpa [httpd.Event.conn] using hmem, rfl⟩⟩
  · rintro ⟨args, hmem⟩
    obtain ⟨e, he, hdeed⟩ := List.mem_map.mp hmem
    obtain ⟨htrace, hconn⟩ := List.mem_filter.mp he
    cases e with
    | handler d args' =>
      obtain rfl : d = c := of_decide_eq_true hconn
      exact ⟨args', htrace⟩
    | _ => cases hdeed

theorem suits_rest {stage : httpd.Stage} {status : Status} {st : Stage} (h : Suits stage st)
    (hrest : stage.rest = some status) : ContextAt status st := by
  unfold httpd.Stage.rest at hrest
  split at hrest
  all_goals try split at hrest
  all_goals cases hrest
  all_goals exact h

/-- A history that follows the protocol leads to a stage. -/
theorem follow_of_follows {t : Httpd} {c : ConnId} (h : (sessionOf c t).Follows) :
    ∃ stage, httpd.Stage.unborn.follow (deedsOf c t.trace) = some stage := by
  rcases h with ⟨hnew, -⟩ | ⟨stage, status, hat⟩
  · exact ⟨.unborn, congrArg httpd.Stage.unborn.follow hnew⟩
  · exact ⟨stage, hat.deeds⟩

/-- What the stage of a history says of the context, the state of the connection says. -/
theorem contextAt_of_follows {t : Httpd} {c : ConnId} (h : (sessionOf c t).Follows) {st : Stage}
    (hsuits : ∀ stage, httpd.Stage.unborn.follow (deedsOf c t.trace) = some stage →
      Suits stage st) {status : Status} (hstatus : (t.conns c).status = some status) :
    ContextAt status st := by
  rcases h with ⟨-, hnew⟩ | ⟨stage, status', hat⟩
  · have hno : (t.conns c).status = none := by
      unfold HttpdConn.status
      rw [show (t.conns c).life = .fresh from hnew]
    rw [hno] at hstatus
    cases hstatus
  · obtain rfl : status' = status := Option.some.inj (hat.conn.symm.trans hstatus)
    exact suits_rest (hsuits stage hat.deeds) hat.rest

/-- The stages of the contexts tell what the runtime has of them. -/
theorem Quiet.kept {t : Httpd} {js : Js} (h : Quiet js)
    (hcontext : ∀ c status, (t.conns c).status = some status → ContextAt status (js.stage c))
    (hfresh : ∀ c, js.stage c = .fresh ↔ ¬Dispatched t c) : Kept t js where
  idle := h.idle
  unlocked := (h.sound.contexts.between h.idle).1
  writes := h.sound.contexts.writes
  untouched c hno := by
    have hholds := h.contextOf c
    rw [(hfresh c).mpr hno] at hholds
    exact hholds.2
  handed c hc := by
    have hstage : js.stage c = .ready := hcontext c .handed hc
    have hholds := h.contextOf c
    rw [hstage] at hholds
    exact hholds
  ended c hd hc := by
    have hready : js.stage c ≠ .ready := hcontext c .gone hc
    have hholds := h.contextOf c
    cases hstage : js.stage c with
    | fresh => exact absurd hd ((hfresh c).mp hstage)
    | ready => exact absurd hstage hready
    | gone =>
      rw [hstage] at hholds
      exact hholds

/-- In every run in which no call of llhttp sends a second message of its connection to
the handler, with any outcome of the engine calls and any callbacks in them: the task
never calls the JerryScript runtime out of turn. Each context is made when its connection
goes to the handler, is there until the connection ends, and is then freed once. -/
theorem the_task_calls_the_runtime_in_turn (cfg : Config) (l : Llhttp) (y : Yuarel)
    (serverfd : Nat) (is : List Os)
    (h : StepsOk (httpd.step cfg l y) (OneDispatch cfg l y) (httpd.start serverfd) is)
    (world : World) :
    ∃ s, serve world 0 Served.start (run (httpd.step cfg l y) (httpd.start serverfd) is).trace =
      some s ∧ Kept (run (httpd.step cfg l y) (httpd.start serverfd) is) s.js := by
  have hfollows := run_follows serverfd h
  generalize run (httpd.step cfg l y) (httpd.start serverfd) is = t at hfollows ⊢
  obtain ⟨s, hs, hrests, hsuits, hfresh⟩ :=
    start_rests.serve world 0 t.trace (fun _ => .unborn) (fun _ => rfl)
      (fun c => follow_of_follows (hfollows c))
  refine ⟨s, hs, hrests.quiet.kept ?_ fun c => ?_⟩
  · exact fun c _ hstatus => contextAt_of_follows (hfollows c) (hsuits c) hstatus
  · rw [hfresh, dispatched_iff, not_exists]
    exact and_iff_right rfl

/-- One request for `/`, whose handler is polled twice. -/
def servedRequest : List Os :=
  acceptAt 5 ++ receiveAt (getRequest "/") ++
    [Os.quiet, Os.quiet, { Os.quiet with jsPoll := 1 }, Os.quiet, Os.quiet]

def quietEngine : World := fun _ _ _ => { callbacks := [], answer := true }

theorem one_request_calls_the_runtime_in_turn : ∃ s, serve quietEngine 0 Served.start
    (run (httpd.step { maxConns := 12, hasHandler := true } rootLlhttp slashYuarel)
      (httpd.start 3) servedRequest).trace = some s ∧
    Kept (run (httpd.step { maxConns := 12, hasHandler := true } rootLlhttp slashYuarel)
      (httpd.start 3) servedRequest) s.js :=
  the_task_calls_the_runtime_in_turn _ _ _ _ _ (by decide +kernel) quietEngine

/-- Its context is made and freed. -/
example : (serve quietEngine 0 Served.start
    (run (httpd.step { maxConns := 12, hasHandler := true } rootLlhttp slashYuarel)
      (httpd.start 3) servedRequest).trace).map (fun s => s.js.pool.shared.contextOf 0) =
    some [.allocated 0 (some 0), .freed 0 (some 0)] := by
  decide +kernel

end isere.jerryscript
