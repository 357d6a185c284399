-- The JavaScript runtime and context of a connection, of
-- src/runtimes/quickjs/quickjs.c, along the history of the httpd task. The
-- server does not look at the result of `isere_js_new_context`, so it goes on
-- without a context, and `js_runtime_deinit_context` then keeps the runtime.
import Isere.HttpdSteps

open cstring isere.httpd isere.uv runs

namespace isere.quickjs

/-- A `JSRuntime`, told by the place in the history at which it was created. -/
abbrev RuntimeId := Nat

/-- A `JSContext`, told in the same way. -/
abbrev ContextId := Nat

/-- `isere_js_context_t`, less the value of the script and the timers. -/
structure JsContext where
  initialized : Bool
  runtime : Option RuntimeId
  context : Option ContextId
  deriving DecidableEq, Repr

/-- The context of a connection after the `memset` of `__on_connected`. -/
def JsContext.zero : JsContext := { initialized := false, runtime := none, context := none }

/-- The calls of the engine, with the runtime or the context that each is given.
Where a function makes many calls on one context, the first of a kind stands for
them. -/
inductive JsCall
  | newRuntime2 (result : Option RuntimeId)
  | newContextRaw (runtime : Option RuntimeId) (result : Option ContextId)
  | setContextOpaque (context : Option ContextId)
  | getGlobalObject (context : Option ContextId)
  | eval (context : Option ContextId)
  | getRuntime (context : Option ContextId)
  | freeValue (context : Option ContextId)
  | freeContext (context : Option ContextId)
  | freeRuntime (runtime : Option RuntimeId)
  deriving DecidableEq, Repr

/-- The call is given `NULL`. -/
def JsCall.givenNull : JsCall → Bool
  | .newRuntime2 _ => false
  | .newContextRaw p _ => p.isNone
  | .setContextOpaque p => p.isNone
  | .getGlobalObject p => p.isNone
  | .eval p => p.isNone
  | .getRuntime p => p.isNone
  | .freeValue p => p.isNone
  | .freeContext p => p.isNone
  | .freeRuntime p => p.isNone

/-- Does the engine find memory for a runtime, or for a context, at a place in
the history? -/
structure Memories where
  runtime : Nat → Bool
  context : Nat → Bool

/-! ## The runtime -/

/-- `js_runtime_init_context`. -/
def jsRuntimeInitContext (a : Memories) (k : Nat) (x : JsContext) :
    JsContext × List JsCall × Int :=
  if x.runtime ≠ none then (x, [], -1)
  else
    let runtime := if a.runtime k then some k else none
    let x := { x with runtime }
    if runtime = none then (x, [.newRuntime2 runtime], -1)
    else if x.context ≠ none then (x, [.newRuntime2 runtime], -1)
    else
      let context := if a.context k then some k else none
      let x := { x with context }
      if context = none then (x, [.newRuntime2 runtime, .newContextRaw runtime context], -1)
      else (x, [.newRuntime2 runtime, .newContextRaw runtime context, .setContextOpaque context,
        .getGlobalObject context], 0)

/-- `js_runtime_eval_handler`. -/
def jsRuntimeEvalHandler (x : JsContext) : List JsCall :=
  [.getGlobalObject x.context, .eval x.context]

/-- `js_runtime_poll`. -/
def jsRuntimePoll (x : JsContext) : List JsCall := [.getRuntime x.context]

/-- `js_runtime_deinit_context`. -/
def jsRuntimeDeinitContext (x : JsContext) : List JsCall × Int :=
  if x.context = none then ([], -1)
  else
    let calls := [.freeValue x.context, .getGlobalObject x.context, .freeContext x.context]
    if x.runtime = none then (calls, -1) else (calls ++ [.freeRuntime x.runtime], 0)

/-! ## The server -/

/-- What the server does with the context of a connection at an event: a message
that goes to the handler in `__on_message_complete`, a poll in the drain loop, or
`__httpd_cleanup_conn`. -/
def onEvent (a : Memories) (k : Nat) (x : JsContext) : Event → JsContext × List JsCall
  | .handler _ _ =>
    let r := jsRuntimeInitContext a k x
    let x := { r.1 with initialized := true }
    (x, r.2.1 ++ jsRuntimeEvalHandler x)
  | .jsPolled _ _ => (x, jsRuntimePoll x)
  | .closed _ =>
    if x.initialized then ({ x with initialized := false }, (jsRuntimeDeinitContext x).1)
    else (x, [])
  | _ => (x, [])

/-- The context of connection `c` after the events, and the engine calls for it.
`k` is the place of the first of the events in the history. -/
def jsRun (a : Memories) (c : ConnId) : Nat → JsContext → List Event → JsContext × List JsCall
  | _, x, [] => (x, [])
  | k, x, e :: es =>
    let r := if e.conn = c then onEvent a k x e else (x, [])
    let rest := jsRun a c (k + 1) r.1 es
    (rest.1, r.2 ++ rest.2)

/-- The context of a connection after a history. -/
def contextAfter (a : Memories) (c : ConnId) (t : List Event) : JsContext :=
  (jsRun a c 0 JsContext.zero t).1

/-- `isere_js_new_context` returns -1 for a message after the history `pre`. -/
def Fails (a : Memories) (c : ConnId) (pre : List Event) : Prop :=
  (jsRuntimeInitContext a pre.length (contextAfter a c pre)).2.2 = -1

/-- The engine calls for a connection from a message after the history `pre` on. -/
def callsFrom (a : Memories) (c : ConnId) (pre : List Event) (args : HandlerArgs)
    (post : List Event) : List JsCall :=
  (jsRun a c pre.length (contextAfter a c pre) (.handler c args :: post)).2

/-- A creation that failed does no harm: from then on the engine is given no
`NULL` for the connection, and its cleanup frees each runtime of the connection.
`cleaned` is the rule of the drain loop alone, by which a poll that asks for no
other one is followed by the cleanup: it holds in every history, by `PollsEnd`. -/
structure Handled (a : Memories) (c : ConnId) (pre : List Event) (args : HandlerArgs)
    (post : List Event) : Prop where
  notNull : ∀ call ∈ callsFrom a c pre args post, call.givenNull = false
  cleaned : ∀ mid r rest, post = mid ++ .jsPolled c r :: rest → r ≤ 0 → .freed c ∈ rest
  released : .closed c ∈ post → ∀ r,
    .newRuntime2 (some r) ∈ (jsRun a c 0 JsContext.zero (pre ++ .handler c args :: post)).2 →
      .freeRuntime (some r) ∈ callsFrom a c pre args post

/-- Each creation that fails in the history is handled. -/
def FailuresHandled (a : Memories) (t : List Event) : Prop :=
  ∀ pre c args post, t = pre ++ .handler c args :: post → Fails a c pre → Handled a c pre args post

/-- Each creation that fails finds a context of the connection that is there. -/
def OnlyRepeated (a : Memories) (t : List Event) : Prop :=
  ∀ pre c args post, t = pre ++ .handler c args :: post → Fails a c pre →
    (contextAfter a c pre).context ≠ none

/-! ## What the runtime keeps -/

theorem jsRun_append (a : Memories) (c : ConnId) (k : Nat) (x : JsContext) (es fs : List Event) :
    jsRun a c k x (es ++ fs) =
      ((jsRun a c (k + es.length) (jsRun a c k x es).1 fs).1,
        (jsRun a c k x es).2 ++ (jsRun a c (k + es.length) (jsRun a c k x es).1 fs).2) := by
  induction es generalizing k x with
  | nil => simp [jsRun]
  | cons e es ih =>
    simp only [List.cons_append, jsRun, ih, List.length_cons, List.append_assoc]
    rw [show k + 1 + es.length = k + (es.length + 1) by omega]

/-- What `js_runtime_init_context` does at each of its returns: the runtime is
there already; it is not created; the context is there already; it is not
created; or both are. -/
theorem init_cases (a : Memories) (k : Nat) (x : JsContext) :
    (x.runtime ≠ none ∧ jsRuntimeInitContext a k x = (x, [], -1)) ∨
    (x.runtime = none ∧ jsRuntimeInitContext a k x = (x, [.newRuntime2 none], -1)) ∨
    (x.runtime = none ∧ x.context ≠ none ∧ jsRuntimeInitContext a k x =
      ({ x with runtime := some k }, [.newRuntime2 (some k)], -1)) ∨
    (x.runtime = none ∧ x.context = none ∧ jsRuntimeInitContext a k x =
      ({ x with runtime := some k },
        [.newRuntime2 (some k), .newContextRaw (some k) none], -1)) ∨
    (x.runtime = none ∧ x.context = none ∧ a.context k = true ∧ jsRuntimeInitContext a k x =
      ({ x with runtime := some k, context := some k },
        [.newRuntime2 (some k), .newContextRaw (some k) (some k), .setContextOpaque (some k),
          .getGlobalObject (some k)], 0)) := by
  obtain ⟨initialized, runtime, context⟩ := x
  unfold jsRuntimeInitContext
  cases runtime with
  | some r => simp
  | none =>
    cases a.runtime k with
    | false => simp
    | true =>
      cases context with
      | some p => simp
      | none => cases a.context k <;> simp

/-- A failed creation on a connection without a context leaves it without one. -/
theorem init_fails {a : Memories} {k : Nat} {x : JsContext} (hx : x.context = none)
    (hf : (jsRuntimeInitContext a k x).2.2 = -1) :
    (jsRuntimeInitContext a k x).1.context = none := by
  rcases init_cases a k x with ⟨-, h⟩ | ⟨-, h⟩ | ⟨-, -, h⟩ | ⟨-, -, h⟩ | ⟨-, -, -, h⟩
  · simpa [h] using hx
  · simpa [h] using hx
  · simpa [h] using hx
  · simpa [h] using hx
  · simp [h] at hf

/-- Without memory for a context every creation fails. -/
theorem init_noMemory {a : Memories} (ha : ∀ k, a.context k = false) (k : Nat) (x : JsContext) :
    (jsRuntimeInitContext a k x).2.2 = -1 := by
  rcases init_cases a k x with ⟨-, h⟩ | ⟨-, h⟩ | ⟨-, -, h⟩ | ⟨-, -, h⟩ | ⟨-, -, hm, -⟩
  · simp [h]
  · simp [h]
  · simp [h]
  · simp [h]
  · simp [ha] at hm

/-- The runtime comes before the context, and only one is ever created. -/
structure OneRuntime (x : JsContext) (calls : List JsCall) : Prop where
  first : x.context ≠ none → x.runtime ≠ none
  only : ∀ r, .newRuntime2 (some r) ∈ calls → x.runtime = some r

theorem OneRuntime.same {x x' : JsContext} {calls more : List JsCall} (h : OneRuntime x calls)
    (hr : x'.runtime = x.runtime) (hc : x'.context = x.context)
    (hm : ∀ r, .newRuntime2 (some r) ∉ more) : OneRuntime x' (calls ++ more) where
  first := by
    rw [hr, hc]
    exact h.first
  only r hin := by
    rw [hr]
    rcases List.mem_append.mp hin with hin | hin
    · exact h.only r hin
    · exact absurd hin (hm r)

theorem OneRuntime.init {x : JsContext} {calls : List JsCall} (h : OneRuntime x calls)
    (a : Memories) (k : Nat) :
    OneRuntime (jsRuntimeInitContext a k x).1 (calls ++ (jsRuntimeInitContext a k x).2.1) := by
  have hno : x.runtime = none → ∀ r, .newRuntime2 (some r) ∉ calls := by
    intro hnone r hin
    have hsome := h.only r hin
    simp [hnone] at hsome
  rcases init_cases a k x with ⟨-, h'⟩ | ⟨-, h'⟩ | ⟨hr, hc, -⟩ | ⟨hr, hc, h'⟩ | ⟨hr, -, -, h'⟩
  · rw [h']
    exact h.same rfl rfl (by simp)
  · rw [h']
    exact h.same rfl rfl (by simp)
  · exact absurd hr (h.first hc)
  · rw [h']
    refine ⟨fun hsome => absurd hc hsome, fun r hin => ?_⟩
    simpa [hno hr, eq_comm] using hin
  · rw [h']
    refine ⟨fun _ => by simp, fun r hin => ?_⟩
    simpa [hno hr, eq_comm] using hin

theorem OneRuntime.onEvent {x : JsContext} {calls : List JsCall} (h : OneRuntime x calls)
    (a : Memories) (k : Nat) (e : Event) :
    OneRuntime (onEvent a k x e).1 (calls ++ (onEvent a k x e).2) := by
  unfold quickjs.onEvent
  cases e with
  | handler c args =>
    simp only
    rw [← List.append_assoc]
    exact (h.init a k).same rfl rfl (by simp [jsRuntimeEvalHandler])
  | jsPolled c r => exact h.same rfl rfl (by simp [jsRuntimePoll])
  | closed c =>
    simp only
    split
    · refine h.same rfl rfl ?_
      unfold jsRuntimeDeinitContext
      split_ifs <;> simp
    · exact h.same rfl rfl (by simp)
  | _ => exact h.same rfl rfl (by simp)

theorem OneRuntime.run {a : Memories} {c : ConnId} {k : Nat} {x : JsContext} {calls : List JsCall}
    (h : OneRuntime x calls) (es : List Event) :
    OneRuntime (jsRun a c k x es).1 (calls ++ (jsRun a c k x es).2) := by
  induction es generalizing k x calls with
  | nil => simpa [jsRun] using h
  | cons e es ih =>
    simp only [jsRun]
    rw [← List.append_assoc]
    apply ih
    split
    · exact h.onEvent a k e
    · exact h.same rfl rfl (by simp)

/-! ## A connection with a context -/

/-- The connection has its runtime and its context. -/
structure Ready (x : JsContext) (r : RuntimeId) (p : ContextId) : Prop where
  runtime : x.runtime = some r
  context : x.context = some p

/-- An engine call that gets no `NULL` and creates no runtime. -/
def Safe (call : JsCall) : Prop := call.givenNull = false ∧ ∀ r, call ≠ .newRuntime2 (some r)

theorem Ready.onEvent {x : JsContext} {r : RuntimeId} {p : ContextId} (h : Ready x r p)
    (a : Memories) (k : Nat) (e : Event) :
    Ready (onEvent a k x e).1 r p ∧ ∀ call ∈ (onEvent a k x e).2, Safe call := by
  unfold quickjs.onEvent
  cases e with
  | handler c args =>
    have hinit : jsRuntimeInitContext a k x = (x, [], -1) := by
      unfold jsRuntimeInitContext
      rw [if_pos (by simp [h.runtime])]
    simp only [hinit, List.nil_append]
    exact ⟨⟨h.runtime, h.context⟩, by simp [jsRuntimeEvalHandler, h.context, Safe,
      JsCall.givenNull]⟩
  | jsPolled c i => exact ⟨h, by simp [jsRuntimePoll, h.context, Safe, JsCall.givenNull]⟩
  | closed c =>
    simp only
    split
    · exact ⟨⟨h.runtime, h.context⟩, by simp [jsRuntimeDeinitContext, h.runtime, h.context, Safe,
        JsCall.givenNull]⟩
    · exact ⟨h, by simp⟩
  | _ => exact ⟨h, by simp⟩

theorem Ready.run {a : Memories} {c : ConnId} {k : Nat} {x : JsContext} {r : RuntimeId}
    {p : ContextId} (h : Ready x r p) (es : List Event) :
    ∀ call ∈ (jsRun a c k x es).2, Safe call := by
  induction es generalizing k x with
  | nil => simp [jsRun]
  | cons e es ih =>
    simp only [jsRun]
    split
    · obtain ⟨hready, hcalls⟩ := h.onEvent a k e
      intro call hin
      rcases List.mem_append.mp hin with hin | hin
      · exact hcalls call hin
      · exact ih hready call hin
    · simpa using ih h

/-- The first cleanup of a connection that has a context frees its runtime. -/
theorem Ready.released {a : Memories} {c : ConnId} {k : Nat} {x : JsContext} {r : RuntimeId}
    {p : ContextId} (h : Ready x r p) (hi : x.initialized = true) {es : List Event}
    (hes : .closed c ∈ es) : .freeRuntime (some r) ∈ (jsRun a c k x es).2 := by
  induction es generalizing k x with
  | nil => simp at hes
  | cons e es ih =>
    simp only [jsRun, List.mem_append]
    by_cases he : e = .closed c
    · left
      simp [he, Event.conn, quickjs.onEvent, hi, jsRuntimeDeinitContext, h.runtime, h.context]
    · right
      have hin : .closed c ∈ es := by simpa [Ne.symm he] using hes
      split
      · rename_i hconn
        refine ih (h.onEvent a k e).1 ?_ hin
        unfold quickjs.onEvent
        cases e with
        | handler d args => rfl
        | closed d => exact absurd (by rw [← hconn, Event.conn]) he
        | _ => exact hi
      · exact ih h hi hin

/-! ## A connection without a context -/

/-- The handler runs on no context after a creation that failed without one. -/
theorem failed_null {a : Memories} {c : ConnId} {pre post : List Event} {args : HandlerArgs}
    (hf : Fails a c pre) (hnone : (contextAfter a c pre).context = none) :
    ¬Handled a c pre args post := by
  intro h
  have hinit := init_fails hnone hf
  have hnull := h.notNull (.getGlobalObject none) (by
    simp [callsFrom, jsRun, Event.conn, onEvent, jsRuntimeEvalHandler, hinit])
  simp [JsCall.givenNull] at hnull

/-- A creation that fails on a connection with a context leaves it as it was. -/
theorem failed_ready {a : Memories} {c : ConnId} {pre post : List Event} {args : HandlerArgs}
    (hsome : (contextAfter a c pre).context ≠ none)
    (hpolls : ∀ mid r rest, post = mid ++ .jsPolled c r :: rest → r ≤ 0 → .freed c ∈ rest) :
    Handled a c pre args post := by
  have hone : OneRuntime (contextAfter a c pre) ([] ++ (jsRun a c 0 JsContext.zero pre).2) :=
    OneRuntime.run (x := JsContext.zero) ⟨by simp [JsContext.zero], by simp⟩ pre
  obtain ⟨p, hp⟩ := Option.ne_none_iff_exists'.mp hsome
  obtain ⟨r, hr⟩ := Option.ne_none_iff_exists'.mp (hone.first hsome)
  have hready : Ready (contextAfter a c pre) r p := ⟨hr, hp⟩
  have hsafe := hready.run (a := a) (c := c) (k := pre.length) (.handler c args :: post)
  refine ⟨fun call hin => (hsafe call hin).1, hpolls, ?_⟩
  intro hclosed r' hmade
  rw [jsRun_append, List.mem_append] at hmade
  rcases hmade with hmade | hmade
  · have hsame : r = r' := by
      have honly := hone.only r' (by simpa using hmade)
      rw [hr] at honly
      exact Option.some.inj honly
    rw [← hsame]
    have hnext := hready.onEvent a pre.length (.handler c args)
    have hrest := hnext.1.released (a := a) (c := c) (k := pre.length + 1) rfl hclosed
    simp only [callsFrom, jsRun, Event.conn, ↓reduceIte, List.mem_append]
    exact Or.inr hrest
  · rw [Nat.zero_add] at hmade
    exact absurd rfl ((hsafe _ hmade).2 r')

/-! ## The polls of a run -/

/-- A poll that asks for no other one is followed by the cleanup. -/
def PollsEnd (t : List Event) : Prop :=
  ∀ c mid r rest, t = mid ++ .jsPolled c r :: rest → r ≤ 0 → .freed c ∈ rest

theorem PollsEnd.append {t es : List Event} (ht : PollsEnd t) (hes : PollsEnd es) :
    PollsEnd (t ++ es) := by
  intro c mid r rest heq hr
  rcases List.append_eq_append_iff.mp heq with ⟨as, hmid, hes'⟩ | ⟨bs, ht', hrest⟩
  · exact hes c as r rest hes' hr
  · cases bs with
    | nil => exact hes c [] r rest (by simpa using hrest.symm) hr
    | cons b bs =>
      simp only [List.cons_append, List.cons.injEq] at hrest
      obtain ⟨rfl, rfl⟩ := hrest
      exact List.mem_append_left _ (ht c mid r bs ht' hr)

/-- Events without a poll. -/
theorem pollsEnd_of_none {es : List Event} (h : ∀ c r, .jsPolled c r ∉ es) : PollsEnd es := by
  rintro c mid r rest rfl
  exact absurd (by simp) (h c r)

/-- The steps that poll no connection add no poll. -/
def NoPoll (s s' : Httpd) : Prop := ∃ es, s'.trace = s.trace ++ es ∧ ∀ c r, .jsPolled c r ∉ es

theorem NoPoll.refl (s : Httpd) : NoPoll s s := ⟨[], by simp, by simp⟩

theorem NoPoll.trans {s s' s'' : Httpd} (h : NoPoll s s') (h' : NoPoll s' s'') : NoPoll s s'' := by
  obtain ⟨es, ht, hes⟩ := h
  obtain ⟨fs, ht', hfs⟩ := h'
  refine ⟨es ++ fs, by rw [ht', ht, List.append_assoc], fun c r hin => ?_⟩
  rcases List.mem_append.mp hin with hin | hin
  · exact hes c r hin
  · exact hfs c r hin

theorem onCallback_noPoll (cfg : Config) (y : Yuarel) (c : ConnId) (os : Os) (s : Httpd)
    (cb : Callback) : NoPoll s (onCallback cfg y c os s cb) := by
  by_cases hcb : cb = .messageComplete
  · subst hcb
    cases hd : cfg.dispatches (s.conns c).req with
    | true =>
      rw [onCallback_dispatch cfg y c os s hd]
      exact ⟨[.callback c .messageComplete, .handler c (s.conns c).req.handlerArgs, .parser c],
        by simp, by simp⟩
    | false =>
      obtain ⟨a, -, heq⟩ := onCallback_answer cfg y c os s hd
      rw [heq]
      exact ⟨[.callback c .messageComplete, .wrote c a, .closed c, .freed c, .parser c],
        by simp, by simp⟩
  · exact ⟨_, piece_trace cfg y c os s hcb, by simp⟩

theorem onPoll_noPoll (cfg : Config) (l : Llhttp) (y : Yuarel) (s : Httpd) (c : ConnId)
    (events : Events) (os : Os) : NoPoll s (onPoll cfg l y s c events os) := by
  refine star_inv (I := NoPoll s) ?_ (onPoll_moves cfg l y s c events os) (NoPoll.refl s)
  intro s1 s2 h hmove
  apply h.trans
  cases hmove with
  | logged he =>
    rcases he with rfl | rfl
    · exact ⟨[.polled c], rfl, by simp⟩
    · exact ⟨[.wrote c .tooLarge], rfl, by simp⟩
  | cleaned => exact ⟨_, cleanup_trace s1 c, by simp⟩
  | fed chunk => exact ⟨[], by simp, by simp⟩
  | callback cb => exact onCallback_noPoll cfg y c os s1 cb

/-- The events of a poll that the cleanup follows. -/
theorem pollsEnd_cleanup (c : ConnId) (r : Int) {mid : List Event}
    (hmid : ∀ d r, .jsPolled d r ∉ mid) :
    PollsEnd (.jsPolled c r :: mid ++ [.closed c, .freed c]) := by
  intro d pre r' rest heq _
  cases pre with
  | nil =>
    simp only [List.cons_append, List.nil_append, List.cons.injEq, Event.jsPolled.injEq] at heq
    obtain ⟨⟨rfl, -⟩, rfl⟩ := heq
    simp
  | cons e pre =>
    simp only [List.cons_append, List.cons.injEq] at heq
    have hin : Event.jsPolled d r' ∈ mid ++ [.closed c, .freed c] := by
      rw [heq.2]
      simp
    simp [hmid] at hin

/-- A poll of the drain loop is followed by the cleanup, or asks for another one. -/
theorem pollingStep_pollsEnd (s : Httpd) (c : ConnId) (os : Os) :
    ∃ es, (pollingStep s c os).trace = s.trace ++ es ∧ PollsEnd es := by
  rcases pollingStep_cases s c os with ⟨-, -, heq⟩ | ⟨-, hpos, heq⟩ | heq
  · rw [heq]
    refine ⟨.jsPolled c os.jsPoll :: [] ++ [.closed c, .freed c], ?_,
      pollsEnd_cleanup c os.jsPoll (by simp)⟩
    simp [polledJs_trace]
  · rw [heq]
    refine ⟨[.jsPolled c os.jsPoll], polledJs_trace s c os, ?_⟩
    intro d mid r rest hev hr
    have hin : Event.jsPolled d r ∈ [Event.jsPolled c os.jsPoll] := by
      rw [hev]
      simp
    simp only [List.mem_singleton, Event.jsPolled.injEq] at hin
    omega
  · rw [heq]
    refine ⟨.jsPolled c os.jsPoll ::
      [.wrote c (httpdWriteback ((polledJs s c os).conns c).response)] ++ [.closed c, .freed c],
      ?_, pollsEnd_cleanup c os.jsPoll (by simp)⟩
    simp [polledJs_trace]

theorem onConnected_noPoll (cfg : Config) (s : Httpd) (events : Events) (os : Os) :
    NoPoll s (onConnected cfg s events os) := by
  rcases onConnected_cases cfg s events os with heq | ⟨-, -, heq⟩
  · rw [heq]
    exact NoPoll.refl s
  · rw [heq]
    exact ⟨_, addConn_trace s os.accept, by simp⟩

theorem slotStep_noPoll (cfg : Config) (l : Llhttp) (y : Yuarel) (s : Httpd) (i : Nat) (os : Os) :
    NoPoll s (slotStep cfg l y s i os) := by
  have hslot : NoPoll s { s with
      loop := (uvPollSlot s.loop i).1, phase := .iterating (i + 1) } := ⟨[], by simp, by simp⟩
  unfold slotStep
  split
  · exact ⟨[], by simp, by simp⟩
  · simp only
    split
    · exact hslot
    · exact hslot.trans (onConnected_noPoll cfg _ _ os)
    · exact hslot.trans (onPoll_noPoll cfg l y _ _ _ os)

theorem NoPoll.pollsEnd {s s' : Httpd} (h : NoPoll s s') (hs : PollsEnd s.trace) :
    PollsEnd s'.trace := by
  obtain ⟨es, ht, hes⟩ := h
  rw [ht]
  exact hs.append (pollsEnd_of_none hes)

theorem step_pollsEnd (cfg : Config) (l : Llhttp) (y : Yuarel) (s : Httpd) (os : Os)
    (h : PollsEnd s.trace) : PollsEnd (step cfg l y s os).trace := by
  unfold step
  cases s.phase with
  | loop =>
    simp only
    split
    · exact h
    · obtain ⟨loop, p, heq, -⟩ := pollStep_moves cfg s os
      rw [heq]
      exact h
  | iterating i => exact (slotStep_noPoll cfg l y s i os).pollsEnd h
  | drain =>
    obtain ⟨q, p, heq, -⟩ := drainStep_moves s
    rw [heq]
    exact h
  | polling c =>
    obtain ⟨es, ht, hes⟩ := pollingStep_pollsEnd s c os
    rw [ht]
    exact h.append hes
  | exited => exact h

/-! ## The law -/

/-- In every run, each failed creation of a runtime or a context is handled, just
when each of them finds a context that an earlier message of the connection made. -/
theorem failures_are_handled_iff (a : Memories) (cfg : Config) (l : Llhttp) (y : Yuarel)
    (serverfd : Nat) (is : List Os) :
    FailuresHandled a (run (step cfg l y) (start serverfd) is).trace ↔
      OnlyRepeated a (run (step cfg l y) (start serverfd) is).trace := by
  have hpolls : PollsEnd (run (step cfg l y) (start serverfd) is).trace :=
    run_inv_all (I := fun s => PollsEnd s.trace) (fun s os h => step_pollsEnd cfg l y s os h)
      (pollsEnd_of_none (by simp [start])) is
  constructor
  · intro h pre c args post ht hf hnone
    exact failed_null hf hnone (h pre c args post ht hf)
  · intro h pre c args post ht hf
    refine failed_ready (h pre c args post ht hf) (fun mid r rest hpost hr => ?_)
    exact hpolls c (pre ++ .handler c args :: mid) r rest (by simp [ht, hpost]) hr

/-- An engine with memory for a runtime, and none for a context. -/
def noContexts : Memories := { runtime := fun _ => true, context := fun _ => false }

theorem onEvent_noContexts (k : Nat) {x : JsContext} (hx : x.context = none) (e : Event) :
    (onEvent noContexts k x e).1.context = none := by
  unfold onEvent
  cases e with
  | handler c args => exact init_fails hx (init_noMemory (fun _ => rfl) k x)
  | closed c =>
    simp only
    split <;> exact hx
  | _ => exact hx

/-- Without memory for a context, no connection has one. -/
theorem jsRun_noContexts (c : ConnId) {k : Nat} {x : JsContext} (hx : x.context = none)
    (es : List Event) : (jsRun noContexts c k x es).1.context = none := by
  induction es generalizing k x with
  | nil => exact hx
  | cons e es ih =>
    simp only [jsRun]
    apply ih
    split
    · exact onEvent_noContexts k hx e
    · exact hx

/-- One request for `/` runs the handler on no context, if there is no memory for one. -/
theorem a_request_runs_on_no_context : ¬FailuresHandled noContexts
    (run (step { maxConns := 12, hasHandler := true } rootLlhttp slashYuarel) (start 3)
      (acceptAt 5 ++ receiveAt (getRequest "/"))).trace := by
  intro h
  have hin : Event.handler 0
      { method := ascii "GET", path := some [], query := none, headers := [], body := [] } ∈
      (run (step { maxConns := 12, hasHandler := true } rootLlhttp slashYuarel) (start 3)
        (acceptAt 5 ++ receiveAt (getRequest "/"))).trace := by decide +kernel
  obtain ⟨pre, post, ht⟩ := List.append_of_mem hin
  have hf : Fails noContexts 0 pre := init_noMemory (fun _ => rfl) _ _
  exact failed_null hf (jsRun_noContexts 0 rfl pre) (h pre 0 _ post ht hf)

end isere.quickjs
