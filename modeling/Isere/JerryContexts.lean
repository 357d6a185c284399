-- The globals of the JerryScript runtime over all interleavings of its calls:
-- between calls they are free, during an engine call they are those of the
-- connection that is served, and each engine context is freed once.
import Isere.JerryScript
import Isere.Runs

open isere.httpd typestate runs

namespace isere.jerryscript

/-! ## The typestate of a call -/

/-- How far a call is in taking the globals, or in giving them back. -/
inductive Place
  | outside
  | taken
  | half
  | inside
  | halfOut
  | cleared
  deriving DecidableEq

/-- The engine context of a connection: `made` and not kept in `ctx->context`
yet, or `freed` and still there. -/
inductive Engine
  | absent
  | made
  | kept
  | freed
  | gone
  deriving DecidableEq

/-- What a call knows of the shared state. `named` is set with the `opaque`. -/
structure View where
  place : Place
  engine : Engine
  named : Bool
  deriving DecidableEq

/-- The actions that a call may make, and its view after each of them. -/
def rule (v : View) : Act → Bool → Option View
  | .takeCtxMut, _ => if v.place = .outside then some { v with place := .taken } else none
  | .setCurrentContext, _ =>
    if v.place = .taken ∧ (v.engine = .absent ∨ v.engine = .kept) then
      some { v with place := .half }
    else none
  | .setCurrentIsereJsContext, _ =>
    if v.place = .half ∧ v.engine ≠ .made then some { v with place := .inside } else none
  | .clearCurrentContext, _ =>
    if v.place = .inside ∧ (v.engine = .kept ∨ v.engine = .gone) then
      some { v with place := .halfOut }
    else none
  | .clearCurrentIsereJsContext, _ =>
    if v.place = .halfOut ∧ v.engine ≠ .made then some { v with place := .cleared } else none
  | .giveCtxMut, _ =>
    if v.place = .cleared ∧ v.engine ≠ .made then some { v with place := .outside } else none
  | .jerryPortContextAlloc, _ =>
    if v.place = .inside ∧ v.engine = .absent then some { v with engine := .made } else none
  | .keepContext, _ =>
    if v.place = .inside ∧ v.engine = .made then some { v with engine := .kept } else none
  | .jerryPortContextFree, _ =>
    if v.place = .inside ∧ v.engine = .kept then some { v with engine := .freed } else none
  | .dropContext, _ =>
    if v.place = .inside ∧ v.engine = .freed then some { v with engine := .gone } else none
  | .setOpaque, _ => if v.place = .outside then some { v with named := true } else none
  | .jerry f, _ =>
    if v.place = .inside ∧ (v.engine = .made ∨ v.engine = .kept) ∧
        (f = .functionExternal .handlerCb → v.named = true) then some v
    else none

/-- The view of a connection between its calls. -/
def Stage.view : Stage → View
  | .fresh => { place := .outside, engine := .absent, named := false }
  | .ready => { place := .outside, engine := .kept, named := true }
  | .gone => { place := .outside, engine := .gone, named := true }

/-! ## The calls obey -/

/-- A call in this view may use the engine. -/
def View.Serves (v : View) : Prop := v.place = .inside ∧ (v.engine = .made ∨ v.engine = .kept)

section Obeys

variable {final : View → Prop} {v : View} {k : Program}

theorem obeys_jerry {f : Jerry} (hv : v.Serves)
    (hf : f = .functionExternal .handlerCb → v.named = true) (hk : k.Obeys rule final v) :
    (jerry f k).Obeys rule final v :=
  (obeys_andThen_iff (fun _ => if_pos ⟨hv.1, hv.2, hf⟩)).mpr hk

theorem obeys_askJerry {f : Jerry} {k : Bool → Program} (hv : v.Serves)
    (hf : f = .functionExternal .handlerCb → v.named = true)
    (hk : ∀ answer, (k answer).Obeys rule final v) : (askJerry f k).Obeys rule final v :=
  (obeys_act_iff (fun _ => if_pos ⟨hv.1, hv.2, hf⟩)).mpr hk

theorem obeys_addKeyValueToObject (hv : v.Serves) (hk : k.Obeys rule final v) :
    (addKeyValueToObject k).Obeys rule final v := by
  apply obeys_jerry hv (by simp)
  apply obeys_jerry hv (by simp)
  apply obeys_jerry hv (by simp)
  apply obeys_askJerry hv (by simp)
  intro isException
  cases isException <;> exact obeys_jerry hv (by simp) hk

theorem obeys_addObject (hv : v.Serves) (hk : k.Obeys rule final v) :
    (addObject k).Obeys rule final v := by
  apply obeys_jerry hv (by simp)
  exact obeys_addKeyValueToObject hv hk

theorem obeys_addString (hv : v.Serves) (hk : k.Obeys rule final v) :
    (addString k).Obeys rule final v := by
  apply obeys_jerry hv (by simp)
  exact obeys_addObject hv hk

theorem obeys_addFunction {f : External} (hv : v.Serves) (hf : f = .handlerCb → v.named = true)
    (hk : k.Obeys rule final v) : (addFunction f k).Obeys rule final v := by
  apply obeys_jerry hv (by simp)
  apply obeys_jerry hv
  · rintro ⟨⟩
    exact hf rfl
  · exact obeys_addKeyValueToObject hv hk

theorem obeys_addHeaders (hv : v.Serves) (hk : k.Obeys rule final v) (n : Nat) :
    (addHeaders k n).Obeys rule final v := by
  induction n with
  | zero => exact hk
  | succ n ih => exact obeys_addString hv ih

theorem obeys_eventObject (hv : v.Serves) (n : Nat) (hk : k.Obeys rule final v) :
    (eventObject n k).Obeys rule final v := by
  apply obeys_jerry hv (by simp)
  apply obeys_addString hv
  apply obeys_addString hv
  apply obeys_jerry hv (by simp)
  apply obeys_addHeaders hv
  apply obeys_addObject hv
  apply obeys_addString hv
  apply obeys_jerry hv (by simp)
  apply obeys_askJerry hv (by simp)
  intro isObject
  have hrest : (addObject <| jerry .stringSz <| jerry .boolean <| addKeyValueToObject <|
      addObject k).Obeys rule final v := by
    apply obeys_addObject hv
    apply obeys_jerry hv (by simp)
    apply obeys_jerry hv (by simp)
    apply obeys_addKeyValueToObject hv
    exact obeys_addObject hv hk
  cases isObject with
  | true => exact hrest
  | false => exact obeys_jerry hv (by simp) (obeys_jerry hv (by simp) hrest)

theorem obeys_contextObject (hv : v.Serves) (hk : k.Obeys rule final v) :
    (contextObject k).Obeys rule final v := by
  apply obeys_jerry hv (by simp)
  apply obeys_addString hv
  apply obeys_addString hv
  apply obeys_jerry hv (by simp)
  apply obeys_jerry hv (by simp)
  apply obeys_addKeyValueToObject hv
  apply obeys_addString hv
  apply obeys_addString hv
  apply obeys_jerry hv (by simp)
  apply obeys_jerry hv (by simp)
  apply obeys_addKeyValueToObject hv
  exact obeys_addObject hv hk

theorem obeys_lockContext {e : Engine} {named : Bool} (he : e = .absent ∨ e = .kept)
    (hk : k.Obeys rule final { place := .inside, engine := e, named }) :
    (lockContext k).Obeys rule final { place := .outside, engine := e, named } := by
  rcases he with rfl | rfl
  all_goals
    apply (obeys_andThen_iff (fun _ => rfl)).mpr
    apply (obeys_andThen_iff (fun _ => rfl)).mpr
    exact (obeys_andThen_iff (fun _ => rfl)).mpr hk

theorem obeys_unlockContext {e : Engine} {named : Bool} (he : e = .kept ∨ e = .gone)
    (hk : k.Obeys rule final { place := .outside, engine := e, named }) :
    (unlockContext k).Obeys rule final { place := .inside, engine := e, named } := by
  rcases he with rfl | rfl
  all_goals
    apply (obeys_andThen_iff (fun _ => rfl)).mpr
    apply (obeys_andThen_iff (fun _ => rfl)).mpr
    exact (obeys_andThen_iff (fun _ => rfl)).mpr hk

end Obeys

/-- Inside a call of a connection that has its engine context. -/
def serving : View := { place := .inside, engine := .kept, named := true }

theorem serving_serves : serving.Serves := ⟨rfl, Or.inr rfl⟩

theorem evalFail_obeys (ret : Int) :
    (evalFail ret).Obeys rule (· = Stage.view .ready) serving := by
  apply obeys_jerry serving_serves (by simp)
  apply obeys_jerry serving_serves (by simp)
  exact obeys_unlockContext (Or.inl rfl) rfl

theorem evalFailResult_obeys (ret : Int) :
    (evalFailResult ret).Obeys rule (· = Stage.view .ready) serving :=
  obeys_jerry serving_serves (by simp) (evalFail_obeys ret)

theorem jsRuntimeEvalHandler_obeys (n : Nat) :
    (jsRuntimeEvalHandler n).Obeys rule (· = Stage.view .ready) (Stage.view .ready) := by
  have hv := serving_serves
  apply obeys_lockContext (Or.inr rfl)
  apply obeys_jerry hv (by simp)
  apply obeys_eventObject hv
  apply obeys_contextObject hv
  apply obeys_addFunction hv (fun _ => rfl)
  apply obeys_jerry hv (by simp)
  apply obeys_jerry hv (by simp)
  apply obeys_jerry hv (by simp)
  apply obeys_askJerry hv (by simp)
  intro parseFailed
  cases parseFailed with
  | true => exact obeys_jerry hv (by simp) (evalFail_obeys (-1))
  | false =>
    apply obeys_jerry hv (by simp)
    apply obeys_jerry hv (by simp)
    apply obeys_askJerry hv (by simp)
    intro linkFailed
    cases linkFailed with
    | true => exact obeys_jerry hv (by simp) (evalFailResult_obeys (-1))
    | false =>
      apply obeys_jerry hv (by simp)
      apply obeys_jerry hv (by simp)
      apply obeys_askJerry hv (by simp)
      intro evaluateFailed
      cases evaluateFailed with
      | true => exact obeys_jerry hv (by simp) (evalFailResult_obeys (-1))
      | false => exact evalFailResult_obeys 0

theorem pollFinally_obeys (ret : Int) :
    (pollFinally ret).Obeys rule (· = Stage.view .ready) serving := by
  apply obeys_jerry serving_serves (by simp)
  exact obeys_unlockContext (Or.inl rfl) rfl

theorem jsRuntimePoll_obeys :
    jsRuntimePoll.Obeys rule (· = Stage.view .ready) (Stage.view .ready) := by
  have hv := serving_serves
  apply obeys_lockContext (Or.inr rfl)
  apply obeys_jerry hv (by simp)
  apply obeys_askJerry hv (by simp)
  intro isException
  cases isException with
  | false => exact pollFinally_obeys 0
  | true =>
    apply obeys_askJerry hv (by simp)
    intro isAbort
    cases isAbort with
    | true => exact pollFinally_obeys (-1)
    | false => exact obeys_jerry hv (by simp) (pollFinally_obeys (-1))

theorem jsRuntimeDeinitContext_obeys :
    jsRuntimeDeinitContext.Obeys rule (· = Stage.view .gone) (Stage.view .ready) := by
  apply obeys_lockContext (Or.inr rfl)
  apply obeys_jerry serving_serves (by simp)
  apply (obeys_andThen_iff (fun _ => rfl)).mpr
  apply (obeys_andThen_iff (fun _ => rfl)).mpr
  exact obeys_unlockContext (Or.inr rfl) rfl

theorem newContext_obeys :
    Call.newContext.code.Obeys rule (· = Stage.view .ready) (Stage.view .fresh) := by
  have hmade : View.Serves { place := .inside, engine := .made, named := false } :=
    ⟨rfl, Or.inl rfl⟩
  have hv : View.Serves { place := .inside, engine := .kept, named := false } := ⟨rfl, Or.inr rfl⟩
  apply obeys_lockContext (Or.inl rfl)
  apply (obeys_andThen_iff (fun _ => rfl)).mpr
  apply obeys_jerry hmade (by simp)
  apply (obeys_andThen_iff (fun _ => rfl)).mpr
  apply obeys_jerry hv (by simp)
  apply obeys_jerry hv (by simp)
  apply obeys_addFunction hv (by simp)
  apply obeys_addFunction hv (by simp)
  apply obeys_addFunction hv (by simp)
  apply obeys_addObject hv
  apply obeys_jerry hv (by simp)
  apply obeys_jerry hv (by simp)
  apply obeys_addString hv
  apply obeys_addObject hv
  apply obeys_addObject hv
  apply obeys_jerry hv (by simp)
  apply obeys_unlockContext (Or.inl rfl)
  exact (obeys_andThen_iff (fun _ => rfl)).mpr rfl

/-- A call takes a connection from the view of its stage to that of the next,
on every path. -/
theorem call_obeys {call : Call} {st st' : Stage} (h : call.after st = some st') :
    call.code.Obeys rule (· = st'.view) st.view := by
  cases call with
  | newContext =>
    cases st <;> cases h
    exact newContext_obeys
  | eval n =>
    cases st <;> cases h
    exact jsRuntimeEvalHandler_obeys n
  | poll =>
    cases st <;> cases h
    exact jsRuntimePoll_obeys
  | freeContext =>
    cases st <;> cases h
    exact jsRuntimeDeinitContext_obeys

/-! ## What the views say -/

/-- An event of the engine context of a connection. -/
def Event.about (c : ConnId) : Event → Bool
  | .allocated d _ => d = c
  | .freed d _ => d = c
  | .wrote _ _ => false

/-- The history of the engine context of a connection. -/
def Globals.contextOf (s : Globals) (c : ConnId) : List Event := s.trace.filter (Event.about c)

/-- What the place of a call says of the mutex and the globals. -/
def Place.Holds (s : Globals) (c : ConnId) : Place → Prop
  | .outside => s.ctxMut ≠ some c
  | .taken => s.ctxMut = some c ∧ s.currentContext = none ∧ s.currentIsereJsContext = none
  | .half => s.ctxMut = some c ∧ s.currentIsereJsContext = none
  | .inside => s.ctxMut = some c ∧ s.currentIsereJsContext = some c
  | .halfOut => s.ctxMut = some c ∧ s.currentContext = none
  | .cleared => s.ctxMut = some c ∧ s.currentContext = none ∧ s.currentIsereJsContext = none

/-- What the engine context of a connection says of its history. -/
def Engine.Holds (s : Globals) (c : ConnId) : Engine → Prop
  | .absent => s.context c = none ∧ s.contextOf c = []
  | .made => s.ctxMut = some c ∧ s.contextOf c = [.allocated c s.currentContext]
  | .kept => s.contextOf c = [.allocated c (s.context c)]
  | .freed => s.contextOf c = [.allocated c (s.context c), .freed c (s.context c)]
  | .gone => ∃ p, s.contextOf c = [.allocated c p, .freed c p]

theorem Place.Holds.congr {s s' : Globals} {c : ConnId} {p : Place} (h : p.Holds s c)
    (hm : s'.ctxMut = s.ctxMut) (hc : s'.currentContext = s.currentContext)
    (hj : s'.currentIsereJsContext = s.currentIsereJsContext) : p.Holds s' c := by
  cases p <;> simpa [Place.Holds, hm, hc, hj] using h

theorem Engine.Holds.congr {s s' : Globals} {c : ConnId} {e : Engine} (h : e.Holds s c)
    (hm : s'.ctxMut = s.ctxMut) (hc : s'.currentContext = s.currentContext)
    (hx : s'.context c = s.context c) (hof : s'.contextOf c = s.contextOf c) : e.Holds s' c := by
  cases e <;> simpa [Engine.Holds, hm, hc, hx, hof] using h

/-- Only a context that is not kept yet is told by the globals. -/
theorem Engine.Holds.kept {s s' : Globals} {c : ConnId} {e : Engine} (h : e.Holds s c)
    (he : e ≠ .made) (hx : s'.context c = s.context c) (hof : s'.contextOf c = s.contextOf c) :
    e.Holds s' c := by
  cases e <;> simp_all [Engine.Holds]

/-- The globals that a call has set are those of its connection. -/
def View.Current (s : Globals) (c : ConnId) (v : View) : Prop :=
  (v.place = .half ∨ v.place = .inside) → (v.engine = .absent ∨ v.engine = .kept) →
    s.currentContext = s.context c

/-- The views of the connections say what is so. -/
structure Views (s : Globals) (v : ConnId → View) : Prop where
  place : ∀ c, (v c).place.Holds s c
  engine : ∀ c, (v c).engine.Holds s c
  current : ∀ c, (v c).Current s c
  named : ∀ c, (v c).named = true → s.opaqueConn c = some c

/-- The globals are null while the mutex is free, no two engine contexts are the
same, and a callback is known in the context of a connection that has its
`opaque`, and writes the response of the connection that is served. -/
structure GlobalsOk (s : Globals) : Prop where
  free : s.ctxMut = none → s.currentContext = none ∧ s.currentIsereJsContext = none
  known : ∀ a, s.handlers a = true →
    ∃ c, .allocated c (some a) ∈ s.trace ∧ s.opaqueConn c = some c
  below : ∀ c a, .allocated c (some a) ∈ s.trace → a < s.nextContext
  unique : ∀ c d a, .allocated c (some a) ∈ s.trace → .allocated d (some a) ∈ s.trace → c = d
  writes : ∀ c d, .wrote c d ∈ s.trace → d = some c

def Shared (s : Globals) (v : ConnId → View) : Prop := GlobalsOk s ∧ Views s v

variable {s s' : Globals} {v : ConnId → View} {i : ConnId} {w : View}

/-- A call outside of the lock knows the history of its engine context. -/
theorem Views.outside (h : Views s v) {c : ConnId} (hc : s.ctxMut ≠ some c) :
    (v c).place = .outside ∧ (v c).engine ≠ .made := by
  have hp := h.place c
  have he := h.engine c
  constructor
  · cases hplace : (v c).place with
    | outside => rfl
    | taken =>
      rw [hplace] at hp
      exact absurd hp.1 hc
    | half =>
      rw [hplace] at hp
      exact absurd hp.1 hc
    | inside =>
      rw [hplace] at hp
      exact absurd hp.1 hc
    | halfOut =>
      rw [hplace] at hp
      exact absurd hp.1 hc
    | cleared =>
      rw [hplace] at hp
      exact absurd hp.1 hc
  · intro hmade
    rw [hmade] at he
    exact hc he.1

/-- What the place of a call says of the globals. -/
theorem Views.place_at (h : Views s v) {p : Place} (hp : (v i).place = p) : p.Holds s i := by
  have hplace := h.place i
  rwa [hp] at hplace

/-- What the engine of a call says of its contexts. -/
theorem Views.engine_at (h : Views s v) {e : Engine} (he : (v i).engine = e) : e.Holds s i := by
  have hengine := h.engine i
  rwa [he] at hengine

/-- A step of the call that holds the mutex, or takes it, is no matter of the
other connections. -/
theorem Views.update (h : Views s v) (hmut : s.ctxMut = some i ∨ s.ctxMut = none)
    (hmut' : s'.ctxMut = some i ∨ s'.ctxMut = none)
    (hothers : ∀ c, c ≠ i → s'.context c = s.context c ∧ s'.contextOf c = s.contextOf c)
    (hkept : s'.opaqueConn = s.opaqueConn) (hplace : w.place.Holds s' i)
    (hengine : w.engine.Holds s' i) (hcurrent : w.Current s' i) (hnamed : w.named = (v i).named) :
    Views s' (Function.update v i w) := by
  have hfree : ∀ c, c ≠ i → s.ctxMut ≠ some c ∧ s'.ctxMut ≠ some c := by
    intro c hc
    constructor
    · rcases hmut with hm | hm <;> simp [hm, hc.symm]
    · rcases hmut' with hm | hm <;> simp [hm, hc.symm]
  refine ⟨?_, ?_, ?_, ?_⟩
  · intro c
    by_cases hc : c = i
    · subst hc
      simpa using hplace
    · rw [Function.update_of_ne hc, (h.outside (hfree c hc).1).1]
      exact (hfree c hc).2
  · intro c
    by_cases hc : c = i
    · subst hc
      simpa using hengine
    · rw [Function.update_of_ne hc]
      exact (h.engine c).kept (h.outside (hfree c hc).1).2 (hothers c hc).1 (hothers c hc).2
  · intro c
    by_cases hc : c = i
    · subst hc
      simpa using hcurrent
    · rw [Function.update_of_ne hc]
      intro hp
      rw [(h.outside (hfree c hc).1).1] at hp
      simp at hp
  · intro c hn
    rw [hkept]
    by_cases hc : c = i
    · subst hc
      rw [Function.update_self, hnamed] at hn
      exact h.named c hn
    · rw [Function.update_of_ne hc] at hn
      exact h.named c hn

/-- The globals of a call change, and nothing of the engine contexts. -/
theorem GlobalsOk.congr (h : GlobalsOk s)
    (hfree : s'.ctxMut = none → s'.currentContext = none ∧ s'.currentIsereJsContext = none)
    (ht : s'.trace = s.trace) (hh : s'.handlers = s.handlers) (hn : s'.nextContext = s.nextContext)
    (ho : s'.opaqueConn = s.opaqueConn) : GlobalsOk s' := by
  refine ⟨hfree, ?_, ?_, ?_, ?_⟩
  · rw [ht, hh, ho]
    exact h.known
  · rw [ht, hn]
    exact h.below
  · rw [ht]
    exact h.unique
  · rw [ht]
    exact h.writes

/-! ## What the actions keep -/

/-- An action of the lock or of the globals leaves the engine contexts alone. -/
theorem Shared.move (h : Shared s v) (hmut : s.ctxMut = some i ∨ s.ctxMut = none)
    (hmut' : s'.ctxMut = some i ∨ s'.ctxMut = none)
    (hfree : s'.ctxMut = none → s'.currentContext = none ∧ s'.currentIsereJsContext = none)
    (hrest : s' = { s with
      ctxMut := s'.ctxMut,
      currentContext := s'.currentContext,
      currentIsereJsContext := s'.currentIsereJsContext })
    (hmade : (v i).engine ≠ .made) {p : Place} (hplace : p.Holds s' i)
    (hcurrent : View.Current s' i { v i with place := p }) :
    Shared s' (Function.update v i { v i with place := p }) := by
  have hcontext : s'.context = s.context := by rw [hrest]
  have htrace : s'.trace = s.trace := by rw [hrest]
  have hkept : s'.opaqueConn = s.opaqueConn := by rw [hrest]
  have hof : ∀ c, s'.contextOf c = s.contextOf c := by
    intro c
    rw [Globals.contextOf, htrace, Globals.contextOf]
  refine ⟨h.1.congr hfree htrace (by rw [hrest]) (by rw [hrest]) hkept, ?_⟩
  refine h.2.update hmut hmut' (fun c _ => ⟨by rw [hcontext], hof c⟩) hkept hplace ?_ hcurrent rfl
  exact (h.2.engine i).kept hmade (by rw [hcontext]) (hof i)

theorem takeCtxMut_shared (h : Shared s v) {b : Bool}
    (hr : rule (v i) .takeCtxMut b = some w) (hx : exec s i .takeCtxMut b = some s') :
    Shared s' (Function.update v i w) := by
  obtain ⟨-, hw⟩ := Option.ite_none_right_eq_some.mp hr
  obtain ⟨hm, hs⟩ := Option.ite_none_right_eq_some.mp hx
  cases hw
  cases hs
  have hout : s.ctxMut ≠ some i := by simp [hm]
  refine h.move (Or.inr hm) (Or.inl rfl) (by simp) rfl (h.2.outside hout).2 ?_ ?_
  · exact ⟨rfl, h.1.free hm⟩
  · rintro (hc | hc) <;> cases hc

theorem setCurrentContext_shared (h : Shared s v) {b : Bool}
    (hr : rule (v i) .setCurrentContext b = some w)
    (hx : exec s i .setCurrentContext b = some s') : Shared s' (Function.update v i w) := by
  obtain ⟨⟨hp, he⟩, hw⟩ := Option.ite_none_right_eq_some.mp hr
  cases hw
  cases hx
  have hplace := h.2.place_at hp
  obtain ⟨hm, -, hjs⟩ := hplace
  refine h.move (Or.inl hm) (Or.inl (by exact hm)) (by simp [hm]) rfl ?_ ?_ ?_
  · rcases he with he | he <;> simp [he]
  · exact ⟨hm, hjs⟩
  · exact fun _ _ => rfl

theorem setCurrentIsereJsContext_shared (h : Shared s v) {b : Bool}
    (hr : rule (v i) .setCurrentIsereJsContext b = some w)
    (hx : exec s i .setCurrentIsereJsContext b = some s') : Shared s' (Function.update v i w) := by
  obtain ⟨⟨hp, he⟩, hw⟩ := Option.ite_none_right_eq_some.mp hr
  cases hw
  cases hx
  have hplace := h.2.place_at hp
  obtain ⟨hm, -⟩ := hplace
  refine h.move (Or.inl hm) (Or.inl (by exact hm)) (by simp [hm]) rfl he ?_ ?_
  · exact ⟨hm, rfl⟩
  · exact fun _ hcase => h.2.current i (Or.inl hp) hcase

theorem clearCurrentContext_shared (h : Shared s v) {b : Bool}
    (hr : rule (v i) .clearCurrentContext b = some w)
    (hx : exec s i .clearCurrentContext b = some s') : Shared s' (Function.update v i w) := by
  obtain ⟨⟨hp, he⟩, hw⟩ := Option.ite_none_right_eq_some.mp hr
  cases hw
  cases hx
  have hplace := h.2.place_at hp
  obtain ⟨hm, -⟩ := hplace
  refine h.move (Or.inl hm) (Or.inl (by exact hm)) (by simp [hm]) rfl ?_ ?_ ?_
  · rcases he with he | he <;> simp [he]
  · exact ⟨hm, rfl⟩
  · rintro (hc | hc) <;> cases hc

theorem clearCurrentIsereJsContext_shared (h : Shared s v) {b : Bool}
    (hr : rule (v i) .clearCurrentIsereJsContext b = some w)
    (hx : exec s i .clearCurrentIsereJsContext b = some s') :
    Shared s' (Function.update v i w) := by
  obtain ⟨⟨hp, he⟩, hw⟩ := Option.ite_none_right_eq_some.mp hr
  cases hw
  cases hx
  have hplace := h.2.place_at hp
  obtain ⟨hm, hc⟩ := hplace
  refine h.move (Or.inl hm) (Or.inl (by exact hm)) (by simp [hm]) rfl he ?_ ?_
  · exact ⟨hm, hc, rfl⟩
  · rintro (hc | hc) <;> cases hc

theorem giveCtxMut_shared (h : Shared s v) {b : Bool}
    (hr : rule (v i) .giveCtxMut b = some w) (hx : exec s i .giveCtxMut b = some s') :
    Shared s' (Function.update v i w) := by
  obtain ⟨⟨hp, he⟩, hw⟩ := Option.ite_none_right_eq_some.mp hr
  cases hw
  cases hx
  have hplace := h.2.place_at hp
  obtain ⟨hm, hcleared⟩ := hplace
  refine h.move (Or.inl hm) (Or.inr (by rfl)) (fun _ => by exact hcleared) (by rfl) he ?_ ?_
  · simp [Place.Holds]
  · rintro (hc | hc) <;> cases hc

/-- The history of an engine context, after one more event. -/
theorem contextOf_log (s : Globals) (e : Event) (c : ConnId) : (s.log e).contextOf c =
    if e.about c then s.contextOf c ++ [e] else s.contextOf c := by
  unfold Globals.contextOf Globals.log
  rw [List.filter_append]
  by_cases he : e.about c = true <;> simp [he]

theorem mem_log {s : Globals} {e e' : Event} : e' ∈ (s.log e).trace ↔ e' ∈ s.trace ∨ e' = e := by
  simp [Globals.log]

theorem GlobalsOk.alloc (h : GlobalsOk s) (hm : s.ctxMut = some i) (found : Bool) :
    GlobalsOk (jerryPortContextAlloc s i found) := by
  have hnew : ∀ c a, .allocated c (some a) ∈ (jerryPortContextAlloc s i found).trace →
      .allocated c (some a) ∈ s.trace ∨ (c = i ∧ a = s.nextContext) := by
    intro c a hmem
    rcases mem_log.mp hmem with hmem | he
    · exact Or.inl hmem
    · rw [Event.allocated.injEq] at he
      cases found
      · cases he.2
      · exact Or.inr ⟨he.1, Option.some.inj he.2⟩
  refine ⟨?_, ?_, ?_, ?_, ?_⟩
  · intro hfree
    cases hm.symm.trans hfree
  · intro a ha
    obtain ⟨c, hmem, hc⟩ := h.known a ha
    exact ⟨c, mem_log.mpr (Or.inl hmem), hc⟩
  · intro c a hmem
    rcases hnew c a hmem with hmem | ⟨-, rfl⟩
    · exact Nat.lt_succ_of_lt (h.below c a hmem)
    · exact Nat.lt_succ_self _
  · intro c d a hc hd
    rcases hnew c a hc with hold | ⟨hci, hca⟩
    · rcases hnew d a hd with hold' | ⟨-, hda⟩
      · exact h.unique c d a hold hold'
      · exact absurd (hda ▸ h.below c a hold) (Nat.lt_irrefl _)
    · rcases hnew d a hd with hold' | ⟨hdi, -⟩
      · exact absurd (hca ▸ h.below d a hold') (Nat.lt_irrefl _)
      · rw [hci, hdi]
  · intro c d hmem
    rcases mem_log.mp hmem with hmem | he
    · exact h.writes c d hmem
    · cases he

/-- An event that allocates nothing, and writes the right response if it is a
write. -/
theorem GlobalsOk.log (h : GlobalsOk s) {e : Event} (he : ∀ c p, e ≠ .allocated c p)
    (hw : ∀ c d, e = .wrote c d → d = some c) : GlobalsOk (s.log e) := by
  have hold : ∀ c p, .allocated c p ∈ (s.log e).trace → .allocated c p ∈ s.trace := by
    intro c p hmem
    exact (mem_log.mp hmem).resolve_right (fun heq => he c p heq.symm)
  refine ⟨h.free, ?_, fun c a hmem => h.below c a (hold c _ hmem),
    fun c d a hc hd => h.unique c d a (hold c _ hc) (hold d _ hd), ?_⟩
  · intro a ha
    obtain ⟨c, hmem, hc⟩ := h.known a ha
    exact ⟨c, mem_log.mpr (Or.inl hmem), hc⟩
  · intro c d hmem
    rcases mem_log.mp hmem with hmem | heq
    · exact h.writes c d hmem
    · exact hw c d heq.symm

/-- In the lock, an action of the engine context of the call. -/
theorem Shared.own (h : Shared s v) (hp : (v i).place = .inside) (hg : GlobalsOk s')
    (hmut : s'.ctxMut = s.ctxMut) (hjs : s'.currentIsereJsContext = s.currentIsereJsContext)
    (hkept : s'.opaqueConn = s.opaqueConn)
    (hothers : ∀ c, c ≠ i → s'.context c = s.context c ∧ s'.contextOf c = s.contextOf c)
    {e : Engine} (hengine : e.Holds s' i)
    (hcurrent : View.Current s' i { v i with engine := e }) :
    Shared s' (Function.update v i { v i with engine := e }) := by
  have hplace := h.2.place_at hp
  refine ⟨hg, h.2.update (Or.inl hplace.1) (Or.inl (hmut.trans hplace.1)) hothers hkept ?_
    hengine hcurrent rfl⟩
  show Place.Holds s' i (v i).place
  rw [hp]
  exact ⟨hmut.trans hplace.1, hjs.trans hplace.2⟩

theorem jerryPortContextAlloc_shared (h : Shared s v) {b : Bool}
    (hr : rule (v i) .jerryPortContextAlloc b = some w)
    (hx : exec s i .jerryPortContextAlloc b = some s') : Shared s' (Function.update v i w) := by
  obtain ⟨⟨hp, he⟩, hw⟩ := Option.ite_none_right_eq_some.mp hr
  cases hw
  cases hx
  have hplace := h.2.place_at hp
  have hengine := h.2.engine_at he
  refine h.own hp ?_ (by rfl) (by rfl) (by rfl) ?_ ?_ ?_
  · exact h.1.alloc hplace.1 b
  · intro c hc
    refine ⟨rfl, ?_⟩
    rw [jerryPortContextAlloc, contextOf_log, if_neg (by simp [Event.about, hc.symm])]
    rfl
  · refine ⟨hplace.1, ?_⟩
    rw [jerryPortContextAlloc, contextOf_log, if_pos (by simp [Event.about])]
    exact congrArg (· ++ _) hengine.2
  · rintro - (hc | hc) <;> cases hc

theorem keepContext_shared (h : Shared s v) {b : Bool}
    (hr : rule (v i) .keepContext b = some w)
    (hx : exec s i .keepContext b = some s') : Shared s' (Function.update v i w) := by
  obtain ⟨⟨hp, he⟩, hw⟩ := Option.ite_none_right_eq_some.mp hr
  cases hw
  cases hx
  have hengine := h.2.engine_at he
  refine h.own hp ?_ (by rfl) (by rfl) (by rfl) ?_ ?_ ?_
  · exact h.1.congr h.1.free rfl rfl rfl rfl
  · exact fun c hc => ⟨Function.update_of_ne hc _ _, rfl⟩
  · simpa [Engine.Holds, Globals.contextOf] using hengine.2
  · intro _ _
    simp

theorem jerryPortContextFree_shared (h : Shared s v) {b : Bool}
    (hr : rule (v i) .jerryPortContextFree b = some w)
    (hx : exec s i .jerryPortContextFree b = some s') : Shared s' (Function.update v i w) := by
  obtain ⟨⟨hp, he⟩, hw⟩ := Option.ite_none_right_eq_some.mp hr
  cases hw
  cases hx
  have hengine := h.2.engine_at he
  have hcurrent := h.2.current i (Or.inr hp) (Or.inr he)
  refine h.own hp ?_ (by rfl) (by rfl) (by rfl) ?_ ?_ ?_
  · exact h.1.log (by simp) (by simp)
  · intro c hc
    refine ⟨rfl, ?_⟩
    rw [jerryPortContextFree, contextOf_log, if_neg (by simp [Event.about, hc.symm])]
  · show (jerryPortContextFree s i).contextOf i = _
    rw [jerryPortContextFree, contextOf_log, if_pos (by simp [Event.about]), hengine, hcurrent]
    rfl
  · rintro - (hc | hc) <;> cases hc

theorem dropContext_shared (h : Shared s v) {b : Bool}
    (hr : rule (v i) .dropContext b = some w)
    (hx : exec s i .dropContext b = some s') : Shared s' (Function.update v i w) := by
  obtain ⟨⟨hp, he⟩, hw⟩ := Option.ite_none_right_eq_some.mp hr
  cases hw
  cases hx
  have hengine := h.2.engine_at he
  refine h.own hp ?_ (by rfl) (by rfl) (by rfl) ?_ ?_ ?_
  · exact h.1.congr h.1.free rfl rfl rfl rfl
  · exact fun c hc => ⟨Function.update_of_ne hc _ _, rfl⟩
  · exact ⟨s.context i, hengine⟩
  · rintro - (hc | hc) <;> cases hc

/-- The `opaque` of a connection is set outside of the lock. -/
theorem setOpaque_shared (h : Shared s v) {b : Bool}
    (hr : rule (v i) .setOpaque b = some w)
    (hx : exec s i .setOpaque b = some s') : Shared s' (Function.update v i w) := by
  obtain ⟨hp, hw⟩ := Option.ite_none_right_eq_some.mp hr
  cases hw
  cases hx
  have hset : ∀ c, s.opaqueConn c = some c →
      Function.update s.opaqueConn i (some i) c = some c := by
    intro c hc
    by_cases hci : c = i
    · subst hci
      simp
    · simpa [hci] using hc
  have hsame : ∀ c, (Function.update v i { v i with named := true } c).place = (v c).place ∧
      (Function.update v i { v i with named := true } c).engine = (v c).engine := by
    intro c
    by_cases hci : c = i
    · subst hci
      simp
    · simp [hci]
  refine ⟨⟨h.1.free, ?_, h.1.below, h.1.unique, h.1.writes⟩, ?_, ?_, ?_, ?_⟩
  · intro a ha
    obtain ⟨c, hmem, hc⟩ := h.1.known a ha
    exact ⟨c, hmem, hset c hc⟩
  · intro c
    rw [(hsame c).1]
    exact (h.2.place c).congr rfl rfl rfl
  · intro c
    rw [(hsame c).2]
    exact (h.2.engine c).congr rfl rfl rfl rfl
  · intro c hp he
    rw [(hsame c).1] at hp
    rw [(hsame c).2] at he
    exact h.2.current c hp he
  · intro c hn
    by_cases hci : c = i
    · subst hci
      simp
    · rw [Function.update_of_ne hci] at hn
      exact hset c (h.2.named c hn)

/-- A call that may use the engine has the engine context of its connection for
the current one. -/
theorem Shared.serves (h : Shared s v) (hs : (v i).Serves) :
    s.contextOf i = [.allocated i s.currentContext] := by
  have he := h.2.engine i
  rcases hs.2 with hmade | hkept
  · rw [hmade] at he
    exact he.2
  · rw [hkept] at he
    rw [h.2.current i (Or.inr hs.1) (Or.inr hkept)]
    exact he

theorem mem_contextOf {e : Event} {c : ConnId} :
    e ∈ s.contextOf c ↔ e ∈ s.trace ∧ e.about c = true := List.mem_filter

theorem jerry_shared (h : Shared s v) {f : Jerry} {b : Bool}
    (hr : rule (v i) (.jerry f) b = some w)
    (hx : exec s i (.jerry f) b = some s') : Shared s' (Function.update v i w) := by
  obtain ⟨⟨hp, he, hf⟩, hw⟩ := Option.ite_none_right_eq_some.mp hr
  cases hw
  rw [Function.update_eq_self]
  have hmem : .allocated i s.currentContext ∈ s.trace := by
    have hof := h.serves ⟨hp, he⟩
    exact (mem_contextOf.mp (hof ▸ List.mem_singleton_self _)).1
  simp only [exec, Option.some.injEq] at hx
  subst hx
  unfold Jerry.exec
  split
  · split
    · exact h
    · rename_i a ha
      refine ⟨⟨h.1.free, ?_, h.1.below, h.1.unique, h.1.writes⟩, ?_⟩
      · intro a' ha'
        simp only [Function.update_apply] at ha'
        split at ha'
        · rename_i heq
          exact ⟨i, by rw [heq, ← ha]; exact hmem, h.2.named i (hf rfl)⟩
        · exact h.1.known a' ha'
      · exact ⟨fun c => (h.2.place c).congr rfl rfl rfl,
          fun c => (h.2.engine c).congr rfl rfl rfl rfl, h.2.current, h.2.named⟩
  · exact h

/-- Every action that a view allows keeps what the views say. -/
theorem exec_shared (s : Globals) (v : ConnId → View) (i : ConnId) (a : Act) (b : Bool)
    (s' : Globals) (w : View) (h : Shared s v) (hr : rule (v i) a b = some w)
    (hx : exec s i a b = some s') : Shared s' (Function.update v i w) := by
  cases a with
  | takeCtxMut => exact takeCtxMut_shared h hr hx
  | setCurrentContext => exact setCurrentContext_shared h hr hx
  | setCurrentIsereJsContext => exact setCurrentIsereJsContext_shared h hr hx
  | clearCurrentContext => exact clearCurrentContext_shared h hr hx
  | clearCurrentIsereJsContext => exact clearCurrentIsereJsContext_shared h hr hx
  | giveCtxMut => exact giveCtxMut_shared h hr hx
  | jerryPortContextAlloc => exact jerryPortContextAlloc_shared h hr hx
  | jerryPortContextFree => exact jerryPortContextFree_shared h hr hx
  | keepContext => exact keepContext_shared h hr hx
  | dropContext => exact dropContext_shared h hr hx
  | setOpaque => exact setOpaque_shared h hr hx
  | jerry f => exact jerry_shared h hr hx

/-! ## A step -/

/-- The connections have views that say what is so, and each call obeys its view
up to the stage of its connection. -/
def Sound (s : Js) : Prop := s.pool.Sound rule (fun c w => w = (s.stage c).view) Shared

theorem Views.congr (h : Views s v) (hm : s'.ctxMut = s.ctxMut)
    (hc : s'.currentContext = s.currentContext)
    (hj : s'.currentIsereJsContext = s.currentIsereJsContext) (hx : s'.context = s.context)
    (hof : ∀ c, s'.contextOf c = s.contextOf c) (ho : s'.opaqueConn = s.opaqueConn) :
    Views s' v := by
  refine ⟨fun c => (h.place c).congr hm hc hj,
    fun c => (h.engine c).congr hm hc (by rw [hx]) (hof c), ?_, ?_⟩
  · intro c hp he
    rw [hc, hx]
    exact h.current c hp he
  · intro c hn
    rw [ho]
    exact h.named c hn

/-- An engine call obeys the view of a call that may use the engine. -/
theorem serves_of_obeys {f : Jerry} {k : Bool → Program} {final : View → Prop} {u : View}
    (h : (Code.act (.jerry f) k).Obeys rule final u) : u.Serves := by
  obtain ⟨w, hw, -⟩ := h true
  obtain ⟨⟨hp, he, -⟩, -⟩ := Option.ite_none_right_eq_some.mp hw
  exact ⟨hp, he⟩

/-- The engine runs the callback of the connection that is served. -/
theorem runHandlerCb_shared (h : Shared s v) (hs : (v i).Serves) (hk : s.knowsHandler = true)
    (args : List HandlerResult) : Shared (runHandlerCb s i args) v := by
  have hplace := h.2.place_at hs.1
  have hkept : s.opaqueConn i = some i := by
    unfold Globals.knowsHandler at hk
    cases hc : s.currentContext with
    | none => simp [hc] at hk
    | some a =>
      obtain ⟨c, hmem, hself⟩ := h.1.known a (by simpa [hc] using hk)
      have hof := h.serves hs
      rw [hc] at hof
      have hown : .allocated i (some a) ∈ s.trace :=
        (mem_contextOf.mp (hof ▸ List.mem_singleton_self _)).1
      rw [h.1.unique c i a hmem hown] at hself
      exact hself
  unfold runHandlerCb
  split
  · exact h
  · have hd : s.currentIsereJsContext.bind s.opaqueConn = some i := by
      rw [hplace.2]
      exact hkept
    simp only [hd]
    have hset : ∀ r, GlobalsOk { s with responses := r } :=
      fun r => h.1.congr h.1.free rfl rfl rfl rfl
    refine ⟨(hset _).log (by simp) ?_, h.2.congr rfl rfl rfl rfl ?_ rfl⟩
    · intro c d he
      cases he
      rfl
    · intro c
      rw [contextOf_log, if_neg (by simp [Event.about])]
      rfl

theorem step_sound {s : Js} (h : Sound s) (input : Input) : Sound (step s input) := by
  cases input with
  | start c call =>
    simp only [step]
    split
    · rename_i r st hdone hafter
      apply Pool.Sound.start h hdone
      · intro d hd
        simp [hd]
      · rintro w rfl
        simpa using call_obeys hafter
    · exact h
  | next c answer => exact Pool.Sound.next exec_shared h c answer
  | callback c args =>
    simp only [step]
    split
    · rename_i f k hcode
      split
      · rename_i hk
        obtain ⟨v, hshared, hobeys⟩ := h
        refine ⟨v, runHandlerCb_shared hshared ?_ hk args, hobeys⟩
        have hob := hobeys c
        rw [hcode] at hob
        exact serves_of_obeys hob
      · exact h
    · exact h

theorem start_sound : Sound start := by
  refine ⟨fun _ => Stage.view .fresh, ⟨⟨fun _ => ⟨rfl, rfl⟩, ?_, ?_, ?_, ?_⟩, ?_, ?_, ?_, ?_⟩,
    fun c => rfl⟩
  · intro a ha
    cases ha
  · intro c a hmem
    cases hmem
  · intro c d a hmem
    cases hmem
  · intro c d hmem
    cases hmem
  · intro c hm
    cases hm
  · exact fun c => ⟨rfl, rfl⟩
  · rintro c (hp | hp) <;> cases hp
  · intro c hn
    cases hn

/-! ## The law -/

theorem rule_freed {u : View} {a : Act} {b : Bool} (hr : rule u a b = some w)
    (hu : u.engine = .freed ∨ u.engine = .gone) : w.engine = .freed ∨ w.engine = .gone := by
  cases a <;> simp only [rule, Option.ite_none_right_eq_some, Option.some.injEq] at hr <;>
    obtain ⟨hc, rfl⟩ := hr <;> simp_all

/-- A call that has freed its engine context does not end with one. -/
theorem obeys_freed {st : Stage} {k : Program} {u : View}
    (h : k.Obeys rule (fun w => w = st.view) u) (hu : u.engine = .freed ∨ u.engine = .gone) :
    st = .gone := by
  induction k generalizing u with
  | done r =>
    obtain rfl : u = st.view := h
    cases st with
    | gone => rfl
    | fresh => rcases hu with hu | hu <;> cases hu
    | ready => rcases hu with hu | hu <;> cases hu
  | act a k ih =>
    obtain ⟨w, hw, hk⟩ := h true
    exact ih true hk (rule_freed hw hu)

/-- What holds of the globals and the engine contexts at all times. -/
structure ContextsOk (s : Js) : Prop where
  between : (∀ c, ∃ r, s.pool.code c = .done r) → s.pool.shared.ctxMut = none ∧
    s.pool.shared.currentContext = none ∧ s.pool.shared.currentIsereJsContext = none
  serving : ∀ c f k, s.pool.code c = .act (.jerry f) k →
    s.pool.shared.ctxMut = some c ∧ s.pool.shared.currentIsereJsContext = some c ∧
      .allocated c s.pool.shared.currentContext ∈ s.pool.shared.trace ∧
      .freed c s.pool.shared.currentContext ∉ s.pool.shared.trace
  writes : ∀ c d, .wrote c d ∈ s.pool.shared.trace → d = some c
  own : ∀ c d a, .allocated c (some a) ∈ s.pool.shared.trace →
    .freed d (some a) ∈ s.pool.shared.trace → d = c ∧ s.stage c = .gone
  once : ∀ c p, s.pool.shared.trace.count (.allocated c p) ≤ 1 ∧
    s.pool.shared.trace.count (.freed c p) ≤ s.pool.shared.trace.count (.allocated c p)
  freed : ∀ c p, .allocated c p ∈ s.pool.shared.trace → s.stage c = .gone →
    (∃ r, s.pool.code c = .done r) → s.pool.shared.trace.count (.freed c p) = 1

/-- The history of an engine context, in every view. -/
theorem Views.history (h : Views s v) (c : ConnId) : s.contextOf c = [] ∨
    (∃ p, s.contextOf c = [.allocated c p]) ∨
      (((v c).engine = .freed ∨ (v c).engine = .gone) ∧
        ∃ p, s.contextOf c = [.allocated c p, .freed c p]) := by
  have he := h.engine c
  cases hcase : (v c).engine with
  | absent =>
    rw [hcase] at he
    exact Or.inl he.2
  | made =>
    rw [hcase] at he
    exact Or.inr (Or.inl ⟨_, he.2⟩)
  | kept =>
    rw [hcase] at he
    exact Or.inr (Or.inl ⟨_, he⟩)
  | freed =>
    rw [hcase] at he
    exact Or.inr (Or.inr ⟨Or.inl rfl, _, he⟩)
  | gone =>
    rw [hcase] at he
    exact Or.inr (Or.inr ⟨Or.inr rfl, he⟩)

theorem count_contextOf {e : Event} {c : ConnId} (he : e.about c = true) :
    s.trace.count e = (s.contextOf c).count e := (List.count_filter he).symm

theorem Sound.contexts {s : Js} (h : Sound s) : ContextsOk s := by
  obtain ⟨v, ⟨hg, hv⟩, hcode⟩ := h
  have hidle : ∀ c, (∃ r, s.pool.code c = .done r) → v c = (s.stage c).view := by
    rintro c ⟨r, hr⟩
    have hob := hcode c
    rw [hr] at hob
    exact hob
  refine ⟨?_, ?_, hg.writes, ?_, ?_, ?_⟩
  · intro hall
    have hfree : s.pool.shared.ctxMut = none := by
      cases hm : s.pool.shared.ctxMut with
      | none => rfl
      | some c =>
        have hplace := hv.place c
        rw [hidle c (hall c)] at hplace
        cases hst : s.stage c <;> rw [hst] at hplace <;> exact absurd hm hplace
    exact ⟨hfree, hg.free hfree⟩
  · intro c f k hc
    have hob := hcode c
    rw [hc] at hob
    have hs := serves_of_obeys hob
    have hplace := hv.place_at hs.1
    have hof := Shared.serves ⟨hg, hv⟩ hs
    refine ⟨hplace.1, hplace.2, (mem_contextOf.mp (hof ▸ List.mem_singleton_self _)).1, ?_⟩
    intro hfreed
    have hmem : .freed c s.pool.shared.currentContext ∈ s.pool.shared.contextOf c :=
      mem_contextOf.mpr ⟨hfreed, by simp [Event.about]⟩
    rw [hof] at hmem
    simp at hmem
  · intro c d a hc hd
    have hmem : .freed d (some a) ∈ s.pool.shared.contextOf d :=
      mem_contextOf.mpr ⟨hd, by simp [Event.about]⟩
    rcases hv.history d with hof | ⟨p, hof⟩ | ⟨hfreed, p, hof⟩
    · rw [hof] at hmem
      simp at hmem
    · rw [hof] at hmem
      simp at hmem
    · have hp : p = some a := by simpa [hof, eq_comm] using hmem
      have hown : .allocated d (some a) ∈ s.pool.shared.trace :=
        (mem_contextOf.mp (by rw [hof, hp]; exact List.mem_cons_self)).1
      rw [hg.unique c d a hc hown]
      exact ⟨rfl, obeys_freed (hcode d) hfreed⟩
  · intro c p
    rw [count_contextOf (by simp [Event.about] : (Event.allocated c p).about c = true),
      count_contextOf (by simp [Event.about] : (Event.freed c p).about c = true)]
    rcases hv.history c with hof | ⟨q, hof⟩ | ⟨-, q, hof⟩
    · simp [hof]
    · by_cases hq : q = p <;> simp [hof, hq]
    · by_cases hq : q = p <;> simp [hof, hq]
  · intro c p hc hgone hdone
    have he := hv.engine c
    rw [hidle c hdone, hgone] at he
    obtain ⟨q, hof⟩ := he
    have hmem : .allocated c p ∈ s.pool.shared.contextOf c :=
      mem_contextOf.mpr ⟨hc, by simp [Event.about]⟩
    have hq : q = p := by simpa [hof, eq_comm] using hmem
    rw [count_contextOf (by simp [Event.about] : (Event.freed c p).about c = true), hof, hq]
    simp

/-- In every interleaving of the calls of any number of connections, with any
outcome of the engine calls in them: the globals are free between calls and are
those of the connection that is served during an engine call, a callback writes
the response of that connection, and each engine context is freed once, by the
call that deinitialises its own connection. -/
theorem the_globals_serve_one_connection (inputs : List Input) :
    ContextsOk (run step start inputs) := by
  have hsound : Sound (run step start inputs) :=
    run_inv_all (I := Sound) (fun _ input h => step_sound h input) start_sound inputs
  exact hsound.contexts

/-- Two connections that get their contexts at the same time. The second one
waits for the mutex. -/
example : (run step start ([.start 0 .newContext, .start 1 .newContext] ++
    (List.replicate 130 [Input.next 0 true, .next 1 true]).flatten ++
    [.start 0 .freeContext] ++ List.replicate 10 (.next 0 true))).pool.shared.trace =
      [.allocated 0 (some 0), .allocated 1 (some 1), .freed 0 (some 0)] := by
  decide +kernel

end isere.jerryscript
