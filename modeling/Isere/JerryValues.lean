-- The engine values of `js_runtime_eval_handler` in
-- src/runtimes/jerryscript/jerryscript.c: which of them each engine call uses,
-- and where each is freed. The calls are those of the program in JerryScript.
import Isere.JerryCalls

open Std.Do ownership runs typestate

namespace isere.jerryscript.values

/-- What the engine answers. `setThrows` is told by the result of
`jerry_object_set`. `resolves` is how often `jerry_module_link` calls
`module_resolve_callback`. -/
structure Answers where
  setThrows : ValueId → Bool
  bodyIsObject : Bool
  parseThrows : Bool
  resolves : Nat
  linkThrows : Bool
  evaluateThrows : Bool

/-! ## The handler -/

/-- The loop over the request headers. -/
def addHeaders (a : Answers) (headers : ValueId) : Nat → Engine Unit
  | 0 => pure ()
  | i + 1 => do
    addNew a.setThrows headers .stringSz
    addHeaders a headers i

/-- `parsedBody`. -/
def bodyValue (a : Answers) : Engine ValueId := do
  let parsedBody ← make .task .jsonParse []
  call .task .valueIsObject [parsedBody]
  if a.bodyIsObject then
    return parsedBody
  else
    jerryValueFree .task parsedBody
    make .task .stringSz []

/-- The `event` object. -/
def eventObject (a : Answers) (requestHeadersLen : Nat) (globalObj : ValueId) : Engine Unit := do
  let event ← make .task .object []
  addNew a.setThrows event .stringSz
  addNew a.setThrows event .stringSz
  let headers ← make .task .object []
  addHeaders a headers requestHeadersLen
  addObject a.setThrows event headers
  addNew a.setThrows event .stringSz
  let parsedBody ← bodyValue a
  addObject a.setThrows event parsedBody
  addNew a.setThrows event .boolean
  addObject a.setThrows globalObj event

/-- The `context` object. -/
def contextObject (a : Answers) (globalObj : ValueId) : Engine Unit := do
  let context ← make .task .object []
  addNew a.setThrows context .stringSz
  addNew a.setThrows context .stringSz
  addNew a.setThrows context .number
  addNew a.setThrows context .stringSz
  addNew a.setThrows context .stringSz
  addNew a.setThrows context .boolean
  addObject a.setThrows globalObj context

/-- `module_resolve_callback`. -/
def moduleResolveCallback : Engine Unit := do
  let sourceName ← make .callback .stringSz []
  let result ← make .callback .parse [sourceName]
  jerryValueFree .callback sourceName
  emit (.returned result)

/-- The calls of `module_resolve_callback` in a call of `jerry_module_link`. -/
def resolveAll : Nat → Engine Unit
  | 0 => pure ()
  | i + 1 => do
    moduleResolveCallback
    resolveAll i

/-- `jerry_module_link`. -/
def jerryModuleLink (a : Answers) (e : ValueId) : Engine ValueId := do
  call .task .moduleLink [e]
  resolveAll a.resolves
  ownership.fresh .made

/-- `js_runtime_eval_handler` from the label `fail` on. -/
def evalFail (e sourceName : ValueId) (ret : Int) : Engine Int := do
  jerryValueFree .task e
  jerryValueFree .task sourceName
  return ret

/-- `js_runtime_eval_handler` from the label `fail_result` on. -/
def evalFailResult (eResult e sourceName : ValueId) (ret : Int) : Engine Int := do
  jerryValueFree .task eResult
  evalFail e sourceName ret

/-- `js_runtime_eval_handler` from the end of `jerry_module_evaluate` on. -/
def evalEnd (a : Answers) (eResult e sourceName : ValueId) : Engine Int := do
  call .task .valueIsException [eResult]
  if a.evaluateThrows then
    call .task .printUnhandledException [eResult]
    evalFailResult eResult e sourceName (-1)
  else
    evalFailResult eResult e sourceName 0

/-- `js_runtime_eval_handler` from the end of `jerry_module_link` on. -/
def linkEnd (a : Answers) (eResult e sourceName : ValueId) : Engine Int := do
  call .task .valueIsException [eResult]
  if a.linkThrows then
    call .task .printUnhandledException [eResult]
    evalFailResult eResult e sourceName (-1)
  else
    jerryValueFree .task eResult
    let eResult ← make .task .moduleEvaluate [e]
    evalEnd a eResult e sourceName

/-- `js_runtime_eval_handler` from the end of `jerry_parse` on. -/
def parseEnd (a : Answers) (e sourceName : ValueId) : Engine Int := do
  call .task .valueIsException [e]
  if a.parseThrows then
    call .task .printUnhandledException [e]
    evalFail e sourceName (-1)
  else
    jerryValueFree .task e
    let eResult ← jerryModuleLink a e
    linkEnd a eResult e sourceName

/-- `js_runtime_eval_handler`. -/
def jsRuntimeEvalHandler (a : Answers) (requestHeadersLen : Nat) : Engine Int := do
  let globalObj ← make .task .currentRealm []
  eventObject a requestHeadersLen globalObj
  contextObject a globalObj
  addNew a.setThrows globalObj (.functionExternal .handlerCb)
  jerryValueFree .task globalObj
  let sourceName ← make .task .stringSz []
  let e ← make .task .parse [sourceName]
  parseEnd a e sourceName

/-- The log of a call of the handler. -/
def evalLog (a : Answers) (requestHeadersLen : Nat) : List ValueEvent :=
  (jsRuntimeEvalHandler a requestHeadersLen { next := 0, trace := [] }).2.trace

/-! ## The same calls as the program -/

/-- What is left of the program of the handler after `jerry_parse`. -/
def parsed : Program :=
  askJerry .valueIsException fun isException =>
  if isException then jerry .printUnhandledException <| jerryscript.evalFail (-1)
  else
    jerry .valueFree <| jerry .moduleLink <|
    askJerry .valueIsException fun isException =>
    if isException then jerry .printUnhandledException <| jerryscript.evalFailResult (-1)
    else
      jerry .valueFree <| jerry .moduleEvaluate <|
      askJerry .valueIsException fun isException =>
      if isException then jerry .printUnhandledException <| jerryscript.evalFailResult (-1)
      else jerryscript.evalFailResult 0

section Performs

variable (p : Program) (a : Answers)

theorem addHeaders_left (headers : ValueId) (n : Nat) (k : Program) :
    ⦃Left p (jerryscript.addHeaders k n)⦄ addHeaders a headers n ⦃⇓ _ => Left p k⦄ := by
  induction n with
  | zero => exact return_keeps _
  | succ n ih =>
    unfold addHeaders
    exact .bind _ _ (addNew_left p a.setThrows headers .stringSz _) fun _ => ih

theorem bodyValue_left (k : Program) : ⦃Left p (jerry .jsonParse <|
    askJerry .valueIsObject fun isObject =>
      if isObject then k else jerry .valueFree <| jerry .stringSz k)⦄
    bodyValue a ⦃⇓ _ => Left p k⦄ := by
  unfold bodyValue
  refine .bind _ _ (make_left p true) fun parsedBody => ?_
  refine .bind _ _ (call_left p a.bodyIsObject) fun _ => ?_
  split
  · exact return_keeps _
  · refine .bind _ _ (call_left p true) fun _ => ?_
    exact make_left p true

theorem eventObject_left (n : Nat) (globalObj : ValueId) (k : Program) :
    ⦃Left p (jerryscript.eventObject n k)⦄ eventObject a n globalObj ⦃⇓ _ => Left p k⦄ := by
  unfold eventObject
  refine .bind _ _ (make_left p true) fun event => ?_
  refine .bind _ _ (addNew_left p a.setThrows event .stringSz _) fun _ => ?_
  refine .bind _ _ (addNew_left p a.setThrows event .stringSz _) fun _ => ?_
  refine .bind _ _ (make_left p true) fun headers => ?_
  refine .bind _ _ (addHeaders_left p a headers n _) fun _ => ?_
  refine .bind _ _ (addObject_left p a.setThrows event headers _) fun _ => ?_
  refine .bind _ _ (addNew_left p a.setThrows event .stringSz _) fun _ => ?_
  refine .bind _ _ (bodyValue_left p a _) fun parsedBody => ?_
  refine .bind _ _ (addObject_left p a.setThrows event parsedBody _) fun _ => ?_
  refine .bind _ _ (addNew_left p a.setThrows event .boolean _) fun _ => ?_
  exact addObject_left p a.setThrows globalObj event k

theorem contextObject_left (globalObj : ValueId) (k : Program) :
    ⦃Left p (jerryscript.contextObject k)⦄ contextObject a globalObj ⦃⇓ _ => Left p k⦄ := by
  unfold contextObject
  refine .bind _ _ (make_left p true) fun context => ?_
  refine .bind _ _ (addNew_left p a.setThrows context .stringSz _) fun _ => ?_
  refine .bind _ _ (addNew_left p a.setThrows context .stringSz _) fun _ => ?_
  refine .bind _ _ (addNew_left p a.setThrows context .number _) fun _ => ?_
  refine .bind _ _ (addNew_left p a.setThrows context .stringSz _) fun _ => ?_
  refine .bind _ _ (addNew_left p a.setThrows context .stringSz _) fun _ => ?_
  refine .bind _ _ (addNew_left p a.setThrows context .boolean _) fun _ => ?_
  exact addObject_left p a.setThrows globalObj context k

/-- The calls of `module_resolve_callback` are not the handler's. -/
theorem resolveAll_left (n : Nat) {q : Program} :
    ⦃Left p q⦄ resolveAll n ⦃⇓ _ => Left p q⦄ := by
  induction n with
  | zero => exact return_keeps _
  | succ n ih =>
    unfold resolveAll moduleResolveCallback
    refine .bind _ _ (Q := fun _ => Left p q) ?_ fun _ => ih
    refine .bind _ _ (make_callback_left p) fun sourceName => ?_
    refine .bind _ _ (make_callback_left p) fun result => ?_
    refine .bind _ _ (emit_left p rfl) fun _ => ?_
    exact emit_left p rfl

theorem evalFail_left (e sourceName : ValueId) (ret : Int) :
    ⦃Left p (jerryscript.evalFail ret)⦄ evalFail e sourceName ret
      ⦃⇓ r => Left p (.done r)⦄ := by
  unfold evalFail
  refine .bind _ _ (call_left p true) fun _ => ?_
  refine .bind _ _ (call_left p true) fun _ => ?_
  exact .pure _ (fun _ h => Performs.unlock h)

theorem evalFailResult_left (eResult e sourceName : ValueId) (ret : Int) :
    ⦃Left p (jerryscript.evalFailResult ret)⦄ evalFailResult eResult e sourceName ret
      ⦃⇓ r => Left p (.done r)⦄ := by
  unfold evalFailResult
  refine .bind _ _ (call_left p true) fun _ => ?_
  exact evalFail_left p e sourceName ret

theorem parseEnd_left (e sourceName : ValueId) :
    ⦃Left p parsed⦄ parseEnd a e sourceName ⦃⇓ r => Left p (.done r)⦄ := by
  unfold parseEnd
  refine .bind _ _ (call_left p a.parseThrows) fun _ => ?_
  split
  · refine .bind _ _ (call_left p true) fun _ => ?_
    exact evalFail_left p e sourceName (-1)
  · refine .bind _ _ (call_left p true) fun _ => ?_
    unfold jerryModuleLink
    refine .bind _ _ (.bind _ _ (call_left p true) fun _ =>
      .bind _ _ (resolveAll_left p a.resolves) fun _ => made_left p) fun eResult => ?_
    unfold linkEnd
    refine .bind _ _ (call_left p a.linkThrows) fun _ => ?_
    split
    · refine .bind _ _ (call_left p true) fun _ => ?_
      exact evalFailResult_left p eResult e sourceName (-1)
    · refine .bind _ _ (call_left p true) fun _ => ?_
      refine .bind _ _ (make_left p true) fun eResult => ?_
      unfold evalEnd
      refine .bind _ _ (call_left p a.evaluateThrows) fun _ => ?_
      split
      · refine .bind _ _ (call_left p true) fun _ => ?_
        exact evalFailResult_left p eResult e sourceName (-1)
      · exact evalFailResult_left p eResult e sourceName 0

end Performs

/-- The handler makes the engine calls of its program, and returns what the
program returns. -/
theorem jsRuntimeEvalHandler_performs (a : Answers) (n : Nat) :
    Performs (jerryscript.jsRuntimeEvalHandler n) (taskCalls (evalLog a n))
      (.done (jsRuntimeEvalHandler a n { next := 0, trace := [] }).1) := by
  have hrun : ⦃Left (jerryscript.jsRuntimeEvalHandler n) (jerry .currentRealm <|
      jerryscript.eventObject n <| jerryscript.contextObject <|
      addFunction .handlerCb <| jerry .valueFree <| jerry .stringSz <| jerry .parse parsed)⦄
      jsRuntimeEvalHandler a n
      ⦃⇓ r => Left (jerryscript.jsRuntimeEvalHandler n) (.done r)⦄ := by
    unfold jsRuntimeEvalHandler
    refine .bind _ _ (make_left _ true) fun globalObj => ?_
    refine .bind _ _ (eventObject_left _ a n globalObj _) fun _ => ?_
    refine .bind _ _ (contextObject_left _ a globalObj _) fun _ => ?_
    refine .bind _ _ (addNew_left _ a.setThrows globalObj (.functionExternal .handlerCb) _)
      fun _ => ?_
    refine .bind _ _ (call_left _ true) fun _ => ?_
    refine .bind _ _ (make_left _ true) fun sourceName => ?_
    refine .bind _ _ (make_left _ true) fun e => ?_
    exact parseEnd_left _ a e sourceName
  exact triple_run hrun Performs.lock

end isere.jerryscript.values
