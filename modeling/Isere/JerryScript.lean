-- src/runtimes/jerryscript/jerryscript.c: the four calls of the JerryScript
-- runtime as programs of atomic actions, over the mutex and the globals that
-- all connections share. The calls of different connections interleave.
import Isere.HandlerCb
import Isere.Httpd
import Isere.Typestate

open isere.httpd typestate

namespace isere.jerryscript

/-- The address of a `jerry_context_t`. Each allocation gives the next one. -/
abbrev ContextId := Nat

/-- The functions that `jerry_function_external` makes known to the engine. -/
inductive External
  | handlerCb
  | consoleLog
  | consoleWarn
  | consoleError
  deriving DecidableEq, Repr

/-- The engine calls of the runtime. `init` and `cleanup` are `jerry_init` and
`jerry_cleanup` without the hook of the port that each of them calls once. -/
inductive Jerry
  | init
  | cleanup
  | currentRealm
  | object
  | stringSz
  | boolean
  | number
  | functionExternal (f : External)
  | undefined
  | throwSz
  | objectSet
  | objectGet
  | objectGetIndex
  | objectKeys
  | arrayLength
  | jsonParse
  | jsonStringify
  | stringSize
  | stringToBuffer
  | valueAsInt32
  | valueFree
  | valueIsException
  | valueIsAbort
  | valueIsNumber
  | valueIsObject
  | valueIsString
  | valueIsFunction
  | parse
  | moduleLink
  | moduleEvaluate
  | printUnhandledException
  | runJobs
  deriving DecidableEq, Repr

/-- The actions of the runtime. -/
inductive Act
  | takeCtxMut
  | setCurrentContext
  | setCurrentIsereJsContext
  | clearCurrentContext
  | clearCurrentIsereJsContext
  | giveCtxMut
  | jerryPortContextAlloc
  | jerryPortContextFree
  | keepContext
  | dropContext
  | setOpaque
  | jerry (f : Jerry)
  deriving DecidableEq, Repr

/-- What happens to the engine contexts, and which response a callback writes in
a call of connection `c`. -/
inductive Event
  | allocated (c : ConnId) (p : Option ContextId)
  | freed (c : ConnId) (p : Option ContextId)
  | wrote (c : ConnId) (d : Option ConnId)
  deriving DecidableEq, Repr

/-- `__ctx_mut`, `__current_context_p` and `__current_isere_js_context`; the
`context` and the `opaque` of each connection; and its response. `handlers` are
the engine contexts in which `__handler_cb` is known. -/
structure Globals where
  ctxMut : Option ConnId
  currentContext : Option ContextId
  currentIsereJsContext : Option ConnId
  context : ConnId → Option ContextId
  opaqueConn : ConnId → Option ConnId
  responses : ConnId → Response
  nextContext : ContextId
  handlers : ContextId → Bool
  trace : List Event

def Globals.log (s : Globals) (e : Event) : Globals := { s with trace := s.trace ++ [e] }

/-! ## The actions -/

/-- `jerry_port_context_alloc`. The answer tells whether there is memory. -/
def jerryPortContextAlloc (s : Globals) (c : ConnId) (found : Bool) : Globals :=
  let p := if found then some s.nextContext else none
  { s with currentContext := p, nextContext := s.nextContext + 1 }.log (.allocated c p)

/-- `jerry_port_context_free`. -/
def jerryPortContextFree (s : Globals) (c : ConnId) : Globals := s.log (.freed c s.currentContext)

/-- An engine call works on the current context. Only one of them is seen here. -/
def Jerry.exec (s : Globals) : Jerry → Globals
  | .functionExternal .handlerCb =>
    match s.currentContext with
    | none => s
    | some a => { s with handlers := Function.update s.handlers a true }
  | _ => s

/-- An action of a call of connection `c`. Only `xSemaphoreTake` waits. -/
def exec (s : Globals) (c : ConnId) : Act → Bool → Option Globals
  | .takeCtxMut, _ => if s.ctxMut = none then some { s with ctxMut := some c } else none
  | .setCurrentContext, _ => some { s with currentContext := s.context c }
  | .setCurrentIsereJsContext, _ => some { s with currentIsereJsContext := some c }
  | .clearCurrentContext, _ => some { s with currentContext := none }
  | .clearCurrentIsereJsContext, _ => some { s with currentIsereJsContext := none }
  | .giveCtxMut, _ => some { s with ctxMut := none }
  | .jerryPortContextAlloc, found => some (jerryPortContextAlloc s c found)
  | .jerryPortContextFree, _ => some (jerryPortContextFree s c)
  | .keepContext, _ => some { s with context := Function.update s.context c s.currentContext }
  | .dropContext, _ => some { s with context := Function.update s.context c none }
  | .setOpaque, _ => some { s with opaqueConn := Function.update s.opaqueConn c (some c) }
  | .jerry f, _ => some (f.exec s)

/-- A call of `__handler_cb` by the engine, in a call of connection `c`. -/
def runHandlerCb (s : Globals) (c : ConnId) (args : List HandlerResult) : Globals :=
  match args with
  | [] => s
  | _ =>
    let d := s.currentIsereJsContext.bind s.opaqueConn
    match d with
    | none => s.log (.wrote c none)
    | some d =>
      let r := (handlerCb args (s.responses d)).getD (s.responses d)
      { s with responses := Function.update s.responses d r }.log (.wrote c (some d))

/-! ## The calls -/

/-- What is left of a call. It returns an `int`. -/
abbrev Program := Code Act Int

def jerry (f : Jerry) (k : Program) : Program := .andThen (.jerry f) k

/-- An engine call whose answer the program looks at. -/
def askJerry (f : Jerry) (k : Bool → Program) : Program := .act (.jerry f) k

/-- `__lock_context`. -/
def lockContext (k : Program) : Program :=
  .andThen .takeCtxMut <| .andThen .setCurrentContext <| .andThen .setCurrentIsereJsContext k

/-- `__unlock_context`. -/
def unlockContext (k : Program) : Program :=
  .andThen .clearCurrentContext <| .andThen .clearCurrentIsereJsContext <| .andThen .giveCtxMut k

/-- `__add_key_value_to_object`. -/
def addKeyValueToObject (k : Program) : Program :=
  jerry .objectSet <| jerry .valueFree <| jerry .valueFree <|
  askJerry .valueIsException fun isException =>
    if isException then jerry .valueFree k else jerry .valueFree k

/-- A property with a string for its value. -/
def addString (k : Program) : Program :=
  jerry .stringSz <| jerry .stringSz <| addKeyValueToObject k

/-- A property whose value is an object that is there already. -/
def addObject (k : Program) : Program := jerry .stringSz <| addKeyValueToObject k

/-- A property with a function for its value. -/
def addFunction (f : External) (k : Program) : Program :=
  jerry .stringSz <| jerry (.functionExternal f) <| addKeyValueToObject k

/-- The loop over the request headers. -/
def addHeaders (k : Program) : Nat → Program
  | 0 => k
  | i + 1 => addString (addHeaders k i)

/-- The `event` object. -/
def eventObject (requestHeadersLen : Nat) (k : Program) : Program :=
  jerry .object <| addString <| addString <|
  jerry .object <| (addHeaders · requestHeadersLen) <| addObject <|
  addString <|
  jerry .jsonParse <|
  askJerry .valueIsObject fun isObject =>
    let rest := addObject <| jerry .stringSz <| jerry .boolean <| addKeyValueToObject <| addObject k
    if isObject then rest else jerry .valueFree <| jerry .stringSz rest

/-- The `context` object. -/
def contextObject (k : Program) : Program :=
  jerry .object <| addString <| addString <|
  jerry .stringSz <| jerry .number <| addKeyValueToObject <|
  addString <| addString <|
  jerry .stringSz <| jerry .boolean <| addKeyValueToObject <| addObject k

/-- `js_runtime_eval_handler` from the label `fail` on. -/
def evalFail (ret : Int) : Program :=
  jerry .valueFree <| jerry .valueFree <| unlockContext <| .done ret

/-- `js_runtime_eval_handler` from the label `fail_result` on. -/
def evalFailResult (ret : Int) : Program := jerry .valueFree <| evalFail ret

/-- `js_runtime_eval_handler`. -/
def jsRuntimeEvalHandler (requestHeadersLen : Nat) : Program :=
  lockContext <|
  jerry .currentRealm <| eventObject requestHeadersLen <| contextObject <|
  addFunction .handlerCb <| jerry .valueFree <| jerry .stringSz <|
  jerry .parse <|
  askJerry .valueIsException fun isException =>
  if isException then jerry .printUnhandledException <| evalFail (-1)
  else
    jerry .valueFree <| jerry .moduleLink <|
    askJerry .valueIsException fun isException =>
    if isException then jerry .printUnhandledException <| evalFailResult (-1)
    else
      jerry .valueFree <| jerry .moduleEvaluate <|
      askJerry .valueIsException fun isException =>
      if isException then jerry .printUnhandledException <| evalFailResult (-1)
      else evalFailResult 0

/-- `js_runtime_init_context`. `jerry_init` calls the hook of the port first. -/
def jsRuntimeInitContext (k : Program) : Program :=
  lockContext <|
  .andThen .jerryPortContextAlloc <| jerry .init <|
  .andThen .keepContext <|
  jerry .currentRealm <|
  jerry .object <| addFunction .consoleLog <| addFunction .consoleWarn <|
  addFunction .consoleError <| addObject <|
  jerry .object <| jerry .object <| addString <| addObject <| addObject <|
  jerry .valueFree <| unlockContext k

/-- `js_runtime_deinit_context`. `jerry_cleanup` calls the hook of the port last. -/
def jsRuntimeDeinitContext : Program :=
  lockContext <|
  jerry .cleanup <| .andThen .jerryPortContextFree <|
  .andThen .dropContext <| unlockContext <| .done 0

/-- `js_runtime_poll` from the label `finally` on. -/
def pollFinally (ret : Int) : Program := jerry .valueFree <| unlockContext <| .done ret

/-- `js_runtime_poll`. -/
def jsRuntimePoll : Program :=
  lockContext <|
  jerry .runJobs <|
  askJerry .valueIsException fun isException =>
  if isException then
    askJerry .valueIsAbort fun isAbort =>
    if isAbort then pollFinally (-1) else jerry .printUnhandledException <| pollFinally (-1)
  else pollFinally 0

/-! ## The connections -/

/-- The calls that the server makes for a connection. After the first of them it
sets the `opaque` of the context. -/
inductive Call
  | newContext
  | eval (requestHeadersLen : Nat)
  | poll
  | freeContext
  deriving DecidableEq, Repr

def Call.code : Call → Program
  | .newContext => jsRuntimeInitContext <| .andThen .setOpaque <| .done 0
  | .eval requestHeadersLen => jsRuntimeEvalHandler requestHeadersLen
  | .poll => jsRuntimePoll
  | .freeContext => jsRuntimeDeinitContext

/-- The life of the context of a connection. -/
inductive Stage
  | fresh
  | ready
  | gone
  deriving DecidableEq, Repr

/-- Each context is initialised once, then used, then deinitialised once. -/
def Call.after : Call → Stage → Option Stage
  | .newContext, .fresh => some .ready
  | .eval _, .ready => some .ready
  | .poll, .ready => some .ready
  | .freeContext, .ready => some .gone
  | _, _ => none

structure Js where
  pool : Pool Globals ConnId Act Int
  stage : ConnId → Stage

/-- A call starts, goes on by one action, or has the engine run `__handler_cb`. -/
inductive Input
  | start (c : ConnId) (call : Call)
  | next (c : ConnId) (answer : Bool)
  | callback (c : ConnId) (args : List HandlerResult)

/-- Does the engine know `__handler_cb` in the current context? -/
def Globals.knowsHandler (s : Globals) : Bool := s.currentContext.any s.handlers

def step (s : Js) : Input → Js
  | .start c call =>
    match s.pool.code c, call.after (s.stage c) with
    | .done _, some stage =>
      { pool := { s.pool with code := Function.update s.pool.code c call.code },
        stage := Function.update s.stage c stage }
    | _, _ => s
  | .next c answer => { s with pool := s.pool.next exec c answer }
  | .callback c args =>
    match s.pool.code c with
    | .act (.jerry _) _ =>
      if s.pool.shared.knowsHandler then
        { s with pool := { s.pool with shared := runHandlerCb s.pool.shared c args } }
      else s
    | _ => s

/-- The runtime after `js_runtime_init`, with no context yet. -/
def start : Js where
  pool :=
    { shared :=
        { ctxMut := none, currentContext := none, currentIsereJsContext := none,
          context := fun _ => none, opaqueConn := fun _ => none,
          responses := fun _ => Response.initial, nextContext := 0,
          handlers := fun _ => false, trace := [] },
      code := fun _ => .done 0 }
  stage := fun _ => .fresh

end isere.jerryscript
