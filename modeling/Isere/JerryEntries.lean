-- The engine values of src/runtimes/jerryscript/jerryscript.c beside those of
-- `js_runtime_eval_handler`: the start of a context, what its scripts call, and its
-- polls. The calls are in the order of the source, with what the engine answers as a
-- parameter.
import Isere.JerryCalls
import Isere.Request

open ownership isere.jerryscript.values
open isere.httpd (ISERE_HTTPD_MAX_HTTP_HEADERS)

namespace isere.jerryscript.entries

/-! ## The start of a context -/

/-- `js_runtime_init_context`. -/
def jsRuntimeInitContext (setThrows : ValueId → Bool) : values.Engine Unit := do
  call .task .init []
  let globalObj ← make .task .currentRealm []
  let console ← make .task .object []
  addNew setThrows console (.functionExternal .consoleLog)
  addNew setThrows console (.functionExternal .consoleWarn)
  addNew setThrows console (.functionExternal .consoleError)
  values.addObject setThrows globalObj console
  let process ← make .task .object []
  let env ← make .task .object []
  addNew setThrows env .stringSz
  values.addObject setThrows process env
  values.addObject setThrows globalObj process
  jerryValueFree .task globalObj

/-! ## What scripts call -/

/-- A new value that goes to the engine. -/
def returnNew (f : Jerry) : values.Engine Unit := do
  let v ← make .callback f []
  emit (.returned v)

/-- An argument of `console.log`, or the body of a response, by the tests that it
passes. -/
inductive Kind
  | function
  | object
  | string
  | other

/-- The copy of a string to a buffer of its size. -/
def copyString (v : ValueId) : values.Engine Unit := do
  call .callback .stringSize [v]
  call .callback .stringToBuffer [v]

/-- The text of an object. The object is owned by `args`. -/
def copyJson (args : List ValueId) : values.Engine Unit := do
  let stringified ← make .callback .jsonStringify args
  copyString stringified
  jerryValueFree .callback stringified

/-- One argument of `__logger_internal`. It stays the engine's. -/
def logArgument : Kind → values.Engine Unit
  | .function => call .callback .valueIsFunction []
  | .object => do
    call .callback .valueIsFunction []
    call .callback .valueIsObject []
    copyJson []
  | .string => do
    call .callback .valueIsFunction []
    call .callback .valueIsObject []
    call .callback .valueIsString []
    call .callback .stringSize []
    call .callback .stringToBuffer []
  | .other => do
    call .callback .valueIsFunction []
    call .callback .valueIsObject []
    call .callback .valueIsString []

def logArguments : List Kind → values.Engine Unit
  | [] => pure ()
  | a :: as => do
    logArgument a
    logArguments as

/-- `__logger_internal`. -/
def loggerInternal (args : List Kind) : values.Engine Unit := do
  logArguments args
  returnNew .undefined

/-- `__get_value_from_object_by_key`, for an object of the engine. -/
def getValueFromObjectByKey : values.Engine ValueId := do
  let key ← make .callback .stringSz []
  let ret ← make .callback .objectGet [key]
  jerryValueFree .callback key
  return ret

/-- The answers to `__handler_cb`. `propsLen` is the length of `props`. -/
structure CbAnswers where
  hasArgument : Bool
  statusIsNumber : Bool
  headersIsObject : Bool
  propsLen : Nat
  nameIsString : Nat → Bool
  valueIsString : Nat → Bool
  body : Kind

/-- `response->statusCode`. -/
def copyStatus (a : CbAnswers) (statusCode : ValueId) : values.Engine Unit :=
  if a.statusIsNumber then call .callback .valueAsInt32 [statusCode] else pure ()

/-- The name and the value of a header. The value is only looked at if the name is a
string. -/
def copyHeader (a : CbAnswers) (i : Nat) (headerName headerField : ValueId) :
    values.Engine Unit := do
  call .callback .valueIsString [headerName]
  if a.nameIsString i then
    call .callback .valueIsString [headerField]
    if a.valueIsString i then
      copyString headerName
      copyString headerField
    else
      pure ()
  else
    pure ()

/-- The loop over the headers of a response, for `n` of them from the `i`th on. -/
def copyHeaders (a : CbAnswers) (headers props : ValueId) : Nat → Nat → values.Engine Unit
  | _, 0 => pure ()
  | i, n + 1 => do
    let headerName ← make .callback .objectGetIndex [props]
    let headerField ← make .callback .objectGet [headers, headerName]
    copyHeader a i headerName headerField
    jerryValueFree .callback headerName
    jerryValueFree .callback headerField
    copyHeaders a headers props (i + 1) n

/-- `headers`, if it is an object. -/
def headersObject (a : CbAnswers) (headers : ValueId) : values.Engine Unit :=
  if a.headersIsObject then do
    let props ← make .callback .objectKeys [headers]
    call .callback .arrayLength [props]
    copyHeaders a headers props 0 (min a.propsLen ISERE_HTTPD_MAX_HTTP_HEADERS)
    jerryValueFree .callback props
  else
    pure ()

/-- `body_str`. A function is an object. -/
def copyBody (body : ValueId) : Kind → values.Engine Unit
  | .function | .object => do
    call .callback .valueIsObject [body]
    copyJson [body]
  | .string => do
    call .callback .valueIsObject [body]
    call .callback .valueIsString [body]
    copyString body
  | .other => do
    call .callback .valueIsObject [body]
    call .callback .valueIsString [body]

/-- `__handler_cb`. -/
def handlerCb (a : CbAnswers) : values.Engine Unit :=
  if a.hasArgument then do
    let statusCode ← getValueFromObjectByKey
    call .callback .valueIsNumber [statusCode]
    copyStatus a statusCode
    jerryValueFree .callback statusCode
    let headers ← getValueFromObjectByKey
    call .callback .valueIsObject [headers]
    headersObject a headers
    jerryValueFree .callback headers
    let body ← getValueFromObjectByKey
    copyBody body a.body
    jerryValueFree .callback body
    returnNew .undefined
  else
    returnNew .throwSz

/-- A call of the runtime by a script: of `cb`, or of a function of `console`. -/
inductive Entry
  | cb (a : CbAnswers)
  | console (args : List Kind)

def runEntry : Entry → values.Engine Unit
  | .cb a => handlerCb a
  | .console args => loggerInternal args

/-- The calls of a script, first to last. -/
def runScript : List Entry → values.Engine Unit
  | [] => pure ()
  | e :: es => do
    runEntry e
    runScript es

/-! ## The polls -/

/-- What `jerry_run_jobs` returns. -/
inductive JobResult
  | value
  | exception
  | abort
  deriving DecidableEq, Repr

/-- The answers to `js_runtime_poll`: the calls of the jobs, and their result. -/
structure PollAnswers where
  script : List Entry
  result : JobResult

/-- `js_runtime_poll` up to the label `finally`. -/
def pollResult (jobValue : ValueId) : JobResult → values.Engine Int
  | .value => do
    call .task .valueIsException [jobValue]
    return 0
  | .abort => do
    call .task .valueIsException [jobValue]
    call .task .valueIsAbort [jobValue]
    return -1
  | .exception => do
    call .task .valueIsException [jobValue]
    call .task .valueIsAbort [jobValue]
    call .task .printUnhandledException [jobValue]
    return -1

/-- `js_runtime_poll`. -/
def jsRuntimePoll (a : PollAnswers) : values.Engine Int := do
  call .task .runJobs []
  runScript a.script
  let jobValue ← ownership.fresh .made
  let ret ← pollResult jobValue a.result
  jerryValueFree .task jobValue
  return ret

/-- What goes on in a context: the script of its handler, or a poll. -/
inductive Turn
  | script (es : List Entry)
  | poll (a : PollAnswers)

def runTurn : Turn → values.Engine Unit
  | .script es => runScript es
  | .poll a => do
    let _ ← jsRuntimePoll a

def runTurns : List Turn → values.Engine Unit
  | [] => pure ()
  | t :: ts => do
    runTurn t
    runTurns ts

/-- A context, with `js_runtime_eval_handler` left out. `js_runtime_deinit_context` has no
values. -/
def contextLife (setThrows : ValueId → Bool) (ts : List Turn) : values.Engine Unit := do
  jsRuntimeInitContext setThrows
  runTurns ts

/-- The history of a context. -/
def lifeLog (setThrows : ValueId → Bool) (ts : List Turn) : List ValueEvent :=
  (contextLife setThrows ts { next := 0, trace := [] }).2.trace

/-- A poll that prints the exception of its jobs. -/
def Turn.prints : Turn → Bool
  | .poll a => a.result = .exception
  | .script _ => false

end isere.jerryscript.entries
