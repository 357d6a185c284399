-- The values, atoms and C strings of src/runtimes/quickjs: which of them each call of
-- the engine uses, and where each is given up, over the life of a context. The calls
-- are in the order of the source, with what the engine answers as a parameter. Its
-- scripts call `cb` and the functions of `console`, and start no timers: the functions
-- of timers are followed with their slots, in TimerLedger.lean.
import Isere.JsTimers
import Isere.OwnedFrames
import Isere.Request

open ownership isere.httpd isere.timers

namespace isere.quickjs.values

/-- A `JSValue`, a `JSAtom`, a C string, or an array of atoms that the engine gave
to the runtime. -/
abbrev ValueId := Nat

/-- The calls of the engine, and the three calls of libc that read its strings. -/
inductive Quickjs
  | getGlobalObject
  | newObject
  | newString
  | newBool
  | newInt32
  | newCFunction
  | newAtom
  | setPropertyStr
  | definePropertyValueStr
  | deleteProperty
  | parseJson
  | jsonStringify
  | eval
  | executePendingJob
  | getException
  | getImportMeta
  | getModuleName
  | getPropertyStr
  | getProperty
  | getOwnPropertyNames
  | isException
  | isError
  | isObject
  | isString
  | isNumber
  | isUndefined
  | toInt32
  | toCString
  | toCStringLen
  | atomToCString
  | freeValue
  | freeCString
  | freeAtom
  | jsFree
  | fprintf
  | puts
  | strdup
  deriving DecidableEq, Repr

/-- A call with those of its arguments that the runtime owns, or a result that the
runtime comes to own. -/
inductive ApiEvent
  | call (f : Quickjs) (args : List ValueId)
  | made (f : Quickjs) (v : ValueId)
  deriving DecidableEq, Repr

abbrev Engine := StateM (Log ApiEvent)

def call (f : Quickjs) (args : List ValueId) : Engine Unit := emit (.call f args)

/-- A call whose result is the runtime's. -/
def make (f : Quickjs) (args : List ValueId) : Engine ValueId := do
  call f args
  ownership.fresh (.made f)

/-- A result, or none: `NULL`, or an exception, which nobody owns. -/
def result (f : Quickjs) (found : Bool) : Engine (Option ValueId) :=
  if found then do
    let v ← ownership.fresh (.made f)
    return some v
  else
    return none

/-- A call that may have no result. -/
def tryMake (f : Quickjs) (args : List ValueId) (found : Bool) : Engine (Option ValueId) := do
  call f args
  result f found

/-- A property with a new value, which the call takes. -/
def setNew (obj : ValueId) (f : Quickjs) : Engine Unit := do
  let v ← make f []
  call .setPropertyStr [obj, v]

/-! ## The start of a context -/

/-- `isere_js_polyfill_timer_init`. -/
def timerInit : Engine Unit := do
  let globalObj ← make .getGlobalObject []
  setNew globalObj .newCFunction
  setNew globalObj .newCFunction
  call .freeValue [globalObj]

/-- `js_runtime_init_context`, once there is a context. -/
def jsRuntimeInitContext : Engine Unit := do
  let globalObj ← make .getGlobalObject []
  let console ← make .newObject []
  setNew console .newCFunction
  setNew console .newCFunction
  setNew console .newCFunction
  call .setPropertyStr [globalObj, console]
  let process ← make .newObject []
  let env ← make .newObject []
  setNew env .newString
  call .setPropertyStr [process, env]
  call .setPropertyStr [globalObj, process]
  timerInit
  call .freeValue [globalObj]

/-! ## Errors -/

/-- `js_dump_obj`. -/
def jsDumpObj (v : ValueId) (found : Bool) : Engine Unit := do
  let str ← tryMake .toCString [v] found
  match str with
  | none => call .fprintf []
  | some str => do
    call .fprintf [str]
    call .freeCString [str]

/-- The answers to `js_std_dump_error`. -/
structure ErrorAnswers where
  isError : Bool
  text : Bool
  hasStack : Bool
  stackText : Bool

/-- The stack of an error, in `js_std_dump_error1`. -/
def dumpStack (a : ErrorAnswers) (val : ValueId) : Engine Unit :=
  if a.hasStack then jsDumpObj val a.stackText else pure ()

/-- `js_std_dump_error1`. -/
def jsStdDumpError1 (a : ErrorAnswers) (exceptionVal : ValueId) : Engine Unit := do
  call .isError [exceptionVal]
  jsDumpObj exceptionVal a.text
  if a.isError then
    let val ← make .getPropertyStr [exceptionVal]
    call .isUndefined [val]
    dumpStack a val
    call .freeValue [val]
  else
    pure ()

/-- `js_std_dump_error`. -/
def jsStdDumpError (a : ErrorAnswers) : Engine Unit := do
  let exceptionVal ← make .getException []
  jsStdDumpError1 a exceptionVal
  call .freeValue [exceptionVal]

/-- A dump of the error, if there is one. -/
def dumpIf (throws : Bool) (a : ErrorAnswers) : Engine Unit :=
  if throws then jsStdDumpError a else pure ()

/-! ## What scripts call -/

/-- An argument of `console.log`: an object, a string, or anything else, and does it
have a text? -/
inductive LogArgument
  | object (text : Bool)
  | string (text : Bool)
  | other

/-- `puts(str)` and the end of `str`, or `(null)`. -/
def putString : Option ValueId → Engine Unit
  | none => call .puts []
  | some str => do
    call .puts [str]
    call .freeCString [str]

/-- One argument of `__logger_internal`. -/
def logArgument : LogArgument → Engine Unit
  | .object text => do
    call .isObject []
    let stringified ← make .jsonStringify []
    let str ← tryMake .toCStringLen [stringified] text
    call .freeValue [stringified]
    putString str
  | .string text => do
    call .isObject []
    call .isString []
    let str ← tryMake .toCStringLen [] text
    putString str
  | .other => do
    call .isObject []
    call .isString []
    putString none

/-- `__logger_internal`. -/
def loggerInternal : List LogArgument → Engine Unit
  | [] => pure ()
  | a :: as => do
    logArgument a
    loggerInternal as

/-- The answers to `__handler_cb`. `names` is the number of properties, if
`JS_GetOwnPropertyNames` succeeds. `strdup` takes a `NULL` as it comes. -/
structure CbAnswers where
  hasArgument : Bool
  statusIsNumber : Bool
  headersIsObject : Bool
  names : Option Nat
  nameText : Nat → Bool
  valueText : Nat → Bool
  body : LogArgument

/-- The atoms of `props`. -/
def makeAtoms : Nat → Engine (List ValueId)
  | 0 => pure []
  | n + 1 => do
    let atoms ← makeAtoms n
    let atom ← ownership.fresh (.made .getOwnPropertyNames)
    return atoms ++ [atom]

/-- The loop over the headers of a response, for the atoms from the `i`th on. -/
def copyHeaders (a : CbAnswers) (headers : ValueId) : Nat → List ValueId → Engine Unit
  | _, [] => pure ()
  | i, atom :: atoms => do
    let name ← tryMake .atomToCString [atom] (a.nameText i)
    let value ← make .getProperty [headers, atom]
    let text ← tryMake .toCStringLen [value] (a.valueText i)
    call .strdup name.toList
    call .strdup text.toList
    call .freeCString name.toList
    call .freeCString text.toList
    call .freeValue [value]
    call .freeAtom [atom]
    copyHeaders a headers (i + 1) atoms

/-- The properties of `headers`. -/
def ownProperties (a : CbAnswers) (headers : ValueId) : Option Nat → Engine Unit
  | none => pure ()
  | some n => do
    let props ← ownership.fresh (.made .getOwnPropertyNames)
    let atoms ← makeAtoms n
    copyHeaders a headers 0 (atoms.take ISERE_HTTPD_MAX_HTTP_HEADERS)
    call .jsFree [props]

/-- `headers`, if it is an object. -/
def headersObject (a : CbAnswers) (headers : ValueId) : Engine Unit :=
  if a.headersIsObject then do
    call .getOwnPropertyNames [headers]
    ownProperties a headers a.names
  else
    pure ()

/-- The headers of a response. -/
def handlerHeaders (a : CbAnswers) : Engine Unit := do
  let headers ← make .getPropertyStr []
  call .isObject [headers]
  headersObject a headers
  call .freeValue [headers]

/-- `body_str`. -/
def bodyString (v : ValueId) : LogArgument → Engine (Option ValueId)
  | .object text => do
    let stringified ← make .jsonStringify [v]
    let str ← tryMake .toCStringLen [stringified] text
    call .freeValue [stringified]
    return str
  | .string text => do
    call .isString [v]
    tryMake .toCStringLen [v] text
  | .other => do
    call .isString [v]
    return none

/-- `response->body`. -/
def copyBody : Option ValueId → Engine Unit
  | none => pure ()
  | some str => do
    call .strdup [str]
    call .freeCString [str]

/-- The body of a response. -/
def handlerBody (body : LogArgument) : Engine Unit := do
  let v ← make .getPropertyStr []
  call .isObject [v]
  let str ← bodyString v body
  copyBody str
  call .freeValue [v]

/-- `response->statusCode`. -/
def copyStatus (a : CbAnswers) (statusCode : ValueId) : Engine Unit :=
  if a.statusIsNumber then call .toInt32 [statusCode] else pure ()

/-- The status code of a response. -/
def handlerStatus (a : CbAnswers) : Engine Unit := do
  let statusCode ← make .getPropertyStr []
  call .isNumber [statusCode]
  copyStatus a statusCode
  call .freeValue [statusCode]

/-- `__handler_cb`. -/
def handlerCb (a : CbAnswers) : Engine Unit :=
  if a.hasArgument then do
    handlerStatus a
    handlerHeaders a
    handlerBody a.body
  else
    pure ()

/-- A call of the runtime by a script: of `cb`, or of a function of `console`. The
scripts here call no `setTimeout` and no `clearTimeout`. -/
inductive Entry
  | cb (a : CbAnswers)
  | console (args : List LogArgument)

/-- The calls of a script, first to last. -/
def runScript : List Entry → Engine Unit
  | [] => pure ()
  | .cb a :: es => do
    handlerCb a
    runScript es
  | .console args :: es => do
    loggerInternal args
    runScript es

/-! ## The handler -/

/-- The loop over the request headers. -/
def addHeaders (headers : ValueId) : Nat → Engine Unit
  | 0 => pure ()
  | i + 1 => do
    setNew headers .newString
    addHeaders headers i

/-- `parsedBody`. -/
def bodyValue (isObject : Bool) : Engine ValueId := do
  let parsedBody ← make .parseJson []
  call .isObject [parsedBody]
  if isObject then
    return parsedBody
  else
    call .freeValue [parsedBody]
    make .newString []

/-- The `event` object. -/
def eventObject (bodyIsObject : Bool) (requestHeadersLen : Nat) (globalObj : ValueId) :
    Engine Unit := do
  let event ← make .newObject []
  setNew event .newString
  setNew event .newString
  let headers ← make .newObject []
  addHeaders headers requestHeadersLen
  call .setPropertyStr [event, headers]
  setNew event .newString
  let parsedBody ← bodyValue bodyIsObject
  call .setPropertyStr [event, parsedBody]
  call .setPropertyStr [event]
  call .setPropertyStr [globalObj, event]

/-- The `context` object. -/
def contextObject (globalObj : ValueId) : Engine Unit := do
  let context ← make .newObject []
  setNew context .newString
  setNew context .newString
  setNew context .newInt32
  setNew context .newString
  setNew context .newString
  setNew context .newBool
  call .setPropertyStr [globalObj, context]

/-- The answers to `js_module_set_import_meta`. -/
structure MetaAnswers where
  hasName : Bool
  metaThrows : Bool

/-- The properties of `import.meta`. -/
def setMeta (moduleName : ValueId) : Option ValueId → Engine Unit
  | none => call .isException []
  | some metaObj => do
    call .isException [metaObj]
    let url ← make .newString [moduleName]
    call .definePropertyValueStr [metaObj, url]
    let isMain ← make .newBool []
    call .definePropertyValueStr [metaObj, isMain]
    call .freeValue [metaObj]

/-- `js_module_set_import_meta` from the test of `module_name` on. The name is freed
before its string is read. -/
def importMeta (a : MetaAnswers) (funcVal : ValueId) : Option ValueId → Engine Unit
  | none => pure ()
  | some moduleName => do
    call .freeCString [moduleName]
    let metaObj ← tryMake .getImportMeta [funcVal] (!a.metaThrows)
    setMeta moduleName metaObj

/-- `js_module_set_import_meta`. -/
def jsModuleSetImportMeta (a : MetaAnswers) (funcVal : ValueId) : Engine Unit := do
  let moduleNameAtom ← make .getModuleName [funcVal]
  let moduleName ← tryMake .atomToCString [moduleNameAtom] a.hasName
  call .freeAtom [moduleNameAtom]
  importMeta a funcVal moduleName

/-- The answers to `js_runtime_eval_handler`. `script` are the calls of the handler
while the start script is evaluated. -/
structure EvalAnswers where
  bodyIsObject : Bool
  compileThrows : Bool
  compileError : ErrorAnswers
  importMeta : MetaAnswers
  script : List Entry
  evalThrows : Bool
  evalError : ErrorAnswers

/-- The objects that `js_runtime_eval_handler` gives to the handler. -/
def evalArguments (a : EvalAnswers) (requestHeadersLen : Nat) : Engine Unit := do
  let globalObj ← make .getGlobalObject []
  eventObject a.bodyIsObject requestHeadersLen globalObj
  contextObject globalObj
  setNew globalObj .newCFunction
  call .freeValue [globalObj]

/-- `js_runtime_eval_handler` from the end of the compilation on. -/
def evalCompiled (a : EvalAnswers) : Option ValueId → Engine (Option ValueId)
  | none => do
    call .isException []
    jsStdDumpError a.compileError
    call .freeValue []
    return none
  | some h => do
    call .isException [h]
    jsModuleSetImportMeta a.importMeta h
    call .freeValue [h]
    call .eval []
    runScript a.script
    let future ← result .eval (!a.evalThrows)
    call .isException future.toList
    dumpIf a.evalThrows a.evalError
    return future

/-- `js_runtime_eval_handler`, with `ctx->future` as it leaves it. -/
def jsRuntimeEvalHandler (a : EvalAnswers) (requestHeadersLen : Nat) :
    Engine (Option ValueId) := do
  evalArguments a requestHeadersLen
  let h ← tryMake .eval [] (!a.compileThrows)
  evalCompiled a h

/-! ## Polls, and the end of a context -/

/-- The answers to `js_runtime_poll`: the calls of the job, and does it throw? -/
structure PollAnswers where
  script : List Entry
  throws : Bool
  error : ErrorAnswers

/-- `js_runtime_poll`. -/
def jsRuntimePoll (a : PollAnswers) : Engine Unit := do
  call .executePendingJob []
  runScript a.script
  dumpIf a.throws a.error

def pollAll : List PollAnswers → Engine Unit
  | [] => pure ()
  | a :: as => do
    jsRuntimePoll a
    pollAll as

/-- A property that `isere_js_polyfill_timer_deinit` deletes. -/
def deleteGlobal (globalObj : ValueId) : Engine Unit := do
  let atom ← make .newAtom []
  call .deleteProperty [globalObj, atom]
  call .freeAtom [atom]

/-- The loop of `isere_js_polyfill_timer_deinit` over the slots. No script here has set
a timer, so that the function of a slot is `JS_UNDEFINED`, which nobody owns. -/
def freeFuncs : Nat → Engine Unit
  | 0 => pure ()
  | slots + 1 => do
    call .freeValue []
    freeFuncs slots

/-- `isere_js_polyfill_timer_deinit`. It is irreducible, or the elaborator computes the
loop wherever a context comes to its end. -/
@[irreducible] def timerDeinit : Engine Unit := do
  freeFuncs ISERE_JS_POLYFILLS_MAX_TIMERS
  let globalObj ← make .getGlobalObject []
  deleteGlobal globalObj
  deleteGlobal globalObj
  call .freeValue [globalObj]

/-- `js_runtime_deinit_context`. Without a start script, `ctx->future` is zero. -/
def jsRuntimeDeinitContext (future : Option ValueId) : Engine Unit := do
  call .freeValue future.toList
  timerDeinit

/-- What the engine answers over the life of a context. -/
structure Life where
  requestHeadersLen : Nat
  handler : EvalAnswers
  polls : List PollAnswers

/-- A context from its start to its end. -/
def contextLife (a : Life) : Engine Unit := do
  jsRuntimeInitContext
  let future ← jsRuntimeEvalHandler a.handler a.requestHeadersLen
  pollAll a.polls
  jsRuntimeDeinitContext future

/-- The history of a context. -/
def lifeLog (a : Life) : List ApiEvent := (contextLife a { next := 0, trace := [] }).2.trace

/-! ## Who owns a value -/

/-- A value is given up by the call that frees it, or by the one that makes it a
property. `reads`: a string that `JS_NewString` copies is used by it. -/
def disciplineWith (reads : Bool) : Discipline ApiEvent where
  made
    | .made _ v => some v
    | .call _ _ => none
  uses
    | .call .newString args => if reads then args else []
    | .call _ args => args
    | .made _ _ => []
  gives
    | .call .setPropertyStr [_, v] => some v
    | .call .definePropertyValueStr [_, v] => some v
    | .call .freeValue [v] => some v
    | .call .freeCString [v] => some v
    | .call .freeAtom [v] => some v
    | .call .jsFree [v] => some v
    | _ => none

/-- What each event does to the values. -/
def discipline : Discipline ApiEvent := disciplineWith true

end isere.quickjs.values
