-- The blocks behind the pointers of a response: which call of cb made each of
-- them, what a later call writes over, and what __httpd_cleanup_conn frees.
import Isere.Runtimes
import Mathlib.Data.List.ReduceOption

open cstring

namespace isere.httpd

/-! ## Blocks -/

/-- A block of the heap: its number in the order of the allocations, the call of
`cb` that made it, and its bytes. -/
structure Block where
  id : Nat
  call : Nat
  bytes : Bytes
  deriving DecidableEq, Repr

/-- `httpd_response_object_t` with the block behind each of its pointers, the call
that set its status, and the number of blocks that were allocated for it. -/
structure Owned where
  completed : Bool
  statusCode : BitVec 32
  statusCall : Option Nat
  headerNames : List (Option Block)
  headerValues : List (Option Block)
  numHeaderFields : Nat
  body : Option Block
  bodyLen : Nat
  allocated : Nat
  deriving DecidableEq, Repr

/-- The response of a connection that `__on_connected` just made. -/
def Owned.initial : Owned where
  completed := false
  statusCode := 200
  statusCall := none
  headerNames := List.replicate 16 none
  headerValues := List.replicate 16 none
  numHeaderFields := 0
  body := none
  bodyLen := 0
  allocated := 0

/-- The response without the numbers of its blocks. -/
def Owned.response (o : Owned) : Response where
  completed := o.completed
  statusCode := o.statusCode
  headerNames := o.headerNames.map (Option.map Block.bytes)
  headerValues := o.headerValues.map (Option.map Block.bytes)
  numHeaderFields := o.numHeaderFields
  body := o.body.map Block.bytes
  bodyLen := o.bodyLen

/-! ## What a runtime allocates -/

/-- The two blocks of a header. `none` is a read through a null pointer, and
`some none` a header that is passed over. -/
def Runtime.rowBlocks : Runtime → JsString → HeaderValue → Option (Option (Bytes × Bytes))
  | .quickjs, name, value =>
    value.text.map (fun text => some (strdup (utf8 name), strdup (utf8 text)))
  | .jerryscript, name, .string text => some (some (utf8 name ++ [0], utf8 text ++ [0]))
  | .jerryscript, _, .other _ => some none

/-- The block of a body and its length, if there is a block. The one byte of
JerryScript has no length. -/
def Runtime.bodyBlock : Runtime → BodyValue → Option (Bytes × Option Nat)
  | .quickjs, body =>
    (quickjs.bodyText body).map (fun s => (strdup (utf8 s), some (utf8 s).length))
  | .jerryscript, body =>
    match jerryscript.bodyText body with
    | some s => some (strdup (utf8 s ++ [0]), some (utf8 s).length)
    | none => some ([0], none)

/-- One row, if the header is not passed over. -/
def Owned.setRow (o : Owned) (call i : Nat) : Option (Bytes × Bytes) → Owned
  | none => o
  | some (name, value) =>
    { o with
      headerNames := o.headerNames.set i (some ⟨o.allocated, call, name⟩),
      headerValues := o.headerValues.set i (some ⟨o.allocated + 1, call, value⟩),
      allocated := o.allocated + 2 }

/-- The loop over the headers. -/
def Owned.setRows (rt : Runtime) (call : Nat) (o : Owned) (i : Nat) :
    List (JsString × HeaderValue) → Option Owned
  | [] => some o
  | (name, value) :: rest => do
    let row ← rt.rowBlocks name value
    Owned.setRows rt call (o.setRow call i row) (i + 1) rest

/-- The status and the headers. -/
def Owned.setHead (rt : Runtime) (call : Nat) (v : HandlerResult) (o : Owned) : Option Owned :=
  let o := { o with statusCode := v.statusCode.getD 200, statusCall := some call }
  match v.headers with
  | none => some o
  | some props =>
    let num := min props.length ISERE_HTTPD_MAX_HTTP_HEADERS
    Owned.setRows rt call { o with numHeaderFields := num } 0 (props.take num)

def Owned.setBody (o : Owned) (call : Nat) : Option (Bytes × Option Nat) → Owned
  | none => o
  | some (bytes, len) =>
    { o with
      body := some ⟨o.allocated, call, bytes⟩,
      bodyLen := len.getD o.bodyLen,
      allocated := o.allocated + 1 }

/-- `__handler_cb`, as the call `call` of `cb`. -/
def Owned.handlerCb (rt : Runtime) (call : Nat) (args : List HandlerResult) (o : Owned) :
    Option Owned :=
  match args with
  | [] => some o
  | v :: _ => do
    let o ← o.setHead rt call v
    some { o.setBody call (rt.bodyBlock v.body) with completed := true }

/-- Calls of `cb`, one after the other. -/
def Owned.handlerCbs (rt : Runtime) (call : Nat) (o : Owned) :
    List (List HandlerResult) → Option Owned
  | [] => some o
  | args :: rest => do
    let o ← o.handlerCb rt call args
    Owned.handlerCbs rt (call + 1) o rest

/-- The blocks behind the first rows. -/
def Owned.rowBlocks (o : Owned) (n : Nat) : List Block :=
  ((List.range n).flatMap (fun i => [o.headerNames[i]?.join, o.headerValues[i]?.join])).reduceOption

/-- The blocks that `__httpd_cleanup_conn` frees, and that `__httpd_writeback`
reads. -/
def Owned.freed (o : Owned) : List Block := o.rowBlocks o.numHeaderFields ++ o.body.toList

/-! ## The calls leave the responses of __handler_cb -/

def Runtime.storeHeader : Runtime → StoreHeader
  | .quickjs => quickjs.storeHeader
  | .jerryscript => jerryscript.storeHeader

def Runtime.storeBody : Runtime → Response → BodyValue → Response
  | .quickjs => quickjs.storeBody
  | .jerryscript => jerryscript.storeBody

theorem runtime_handlerCb (rt : Runtime) :
    rt.handlerCb = handlerCbWith rt.storeHeader rt.storeBody := by cases rt <;> rfl

theorem setRow_response (o : Owned) (call i : Nat) (name value : Bytes) :
    (o.setRow call i (some (name, value))).response = o.response.setHeader i name value := by
  simp [Owned.setRow, Owned.response, Response.setHeader, List.map_set]

theorem storeHeader_response (rt : Runtime) (call : Nat) (o : Owned) (i : Nat) (name : JsString)
    (value : HeaderValue) : rt.storeHeader o.response i name value =
      (rt.rowBlocks name value).map (fun row => (o.setRow call i row).response) := by
  cases rt with
  | quickjs =>
    cases ht : value.text <;>
      simp [Runtime.storeHeader, quickjs.storeHeader, Runtime.rowBlocks, ht, setRow_response]
  | jerryscript =>
    cases value with
    | string text => exact congrArg some (setRow_response o call i _ _).symm
    | other text => rfl

theorem storeHeaders_response (rt : Runtime) (call : Nat) (hds : List (JsString × HeaderValue))
    (o : Owned) (i : Nat) : storeHeaders rt.storeHeader o.response i hds =
      (o.setRows rt call i hds).map Owned.response := by
  induction hds generalizing o i with
  | nil => rfl
  | cons hd hds ih =>
    obtain ⟨name, value⟩ := hd
    rw [storeHeaders, storeHeader_response rt call, Owned.setRows]
    cases rt.rowBlocks name value with
    | none => rfl
    | some row => exact ih _ _

theorem storeHead_response (rt : Runtime) (call : Nat) (v : HandlerResult) (o : Owned) :
    storeHead rt.storeHeader v o.response = (o.setHead rt call v).map Owned.response := by
  unfold storeHead Owned.setHead
  cases v.headers with
  | none => rfl
  | some props =>
    exact storeHeaders_response rt call (props.take (min props.length ISERE_HTTPD_MAX_HTTP_HEADERS))
      { o with
        statusCode := v.statusCode.getD 200,
        statusCall := some call,
        numHeaderFields := min props.length ISERE_HTTPD_MAX_HTTP_HEADERS } 0

theorem storeBody_response (rt : Runtime) (call : Nat) (body : BodyValue) (o : Owned) :
    rt.storeBody o.response body = (o.setBody call (rt.bodyBlock body)).response := by
  cases rt with
  | quickjs =>
    simp only [Runtime.storeBody, quickjs.storeBody, Runtime.bodyBlock]
    cases quickjs.bodyText body <;> rfl
  | jerryscript =>
    simp only [Runtime.storeBody, jerryscript.storeBody, Runtime.bodyBlock]
    cases jerryscript.bodyText body <;> rfl

/-- A call leaves the response that `__handler_cb` leaves. -/
theorem handlerCb_response (rt : Runtime) (call : Nat) (args : List HandlerResult) (o : Owned) :
    rt.handlerCb args o.response = (o.handlerCb rt call args).map Owned.response := by
  rw [runtime_handlerCb]
  cases args with
  | nil => rfl
  | cons v args =>
    unfold handlerCbWith Owned.handlerCb
    simp only
    rw [storeHead_response rt call]
    cases o.setHead rt call v with
    | none => rfl
    | some o1 =>
      simp only [Option.map_some, Option.bind_eq_bind, Option.bind_some]
      rw [storeBody_response rt call]
      rfl

/-- The calls leave the response of `__handler_cb` after `__handler_cb`. -/
theorem handlerCbs_response (rt : Runtime) (call : Nat) (calls : List (List HandlerResult))
    (o : Owned) : calls.foldlM (fun r args => rt.handlerCb args r) o.response =
      (o.handlerCbs rt call calls).map Owned.response := by
  induction calls generalizing o call with
  | nil => rfl
  | cons args calls ih =>
    rw [List.foldlM_cons, handlerCb_response rt call, Owned.handlerCbs]
    cases o.handlerCb rt call args with
    | none => rfl
    | some o1 => exact ih (call + 1) o1

end isere.httpd
