-- The request that llhttp reports: the buffers of httpd_conn_t, and the
-- callbacks of src/httpd.c that fill them. llhttp and yuarel are not part of
-- the repository, so both are parameters.
import Isere.CString

open cstring

namespace isere.httpd

/-! ## The sizes of include/httpd.h -/

def ISERE_HTTPD_LINE_BUFFER_LEN : Nat := 64
def ISERE_HTTPD_MAX_HTTP_METHOD_LEN : Nat := 16
def ISERE_HTTPD_MAX_HTTP_PATH_LEN : Nat := 256
def ISERE_HTTPD_MAX_HTTP_HEADERS : Nat := 16
def ISERE_HTTPD_MAX_HTTP_HEADER_NAME_LEN : Nat := 64
def ISERE_HTTPD_MAX_HTTP_HEADER_VALUE_LEN : Nat := 512
def ISERE_HTTPD_MAX_HTTP_BODY_LEN : Nat := 512

def ISERE_HTTPD_MAX_HTTP_REQUEST_LEN : Nat :=
  ISERE_HTTPD_MAX_HTTP_METHOD_LEN +
    ISERE_HTTPD_MAX_HTTP_PATH_LEN +
    ISERE_HTTPD_MAX_HTTP_HEADERS *
      (ISERE_HTTPD_MAX_HTTP_HEADER_NAME_LEN + ISERE_HTTPD_MAX_HTTP_HEADER_VALUE_LEN) +
    ISERE_HTTPD_MAX_HTTP_BODY_LEN

/-! ## The parsers from outside -/

/-- A callback of llhttp. The ones with bytes report a piece of an element. -/
inductive Callback
  | method (at' : Bytes)
  | methodComplete
  | url (at' : Bytes)
  | urlComplete
  | headerField (at' : Bytes)
  | headerFieldComplete
  | headerValue (at' : Bytes)
  | headerValueComplete
  | headersComplete
  | body (at' : Bytes)
  | messageComplete
  deriving DecidableEq, Repr

/-- What `llhttp_execute` returns. Every code but the first two is `failed`. -/
inductive LlhttpErrno
  | HPE_OK
  | HPE_PAUSED_UPGRADE
  | failed (code : Nat)
  deriving DecidableEq, Repr

/-- llhttp: the callbacks that it fires for a chunk, in order, and its result.
The state of a parser is the chunks that it was given before. Every callback of
the server returns 0, so the callbacks do not steer it. -/
structure Llhttp where
  execute : List Bytes → Bytes → List Callback × LlhttpErrno

/-- What `yuarel_parse` leaves: the buffer, which it edits in place, and where
in the buffer the path and the query start, if they do. -/
structure YuarelUrl where
  buf : Bytes
  path : Option Nat
  query : Option Nat
  deriving DecidableEq, Repr

structure Yuarel where
  parse : Bytes → YuarelUrl

/-! ## The buffers -/

/-- `httpd_header_t`. -/
structure HttpdHeader where
  name : Bytes
  value : Bytes
  deriving DecidableEq, Repr

/-- The request part of `httpd_conn_t`. `urlPath` and `urlQuery` are the
pointers of `url_parser`, as positions in `path`. -/
structure Request where
  method : Bytes
  path : Bytes
  urlPath : Option Nat
  urlQuery : Option Nat
  body : Bytes
  headers : List HttpdHeader
  numHeaderFields : Nat
  numHeaderValues : Nat
  deriving DecidableEq, Repr

/-- The request of a connection right after the `memset` of `__on_connected`. -/
def Request.zero : Request where
  method := List.replicate ISERE_HTTPD_MAX_HTTP_METHOD_LEN 0
  path := List.replicate ISERE_HTTPD_MAX_HTTP_PATH_LEN 0
  urlPath := none
  urlQuery := none
  body := List.replicate ISERE_HTTPD_MAX_HTTP_BODY_LEN 0
  headers := List.replicate ISERE_HTTPD_MAX_HTTP_HEADERS
    { name := List.replicate ISERE_HTTPD_MAX_HTTP_HEADER_NAME_LEN 0,
      value := List.replicate ISERE_HTTPD_MAX_HTTP_HEADER_VALUE_LEN 0 }
  numHeaderFields := 0
  numHeaderValues := 0

/-! ## The callbacks

Each data callback finds the end of the string in its buffer, cuts the piece to
the room that is left before the last byte, and copies it there. -/

/-- The body that the data callbacks share, for a buffer of `max` bytes. -/
def appendPiece (max : Nat) (buf at' : Bytes) : Bytes :=
  let len := strlen buf
  let available := max - len - 1
  let length := min at'.length available
  if length = 0 then buf else strncpy buf len at' length

/-- `__on_method`. -/
def onMethod (r : Request) (at' : Bytes) : Request :=
  { r with method := appendPiece ISERE_HTTPD_MAX_HTTP_METHOD_LEN r.method at' }

/-- `__on_url`. -/
def onUrl (r : Request) (at' : Bytes) : Request :=
  { r with path := appendPiece ISERE_HTTPD_MAX_HTTP_PATH_LEN r.path at' }

/-- `__on_url_complete`. -/
def onUrlComplete (y : Yuarel) (r : Request) : Request :=
  let u := y.parse r.path
  { r with path := u.buf, urlPath := u.path, urlQuery := u.query }

/-- `__on_header_field`. -/
def onHeaderField (r : Request) (at' : Bytes) : Request :=
  if r.numHeaderFields < ISERE_HTTPD_MAX_HTTP_HEADERS then
    { r with headers := r.headers.modify r.numHeaderFields (fun h =>
        { h with name := appendPiece ISERE_HTTPD_MAX_HTTP_HEADER_NAME_LEN h.name at' }) }
  else r

/-- `__on_header_field_complete`. The NUL that it writes is the one it found. -/
def onHeaderFieldComplete (r : Request) : Request :=
  if r.numHeaderFields < ISERE_HTTPD_MAX_HTTP_HEADERS then
    { r with
      headers := r.headers.modify r.numHeaderFields (fun h =>
        { h with name := h.name.set (strlen h.name) 0 }),
      numHeaderFields := r.numHeaderFields + 1 }
  else r

/-- `__on_header_value`. -/
def onHeaderValue (r : Request) (at' : Bytes) : Request :=
  if r.numHeaderValues < ISERE_HTTPD_MAX_HTTP_HEADERS then
    { r with headers := r.headers.modify r.numHeaderValues (fun h =>
        { h with value := appendPiece ISERE_HTTPD_MAX_HTTP_HEADER_VALUE_LEN h.value at' }) }
  else r

/-- `__on_header_value_complete`. -/
def onHeaderValueComplete (r : Request) : Request :=
  if r.numHeaderValues < ISERE_HTTPD_MAX_HTTP_HEADERS then
    { r with
      headers := r.headers.modify r.numHeaderValues (fun h =>
        { h with value := h.value.set (strlen h.value) 0 }),
      numHeaderValues := r.numHeaderValues + 1 }
  else r

/-- `__on_body`. -/
def onBody (r : Request) (at' : Bytes) : Request :=
  { r with body := appendPiece ISERE_HTTPD_MAX_HTTP_BODY_LEN r.body at' }

/-- What a callback does to the request. `__on_method_complete` and
`__on_headers_complete` do nothing, and `__on_message_complete` only reads. -/
def Request.onCallback (y : Yuarel) (r : Request) : Callback → Request
  | .method at' => onMethod r at'
  | .methodComplete => r
  | .url at' => onUrl r at'
  | .urlComplete => onUrlComplete y r
  | .headerField at' => onHeaderField r at'
  | .headerFieldComplete => onHeaderFieldComplete r
  | .headerValue at' => onHeaderValue r at'
  | .headerValueComplete => onHeaderValueComplete r
  | .headersComplete => r
  | .body at' => onBody r at'
  | .messageComplete => r

/-! ## What `__on_message_complete` reads -/

/-- The test of `__on_message_complete` that answers 404. `yuarel_parse` puts a
NUL over a leading `/`, so only the root path passes it. -/
def Request.notFound (r : Request) : Bool :=
  r.path.getD 0 0 ≠ 0 || (r.path.getD 0 0 ≠ 47 && r.path.getD 1 0 ≠ 0)

/-- The arguments of `http_handler` that come from the request, as the strings
that their pointers reach. -/
structure HandlerArgs where
  method : Bytes
  path : Option Bytes
  query : Option Bytes
  headers : List (Bytes × Bytes)
  body : Bytes
  deriving DecidableEq, Repr

def Request.handlerArgs (r : Request) : HandlerArgs where
  method := cstr r.method
  path := r.urlPath.map (fun i => cstr (r.path.drop i))
  query := r.urlQuery.map (fun i => cstr (r.path.drop i))
  headers := (r.headers.take (min r.numHeaderFields r.numHeaderValues)).map
    (fun h => (cstr h.name, cstr h.value))
  body := cstr r.body

end isere.httpd
