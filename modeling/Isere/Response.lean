-- The response object of a connection, and the bytes that __httpd_writeback
-- of src/httpd.c sends for it.
import Isere.CString

open cstring

namespace isere.httpd

/-- `httpd_response_object_t`. A `char *` is the heap block that it points to,
with its NUL, or `none` for a null pointer. -/
structure Response where
  completed : Bool
  statusCode : BitVec 32
  headerNames : List (Option Bytes)
  headerValues : List (Option Bytes)
  numHeaderFields : Nat
  body : Option Bytes
  bodyLen : Nat
  deriving DecidableEq, Repr

/-- The response of a connection that `__on_connected` just made. -/
def Response.initial : Response where
  completed := false
  statusCode := 200
  headerNames := List.replicate 16 none
  headerValues := List.replicate 16 none
  numHeaderFields := 0
  body := none
  bodyLen := 0

/-! ## Reads of memory -/

/-- A read of `n` bytes from the start of a block, if the block has them. -/
def readBlock (block : Bytes) (n : Nat) : Option Bytes :=
  if n ≤ block.length then some (block.take n) else none

/-- The string at a pointer, if there is one: the pointer is not null, and the
block that it points to has a NUL. -/
def readString (p : Option Bytes) : Option Bytes :=
  p.bind (fun block => if 0 ∈ block then some (cstr block) else none)

/-! ## The answers -/

/-- The decimal digits that `%d` prints. -/
def decimal (n : Int) : Bytes := ascii (toString n)

/-- The 4 bytes of `statusCode` after `snprintf(statusCode, 4, "%d", ..)`: at
most 3 digits and a NUL, over the text `200`. -/
def statusBuffer (digits : Bytes) : Bytes :=
  digits.take 3 ++ [0] ++ (ascii "200" ++ [0]).drop ((digits.take 3).length + 1)

/-- The four writes of one response header. -/
def headerWrites (r : Response) (i : Nat) : Option (List Bytes) := do
  let name ← readString (r.headerNames[i]?.join)
  let value ← readString (r.headerValues[i]?.join)
  some [name, ascii ": ", value, ascii "\r\n"]

/-- The writes up to the empty line. -/
def headWrites (r : Response) : Option (List Bytes) := do
  let digits := decimal r.statusCode.toInt
  let status ← readBlock (statusBuffer digits) digits.length
  let headers ← (List.range r.numHeaderFields).mapM (headerWrites r)
  some ([ascii "HTTP/1.1 ", status, ascii "\r\n"] ++ headers.flatten ++
    [ascii "Server: isere\r\n", ascii "Connection: close\r\n", ascii "\r\n"])

/-- The write of the body. A write of no bytes reads nothing. -/
def bodyWrite (r : Response) : Option Bytes :=
  if r.bodyLen = 0 then some [] else r.body.bind (readBlock · r.bodyLen)

/-- `__httpd_writeback` of a completed response: the bytes of each write, or
`none` when a write reads through a null pointer or past a block. -/
def responseWrites (r : Response) : Option (List Bytes) := do
  let head ← headWrites r
  let body ← bodyWrite r
  some (head ++ [body, ascii "\r\n\r\n"])

/-- An answer of the server: one of its fixed texts, or a response object. -/
inductive Answer
  | notFound
  | bare
  | tooLarge
  | response (r : Response)
  deriving DecidableEq, Repr

/-- The writes of an answer. -/
def Answer.writes : Answer → Option (List Bytes)
  | .notFound => some [ascii "HTTP/1.1 404 Not Found\r\n\r\n"]
  | .bare => some [ascii "HTTP/1.1 200 OK\r\n\r\n"]
  | .tooLarge => some [ascii "HTTP/1.1 413 Content Too Large\r\n\r\n"]
  | .response r => responseWrites r

/-- What `__httpd_writeback` answers. -/
def httpdWriteback (r : Response) : Answer := if r.completed then .response r else .bare

end isere.httpd
