-- From the bytes of a client to the event object of its handler: __on_message_complete
-- passes the buffers of the connection on, and js_runtime_eval_handler makes an object
-- of them, with the same properties in both runtimes.
import Isere.HeaderTable
import Isere.Routing

open cstring segments runs isere.uv isere.tcp

namespace isere.httpd

/-! ## The object -/

/-- What `js_runtime_eval_handler` uses of an engine: its strings, and the object
that its JSON parser makes of a text, if it makes one. -/
structure EventEngine (Str J : Type) extends Engine Str where
  parseObject : Bytes → Option J

/-- A property of the event. -/
inductive EventValue (Str J : Type)
  | string (s : Str)
  | headers (ps : List (Str × Str))
  | json (j : J)
  | boolean (b : Bool)
  deriving DecidableEq

variable {Str J : Type} [DecidableEq Str]

/-- `parsedBody`. -/
def EventEngine.bodyValue (E : EventEngine Str J) (body : Bytes) : EventValue Str J :=
  match E.parseObject body with
  | some j => .json j
  | none => .string (E.newString body)

/-- The properties of the event, in the order in which they are set. -/
def EventEngine.event (E : EventEngine Str J) (method path : Bytes) (headers : List (Str × Str))
    (query : Option Bytes) (body : Bytes) : List (Bytes × EventValue Str J) :=
  [(ascii "httpMethod", .string (E.newString method)),
    (ascii "path", .string (E.newString path)),
    (ascii "headers", .headers headers),
    (ascii "query", .string (E.newString (query.getD []))),
    (ascii "body", E.bodyValue body),
    (ascii "isBase64Encoded", .boolean false)]

/-- The `event` object of `js_runtime_eval_handler`, for the request that
`__on_message_complete` passes on. There is none when the path is NULL, or when the
walk over the headers leaves its arrays. -/
def eventObject (E : EventEngine Str J) (r : Request) :
    Option (List (Bytes × EventValue Str J)) := do
  let path ← r.handlerArgs.path
  let headers ← eventHeaders E.toEngine
    (r.headers.take (min r.numHeaderFields r.numHeaderValues))
  return E.event r.handlerArgs.method path headers r.handlerArgs.query r.handlerArgs.body

/-! ## A request -/

/-- The bytes of one request without trailers: its head, and the runs of its body. -/
structure WholeRequest where
  head : RequestHead
  body : List Bytes
  layout : Layout
  layout_reported : layout.filter reported =
    head.layout ++ (body.map (.data .body) ++ [.event .messageComplete])
  method_ne : head.method ≠ []
  target_ne : head.target ≠ []
  name_ne : ∀ f ∈ head.fields, f.1 ≠ []

/-- What llhttp reports after the target. -/
def WholeRequest.later (W : WholeRequest) : Layout :=
  W.head.fields.flatMap fieldLayout ++ .event .headersComplete :: W.body.map (.data .body)

theorem WholeRequest.later_ok (W : WholeRequest) : ∀ p ∈ W.later, AfterUrl p := by
  intro p hp
  simp only [later, List.mem_append, List.mem_flatMap, List.mem_cons, List.mem_map] at hp
  rcases hp with ⟨f, hf, hp⟩ | rfl | ⟨s, -, rfl⟩
  · simp only [fieldLayout, List.mem_cons, List.not_mem_nil, or_false] at hp
    rcases hp with rfl | rfl | rfl | rfl
    · exact W.head.name_nul f hf
    · trivial
    · exact W.head.value_nul f hf
    · trivial
  · trivial
  · trivial

/-- The request, told by its elements. -/
def WholeRequest.one (W : WholeRequest) : OneRequest where
  method := W.head.method
  url := W.head.target
  later := W.later
  layout := W.layout
  layout_reported := by
    rw [W.layout_reported]
    simp [RequestHead.layout, later]
  method_ne := W.method_ne
  method_nul := W.head.method_nul
  url_nul := W.head.target_nul
  later_ok := W.later_ok

/-- The headers of which the buffers keep something: the first 16. -/
def WholeRequest.fields (W : WholeRequest) : List (Bytes × Bytes) :=
  W.head.fields.take ISERE_HTTPD_MAX_HTTP_HEADERS

/-- What the buffers keep of the request. -/
def WholeRequest.args (W : WholeRequest) : HandlerArgs where
  method := W.head.method.take (ISERE_HTTPD_MAX_HTTP_METHOD_LEN - 1)
  path := some []
  query := targetQuery W.head.target
  headers := W.fields.map (fun f => (f.1.take (ISERE_HTTPD_MAX_HTTP_HEADER_NAME_LEN - 1),
    f.2.take (ISERE_HTTPD_MAX_HTTP_HEADER_VALUE_LEN - 1)))
  body := (W.body.flatMap nonNul).take (ISERE_HTTPD_MAX_HTTP_BODY_LEN - 1)

/-- The event that the request makes. Each value of a header is cut to 64 bytes. -/
def WholeRequest.event (E : EventEngine Str J) (W : WholeRequest) :
    List (Bytes × EventValue Str J) :=
  E.event W.args.method [] (E.setHeaders [] (W.args.headers.map (Prod.map id keptValue)))
    W.args.query W.args.body

/-! ## The request in the buffers -/

/-- The headers that the handler is given. -/
theorem HeadKept.headers {h : RequestHead} {r : Request} (hr : HeadKept h r) :
    r.headers.take (min r.numHeaderFields r.numHeaderValues) =
      (h.fields.take ISERE_HTTPD_MAX_HTTP_HEADERS).map keptHeader := by
  rw [hr.numHeaderFields, hr.numHeaderValues, Nat.min_self]
  apply List.ext_getElem?
  intro i
  rw [List.getElem?_map, List.getElem?_take, List.getElem?_take]
  by_cases hi : i < ISERE_HTTPD_MAX_HTTP_HEADERS
  · rw [if_pos hi]
    cases hf : h.fields[i]? with
    | none =>
      have hlen := List.getElem?_eq_none_iff.mp hf
      rw [if_neg (by omega), Option.map_none]
    | some f =>
      have hlen := (List.getElem?_eq_some_iff.mp hf).1
      rw [if_pos (by omega), hr.rows i f hi hf, Option.map_some]
  · rw [if_neg hi, if_neg (by omega), Option.map_none]

end isere.httpd
