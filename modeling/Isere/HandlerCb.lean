-- __handler_cb of both runtimes: the value that a handler resolves to becomes
-- the response of its connection. The engines are not part of the repository,
-- so a value is what they tell of it.
import Isere.Request
import Isere.Response

open cstring

namespace isere.httpd

/-! ## Strings -/

/-- A character of a JavaScript string, or half of a surrogate pair that stands
alone: `surrogate n` is the code unit 0xD800 + n. -/
inductive JsChar
  | char (c : Char)
  | surrogate (n : Fin 2048)
  deriving DecidableEq, Repr

abbrev JsString := List JsChar

def js (s : String) : JsString := s.toList.map .char

/-- The bytes that the engines make of a character in UTF-8. A surrogate takes
three bytes. -/
def JsChar.utf8 : JsChar → Bytes
  | .char c => String.utf8EncodeChar c
  | .surrogate n => [0xED, UInt8.ofNat (0xA0 + n / 64), UInt8.ofNat (0x80 + n % 64)]

def utf8 (s : JsString) : Bytes := s.flatMap JsChar.utf8

theorem ofNat_eq_nul {n : Nat} (h : 0 = UInt8.ofNat n) : n % 256 = 0 := by
  simpa using (congrArg UInt8.toNat h).symm

/-- The only character with a NUL in its UTF-8 bytes is U+0000. -/
theorem nul_mem_utf8EncodeChar {c : Char} (h : 0 ∈ String.utf8EncodeChar c) : c = '\x00' := by
  unfold String.utf8EncodeChar at h
  simp only at h
  split at h
  · have hv := ofNat_eq_nul (List.mem_singleton.mp h)
    have h0 : c.val.toNat = 0 := by omega
    exact Char.ext (UInt32.toNat_inj.mp h0)
  · -- every byte of a longer encoding is at least 128
    split at h
    · simp only [List.mem_cons, List.not_mem_nil, or_false] at h
      rcases h with h | h <;> · have := ofNat_eq_nul h; omega
    · split at h
      · simp only [List.mem_cons, List.not_mem_nil, or_false] at h
        rcases h with h | h | h <;> · have := ofNat_eq_nul h; omega
      · simp only [List.mem_cons, List.not_mem_nil, or_false] at h
        rcases h with h | h | h | h <;> · have := ofNat_eq_nul h; omega

theorem nul_mem_utf8 {c : JsChar} (h : 0 ∈ c.utf8) : c = .char '\x00' := by
  cases c with
  | char c => rw [nul_mem_utf8EncodeChar h]
  | surrogate n =>
    simp only [JsChar.utf8, List.mem_cons, List.not_mem_nil, or_false] at h
    rcases h with h | h | h
    · cases h
    · have := ofNat_eq_nul h
      omega
    · have := ofNat_eq_nul h
      omega

/-- A text whose U+0000 is at most its last character has no NUL before its
last byte. -/
theorem nul_mem_utf8_dropLast {s : JsString} (h : .char '\x00' ∉ s.dropLast) :
    0 ∉ (utf8 s).dropLast := by
  unfold utf8
  rcases List.eq_nil_or_concat s with rfl | ⟨cs, c, rfl⟩
  · simp
  · rw [List.concat_eq_append, List.dropLast_concat] at *
    have hne : c.utf8 ≠ [] := by
      cases c with
      | char c => exact String.utf8EncodeChar_ne_nil
      | surrogate n => exact List.cons_ne_nil _ _
    rw [List.flatMap_append, List.flatMap_singleton, List.dropLast_append_of_ne_nil hne,
      List.mem_append]
    rintro (hin | hin)
    · obtain ⟨d, hd, hmem⟩ := List.mem_flatMap.mp hin
      exact h (nul_mem_utf8 hmem ▸ hd)
    · rw [nul_mem_utf8 (List.dropLast_subset _ hin)] at hin
      exact absurd hin (by decide)

/-! ## What the engine tells of a value -/

/-- A header value: a string, or another value with the text that `ToString`
makes of it, if it makes one. -/
inductive HeaderValue
  | string (s : JsString)
  | other (text : Option JsString)
  deriving DecidableEq, Repr

def HeaderValue.text : HeaderValue → Option JsString
  | .string s => some s
  | .other text => text

/-- What `JSON.stringify` makes of an object. -/
inductive Json
  | text (s : JsString)
  | undefined
  | exception
  deriving DecidableEq, Repr

inductive BodyValue
  | string (s : JsString)
  | object (json : Json)
  | other
  deriving DecidableEq, Repr

/-- The argument of the callback: its `statusCode` when that is a number, as an
int32, its `headers` when that is an object, as the enumerable names and values
in the order of the engine, and its `body`. -/
structure HandlerResult where
  statusCode : Option (BitVec 32)
  headers : Option (List (JsString × HeaderValue))
  body : BodyValue
  deriving DecidableEq, Repr

/-! ## The callback -/

/-- One row of `header_names` and `header_values`. -/
def Response.setHeader (r : Response) (i : Nat) (name value : Bytes) : Response :=
  { r with
    headerNames := r.headerNames.set i (some name),
    headerValues := r.headerValues.set i (some value) }

/-- How a runtime stores a header. `none` is a read through a null pointer. -/
abbrev StoreHeader := Response → Nat → JsString → HeaderValue → Option Response

/-- The loop over the headers. -/
def storeHeaders (store : StoreHeader) (r : Response) (i : Nat) :
    List (JsString × HeaderValue) → Option Response
  | [] => some r
  | (name, value) :: rest => do
    let r ← store r i name value
    storeHeaders store r (i + 1) rest

/-- The status and the headers, of which there is room for 16. -/
def storeHead (store : StoreHeader) (v : HandlerResult) (r : Response) : Option Response :=
  let r := { r with statusCode := v.statusCode.getD 200 }
  match v.headers with
  | none => some r
  | some props =>
    let num := min props.length ISERE_HTTPD_MAX_HTTP_HEADERS
    storeHeaders store { r with numHeaderFields := num } 0 (props.take num)

/-- The body that the two callbacks share. Without an argument they throw. -/
def handlerCbWith (store : StoreHeader) (storeBody : Response → BodyValue → Response)
    (args : List HandlerResult) (r : Response) : Option Response :=
  match args with
  | [] => some r
  | v :: _ => do
    let r ← storeHead store v r
    some { storeBody r v.body with completed := true }

end isere.httpd

namespace isere.quickjs

open cstring httpd

/-- Both texts go through `JS_ToCStringLen` and `strdup`. -/
def storeHeader : StoreHeader := fun r i name value => do
  let text ← value.text
  some (r.setHeader i (strdup (utf8 name)) (strdup (utf8 text)))

/-- What `JS_ToCStringLen` gives for the body. An object without a JSON text is
`undefined` there. -/
def bodyText : BodyValue → Option JsString
  | .string s => some s
  | .object (.text s) => some s
  | .object .undefined => some (js "undefined")
  | .object .exception => none
  | .other => none

def storeBody (r : Response) (body : BodyValue) : Response :=
  match bodyText body with
  | some s => { r with bodyLen := (utf8 s).length, body := some (strdup (utf8 s)) }
  | none => r

/-- `__handler_cb`. -/
def handlerCb : List HandlerResult → Response → Option Response :=
  handlerCbWith storeHeader storeBody

end isere.quickjs

namespace isere.jerryscript

open cstring httpd

/-- Both texts are copied whole, with a NUL after them. A header whose value is
no string keeps its null pointers. -/
def storeHeader : StoreHeader := fun r i name value =>
  match value with
  | .string text => some (r.setHeader i (utf8 name ++ [0]) (utf8 text ++ [0]))
  | .other _ => some r

/-- The text that is copied to `body_str`. `jerry_string_size` is 0 for a value
that is no string. -/
def bodyText : BodyValue → Option JsString
  | .string s => some s
  | .object (.text s) => some s
  | .object .undefined => some []
  | .object .exception => some []
  | .other => none

/-- A body of another kind leaves one byte, which is not set, and no length. -/
def storeBody (r : Response) (body : BodyValue) : Response :=
  match bodyText body with
  | some s => { r with bodyLen := (utf8 s).length, body := some (strdup (utf8 s ++ [0])) }
  | none => { r with body := some [0] }

/-- `__handler_cb`. -/
def handlerCb : List HandlerResult → Response → Option Response :=
  handlerCbWith storeHeader storeBody

end isere.jerryscript

namespace isere.httpd

inductive Runtime
  | quickjs
  | jerryscript
  deriving DecidableEq, Repr

def Runtime.handlerCb : Runtime → List HandlerResult → Response → Option Response
  | .quickjs => quickjs.handlerCb
  | .jerryscript => jerryscript.handlerCb

def Runtime.bodyText : Runtime → BodyValue → Option JsString
  | .quickjs => quickjs.bodyText
  | .jerryscript => jerryscript.bodyText

end isere.httpd
