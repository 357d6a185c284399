-- The callbacks of the two runtimes against each other: the response that a
-- value leaves under QuickJS and under JerryScript, and when it is the same.
import Isere.WireFormat

open cstring

namespace isere.httpd

/-! ## What a response holds -/

/-- The texts at the two pointers of a row, if they lead to strings. -/
def Response.headerText (r : Response) (i : Nat) : Option Bytes × Option Bytes :=
  (readString r.headerNames[i]?.join, readString r.headerValues[i]?.join)

/-- What a response holds for the writeback: its status, its headers in their
order, and its body up to `body_len`. -/
structure Held where
  statusCode : BitVec 32
  numHeaderFields : Nat
  headers : List (Option Bytes × Option Bytes)
  body : Bytes
  bodyLen : Nat
  deriving DecidableEq, Repr

def Response.held (r : Response) : Held where
  statusCode := r.statusCode
  numHeaderFields := r.numHeaderFields
  headers := (List.range r.numHeaderFields).map r.headerText
  body := (r.body.getD []).take r.bodyLen
  bodyLen := r.bodyLen

/-- Both callbacks leave a response for the value, and it holds the same. -/
def SameResponse (v : HandlerResult) : Prop :=
  ∃ r r', quickjs.handlerCb [v] Response.initial = some r ∧
    jerryscript.handlerCb [v] Response.initial = some r' ∧ r.held = r'.held

/-! ## One row of the headers -/

/-- A store changes nothing but its own row. -/
def OneRow (store : StoreHeader) : Prop :=
  ∀ r i name value r', store r i name value = some r' →
    (∀ j, j ≠ i → r'.headerText j = r.headerText j) ∧
      r'.numHeaderFields = r.numHeaderFields ∧ r'.headerValues.length = r.headerValues.length ∧
      r'.body = r.body ∧ r'.bodyLen = r.bodyLen

theorem setHeader_other (r : Response) {i j : Nat} (h : j ≠ i) (name value : Bytes) :
    (r.setHeader i name value).headerText j = r.headerText j := by
  simp [Response.headerText, Response.setHeader, List.getElem?_set_ne (Ne.symm h)]

theorem quickjs_oneRow : OneRow quickjs.storeHeader := by
  intro r i name value r' h
  unfold quickjs.storeHeader at h
  simp only [Option.bind_eq_bind, Option.bind_eq_some_iff, Option.some.injEq] at h
  obtain ⟨text, -, rfl⟩ := h
  refine ⟨fun j hj => setHeader_other r hj _ _, rfl, ?_, rfl, rfl⟩
  exact List.length_set

theorem jerryscript_oneRow : OneRow jerryscript.storeHeader := by
  intro r i name value r' h
  cases value with
  | string text =>
    cases h
    refine ⟨fun j hj => setHeader_other r hj _ _, rfl, ?_, rfl, rfl⟩
    exact List.length_set
  | other text =>
    cases h
    exact ⟨fun _ _ => rfl, rfl, rfl, rfl, rfl⟩

/-- The loop leaves the rows before its own, and the rest of the response. -/
theorem storeHeaders_rest {store : StoreHeader} (hs : OneRow store)
    {hds : List (JsString × HeaderValue)} {r r' : Response} {i : Nat}
    (h : storeHeaders store r i hds = some r') :
    (∀ j < i, r'.headerText j = r.headerText j) ∧ r'.numHeaderFields = r.numHeaderFields ∧
      r'.headerValues.length = r.headerValues.length ∧ r'.body = r.body ∧
      r'.bodyLen = r.bodyLen := by
  induction hds generalizing r i with
  | nil =>
    cases h
    exact ⟨fun _ _ => rfl, rfl, rfl, rfl, rfl⟩
  | cons hd hds ih =>
    obtain ⟨name, value⟩ := hd
    simp only [storeHeaders, Option.bind_eq_bind, Option.bind_eq_some_iff] at h
    obtain ⟨r1, h1, h2⟩ := h
    obtain ⟨hrows, hnum, hlen, hbody, hblen⟩ := hs r i name value r1 h1
    obtain ⟨irows, inum, ilen, ibody, iblen⟩ := ih h2
    refine ⟨fun j hj => ?_, inum.trans hnum, ilen.trans hlen, ibody.trans hbody,
      iblen.trans hblen⟩
    rw [irows j (Nat.lt_succ_of_lt hj), hrows j (Nat.ne_of_lt hj)]

/-- The row of a header is what its own store makes of the row before. -/
theorem storeHeaders_row {store : StoreHeader} (hs : OneRow store)
    {hds : List (JsString × HeaderValue)} {r r' : Response} {i : Nat}
    (h : storeHeaders store r i hds = some r') {k : Nat} {hd : JsString × HeaderValue}
    (hk : hds[k]? = some hd) :
    ∃ r0 r1, store r0 (i + k) hd.1 hd.2 = some r1 ∧
      r0.headerText (i + k) = r.headerText (i + k) ∧
      r0.headerValues.length = r.headerValues.length ∧
      r'.headerText (i + k) = r1.headerText (i + k) := by
  induction hds generalizing r i k with
  | nil => simp at hk
  | cons hd' hds ih =>
    obtain ⟨name, value⟩ := hd'
    simp only [storeHeaders, Option.bind_eq_bind, Option.bind_eq_some_iff] at h
    obtain ⟨r1, h1, h2⟩ := h
    cases k with
    | zero =>
      cases hk
      exact ⟨r, r1, h1, rfl, rfl, (storeHeaders_rest hs h2).1 i (Nat.lt_succ_self i)⟩
    | succ k =>
      have hrow : i + (k + 1) = i + 1 + k := by omega
      obtain ⟨ra, rb, hstore, hbefore, hlen, hafter⟩ := ih h2 hk
      obtain ⟨hrows, -, hlen1, -, -⟩ := hs r i name value r1 h1
      rw [hrow]
      refine ⟨ra, rb, hstore, ?_, hlen.trans hlen1, hafter⟩
      rw [hbefore, hrows _ (by omega)]

/-! ## The head of the response -/

/-- The headers that the rows have room for. -/
def HandlerResult.firstHeaders (v : HandlerResult) : List (JsString × HeaderValue) :=
  (v.headers.getD []).take ISERE_HTTPD_MAX_HTTP_HEADERS

def HeaderValue.isString : HeaderValue → Bool
  | .string _ => true
  | .other _ => false

/-- The head of the response is the loop over the first headers. -/
theorem storeHead_eq (store : StoreHeader) (v : HandlerResult) :
    storeHead store v Response.initial =
      storeHeaders store { Response.initial with
        statusCode := v.statusCode.getD 200,
        numHeaderFields := v.firstHeaders.length } 0 v.firstHeaders := by
  unfold storeHead HandlerResult.firstHeaders
  cases v.headers with
  | none => rfl
  | some props =>
    have hlen : (props.take ISERE_HTTPD_MAX_HTTP_HEADERS).length =
        min props.length ISERE_HTTPD_MAX_HTTP_HEADERS := by
      rw [List.length_take, Nat.min_comm]
    have htake : props.take (min props.length ISERE_HTTPD_MAX_HTTP_HEADERS) =
        props.take ISERE_HTTPD_MAX_HTTP_HEADERS := by
      rw [Nat.min_comm, ← List.take_eq_take_min]
    simp only [Option.getD_some, hlen, htake]

/-- The head leaves no body, and counts every first header. -/
theorem storeHead_rest {store : StoreHeader} (hs : OneRow store) {v : HandlerResult} {r : Response}
    (h : storeHead store v Response.initial = some r) :
    r.numHeaderFields = v.firstHeaders.length ∧ r.body = none ∧ r.bodyLen = 0 := by
  rw [storeHead_eq] at h
  obtain ⟨-, hnum, -, hbody, hblen⟩ := storeHeaders_rest hs h
  exact ⟨hnum, hbody, hblen⟩

/-- The row of a first header is what its own store makes of an empty row. -/
theorem storeHead_row {store : StoreHeader} (hs : OneRow store) {v : HandlerResult} {r : Response}
    (h : storeHead store v Response.initial = some r) {k : Nat} {hd : JsString × HeaderValue}
    (hk : v.firstHeaders[k]? = some hd) :
    ∃ r0 r1, store r0 k hd.1 hd.2 = some r1 ∧ r0.headerText k = (none, none) ∧
      r0.headerValues.length = 16 ∧ r.headerText k = r1.headerText k := by
  rw [storeHead_eq] at h
  obtain ⟨r0, r1, hstore, hbefore, hlen, hafter⟩ := storeHeaders_row hs h hk
  rw [Nat.zero_add] at hstore hbefore hafter
  refine ⟨r0, r1, hstore, ?_, hlen, hafter⟩
  rw [hbefore]
  unfold Response.headerText Response.initial
  simp only [List.getElem?_replicate]
  split <;> rfl

/-- The value with its first headers only. -/
def HandlerResult.kept (v : HandlerResult) : HandlerResult :=
  { v with headers := some v.firstHeaders }

/-- A callback does not tell a value from the one with its first headers. -/
theorem handlerCb_kept (rt : Runtime) (v : HandlerResult) :
    rt.handlerCb [v] Response.initial = rt.handlerCb [v.kept] Response.initial := by
  have hfirst : v.kept.firstHeaders = v.firstHeaders := by
    simp [HandlerResult.kept, HandlerResult.firstHeaders, List.take_take]
  have hhead : ∀ store, storeHead store v Response.initial =
      storeHead store v.kept Response.initial := by
    intro store
    rw [storeHead_eq, storeHead_eq, hfirst]
    rfl
  have hwith : ∀ store storeBody, handlerCbWith store storeBody [v] Response.initial =
      handlerCbWith store storeBody [v.kept] Response.initial := by
    intro store storeBody
    simp only [handlerCbWith]
    rw [hhead]
    rfl
  cases rt with
  | quickjs => exact hwith _ _
  | jerryscript => exact hwith _ _

/-! ## The body -/

/-- The bytes of a body and its length, for the text that a runtime takes. -/
def bodyHeld : Option JsString → Bytes × Nat
  | some s => ((strdup (utf8 s)).take (utf8 s).length, (utf8 s).length)
  | none => ([], 0)

/-- What a callback leaves is its head, with the body of its runtime. -/
theorem handlerCb_held (rt : Runtime) {v : HandlerResult} {r : Response}
    (h : rt.handlerCb [v] Response.initial = some r) :
    ((r.body.getD []).take r.bodyLen, r.bodyLen) = bodyHeld (rt.bodyText v.body) := by
  cases hs : rt.bodyText v.body with
  | some s =>
    obtain ⟨hbody, hlen⟩ := handlerCb_body rt hs h
    rw [hbody, hlen]
    rfl
  | none =>
    cases rt with
    | quickjs =>
      unfold Runtime.handlerCb quickjs.handlerCb handlerCbWith at h
      simp only [Option.bind_eq_bind, Option.bind_eq_some_iff, Option.some.injEq] at h
      obtain ⟨r0, h0, rfl⟩ := h
      obtain ⟨-, hbody, hlen⟩ := storeHead_rest quickjs_oneRow h0
      unfold Runtime.bodyText at hs
      simp [quickjs.storeBody, hs, hbody, hlen, bodyHeld]
    | jerryscript =>
      unfold Runtime.handlerCb jerryscript.handlerCb handlerCbWith at h
      simp only [Option.bind_eq_bind, Option.bind_eq_some_iff, Option.some.injEq] at h
      obtain ⟨r0, h0, rfl⟩ := h
      obtain ⟨-, -, hlen⟩ := storeHead_rest jerryscript_oneRow h0
      unfold Runtime.bodyText at hs
      simp [jerryscript.storeBody, hs, hlen, bodyHeld]

/-- The two runtimes take the same body, but for an object that has no JSON
text: QuickJS makes the text `undefined` of it. -/
theorem bodyHeld_eq_iff (body : BodyValue) :
    bodyHeld (quickjs.bodyText body) = bodyHeld (jerryscript.bodyText body) ↔
      body ≠ .object .undefined := by
  cases body with
  | string s => simp [quickjs.bodyText, jerryscript.bodyText]
  | other => simp [quickjs.bodyText, jerryscript.bodyText]
  | object json =>
    cases json with
    | text s => simp [quickjs.bodyText, jerryscript.bodyText]
    | exception => simp [quickjs.bodyText, jerryscript.bodyText, bodyHeld, utf8]
    | undefined =>
      have hlen : (utf8 (js "undefined")).length ≠ (utf8 []).length := by decide +kernel
      refine ⟨fun h => absurd (congrArg Prod.snd h) hlen, fun h => absurd rfl h⟩

/-! ## The same headers -/

theorem held_headers {r : Response} {ps : List (JsString × JsString)} (h : StoresHeaders r ps) :
    (List.range r.numHeaderFields).map r.headerText =
      ps.map (fun p => (some (stored p.1), some (stored p.2))) := by
  obtain ⟨hnum, hrows⟩ := h
  apply List.ext_getElem
  · simp [hnum]
  · intro i hi hi'
    rw [List.length_map] at hi'
    obtain ⟨hname, hvalue⟩ := hrows i hi'
    simp [Response.headerText, hname, hvalue]

theorem strings_of_isString {hds : List (JsString × HeaderValue)}
    (h : ∀ hd ∈ hds, hd.2.isString) :
    ∃ ps : List (JsString × JsString), hds = ps.map (Prod.map id HeaderValue.string) := by
  induction hds with
  | nil => exact ⟨[], rfl⟩
  | cons hd hds ih =>
    obtain ⟨ps, rfl⟩ := ih (fun x hx => h x (List.mem_cons_of_mem _ hx))
    obtain ⟨name, value⟩ := hd
    have hvalue := h (name, value) List.mem_cons_self
    cases value with
    | string s => exact ⟨(name, s) :: ps, rfl⟩
    | other text => cases hvalue

/-- With strings for headers both callbacks leave a response with the same head. -/
theorem same_head {v : HandlerResult} (h : ∀ hd ∈ v.firstHeaders, hd.2.isString) :
    ∃ r r', quickjs.handlerCb [v] Response.initial = some r ∧
      jerryscript.handlerCb [v] Response.initial = some r' ∧ r.statusCode = r'.statusCode ∧
      r.numHeaderFields = r'.numHeaderFields ∧
      (List.range r.numHeaderFields).map r.headerText =
        (List.range r'.numHeaderFields).map r'.headerText := by
  obtain ⟨ps, hps⟩ := strings_of_isString h
  have hare : v.kept.HeadersAre ps := hps
  obtain ⟨r, hr, -, hcode, hstores⟩ := handlerCb_strings .quickjs hare
  obtain ⟨r', hr', -, hcode', hstores'⟩ := handlerCb_strings .jerryscript hare
  rw [← handlerCb_kept] at hr hr'
  refine ⟨r, r', hr, hr', hcode.trans hcode'.symm, hstores.1.trans hstores'.1.symm, ?_⟩
  rw [held_headers hstores, held_headers hstores']

/-- The head of a response that a callback leaves. -/
theorem handlerCb_head {store : StoreHeader} {storeBody : Response → BodyValue → Response}
    {v : HandlerResult} {r : Response} (hkeep : ∀ r b, (storeBody r b).headerText = r.headerText ∧
      (storeBody r b).numHeaderFields = r.numHeaderFields)
    (h : handlerCbWith store storeBody [v] Response.initial = some r) :
    ∃ r0, storeHead store v Response.initial = some r0 ∧ r.headerText = r0.headerText ∧
      r.numHeaderFields = r0.numHeaderFields := by
  unfold handlerCbWith at h
  simp only [Option.bind_eq_bind, Option.bind_eq_some_iff, Option.some.injEq] at h
  obtain ⟨r0, h0, rfl⟩ := h
  exact ⟨r0, h0, (hkeep r0 v.body).1, (hkeep r0 v.body).2⟩

/-- QuickJS makes a text of every header value that it gets through. -/
theorem quickjs_row {v : HandlerResult} {r : Response}
    (h : quickjs.handlerCb [v] Response.initial = some r) {k : Nat} {hd : JsString × HeaderValue}
    (hk : v.firstHeaders[k]? = some hd) : (r.headerText k).2 ≠ none := by
  obtain ⟨r0, h0, htext, -⟩ := handlerCb_head
    (fun r b => by unfold quickjs.storeBody; cases quickjs.bodyText b <;> exact ⟨rfl, rfl⟩) h
  obtain ⟨ra, rb, hstore, -, hlen, hrow⟩ := storeHead_row quickjs_oneRow h0 hk
  have hroom : k < 16 := by
    have hlt := (List.getElem?_eq_some_iff.mp hk).1
    exact lt_of_lt_of_le hlt (List.length_take_le _ _)
  unfold quickjs.storeHeader at hstore
  simp only [Option.bind_eq_bind, Option.bind_eq_some_iff, Option.some.injEq] at hstore
  obtain ⟨text, -, rfl⟩ := hstore
  rw [htext, hrow]
  simp [Response.headerText, Response.setHeader, hlen, hroom, readString, strdup]

/-- JerryScript counts a header that is no string, and leaves its row empty. -/
theorem jerryscript_row {v : HandlerResult} {r : Response}
    (h : jerryscript.handlerCb [v] Response.initial = some r) {k : Nat}
    {hd : JsString × HeaderValue} (hk : v.firstHeaders[k]? = some hd) (hstr : ¬ hd.2.isString) :
    k < r.numHeaderFields ∧ r.headerText k = (none, none) := by
  obtain ⟨r0, h0, htext, hnum⟩ := handlerCb_head
    (fun r b => by unfold jerryscript.storeBody; cases jerryscript.bodyText b <;> exact ⟨rfl, rfl⟩)
    h
  obtain ⟨ra, rb, hstore, hempty, -, hrow⟩ := storeHead_row jerryscript_oneRow h0 hk
  obtain ⟨name, value⟩ := hd
  cases value with
  | string s => exact absurd rfl hstr
  | other text =>
    cases hstore
    rw [hnum, (storeHead_rest jerryscript_oneRow h0).1, htext, hrow]
    exact ⟨(List.getElem?_eq_some_iff.mp hk).1, hempty⟩

/-! ## When the responses are the same -/

/-- The two callbacks leave the same response exactly for a value whose first
headers are strings, and whose body is no object without a JSON text. -/
theorem callbacks_leave_the_same_response_iff (v : HandlerResult) :
    SameResponse v ↔
      (∀ hd ∈ v.firstHeaders, hd.2.isString) ∧ v.body ≠ .object .undefined := by
  constructor
  · rintro ⟨r, r', hr, hr', hheld⟩
    simp only [Response.held, Held.mk.injEq] at hheld
    obtain ⟨-, hnum, hheaders, hbody, hlen⟩ := hheld
    constructor
    · intro hd hmem
      obtain ⟨k, hk⟩ := List.mem_iff_getElem?.mp hmem
      by_contra hstr
      obtain ⟨hlt, hempty⟩ := jerryscript_row hr' hk hstr
      have htext : r.headerText k = r'.headerText k := by
        have hget := congrArg (fun l => l[k]?) hheaders
        simpa [hlt, hnum] using hget
      exact quickjs_row hr hk (by rw [htext, hempty])
    · have hq := handlerCb_held .quickjs hr
      have hj := handlerCb_held .jerryscript hr'
      rw [hbody, hlen, hj] at hq
      exact (bodyHeld_eq_iff v.body).mp hq.symm
  · rintro ⟨hstr, hundef⟩
    obtain ⟨r, r', hr, hr', hcode, hnum, hheaders⟩ := same_head hstr
    have hbody := (bodyHeld_eq_iff v.body).mpr hundef
    have hq := handlerCb_held .quickjs hr
    have hj := handlerCb_held .jerryscript hr'
    have hsame := hq.trans (hbody.trans hj.symm)
    rw [Prod.mk.injEq] at hsame
    refine ⟨r, r', hr, hr', ?_⟩
    unfold Response.held
    rw [hcode, hnum, hsame.1, hsame.2]
    rw [hnum] at hheaders
    rw [hheaders]

/-- `cb({headers: {"x-n": 1}})`: QuickJS sends the header `x-n: 1`, and
JerryScript leaves a row of null pointers. -/
theorem number_header_differs :
    ¬ ∀ v : HandlerResult, SameResponse v := by
  intro h
  obtain ⟨r, r', hr, hr', hheld⟩ := h ⟨none, some [(js "x-n", .other (some (js "1")))], .other⟩
  cases hr
  cases hr'
  exact absurd hheld (by decide +kernel)

end isere.httpd
