-- What a client reads of a response that __handler_cb made: the lines of its
-- head, and the body up to the close of the connection.
import Mathlib.Data.List.Induction
import Isere.Crlf
import Isere.HandlerCb

open cstring crlf

namespace isere.httpd

/-! ## What the callback stores -/

/-- The bytes of a header text that the server writes: those before its first
U+0000. -/
def stored (s : JsString) : Bytes := cstr (utf8 s)

/-- The headers of a result are strings. -/
def HandlerResult.HeadersAre (v : HandlerResult) (ps : List (JsString × JsString)) : Prop :=
  v.headers.getD [] = ps.map (Prod.map id HeaderValue.string)

/-- A response with these headers in its first rows. -/
def StoresHeaders (r : Response) (ps : List (JsString × JsString)) : Prop :=
  r.numHeaderFields = ps.length ∧
    ∀ i (h : i < ps.length), readString (r.headerNames[i]?.join) = some (stored ps[i].1) ∧
      readString (r.headerValues[i]?.join) = some (stored ps[i].2)

/-- A store of strings writes one row, with a block for each text. -/
def Stores (store : StoreHeader) (block : JsString → Bytes) : Prop :=
  (∀ r i name text, store r i name (.string text) =
      some (r.setHeader i (block name) (block text))) ∧
    ∀ s, readString (some (block s)) = some (stored s)

theorem quickjs_stores : Stores quickjs.storeHeader (fun s => strdup (utf8 s)) := by
  refine ⟨fun r i name text => rfl, fun s => ?_⟩
  unfold readString strdup stored
  simp [cstr_append_nul (cstr_nul_free (utf8 s)) []]

theorem jerryscript_stores : Stores jerryscript.storeHeader (fun s => utf8 s ++ [0]) := by
  refine ⟨fun r i name text => rfl, fun s => ?_⟩
  unfold readString stored
  simp [cstr_append_nul_any]

/-- Rows that start at the one just set. -/
theorem set_row {l : List (Option Bytes)} (x : Option Bytes) (xs : List (Option Bytes)) (n : Nat)
    {i : Nat} (hi : i < l.length) :
    (l.set i x).take (i + 1) ++ xs ++ (l.set i x).drop (i + 1 + n) =
      l.take i ++ (x :: xs) ++ l.drop (i + (n + 1)) := by
  have htake : (l.set i x).take (i + 1) = l.take i ++ [x] := by
    rw [List.take_succ_eq_append_getElem (by simpa using hi), List.getElem_set_self,
      List.take_set_of_le (Nat.le_refl i)]
  have hdrop : (l.set i x).drop (i + 1 + n) = l.drop (i + (n + 1)) := by
    rw [List.drop_set_of_lt (by omega), Nat.add_assoc, Nat.add_comm 1 n]
  rw [htake, hdrop, List.append_assoc (l.take i), List.singleton_append]

/-- The loop fills one row for each header, from its row on. -/
theorem storeHeaders_strings {store : StoreHeader} {block : JsString → Bytes}
    (hs : Stores store block) (ps : List (JsString × JsString)) (r : Response) (i : Nat)
    (hn : i + ps.length ≤ r.headerNames.length) (hv : i + ps.length ≤ r.headerValues.length) :
    storeHeaders store r i (ps.map (Prod.map id HeaderValue.string)) =
      some { r with
        headerNames := r.headerNames.take i ++ ps.map (fun p => some (block p.1)) ++
          r.headerNames.drop (i + ps.length),
        headerValues := r.headerValues.take i ++ ps.map (fun p => some (block p.2)) ++
          r.headerValues.drop (i + ps.length) } := by
  induction ps generalizing r i with
  | nil => simp [storeHeaders]
  | cons p ps ih =>
    rw [List.length_cons] at hn hv
    have hrest := ih (r.setHeader i (block p.1) (block p.2)) (i + 1)
      (by simp [Response.setHeader]; omega) (by simp [Response.setHeader]; omega)
    rw [List.map_cons, storeHeaders, Prod.map_fst, Prod.map_snd, id, hs.1]
    simp only [Option.bind_eq_bind, Option.bind_some]
    rw [hrest]
    simp only [Response.setHeader, List.map_cons, List.length_cons,
      set_row _ _ _ (show i < r.headerNames.length by omega),
      set_row _ _ _ (show i < r.headerValues.length by omega)]

/-! ## The response that the callback leaves -/

/-- The rows that a runtime fills for its headers hold them. -/
theorem rows_hold {store : StoreHeader} {block : JsString → Bytes} (hs : Stores store block)
    {r : Response} {ps : List (JsString × JsString)} (hnum : r.numHeaderFields = ps.length)
    {rest rest' : List (Option Bytes)}
    (hn : r.headerNames = ps.map (fun p => some (block p.1)) ++ rest)
    (hv : r.headerValues = ps.map (fun p => some (block p.2)) ++ rest') : StoresHeaders r ps := by
  refine ⟨hnum, fun i hi => ?_⟩
  rw [hn, hv, List.getElem?_append_left (by simpa using hi),
    List.getElem?_append_left (by simpa using hi)]
  simp [hi, hs.2]

/-- The rows have room for the first 16 headers. -/
def keptHeaders (ps : List (JsString × JsString)) : List (JsString × JsString) :=
  ps.take ISERE_HTTPD_MAX_HTTP_HEADERS

theorem storeHead_strings {store : StoreHeader} {block : JsString → Bytes} (hs : Stores store block)
    {v : HandlerResult} {ps : List (JsString × JsString)} (hv : v.HeadersAre ps) :
    ∃ r, storeHead store v Response.initial = some r ∧
      r.statusCode = v.statusCode.getD 200 ∧ StoresHeaders r (keptHeaders ps) := by
  unfold HandlerResult.HeadersAre at hv
  unfold storeHead
  cases hheaders : v.headers with
  | none =>
    rw [hheaders, Option.getD_none, eq_comm, List.map_eq_nil_iff] at hv
    subst hv
    exact ⟨_, rfl, rfl, rows_hold hs rfl rfl rfl⟩
  | some props =>
    rw [hheaders, Option.getD_some] at hv
    subst hv
    have hnum : min (ps.map (Prod.map id HeaderValue.string)).length ISERE_HTTPD_MAX_HTTP_HEADERS =
        (keptHeaders ps).length := by
      rw [List.length_map, keptHeaders, List.length_take, Nat.min_comm]
    have htake : (ps.map (Prod.map id HeaderValue.string)).take (keptHeaders ps).length =
        (keptHeaders ps).map (Prod.map id HeaderValue.string) := by
      rw [← List.map_take, keptHeaders, List.length_take, ← List.take_eq_take_min]
    have hroom : 0 + (keptHeaders ps).length ≤ 16 := by
      rw [Nat.zero_add]
      exact List.length_take_le _ _
    simp only [hnum, htake]
    rw [storeHeaders_strings hs (keptHeaders ps) _ 0 (by simpa [Response.initial] using hroom)
      (by simpa [Response.initial] using hroom)]
    exact ⟨_, rfl, rfl, rows_hold hs rfl (by simp; rfl) (by simp; rfl)⟩

/-- With string headers, either callback stores them, and the status. -/
theorem handlerCb_strings (rt : Runtime) {v : HandlerResult} {ps : List (JsString × JsString)}
    (hv : v.HeadersAre ps) :
    ∃ r, rt.handlerCb [v] Response.initial = some r ∧ r.completed = true ∧
      r.statusCode = v.statusCode.getD 200 ∧ StoresHeaders r (keptHeaders ps) := by
  cases rt with
  | quickjs =>
    obtain ⟨r, hr, hcode, hstores⟩ := storeHead_strings quickjs_stores hv
    refine ⟨{ quickjs.storeBody r v.body with completed := true }, ?_, rfl, ?_, ?_⟩
    · simp [Runtime.handlerCb, quickjs.handlerCb, handlerCbWith, hr]
    · unfold quickjs.storeBody
      cases quickjs.bodyText v.body <;> exact hcode
    · unfold quickjs.storeBody
      cases quickjs.bodyText v.body <;> exact hstores
  | jerryscript =>
    obtain ⟨r, hr, hcode, hstores⟩ := storeHead_strings jerryscript_stores hv
    refine ⟨{ jerryscript.storeBody r v.body with completed := true }, ?_, rfl, ?_, ?_⟩
    · simp [Runtime.handlerCb, jerryscript.handlerCb, handlerCbWith, hr]
    · unfold jerryscript.storeBody
      cases jerryscript.bodyText v.body <;> exact hcode
    · unfold jerryscript.storeBody
      cases jerryscript.bodyText v.body <;> exact hstores

/-- Either callback stores a copy of the body up to its first U+0000, and the
length of the whole of it. -/
theorem handlerCb_body (rt : Runtime) {v : HandlerResult} {s : JsString}
    (hs : rt.bodyText v.body = some s) {r r' : Response} (h : rt.handlerCb [v] r = some r') :
    r'.body = some (strdup (utf8 s)) ∧ r'.bodyLen = (utf8 s).length := by
  cases rt with
  | quickjs =>
    unfold Runtime.handlerCb quickjs.handlerCb handlerCbWith at h
    simp only [Option.bind_eq_bind, Option.bind_eq_some_iff, Option.some.injEq] at h
    obtain ⟨r0, -, rfl⟩ := h
    unfold Runtime.bodyText at hs
    simp [quickjs.storeBody, hs]
  | jerryscript =>
    unfold Runtime.handlerCb jerryscript.handlerCb handlerCbWith at h
    simp only [Option.bind_eq_bind, Option.bind_eq_some_iff, Option.some.injEq] at h
    obtain ⟨r0, -, rfl⟩ := h
    unfold Runtime.bodyText at hs
    simp [jerryscript.storeBody, hs, strdup, cstr_append_nul_any]

/-! ## The head on the wire -/

/-- The lines of the head: the status, the headers, and the two lines of the
server. -/
def sentLines (status : Bytes) (ps : List (JsString × JsString)) : List Bytes :=
  [ascii "HTTP/1.1 " ++ status] ++
    ps.map (fun p => stored p.1 ++ ascii ": " ++ stored p.2) ++
      [ascii "Server: isere", ascii "Connection: close"]

/-- A loop over the indices of a list, which yields its entries. -/
theorem mapM_range {α : Type} (f : Nat → Option α) (xs : List α)
    (h : ∀ i (hi : i < xs.length), f i = some xs[i]) :
    (List.range xs.length).mapM f = some xs := by
  induction xs using List.reverseRecOn with
  | nil => rfl
  | append_singleton xs x ih =>
    have hxs : (List.range xs.length).mapM f = some xs := by
      apply ih
      intro i hi
      rw [h i (by simp; omega), List.getElem_append_left hi]
    have hx : f xs.length = some x := by simpa using h xs.length (by simp)
    simp [List.range_succ, List.mapM_append, hxs, hx]

/-- The four writes of a stored header. -/
def headerLine (p : JsString × JsString) : List Bytes :=
  [stored p.1, ascii ": ", stored p.2, ascii "\r\n"]

theorem headerWrites_stored {r : Response} {ps : List (JsString × JsString)}
    (h : StoresHeaders r ps) :
    (List.range r.numHeaderFields).mapM (headerWrites r) = some (ps.map headerLine) := by
  have hrange := mapM_range (headerWrites r) (ps.map headerLine) (fun i hi => by
    rw [List.length_map] at hi
    unfold headerWrites
    rw [(h.2 i hi).1, (h.2 i hi).2, List.getElem_map]
    rfl)
  rw [List.length_map] at hrange
  rw [h.1, hrange]

theorem headerLines_text (ps : List (JsString × JsString)) :
    (ps.map headerLine).flatten.flatten =
      (ps.map (fun p => stored p.1 ++ ascii ": " ++ stored p.2)).flatMap (· ++ lineEnd) := by
  induction ps with
  | nil => rfl
  | cons p ps ih =>
    have hend : ascii "\r\n" = lineEnd := by decide
    rw [List.map_cons, List.flatten_cons, List.flatten_append, ih, List.map_cons,
      List.flatMap_cons]
    simp [headerLine, hend]

/-- When the digits of the status can be read, the head is written. -/
theorem headWrites_lines {r : Response} {ps : List (JsString × JsString)} (h : StoresHeaders r ps)
    {status : Bytes}
    (hstatus : readBlock (statusBuffer (decimal r.statusCode.toInt))
      (decimal r.statusCode.toInt).length = some status) :
    ∃ head, headWrites r = some head ∧ head.flatten = writeHead (sentLines status ps) := by
  have hend : ascii "\r\n" = lineEnd := by decide
  have hserver : ascii "Server: isere\r\n" = ascii "Server: isere" ++ lineEnd := by decide
  have hclose : ascii "Connection: close\r\n" = ascii "Connection: close" ++ lineEnd := by decide
  unfold headWrites
  simp only [hstatus, headerWrites_stored h, Option.bind_eq_bind, Option.bind_some]
  refine ⟨_, rfl, ?_⟩
  unfold writeHead sentLines
  rw [List.flatten_append, List.flatten_append, headerLines_text, List.flatMap_append,
    List.flatMap_append, hend, hserver, hclose]
  simp

/-! ## The status -/

theorem digit_range {c : Char} (h : c.isDigit = true) :
    48 ≤ c.toNat.toUInt8 ∧ c.toNat.toUInt8 ≤ 57 := by
  have hc : 48 ≤ c.toNat ∧ c.toNat ≤ 57 := by
    simp only [Char.isDigit, Bool.and_eq_true, decide_eq_true_eq] at h
    exact h
  have hmod : c.toNat.toUInt8.toNat = c.toNat := by
    rw [Nat.toUInt8_eq, UInt8.toNat_ofNat']
    omega
  rw [UInt8.le_iff_toNat_le, UInt8.le_iff_toNat_le, hmod]
  exact hc

/-- The text of a number is made of digits and a minus. -/
theorem mem_decimal {n : Int} {b : UInt8} (hb : b ∈ decimal n) : b = 45 ∨ (48 ≤ b ∧ b ≤ 57) := by
  have hnat : ∀ m : Nat, ∀ c ∈ m.repr.toList, 48 ≤ c.toNat.toUInt8 ∧ c.toNat.toUInt8 ≤ 57 := by
    intro m c hc
    rw [Nat.toList_repr] at hc
    exact digit_range (Nat.isDigit_of_mem_toDigits (by decide) (by decide) hc)
  obtain ⟨c, hc, rfl⟩ := List.mem_map.mp hb
  rw [Int.toString_eq_repr, Int.repr_eq_if] at hc
  split at hc
  · exact Or.inr (hnat _ c hc)
  · rw [String.toList_append] at hc
    rcases List.mem_append.mp hc with hc | hc
    · have hminus : c = '-' := by simpa using hc
      rw [hminus]
      exact Or.inl (by decide)
    · exact Or.inr (hnat _ c hc)

/-- No digit ends a line. -/
theorem decimal_ne_cr (n : Int) : ∀ b ∈ decimal n, b ≠ 13 := by
  rintro b hb rfl
  exact absurd (mem_decimal hb) (by decide)

/-- Three digits are written as they are. -/
theorem status_of_three_digits {n : Nat} (h : 100 ≤ n) (h' : n < 1000) :
    readBlock (statusBuffer (decimal n)) (decimal n).length = some (decimal n) := by
  have hlen : (decimal n).length = 3 := by
    have hten : ∀ k, 0 < k → ((Nat.toDigits 10 n).length ≤ k ↔ n < 10 ^ k) :=
      fun k hk => Nat.length_toDigits_le_iff (by decide) hk
    have hle := (hten 3 (by decide)).mpr (by omega)
    have hlt := (hten 2 (by decide)).not.mpr (by omega)
    have heq : (decimal n).length = (Nat.toDigits 10 n).length := by
      unfold decimal ascii
      simp [Int.repr_eq_if]
    omega
  unfold readBlock statusBuffer
  rw [hlen, List.take_of_length_le (show (decimal n).length ≤ 3 by omega)]
  simp [hlen]

/-! ## The lines that a client reads -/

theorem headerLine_free_iff (a b : Bytes) :
    ¬ lineEnd <:+: a ++ ascii ": " ++ b ↔ ¬ lineEnd <:+: a ∧ ¬ lineEnd <:+: b := by
  have hsep : a ++ ascii ": " ++ b = a ++ 58 :: 32 :: b := by
    rw [show ascii ": " = [58, 32] by decide, List.append_assoc]
    rfl
  rw [hsep, lineEnd_infix_append (by decide) (by decide), lineEnd_infix_cons, not_or]
  simp

/-- The lines of a head are free of line ends just when the headers are. -/
theorem sentLines_free_iff {status : Bytes} (hs : ∀ b ∈ status, b ≠ 13)
    (ps : List (JsString × JsString)) :
    (∀ l ∈ sentLines status ps, ¬ lineEnd <:+: l) ↔
      ∀ p ∈ ps, ¬ lineEnd <:+: stored p.1 ∧ ¬ lineEnd <:+: stored p.2 := by
  have hfirst : ¬ lineEnd <:+: ascii "HTTP/1.1 " ++ status := by
    apply lineEnd_free
    intro b hb
    rcases List.mem_append.mp hb with hb | hb
    · have hversion : ∀ b ∈ ascii "HTTP/1.1 ", b ≠ 13 := by decide +kernel
      exact hversion b hb
    · exact hs b hb
  have hserver : ¬ lineEnd <:+: ascii "Server: isere" := lineEnd_free (by decide +kernel)
  have hclose : ¬ lineEnd <:+: ascii "Connection: close" := lineEnd_free (by decide +kernel)
  unfold sentLines
  simp only [List.forall_mem_append, List.forall_mem_cons, List.forall_mem_map, hfirst, hserver,
    hclose, headerLine_free_iff]
  simp

theorem sentLines_ne (status : Bytes) (ps : List (JsString × JsString)) :
    ∀ l ∈ sentLines status ps, l ≠ [] := by
  have hversion : ascii "HTTP/1.1 " ≠ [] := by decide
  have hsep : ascii ": " ≠ [] := by decide
  have hserver : ascii "Server: isere" ≠ [] := by decide
  have hclose : ascii "Connection: close" ≠ [] := by decide
  unfold sentLines
  simp only [List.forall_mem_append, List.forall_mem_cons, List.forall_mem_map]
  simp [hversion, hsep, hserver, hclose]

/-- The head is read as its status, its headers and the two lines of the
server, just when no stored name or value holds a CR LF. The bytes that follow
the head do not matter. -/
theorem the_head_splits_into_its_lines_iff (rt : Runtime) {v : HandlerResult}
    {ps : List (JsString × JsString)} (hv : v.HeadersAre ps) {n : Nat} (hn : 100 ≤ n ∧ n < 1000)
    (hcode : (v.statusCode.getD 200).toInt = n) :
    ∃ r head, rt.handlerCb [v] Response.initial = some r ∧ httpdWriteback r = .response r ∧
      headWrites r = some head ∧
      responseWrites r = (bodyWrite r).map (fun body => head ++ [body, ascii "\r\n\r\n"]) ∧
      ∀ rest, headLines (head.flatten ++ rest) = some (sentLines (decimal n) (keptHeaders ps)) ↔
        ∀ p ∈ keptHeaders ps, ¬ lineEnd <:+: stored p.1 ∧ ¬ lineEnd <:+: stored p.2 := by
  obtain ⟨r, hr, hcompleted, hstatus, hstores⟩ := handlerCb_strings rt hv
  have hdigits : r.statusCode.toInt = n := by rw [hstatus, hcode]
  obtain ⟨head, hhead, htext⟩ := headWrites_lines hstores
    (by rw [hdigits]; exact status_of_three_digits hn.1 hn.2)
  refine ⟨r, head, hr, ?_, hhead, ?_, ?_⟩
  · rw [httpdWriteback, if_pos hcompleted]
  · unfold responseWrites
    rw [hhead]
    cases bodyWrite r <;> rfl
  · intro rest
    rw [htext, headLines_writeHead_iff (sentLines_ne _ _), sentLines_free_iff (decimal_ne_cr n)]

/-- A result with one header, and a body. -/
def oneHeader (value body : String) : HandlerResult where
  statusCode := some 200
  headers := some [(js "X-Name", .string (js value))]
  body := .string (js body)

theorem a_plain_header_keeps_the_head :
    ∃ r head, Runtime.quickjs.handlerCb [oneHeader "a" "hi"] Response.initial = some r ∧
      httpdWriteback r = .response r ∧ headWrites r = some head ∧
      responseWrites r = (bodyWrite r).map (fun body => head ++ [body, ascii "\r\n\r\n"]) ∧
      ∀ rest, headLines (head.flatten ++ rest) =
          some (sentLines (decimal 200) (keptHeaders [(js "X-Name", js "a")])) ↔
        ∀ p ∈ keptHeaders [(js "X-Name", js "a")],
          ¬ lineEnd <:+: stored p.1 ∧ ¬ lineEnd <:+: stored p.2 :=
  the_head_splits_into_its_lines_iff .quickjs (v := oneHeader "a" "hi")
    (show (oneHeader "a" "hi").HeadersAre [(js "X-Name", js "a")] from rfl) (n := 200) (by decide)
    (by decide)

/-- What a client reads of a response: its lines, and the bytes after them. -/
def clientReads (rt : Runtime) (v : HandlerResult) : Option (List Bytes × Bytes) :=
  ((rt.handlerCb [v] Response.initial).bind responseWrites).bind
    (fun ws => readHead [] ws.flatten)

/-- A value with a CR LF in it adds a header line. -/
theorem a_header_value_adds_a_line :
    (clientReads .quickjs (oneHeader "a\r\nSet-Cookie: b=c" "hi")).map Prod.fst =
        some [ascii "HTTP/1.1 200", ascii "X-Name: a", ascii "Set-Cookie: b=c",
          ascii "Server: isere", ascii "Connection: close"] ∧
      (clientReads .quickjs (oneHeader "a\r\nSet-Cookie: b=c" "hi")).map Prod.fst ≠
        some (sentLines (ascii "200") [(js "X-Name", js "a\r\nSet-Cookie: b=c")]) ∧
      clientReads .jerryscript (oneHeader "a\r\nSet-Cookie: b=c" "hi") =
        clientReads .quickjs (oneHeader "a\r\nSet-Cookie: b=c" "hi") := by
  decide +kernel

/-! ## The body that a client reads -/

/-- The copy of a body begins with the whole of it, when no U+0000 is in it but
at its end. -/
theorem strdup_begins {b : Bytes} (h : 0 ∉ b.dropLast) : b <+: strdup b := by
  unfold strdup
  rcases List.eq_nil_or_concat b with rfl | ⟨d, c, rfl⟩
  · exact List.nil_prefix
  · rw [List.concat_eq_append, List.dropLast_concat] at *
    by_cases hc : c = 0
    · exact ⟨[], by rw [List.append_nil, hc, cstr_append_nul h]⟩
    · have hfree : 0 ∉ d ++ [c] := by
        rw [List.mem_append, List.mem_singleton]
        rintro (hd | he)
        · exact h hd
        · exact hc he.symm
      rw [cstr_of_nul_free hfree]
      exact List.prefix_append _ _

theorem bodyWrite_whole {r : Response} {b : Bytes} (h : 0 ∉ b.dropLast)
    (hb : r.body = some (strdup b)) (hlen : r.bodyLen = b.length) : bodyWrite r = some b := by
  have hbegins := strdup_begins h
  unfold bodyWrite readBlock
  rw [hb, hlen]
  by_cases hnil : b.length = 0
  · rw [if_pos hnil, List.length_eq_zero_iff.mp hnil]
  · rw [if_neg hnil, Option.bind_some, if_pos hbegins.length_le,
      ← List.prefix_iff_eq_take.mp hbegins]

end isere.httpd
