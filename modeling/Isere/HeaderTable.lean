-- The headers of a request on their way to the handler: __http_handler copies
-- them into two arrays, and js_runtime_eval_handler walks both arrays to build
-- event.headers. A value that is empty or over 64 bytes is where they part.
import Mathlib.Data.List.Count
import Isere.PropList
import Isere.RequestBuffers
import Isere.Response

open cstring props

namespace isere.httpd

/-! ## The arrays of `__http_handler` -/

/-- The copy of one field of each header into the rows of an array. Both fields
are cut to the length of a name. -/
def copyRows (field : HttpdHeader → Bytes) : List Bytes → List HttpdHeader → List Bytes
  | row :: rest, h :: headers =>
    strncpy row 0 (field h) ISERE_HTTPD_MAX_HTTP_HEADER_NAME_LEN :: copyRows field rest headers
  | array, _ => array

/-- `header_names`, row after row. -/
def headerNames (headers : List HttpdHeader) : Bytes :=
  (copyRows (·.name) (List.replicate ISERE_HTTPD_MAX_HTTP_HEADERS
    (List.replicate ISERE_HTTPD_MAX_HTTP_HEADER_NAME_LEN 0)) headers).flatten

/-- `header_values`, row after row. -/
def headerValues (headers : List HttpdHeader) : Bytes :=
  (copyRows (·.value) (List.replicate ISERE_HTTPD_MAX_HTTP_HEADERS
    (List.replicate ISERE_HTTPD_MAX_HTTP_HEADER_VALUE_LEN 0)) headers).flatten

/-! ## The walk of `js_runtime_eval_handler` -/

/-- What the walk uses of a JavaScript engine: how it reads a C string, and the
names whose setter every object inherits, such as `__proto__`. To set a string
there changes nothing. -/
structure Engine (Str : Type) where
  newString : Bytes → Str
  setter : Str → Bool

variable {Str : Type} [DecidableEq Str]

/-- `JS_SetPropertyStr`, and `__add_key_value_to_object`, with a string. -/
def Engine.setProperty (E : Engine Str) (obj : List (Str × Str)) (name value : Bytes) :
    List (Str × Str) :=
  if E.setter (E.newString name) then obj
  else setProp (E.newString name) (E.newString value) obj

/-- `while (*(++p) != '\0'); while (*(++p) == '\0');`, or `none` when that reads
past the end of the array. -/
def nextString (p : Bytes) : Option Bytes :=
  let q := skipNuls (skipString p.tail).tail
  if q = [] then none else some q

/-- The loop over the headers, the same in both runtimes. It stops with `none`
when a pointer leaves its array. -/
def headersLoop (E : Engine Str) (headers : List (Str × Str)) :
    Nat → Bytes → Bytes → Option (List (Str × Str))
  | 0, _, _ => some headers
  | i + 1, name, value => do
    let field ← readString (some name)
    let text ← readString (some value)
    let headers := E.setProperty headers field text
    if i = 0 then some headers
    else do
      let name ← nextString name
      let value ← nextString value
      headersLoop E headers i name value

/-- The `headers` of the `event` object. -/
def eventHeaders (E : Engine Str) (headers : List HttpdHeader) : Option (List (Str × Str)) :=
  headersLoop E [] headers.length (headerNames headers) (headerValues headers)

/-! ## The table that the callbacks leave -/

structure HeaderPair where
  name : Bytes
  value : Bytes
  name_ne : name ≠ []
  name_lt : name.length < ISERE_HTTPD_MAX_HTTP_HEADER_NAME_LEN
  name_nul : 0 ∉ name
  value_lt : value.length < ISERE_HTTPD_MAX_HTTP_HEADER_VALUE_LEN
  value_nul : 0 ∉ value

/-- A pair in the buffers of a connection. -/
def HeaderPair.header (p : HeaderPair) : HttpdHeader where
  name := padded ISERE_HTTPD_MAX_HTTP_HEADER_NAME_LEN p.name
  value := padded ISERE_HTTPD_MAX_HTTP_HEADER_VALUE_LEN p.value

structure HeaderTable where
  pairs : List HeaderPair
  pairs_le : pairs.length ≤ ISERE_HTTPD_MAX_HTTP_HEADERS

def HeaderTable.headers (t : HeaderTable) : List HttpdHeader := t.pairs.map HeaderPair.header

/-- The object after each name was set to the whole of its value, in order. -/
def Engine.setHeaders (E : Engine Str) (o : List (Str × Str)) (ps : List (Bytes × Bytes)) :
    List (Str × Str) :=
  ps.foldl (fun o p => E.setProperty o p.1 p.2) o

/-- The bytes that a name keeps from its value: the first 64. -/
def keptValue (value : Bytes) : Bytes := value.take ISERE_HTTPD_MAX_HTTP_HEADER_NAME_LEN

/-- The properties that the names and values of a list make, in order. -/
def Engine.properties (E : Engine Str) (ps : List (Bytes × Bytes)) : List (Str × Bytes) :=
  (ps.filter (fun p => !E.setter (E.newString p.1))).map (Prod.map E.newString id)

def HeaderTable.entries (t : HeaderTable) : List (Bytes × Bytes) :=
  t.pairs.map (fun p => (p.name, p.value))

theorem copyRows_rows (field : HttpdHeader → Bytes) {n : Nat}
    (hn : ISERE_HTTPD_MAX_HTTP_HEADER_NAME_LEN ≤ n) (k : Nat) (headers : List HttpdHeader)
    (hk : headers.length ≤ k) :
    (copyRows field (List.replicate k (List.replicate n 0)) headers).flatten =
      rows n (headers.map (fun h => cstr (keptValue (field h))) ++
        List.replicate (k - headers.length) []) := by
  induction headers generalizing k with
  | nil =>
    cases k with
    | zero => rfl
    | succ k => simp [copyRows, rows, List.flatMap, padded]
  | cons h headers ih =>
    obtain ⟨k, rfl⟩ : ∃ j, k = j + 1 := ⟨k - 1, by simp only [List.length_cons] at hk; omega⟩
    have hk' : headers.length ≤ k := by simpa using hk
    have hrow : strncpy (List.replicate n 0) 0 (field h) ISERE_HTTPD_MAX_HTTP_HEADER_NAME_LEN =
        padded n (cstr (keptValue (field h))) := by
      have := strncpy_padded (n := n) (s := []) (field h)
        (k := ISERE_HTTPD_MAX_HTTP_HEADER_NAME_LEN) (by simpa using hn)
      simpa [padded, keptValue] using this
    rw [List.replicate_succ, copyRows, List.flatten_cons, ih k hk', hrow, List.map_cons,
      List.cons_append, rows_cons, List.length_cons, Nat.add_sub_add_right]

theorem headerNames_rows (t : HeaderTable) :
    headerNames t.headers = rows ISERE_HTTPD_MAX_HTTP_HEADER_NAME_LEN
      (t.entries.map Prod.fst ++
        List.replicate (ISERE_HTTPD_MAX_HTTP_HEADERS - t.pairs.length) []) := by
  unfold headerNames HeaderTable.headers HeaderTable.entries
  rw [copyRows_rows _ (Nat.le_refl _) _ _ (by simpa using t.pairs_le), List.map_map,
    List.map_map, List.length_map]
  congr 2
  apply List.map_congr_left
  intro p _
  simp only [Function.comp, HeaderPair.header, keptValue]
  rw [cstr_take, cstr_padded p.name_nul p.name_lt, List.take_of_length_le p.name_lt.le]

theorem headerValues_rows (t : HeaderTable) :
    headerValues t.headers = rows ISERE_HTTPD_MAX_HTTP_HEADER_VALUE_LEN
      (t.entries.map (fun p => keptValue p.2) ++
        List.replicate (ISERE_HTTPD_MAX_HTTP_HEADERS - t.pairs.length) []) := by
  unfold headerValues HeaderTable.headers HeaderTable.entries
  rw [copyRows_rows _ (by decide) _ _ (by simpa using t.pairs_le), List.map_map,
    List.map_map, List.length_map]
  congr 2
  apply List.map_congr_left
  intro p _
  simp only [Function.comp, HeaderPair.header, keptValue]
  rw [cstr_take, cstr_padded p.value_nul p.value_lt]

/-! ## The walk over rows -/

/-- A string that fits a row of an array, with its NUL. -/
def RowString (n : Nat) (s : Bytes) : Prop := 0 ∉ s ∧ s.length < n

theorem readString_row {n : Nat} {s : Bytes} (h : RowString n s) (rest : Bytes) :
    readString (some (padded n s ++ rest)) = some s := by
  unfold readString
  rw [padded_eq h.2, List.append_assoc, List.cons_append]
  simp [cstr_append_nul h.1]

/-- The pointer goes over the NULs of its row, and over the empty rows that
follow. -/
theorem nextString_row {n : Nat} (hn : 2 ≤ n) {s : Bytes} (h : RowString n s)
    {ss : List Bytes} (hs : ∀ s ∈ ss, RowString n s) :
    nextString (rows n (s :: ss)) =
      if ss.dropWhile List.isEmpty = [] then none
      else some (rows n (ss.dropWhile List.isEmpty)) := by
  have hskip : skipNuls (skipString (rows n (s :: ss)).tail).tail = skipNuls (rows n ss) := by
    rw [rows_cons]
    cases s with
    | nil =>
      obtain ⟨k, rfl⟩ : ∃ k, n = k + 2 := ⟨n - 2, by omega⟩
      exact skipNuls_replicate k _
    | cons b s =>
      have h0 : 0 ∉ s := fun hin => h.1 (List.mem_cons_of_mem _ hin)
      rw [padded_eq h.2, List.append_assoc, List.cons_append, List.cons_append,
        List.tail_cons, skipString_append h0, List.tail_cons, skipNuls_replicate]
  unfold nextString
  simp only [hskip, skipNuls_rows n (fun s hin => (hs s hin).1),
    rows_eq_nil_iff (show 0 < n by omega)]

theorem nextString_next {n : Nat} (hn : 2 ≤ n) {s t : Bytes} (h : RowString n s)
    {ss : List Bytes} (hs : ∀ s ∈ t :: ss, RowString n s) (ht : t ≠ []) :
    nextString (rows n (s :: t :: ss)) = some (rows n (t :: ss)) := by
  have hdrop : (t :: ss).dropWhile List.isEmpty = t :: ss :=
    List.dropWhile_cons_of_neg (by simpa using ht)
  rw [nextString_row hn h hs, hdrop, if_neg (List.cons_ne_nil _ _)]

theorem rowString_append {n : Nat} (hn : 2 ≤ n) {ss pad : List Bytes}
    (h : ∀ s ∈ ss, RowString n s) (hpad : ∀ s ∈ pad, s = []) : ∀ s ∈ ss ++ pad, RowString n s := by
  intro s hs
  rcases List.mem_append.mp hs with hs | hs
  · exact h s hs
  · rw [hpad s hs]
    exact ⟨List.not_mem_nil, by simp only [List.length_nil]; omega⟩

theorem headersLoop_step (E : Engine Str) {i : Nat} {name value name' value' f t : Bytes}
    (hf : readString (some name) = some f) (ht : readString (some value) = some t)
    (hn : nextString name = some name') (hv : nextString value = some value')
    (o : List (Str × Str)) :
    headersLoop E o (i + 2) name value =
      headersLoop E (E.setProperty o f t) (i + 1) name' value' := by
  rw [headersLoop]
  simp [hf, ht, hn, hv]

/-- Over rows whose later strings are not empty, the walk sets each name to the
string of its own row. -/
theorem headersLoop_rows (E : Engine Str) {n m : Nat} (hn : 2 ≤ n) (hm : 2 ≤ m)
    {pad : List Bytes} (hpad : ∀ s ∈ pad, s = []) (p : Bytes × Bytes) (ps : List (Bytes × Bytes))
    (hname : ∀ s ∈ (p :: ps).map Prod.fst, RowString n s)
    (hvalue : ∀ s ∈ (p :: ps).map Prod.snd, RowString m s)
    (hne : ∀ q ∈ ps, q.1 ≠ [] ∧ q.2 ≠ []) (o : List (Str × Str)) :
    headersLoop E o (p :: ps).length (rows n ((p :: ps).map Prod.fst ++ pad))
      (rows m ((p :: ps).map Prod.snd ++ pad)) = some (E.setHeaders o (p :: ps)) := by
  induction ps generalizing p o with
  | nil =>
    have h1 := readString_row (hname p.1 List.mem_cons_self) (rows n pad)
    have h2 := readString_row (hvalue p.2 List.mem_cons_self) (rows m pad)
    simp [headersLoop, rows_cons, h1, h2, Engine.setHeaders]
  | cons q ps ih =>
    have hq := hne q List.mem_cons_self
    have h1 := readString_row (hname p.1 List.mem_cons_self)
      (rows n ((q :: ps).map Prod.fst ++ pad))
    have h2 := readString_row (hvalue p.2 List.mem_cons_self)
      (rows m ((q :: ps).map Prod.snd ++ pad))
    have hname' : ∀ s ∈ (q :: ps).map Prod.fst, RowString n s :=
      fun s hs => hname s (List.mem_cons_of_mem _ hs)
    have hvalue' : ∀ s ∈ (q :: ps).map Prod.snd, RowString m s :=
      fun s hs => hvalue s (List.mem_cons_of_mem _ hs)
    have h3 := nextString_next hn (hname p.1 List.mem_cons_self)
      (rowString_append hn hname' hpad) hq.1
    have h4 := nextString_next hm (hvalue p.2 List.mem_cons_self)
      (rowString_append hm hvalue' hpad) hq.2
    have hrest := ih q hname' hvalue' (fun r hr => hne r (List.mem_cons_of_mem _ hr))
      (E.setProperty o p.1 p.2)
    exact (headersLoop_step E h1 h2 h3 h4 o).trans hrest

/-- How many strings of a list have a byte. -/
def nonEmpty (ss : List Bytes) : Nat := ss.countP (· ≠ [])

theorem nonEmpty_cons (s : Bytes) (ss : List Bytes) :
    nonEmpty (s :: ss) = nonEmpty ss + if s = [] then 0 else 1 := by
  unfold nonEmpty
  rw [List.countP_cons]
  by_cases h : s = [] <;> simp [h]

/-- The string that follows empty ones is the first that is counted. -/
theorem nonEmpty_dropWhile {ss ts : List Bytes} {t : Bytes}
    (h : ss.dropWhile List.isEmpty = t :: ts) : nonEmpty ss = nonEmpty ts + 1 := by
  induction ss with
  | nil => simp at h
  | cons s ss ih =>
    rw [nonEmpty_cons]
    cases s with
    | nil => exact ih h
    | cons b s =>
      rw [List.dropWhile_cons_of_neg (by simp), List.cons.injEq] at h
      rw [h.2, if_neg (List.cons_ne_nil b s)]

theorem nonEmpty_append {ss pad : List Bytes} (hpad : ∀ s ∈ pad, s = []) :
    nonEmpty (ss ++ pad) = nonEmpty ss := by
  have hzero : nonEmpty pad = 0 := List.countP_eq_zero.mpr (fun s hs => by simp [hpad s hs])
  unfold nonEmpty at *
  rw [List.countP_append, hzero, Nat.add_zero]

theorem nonEmpty_lt {ss : List Bytes} (h : [] ∈ ss) : nonEmpty ss < ss.length := by
  unfold nonEmpty
  rw [List.countP_lt_length_iff]
  exact ⟨[], h, rfl⟩

/-- Over fewer non-empty strings than the walk has steps left, the pointer
leaves its array. -/
theorem headersLoop_leaves (E : Engine Str) {m : Nat} (hm : 2 ≤ m) (i : Nat) {s : Bytes}
    {ss : List Bytes} (hs : ∀ t ∈ s :: ss, RowString m t) (hi : nonEmpty ss < i) (name : Bytes)
    (o : List (Str × Str)) : headersLoop E o (i + 1) name (rows m (s :: ss)) = none := by
  -- on the steps left: each of them uses up one string that is not empty
  induction i generalizing s ss name o with
  | zero => omega
  | succ i ih =>
    have hss : ∀ t ∈ ss, RowString m t := fun t ht => hs t (List.mem_cons_of_mem _ ht)
    have hnext := nextString_row hm (hs s List.mem_cons_self) hss
    rw [headersLoop]
    cases readString (some name) with
    | none => rfl
    | some field =>
      cases readString (some (rows m (s :: ss))) with
      | none => rfl
      | some text =>
        cases nextString name with
        | none => rfl
        | some name =>
          cases hdrop : ss.dropWhile List.isEmpty with
          | nil => simp [hnext, hdrop]
          | cons t ts =>
            have hcount := nonEmpty_dropWhile hdrop
            have hts : ∀ u ∈ t :: ts, RowString m u := fun u hu =>
              hss u ((List.dropWhile_sublist _).subset (hdrop ▸ hu))
            have hrest := ih hts (by omega) name (E.setProperty o field text)
            simp [hnext, hdrop, hrest]

/-! ## The object -/

theorem setHeaders_eq (E : Engine Str) (f : Bytes → Bytes) (ps : List (Bytes × Bytes))
    (o : List (Str × Str)) :
    E.setHeaders o (ps.map (Prod.map id f)) =
      setAll o ((E.properties ps).map (Prod.map id (fun v => E.newString (f v)))) := by
  induction ps generalizing o with
  | nil => rfl
  | cons p ps ih =>
    have hcons : E.setHeaders o ((p :: ps).map (Prod.map id f)) =
        E.setHeaders (E.setProperty o p.1 (f p.2)) (ps.map (Prod.map id f)) := rfl
    rw [hcons, ih]
    unfold Engine.setProperty Engine.properties
    by_cases h : E.setter (E.newString p.1) = true
    · simp [h]
    · simp [h]

theorem keptValue_eq_nil_iff (v : Bytes) : keptValue v = [] ↔ v = [] := by
  unfold keptValue
  rw [List.take_eq_nil_iff]
  simp [ISERE_HTTPD_MAX_HTTP_HEADER_NAME_LEN]

/-- The names and the kept values of a table fit their rows. -/
theorem HeaderTable.entry_rows (t : HeaderTable) {p : Bytes × Bytes} (hp : p ∈ t.entries) :
    p.1 ≠ [] ∧ RowString ISERE_HTTPD_MAX_HTTP_HEADER_NAME_LEN p.1 ∧
      RowString ISERE_HTTPD_MAX_HTTP_HEADER_VALUE_LEN (keptValue p.2) := by
  obtain ⟨q, -, rfl⟩ := List.mem_map.mp hp
  refine ⟨q.name_ne, ⟨q.name_nul, q.name_lt⟩, fun h => q.value_nul (List.mem_of_mem_take h), ?_⟩
  exact lt_of_le_of_lt (List.length_take_le _ _) (by decide)

/-- When every header after the first has a value, the walk sets the first 64
bytes of each value, and when one is empty, it leaves its array. -/
theorem eventHeaders_eq (E : Engine Str) (t : HeaderTable) :
    eventHeaders E t.headers =
      if ∀ p ∈ t.entries.tail, p.2 ≠ [] then
        some (E.setHeaders [] (t.entries.map (Prod.map id keptValue)))
      else none := by
  have hlen : t.headers.length = t.entries.length := by
    simp [HeaderTable.headers, HeaderTable.entries]
  have hrows := fun p hp => t.entry_rows (p := p) hp
  have hnames : t.entries.map Prod.fst = (t.entries.map (Prod.map id keptValue)).map Prod.fst := by
    simp
  have hvalues : t.entries.map (fun p => keptValue p.2) =
      (t.entries.map (Prod.map id keptValue)).map Prod.snd := by
    simp
  unfold eventHeaders
  rw [headerNames_rows, headerValues_rows, hlen, hnames, hvalues]
  generalize hpad : List.replicate (ISERE_HTTPD_MAX_HTTP_HEADERS - t.pairs.length) [] = pad
  have hpad' : ∀ s ∈ pad, s = [] := fun s hs => List.eq_of_mem_replicate (hpad ▸ hs)
  generalize t.entries = entries at hrows
  cases entries with
  | nil => rfl
  | cons p ps =>
    have hname : ∀ s ∈ ((p :: ps).map (Prod.map id keptValue)).map Prod.fst,
        RowString ISERE_HTTPD_MAX_HTTP_HEADER_NAME_LEN s := by
      intro s hs
      rw [List.map_map] at hs
      obtain ⟨q, hq, rfl⟩ := List.mem_map.mp hs
      exact (hrows q hq).2.1
    have hvalue : ∀ s ∈ ((p :: ps).map (Prod.map id keptValue)).map Prod.snd,
        RowString ISERE_HTTPD_MAX_HTTP_HEADER_VALUE_LEN s := by
      intro s hs
      rw [List.map_map] at hs
      obtain ⟨q, hq, rfl⟩ := List.mem_map.mp hs
      exact (hrows q hq).2.2
    by_cases h : ∀ q ∈ ps, q.2 ≠ []
    · have hne : ∀ q ∈ ps.map (Prod.map id keptValue), q.1 ≠ [] ∧ q.2 ≠ [] := by
        intro q hq
        obtain ⟨r, hr, rfl⟩ := List.mem_map.mp hq
        refine ⟨(hrows r (List.mem_cons_of_mem _ hr)).1, ?_⟩
        exact fun he => h r hr ((keptValue_eq_nil_iff _).mp he)
      rw [List.tail_cons, if_pos h]
      have hloop := headersLoop_rows E (by decide) (by decide) hpad' _ _ hname hvalue hne []
      simpa using hloop
    · have hshort : nonEmpty ((ps.map (Prod.map id keptValue)).map Prod.snd ++ pad) <
          ps.length := by
        push Not at h
        obtain ⟨q, hq, hempty⟩ := h
        have hmem : [] ∈ (ps.map (Prod.map id keptValue)).map Prod.snd := by
          rw [List.map_map]
          exact List.mem_map.mpr ⟨q, hq, (keptValue_eq_nil_iff q.2).mpr hempty⟩
        have hlt := nonEmpty_lt hmem
        rw [nonEmpty_append hpad']
        simpa using hlt
      rw [List.tail_cons, if_neg h]
      exact headersLoop_leaves E (by decide) _ (rowString_append (by decide) hvalue hpad')
        hshort _ _

/-- The object is the one that the headers ask for, and both pointers stay in
their arrays, just when no header after the first has an empty value, and the
last value of each name reads the same in its first 64 bytes. -/
theorem event_headers_hold_the_values_iff (E : Engine Str) (t : HeaderTable) :
    eventHeaders E t.headers = some (E.setHeaders [] t.entries) ↔
      (∀ p ∈ t.entries.tail, p.2 ≠ []) ∧
        ∀ k v, lastValue (E.properties t.entries) k = some v →
          E.newString (keptValue v) = E.newString v := by
  have hwhole : E.setHeaders [] t.entries =
      setAll [] ((E.properties t.entries).map (Prod.map id E.newString)) := by
    have := setHeaders_eq E id t.entries []
    simpa using this
  rw [eventHeaders_eq, hwhole, setHeaders_eq, ← setAll_eq_iff]
  by_cases h : ∀ p ∈ t.entries.tail, p.2 ≠ []
  · rw [if_pos h, Option.some.injEq, and_iff_right h]
  · rw [if_neg h]
    constructor
    · intro he
      cases he
    · rintro ⟨h', -⟩
      exact absurd h' h

/-! ## Two tables that part -/

/-- An engine whose strings are their bytes. -/
def byteEngine : Engine Bytes where
  newString := id
  setter := fun name => name = ascii "__proto__"

/-- A pair of the table, when its texts fit the buffers. -/
def HeaderPair.of (name value : Bytes)
    (h : name ≠ [] ∧ name.length < 64 ∧ 0 ∉ name ∧ value.length < 512 ∧ 0 ∉ value) :
    HeaderPair where
  name := name
  value := value
  name_ne := h.1
  name_lt := h.2.1
  name_nul := h.2.2.1
  value_lt := h.2.2.2.1
  value_nul := h.2.2.2.2

/-- `Host: a`, and then `Accept:` without a value. -/
def emptyAccept : HeaderTable where
  pairs := [.of (ascii "Host") (ascii "a") (by decide), .of (ascii "Accept") [] (by decide)]
  pairs_le := by decide

/-- `Cookie:` and 65 bytes. -/
def longCookie : HeaderTable where
  pairs := [.of (ascii "Cookie") (List.replicate 65 120) (by decide)]
  pairs_le := by decide

/-- An empty value sends the pointer past the array, and a long one is cut. -/
theorem an_empty_or_long_value_spoils_the_headers :
    eventHeaders byteEngine emptyAccept.headers = none ∧
      eventHeaders byteEngine longCookie.headers ≠
        some (byteEngine.setHeaders [] longCookie.entries) := by
  rw [eventHeaders_eq, eventHeaders_eq]
  decide +kernel

end isere.httpd
