-- The request buffers of httpd_conn_t as they lie in memory, and the callbacks of
-- llhttp over that memory, with the size_t arithmetic of their boundary checks. No
-- sequence of callbacks writes outside a buffer or over its last NUL.
import Isere.HttpdSteps
import Isere.Regions
import Isere.RequestBuffers

open cstring regions runs

namespace isere.httpd

/-! ## The memory -/

/-- The width of `size_t`, which is 16 bits at least. -/
structure SizeT where
  width : Nat
  wide : 16 ≤ width

/-- `a - b` in `size_t`. -/
def SizeT.sub (sz : SizeT) (a b : Nat) : Nat :=
  (BitVec.ofNat sz.width a - BitVec.ofNat sz.width b).toNat

def methodBuffer : Region := ⟨0, ISERE_HTTPD_MAX_HTTP_METHOD_LEN⟩

def pathBuffer : Region := ⟨ISERE_HTTPD_MAX_HTTP_METHOD_LEN, ISERE_HTTPD_MAX_HTTP_PATH_LEN⟩

def bodyBuffer : Region :=
  ⟨ISERE_HTTPD_MAX_HTTP_METHOD_LEN + ISERE_HTTPD_MAX_HTTP_PATH_LEN, ISERE_HTTPD_MAX_HTTP_BODY_LEN⟩

/-- Where row `i` of `headers` is. -/
def headerRow (i : Nat) : Nat :=
  ISERE_HTTPD_MAX_HTTP_METHOD_LEN + ISERE_HTTPD_MAX_HTTP_PATH_LEN + ISERE_HTTPD_MAX_HTTP_BODY_LEN +
    i * (ISERE_HTTPD_MAX_HTTP_HEADER_NAME_LEN + ISERE_HTTPD_MAX_HTTP_HEADER_VALUE_LEN)

def nameBuffer (i : Nat) : Region := ⟨headerRow i, ISERE_HTTPD_MAX_HTTP_HEADER_NAME_LEN⟩

def valueBuffer (i : Nat) : Region :=
  ⟨headerRow i + ISERE_HTTPD_MAX_HTTP_HEADER_NAME_LEN, ISERE_HTTPD_MAX_HTTP_HEADER_VALUE_LEN⟩

/-- The request buffers. -/
def buffers : List Region :=
  methodBuffer :: pathBuffer :: bodyBuffer ::
    (List.range ISERE_HTTPD_MAX_HTTP_HEADERS).flatMap (fun i => [nameBuffer i, valueBuffer i])

/-- The memory from `method` on, and what else the callbacks write. After the rows of
`headers` comes whatever is there. -/
structure RequestMemory where
  bytes : Bytes
  urlPath : Option Nat
  urlQuery : Option Nat
  numHeaderFields : Nat
  numHeaderValues : Nat

/-- The memory right after the `memset` of `__on_connected`. -/
def RequestMemory.zero (after : Bytes) : RequestMemory where
  bytes := List.replicate (headerRow ISERE_HTTPD_MAX_HTTP_HEADERS) 0 ++ after
  urlPath := none
  urlQuery := none
  numHeaderFields := 0
  numHeaderValues := 0

/-- What a callback does that may go wrong: it takes `len` and 1 from `max`, or it
writes `n` bytes at `off`, all meant for one buffer. -/
inductive Effect
  | subtracted (max len : Nat)
  | wrote (b : Region) (off n : Nat)
  deriving DecidableEq, Repr

/-- The difference is no less than 0; the bytes lie in that buffer of the request. -/
def Effect.Ok : Effect → Prop
  | .subtracted max len => len + 1 ≤ max
  | .wrote b off n => b ∈ buffers ∧ b.Holds off n

/-! ## The callbacks -/

/-- What a callback returns: the memory, and what it did to it. -/
abbrev Returned := RequestMemory × List Effect

/-- The body that the data callbacks share, for the buffer `b`. -/
def RequestMemory.append (sz : SizeT) (m : RequestMemory) (b : Region) (at' : Bytes) : Returned :=
  let len := strlen (m.bytes.drop b.off)
  let available := sz.sub (sz.sub b.size len) 1
  let length := if at'.length > available then available else at'.length
  if length = 0 then (m, [.subtracted b.size len])
  else ({ m with bytes := strncpy m.bytes (b.off + len) at' length },
    [.subtracted b.size len, .wrote b (b.off + len) length])

/-- The NUL that the two completion callbacks of a header write. -/
def RequestMemory.terminate (m : RequestMemory) (b : Region) : Returned :=
  let len := strlen (m.bytes.drop b.off)
  ({ m with bytes := m.bytes.set (b.off + len) 0 }, [.wrote b (b.off + len) 1])

/-- `__on_method`. -/
def RequestMemory.onMethod (sz : SizeT) (m : RequestMemory) (at' : Bytes) : Returned :=
  m.append sz methodBuffer at'

/-- `__on_url`. -/
def RequestMemory.onUrl (sz : SizeT) (m : RequestMemory) (at' : Bytes) : Returned :=
  m.append sz pathBuffer at'

/-- `__on_url_complete`. The parser may write up to the NUL of the path. -/
def RequestMemory.onUrlComplete (y : Yuarel) (m : RequestMemory) : Returned :=
  let u := y.parse (pathBuffer.bytes m.bytes)
  ({ m with
      bytes := pathBuffer.replace m.bytes u.buf, urlPath := u.path, urlQuery := u.query },
    [.wrote pathBuffer pathBuffer.off (strlen (m.bytes.drop pathBuffer.off) + 1)])

/-- `__on_header_field`. -/
def RequestMemory.onHeaderField (sz : SizeT) (m : RequestMemory) (at' : Bytes) : Returned :=
  if m.numHeaderFields < ISERE_HTTPD_MAX_HTTP_HEADERS then
    m.append sz (nameBuffer m.numHeaderFields) at'
  else (m, [])

/-- `__on_header_field_complete`. -/
def RequestMemory.onHeaderFieldComplete (m : RequestMemory) : Returned :=
  if m.numHeaderFields < ISERE_HTTPD_MAX_HTTP_HEADERS then
    let r := m.terminate (nameBuffer m.numHeaderFields)
    ({ r.1 with numHeaderFields := m.numHeaderFields + 1 }, r.2)
  else (m, [])

/-- `__on_header_value`. -/
def RequestMemory.onHeaderValue (sz : SizeT) (m : RequestMemory) (at' : Bytes) : Returned :=
  if m.numHeaderValues < ISERE_HTTPD_MAX_HTTP_HEADERS then
    m.append sz (valueBuffer m.numHeaderValues) at'
  else (m, [])

/-- `__on_header_value_complete`. -/
def RequestMemory.onHeaderValueComplete (m : RequestMemory) : Returned :=
  if m.numHeaderValues < ISERE_HTTPD_MAX_HTTP_HEADERS then
    let r := m.terminate (valueBuffer m.numHeaderValues)
    ({ r.1 with numHeaderValues := m.numHeaderValues + 1 }, r.2)
  else (m, [])

/-- `__on_body`. -/
def RequestMemory.onBody (sz : SizeT) (m : RequestMemory) (at' : Bytes) : Returned :=
  m.append sz bodyBuffer at'

/-- A callback of llhttp. Those that touch no buffer do nothing here. -/
def RequestMemory.onCallback (sz : SizeT) (y : Yuarel) (m : RequestMemory) : Callback → Returned
  | .method at' => m.onMethod sz at'
  | .methodComplete => (m, [])
  | .url at' => m.onUrl sz at'
  | .urlComplete => m.onUrlComplete y
  | .headerField at' => m.onHeaderField sz at'
  | .headerFieldComplete => m.onHeaderFieldComplete
  | .headerValue at' => m.onHeaderValue sz at'
  | .headerValueComplete => m.onHeaderValueComplete
  | .headersComplete => (m, [])
  | .body at' => m.onBody sz at'
  | .messageComplete => (m, [])

/-- One callback of a sequence, with all that was done before it. -/
def callbackStep (sz : SizeT) (y : Yuarel) (r : Returned) (cb : Callback) : Returned :=
  let r' := r.1.onCallback sz y cb
  (r'.1, r.2 ++ r'.2)

/-! ## The invariant -/

/-- `yuarel_parse` writes NULs only, none of them after the NUL of its string. -/
structure Yuarel.Terminates (y : Yuarel) : Prop where
  length : ∀ buf, (y.parse buf).buf.length = buf.length
  bytes : ∀ (buf : Bytes) (i : Nat), (y.parse buf).buf[i]? = buf[i]? ∨
    (i ≤ strlen buf ∧ (y.parse buf).buf[i]? = some 0)

/-- Every buffer ends with a NUL, and the headers are counted up to their limit. -/
structure BuffersOk (m : RequestMemory) : Prop where
  length : headerRow ISERE_HTTPD_MAX_HTTP_HEADERS ≤ m.bytes.length
  ended : ∀ b ∈ buffers, b.Ended m.bytes
  fields : m.numHeaderFields ≤ ISERE_HTTPD_MAX_HTTP_HEADERS
  values : m.numHeaderValues ≤ ISERE_HTTPD_MAX_HTTP_HEADERS

/-! ## The buffers -/

theorem buffers_fit : ∀ b ∈ buffers, 0 < b.size ∧ b.size ≤ 512 ∧
    b.off + b.size ≤ headerRow ISERE_HTTPD_MAX_HTTP_HEADERS := by decide +kernel

theorem buffers_apart : ∀ b ∈ buffers, ∀ c ∈ buffers, c = b ∨ b.Apart c := by decide +kernel

theorem mem_row_buffers {i : Nat} (h : i < ISERE_HTTPD_MAX_HTTP_HEADERS) :
    nameBuffer i ∈ buffers ∧ valueBuffer i ∈ buffers := by
  have hi : i ∈ List.range ISERE_HTTPD_MAX_HTTP_HEADERS := List.mem_range.mpr h
  unfold buffers
  simp only [List.mem_cons, List.mem_flatMap, List.not_mem_nil, or_false]
  exact ⟨Or.inr (Or.inr (Or.inr ⟨i, hi, Or.inl rfl⟩)), Or.inr (Or.inr (Or.inr ⟨i, hi, Or.inr rfl⟩))⟩

/-- A difference that is not negative is what `size_t` gives. -/
theorem sub_eq (sz : SizeT) {a b : Nat} (ha : a ≤ 512) (h : b ≤ a) : sz.sub a b = a - b := by
  have hpow : 2 ^ 16 ≤ 2 ^ sz.width := Nat.pow_le_pow_right (by omega) sz.wide
  have hmod : ∀ {x : Nat}, x ≤ 512 → x % 2 ^ sz.width = x := fun hx => Nat.mod_eq_of_lt (by omega)
  unfold SizeT.sub
  rw [BitVec.toNat_sub, BitVec.toNat_ofNat, BitVec.toNat_ofNat, hmod ha, hmod (h.trans ha),
    show 2 ^ sz.width - b + a = a - b + 2 ^ sz.width by omega, Nat.add_mod_right,
    hmod (by omega)]

/-! ## A change inside one buffer -/

/-- The bytes outside `b` stay, and `b` ends with a NUL. -/
structure Into (b : Region) (m m' : Bytes) : Prop where
  length : m'.length = m.length
  ended : b.Ended m'
  other : ∀ j, j < b.off ∨ b.off + b.size ≤ j → m'[j]? = m[j]?

theorem Into.bytes {b c : Region} {m m' : Bytes} (h : Into b m m') (hc : b.Apart c) :
    c.bytes m' = c.bytes m := by
  apply Region.bytes_congr
  intro j hj hj'
  apply h.other
  unfold Region.Apart at hc
  omega

theorem BuffersOk.into {m : RequestMemory} (h : BuffersOk m) {b : Region} (hb : b ∈ buffers)
    {bytes : Bytes} (hinto : Into b m.bytes bytes) : BuffersOk { m with bytes } := by
  refine ⟨hinto.length ▸ h.length, fun c hc => ?_, h.fields, h.values⟩
  rcases buffers_apart b hb c hc with rfl | hapart
  · exact hinto.ended
  · have hpos := (buffers_fit c hc).1
    unfold Region.Ended
    rw [hinto.other]
    · exact h.ended c hc
    · unfold Region.last
      unfold Region.Apart at hapart
      omega

/-- What a call on the buffer `b` leaves, and what it does. -/
structure Keeps (b : Region) (m : RequestMemory) (r : Returned) : Prop where
  into : Into b m.bytes r.1.bytes
  same : r.1 = { m with bytes := r.1.bytes }
  effects : ∀ e ∈ r.2, e.Ok

theorem Keeps.buffersOk {b : Region} {m : RequestMemory} {r : Returned} (h : Keeps b m r)
    (hm : BuffersOk m) (hb : b ∈ buffers) : BuffersOk r.1 := by
  rw [h.same]
  exact hm.into hb h.into

section Call

variable {m : RequestMemory} {b : Region}

theorem BuffersOk.strlen_lt (h : BuffersOk m) (hb : b ∈ buffers) :
    strlen (m.bytes.drop b.off) < b.size := (h.ended b hb).strlen_lt (buffers_fit b hb).1

theorem BuffersOk.inside (h : BuffersOk m) (hb : b ∈ buffers) : b.off + b.size ≤ m.bytes.length :=
  (buffers_fit b hb).2.2.trans h.length

/-- The room that the boundary check finds is what is left before the last byte. -/
theorem available_eq (sz : SizeT) (h : BuffersOk m) (hb : b ∈ buffers) :
    sz.sub (sz.sub b.size (strlen (m.bytes.drop b.off))) 1 =
      b.size - strlen (m.bytes.drop b.off) - 1 := by
  have hlt := h.strlen_lt hb
  have hsize := (buffers_fit b hb).2.1
  rw [sub_eq sz hsize (by omega), sub_eq sz (by omega) (by omega)]

/-- A data callback on the memory, as one on the bytes of its buffer. -/
theorem append_bytes (sz : SizeT) (h : BuffersOk m) (hb : b ∈ buffers) (at' : Bytes) :
    b.bytes (m.append sz b at').1.bytes = appendPiece b.size (b.bytes m.bytes) at' := by
  have hlt := h.strlen_lt hb
  have hlen : strlen (b.bytes m.bytes) = strlen (m.bytes.drop b.off) := by
    unfold strlen
    rw [(h.ended b hb).cstr_bytes (buffers_fit b hb).1]
  unfold RequestMemory.append appendPiece
  simp only [available_eq sz h hb, hlen]
  have hmin : (if at'.length > b.size - strlen (m.bytes.drop b.off) - 1 then
      b.size - strlen (m.bytes.drop b.off) - 1 else at'.length) =
        min at'.length (b.size - strlen (m.bytes.drop b.off) - 1) := by
    split <;> omega
  rw [hmin]
  split
  · rfl
  · exact Region.bytes_strncpy at' (by omega) (h.inside hb)

theorem append_keeps (sz : SizeT) (h : BuffersOk m) (hb : b ∈ buffers) (at' : Bytes) :
    Keeps b m (m.append sz b at') := by
  have hlt := h.strlen_lt hb
  have hin := h.inside hb
  have hend := h.ended b hb
  unfold RequestMemory.append
  simp only [available_eq sz h hb]
  generalize hn : (if at'.length > b.size - strlen (m.bytes.drop b.off) - 1 then
      b.size - strlen (m.bytes.drop b.off) - 1 else at'.length) = n
  have hroom : n ≤ b.size - strlen (m.bytes.drop b.off) - 1 := by
    rw [← hn]
    split <;> omega
  by_cases hzero : n = 0
  · simp only [hzero, ↓reduceIte]
    refine ⟨⟨rfl, hend, fun _ _ => rfl⟩, rfl, ?_⟩
    simp only [List.mem_singleton, forall_eq]
    exact hlt
  · simp only [hzero, ↓reduceIte]
    refine ⟨⟨strncpy_length at' (by omega), ?_, ?_⟩, rfl, ?_⟩
    · refine hend.strncpy at' (by omega) (Or.inr ?_)
      unfold Region.last
      omega
    · intro j hj
      exact strncpy_frame at' (by omega) (by omega)
    · simp only [List.mem_cons, List.not_mem_nil, or_false, forall_eq_or_imp, forall_eq]
      refine ⟨hlt, hb, ?_⟩
      unfold Region.Holds
      omega

theorem terminate_keeps (h : BuffersOk m) (hb : b ∈ buffers) : Keeps b m (m.terminate b) := by
  have hlt := h.strlen_lt hb
  have hin := h.inside hb
  have hend := h.ended b hb
  unfold RequestMemory.terminate
  refine ⟨⟨by simp, ?_, ?_⟩, rfl, ?_⟩
  · unfold Region.Ended at hend ⊢
    rw [List.getElem?_set]
    split
    · rw [if_pos (by omega)]
    · exact hend
  · intro j hj
    exact List.getElem?_set_ne (by omega)
  · simp only [List.mem_singleton, forall_eq]
    refine ⟨hb, ?_⟩
    unfold Region.Holds
    omega

theorem urlComplete_into {y : Yuarel} (hy : y.Terminates) (h : BuffersOk m) :
    Into pathBuffer m.bytes (m.onUrlComplete y).1.bytes := by
  have hb : pathBuffer ∈ buffers := by simp [buffers]
  have hin := h.inside hb
  have hpos := (buffers_fit _ hb).1
  have hlen : (y.parse (pathBuffer.bytes m.bytes)).buf.length = pathBuffer.size := by
    rw [hy.length, Region.bytes_length hin]
  refine ⟨Region.replace_length hlen hin, ?_, fun j hj => Region.replace_frame hlen hin hj⟩
  have hend := (Region.ended_iff hpos).mp (h.ended _ hb)
  unfold RequestMemory.onUrlComplete
  rw [Region.ended_iff hpos, Region.bytes_replace hlen hin]
  rcases hy.bytes (pathBuffer.bytes m.bytes) (pathBuffer.size - 1) with hsame | ⟨-, hnul⟩
  · rw [hsame, hend]
  · exact hnul

end Call

/-! ## Every callback -/

section Callbacks

variable (sz : SizeT) {y : Yuarel} {m : RequestMemory}

/-- A callback keeps the invariant, and does nothing wrong. -/
theorem onCallback_buffersOk (hy : y.Terminates) (h : BuffersOk m) (cb : Callback) :
    BuffersOk (m.onCallback sz y cb).1 ∧ ∀ e ∈ (m.onCallback sz y cb).2, e.Ok := by
  have happend : ∀ b ∈ buffers, ∀ at',
      BuffersOk (m.append sz b at').1 ∧ ∀ e ∈ (m.append sz b at').2, e.Ok := by
    intro b hb at'
    have hk := append_keeps sz h hb at'
    exact ⟨hk.buffersOk h hb, hk.effects⟩
  have hnone : BuffersOk m ∧ ∀ e ∈ ([] : List Effect), e.Ok := ⟨h, by simp⟩
  cases cb with
  | method at' => exact happend methodBuffer (by simp [buffers]) at'
  | url at' => exact happend pathBuffer (by simp [buffers]) at'
  | body at' => exact happend bodyBuffer (by simp [buffers]) at'
  | methodComplete => exact hnone
  | headersComplete => exact hnone
  | messageComplete => exact hnone
  | urlComplete =>
    have hb : pathBuffer ∈ buffers := by simp [buffers]
    have hkeep := h.into hb (urlComplete_into hy h)
    refine ⟨⟨hkeep.length, hkeep.ended, h.fields, h.values⟩, ?_⟩
    have hlt := h.strlen_lt hb
    simp only [RequestMemory.onCallback, RequestMemory.onUrlComplete, List.mem_singleton, forall_eq]
    refine ⟨hb, ?_⟩
    unfold Region.Holds
    omega
  | headerField at' =>
    simp only [RequestMemory.onCallback, RequestMemory.onHeaderField]
    split
    · exact happend _ (mem_row_buffers ‹_›).1 at'
    · exact hnone
  | headerValue at' =>
    simp only [RequestMemory.onCallback, RequestMemory.onHeaderValue]
    split
    · exact happend _ (mem_row_buffers ‹_›).2 at'
    · exact hnone
  | headerFieldComplete =>
    simp only [RequestMemory.onCallback, RequestMemory.onHeaderFieldComplete]
    split
    · rename_i hlt
      have hb := (mem_row_buffers hlt).1
      have hk := terminate_keeps h hb
      have hm := hk.buffersOk h hb
      exact ⟨⟨hm.length, hm.ended, hlt, hm.values⟩, hk.effects⟩
    · exact hnone
  | headerValueComplete =>
    simp only [RequestMemory.onCallback, RequestMemory.onHeaderValueComplete]
    split
    · rename_i hlt
      have hb := (mem_row_buffers hlt).2
      have hk := terminate_keeps h hb
      have hm := hk.buffersOk h hb
      exact ⟨⟨hm.length, hm.ended, hm.fields, hlt⟩, hk.effects⟩
    · exact hnone

theorem zero_buffersOk (after : Bytes) : BuffersOk (RequestMemory.zero after) := by
  refine ⟨?_, ?_, Nat.zero_le _, Nat.zero_le _⟩
  · unfold RequestMemory.zero
    simp
  · intro b hb
    obtain ⟨hpos, -, hin⟩ := buffers_fit b hb
    have hlast : b.last < headerRow ISERE_HTTPD_MAX_HTTP_HEADERS := by
      unfold Region.last
      omega
    unfold RequestMemory.zero Region.Ended
    rw [List.getElem?_append_left (by simpa using hlast), List.getElem?_replicate, if_pos hlast]

/-! ## The request in the memory -/

/-- The request, with the bytes of each buffer. -/
def RequestMemory.request (m : RequestMemory) : Request where
  method := methodBuffer.bytes m.bytes
  path := pathBuffer.bytes m.bytes
  urlPath := m.urlPath
  urlQuery := m.urlQuery
  body := bodyBuffer.bytes m.bytes
  headers := (List.range ISERE_HTTPD_MAX_HTTP_HEADERS).map (fun i =>
    { name := (nameBuffer i).bytes m.bytes, value := (valueBuffer i).bytes m.bytes })
  numHeaderFields := m.numHeaderFields
  numHeaderValues := m.numHeaderValues

/-- Where the callback of an element writes. -/
def RequestMemory.region (m : RequestMemory) : Element → Option Region
  | .method => some methodBuffer
  | .url => some pathBuffer
  | .headerField =>
    if m.numHeaderFields < ISERE_HTTPD_MAX_HTTP_HEADERS then some (nameBuffer m.numHeaderFields)
    else none
  | .headerValue =>
    if m.numHeaderValues < ISERE_HTTPD_MAX_HTTP_HEADERS then some (valueBuffer m.numHeaderValues)
    else none
  | .body => some bodyBuffer

/-- Another buffer of the request keeps its bytes. -/
theorem Into.other_buffer {b c : Region} {bytes bytes' : Bytes} (h : Into b bytes bytes')
    (hb : b ∈ buffers) (hc : c ∈ buffers) (hne : c ≠ b) : c.bytes bytes' = c.bytes bytes :=
  h.bytes ((buffers_apart b hb c hc).resolve_left hne)

/-- A change of a buffer of the request line or of the body leaves the rows. -/
theorem Into.rows {b : Region} {bytes bytes' : Bytes} (h : Into b bytes bytes') (hb : b ∈ buffers)
    (hrow : ∀ i, nameBuffer i ≠ b ∧ valueBuffer i ≠ b) :
    (List.range ISERE_HTTPD_MAX_HTTP_HEADERS).map (fun i =>
        HttpdHeader.mk ((nameBuffer i).bytes bytes') ((valueBuffer i).bytes bytes')) =
      (List.range ISERE_HTTPD_MAX_HTTP_HEADERS).map (fun i =>
        HttpdHeader.mk ((nameBuffer i).bytes bytes) ((valueBuffer i).bytes bytes)) := by
  apply List.map_congr_left
  intro i hi
  obtain ⟨hname, hvalue⟩ := mem_row_buffers (List.mem_range.mp hi)
  rw [h.other_buffer hb hname (hrow i).1, h.other_buffer hb hvalue (hrow i).2]

/-- A change of one row of the headers, as a change of the list. -/
theorem rows_modify {f g : Nat → HttpdHeader} {k : Nat} {h : HttpdHeader → HttpdHeader}
    (hk : g k = h (f k)) (hne : ∀ i, i < ISERE_HTTPD_MAX_HTTP_HEADERS → i ≠ k → g i = f i) :
    (List.range ISERE_HTTPD_MAX_HTTP_HEADERS).map g =
      ((List.range ISERE_HTTPD_MAX_HTTP_HEADERS).map f).modify k h := by
  apply List.ext_getElem?
  intro i
  rw [List.getElem?_modify, List.getElem?_map, List.getElem?_map]
  by_cases hi : i < ISERE_HTTPD_MAX_HTTP_HEADERS
  · rw [List.getElem?_range hi]
    by_cases hik : k = i
    · simp [hik.symm, hk]
    · simp [hik, hne i hi (Ne.symm hik)]
  · rw [List.getElem?_eq_none (by simpa using hi)]
    simp

theorem headerRow_eq (i : Nat) : headerRow i = 784 + i * 576 := by
  unfold headerRow
  rfl

/-- The buffers of the rows are others than those before them. -/
theorem row_ne_line {c : Region} (h : c.off < 784) (i : Nat) :
    nameBuffer i ≠ c ∧ valueBuffer i ≠ c := by
  have hrow := headerRow_eq i
  constructor
  · rintro rfl
    unfold nameBuffer at h
    simp only at h
    omega
  · rintro rfl
    unfold valueBuffer at h
    simp only at h
    omega

theorem row_ne_row (i j : Nat) : (i ≠ j → nameBuffer i ≠ nameBuffer j) ∧
    (i ≠ j → valueBuffer i ≠ valueBuffer j) ∧ nameBuffer i ≠ valueBuffer j := by
  have hi := headerRow_eq i
  have hj := headerRow_eq j
  refine ⟨fun hne he => ?_, fun hne he => ?_, fun he => ?_⟩
  · have hoff := congrArg Region.off he
    unfold nameBuffer at hoff
    simp only at hoff
    omega
  · have hoff := congrArg Region.off he
    unfold valueBuffer at hoff
    simp only at hoff
    omega
  · have hsize := congrArg Region.size he
    unfold nameBuffer valueBuffer at hsize
    simp only at hsize
    exact absurd hsize (by decide)

/-- A change of the buffer of an element, as a change of the request. -/
theorem request_update {m : RequestMemory} {e : Element} {b : Region} {bytes : Bytes}
    (hreg : m.region e = some b) (hb : b ∈ buffers) (h : Into b m.bytes bytes) :
    { m with bytes }.request = m.request.update e (fun _ => b.bytes bytes) := by
  have hmem : methodBuffer ∈ buffers ∧ pathBuffer ∈ buffers ∧ bodyBuffer ∈ buffers := by
    simp [buffers]
  have hkeep : ∀ c ∈ buffers, c ≠ b → c.bytes bytes = c.bytes m.bytes :=
    fun c hc hne => h.other_buffer hb hc hne
  cases e with
  | method =>
    obtain rfl : methodBuffer = b := Option.some.inj hreg
    unfold RequestMemory.request Request.update
    rw [h.rows hb (row_ne_line (by decide)), hkeep _ hmem.2.1 (by decide),
      hkeep _ hmem.2.2 (by decide)]
  | url =>
    obtain rfl : pathBuffer = b := Option.some.inj hreg
    unfold RequestMemory.request Request.update
    rw [h.rows hb (row_ne_line (by decide)), hkeep _ hmem.1 (by decide),
      hkeep _ hmem.2.2 (by decide)]
  | body =>
    obtain rfl : bodyBuffer = b := Option.some.inj hreg
    unfold RequestMemory.request Request.update
    rw [h.rows hb (row_ne_line (by decide)), hkeep _ hmem.1 (by decide),
      hkeep _ hmem.2.1 (by decide)]
  | headerField =>
    simp only [RequestMemory.region, Option.ite_none_right_eq_some, Option.some.injEq] at hreg
    obtain ⟨hlt, rfl⟩ := hreg
    have hline : ∀ {c}, c.off < 784 → c ≠ nameBuffer m.numHeaderFields :=
      fun hc => Ne.symm (row_ne_line hc _).1
    unfold RequestMemory.request Request.update
    simp only [hlt, ↓reduceIte]
    rw [hkeep _ hmem.1 (hline (by decide)), hkeep _ hmem.2.1 (hline (by decide)),
      hkeep _ hmem.2.2 (hline (by decide))]
    congr 1
    apply rows_modify
    · rw [hkeep _ (mem_row_buffers hlt).2 (Ne.symm (row_ne_row _ _).2.2)]
    · intro i hi hne
      rw [hkeep _ (mem_row_buffers hi).1 ((row_ne_row _ _).1 hne),
        hkeep _ (mem_row_buffers hi).2 (Ne.symm (row_ne_row _ _).2.2)]
  | headerValue =>
    simp only [RequestMemory.region, Option.ite_none_right_eq_some, Option.some.injEq] at hreg
    obtain ⟨hlt, rfl⟩ := hreg
    have hline : ∀ {c}, c.off < 784 → c ≠ valueBuffer m.numHeaderValues :=
      fun hc => Ne.symm (row_ne_line hc _).2
    unfold RequestMemory.request Request.update
    simp only [hlt, ↓reduceIte]
    rw [hkeep _ hmem.1 (hline (by decide)), hkeep _ hmem.2.1 (hline (by decide)),
      hkeep _ hmem.2.2 (hline (by decide))]
    congr 1
    apply rows_modify
    · rw [hkeep _ (mem_row_buffers hlt).1 (row_ne_row _ _).2.2]
    · intro i hi hne
      rw [hkeep _ (mem_row_buffers hi).1 (row_ne_row _ _).2.2,
        hkeep _ (mem_row_buffers hi).2 ((row_ne_row _ _).2.1 hne)]

theorem region_spec (y : Yuarel) {m : RequestMemory} {e : Element} {b : Region}
    (h : m.region e = some b) (at' : Bytes) :
    b ∈ buffers ∧ b.size = e.max ∧ m.request.buffer e = some (b.bytes m.bytes) ∧
      m.onCallback sz y (e.callback at') = m.append sz b at' := by
  cases e with
  | method =>
    obtain rfl : methodBuffer = b := Option.some.inj h
    exact ⟨by simp [buffers], rfl, rfl, rfl⟩
  | url =>
    obtain rfl : pathBuffer = b := Option.some.inj h
    exact ⟨by simp [buffers], rfl, rfl, rfl⟩
  | body =>
    obtain rfl : bodyBuffer = b := Option.some.inj h
    exact ⟨by simp [buffers], rfl, rfl, rfl⟩
  | headerField =>
    simp only [RequestMemory.region, Option.ite_none_right_eq_some, Option.some.injEq] at h
    obtain ⟨hlt, rfl⟩ := h
    refine ⟨(mem_row_buffers hlt).1, rfl, ?_, if_pos hlt⟩
    simp [Request.buffer, RequestMemory.request, hlt]
  | headerValue =>
    simp only [RequestMemory.region, Option.ite_none_right_eq_some, Option.some.injEq] at h
    obtain ⟨hlt, rfl⟩ := h
    refine ⟨(mem_row_buffers hlt).2, rfl, ?_, if_pos hlt⟩
    simp [Request.buffer, RequestMemory.request, hlt]

/-- There is no buffer for the headers after the first 16. -/
theorem region_none (y : Yuarel) {m : RequestMemory} {e : Element} (h : m.region e = none)
    (at' : Bytes) (f : Bytes → Bytes) :
    m.onCallback sz y (e.callback at') = (m, []) ∧ m.request.update e f = m.request := by
  cases e with
  | method => cases h
  | url => cases h
  | body => cases h
  | headerField =>
    have hle : ¬m.numHeaderFields < ISERE_HTTPD_MAX_HTTP_HEADERS := by
      simpa [RequestMemory.region] using h
    exact ⟨if_neg hle, if_neg hle⟩
  | headerValue =>
    have hle : ¬m.numHeaderValues < ISERE_HTTPD_MAX_HTTP_HEADERS := by
      simpa [RequestMemory.region] using h
    exact ⟨if_neg hle, if_neg hle⟩

/-- The NUL of a completion callback is there already. -/
theorem terminate_same {m : RequestMemory} (h : BuffersOk m) {b : Region} (hb : b ∈ buffers) :
    (m.terminate b).1 = m := by
  have hlt := h.strlen_lt hb
  have hin := h.inside hb
  have hnul : (m.bytes.drop b.off)[strlen (m.bytes.drop b.off)]? = some 0 :=
    getElem?_strlen (by rw [List.length_drop]; omega)
  rw [List.getElem?_drop] at hnul
  have hset : m.bytes.set (b.off + strlen (m.bytes.drop b.off)) 0 = m.bytes := by
    apply List.ext_getElem?
    intro j
    rw [List.getElem?_set]
    split
    · rename_i hj
      rw [if_pos (by omega), ← hj, hnul]
    · rfl
  unfold RequestMemory.terminate
  simp only [hset]

/-- The callbacks over the memory are those over the request in it. -/
theorem request_onCallback (hy : y.Terminates) (h : BuffersOk m) (cb : Callback) :
    (m.onCallback sz y cb).1.request = m.request.onCallback y cb := by
  have hdata : ∀ e at', (m.onCallback sz y (Element.callback e at')).1.request =
      m.request.onCallback y (e.callback at') := by
    intro e at'
    rw [onCallback_data]
    cases hreg : m.region e with
    | none =>
      obtain ⟨hsame, hupdate⟩ := region_none sz y hreg at' (fun buf => appendPiece e.max buf at')
      rw [hsame, hupdate]
    | some b =>
      obtain ⟨hb, hsize, hbuf, hcall⟩ := region_spec sz y hreg at'
      have hk := append_keeps sz h hb at'
      rw [hcall, hk.same, request_update hreg hb hk.into]
      apply update_congr
      intro buf hbuf'
      obtain rfl : b.bytes m.bytes = buf := Option.some.inj (hbuf.symm.trans hbuf')
      rw [append_bytes sz h hb, hsize]
  cases cb with
  | method at' => exact hdata .method at'
  | url at' => exact hdata .url at'
  | headerField at' => exact hdata .headerField at'
  | headerValue at' => exact hdata .headerValue at'
  | body at' => exact hdata .body at'
  | methodComplete => rfl
  | headersComplete => rfl
  | messageComplete => rfl
  | urlComplete =>
    have hb : pathBuffer ∈ buffers := by simp [buffers]
    have hin := h.inside hb
    have hlen : (y.parse (pathBuffer.bytes m.bytes)).buf.length = pathBuffer.size := by
      rw [hy.length, Region.bytes_length hin]
    have hupdate := request_update (e := .url) rfl hb (urlComplete_into hy h)
    simp only [RequestMemory.onUrlComplete, Region.bytes_replace hlen hin] at hupdate
    simp only [RequestMemory.onCallback, RequestMemory.onUrlComplete, Request.onCallback,
      onUrlComplete]
    unfold RequestMemory.request Request.update at *
    simp only [Request.mk.injEq] at hupdate ⊢
    simp only [hupdate, and_true]
  | headerFieldComplete =>
    simp only [RequestMemory.onCallback, RequestMemory.onHeaderFieldComplete, Request.onCallback,
      onHeaderFieldComplete_eq]
    by_cases hlt : m.numHeaderFields < ISERE_HTTPD_MAX_HTTP_HEADERS
    · rw [if_pos hlt, if_pos (show m.request.numHeaderFields < _ from hlt),
        terminate_same h (mem_row_buffers hlt).1]
      rfl
    · rw [if_neg hlt, if_neg (show ¬m.request.numHeaderFields < _ from hlt)]
  | headerValueComplete =>
    simp only [RequestMemory.onCallback, RequestMemory.onHeaderValueComplete, Request.onCallback,
      onHeaderValueComplete_eq]
    by_cases hlt : m.numHeaderValues < ISERE_HTTPD_MAX_HTTP_HEADERS
    · rw [if_pos hlt, if_pos (show m.request.numHeaderValues < _ from hlt),
        terminate_same h (mem_row_buffers hlt).2]
      rfl
    · rw [if_neg hlt, if_neg (show ¬m.request.numHeaderValues < _ from hlt)]

/-! ## The law -/

/-- After any sequence of callbacks, every buffer of the request ends with a NUL, at
most 16 headers are counted, and nothing that a callback did on the way wrote
outside its buffer or took more from a size than there is. -/
theorem no_callback_leaves_its_buffer (hy : y.Terminates) (after : Bytes) (cbs : List Callback) :
    BuffersOk (run (callbackStep sz y) (.zero after, []) cbs).1 ∧
      ∀ e ∈ (run (callbackStep sz y) (.zero after, []) cbs).2, e.Ok := by
  have hstep : ∀ (r : Returned) cb, (BuffersOk r.1 ∧ ∀ e ∈ r.2, e.Ok) →
      BuffersOk (callbackStep sz y r cb).1 ∧ ∀ e ∈ (callbackStep sz y r cb).2, e.Ok := by
    intro r cb hr
    obtain ⟨hm, hes⟩ := onCallback_buffersOk sz hy hr.1 cb
    refine ⟨hm, fun e he => ?_⟩
    rcases List.mem_append.mp he with he | he
    · exact hr.2 e he
    · exact hes e he
  exact run_inv_all (I := fun r : Returned => BuffersOk r.1 ∧ ∀ e ∈ r.2, e.Ok) hstep
    ⟨zero_buffersOk after, by simp⟩ cbs

theorem zero_bytes {b : Region} (hb : b ∈ buffers) (after : Bytes) :
    b.bytes (RequestMemory.zero after).bytes = List.replicate b.size 0 := by
  obtain ⟨-, -, hin⟩ := buffers_fit b hb
  unfold RequestMemory.zero Region.bytes
  simp only
  rw [List.drop_append_of_le_length (by rw [List.length_replicate]; omega), List.drop_replicate,
    List.take_append_of_le_length (by rw [List.length_replicate]; omega), List.take_replicate,
    Nat.min_eq_left (by omega)]

theorem request_zero (after : Bytes) : (RequestMemory.zero after).request = Request.zero := by
  have hrows : (List.range ISERE_HTTPD_MAX_HTTP_HEADERS).map (fun i => HttpdHeader.mk
      ((nameBuffer i).bytes (RequestMemory.zero after).bytes)
      ((valueBuffer i).bytes (RequestMemory.zero after).bytes)) = Request.zero.headers := by
    rw [List.map_congr_left (g := fun _ => HttpdHeader.mk
      (List.replicate ISERE_HTTPD_MAX_HTTP_HEADER_NAME_LEN 0)
      (List.replicate ISERE_HTTPD_MAX_HTTP_HEADER_VALUE_LEN 0))]
    · rw [List.map_const', List.length_range]
      rfl
    · intro i hi
      obtain ⟨hname, hvalue⟩ := mem_row_buffers (List.mem_range.mp hi)
      rw [zero_bytes hname, zero_bytes hvalue]
      rfl
  unfold RequestMemory.request
  rw [hrows, zero_bytes (by simp [buffers]), zero_bytes (by simp [buffers]),
    zero_bytes (by simp [buffers])]
  rfl

/-- The memory after a sequence of callbacks holds the request that they make. -/
theorem request_callbacks (hy : y.Terminates) (after : Bytes) (cbs : List Callback) :
    BuffersOk (run (callbackStep sz y) (.zero after, []) cbs).1 ∧
      (run (callbackStep sz y) (.zero after, []) cbs).1.request =
        cbs.foldl (Request.onCallback y) Request.zero := by
  induction cbs using List.reverseRecOn with
  | nil => exact ⟨zero_buffersOk after, request_zero after⟩
  | append_singleton cbs cb ih =>
    obtain ⟨hok, hreq⟩ := ih
    rw [run_append, List.foldl_append, run_cons, run_nil, List.foldl_cons, List.foldl_nil, ← hreq]
    exact ⟨(onCallback_buffersOk sz hy hok cb).1, request_onCallback sz hy hok cb⟩

end Callbacks

theorem slashYuarel_terminates : slashYuarel.Terminates where
  length buf := by
    unfold slashYuarel
    dsimp only
    split <;> rfl
  bytes buf i := by
    unfold slashYuarel
    dsimp only
    split
    · cases i with
      | zero => exact Or.inr ⟨Nat.zero_le _, rfl⟩
      | succ i => exact Or.inl rfl
    · exact Or.inl rfl

/-- Two requests for `/` on one connection, where `size_t` has 64 bits. -/
theorem two_requests_stay_in_their_buffers :
    BuffersOk (run (callbackStep ⟨64, by decide⟩ slashYuarel) (.zero [], [])
      (getCallbacks "/" ++ getCallbacks "/")).1 ∧
      ∀ e ∈ (run (callbackStep ⟨64, by decide⟩ slashYuarel) (.zero [], [])
        (getCallbacks "/" ++ getCallbacks "/")).2, e.Ok :=
  no_callback_leaves_its_buffer ⟨64, by decide⟩ slashYuarel_terminates [] _

end isere.httpd
