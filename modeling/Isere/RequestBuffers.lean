-- What the data callbacks make of an element that comes in parts: the buffer
-- keeps the first bytes of it, less its NULs, as long as the text is clean.
import Isere.Request
import Isere.Segments

open cstring segments

namespace isere.httpd

/-! ## One buffer -/

/-- A buffer with a string and a NUL after it. -/
def PaddedString (max : Nat) (buf : Bytes) : Prop :=
  ∃ s, 0 ∉ s ∧ s.length < max ∧ buf = padded max s

theorem paddedString_zero {max : Nat} (h : 0 < max) : PaddedString max (List.replicate max 0) :=
  ⟨[], List.not_mem_nil, h, by simp [padded]⟩

/-- The string grows by the string of the piece, up to the last byte but one. -/
theorem appendPiece_padded {max : Nat} {s : Bytes} (h0 : 0 ∉ s) (h : s.length < max)
    (at' : Bytes) : appendPiece max (padded max s) at' =
      padded max ((s ++ cstr at').take (max - 1)) := by
  have hlen := strlen_padded h0 h
  have hcstr := cstr_length_le at'
  unfold appendPiece
  simp only [hlen]
  rw [List.take_append, List.take_of_length_le (show s.length ≤ max - 1 by omega)]
  by_cases hnil : min at'.length (max - s.length - 1) = 0
  · rw [if_pos hnil]
    have hnone : (cstr at').take (max - 1 - s.length) = [] := by
      rw [List.take_eq_nil_iff, ← List.length_eq_zero_iff]
      omega
    rw [hnone, List.append_nil]
  · rw [if_neg hnil, strncpy_padded _ (by omega), cstr_take]
    congr 2
    rw [List.take_eq_take_iff]
    omega

theorem take_nul_free {s t : Bytes} (h : 0 ∉ s) (k : Nat) : 0 ∉ (s ++ cstr t).take k := by
  intro hin
  rcases List.mem_append.mp (List.mem_of_mem_take hin) with hs | ht
  · exact h hs
  · exact cstr_nul_free t ht

theorem take_of_take {α : Type} (k : Nat) (s t : List α) :
    (s.take k ++ t).take k = (s ++ t).take k := by
  rw [List.take_append, List.take_append, List.take_take, List.length_take, Nat.min_self,
    show k - min k s.length = k - s.length by omega]

/-- The pieces of an element, one after the other. -/
theorem appendPiece_parts {max : Nat} {s : Bytes} (h0 : 0 ∉ s) (h : s.length < max)
    (parts : List Bytes) : parts.foldl (appendPiece max) (padded max s) =
      padded max ((s ++ parts.flatMap cstr).take (max - 1)) := by
  induction parts generalizing s with
  | nil =>
    rw [List.foldl_nil, List.flatMap_nil, List.append_nil, List.take_of_length_le (by omega)]
  | cons at' parts ih =>
    have hlt : ((s ++ cstr at').take (max - 1)).length < max := by
      rw [List.length_take]
      omega
    rw [List.foldl_cons, appendPiece_padded h0 h, ih (take_nul_free h0 _) hlt,
      List.flatMap_cons, ← List.append_assoc, take_of_take]

/-- What a buffer becomes with a clean element, whatever its pieces are. -/
def addText (max : Nat) (buf text : Bytes) : Bytes :=
  padded max ((cstr buf ++ nonNul text).take (max - 1))

theorem appendPiece_clean {max : Nat} {s : Bytes} (h0 : 0 ∉ s) (h : s.length < max)
    {parts : List Bytes} (hclean : CleanText (max - 1 - s.length) parts.flatten) :
    parts.foldl (appendPiece max) (padded max s) = addText max (padded max s) parts.flatten := by
  unfold addText
  rw [appendPiece_parts h0 h, cstr_padded h0 h, List.take_append, List.take_append,
    parts_take hclean]

/-- The first element for a buffer that is all NULs. -/
theorem first_clean {max : Nat} (hmax : 0 < max) {t : Bytes} (h : 0 ∉ t) :
    ∃ s, 0 ∉ s ∧ s.length < max ∧ List.replicate max 0 = padded max s ∧
      CleanText (max - 1 - s.length) t :=
  ⟨[], List.not_mem_nil, hmax, by simp [padded], clean_of_nul_free _ h⟩

theorem addText_padded {max : Nat} (hmax : 0 < max) (buf text : Bytes) :
    PaddedString max (addText max buf text) := by
  refine ⟨(cstr buf ++ nonNul text).take (max - 1), ?_, ?_, rfl⟩
  · intro hin
    rcases List.mem_append.mp (List.mem_of_mem_take hin) with hs | ht
    · exact cstr_nul_free buf hs
    · simpa using List.of_mem_filter ht
  · rw [List.length_take]
    omega

/-! ## The buffer of an element -/

/-- The elements that llhttp reports in pieces. -/
inductive Element
  | method
  | url
  | headerField
  | headerValue
  | body
  deriving DecidableEq, Repr

def Element.callback : Element → Bytes → Callback
  | .method => .method
  | .url => .url
  | .headerField => .headerField
  | .headerValue => .headerValue
  | .body => .body

/-- The size of the buffer of an element. -/
def Element.max : Element → Nat
  | .method => ISERE_HTTPD_MAX_HTTP_METHOD_LEN
  | .url => ISERE_HTTPD_MAX_HTTP_PATH_LEN
  | .headerField => ISERE_HTTPD_MAX_HTTP_HEADER_NAME_LEN
  | .headerValue => ISERE_HTTPD_MAX_HTTP_HEADER_VALUE_LEN
  | .body => ISERE_HTTPD_MAX_HTTP_BODY_LEN

/-- The buffer that the callback of an element writes to. There is none for the
headers after the first 16. -/
def Request.buffer (r : Request) : Element → Option Bytes
  | .method => some r.method
  | .url => some r.path
  | .headerField =>
    if r.numHeaderFields < ISERE_HTTPD_MAX_HTTP_HEADERS then
      (r.headers[r.numHeaderFields]?).map HttpdHeader.name
    else none
  | .headerValue =>
    if r.numHeaderValues < ISERE_HTTPD_MAX_HTTP_HEADERS then
      (r.headers[r.numHeaderValues]?).map HttpdHeader.value
    else none
  | .body => some r.body

/-- A change of that buffer alone. -/
def Request.update (r : Request) (e : Element) (f : Bytes → Bytes) : Request :=
  match e with
  | .method => { r with method := f r.method }
  | .url => { r with path := f r.path }
  | .headerField =>
    if r.numHeaderFields < ISERE_HTTPD_MAX_HTTP_HEADERS then
      { r with
        headers := r.headers.modify r.numHeaderFields (fun h => { h with name := f h.name }) }
    else r
  | .headerValue =>
    if r.numHeaderValues < ISERE_HTTPD_MAX_HTTP_HEADERS then
      { r with
        headers := r.headers.modify r.numHeaderValues (fun h => { h with value := f h.value }) }
    else r
  | .body => { r with body := f r.body }

theorem onCallback_data (y : Yuarel) (r : Request) (e : Element) (at' : Bytes) :
    r.onCallback y (e.callback at') = r.update e (fun buf => appendPiece e.max buf at') := by
  cases e <;> rfl

theorem update_update (r : Request) (e : Element) (f g : Bytes → Bytes) :
    (r.update e f).update e g = r.update e (fun buf => g (f buf)) := by
  cases e with
  | method => rfl
  | url => rfl
  | body => rfl
  | headerField =>
    unfold Request.update
    by_cases h : r.numHeaderFields < ISERE_HTTPD_MAX_HTTP_HEADERS
    · simp only [if_pos h, List.modify_modify_eq]
      rfl
    · simp only [if_neg h]
  | headerValue =>
    unfold Request.update
    by_cases h : r.numHeaderValues < ISERE_HTTPD_MAX_HTTP_HEADERS
    · simp only [if_pos h, List.modify_modify_eq]
      rfl
    · simp only [if_neg h]

theorem modify_congr {α : Type} {l : List α} {i : Nat} {f g : α → α}
    (h : ∀ a, l[i]? = some a → f a = g a) : l.modify i f = l.modify i g := by
  apply List.ext_getElem?
  intro j
  rw [List.getElem?_modify, List.getElem?_modify]
  by_cases hj : i = j
  · cases ha : l[j]? with
    | none => rfl
    | some a => simp [hj, h a (hj ▸ ha)]
  · simp [hj]

theorem update_congr {r : Request} {e : Element} {f g : Bytes → Bytes}
    (h : ∀ buf, r.buffer e = some buf → f buf = g buf) : r.update e f = r.update e g := by
  cases e with
  | method => simp only [Request.update, h _ rfl]
  | url => simp only [Request.update, h _ rfl]
  | body => simp only [Request.update, h _ rfl]
  | headerField =>
    unfold Request.update Request.buffer at *
    by_cases hi : r.numHeaderFields < ISERE_HTTPD_MAX_HTTP_HEADERS
    · simp only [if_pos hi] at *
      rw [modify_congr (fun a ha => by rw [h a.name (by rw [ha]; rfl)])]
    · simp only [if_neg hi]
  | headerValue =>
    unfold Request.update Request.buffer at *
    by_cases hi : r.numHeaderValues < ISERE_HTTPD_MAX_HTTP_HEADERS
    · simp only [if_pos hi] at *
      rw [modify_congr (fun a ha => by rw [h a.value (by rw [ha]; rfl)])]
    · simp only [if_neg hi]

theorem update_self (r : Request) (e : Element) : r.update e (fun buf => buf) = r := by
  have hid : ∀ (l : List HttpdHeader) (i : Nat), l.modify i (fun h => h) = l :=
    fun l i => List.modify_id i l
  cases e with
  | method => rfl
  | url => rfl
  | body => rfl
  | headerField =>
    simp only [Request.update, hid]
    split <;> rfl
  | headerValue =>
    simp only [Request.update, hid]
    split <;> rfl

/-- The pieces of an element change its buffer one after the other. -/
theorem onCallback_parts (y : Yuarel) (r : Request) (e : Element) (parts : List Bytes) :
    (parts.map e.callback).foldl (Request.onCallback y) r =
      r.update e (fun buf => parts.foldl (appendPiece e.max) buf) := by
  induction parts generalizing r with
  | nil => exact (update_self r e).symm
  | cons at' parts ih =>
    rw [List.map_cons, List.foldl_cons, ih, onCallback_data, update_update]
    rfl

/-- The pieces of a clean element leave a padded buffer as its text does. -/
theorem onCallback_clean (y : Yuarel) {r : Request} {e : Element} {parts : List Bytes}
    (h : ∀ buf, r.buffer e = some buf → ∃ s, 0 ∉ s ∧ s.length < e.max ∧ buf = padded e.max s ∧
      CleanText (e.max - 1 - s.length) parts.flatten) :
    (parts.map e.callback).foldl (Request.onCallback y) r =
      r.update e (fun buf => addText e.max buf parts.flatten) := by
  rw [onCallback_parts]
  apply update_congr
  intro buf hbuf
  obtain ⟨s, h0, hlen, rfl, hclean⟩ := h buf hbuf
  exact appendPiece_clean h0 hlen hclean

/-- The completion callbacks of a header only count it: the NUL that they write is
there already. -/
theorem onHeaderFieldComplete_eq (r : Request) : onHeaderFieldComplete r =
    if r.numHeaderFields < ISERE_HTTPD_MAX_HTTP_HEADERS then
      { r with numHeaderFields := r.numHeaderFields + 1 }
    else r := by
  have hid : r.headers.modify r.numHeaderFields (fun h => h) = r.headers :=
    List.modify_id _ _
  unfold onHeaderFieldComplete
  simp only [set_strlen, hid]

theorem onHeaderValueComplete_eq (r : Request) : onHeaderValueComplete r =
    if r.numHeaderValues < ISERE_HTTPD_MAX_HTTP_HEADERS then
      { r with numHeaderValues := r.numHeaderValues + 1 }
    else r := by
  have hid : r.headers.modify r.numHeaderValues (fun h => h) = r.headers :=
    List.modify_id _ _
  unfold onHeaderValueComplete
  simp only [set_strlen, hid]

/-! ## What the callbacks leave -/

structure HttpdHeader.Tidy (h : HttpdHeader) : Prop where
  name : PaddedString ISERE_HTTPD_MAX_HTTP_HEADER_NAME_LEN h.name
  value : PaddedString ISERE_HTTPD_MAX_HTTP_HEADER_VALUE_LEN h.value

/-- The buffers of the headers and of the body are padded strings. -/
structure Request.Tidy (r : Request) : Prop where
  body : PaddedString ISERE_HTTPD_MAX_HTTP_BODY_LEN r.body
  rows : ∀ (i : Nat) (h : HttpdHeader), r.headers[i]? = some h → h.Tidy

theorem tidy_zero : Request.zero.Tidy := by
  refine ⟨paddedString_zero (by decide), fun i h hi => ?_⟩
  obtain ⟨hlt, rfl⟩ := List.getElem?_eq_some_iff.mp hi
  simp only [Request.zero, List.getElem_replicate]
  exact ⟨paddedString_zero (by decide), paddedString_zero (by decide)⟩

/-- A change of one row that leaves it padded. -/
theorem Request.Tidy.modify {r : Request} (ht : r.Tidy) (n : Nat) {f : HttpdHeader → HttpdHeader}
    (hf : ∀ h : HttpdHeader, h.Tidy → (f h).Tidy) :
    { r with headers := r.headers.modify n f }.Tidy := by
  refine ⟨ht.body, fun i h hi => ?_⟩
  rw [List.getElem?_modify] at hi
  cases hrow : r.headers[i]? with
  | none => simp [hrow] at hi
  | some row =>
    have hpadded := ht.rows i row hrow
    by_cases hn : n = i
    · simp only [hrow, hn, ↓reduceIte, Option.map_eq_map, Option.map_some, Option.some.injEq] at hi
      exact hi ▸ hf row hpadded
    · simp only [hrow, hn, ↓reduceIte, Option.map_eq_map, Option.map_some, Option.some.injEq] at hi
      exact hi ▸ hpadded

theorem Request.Tidy.update {r : Request} (ht : r.Tidy) {e : Element} {f : Bytes → Bytes}
    (hf : ∀ buf, PaddedString e.max buf → PaddedString e.max (f buf)) : (r.update e f).Tidy := by
  cases e with
  | method => exact ⟨ht.body, ht.rows⟩
  | url => exact ⟨ht.body, ht.rows⟩
  | body => exact ⟨hf _ ht.body, ht.rows⟩
  | headerField =>
    simp only [Request.update]
    split
    · exact ht.modify _ (fun h hp => ⟨hf _ hp.1, hp.2⟩)
    · exact ht
  | headerValue =>
    simp only [Request.update]
    split
    · exact ht.modify _ (fun h hp => ⟨hp.1, hf _ hp.2⟩)
    · exact ht

theorem appendPiece_paddedString {max : Nat} {buf : Bytes} (h : PaddedString max buf)
    (at' : Bytes) : PaddedString max (appendPiece max buf at') := by
  obtain ⟨s, h0, hlen, rfl⟩ := h
  rw [appendPiece_padded h0 hlen]
  refine ⟨_, take_nul_free h0 _, ?_, rfl⟩
  rw [List.length_take]
  omega

/-- Every callback leaves the buffers padded. -/
theorem Request.Tidy.onCallback {r : Request} (ht : r.Tidy) (y : Yuarel) (cb : Callback) :
    (r.onCallback y cb).Tidy := by
  have hdata : ∀ e at', (r.onCallback y (Element.callback e at')).Tidy := by
    intro e at'
    rw [onCallback_data]
    exact ht.update (fun buf hbuf => appendPiece_paddedString hbuf at')
  cases cb with
  | method at' => exact hdata .method at'
  | url at' => exact hdata .url at'
  | headerField at' => exact hdata .headerField at'
  | headerValue at' => exact hdata .headerValue at'
  | body at' => exact hdata .body at'
  | methodComplete => exact ht
  | urlComplete => exact ⟨ht.body, ht.rows⟩
  | headersComplete => exact ht
  | messageComplete => exact ht
  | headerFieldComplete =>
    simp only [Request.onCallback, onHeaderFieldComplete_eq]
    split
    · exact ⟨ht.body, ht.rows⟩
    · exact ht
  | headerValueComplete =>
    simp only [Request.onCallback, onHeaderValueComplete_eq]
    split
    · exact ⟨ht.body, ht.rows⟩
    · exact ht

theorem Request.Tidy.callbacks {r : Request} (ht : r.Tidy) (y : Yuarel) (cbs : List Callback) :
    (cbs.foldl (Request.onCallback y) r).Tidy := by
  induction cbs generalizing r with
  | nil => exact ht
  | cons cb cbs ih => exact ih (ht.onCallback y cb)

/-- The elements that come after the URL write to padded buffers. -/
theorem Request.Tidy.buffer {r : Request} (ht : r.Tidy) {e : Element}
    (he : e ≠ .method ∧ e ≠ .url) {buf : Bytes} (h : r.buffer e = some buf) :
    PaddedString e.max buf := by
  cases e with
  | method => exact absurd rfl he.1
  | url => exact absurd rfl he.2
  | body =>
    rw [← Option.some.inj h]
    exact ht.body
  | headerField =>
    simp only [Request.buffer] at h
    split at h
    · obtain ⟨row, hrow, rfl⟩ := Option.map_eq_some_iff.mp h
      exact (ht.rows _ row hrow).1
    · cases h
  | headerValue =>
    simp only [Request.buffer] at h
    split at h
    · obtain ⟨row, hrow, rfl⟩ := Option.map_eq_some_iff.mp h
      exact (ht.rows _ row hrow).2
    · cases h

end isere.httpd
