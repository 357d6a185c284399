-- The arguments of the handler do not depend on how a request is split into
-- chunks, as long as no body byte follows a NUL: each callback looks for the end
-- of the string in its buffer, and strncpy stops at a NUL.
import Isere.HttpdSteps
import Isere.Received
import Isere.RequestBuffers

open cstring segments runs isere.uv isere.tcp

namespace isere.httpd

/-! ## A request on the wire -/

abbrev Layout := List (Piece Element Callback UInt8)

/-- What llhttp reports of a request, without the bytes between its elements. -/
def reported : Piece Element Callback UInt8 → Bool
  | .gap _ => false
  | _ => true

/-- What may come after the URL. No header holds a NUL, for llhttp rejects it. -/
def AfterUrl : Piece Element Callback UInt8 → Prop
  | .data .headerField s => 0 ∉ s
  | .data .headerValue s => 0 ∉ s
  | .data .body _ => True
  | .event .headerFieldComplete => True
  | .event .headerValueComplete => True
  | .event .headersComplete => True
  | _ => False

/-- The bytes of exactly one request, told by its elements: the method, the
URL, and then headers and pieces of the body, up to the end of the message. -/
structure OneRequest where
  method : Bytes
  url : Bytes
  later : Layout
  layout : Layout
  layout_reported : layout.filter reported =
    .data .method method :: .event .methodComplete :: .data .url url :: .event .urlComplete ::
      (later ++ [.event .messageComplete])
  method_ne : method ≠ []
  method_nul : 0 ∉ method
  url_nul : 0 ∉ url
  later_ok : ∀ p ∈ later, AfterUrl p

/-- The body bytes of a layout, as far as llhttp has them in one run: all of a
body with a length, or one chunk of a chunked one. -/
def bodies (ps : Layout) : List Bytes :=
  ps.filterMap (fun p => match p with
    | .data .body s => some s
    | _ => none)

def OneRequest.text (R : OneRequest) : Bytes := segments.text R.layout

def OneRequest.body (R : OneRequest) : List Bytes := bodies R.later

/-- A way to split a request into chunks that `recv` can return. -/
structure Chunks (R : OneRequest) (cs : List Bytes) : Prop where
  flatten : cs.flatten = R.text
  pos : ∀ c ∈ cs, c ≠ []
  le : ∀ c ∈ cs, c.length ≤ ISERE_HTTPD_LINE_BUFFER_LEN

/-! ## What the callbacks make of it -/

/-- A data callback without bytes. -/
def Callback.isEmpty : Callback → Bool
  | .method at' => at' = []
  | .url at' => at' = []
  | .headerField at' => at' = []
  | .headerValue at' => at' = []
  | .body at' => at' = []
  | _ => false

/-- llhttp reports the elements of a request, each whole and in order, cut where
the chunks are cut. -/
def Llhttp.Reports (l : Llhttp) (R : OneRequest) : Prop :=
  ∀ cs, Chunks R cs → (l.callbacks [] cs).filter (fun cb => !cb.isEmpty) =
    feedAll Element.callback R.layout (cs.map List.length)

/-- No body byte but NUL follows a NUL in the same run, before the buffer is
full. -/
def CleanBody : Nat → List Bytes → Prop
  | _, [] => True
  | room, s :: body =>
    room ≤ (cstr s).length ∨ (cstr s = nonNul s ∧ CleanBody (room - (cstr s).length) body)

def OneRequest.Clean (R : OneRequest) : Prop :=
  CleanBody (ISERE_HTTPD_MAX_HTTP_BODY_LEN - 1) R.body

/-! ## Clean bodies -/

theorem bodies_skip {e : Element} (he : e ≠ .body) (t : Bytes) (ps : Layout) :
    bodies (.data e t :: ps) = bodies ps := by
  cases e <;> first | rfl | exact absurd rfl he

theorem cleanBody_zero (body : List Bytes) : CleanBody 0 body := by
  cases body with
  | nil => trivial
  | cons s body => exact Or.inl (Nat.zero_le _)

theorem CleanBody.text {room : Nat} {s : Bytes} {body : List Bytes}
    (h : CleanBody room (s :: body)) : CleanText room s :=
  h.imp_right And.left

/-- After a run of a clean body, the rest of it is clean for the room left. -/
theorem CleanBody.rest {max : Nat} {s t : Bytes} {body : List Bytes}
    (h : CleanBody (max - s.length) (t :: body)) :
    CleanBody (max - ((s ++ nonNul t).take max).length) body := by
  have hle : (cstr t).length ≤ (nonNul t).length := (cstr_begins_nonNul t).length_le
  rw [List.length_take, List.length_append]
  rcases h with h | ⟨heq, h⟩
  · rw [show max - min max (s.length + (nonNul t).length) = 0 by omega]
    exact cleanBody_zero body
  · rw [heq] at h
    rwa [show max - min max (s.length + (nonNul t).length) =
      max - s.length - (nonNul t).length by omega]

/-! ## One request, two splits -/

/-- The string of the body of a request. -/
def BodyIs (r : Request) (s : Bytes) : Prop :=
  0 ∉ s ∧ s.length < ISERE_HTTPD_MAX_HTTP_BODY_LEN ∧
    r.body = padded ISERE_HTTPD_MAX_HTTP_BODY_LEN s

theorem BodyIs.other {r : Request} {s : Bytes} (h : BodyIs r s) (y : Yuarel) {cb : Callback}
    (hcb : ∀ at', cb ≠ .body at') : BodyIs (r.onCallback y cb) s := by
  have hbody : (r.onCallback y cb).body = r.body := by
    cases cb with
    | body at' => exact absurd rfl (hcb at')
    | headerField at' =>
      simp only [Request.onCallback, onHeaderField]
      split <;> rfl
    | headerValue at' =>
      simp only [Request.onCallback, onHeaderValue]
      split <;> rfl
    | headerFieldComplete =>
      simp only [Request.onCallback, onHeaderFieldComplete]
      split <;> rfl
    | headerValueComplete =>
      simp only [Request.onCallback, onHeaderValueComplete]
      split <;> rfl
    | _ => rfl
  exact ⟨h.1, h.2.1, hbody.trans h.2.2⟩

theorem BodyIs.data {r : Request} {s : Bytes} (h : BodyIs r s) {e : Element} (he : e ≠ .body)
    (f : Bytes → Bytes) : BodyIs (r.update e f) s := by
  have hbody : (r.update e f).body = r.body := by
    cases e with
    | body => exact absurd rfl he
    | method => rfl
    | url => rfl
    | headerField =>
      simp only [Request.update]
      split <;> rfl
    | headerValue =>
      simp only [Request.update]
      split <;> rfl
  exact ⟨h.1, h.2.1, hbody.trans h.2.2⟩

theorem BodyIs.body {r : Request} {s : Bytes} (h : BodyIs r s) (t : Bytes) :
    BodyIs (r.update .body (fun buf => addText Element.body.max buf t))
      ((s ++ nonNul t).take (ISERE_HTTPD_MAX_HTTP_BODY_LEN - 1)) := by
  refine ⟨?_, ?_, ?_⟩
  · intro hin
    rcases List.mem_append.mp (List.mem_of_mem_take hin) with hs | ht
    · exact h.1 hs
    · simpa using List.of_mem_filter ht
  · refine lt_of_le_of_lt (List.length_take_le _ _) (by decide)
  · simp only [Request.update, addText, h.2.2, cstr_padded h.1 h.2.1]
    rfl

/-- The text of a piece is clean for the buffer that it is added to. -/
theorem piece_clean {r : Request} (ht : r.Tidy) {s : Bytes} (hs : BodyIs r s) {e : Element}
    {t : Bytes} (hp : AfterUrl (.data e t))
    (hclean : e = .body → CleanText (ISERE_HTTPD_MAX_HTTP_BODY_LEN - 1 - s.length) t) {buf : Bytes}
    (hbuf : r.buffer e = some buf) :
    ∃ s, 0 ∉ s ∧ s.length < e.max ∧ buf = padded e.max s ∧ CleanText (e.max - 1 - s.length) t := by
  by_cases he : e = .body
  · subst he
    refine ⟨s, hs.1, hs.2.1, ?_, hclean rfl⟩
    rw [← Option.some.inj hbuf]
    exact hs.2.2
  · have hmid : e ≠ .method ∧ e ≠ .url := by
      constructor <;> · rintro rfl; exact hp
    have hnul : 0 ∉ t := by
      cases e with
      | headerField => exact hp
      | headerValue => exact hp
      | body => exact absurd rfl he
      | method => exact absurd rfl hmid.1
      | url => exact absurd rfl hmid.2
    obtain ⟨u, hu0, hulen, hu⟩ := ht.buffer hmid hbuf
    exact ⟨u, hu0, hulen, hu, clean_of_nul_free _ hnul⟩

/-- Two cuts of the headers and the body leave the same request. -/
theorem later_agree (y : Yuarel) {ps : Layout}
    (hps : ∀ p ∈ ps, AfterUrl p ∨ p = .event .messageComplete) {r : Request} (ht : r.Tidy)
    {s : Bytes} (hs : BodyIs r s)
    (hclean : CleanBody (ISERE_HTTPD_MAX_HTTP_BODY_LEN - 1 - s.length) (bodies ps))
    {ks js : List Callback} (hk : Cut Element.callback ps ks) (hj : Cut Element.callback ps js) :
    ks.foldl (Request.onCallback y) r = js.foldl (Request.onCallback y) r := by
  -- on the layout: both cuts tell its first element in parts, which add the
  -- same text to one buffer, and `s` is the body so far
  induction ps generalizing r s ks js with
  | nil =>
    cases hk
    cases hj
    rfl
  | cons p ps ih =>
    have hp := hps p List.mem_cons_self
    have hps' : ∀ q ∈ ps, AfterUrl q ∨ q = .event .messageComplete :=
      fun q hq => hps q (List.mem_cons_of_mem _ hq)
    cases p with
    | gap t => simp [AfterUrl] at hp
    | event k =>
      obtain ⟨ks, rfl, hk'⟩ := hk.event_inv
      obtain ⟨js, rfl, hj'⟩ := hj.event_inv
      have hother : ∀ at', k ≠ .body at' := by
        rintro at' rfl
        simp [AfterUrl] at hp
      exact ih hps' (ht.onCallback y k) (hs.other y hother) hclean hk' hj'
    | data e t =>
      obtain ⟨parts, ks, hparts, rfl, hk'⟩ := hk.data_inv
      obtain ⟨parts', js, hparts', rfl, hj'⟩ := hj.data_inv
      have hp' : AfterUrl (.data e t) := by simpa using hp
      have htext : e = .body →
          CleanText (ISERE_HTTPD_MAX_HTTP_BODY_LEN - 1 - s.length) t := by
        rintro rfl
        exact CleanBody.text hclean
      rw [List.foldl_append, List.foldl_append,
        onCallback_clean y (fun buf hbuf => hparts ▸ piece_clean ht hs hp' htext hbuf),
        onCallback_clean y (fun buf hbuf => hparts' ▸ piece_clean ht hs hp' htext hbuf),
        hparts, hparts']
      have htidy : (r.update e (fun buf => addText e.max buf t)).Tidy :=
        ht.update (fun buf _ => addText_padded (by cases e <;> decide) buf t)
      by_cases he : e = .body
      · subst he
        exact ih hps' htidy (hs.body t) hclean.rest hk' hj'
      · rw [bodies_skip he] at hclean
        exact ih hps' htidy (hs.data he _) hclean hk' hj'

theorem bodyIs_zero : BodyIs Request.zero [] :=
  ⟨List.not_mem_nil, by decide, by simp [Request.zero, padded]⟩

/-- Two cuts of a request with a clean body leave the same request. -/
theorem request_agree (y : Yuarel) {R : OneRequest} (hclean : R.Clean) {ks js : List Callback}
    (hk : Cut Element.callback (R.layout.filter reported) ks)
    (hj : Cut Element.callback (R.layout.filter reported) js) :
    ks.foldl (Request.onCallback y) Request.zero =
      js.foldl (Request.onCallback y) Request.zero := by
  rw [R.layout_reported] at hk hj
  obtain ⟨mk, ks, hmk, rfl, hk1⟩ := hk.data_inv
  obtain ⟨mj, js, hmj, rfl, hj1⟩ := hj.data_inv
  obtain ⟨ks, rfl, hk2⟩ := hk1.event_inv
  obtain ⟨js, rfl, hj2⟩ := hj1.event_inv
  obtain ⟨uk, ks, huk, rfl, hk3⟩ := hk2.data_inv
  obtain ⟨uj, js, huj, rfl, hj3⟩ := hj2.data_inv
  obtain ⟨ks, rfl, hk4⟩ := hk3.event_inv
  obtain ⟨js, rfl, hj4⟩ := hj3.event_inv
  have hmethod : ∀ parts : List Bytes, parts.flatten = R.method →
      (parts.map Element.method.callback).foldl (Request.onCallback y) Request.zero =
        Request.zero.update .method (fun buf => addText Element.method.max buf R.method) := by
    intro parts hparts
    rw [onCallback_clean y, hparts]
    intro buf hbuf
    rw [hparts, ← Option.some.inj hbuf]
    exact first_clean (by decide) R.method_nul
  generalize hr1 : Request.zero.update .method (fun buf => addText Element.method.max buf R.method)
    = r1 at hmethod
  have hurl : ∀ parts : List Bytes, parts.flatten = R.url →
      (parts.map Element.url.callback).foldl (Request.onCallback y)
        (r1.onCallback y .methodComplete) =
          r1.update .url (fun buf => addText Element.url.max buf R.url) := by
    intro parts hparts
    rw [onCallback_clean y, hparts]
    · rfl
    · intro buf hbuf
      rw [hparts, ← Option.some.inj hbuf, ← hr1]
      exact first_clean (by decide) R.url_nul
  rw [List.foldl_append, List.foldl_append, hmethod mk hmk, hmethod mj hmj, List.foldl_cons,
    List.foldl_cons, List.foldl_append, List.foldl_append, hurl uk huk, hurl uj huj,
    List.foldl_cons, List.foldl_cons]
  have htidy1 : r1.Tidy := hr1 ▸ ⟨tidy_zero.body, tidy_zero.rows⟩
  have htidy2 : (r1.update .url (fun buf => addText Element.url.max buf R.url)).Tidy :=
    ⟨htidy1.body, htidy1.rows⟩
  have hbody1 : BodyIs r1 [] := hr1 ▸ bodyIs_zero
  have hbody2 : BodyIs (r1.update .url (fun buf => addText Element.url.max buf R.url)) [] := hbody1
  apply later_agree y _ (htidy2.onCallback y .urlComplete) (s := []) hbody2 _ hk4 hj4
  · intro p hp
    rcases List.mem_append.mp hp with hp | hp
    · exact Or.inl (R.later_ok p hp)
    · exact Or.inr (List.mem_singleton.mp hp)
  · have hbodies : bodies (R.later ++ [.event .messageComplete]) = R.body := by
      unfold OneRequest.body bodies
      rw [List.filterMap_append]
      exact List.append_nil _
    rw [hbodies]
    exact hclean

/-! ## The chunks of a run -/

theorem onCallback_empty (y : Yuarel) (r : Request) {cb : Callback} (h : cb.isEmpty = true) :
    r.onCallback y cb = r := by
  have hdata : ∀ e : Element, r.onCallback y (e.callback []) = r := by
    intro e
    have hnil : (fun buf => appendPiece e.max buf []) = fun buf => buf := by
      funext buf
      simp [appendPiece]
    rw [onCallback_data, hnil, update_self]
  cases cb with
  | method at' => rw [show at' = [] by simpa [Callback.isEmpty] using h]; exact hdata .method
  | url at' => rw [show at' = [] by simpa [Callback.isEmpty] using h]; exact hdata .url
  | headerField at' =>
    rw [show at' = [] by simpa [Callback.isEmpty] using h]
    exact hdata .headerField
  | headerValue at' =>
    rw [show at' = [] by simpa [Callback.isEmpty] using h]
    exact hdata .headerValue
  | body at' => rw [show at' = [] by simpa [Callback.isEmpty] using h]; exact hdata .body
  | _ => cases h

/-- Callbacks without bytes change nothing. -/
theorem foldl_filter_empty (y : Yuarel) (cbs : List Callback) (r : Request) :
    (cbs.filter (fun cb => !cb.isEmpty)).foldl (Request.onCallback y) r =
      cbs.foldl (Request.onCallback y) r := by
  induction cbs generalizing r with
  | nil => rfl
  | cons cb cbs ih =>
    cases h : cb.isEmpty with
    | true =>
      rw [List.filter_cons_of_neg (by simp [h]), ih, List.foldl_cons, onCallback_empty y r h]
    | false => rw [List.filter_cons_of_pos (by simp [h]), List.foldl_cons, List.foldl_cons, ih]

theorem OneRequest.layout_pos (R : OneRequest) : 0 < R.text.length := by
  have hmem : .data .method R.method ∈ R.layout := by
    apply List.mem_of_mem_filter (p := reported)
    rw [R.layout_reported]
    exact List.mem_cons_self
  obtain ⟨ps, qs, hsplit⟩ := List.append_of_mem hmem
  have hne := List.length_pos_iff.mpr R.method_ne
  unfold OneRequest.text
  rw [hsplit]
  simp only [text_append, text_cons, Piece.text, List.length_append]
  omega

/-- The chunks of a request, as a cut of it. -/
theorem chunks_cut {l : Llhttp} {R : OneRequest} (hl : l.Reports R) {cs : List Bytes}
    (hc : Chunks R cs) : Cut Element.callback (R.layout.filter reported)
      ((l.callbacks [] cs).filter (fun cb => !cb.isEmpty)) := by
  have hlen : (text R.layout).length = (cs.map List.length).sum := by
    rw [← List.length_flatten, hc.flatten]
    rfl
  have hpos := R.layout_pos
  rw [hl cs hc]
  apply Cut.no_gap _ (fun _ => rfl) (fun _ _ => rfl) (fun _ => rfl)
  cases hn : cs.map List.length with
  | nil =>
    rw [hn] at hlen
    unfold OneRequest.text at hpos
    rw [hlen] at hpos
    exact absurd hpos (Nat.lt_irrefl _)
  | cons n ns =>
    apply feedAll_cut
    rw [hlen, hn]

/-! ## What a NUL inside the body does -/

/-- What a callback adds to the string of the body, while there is room. -/
def Callback.bodyBytes : Callback → Bytes
  | .body at' => cstr at'
  | _ => []

theorem body_after (y : Yuarel) (cbs : List Callback) {r : Request} {s : Bytes}
    (h : BodyIs r s) : BodyIs (cbs.foldl (Request.onCallback y) r)
      ((s ++ cbs.flatMap Callback.bodyBytes).take (ISERE_HTTPD_MAX_HTTP_BODY_LEN - 1)) := by
  induction cbs generalizing r s with
  | nil =>
    have hlen := h.2.1
    rw [List.flatMap_nil, List.append_nil, List.take_of_length_le (by omega)]
    exact h
  | cons cb cbs ih =>
    rw [List.flatMap_cons, ← List.append_assoc, ← take_of_take]
    apply ih
    by_cases hcb : ∃ at', cb = .body at'
    · obtain ⟨at', rfl⟩ := hcb
      refine ⟨take_nul_free h.1 _, lt_of_le_of_lt (List.length_take_le _ _) (by decide), ?_⟩
      have hbody : (r.onCallback y (.body at')).body =
          appendPiece ISERE_HTTPD_MAX_HTTP_BODY_LEN r.body at' := rfl
      rw [hbody, h.2.2, appendPiece_padded h.1 h.2.1]
      rfl
    · have hnone : cb.bodyBytes = [] := by
        cases cb <;> first | rfl | exact absurd ⟨_, rfl⟩ hcb
      have hlen := h.2.1
      rw [hnone, List.append_nil, List.take_of_length_le (by omega)]
      exact h.other y (fun at' he => hcb ⟨at', he⟩)

/-- What a callback weighs: the bytes that it adds to the body. -/
def bodyWeight (cb : Callback) : Nat := cb.bodyBytes.length

/-- A byte of the body weighs one, unless it is NUL. -/
def byteWeight (e : Element) (b : UInt8) : Nat := if e = .body ∧ b ≠ 0 then 1 else 0

theorem sum_byteWeight (s : Bytes) : (s.map (byteWeight .body)).sum = (nonNul s).length := by
  induction s with
  | nil => rfl
  | cons b s ih =>
    unfold nonNul at *
    rw [List.map_cons, List.sum_cons, ih, List.filter_cons]
    by_cases h : b = 0
    · simp [byteWeight, h]
    · simp [byteWeight, h, Nat.add_comm]

theorem bodyWeight_le (e : Element) (s : Bytes) :
    bodyWeight (e.callback s) ≤ (s.map (byteWeight e)).sum := by
  cases e with
  | body =>
    rw [sum_byteWeight]
    exact (cstr_begins_nonNul s).length_le
  | _ => exact Nat.zero_le _

theorem bodyWeight_one (e : Element) (b : UInt8) :
    bodyWeight (e.callback [b]) = byteWeight e b := by
  cases e with
  | body =>
    unfold bodyWeight byteWeight
    by_cases h : b = 0 <;> simp [Element.callback, Callback.bodyBytes, cstr_cons, h]
  | _ => simp [bodyWeight, byteWeight, Element.callback, Callback.bodyBytes]

theorem sum_byteWeight_other {e : Element} (he : e ≠ .body) (s : Bytes) :
    (s.map (byteWeight e)).sum = 0 := by
  have hzero : byteWeight e = fun _ => 0 := by
    funext b
    simp [byteWeight, he]
  simp [hzero]

theorem weight_later {ps : Layout} (hps : ∀ p ∈ ps, AfterUrl p) :
    weight bodyWeight byteWeight ps = ((bodies ps).flatMap nonNul).length := by
  induction ps with
  | nil => rfl
  | cons p ps ih =>
    have hp := hps p List.mem_cons_self
    have ih' := ih (fun q hq => hps q (List.mem_cons_of_mem _ hq))
    cases p with
    | gap t => exact absurd hp (by simp [AfterUrl])
    | event k =>
      have hk : bodyWeight k = 0 := by
        cases k with
        | body at' => exact absurd hp (by simp [AfterUrl])
        | _ => rfl
      rw [weight, hk, ih', Nat.zero_add]
      rfl
    | data e t =>
      by_cases he : e = .body
      · subst he
        have hbodies : bodies (.data .body t :: ps) = t :: bodies ps := rfl
        rw [weight, sum_byteWeight, ih', hbodies, List.flatMap_cons, List.length_append]
      · rw [weight, sum_byteWeight_other he, ih', bodies_skip he, Nat.zero_add]

/-- The body of the request weighs what its runs hold. -/
theorem weight_layout (R : OneRequest) :
    weight bodyWeight byteWeight R.layout = (R.body.flatMap nonNul).length := by
  rw [← weight_no_gap (f := reported) (fun _ => rfl) (fun _ _ => rfl) (fun _ => rfl),
    R.layout_reported]
  simp only [weight, weight_append, sum_byteWeight_other (show Element.method ≠ .body by decide),
    sum_byteWeight_other (show Element.url ≠ .body by decide), weight_later R.later_ok]
  simp [bodyWeight, Callback.bodyBytes, OneRequest.body]

/-- The body that the handler is given is as long as what the callbacks add. -/
theorem handler_body_length {l : Llhttp} {R : OneRequest} (hl : l.Reports R) (y : Yuarel)
    {cs : List Bytes} (hc : Chunks R cs) :
    (received l y cs).handlerArgs.body.length = min (ISERE_HTTPD_MAX_HTTP_BODY_LEN - 1)
      (total bodyWeight (feedAll Element.callback R.layout (cs.map List.length))) := by
  have hafter := body_after y (feedAll Element.callback R.layout (cs.map List.length)) bodyIs_zero
  have hreceived : received l y cs = (feedAll Element.callback R.layout
      (cs.map List.length)).foldl (Request.onCallback y) Request.zero := by
    unfold received
    rw [← foldl_filter_empty, hl cs hc]
  have hbody : (received l y cs).handlerArgs.body = _ :=
    (congrArg cstr (hreceived ▸ hafter.2.2)).trans (cstr_padded hafter.1 hafter.2.1)
  rw [hbody, List.nil_append, List.length_take, List.length_flatMap]
  rfl

/-! ## Two splits that differ -/

/-- Chunks of one byte. -/
def ones (s : Bytes) : List Bytes := s.map (fun b => [b])

theorem ones_flatten (s : Bytes) : (ones s).flatten = s := by
  induction s with
  | nil => rfl
  | cons b s ih => exact congrArg (b :: ·) ih

theorem ones_length (s : Bytes) : (ones s).map List.length = List.replicate s.length 1 := by
  induction s with
  | nil => rfl
  | cons b s ih => exact congrArg (1 :: ·) ih

theorem mem_ones {s : Bytes} {c : Bytes} (h : c ∈ ones s) : ∃ b, c = [b] := by
  obtain ⟨b, -, rfl⟩ := List.mem_map.mp h
  exact ⟨b, rfl⟩

theorem ones_chunks (R : OneRequest) : Chunks R (ones R.text) := by
  refine ⟨ones_flatten _, fun c hc => ?_, fun c hc => ?_⟩
  · obtain ⟨b, rfl⟩ := mem_ones hc
    exact List.cons_ne_nil _ _
  · obtain ⟨b, rfl⟩ := mem_ones hc
    exact (by decide : 1 ≤ ISERE_HTTPD_LINE_BUFFER_LEN)

/-- Byte by byte, all of the body comes through. -/
theorem ones_total (R : OneRequest) :
    total bodyWeight (feedAll Element.callback R.layout ((ones R.text).map List.length)) =
      weight bodyWeight byteWeight R.layout := by
  have hones := feedAll_weight_ones (v := byteWeight) bodyWeight_one R.text.length R.layout
  obtain ⟨k, hk⟩ : ∃ k, R.text.length = k + 1 := ⟨R.text.length - 1, by have := R.layout_pos; omega⟩
  have hrest : rest Element.callback R.layout (List.replicate R.text.length 1) = [] := by
    rw [hk, List.replicate_succ, rest_eq, ← List.replicate_succ, ← hk]
    apply feed_last
    simp [OneRequest.text]
  rw [hrest] at hones
  rw [ones_length]
  exact hones

/-- The layout around a run of the body: bytes come before it. -/
theorem body_in_layout {R : OneRequest} {s : Bytes} (h : s ∈ R.body) :
    ∃ ps qs, R.layout = ps ++ .data .body s :: qs ∧ 0 < (text ps).length := by
  obtain ⟨p, hp, hsome⟩ := List.mem_filterMap.mp h
  have hdata : p = .data .body s := by
    cases p with
    | gap t => cases hsome
    | event k => cases hsome
    | data e t => cases e <;> cases hsome; rfl
  subst hdata
  have hmem : .data .body s ∈ R.layout := by
    apply List.mem_of_mem_filter (p := reported)
    rw [R.layout_reported]
    simp [hp]
  obtain ⟨ps, qs, hsplit⟩ := List.append_of_mem hmem
  refine ⟨ps, qs, hsplit, ?_⟩
  have hreported := R.layout_reported
  rw [hsplit, List.filter_append] at hreported
  cases hps : ps.filter reported with
  | nil =>
    rw [hps, List.nil_append, List.filter_cons_of_pos rfl, List.cons.injEq] at hreported
    cases hreported.1
  | cons p ps' =>
    rw [hps, List.cons_append, List.cons.injEq] at hreported
    have hin : .data .method R.method ∈ ps := by
      apply List.mem_of_mem_filter (p := reported)
      rw [hps, hreported.1]
      exact List.mem_cons_self
    obtain ⟨as, bs, rfl⟩ := List.append_of_mem hin
    have hne := List.length_pos_iff.mpr R.method_ne
    simp only [text_append, text_cons, Piece.text, List.length_append]
    omega

/-- When a byte follows a NUL in one chunk, it is lost. -/
theorem pair_split {R : OneRequest} {s : Bytes} (hs : s ∈ R.body) (hne : cstr s ≠ nonNul s) :
    ∃ cs, Chunks R cs ∧
      total bodyWeight (feedAll Element.callback R.layout (cs.map List.length)) <
        weight bodyWeight byteWeight R.layout := by
  obtain ⟨a, x, b, rfl, hx⟩ := nul_inside hne
  obtain ⟨ps, qs, hlayout, hpos⟩ := body_in_layout hs
  have htext : R.text = (text ps ++ a) ++ ([0, x] ++ (b ++ text qs)) := by
    unfold OneRequest.text
    rw [hlayout]
    simp [Piece.text]
  -- every byte comes alone, but the NUL and the byte after it share a chunk
  refine ⟨ones (text ps ++ a) ++ ([0, x] :: ones (b ++ text qs)), ⟨?_, ?_, ?_⟩, ?_⟩
  · rw [List.flatten_append, List.flatten_cons, ones_flatten, ones_flatten, htext]
  · intro c hc
    rcases List.mem_append.mp hc with hc | hc
    · obtain ⟨d, rfl⟩ := mem_ones hc
      exact List.cons_ne_nil _ _
    · rcases List.mem_cons.mp hc with rfl | hc
      · exact List.cons_ne_nil _ _
      · obtain ⟨d, rfl⟩ := mem_ones hc
        exact List.cons_ne_nil _ _
  · intro c hc
    rcases List.mem_append.mp hc with hc | hc
    · obtain ⟨d, rfl⟩ := mem_ones hc
      exact (by decide : 1 ≤ ISERE_HTTPD_LINE_BUFFER_LEN)
    · rcases List.mem_cons.mp hc with rfl | hc
      · exact (by decide : 2 ≤ ISERE_HTTPD_LINE_BUFFER_LEN)
      · obtain ⟨d, rfl⟩ := mem_ones hc
        exact (by decide : 1 ≤ ISERE_HTTPD_LINE_BUFFER_LEN)
  · obtain ⟨k, hk⟩ : ∃ k, (text ps).length + a.length = k + 1 :=
      ⟨(text ps).length + a.length - 1, by omega⟩
    have hbefore := feedAll_weight_ones (v := byteWeight) bodyWeight_one (k + 1) R.layout
    have hrest : rest Element.callback R.layout (List.replicate (k + 1) 1) =
        .data .body (0 :: x :: b) :: qs := by
      rw [List.replicate_succ, rest_eq, ← List.replicate_succ, hlayout]
      have hto := feed_to Element.callback ps qs .body a (0 :: x :: b) (List.cons_ne_nil _ _)
      rw [hk] at hto
      simpa using hto
    have hpair := feed_weight_pair (v := byteWeight) (e := .body) (a := 0) (x := x) bodyWeight_le
      (by simp [bodyWeight, byteWeight, Element.callback, Callback.bodyBytes, cstr_cons, hx]) b qs
    have hafter := feedAll_weight_le (v := byteWeight) bodyWeight_le
      ((ones (b ++ text qs)).map List.length)
      (feed Element.callback 2 (.data .body (0 :: x :: b) :: qs)).2
    rw [hrest] at hbefore
    have htwo : ([0, x] : Bytes).length = 2 := rfl
    rw [List.map_append, List.map_cons, ones_length (text ps ++ a), List.length_append, hk, htwo,
      feedAll_append, hrest, total_append, feedAll, total_append]
    omega

/-! ## The arguments of the handler -/

/-- A body in which only NULs follow the first NUL of each run is clean. -/
theorem clean_of_runs {body : List Bytes} (h : ∀ s ∈ body, cstr s = nonNul s) (room : Nat) :
    CleanBody room body := by
  induction body generalizing room with
  | nil => trivial
  | cons s body ih =>
    exact Or.inr ⟨h s List.mem_cons_self, ih (fun t ht => h t (List.mem_cons_of_mem _ ht)) _⟩

/-- A list that ends with its only `x` is cut there. -/
theorem only_last {α : Type} {x : α} {pre post init : List α} (hx : x ∉ init)
    (h : pre ++ x :: post = init ++ [x]) : pre = init ∧ post = [] := by
  rcases List.eq_nil_or_concat post with rfl | ⟨t, z, rfl⟩
  · exact ⟨(List.append_inj' h rfl).1, rfl⟩
  · rw [List.concat_eq_append, ← List.cons_append, ← List.append_assoc] at h
    have hinit := (List.append_inj' h rfl).1
    exact absurd (by rw [← hinit]; simp) hx

/-- The message ends with the last callback that has bytes or ends something. -/
theorem message_ends_last {l : Llhttp} {R : OneRequest} (hl : l.Reports R) {cs : List Bytes}
    (hc : Chunks R cs) : ∃ init, .messageComplete ∉ init ∧
      (l.callbacks [] cs).filter (fun cb => !cb.isEmpty) = init ++ [.messageComplete] := by
  have hcut := chunks_cut hl hc
  have hfront : R.layout.filter reported =
      (.data .method R.method :: .event .methodComplete :: .data .url R.url ::
        .event .urlComplete :: R.later) ++ [.event .messageComplete] := by
    rw [R.layout_reported]
    rfl
  rw [hfront] at hcut
  obtain ⟨init, last, heq, hinit, hlast⟩ := hcut.append_inv
  obtain ⟨rest, rfl, hrest⟩ := hlast.event_inv
  cases hrest
  refine ⟨init, hinit.not_mem (fun e s => by cases e <;> simp [Element.callback]) ?_, heq⟩
  intro hin
  simp only [List.mem_cons, Piece.event.injEq, reduceCtorEq, false_or] at hin
  exact R.later_ok _ hin

/-- In every run, a handler that was called for the request of a connection got
what its chunks make of it. -/
theorem handler_args_of_run {l : Llhttp} {y : Yuarel} {R : OneRequest}
    (hl : l.Reports R) {s : Httpd} (hs : ReceivedOk l y s) {c : ConnId} {a : HandlerArgs}
    (ha : .handler c a ∈ s.trace) (htext : (s.conns c).fed.flatten = R.text) :
    Chunks R (s.conns c).fed ∧ a = (received l y (s.conns c).fed).handlerArgs := by
  have hc : Chunks R (s.conns c).fed :=
    ⟨htext, fun b hb => (hs.sizes c b hb).1, fun b hb => (hs.sizes c b hb).2⟩
  refine ⟨hc, ?_⟩
  obtain ⟨pre, post, heq, rfl⟩ := hs.handed c a ha
  obtain ⟨init, hnot, hfilter⟩ := message_ends_last hl hc
  rw [heq, List.filter_append, List.filter_cons_of_pos rfl] at hfilter
  obtain ⟨-, hpost⟩ := only_last hnot hfilter
  have hall : received l y (s.conns c).fed =
      pre.foldl (Request.onCallback y) Request.zero := by
    unfold received
    rw [heq, List.foldl_append, List.foldl_cons, ← foldl_filter_empty y post, hpost]
    rfl
  rw [hall]

/-- The arguments of the handler are the same for every split into chunks when
the body is clean, and only then when its bytes other than NUL fit the buffer.
They are the arguments in every run of the server. -/
theorem the_split_of_a_request_does_not_matter_iff (l : Llhttp) (y : Yuarel) (R : OneRequest)
    (hl : l.Reports R) :
    (R.Clean → ∀ cs cs', Chunks R cs → Chunks R cs' →
      (received l y cs).handlerArgs = (received l y cs').handlerArgs) ∧
    ((R.body.flatMap nonNul).length < ISERE_HTTPD_MAX_HTTP_BODY_LEN →
      (∀ cs cs', Chunks R cs → Chunks R cs' →
        (received l y cs).handlerArgs = (received l y cs').handlerArgs) → R.Clean) ∧
    ∀ cfg serverfd is c a, .handler c a ∈ (run (step cfg l y) (start serverfd) is).trace →
      ((run (step cfg l y) (start serverfd) is).conns c).fed.flatten = R.text →
      Chunks R ((run (step cfg l y) (start serverfd) is).conns c).fed ∧
        a = (received l y ((run (step cfg l y) (start serverfd) is).conns c).fed).handlerArgs := by
  refine ⟨?_, ?_, ?_⟩
  · intro hclean cs cs' hc hc'
    have hsame := request_agree y hclean (chunks_cut hl hc) (chunks_cut hl hc')
    rw [foldl_filter_empty, foldl_filter_empty] at hsame
    unfold received
    rw [hsame]
  · intro hfits hsame
    apply clean_of_runs
    intro s hs
    by_contra hne
    obtain ⟨cs, hc, hlt⟩ := pair_split hs hne
    have hargs := congrArg (fun args => args.body.length) (hsame _ _ (ones_chunks R) hc)
    simp only [handler_body_length hl y (ones_chunks R), handler_body_length hl y hc,
      ones_total] at hargs
    rw [← weight_layout] at hfits
    omega
  · intro cfg serverfd is c a ha htext
    exact handler_args_of_run hl (run_received serverfd is) ha htext

/-! ## A parser for one request -/

/-- The parser that knows the layout of the request that it will be given. -/
def layoutLlhttp (ps : Layout) : Llhttp where
  execute fed chunk :=
    let left := rest Element.callback ps (fed.map List.length)
    ((feed Element.callback chunk.length left).1, .HPE_OK)

theorem layoutLlhttp_callbacks (ps : Layout) (fed cs : List Bytes) :
    (layoutLlhttp ps).callbacks fed cs = feedAll Element.callback
      (rest Element.callback ps (fed.map List.length)) (cs.map List.length) := by
  induction cs generalizing fed with
  | nil => rfl
  | cons c cs ih =>
    have hrest : rest Element.callback ps ((fed ++ [c]).map List.length) = (feed Element.callback
        c.length (rest Element.callback ps (fed.map List.length))).2 := by
      unfold rest
      rw [List.map_append, List.foldl_append]
      rfl
    rw [Llhttp.callbacks, ih, hrest]
    rfl

/-- It reports the request, however it is split. -/
theorem layoutLlhttp_reports (R : OneRequest) : (layoutLlhttp R.layout).Reports R := by
  intro cs _
  rw [layoutLlhttp_callbacks]
  apply List.filter_eq_self.mpr
  intro cb hcb
  have hempty : cb.isEmpty = false := by
    rcases mem_feedAll Element.callback hcb with ⟨e, s, hs, rfl⟩ | hevent
    · cases e <;> simpa [Element.callback, Callback.isEmpty] using hs
    · have hin : .event cb ∈ R.layout.filter reported := List.mem_filter.mpr ⟨hevent, rfl⟩
      rw [R.layout_reported] at hin
      have hlater := R.later_ok (.event cb)
      cases cb <;> first | rfl | simp [AfterUrl] at hin hlater; exact absurd hin hlater
  simp [hempty]

/-- `POST /` with a body of three bytes. -/
def postRequest (body : Bytes) : OneRequest where
  method := ascii "POST"
  url := ascii "/"
  later := [.data .headerField (ascii "Content-Length"), .event .headerFieldComplete,
    .data .headerValue (ascii "3"), .event .headerValueComplete, .event .headersComplete,
    .data .body body]
  layout := [.data .method (ascii "POST"), .event .methodComplete, .gap (ascii " "),
    .data .url (ascii "/"), .event .urlComplete, .gap (ascii " HTTP/1.1\r\n"),
    .data .headerField (ascii "Content-Length"), .event .headerFieldComplete, .gap (ascii ": "),
    .data .headerValue (ascii "3"), .event .headerValueComplete, .gap (ascii "\r\n\r\n"),
    .event .headersComplete, .data .body body, .event .messageComplete]
  layout_reported := rfl
  method_ne := by decide
  method_nul := by decide
  url_nul := by decide
  later_ok := by
    simp only [List.forall_mem_cons, AfterUrl]
    exact ⟨by decide, trivial, by decide, trivial, trivial, trivial, by simp⟩

theorem one_chunk {R : OneRequest} (h : R.text.length ≤ ISERE_HTTPD_LINE_BUFFER_LEN) :
    Chunks R [R.text] := by
  refine ⟨by simp, fun c hc => ?_, fun c hc => ?_⟩
  · rw [List.mem_singleton.mp hc]
    exact List.length_pos_iff.mp R.layout_pos
  · rw [List.mem_singleton.mp hc]
    exact h

theorem two_chunks {R : OneRequest} (h : R.text.length ≤ ISERE_HTTPD_LINE_BUFFER_LEN) {n : Nat}
    (hn : 0 < n) (hlt : n < R.text.length) : Chunks R [R.text.take n, R.text.drop n] := by
  refine ⟨by simp, fun c hc => List.length_pos_iff.mp ?_, fun c hc => ?_⟩
  · rcases List.mem_pair.mp hc with rfl | rfl
    · rw [List.length_take]
      omega
    · rw [List.length_drop]
      omega
  · rcases List.mem_pair.mp hc with rfl | rfl
    · rw [List.length_take]
      omega
    · rw [List.length_drop]
      omega

theorem a_plain_body_may_be_split :
    (received (layoutLlhttp (postRequest (ascii "abc")).layout) slashYuarel
        [(postRequest (ascii "abc")).text]).handlerArgs =
      (received (layoutLlhttp (postRequest (ascii "abc")).layout) slashYuarel
        [(postRequest (ascii "abc")).text.take 40,
          (postRequest (ascii "abc")).text.drop 40]).handlerArgs :=
  (the_split_of_a_request_does_not_matter_iff (layoutLlhttp (postRequest (ascii "abc")).layout)
    slashYuarel (postRequest (ascii "abc")) (layoutLlhttp_reports _)).1
    (Or.inr ⟨by decide, trivial⟩) _ _ (one_chunk (by decide))
    (two_chunks (by decide) (by decide) (by decide))

/-- One chunk ends the body at the NUL, two chunks do not. -/
theorem a_nul_in_the_body_makes_the_split_matter :
    (layoutLlhttp (postRequest [97, 0, 98]).layout).Reports (postRequest [97, 0, 98]) ∧
      Chunks (postRequest [97, 0, 98]) [(postRequest [97, 0, 98]).text] ∧
      Chunks (postRequest [97, 0, 98])
        [(postRequest [97, 0, 98]).text.take 40, (postRequest [97, 0, 98]).text.drop 40] ∧
      (received (layoutLlhttp (postRequest [97, 0, 98]).layout) slashYuarel
        [(postRequest [97, 0, 98]).text]).handlerArgs.body = [97] ∧
      (received (layoutLlhttp (postRequest [97, 0, 98]).layout) slashYuarel
        [(postRequest [97, 0, 98]).text.take 40,
          (postRequest [97, 0, 98]).text.drop 40]).handlerArgs.body = [97, 98] :=
  ⟨layoutLlhttp_reports _, one_chunk (by decide), two_chunks (by decide) (by decide) (by decide),
    by decide +kernel, by decide +kernel⟩

end isere.httpd
