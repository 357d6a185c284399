-- The head of a request in the buffers of its connection: the first bytes of the
-- method and of the target, and the first 16 headers, each with its own value,
-- wherever llhttp cuts the elements.
import Isere.Received
import Isere.RequestBuffers

open cstring runs segments

namespace isere.httpd

/-! ## A request head -/

/-- A request head, as its elements. llhttp lets no NUL into any of them. -/
structure RequestHead where
  method : Bytes
  target : Bytes
  fields : List (Bytes × Bytes)
  method_nul : 0 ∉ method
  target_nul : 0 ∉ target
  name_nul : ∀ f ∈ fields, 0 ∉ f.1
  value_nul : ∀ f ∈ fields, 0 ∉ f.2

/-- A header field, as llhttp reports it. -/
def fieldLayout (f : Bytes × Bytes) : List (Piece Element Callback UInt8) :=
  [.data .headerField f.1, .event .headerFieldComplete, .data .headerValue f.2,
    .event .headerValueComplete]

/-- What llhttp reports of a head, in order. -/
def RequestHead.layout (h : RequestHead) : List (Piece Element Callback UInt8) :=
  .data .method h.method :: .event .methodComplete :: .data .url h.target ::
    .event .urlComplete :: (h.fields.flatMap fieldLayout ++ [.event .headersComplete])

/-! ## What is kept of it -/

/-- The first bytes of a text in a buffer of `max` bytes, with NULs after them. -/
def kept (max : Nat) (text : Bytes) : Bytes := padded max (text.take (max - 1))

def keptHeader (f : Bytes × Bytes) : HttpdHeader where
  name := kept ISERE_HTTPD_MAX_HTTP_HEADER_NAME_LEN f.1
  value := kept ISERE_HTTPD_MAX_HTTP_HEADER_VALUE_LEN f.2

/-- The request line in its buffers. -/
structure LineKept (h : RequestHead) (r : Request) : Prop where
  method : r.method = kept ISERE_HTTPD_MAX_HTTP_METHOD_LEN h.method
  path : r.path = kept ISERE_HTTPD_MAX_HTTP_PATH_LEN h.target

/-- The head in its buffers, as far as it fits: each header in its row. -/
structure HeadKept (h : RequestHead) (r : Request) : Prop where
  method : r.method = kept ISERE_HTTPD_MAX_HTTP_METHOD_LEN h.method
  numHeaderFields : r.numHeaderFields = min h.fields.length ISERE_HTTPD_MAX_HTTP_HEADERS
  numHeaderValues : r.numHeaderValues = min h.fields.length ISERE_HTTPD_MAX_HTTP_HEADERS
  rows : ∀ (i : Nat) (f : Bytes × Bytes), i < ISERE_HTTPD_MAX_HTTP_HEADERS →
    h.fields[i]? = some f → r.headers[i]? = some (keptHeader f)

/-! ## One element -/

/-- The first element for a buffer that is all NULs. -/
theorem addText_zeros {max : Nat} (hmax : 0 < max) {text : Bytes} (h : 0 ∉ text) :
    addText max (List.replicate max 0) text = kept max text := by
  have hzeros : List.replicate max 0 = padded max [] := by simp [padded]
  unfold addText kept
  rw [hzeros, cstr_padded List.not_mem_nil hmax, nonNul_of_nul_free h, List.nil_append]

/-- The pieces of an element leave the first bytes of it in an empty buffer. -/
theorem onCallback_kept (y : Yuarel) {r : Request} {e : Element} {parts : List Bytes}
    (h0 : 0 ∉ parts.flatten)
    (hbuf : ∀ buf, r.buffer e = some buf → buf = List.replicate e.max 0) :
    (parts.map e.callback).foldl (Request.onCallback y) r =
      r.update e (fun _ => kept e.max parts.flatten) := by
  have hmax : 0 < e.max := by cases e <;> decide
  rw [onCallback_clean y]
  · apply update_congr
    intro buf hb
    rw [hbuf buf hb]
    exact addText_zeros hmax h0
  · intro buf hb
    rw [hbuf buf hb]
    exact first_clean hmax h0

/-! ## The headers -/

def zeroHeader : HttpdHeader where
  name := List.replicate ISERE_HTTPD_MAX_HTTP_HEADER_NAME_LEN 0
  value := List.replicate ISERE_HTTPD_MAX_HTTP_HEADER_VALUE_LEN 0

/-- A request that has the headers `fs`. -/
def Request.withFields (r : Request) (fs : List (Bytes × Bytes)) : Request :=
  { r with
    headers := fs.map keptHeader ++
      List.replicate (ISERE_HTTPD_MAX_HTTP_HEADERS - fs.length) zeroHeader,
    numHeaderFields := fs.length,
    numHeaderValues := fs.length }

/-- The same with a header in the next row, and any counts. -/
def Request.atRow (r : Request) (fs : List (Bytes × Bytes)) (h : HttpdHeader) (nf nv : Nat) :
    Request :=
  { r with
    headers := fs.map keptHeader ++
      h :: List.replicate (ISERE_HTTPD_MAX_HTTP_HEADERS - fs.length - 1) zeroHeader,
    numHeaderFields := nf,
    numHeaderValues := nv }

theorem modify_middle {α : Type} {l : List α} {n : Nat} (hn : l.length = n) (a : α)
    (rest : List α) (f : α → α) : (l ++ a :: rest).modify n f = l ++ f a :: rest := by
  subst hn
  induction l with
  | nil => rfl
  | cons b l ih => rw [List.cons_append, List.length_cons, List.modify_succ_cons, ih]; rfl

theorem atRow_eq_withFields (r : Request) (fs : List (Bytes × Bytes)) (f : Bytes × Bytes) :
    r.atRow fs (keptHeader f) (fs.length + 1) (fs.length + 1) = r.withFields (fs ++ [f]) := by
  unfold Request.withFields Request.atRow
  simp [Nat.sub_sub]

section Row

variable {r : Request} {fs : List (Bytes × Bytes)} (hlt : fs.length < ISERE_HTTPD_MAX_HTTP_HEADERS)

include hlt

theorem withFields_eq_atRow : r.withFields fs = r.atRow fs zeroHeader fs.length fs.length := by
  unfold Request.withFields Request.atRow
  rw [← List.replicate_succ,
    show ISERE_HTTPD_MAX_HTTP_HEADERS - fs.length - 1 + 1 =
      ISERE_HTTPD_MAX_HTTP_HEADERS - fs.length by omega]

theorem atRow_buffer (h : HttpdHeader) (nf nv : Nat) :
    (r.atRow fs h fs.length nv).buffer .headerField = some h.name ∧
      (r.atRow fs h nf fs.length).buffer .headerValue = some h.value := by
  unfold Request.buffer Request.atRow
  simp [hlt]

theorem atRow_update_field (h : HttpdHeader) (nv : Nat) (g : Bytes → Bytes) :
    (r.atRow fs h fs.length nv).update .headerField g =
      r.atRow fs { h with name := g h.name } fs.length nv := by
  unfold Request.update Request.atRow
  simp only [hlt, ↓reduceIte]
  rw [modify_middle (List.length_map _)]

theorem atRow_update_value (h : HttpdHeader) (nf : Nat) (g : Bytes → Bytes) :
    (r.atRow fs h nf fs.length).update .headerValue g =
      r.atRow fs { h with value := g h.value } nf fs.length := by
  unfold Request.update Request.atRow
  simp only [hlt, ↓reduceIte]
  rw [modify_middle (List.length_map _)]

theorem atRow_fieldComplete (h : HttpdHeader) (nv : Nat) :
    onHeaderFieldComplete (r.atRow fs h fs.length nv) = r.atRow fs h (fs.length + 1) nv := by
  rw [onHeaderFieldComplete_eq]
  exact if_pos hlt

theorem atRow_valueComplete (h : HttpdHeader) (nf : Nat) :
    onHeaderValueComplete (r.atRow fs h nf fs.length) = r.atRow fs h nf (fs.length + 1) := by
  rw [onHeaderValueComplete_eq]
  exact if_pos hlt

end Row

/-- After the last row, the callbacks of a header do nothing. -/
theorem header_dropped (y : Yuarel) {r : Request}
    (hf : r.numHeaderFields = ISERE_HTTPD_MAX_HTTP_HEADERS)
    (hv : r.numHeaderValues = ISERE_HTTPD_MAX_HTTP_HEADERS) {e : Element}
    (he : e = .headerField ∨ e = .headerValue) (parts : List Bytes) :
    (parts.map e.callback).foldl (Request.onCallback y) r = r ∧
      r.onCallback y .headerFieldComplete = r ∧ r.onCallback y .headerValueComplete = r := by
  refine ⟨?_, ?_, ?_⟩
  · rw [onCallback_parts]
    rcases he with rfl | rfl
    · simp [Request.update, hf]
    · simp [Request.update, hv]
  · simp [Request.onCallback, onHeaderFieldComplete, hf]
  · simp [Request.onCallback, onHeaderValueComplete, hv]

/-- A field fills the next row, or none after the last. -/
theorem field_kept (y : Yuarel) (r : Request) {fs : List (Bytes × Bytes)}
    (hlen : fs.length ≤ ISERE_HTTPD_MAX_HTTP_HEADERS) {f : Bytes × Bytes} (hname : 0 ∉ f.1)
    (hvalue : 0 ∉ f.2) {ks : List Callback} (hcut : Cut Element.callback (fieldLayout f) ks) :
    ks.foldl (Request.onCallback y) (r.withFields fs) =
      r.withFields ((fs ++ [f]).take ISERE_HTTPD_MAX_HTTP_HEADERS) := by
  obtain ⟨names, ks, hnames, rfl, hcut1⟩ := hcut.data_inv
  obtain ⟨ks, rfl, hcut2⟩ := hcut1.event_inv
  obtain ⟨values, ks, hvalues, rfl, hcut3⟩ := hcut2.data_inv
  obtain ⟨ks, rfl, hcut4⟩ := hcut3.event_inv
  cases hcut4
  simp only [List.foldl_append, List.foldl_cons, List.foldl_nil]
  rcases Nat.lt_or_ge fs.length ISERE_HTTPD_MAX_HTTP_HEADERS with hlt | hge
  · have hnames' : (names.map Element.headerField.callback).foldl (Request.onCallback y)
        (r.withFields fs) = r.atRow fs { zeroHeader with name := (keptHeader f).name }
          fs.length fs.length := by
      rw [onCallback_kept y (by rwa [hnames]), withFields_eq_atRow hlt, atRow_update_field hlt,
        hnames]
      · rfl
      · intro buf hbuf
        rw [withFields_eq_atRow hlt, (atRow_buffer hlt _ 0 _).1] at hbuf
        exact (Option.some.inj hbuf).symm
    have hvalues' : (values.map Element.headerValue.callback).foldl (Request.onCallback y)
        (r.atRow fs { zeroHeader with name := (keptHeader f).name } (fs.length + 1) fs.length) =
          r.atRow fs (keptHeader f) (fs.length + 1) fs.length := by
      rw [onCallback_kept y (by rwa [hvalues]), atRow_update_value hlt, hvalues]
      · rfl
      · intro buf hbuf
        rw [(atRow_buffer hlt _ _ 0).2] at hbuf
        exact (Option.some.inj hbuf).symm
    have hroom : (fs ++ [f]).take ISERE_HTTPD_MAX_HTTP_HEADERS = fs ++ [f] := by
      apply List.take_of_length_le
      rw [List.length_append]
      exact hlt
    rw [hnames', hroom, ← atRow_eq_withFields]
    simp only [Request.onCallback]
    rw [atRow_fieldComplete hlt, hvalues', atRow_valueComplete hlt]
  · have hfull := Nat.le_antisymm hlen hge
    obtain ⟨hn, hfc, -⟩ := header_dropped y (r := r.withFields fs) hfull hfull (Or.inl rfl) names
    obtain ⟨hv, -, hvc⟩ := header_dropped y (r := r.withFields fs) hfull hfull (Or.inr rfl) values
    rw [hn, hfc, hv, hvc, List.take_append_of_le_length hge, List.take_of_length_le hlen]

/-- The fields fill the rows in order, up to the last row. -/
theorem fields_kept (y : Yuarel) (r : Request) {fs gs : List (Bytes × Bytes)}
    (hlen : fs.length ≤ ISERE_HTTPD_MAX_HTTP_HEADERS) (hname : ∀ f ∈ gs, 0 ∉ f.1)
    (hvalue : ∀ f ∈ gs, 0 ∉ f.2) {ks : List Callback}
    (hcut : Cut Element.callback (gs.flatMap fieldLayout) ks) :
    ks.foldl (Request.onCallback y) (r.withFields fs) =
      r.withFields ((fs ++ gs).take ISERE_HTTPD_MAX_HTTP_HEADERS) := by
  induction gs generalizing fs ks with
  | nil =>
    cases hcut
    rw [List.append_nil, List.take_of_length_le hlen]
    rfl
  | cons g gs ih =>
    rw [List.flatMap_cons] at hcut
    obtain ⟨is, js, rfl, hi, hj⟩ := hcut.append_inv
    have htake : ((fs ++ [g]).take ISERE_HTTPD_MAX_HTTP_HEADERS ++ gs).take
        ISERE_HTTPD_MAX_HTTP_HEADERS = (fs ++ g :: gs).take ISERE_HTTPD_MAX_HTTP_HEADERS := by
      rw [take_of_take, List.append_assoc, List.singleton_append]
    rw [List.foldl_append, field_kept y r hlen (hname g List.mem_cons_self)
      (hvalue g List.mem_cons_self) hi, ih (List.length_take_le _ _)
      (fun f hf => hname f (List.mem_cons_of_mem _ hf))
      (fun f hf => hvalue f (List.mem_cons_of_mem _ hf)) hj, htake]

/-! ## The whole head -/

/-- A connection that read the request line and nothing else. -/
def RequestHead.line (h : RequestHead) : Request :=
  { Request.zero with
    method := kept ISERE_HTTPD_MAX_HTTP_METHOD_LEN h.method,
    path := kept ISERE_HTTPD_MAX_HTTP_PATH_LEN h.target }

/-- Before `__on_url_complete`, the buffers hold the request line. -/
theorem line_kept (y : Yuarel) (h : RequestHead) {methods urls : List Bytes}
    (hmethods : methods.flatten = h.method) (hurls : urls.flatten = h.target) :
    (methods.map Element.method.callback ++ .methodComplete ::
        urls.map Element.url.callback).foldl (Request.onCallback y) Request.zero = h.line := by
  have hmethod : (methods.map Element.method.callback).foldl (Request.onCallback y) Request.zero =
      Request.zero.update .method (fun _ => kept Element.method.max methods.flatten) :=
    onCallback_kept y (hmethods ▸ h.method_nul) (fun buf hb => (Option.some.inj hb).symm)
  have hurl : ∀ r : Request, r.path = Request.zero.path →
      (urls.map Element.url.callback).foldl (Request.onCallback y) r =
        r.update .url (fun _ => kept Element.url.max urls.flatten) :=
    fun r hr => onCallback_kept y (hurls ▸ h.target_nul)
      (fun buf hb => (Option.some.inj hb).symm.trans hr)
  rw [List.foldl_append, List.foldl_cons, hmethod, hmethods]
  refine (hurl (Request.zero.update .method (fun _ => kept Element.method.max h.method))
    rfl).trans ?_
  rw [hurls]
  rfl

theorem withFields_kept {h : RequestHead} {r : Request}
    (hmethod : r.method = kept ISERE_HTTPD_MAX_HTTP_METHOD_LEN h.method) :
    HeadKept h (r.withFields (h.fields.take ISERE_HTTPD_MAX_HTTP_HEADERS)) := by
  refine ⟨hmethod, ?_, ?_, ?_⟩
  · exact List.length_take.trans (Nat.min_comm _ _)
  · exact List.length_take.trans (Nat.min_comm _ _)
  · intro i f hi hf
    have hrow : (h.fields.take ISERE_HTTPD_MAX_HTTP_HEADERS)[i]? = some f := by
      rw [List.getElem?_take_of_lt hi, hf]
    have hlt := (List.getElem?_eq_some_iff.mp hrow).1
    unfold Request.withFields
    rw [List.getElem?_append_left (by rwa [List.length_map]), List.getElem?_map, hrow]
    rfl

/-- The end of the target is reported once. -/
theorem urlComplete_once {fs : List (Bytes × Bytes)} {ks : List Callback}
    (hcut : Cut Element.callback (fs.flatMap fieldLayout) ks) (methods urls : List Bytes) :
    Callback.urlComplete ∉ methods.map Element.method.callback ++
        .methodComplete :: urls.map Element.url.callback ∧
      Callback.urlComplete ∉ ks ++ [Callback.headersComplete] := by
  constructor
  · simp [Element.callback]
  · have hnot : Callback.urlComplete ∉ ks := by
      apply hcut.not_mem
      · intro e s
        cases e <;> simp [Element.callback]
      · simp [fieldLayout]
    simpa using hnot

/-- The callbacks of a head: those of the request line, and those of the fields. -/
theorem layout_inv {h : RequestHead} {ks : List Callback}
    (hcut : Cut Element.callback h.layout ks) :
    ∃ (methods urls : List Bytes) (fields : List Callback), methods.flatten = h.method ∧
      urls.flatten = h.target ∧ Cut Element.callback (h.fields.flatMap fieldLayout) fields ∧
      ks = (methods.map Element.method.callback ++ .methodComplete ::
        urls.map Element.url.callback) ++ .urlComplete :: (fields ++ [.headersComplete]) := by
  obtain ⟨methods, ks, hmethods, rfl, hcut1⟩ := hcut.data_inv
  obtain ⟨ks, rfl, hcut2⟩ := hcut1.event_inv
  obtain ⟨urls, ks, hurls, rfl, hcut3⟩ := hcut2.data_inv
  obtain ⟨ks, rfl, hcut4⟩ := hcut3.event_inv
  obtain ⟨fields, js, rfl, hfields, hj⟩ := hcut4.append_inv
  obtain ⟨js, rfl, hj1⟩ := hj.event_inv
  cases hj1
  exact ⟨methods, urls, fields, hmethods, hurls, hfields, by simp⟩

theorem head_kept (y : Yuarel) {h : RequestHead} {ks : List Callback}
    (hcut : Cut Element.callback h.layout ks) :
    HeadKept h (ks.foldl (Request.onCallback y) Request.zero) := by
  obtain ⟨methods, urls, fields, hmethods, hurls, hfields, rfl⟩ := layout_inv hcut
  have hstart : Request.onCallback y h.line .urlComplete =
      (onUrlComplete y h.line).withFields [] := rfl
  have hrest := fields_kept y (onUrlComplete y h.line)
    (show ([] : List (Bytes × Bytes)).length ≤ _ from Nat.zero_le _) h.name_nul h.value_nul hfields
  rw [List.foldl_append, line_kept y h hmethods hurls, List.foldl_cons, List.foldl_append,
    List.foldl_cons, List.foldl_nil, hstart, hrest, List.nil_append]
  exact withFields_kept rfl

/-- Wherever its elements are cut, the buffers hold the request line when the
target ends, and after the head its first 16 headers, each name with its value. -/
theorem a_request_head_is_kept (y : Yuarel) (h : RequestHead) (ks : List Callback)
    (hcut : Cut Element.callback h.layout ks) :
    (∀ pre post, ks = pre ++ .urlComplete :: post →
        LineKept h (pre.foldl (Request.onCallback y) Request.zero)) ∧
      HeadKept h (ks.foldl (Request.onCallback y) Request.zero) := by
  refine ⟨fun pre post heq => ?_, head_kept y hcut⟩
  obtain ⟨methods, urls, fields, hmethods, hurls, hfields, rfl⟩ := layout_inv hcut
  obtain ⟨hfirst, hlast⟩ := urlComplete_once hfields methods urls
  obtain ⟨rfl, -, -⟩ := (List.append_cons_inj_of_notMem hfirst hlast).mp heq
  rw [line_kept y h hmethods hurls]
  exact ⟨rfl, rfl⟩

/-- `GET /` with the header `ab` and no value. -/
def smallHead : RequestHead where
  method := [71, 69, 84]
  target := [47]
  fields := [([97, 98], [])]
  method_nul := by decide
  target_nul := by decide
  name_nul := by decide
  value_nul := by decide

def smallHeadPieces : List Callback :=
  [.method [71], .method [69, 84], .methodComplete, .url [], .url [47], .urlComplete,
    .headerField [97], .headerField [98], .headerFieldComplete, .headerValue [],
    .headerValueComplete, .headersComplete]

theorem smallHead_cut : Cut Element.callback smallHead.layout smallHeadPieces := by
  have hvalue : Cut Element.callback (.data .headerValue [] :: [.event .headerValueComplete,
      .event .headersComplete]) [.headerValue [], .headerValueComplete, .headersComplete] :=
    .data Element.headerValue [[]] (.event _ (.event _ .nil))
  have hfield := Cut.data Element.headerField [[97], [98]] (.event .headerFieldComplete hvalue)
  exact .data Element.method [[71], [69, 84]] (.event .methodComplete
    (.data Element.url [[], [47]] (.event .urlComplete hfield)))

theorem a_small_head_in_pieces_is_kept : HeadKept smallHead
    (smallHeadPieces.foldl (Request.onCallback ⟨fun buf => ⟨buf, none, none⟩⟩) Request.zero) :=
  (a_request_head_is_kept _ smallHead smallHeadPieces smallHead_cut).2

/-- In every run of the server, a connection whose chunks so far were one head
has it in its buffers. -/
theorem run_head_kept (cfg : Config) (l : Llhttp) (y : Yuarel) (serverfd : Nat) (is : List Os)
    (c : ConnId) {h : RequestHead} (hcut : Cut Element.callback h.layout
      (l.callbacks [] ((run (step cfg l y) (start serverfd) is).conns c).fed)) :
    HeadKept h ((run (step cfg l y) (start serverfd) is).conns c).req := by
  rw [(run_received serverfd is).req c]
  exact head_kept y hcut

end isere.httpd
