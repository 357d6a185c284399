-- Where a request goes. __on_message_complete reads the buffer of the target after
-- yuarel_parse was there, and either answers 404 or calls the handler, once.
import Isere.Splitting
import Isere.UrlParser

open cstring segments runs isere.uv isere.tcp

namespace isere.httpd

/-! ## The routes of a connection -/

/-- The events that tell where the requests of a connection went. -/
def Event.routes (c : ConnId) : Event → Bool
  | .handler d _ => d = c
  | .wrote d a => d = c && a = .notFound
  | _ => false

/-- Where a message goes. Without a handler, the root is answered with a bare 200. -/
def Config.route (cfg : Config) (c : ConnId) (r : Request) : List Event :=
  if r.notFound then [.wrote c .notFound]
  else if cfg.hasHandler then [.handler c r.handlerArgs] else []

/-- Where the messages go that end among the callbacks. -/
def Config.routed (cfg : Config) (y : Yuarel) (c : ConnId) (r : Request) :
    List Callback → List Event
  | [] => []
  | .messageComplete :: cbs => cfg.route c r ++ cfg.routed y c r cbs
  | cb :: cbs => cfg.routed y c (r.onCallback y cb) cbs

variable {cfg : Config} {l : Llhttp} {y : Yuarel}

theorem routed_piece (c : ConnId) (r : Request) {cb : Callback} (hcb : cb ≠ .messageComplete)
    (cbs : List Callback) :
    cfg.routed y c r (cb :: cbs) = cfg.routed y c (r.onCallback y cb) cbs := by
  cases cb <;> first | rfl | exact absurd rfl hcb

theorem routed_append (c : ConnId) (cbs cbs' : List Callback) (r : Request) :
    cfg.routed y c r (cbs ++ cbs') =
      cfg.routed y c r cbs ++ cfg.routed y c (cbs.foldl (Request.onCallback y) r) cbs' := by
  induction cbs generalizing r with
  | nil => rfl
  | cons cb cbs ih =>
    by_cases hcb : cb = .messageComplete
    · subst hcb
      rw [List.cons_append, Config.routed, Config.routed, ih, List.append_assoc]
      rfl
    · rw [List.cons_append, routed_piece c r hcb, routed_piece c r hcb, ih]
      rfl

/-- Callbacks without bytes route nothing. -/
theorem routed_filter_empty (c : ConnId) (cbs : List Callback) (r : Request) :
    cfg.routed y c r (cbs.filter (fun cb => !cb.isEmpty)) = cfg.routed y c r cbs := by
  induction cbs generalizing r with
  | nil => rfl
  | cons cb cbs ih =>
    by_cases hcb : cb = .messageComplete
    · subst hcb
      rw [List.filter_cons_of_pos rfl, Config.routed, Config.routed, ih]
    · cases h : cb.isEmpty with
      | true =>
        rw [List.filter_cons_of_neg (by simp [h]), ih, routed_piece c r hcb,
          onCallback_empty y r h]
      | false =>
        rw [List.filter_cons_of_pos (by simp [h]), routed_piece c r hcb, routed_piece c r hcb, ih]

/-- Without the end of a message nothing is routed. -/
theorem routed_pieces (c : ConnId) {cbs : List Callback} (h : .messageComplete ∉ cbs)
    (r : Request) : cfg.routed y c r cbs = [] := by
  induction cbs generalizing r with
  | nil => rfl
  | cons cb cbs ih =>
    rw [List.mem_cons, not_or] at h
    rw [routed_piece c r (Ne.symm h.1), ih h.2]

/-! ## A run -/

/-- The routes in the history of a connection are those of the callbacks for its
chunks. -/
structure RoutedOk (cfg : Config) (l : Llhttp) (y : Yuarel) (s : Httpd) : Prop where
  received : ReceivedOk l y s
  routes : ∀ c, s.trace.filter (Event.routes c) =
    cfg.routed y c Request.zero (l.callbacks [] (s.conns c).fed)

/-- The history grows by events that route nothing. -/
theorem RoutedOk.unrouted {s s' : Httpd} (h : RoutedOk cfg l y s) (hr : ReceivedOk l y s')
    (hfed : ∀ c, (s'.conns c).fed = (s.conns c).fed) {es : List Event}
    (htrace : s'.trace = s.trace ++ es) (hes : ∀ c, es.filter (Event.routes c) = []) :
    RoutedOk cfg l y s' := by
  refine ⟨hr, fun c => ?_⟩
  rw [htrace, List.filter_append, hes, List.append_nil, hfed]
  exact h.routes c

/-- One callback routes what it should. -/
theorem onCallback_routes (c d : ConnId) (os : Os) (s : Httpd) (cb : Callback) :
    (onCallback cfg y c os s cb).trace.filter (Event.routes d) =
      s.trace.filter (Event.routes d) ++
        if d = c then cfg.routed y c (s.conns c).req [cb] else [] := by
  by_cases hcb : cb = .messageComplete
  · subst hcb
    have hroute : cfg.routed y c (s.conns c).req [.messageComplete] =
        cfg.route c (s.conns c).req := by simp [Config.routed]
    rw [hroute]
    unfold onCallback onMessageComplete Config.route
    simp only [log_conns]
    by_cases hn : (s.conns c).req.notFound = true
    · by_cases hd : d = c
      · simp [hn, hd, Event.routes]
      · simp [hn, hd, Ne.symm hd, Event.routes]
    · cases hh : cfg.hasHandler with
      | true =>
        by_cases hd : d = c
        · simp [hn, hd, Event.routes]
        · simp [hn, hd, Ne.symm hd, Event.routes]
      | false => by_cases hd : d = c <;> simp [hn, hd, Event.routes]
  · rw [piece_trace cfg y c os s hcb, routed_piece c _ hcb]
    simp [Event.routes, Config.routed]

/-- The callbacks of a call route what they should, and nothing of another
connection. -/
theorem callbacks_routes (cfg : Config) (c d : ConnId) (os : Os) (cbs : List Callback) {s : Httpd}
    {done : List Callback} (h : (s.conns c).req = done.foldl (Request.onCallback y) Request.zero) :
    (cbs.foldl (onCallback cfg y c os) s).trace.filter (Event.routes d) =
      s.trace.filter (Event.routes d) ++
        if d = c then cfg.routed y c (s.conns c).req cbs else [] := by
  induction cbs generalizing s done with
  | nil => simp [Config.routed]
  | cons cb cbs ih =>
    have hone := heard_one cfg y c os h cb
    rw [List.foldl_cons, ih hone.req, onCallback_routes, List.append_assoc]
    by_cases hd : d = c
    · have hreq : ((onCallback cfg y c os s cb).conns c).req =
          [cb].foldl (Request.onCallback y) (s.conns c).req := by
        rw [hone.req, List.foldl_append, ← h]
      rw [if_pos hd, if_pos hd, if_pos hd, hreq, ← routed_append, List.singleton_append]
    · rw [if_neg hd, if_neg hd, if_neg hd, List.append_nil]

theorem RoutedOk.execute {s : Httpd} (h : RoutedOk cfg l y s) {c : ConnId} (hc : c < s.nextConn)
    {chunk : Bytes} (hne : chunk ≠ []) (hlen : chunk.length ≤ ISERE_HTTPD_LINE_BUFFER_LEN)
    (os : Os) : RoutedOk cfg l y (llhttpExecute cfg l y s c os chunk).1 := by
  refine ⟨h.received.execute hc hne hlen os, fun d => ?_⟩
  have hreq : ((s.setConn c { s.conns c with fed := (s.conns c).fed ++ [chunk] }).conns c).req =
      (l.callbacks [] (s.conns c).fed).foldl (Request.onCallback y) Request.zero := by
    simpa [httpd.received] using h.received.req c
  have hfed := (heard_all cfg y c os hreq (l.execute (s.conns c).fed chunk).1).fed d
  have hroutes := callbacks_routes cfg c d os (l.execute (s.conns c).fed chunk).1 hreq
  unfold llhttpExecute
  simp only
  rw [hroutes, hfed, hreq, setConn_trace, h.routes d]
  by_cases hd : d = c
  · subst hd
    simp [callbacks_snoc, routed_append]
  · simp [hd]

theorem routed_keeps : StepKeeps cfg l y (RoutedOk cfg l y) where
  watched _ h := h.received.watched
  table _ _ h hconns hnext htrace hw :=
    h.unrouted ((received_keeps cfg).table _ _ h.received hconns hnext htrace hw)
      (fun c => by rw [hconns]) (by rw [htrace, List.append_nil]) (fun _ => rfl)
  polled s c h := h.unrouted ((received_keeps cfg).polled s c h.received) (fun _ => rfl)
    (log_trace s _) (fun _ => rfl)
  answered s c a h ha := by
    refine h.unrouted ((received_keeps cfg).answered s c a h.received ha) (fun _ => rfl)
      (log_trace s _) (fun d => ?_)
    simp [Event.routes, ha]
  polledJs s c os h := by
    refine h.unrouted ((received_keeps cfg).polledJs s c os h.received) (fun d => ?_)
      (show (polledJs s c os).trace = s.trace ++ [.jsPolled c os.jsPoll] by
        simp [polledJs, Httpd.setResponse]) (fun _ => rfl)
    by_cases hd : d = c <;> simp [polledJs, Httpd.setResponse, hd]
  cleanup s c h := by
    refine h.unrouted ((received_keeps cfg).cleanup s c h.received) (fun d => ?_)
      (cleanup_trace s c) (fun _ => rfl)
    rw [cleanup_conns]
    split <;> simp_all
  execute _ _ _ os h hc hne hlen := h.execute hc hne hlen os
  accept s fd h := by
    refine h.unrouted ((received_keeps cfg).accept s fd h.received) (fun d => ?_)
      (addConn_trace s fd) (fun _ => rfl)
    by_cases hd : d = s.nextConn
    · rw [hd, addConn_conns_self, (h.received.fresh _ (Nat.le_refl _)).1]
      rfl
    · rw [addConn_conns_other s hd]

/-- In every run, each message went where it should. -/
theorem run_routed (cfg : Config) (l : Llhttp) (y : Yuarel) (serverfd : Nat) (is : List Os) :
    RoutedOk cfg l y (run (step cfg l y) (start serverfd) is) :=
  run_inv_all (I := RoutedOk cfg l y) (fun _ os h => routed_keeps.step h os)
    ⟨start_received serverfd, fun _ => rfl⟩ is

/-! ## The callbacks of one request -/

/-- What llhttp reports after the target leaves the target. -/
theorem afterUrl_keeps (y : Yuarel) {ps : Layout} (hps : ∀ p ∈ ps, AfterUrl p)
    {ks : List Callback} (hcut : Cut Element.callback ps ks) (r : Request) :
    (ks.foldl (Request.onCallback y) r).path = r.path ∧
      (ks.foldl (Request.onCallback y) r).urlPath = r.urlPath ∧
      (ks.foldl (Request.onCallback y) r).urlQuery = r.urlQuery := by
  have hone : ∀ cb ∈ ks, ∀ r : Request, (r.onCallback y cb).path = r.path ∧
      (r.onCallback y cb).urlPath = r.urlPath ∧ (r.onCallback y cb).urlQuery = r.urlQuery := by
    intro cb hcb r
    rcases hcut.mem hcb with ⟨e, s, t, ht, rfl⟩ | hevent
    · have hafter := hps _ ht
      rw [onCallback_data]
      unfold Request.update
      cases e with
      | method => exact hafter.elim
      | url => exact hafter.elim
      | headerField =>
        simp only
        split <;> exact ⟨rfl, rfl, rfl⟩
      | headerValue =>
        simp only
        split <;> exact ⟨rfl, rfl, rfl⟩
      | body => exact ⟨rfl, rfl, rfl⟩
    · have hafter := hps _ hevent
      cases cb with
      | headerFieldComplete =>
        simp only [Request.onCallback, onHeaderFieldComplete]
        split <;> exact ⟨rfl, rfl, rfl⟩
      | headerValueComplete =>
        simp only [Request.onCallback, onHeaderValueComplete]
        split <;> exact ⟨rfl, rfl, rfl⟩
      | headersComplete => exact ⟨rfl, rfl, rfl⟩
      | _ => exact hafter.elim
  clear hcut
  induction ks generalizing r with
  | nil => exact ⟨rfl, rfl, rfl⟩
  | cons cb ks ih =>
    obtain ⟨hpath, hurl, hquery⟩ := hone cb List.mem_cons_self r
    obtain ⟨ipath, iurl, iquery⟩ := ih (r.onCallback y cb)
      (fun cb' h => hone cb' (List.mem_cons_of_mem _ h))
    exact ⟨ipath.trans hpath, iurl.trans hurl, iquery.trans hquery⟩

/-- The request line of a request. -/
def OneRequest.line (R : OneRequest) : RequestHead where
  method := R.method
  target := R.url
  fields := []
  method_nul := R.method_nul
  target_nul := R.url_nul
  name_nul := by simp
  value_nul := by simp

/-- The request at the end of the message holds its target as yuarel left it. -/
theorem target_at_end {R : OneRequest} (hl : l.Reports R) (y : Yuarel) {cs : List Bytes}
    (hc : Chunks R cs) : ∃ init, .messageComplete ∉ init ∧
      (l.callbacks [] cs).filter (fun cb => !cb.isEmpty) = init ++ [.messageComplete] ∧
      (init.foldl (Request.onCallback y) Request.zero).path =
        (onUrlComplete y R.line.line).path ∧
      (init.foldl (Request.onCallback y) Request.zero).urlPath =
        (onUrlComplete y R.line.line).urlPath ∧
      (init.foldl (Request.onCallback y) Request.zero).urlQuery =
        (onUrlComplete y R.line.line).urlQuery := by
  have hcut := chunks_cut hl hc
  obtain ⟨init, hnot, heq⟩ := message_ends_last hl hc
  refine ⟨init, hnot, heq, ?_⟩
  rw [R.layout_reported, heq] at hcut
  obtain ⟨methods, ks, hmethods, hks, hcut1⟩ := hcut.data_inv
  obtain ⟨ks, rfl, hcut2⟩ := hcut1.event_inv
  obtain ⟨urls, ks, hurls, rfl, hcut3⟩ := hcut2.data_inv
  obtain ⟨ks, rfl, hcut4⟩ := hcut3.event_inv
  obtain ⟨later, last, rfl, hlater, hlast⟩ := hcut4.append_inv
  obtain ⟨last, rfl, hend⟩ := hlast.event_inv
  cases hend
  have hinit : init = methods.map Element.method.callback ++ .methodComplete ::
      urls.map Element.url.callback ++ .urlComplete :: later := by
    have hsplit : init ++ [.messageComplete] = (methods.map Element.method.callback ++
      .methodComplete :: urls.map Element.url.callback ++ .urlComplete :: later) ++
        [.messageComplete] := by
      rw [hks]
      simp
    exact (List.append_inj' hsplit rfl).1
  rw [hinit, List.foldl_append, line_kept y R.line hmethods hurls, List.foldl_cons]
  exact afterUrl_keeps y R.later_ok hlater _

/-! ## The law -/

/-- In every run of a server with a handler, a connection that carried one request
has one route: the handler, with an empty path and the query of the target, if the
target is for the root, and a 404 if it is not. -/
theorem a_request_goes_to_the_handler_or_gets_a_404 (cfg : Config) (l : Llhttp) (y : Yuarel)
    (R : OneRequest) (serverfd : Nat) (is : List Os) (c : ConnId)
    (hhandler : cfg.hasHandler = true) (hy : y.InPlace) (hl : l.Reports R) (hurl : R.url ≠ [])
    (htext : ((run (step cfg l y) (start serverfd) is).conns c).fed.flatten = R.text) :
    (targetPath R.url = ascii "/" → ∃ args : HandlerArgs,
      (run (step cfg l y) (start serverfd) is).trace.filter (Event.routes c) =
        [.handler c args] ∧ args.path = some [] ∧ args.query = targetQuery R.url) ∧
    (targetPath R.url ≠ ascii "/" →
      (run (step cfg l y) (start serverfd) is).trace.filter (Event.routes c) =
        [.wrote c .notFound]) := by
  have hrun := run_routed cfg l y serverfd is
  have hc : Chunks R ((run (step cfg l y) (start serverfd) is).conns c).fed :=
    ⟨htext, fun b hb => (hrun.received.sizes c b hb).1, fun b hb => (hrun.received.sizes c b hb).2⟩
  obtain ⟨init, hnot, heq, hpath, hurlPath, hurlQuery⟩ := target_at_end hl y hc
  have hroot : ascii "/" = [47] := by decide
  obtain ⟨hfound, hargs⟩ := onUrlComplete_target hy hurl R.url_nul
    (r := R.line.line) rfl
  have hroutes : (run (step cfg l y) (start serverfd) is).trace.filter (Event.routes c) =
      cfg.route c (init.foldl (Request.onCallback y) Request.zero) := by
    rw [hrun.routes c, ← routed_filter_empty, heq, routed_append, routed_pieces c hnot]
    simp [Config.routed]
  have hsame : (init.foldl (Request.onCallback y) Request.zero).notFound =
      (onUrlComplete y R.line.line).notFound := by
    unfold Request.notFound
    rw [hpath]
  rw [hroutes, hroot]
  unfold Config.route
  rw [hsame]
  constructor
  · intro htarget
    obtain ⟨hargsPath, hargsQuery⟩ := hargs htarget
    refine ⟨(init.foldl (Request.onCallback y) Request.zero).handlerArgs,
      by simp [hfound.mpr htarget, hhandler], ?_, ?_⟩
    · rw [← hargsPath]
      simp only [Request.handlerArgs, hpath, hurlPath]
    · rw [← hargsQuery]
      simp only [Request.handlerArgs, hpath, hurlQuery]
  · intro htarget
    have hnotFound : (onUrlComplete y R.line.line).notFound = true := by
      rw [← Bool.not_eq_false]
      exact fun h => htarget (hfound.mp h)
    rw [if_pos hnotFound]

/-! ## A request with a query -/

/-- A `yuarel_parse` that looks at strings with a '/' in front only. -/
def relativeYuarel : Yuarel where
  parse buf :=
    if buf.head? = some 47 then relativeUrl buf else { buf, path := none, query := none }

theorem relativeYuarel_inPlace : relativeYuarel.InPlace where
  relative _ hslash _ := if_pos hslash
  other buf h0 hslash := by
    have hhead : buf.head? ≠ some 47 := by
      cases buf with
      | nil => simp
      | cons b rest => simpa using hslash
    simp only [relativeYuarel, if_neg hhead]
    exact h0

/-- `GET` of a target, without a header. -/
def getTarget (target : Bytes) (h : 0 ∉ target) : OneRequest where
  method := ascii "GET"
  url := target
  later := [.event .headersComplete]
  layout := [.data .method (ascii "GET"), .event .methodComplete, .gap (ascii " "),
    .data .url target, .event .urlComplete, .gap (ascii " HTTP/1.1\r\n\r\n"),
    .event .headersComplete, .event .messageComplete]
  layout_reported := rfl
  method_ne := by decide
  method_nul := by decide
  url_nul := h
  later_ok := by simp [AfterUrl]

theorem a_query_comes_to_the_handler :
    (targetPath (ascii "/?a=1#top") = ascii "/" → ∃ args : HandlerArgs,
      (run (step { maxConns := 12, hasHandler := true }
        (layoutLlhttp (getTarget (ascii "/?a=1#top") (by decide)).layout) relativeYuarel) (start 3)
        (acceptAt 5 ++ receiveAt (ascii "GET /?a=1#top HTTP/1.1\r\n\r\n"))).trace.filter
          (Event.routes 0) = [.handler 0 args] ∧
        args.path = some [] ∧ args.query = targetQuery (ascii "/?a=1#top")) ∧
    (targetPath (ascii "/?a=1#top") ≠ ascii "/" →
      (run (step { maxConns := 12, hasHandler := true }
        (layoutLlhttp (getTarget (ascii "/?a=1#top") (by decide)).layout) relativeYuarel) (start 3)
        (acceptAt 5 ++ receiveAt (ascii "GET /?a=1#top HTTP/1.1\r\n\r\n"))).trace.filter
          (Event.routes 0) = [.wrote 0 .notFound]) :=
  a_request_goes_to_the_handler_or_gets_a_404 _ _ _ (getTarget (ascii "/?a=1#top") (by decide)) 3 _
    0 rfl relativeYuarel_inPlace (layoutLlhttp_reports _) (by decide) (by decide +kernel)

end isere.httpd
