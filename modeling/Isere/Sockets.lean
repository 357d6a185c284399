-- The sockets of the server and the tables of its event loop. While no
-- connection is cleaned up twice, and an accept gives the number of no open
-- socket, each entry of the tables belongs to a live connection or to the server.
import Isere.HttpdSteps
import Isere.WatchedLoop

open cstring intrusive isere.tcp isere.uv runs

namespace isere.httpd

/-! ## Open sockets -/

/-- Is a descriptor open after an event, when connection `c` has `fdOf c`? -/
def Event.leavesOpen (fdOf : ConnId → Int) (fd : Int) (isOpen : Bool) : Event → Bool
  | .accepted c => isOpen || decide (fdOf c = fd)
  | .closed c => isOpen && decide (fdOf c ≠ fd)
  | _ => isOpen

/-- The history left a client socket open under this number. -/
def socketOpen (s : Httpd) (fd : Int) : Bool :=
  s.trace.foldl (fun b e => e.leavesOpen (fun c => (s.conns c).fd) fd b) false

/-- `accept` gives the number of no socket that is open. -/
def AcceptsNew (serverfd : Nat) (s : Httpd) (os : Os) : Prop :=
  0 ≤ os.accept → os.accept ≠ serverfd ∧ socketOpen s os.accept = false

instance (serverfd : Nat) (s : Httpd) (os : Os) : Decidable (AcceptsNew serverfd s os) :=
  inferInstanceAs (Decidable (0 ≤ os.accept → os.accept ≠ serverfd ∧
    socketOpen s os.accept = false))

/-- Each connection is cleaned up at most once. -/
def CleanedOnce (s : Httpd) : Prop := ∀ c, s.trace.count (.freed c) ≤ 1

theorem cleanedOnce_iff {s : Httpd} :
    CleanedOnce s ↔ ∀ e ∈ s.trace, e = .freed e.conn → s.trace.count e ≤ 1 := by
  constructor
  · intro h e _ he
    rw [he]
    exact h e.conn
  · intro h c
    by_cases hmem : .freed c ∈ s.trace
    · exact h _ hmem rfl
    · rw [List.count_eq_zero_of_not_mem hmem]
      exact Nat.zero_le 1

instance (s : Httpd) : Decidable (CleanedOnce s) := decidable_of_iff _ cleanedOnce_iff.symm

/-- The event opens no socket and closes none. -/
def Event.Quiet (e : Event) : Prop := ∀ c, e ≠ .accepted c ∧ e ≠ .closed c

theorem leavesOpen_quiet {e : Event} (h : e.Quiet) (fdOf : ConnId → Int) (fd : Int) (b : Bool) :
    e.leavesOpen fdOf fd b = b := by
  cases e with
  | accepted c => exact absurd rfl (h c).1
  | closed c => exact absurd rfl (h c).2
  | _ => rfl

theorem foldl_quiet {es : List Event} (h : ∀ e ∈ es, e.Quiet) (fdOf : ConnId → Int) (fd : Int)
    (b : Bool) : es.foldl (fun b e => e.leavesOpen fdOf fd b) b = b := by
  induction es generalizing b with
  | nil => rfl
  | cons e es ih =>
    rw [List.foldl_cons, leavesOpen_quiet (h e List.mem_cons_self)]
    exact ih (fun e' he' => h e' (List.mem_cons_of_mem _ he')) b

/-- Only the connections of the history tell which sockets are open. -/
theorem foldl_congr_fd {fdOf fdOf' : ConnId → Int} {t : List Event}
    (h : ∀ c, .accepted c ∈ t ∨ .closed c ∈ t → fdOf' c = fdOf c) (fd : Int) (b : Bool) :
    t.foldl (fun b e => e.leavesOpen fdOf' fd b) b =
      t.foldl (fun b e => e.leavesOpen fdOf fd b) b := by
  apply List.foldl_ext
  intro b e he
  cases e with
  | accepted c => simp [Event.leavesOpen, h c (Or.inl he)]
  | closed c => simp [Event.leavesOpen, h c (Or.inr he)]
  | _ => rfl

/-! ## The links of the js_queue -/

/-- A node links to itself, to the head, or to a connection below `n`. -/
def LinksBelow (n : ConnId) (m : Links JsNode) : Prop :=
  ∀ x c, m.next x = .conn c ∨ m.prev x = .conn c → c < n ∨ x = .conn c

theorem LinksBelow.mono {n n' : ConnId} {m : Links JsNode} (h : LinksBelow n m) (hn : n ≤ n') :
    LinksBelow n' m :=
  fun x c hx => (h x c hx).imp_left (fun hlt => Nat.lt_of_lt_of_le hlt hn)

theorem LinksBelow.setNext {n : ConnId} {m : Links JsNode} (h : LinksBelow n m) {a b : JsNode}
    (hb : ∀ c, b = .conn c → c < n ∨ a = .conn c) : LinksBelow n (m.setNext a b) := by
  rintro x c (hx | hx)
  · rw [setNext_next] at hx
    split at hx
    · rename_i he
      exact he ▸ hb c hx
    · exact h x c (Or.inl hx)
  · exact h x c (Or.inr hx)

theorem LinksBelow.setPrev {n : ConnId} {m : Links JsNode} (h : LinksBelow n m) {a b : JsNode}
    (hb : ∀ c, b = .conn c → c < n ∨ a = .conn c) : LinksBelow n (m.setPrev a b) := by
  rintro x c (hx | hx)
  · exact h x c (Or.inl hx)
  · rw [setPrev_prev] at hx
    split at hx
    · rename_i he
      exact he ▸ hb c hx
    · exact h x c (Or.inr hx)

theorem LinksBelow.init {n : ConnId} {m : Links JsNode} (h : LinksBelow n m) (q : JsNode) :
    LinksBelow n (uvQueueInit m q) :=
  (h.setNext (fun _ hc => Or.inr hc)).setPrev (fun _ hc => Or.inr hc)

theorem LinksBelow.remove {n : ConnId} {m : Links JsNode} (h : LinksBelow n m) {q : JsNode}
    (hq : ∀ c, q = .conn c → c < n) : LinksBelow n (uvQueueRemove m q) := by
  have hnext : LinksBelow n (m.setNext (m.prev q) (m.next q)) :=
    h.setNext (fun c hc => Or.inl ((h q c (Or.inl hc)).elim id (hq c)))
  exact hnext.setPrev (fun c hc => Or.inl ((h q c (Or.inr hc)).elim id (hq c)))

theorem LinksBelow.insertTail {n : ConnId} {m : Links JsNode} (h : LinksBelow n m) {c : ConnId}
    (hc : c < n) : LinksBelow n (uvQueueInsertTail m .head (.conn c)) := by
  have hself : ∀ d, JsNode.conn c = .conn d → d < n := by
    rintro d ⟨⟩
    exact hc
  have h1 : LinksBelow n (m.setNext (.conn c) .head) := h.setNext (by rintro d ⟨⟩)
  have h2 := h1.setPrev (a := .conn c) (b := m.prev .head)
    (fun d hd => (h .head d (Or.inr hd)).imp_right (by rintro ⟨⟩))
  have h3 := h2.setNext (a := ((m.setNext (.conn c) .head).setPrev (.conn c) (m.prev .head)).prev
    (.conn c)) (fun d hd => Or.inl (hself d hd))
  exact h3.setPrev (fun d hd => Or.inl (hself d hd))

/-! ## The invariant -/

/-- The tables of the loop agree with the connections and their sockets. The
`js_queue` may be out of order, but links to accepted connections only. -/
structure SocketsOk (serverfd : Nat) (s : Httpd) : Prop where
  loop : LoopOk UV_POLLIN s.loop s.loop.watcherQueue
  iterating : s.loop.pollFdsIterating = true ↔ ∃ i, s.phase = .iterating i
  server : (s.loop.io .server).fd = serverfd
  io : ∀ c, (s.loop.io (.conn c)).fd = (s.conns c).fd
  watched : ∀ fd c, s.loop.watchers fd = some (.conn c) → (s.conns c).life = .live
  born : ∀ c, (s.conns c).life = .fresh ↔ s.nextConn ≤ c
  unborn : ∀ c, s.nextConn ≤ c → .accepted c ∉ s.trace ∧ .closed c ∉ s.trace
  opened : ∀ c, (s.conns c).life = .live → 0 ≤ (s.conns c).fd ∧ socketOpen s (s.conns c).fd = true
  apart : ∀ c d, (s.conns c).life = .live → (s.conns d).life = .live →
    (s.conns c).fd = (s.conns d).fd → c = d
  freed : ∀ c, (s.conns c).life = .cleaned → .freed c ∈ s.trace
  links : LinksBelow s.nextConn s.jsQueue
  taken : ∀ c, s.phase = .polling c → c < s.nextConn

variable {serverfd : Nat} {s s' s'' : Httpd} {c : ConnId} {os : Os}

/-- A part of a step: the history grows, no connection is forgotten, and the
tables go on agreeing. -/
structure Leads (serverfd : Nat) (s s' : Httpd) : Prop where
  grows : s.trace <+: s'.trace
  born : s.nextConn ≤ s'.nextConn
  keeps : CleanedOnce s' → SocketsOk serverfd s → SocketsOk serverfd s'

theorem CleanedOnce.before (h : CleanedOnce s') (hp : s.trace <+: s'.trace) : CleanedOnce s :=
  fun c => (hp.sublist.count_le _).trans (h c)

theorem Leads.refl (s : Httpd) : Leads serverfd s s :=
  ⟨List.prefix_rfl, Nat.le_refl _, fun _ h => h⟩

theorem Leads.trans (h1 : Leads serverfd s s') (h2 : Leads serverfd s' s'') :
    Leads serverfd s s'' :=
  ⟨h1.grows.trans h2.grows, h1.born.trans h2.born,
    fun ho h => h2.keeps ho (h1.keeps (ho.before h2.grows) h)⟩

/-- The sockets stay as they are. -/
theorem SocketsOk.congr (h : SocketsOk serverfd s)
    (hl : LoopOk UV_POLLIN s'.loop s'.loop.watcherQueue)
    (hit : s'.loop.pollFdsIterating = true ↔ ∃ i, s'.phase = .iterating i)
    (hw : ∀ fd w, s'.loop.watchers fd = some w → s.loop.watchers fd = some w)
    (hio : ∀ w, (s'.loop.io w).fd = (s.loop.io w).fd)
    (hc : ∀ c, (s'.conns c).life = (s.conns c).life ∧ (s'.conns c).fd = (s.conns c).fd)
    (hn : s'.nextConn = s.nextConn) {es : List Event} (ht : s'.trace = s.trace ++ es)
    (hes : ∀ e ∈ es, e.Quiet)
    (hj : LinksBelow s.nextConn s'.jsQueue)
    (hp : ∀ c, s'.phase = .polling c → c < s.nextConn) : SocketsOk serverfd s' := by
  have hopen : ∀ fd, socketOpen s' fd = socketOpen s fd := by
    intro fd
    have hfd : (fun c => (s'.conns c).fd) = fun c => (s.conns c).fd := funext (fun c => (hc c).2)
    unfold socketOpen
    rw [ht, List.foldl_append, foldl_quiet hes, hfd]
  refine ⟨hl, hit, (hio _).trans h.server, ?_, ?_, ?_, ?_, ?_, ?_, ?_, ?_, ?_⟩
  · intro c
    rw [hio, (hc c).2]
    exact h.io c
  · intro fd c hfd
    rw [(hc c).1]
    exact h.watched fd c (hw fd _ hfd)
  · intro c
    rw [(hc c).1, hn]
    exact h.born c
  · intro c hlt
    have hun := h.unborn c (hn ▸ hlt)
    rw [ht]
    refine ⟨fun hmem => ?_, fun hmem => ?_⟩
    · rcases List.mem_append.mp hmem with hmem | hmem
      · exact hun.1 hmem
      · exact (hes _ hmem c).1 rfl
    · rcases List.mem_append.mp hmem with hmem | hmem
      · exact hun.2 hmem
      · exact (hes _ hmem c).2 rfl
  · intro c hlive
    rw [(hc c).2, hopen]
    exact h.opened c ((hc c).1 ▸ hlive)
  · intro c d hlive hlive' hfd
    rw [(hc c).2, (hc d).2] at hfd
    exact h.apart c d ((hc c).1 ▸ hlive) ((hc d).1 ▸ hlive') hfd
  · intro c hgone
    rw [ht]
    exact List.mem_append_left _ (h.freed c ((hc c).1 ▸ hgone))
  · rw [hn]
    exact hj
  · intro c hphase
    rw [hn]
    exact hp c hphase

/-! ## The parts of a step -/

/-- Notes of the history, and changes inside a connection. -/
theorem leads_quiet (hl : s'.loop = s.loop) (hp : s'.phase = s.phase)
    (hc : ∀ c, (s'.conns c).life = (s.conns c).life ∧ (s'.conns c).fd = (s.conns c).fd)
    (hn : s'.nextConn = s.nextConn) {es : List Event} (ht : s'.trace = s.trace ++ es)
    (hes : ∀ e ∈ es, e.Quiet)
    (hj : LinksBelow s.nextConn s.jsQueue → LinksBelow s.nextConn s'.jsQueue) :
    Leads serverfd s s' := by
  refine ⟨⟨es, ht.symm⟩, hn.ge, fun _ h => ?_⟩
  refine h.congr (hl ▸ h.loop) ?_ ?_ ?_ hc hn ht hes (hj h.links) ?_
  · rw [hl, hp]
    exact h.iterating
  · intro fd w hw
    rwa [hl] at hw
  · intro w
    rw [hl]
  · intro c hphase
    exact h.taken c (hp ▸ hphase)

/-- Changes of the event loop that start no watcher. -/
theorem leads_loop {loop : UvLoop WatcherId} {p : Phase}
    (hl : LoopOk UV_POLLIN s.loop s.loop.watcherQueue →
      (s.loop.pollFdsIterating = true ↔ ∃ i, s.phase = .iterating i) →
      LoopOk UV_POLLIN loop loop.watcherQueue ∧
        (loop.pollFdsIterating = true ↔ ∃ i, p = .iterating i) ∧
        ∀ w, (loop.io w).fd = (s.loop.io w).fd)
    (hw : ∀ fd w, loop.watchers fd = some w → s.loop.watchers fd = some w)
    (hp : ∀ c, p = .polling c → s.phase = .polling c) :
    Leads serverfd s { s with loop, phase := p } := by
  refine ⟨List.prefix_rfl, Nat.le_refl _, fun _ h => ?_⟩
  obtain ⟨hloop, hit, hio⟩ := hl h.loop h.iterating
  exact h.congr hloop hit hw hio (fun _ => ⟨rfl, rfl⟩) rfl (List.append_nil _).symm (by simp)
    h.links (fun c hc => h.taken c (hp c hc))

theorem leads_stop (s : Httpd) (w : WatcherId) :
    Leads serverfd s { s with loop := uvIoStop s.loop w UV_POLLIN } := by
  refine leads_loop (p := s.phase) (fun hl hit => ?_) (fun fd w' => uvIoStop_watchers)
    (fun _ hc => hc)
  refine ⟨hl.stop w, ?_, fun w' => uvIoStop_fd _ _ w w' (hl.table.masked w)⟩
  rw [uvIoStop_iterating]
  exact hit

/-- A connection that the next cleanup frees for the first time is alive. -/
theorem SocketsOk.live_before_cleanup (h : SocketsOk serverfd s) (hc : c < s.nextConn)
    (honce : CleanedOnce (httpdCleanupConn s c)) : (s.conns c).life = .live := by
  have hcount := honce c
  rw [cleanup_trace, List.count_append] at hcount
  have hnot : .freed c ∉ s.trace := by
    rw [← List.count_eq_zero]
    simp only [List.count_cons_self, List.count_cons, List.count_nil] at hcount
    omega
  cases hlife : (s.conns c).life with
  | fresh => exact absurd ((h.born c).mp hlife) (Nat.not_le.mpr hc)
  | live => rfl
  | cleaned => exact absurd (h.freed c hlife) hnot

theorem cleanup_fd (s : Httpd) (c d : ConnId) :
    ((httpdCleanupConn s c).conns d).fd = (s.conns d).fd := by
  by_cases hd : d = c
  · subst hd
    rw [cleanup_conns_self]
  · rw [cleanup_conns_other s hd]

/-- A cleanup closes one socket. -/
theorem cleanup_open (s : Httpd) (c : ConnId) {fd : Int} (hne : fd ≠ (s.conns c).fd) :
    socketOpen (httpdCleanupConn s c) fd = socketOpen s fd := by
  unfold socketOpen
  rw [cleanup_trace, List.foldl_append, funext (cleanup_fd s c)]
  simp [Event.leavesOpen, hne.symm]

theorem cleanup_live {d : ConnId} (hd : ((httpdCleanupConn s c).conns d).life = .live) :
    d ≠ c ∧ (s.conns d).life = .live := by
  by_cases hdc : d = c
  · subst hdc
    rw [cleanup_conns_self] at hd
    cases hd
  · rw [cleanup_conns_other s hdc] at hd
    exact ⟨hdc, hd⟩

/-- A cleanup of a connection that was not cleaned up before. -/
theorem leads_cleanup (hc : c < s.nextConn) : Leads serverfd s (httpdCleanupConn s c) := by
  refine ⟨⟨_, (cleanup_trace s c).symm⟩, (cleanup_nextConn s c).ge, fun honce h => ?_⟩
  have hlive : (s.conns c).life = .live := h.live_before_cleanup hc honce
  have hstop := h.loop.stop (.conn c)
  have hiff := uvIoStop_watchers_iff h.loop.table (.conn c)
  have hio := fun w => uvIoStop_fd UV_POLLIN s.loop (.conn c) w (h.loop.table.masked _)
  rw [← cleanup_loop s c] at hstop hiff hio
  refine ⟨hstop, ?_, (hio _).trans h.server, ?_, ?_, ?_, ?_, ?_, ?_, ?_, ?_, ?_⟩
  · rw [cleanup_loop, uvIoStop_iterating, cleanup_phase]
    exact h.iterating
  · intro d
    rw [hio, cleanup_fd]
    exact h.io d
  · intro fd d hw
    obtain ⟨hw, hne⟩ := (hiff _ fd).mp hw
    rw [cleanup_conns_other s (fun hd => hne (congrArg WatcherId.conn hd))]
    exact h.watched fd d hw
  · intro d
    rw [cleanup_nextConn, ← h.born]
    by_cases hd : d = c
    · subst hd
      simp [hlive]
    · rw [cleanup_conns_other s hd]
  · intro d hd
    rw [cleanup_nextConn] at hd
    have hne : d ≠ c := fun he => Nat.not_le.mpr hc (he ▸ hd)
    simpa [hne] using h.unborn d hd
  · intro d hd
    obtain ⟨hne, hd⟩ := cleanup_live hd
    rw [cleanup_fd, cleanup_open s c (fun he => hne (h.apart d c hd hlive he))]
    exact h.opened d hd
  · intro d d' hd hd' he
    rw [cleanup_fd, cleanup_fd] at he
    exact h.apart d d' (cleanup_live hd).2 (cleanup_live hd').2 he
  · intro d hd
    rw [cleanup_trace]
    by_cases hdc : d = c
    · subst hdc
      simp
    · rw [cleanup_conns_other s hdc] at hd
      exact List.mem_append_left _ (h.freed d hd)
  · rw [cleanup_nextConn, cleanup_jsQueue]
    split
    · exact h.links.remove (by rintro d ⟨⟩; exact hc)
    · exact h.links
  · intro d hd
    rw [cleanup_phase] at hd
    rw [cleanup_nextConn]
    exact h.taken d hd

/-- A number that no open socket has is not in the table. -/
theorem SocketsOk.unwatched (h : SocketsOk serverfd s) {fd : Int} (hfd : 0 ≤ fd)
    (hnew : fd ≠ serverfd) (hclosed : socketOpen s fd = false) :
    s.loop.watchers fd.toNat = none := by
  cases hw : s.loop.watchers fd.toNat with
  | none => rfl
  | some w =>
    have hio := h.loop.table.fd_eq _ w hw
    rw [Int.toNat_of_nonneg hfd] at hio
    cases w with
    | server => exact absurd (hio.symm.trans h.server) hnew
    | conn d =>
      rw [h.io] at hio
      have hopen := (h.opened d (h.watched _ d hw)).2
      rw [hio, hclosed] at hopen
      cases hopen

theorem SocketsOk.next_unwatched (h : SocketsOk serverfd s) (fd : Nat) :
    s.loop.watchers fd ≠ some (.conn s.nextConn) := by
  intro hw
  have hlive := h.watched fd _ hw
  rw [(h.born _).mpr (Nat.le_refl _)] at hlive
  cases hlive

/-- The watcher of an accepted connection starts. -/
theorem SocketsOk.addConn_loop (h : SocketsOk serverfd s) {fd : Int} (hfd : 0 ≤ fd)
    (hnew : fd ≠ serverfd) (hclosed : socketOpen s fd = false) :
    LoopOk UV_POLLIN (addConn s fd).loop (addConn s fd).loop.watcherQueue := by
  have hrenew : LoopOk UV_POLLIN (s.loop.setIo (.conn s.nextConn)
      { pevents := 0, events := 0, fd := fd }) s.loop.watcherQueue :=
    h.loop.renew h.next_unwatched (BitVec.zero_and)
  have hself : ((s.loop.setIo (.conn s.nextConn) { pevents := 0, events := 0, fd := fd }).io
      (.conn s.nextConn)).fd = fd := by
    simp [UvLoop.setIo]
  exact LoopOk.start (w := .conn s.nextConn) hrenew (by decide) (by rwa [hself])
    (by rw [hself]; exact h.unwatched hfd hnew hclosed) h.next_unwatched

theorem addConn_io (s : Httpd) (fd : Int) (w : WatcherId) : ((addConn s fd).loop.io w).fd =
    if w = .conn s.nextConn then fd else (s.loop.io w).fd := by
  simp only [addConn, uvIoStart_fd, UvLoop.setIo]
  by_cases hw : w = .conn s.nextConn <;> simp [hw]

/-- An accept opens one socket. -/
theorem SocketsOk.addConn_open (h : SocketsOk serverfd s) (fd fd' : Int) :
    socketOpen (addConn s fd) fd' = (socketOpen s fd' || decide (fd = fd')) := by
  have hfds : ∀ d, .accepted d ∈ s.trace ∨ .closed d ∈ s.trace →
      ((addConn s fd).conns d).fd = (s.conns d).fd := by
    intro d hd
    have hne : d ≠ s.nextConn := by
      rintro rfl
      exact hd.elim (h.unborn _ (Nat.le_refl _)).1 (h.unborn _ (Nat.le_refl _)).2
    rw [addConn_conns_other s hne]
  unfold socketOpen
  rw [addConn_trace, List.foldl_append, foldl_congr_fd hfds]
  simp [Event.leavesOpen, HttpdConn.initial]

theorem addConn_live {fd : Int} {d : ConnId} (hd : ((addConn s fd).conns d).life = .live) :
    (d = s.nextConn ∧ ((addConn s fd).conns d).fd = fd) ∨
      ((s.conns d).life = .live ∧ ((addConn s fd).conns d).fd = (s.conns d).fd) := by
  by_cases hdc : d = s.nextConn
  · subst hdc
    exact Or.inl ⟨rfl, by rw [addConn_conns_self]; rfl⟩
  · rw [addConn_conns_other s hdc] at hd ⊢
    exact Or.inr ⟨hd, rfl⟩

/-- Live connections keep different sockets, as the new one has a number that
none of them has. -/
theorem SocketsOk.addConn_apart (h : SocketsOk serverfd s) {fd : Int}
    (hclosed : socketOpen s fd = false) {d d' : ConnId}
    (hd : ((addConn s fd).conns d).life = .live) (hd' : ((addConn s fd).conns d').life = .live)
    (he : ((addConn s fd).conns d).fd = ((addConn s fd).conns d').fd) : d = d' := by
  have hnot : ∀ d, (s.conns d).life = .live → (s.conns d).fd ≠ fd := by
    intro d hd he
    have ho := (h.opened d hd).2
    rw [he, hclosed] at ho
    cases ho
  rcases addConn_live hd with ⟨hdn, hf⟩ | ⟨hdl, hf⟩
  · rcases addConn_live hd' with ⟨hdn', hf'⟩ | ⟨hdl', hf'⟩
    · rw [hdn, hdn']
    · rw [hf, hf'] at he
      exact absurd he.symm (hnot d' hdl')
  · rcases addConn_live hd' with ⟨hdn', hf'⟩ | ⟨hdl', hf'⟩
    · rw [hf, hf'] at he
      exact absurd he (hnot d hdl)
    · rw [hf, hf'] at he
      exact h.apart d d' hdl hdl' he

/-- An accept on a number that no open socket has. -/
theorem leads_addConn {fd : Int} (hfd : 0 ≤ fd) (hnew : fd ≠ serverfd)
    (hclosed : socketOpen s fd = false) : Leads serverfd s (addConn s fd) := by
  refine ⟨⟨_, (addConn_trace s fd).symm⟩, Nat.le_succ _, fun _ h => ?_⟩
  refine ⟨h.addConn_loop hfd hnew hclosed, ?_, ?_, ?_, ?_, ?_, ?_, ?_,
    fun d d' => h.addConn_apart hclosed, ?_, ?_, ?_⟩
  · rw [show (addConn s fd).loop.pollFdsIterating = s.loop.pollFdsIterating from
      uvIoStart_iterating _ _ _]
    exact h.iterating
  · rw [addConn_io]
    simpa using h.server
  · intro d
    rw [addConn_io]
    by_cases hd : d = s.nextConn
    · subst hd
      simp [HttpdConn.initial]
    · simpa [hd] using h.io d
  · intro fd' d hw
    rcases uvIoStart_watchers hw with hw | ⟨hd, -⟩
    · have hne : d ≠ s.nextConn := fun he => h.next_unwatched fd' (he ▸ hw)
      rw [addConn_conns_other s hne]
      exact h.watched fd' d hw
    · cases hd
      rw [addConn_conns_self]
      rfl
  · intro d
    rw [addConn_nextConn]
    by_cases hd : d = s.nextConn
    · subst hd
      simp [HttpdConn.initial]
    · rw [addConn_conns_other s hd, h.born]
      exact ⟨fun hle => Nat.lt_of_le_of_ne hle (Ne.symm hd), Nat.le_of_succ_le⟩
  · intro d hd
    rw [addConn_nextConn] at hd
    have hne : d ≠ s.nextConn := (Nat.lt_of_succ_le hd).ne'
    simpa [hne] using h.unborn d (Nat.le_of_succ_le hd)
  · intro d hd
    rw [h.addConn_open]
    rcases addConn_live hd with ⟨-, he⟩ | ⟨hd, he⟩
    · rw [he]
      exact ⟨hfd, by simp⟩
    · rw [he]
      exact ⟨(h.opened d hd).1, by simp [(h.opened d hd).2]⟩
  · intro d hd
    rw [addConn_trace]
    by_cases hdc : d = s.nextConn
    · subst hdc
      rw [addConn_conns_self] at hd
      cases hd
    · rw [addConn_conns_other s hdc] at hd
      exact List.mem_append_left _ (h.freed d hd)
  · exact h.links.mono (Nat.le_succ _)
  · intro d hd
    exact Nat.lt_succ_of_lt (h.taken d hd)

/-! ## The steps -/

theorem leads_log (s : Httpd) {e : Event} (he : e.Quiet) : Leads serverfd s (s.log e) :=
  leads_quiet rfl rfl (fun _ => ⟨rfl, rfl⟩) rfl rfl (by simpa using he) (fun h => h)

variable {cfg : Config} {l : Llhttp} {y : Yuarel}

theorem leads_dispatch (hc : c < s.nextConn) (os : Os) : Leads serverfd s (dispatch s c os) := by
  refine leads_quiet (dispatch_loop s c os) (dispatch_phase s c os) ?_ (dispatch_nextConn s c os)
    (dispatch_trace s c os) (by simp [Event.Quiet]) ?_
  · intro d
    rw [dispatch_conns]
    split
    · rename_i hd
      simp [hd]
    · simp
  · intro h
    rw [dispatch_jsQueue]
    exact (h.init _).insertTail hc

theorem leads_stopReading (s : Httpd) (c : ConnId) : Leads serverfd s (stopReading s c) :=
  (leads_log s (by simp [Event.Quiet])).trans (leads_stop _ (.conn c))

theorem leads_onCallback (hc : c < s.nextConn) (os : Os) (cb : Callback) :
    Leads serverfd s (onCallback cfg y c os s cb) := by
  by_cases hcb : cb = .messageComplete
  · subst hcb
    have hstop : Leads serverfd s (stopReading s c) := leads_stopReading s c
    cases hd : cfg.dispatches (s.conns c).req with
    | true =>
      rw [onCallback_dispatch cfg y c os s hd]
      have hgone := hstop.trans (leads_dispatch (by exact hc) os)
      exact hgone.trans (leads_log _ (by simp [Event.Quiet]))
    | false =>
      obtain ⟨a, -, heq⟩ := onCallback_answer cfg y c os s hd
      rw [heq]
      have hwrote := hstop.trans (leads_log _ (e := .wrote c a) (by simp [Event.Quiet]))
      exact (hwrote.trans (leads_cleanup hc)).trans (leads_log _ (by simp [Event.Quiet]))
  · rw [onCallback_piece cfg y c os s hcb]
    have htrace : (((s.log (.callback c cb)).setReq c ((s.conns c).req.onCallback y cb)).log
        (.parser c)).trace = s.trace ++ [.callback c cb, .parser c] := by
      simp [Httpd.setReq]
    refine leads_quiet rfl rfl ?_ rfl htrace (by simp [Event.Quiet]) (fun h => h)
    intro d
    by_cases hd : d = c <;> simp [hd, Httpd.setReq]

theorem leads_onPoll (hc : c < s.nextConn) (events : Events) (os : Os) :
    Leads serverfd s (onPoll cfg l y s c events os) := by
  refine onPoll_rule (R := Leads serverfd) Leads.refl (fun _ _ _ => Leads.trans)
    (fun _ _ h => h.born) ?_ l hc events
  intro s s' hc hmove
  cases hmove with
  | logged he =>
    rcases he with rfl | rfl
    · exact leads_log s (by simp [Event.Quiet])
    · exact leads_log s (by simp [Event.Quiet])
  | cleaned => exact leads_cleanup hc
  | fed chunk =>
    refine leads_quiet rfl rfl ?_ rfl (List.append_nil _).symm (by simp) (fun h => h)
    intro d
    by_cases hd : d = c <;> simp [hd]
  | callback cb => exact leads_onCallback hc os cb

theorem leads_onConnected (ha : AcceptsNew serverfd s os) (events : Events) :
    Leads serverfd s (onConnected cfg s events os) := by
  rcases onConnected_cases cfg s events os with h | ⟨-, hfd, h⟩
  · rw [h]
    exact Leads.refl s
  · rw [h]
    exact leads_addConn hfd (ha hfd).1 (ha hfd).2

theorem leads_pollStep (hs : s.phase = .loop) (os : Os) :
    Leads serverfd s (pollStep cfg s os) := by
  have hafter : ∀ c, afterPoll cfg = .polling c → s.phase = .polling c :=
    fun c hc => absurd hc (afterPoll_notPolling cfg c)
  have hnot : (s.loop.pollFdsIterating = true ↔ ∃ i, s.phase = .iterating i) →
      s.loop.pollFdsIterating = false := by
    intro hit
    simpa [hs] using hit
  have hsame := (drainWatcherQueue_same s.loop).trans
    (isereTcpPoll_same (drainWatcherQueue s.loop) os.ready os.revents)
  unfold pollStep
  simp only
  split
  · refine leads_loop (fun hl hit => ⟨hl, ?_, fun _ => rfl⟩) (fun _ _ h => h) hafter
    simp [hnot hit, afterPoll_notIterating]
  · split
    · refine leads_loop (fun hl hit => ?_) (fun fd w hw => hsame.watchers ▸ hw) hafter
      obtain ⟨hl', hit'⟩ := hl.polled (hnot hit) os.ready os.revents
      exact ⟨hl', by simp [hit', afterPoll_notIterating], hsame.fd⟩
    · refine leads_loop (fun hl hit => ?_) (fun fd w hw => hsame.watchers ▸ hw) (by simp)
      obtain ⟨hl', -⟩ := hl.polled (hnot hit) os.ready os.revents
      exact ⟨hl'.iterate true, by simp, hsame.fd⟩

theorem leads_slotStep (h : SocketsOk serverfd s) (ha : AcceptsNew serverfd s os) {i : Nat}
    (hs : s.phase = .iterating i) : Leads serverfd s (slotStep cfg l y s i os) := by
  have hit := h.iterating.mpr ⟨i, hs⟩
  unfold slotStep
  split
  · refine leads_loop (fun hl _ => ⟨hl.iterate false, ?_, fun _ => rfl⟩) (fun _ _ h => h)
      (fun c hc => absurd hc (afterPoll_notPolling cfg c))
    simp [afterPoll_notIterating]
  · have hsame := uvPollSlot_same s.loop i
    have hslot : Leads serverfd s
        { s with loop := (uvPollSlot s.loop i).1, phase := .iterating (i + 1) } := by
      refine leads_loop (fun hl _ => ?_) (fun fd w hw => hsame.watchers ▸ hw) (by simp)
      obtain ⟨hit', hq'⟩ := uvPollSlot_rest s.loop i
      refine ⟨?_, by simp [hit', hit], hsame.fd⟩
      rw [hq']
      exact hl.slot hit i
    simp only
    cases hcall : (uvPollSlot s.loop i).2 with
    | none => exact hslot
    | some r =>
      obtain ⟨w, events⟩ := r
      cases w with
      | server => exact hslot.trans (leads_onConnected (by exact ha) events)
      | conn c =>
        obtain ⟨pe, -, -, hw⟩ := uvPollSlot_calls hcall
        have hlive := h.watched _ c hw
        have hc : c < s.nextConn := by
          rw [← Nat.not_le, ← h.born, hlive]
          simp
        exact hslot.trans (leads_onPoll (by exact hc) events os)

/-- The drain loop moves the links of the queue, and nothing of the sockets. -/
theorem leads_drain {m : Links JsNode} {p : Phase} (hs : ∀ i, s.phase ≠ .iterating i)
    (hm : LinksBelow s.nextConn s.jsQueue → LinksBelow s.nextConn m)
    (hp : ∀ i, p ≠ .iterating i)
    (ht : ∀ c, p = .polling c → s.phase = .polling c ∨ c < s.nextConn) :
    Leads serverfd s { s with jsQueue := m, phase := p } := by
  refine ⟨List.prefix_rfl, Nat.le_refl _, fun _ h => ?_⟩
  refine h.congr h.loop ?_ (fun _ _ h => h) (fun _ => rfl) (fun _ => ⟨rfl, rfl⟩) rfl
    (List.append_nil _).symm (by simp) (hm h.links) ?_
  · have hit := h.iterating
    simpa [hs, hp] using hit
  · exact fun c hc => (ht c hc).elim (h.taken c) id

theorem leads_drainStep (h : SocketsOk serverfd s) (hs : s.phase = .drain) :
    Leads serverfd s (drainStep s) := by
  have hs' : ∀ i, s.phase ≠ .iterating i := by simp [hs]
  have hhead : ∀ c, uvQueueHead s.jsQueue .head = .conn c → c < s.nextConn :=
    fun c hc => (h.links .head c (Or.inl hc)).resolve_right (by simp)
  have hout : LinksBelow s.nextConn s.jsQueue → LinksBelow s.nextConn
      (uvQueueInit (uvQueueRemove s.jsQueue (uvQueueHead s.jsQueue .head))
        (uvQueueHead s.jsQueue .head)) :=
    fun hl => (hl.remove hhead).init _
  have hstay : Leads serverfd s { s with
      jsQueue := uvQueueInit (uvQueueRemove s.jsQueue (uvQueueHead s.jsQueue .head))
        (uvQueueHead s.jsQueue .head) } :=
    leads_drain (p := s.phase) hs' hout hs' (fun _ hc => Or.inl hc)
  unfold drainStep
  split
  · exact leads_drain hs' (fun hl => hl) (by simp) (by simp)
  · simp only
    split
    · exact hstay
    · rename_i c hc
      split
      · exact hstay
      · refine leads_drain hs' hout (by simp) ?_
        rintro d ⟨⟩
        exact Or.inr (hhead c hc)

theorem leads_polledJs (hs : s.phase = .polling c) (os : Os) :
    Leads serverfd s (polledJs s c os) := by
  have hpolled : Leads serverfd s
      ((s.log (.jsPolled c os.jsPoll)).setResponse c os.jsResponse) := by
    refine leads_quiet rfl rfl ?_ rfl rfl (by simp [Event.Quiet]) (fun h => h)
    intro d
    by_cases hd : d = c <;> simp [hd, Httpd.setResponse]
  refine hpolled.trans (leads_drain (p := .drain) ?_ (fun h => h) (by simp) (by simp))
  intro i
  simp [Httpd.setResponse, hs]

theorem leads_pollingStep (hs : s.phase = .polling c) (hc : c < s.nextConn) (os : Os) :
    Leads serverfd s (pollingStep s c os) := by
  have hpolled : Leads serverfd s (polledJs s c os) := leads_polledJs hs os
  rcases pollingStep_cases s c os with ⟨-, -, heq⟩ | ⟨-, -, heq⟩ | heq
  · rw [heq]
    exact hpolled.trans (leads_cleanup hc)
  · rw [heq]
    refine hpolled.trans (leads_drain (p := .drain) ?_ ?_ (by simp) (by simp))
    · simp [polledJs]
    · exact fun h => h.insertTail hc
  · rw [heq]
    exact (hpolled.trans (leads_log _ (by simp [Event.Quiet]))).trans (leads_cleanup hc)

/-- Each step keeps the tables, unless it cleans a connection up again. -/
theorem leads_step (h : SocketsOk serverfd s) (ha : AcceptsNew serverfd s os) :
    Leads serverfd s (step cfg l y s os) := by
  unfold step
  split
  · rename_i hs
    split
    · refine (leads_stop s .server).trans (leads_loop (fun hl hit => ⟨hl, ?_, fun _ => rfl⟩)
        (fun _ _ h => h) (by simp))
      simpa [hs] using hit
    · exact leads_pollStep hs os
  · exact leads_slotStep h ha ‹_›
  · exact leads_drainStep h ‹_›
  · rename_i c hs
    exact leads_pollingStep hs (h.taken c hs) os
  · exact Leads.refl s

/-! ## The history -/

theorem cleanup_grows (s : Httpd) (c : ConnId) : s.trace <+: (httpdCleanupConn s c).trace :=
  ⟨_, (cleanup_trace s c).symm⟩

theorem log_grows (s : Httpd) (e : Event) : s.trace <+: (s.log e).trace := ⟨[e], rfl⟩

theorem onCallback_grows (cfg : Config) (y : Yuarel) (c : ConnId) (os : Os) (s : Httpd)
    (cb : Callback) : s.trace <+: (onCallback cfg y c os s cb).trace := by
  by_cases hcb : cb = .messageComplete
  · subst hcb
    cases hd : cfg.dispatches (s.conns c).req with
    | true =>
      rw [onCallback_dispatch cfg y c os s hd]
      simp
    | false =>
      obtain ⟨a, -, heq⟩ := onCallback_answer cfg y c os s hd
      rw [heq]
      simp
  · rw [piece_trace cfg y c os s hcb]
    exact List.prefix_append _ _

theorem onPoll_grows (cfg : Config) (l : Llhttp) (y : Yuarel) (s : Httpd) (c : ConnId)
    (events : Events) (os : Os) : s.trace <+: (onPoll cfg l y s c events os).trace := by
  refine star_inv (I := fun s' => s.trace <+: s'.trace) ?_ (onPoll_moves cfg l y s c events os)
    List.prefix_rfl
  intro s1 s2 h hmove
  cases hmove with
  | logged _ => exact h.trans (log_grows s1 _)
  | cleaned => exact h.trans (cleanup_grows s1 c)
  | fed chunk => exact h
  | callback cb => exact h.trans (onCallback_grows cfg y c os s1 cb)

/-- A step only adds to the history. -/
theorem step_grows (cfg : Config) (l : Llhttp) (y : Yuarel) (s : Httpd) (os : Os) :
    s.trace <+: (step cfg l y s os).trace := by
  unfold step
  split
  · split
    · exact List.prefix_rfl
    · obtain ⟨loop, p, heq, -, -⟩ := pollStep_moves cfg s os
      rw [heq]
  · rename_i i hs
    unfold slotStep
    split
    · exact List.prefix_rfl
    · simp only
      split
      · exact List.prefix_rfl
      · rename_i events _
        rcases onConnected_cases cfg { s with
          loop := (uvPollSlot s.loop i).1, phase := .iterating (i + 1) } events os with
          h | ⟨-, -, h⟩
        · rw [h]
        · rw [h]
          exact List.prefix_append _ _
      · exact onPoll_grows cfg l y { s with
          loop := (uvPollSlot s.loop i).1, phase := .iterating (i + 1) } _ _ os
  · obtain ⟨q, p, heq, -⟩ := drainStep_moves s
    rw [heq]
  · rename_i c hs
    have hpolled := log_grows s (.jsPolled c os.jsPoll)
    rcases pollingStep_cases s c os with ⟨-, -, heq⟩ | ⟨-, -, heq⟩ | heq
    · rw [heq]
      exact hpolled.trans (cleanup_grows (polledJs s c os) c)
    · rw [heq]
      exact hpolled
    · rw [heq]
      exact (hpolled.trans (log_grows (polledJs s c os) _)).trans (cleanup_grows _ c)
  · exact List.prefix_rfl

theorem run_grows {cfg : Config} {l : Llhttp} {y : Yuarel} (is : List Os) :
    s.trace <+: (run (step cfg l y) s is).trace :=
  run_inv_all (I := fun s' => s.trace <+: s'.trace)
    (fun s' os h => h.trans (step_grows cfg l y s' os)) List.prefix_rfl is

/-! ## The law -/

theorem start_socketsOk (serverfd : Nat) : SocketsOk serverfd (start serverfd) := by
  have hinit : LoopOk UV_POLLIN (uvPlatformLoopInit (startIo serverfd)) [] := by
    refine ⟨uvPlatformLoopInit_table (fun _ => rfl), ?_, ?_, ?_, ?_, ?_, List.nodup_nil, ?_⟩
    · simp [UvLoop.watched, uvPlatformLoopInit]
    · intro fd _
      exact Nat.zero_le 1
    · intro pe hpe
      cases hpe
    · intro fd w hw
      cases hw
    · intro w hw
      cases hw
    · intro fd w hw
      cases hw
  have hio : ∀ w, ((start serverfd).loop.io w).fd = (startIo serverfd w).fd := by
    intro w
    simp only [start, uvIoStart_fd]
    rfl
  refine ⟨?_, ?_, hio _, ?_, ?_, ?_, ?_, ?_, ?_, ?_, ?_, ?_⟩
  · apply LoopOk.start hinit
    · decide
    · exact Int.natCast_nonneg serverfd
    · rfl
    · intro fd hw
      cases hw
  · rw [show (start serverfd).loop.pollFdsIterating = false from uvIoStart_iterating _ _ _]
    simp [start]
  · intro c
    rw [hio]
    simp [startIo, start, HttpdConn.fresh, HttpdConn.initial]
  · exact fun fd c hw => absurd hw (start_watches_no_conn serverfd fd c)
  · exact fun c => ⟨fun _ => Nat.zero_le c, fun _ => rfl⟩
  · exact fun c _ => ⟨List.not_mem_nil, List.not_mem_nil⟩
  · intro c hlive
    cases hlive
  · intro c d hlive
    cases hlive
  · intro c hgone
    cases hgone
  · rintro n c (hlink | hlink)
    · exact Or.inr hlink
    · exact Or.inr hlink
  · intro c hphase
    cases hphase

/-- The tables of the event loop and the connections agree. -/
structure TablesAgree (serverfd : Nat) (s : Httpd) : Prop where
  nfds : s.loop.nfds =
    ((Finset.range s.loop.nwatchers).filter (fun fd => (s.loop.watchers fd).isSome)).card
  watchers : ∀ fd w, s.loop.watchers fd = some w → fd < s.loop.nwatchers ∧
    ((w = .server ∧ (s.loop.io w).fd = fd ∧ fd = serverfd) ∨
      ∃ c, w = .conn c ∧ (s.conns c).life = .live ∧ (s.loop.io w).fd = fd ∧ (s.conns c).fd = fd)
  slots : ∀ fd : Int, 0 ≤ fd → (s.loop.pollFds.map PollFd.fd).count fd ≤ 1
  placed : ∀ fd w, s.loop.watchers fd = some w → w ∈ s.loop.watcherQueue ∨
    ∃ pe ∈ s.loop.pollFds, pe.fd = fd ∧ pe.events = (s.loop.io w).pevents
  queued : ∀ w ∈ s.loop.watcherQueue, ∃ fd, s.loop.watchers fd = some w
  empty : s.loop.nfds = 0 → s.loop.watcherQueue = []
  asks : ∀ w ∈ s.loop.watcherQueue, (s.loop.io w).pevents ≠ 0 ∧ 0 ≤ (s.loop.io w).fd ∧
    (s.loop.io w).fd < s.loop.nwatchers
  inside : ∀ pe ∈ s.loop.pollFds, pe.fd = -1 ∨ (0 ≤ pe.fd ∧ pe.fd < s.loop.nwatchers)

theorem SocketsOk.tables (h : SocketsOk serverfd s) : TablesAgree serverfd s := by
  refine ⟨h.loop.nfds_eq, ?_, h.loop.single, h.loop.placed, h.loop.queued, h.loop.queue_nil,
    fun w hw => h.loop.queued_fd hw, h.loop.inside⟩
  intro fd w hw
  have hio := h.loop.table.fd_eq fd w hw
  refine ⟨h.loop.table.fd_lt fd w hw, ?_⟩
  cases w with
  | server =>
    left
    have hfd := h.server
    exact ⟨rfl, hio, by omega⟩
  | conn c =>
    right
    exact ⟨c, rfl, h.watched fd c hw, hio, (h.io c).symm.trans hio⟩

/-- In every run that cleans no connection up twice, in which each accept gives
the number of no open socket, the tables of the event loop agree. -/
theorem the_tables_of_the_loop_agree (cfg : Config) (l : Llhttp) (y : Yuarel) (serverfd : Nat)
    (is : List Os) (haccept : StepsOk (step cfg l y) (AcceptsNew serverfd) (start serverfd) is)
    (honce : CleanedOnce (run (step cfg l y) (start serverfd) is)) :
    TablesAgree serverfd (run (step cfg l y) (start serverfd) is) := by
  have hinv : CleanedOnce (run (step cfg l y) (start serverfd) is) →
      SocketsOk serverfd (run (step cfg l y) (start serverfd) is) :=
    run_inv (I := fun s => CleanedOnce s → SocketsOk serverfd s)
      (fun s os hs ha ho =>
        have h := hs (ho.before (step_grows cfg l y s os))
        (leads_step h ha).keeps ho h)
      (fun _ => start_socketsOk serverfd) haccept
  exact (hinv honce).tables

/-- A client goes, and the next one gets its descriptor while the slot of the
first is still there. -/
theorem a_number_comes_back : TablesAgree 3
    (run (step { maxConns := 12, hasHandler := true } rootLlhttp slashYuarel) (start 3)
      (acceptAt 5 ++ receiveAt [] ++ [Os.quiet, Os.quiet] ++ acceptAt 5)) :=
  the_tables_of_the_loop_agree _ _ _ _ _ (by decide +kernel) (by decide +kernel)

end isere.httpd
