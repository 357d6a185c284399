-- The effects that the steps of the httpd task are made of, and the invariant
-- that each of them keeps: who is in the watcher table, which connections are
-- alive, and what the js_queue holds.
import Isere.HttpdEffects

open cstring intrusive isere.tcp isere.uv

namespace isere.httpd

/-! ## The effects -/

/-- A connection that is alive and waits for its request. -/
def Reading (s : Httpd) (c : ConnId) : Prop :=
  (s.conns c).life = .live ∧ (s.conns c).jsInitialized = false

/-- What a run may contain. `stale`: a request that is answered inside a
callback, so that its parser goes on in freed memory. `again`: one more answer
by that parser. `twice`: an error of that parser. `lateError`: an error of
llhttp after a request that went to the handler. -/
structure Mode where
  stale : Bool
  again : Bool
  twice : Bool
  lateError : Bool

def anyMode : Mode := { stale := true, again := true, twice := true, lateError := true }

/-- The connections whose parser may run. -/
def Hears (m : Mode) (s : Httpd) (c : ConnId) : Prop :=
  (s.conns c).life = .live ∨ (m.stale = true ∧ (s.conns c).life = .cleaned)

/-- A connection after its poll in the drain loop. -/
def polledJs (s : Httpd) (c : ConnId) (os : Os) : Httpd :=
  { (s.log (.jsPolled c os.jsPoll)).setResponse c os.jsResponse with phase := .drain }

theorem polledJs_trace (s : Httpd) (c : ConnId) (os : Os) :
    (polledJs s c os).trace = s.trace ++ [.jsPolled c os.jsPoll] := rfl

theorem polledJs_conns_other (s : Httpd) {c d : ConnId} (h : d ≠ c) (os : Os) :
    (polledJs s c os).conns d = s.conns d := by
  simp [polledJs, Httpd.setResponse, h]

/-- The rest of the drain loop drops the connection, puts it back, or answers it. -/
theorem pollingStep_cases (s : Httpd) (c : ConnId) (os : Os) :
    ((s.conns c).response.completed = false ∧ os.jsPoll < 0 ∧
        pollingStep s c os = httpdCleanupConn (polledJs s c os) c) ∨
      ((s.conns c).response.completed = false ∧ 0 < os.jsPoll ∧ pollingStep s c os =
        { polledJs s c os with jsQueue := uvQueueInsertTail s.jsQueue .head (.conn c) }) ∨
      pollingStep s c os = httpdCleanupConn ((polledJs s c os).log
        (.wrote c (httpdWriteback ((polledJs s c os).conns c).response))) c := by
  unfold pollingStep
  simp only
  split
  · rename_i hgo
    have hopen : (s.conns c).response.completed = false := by simpa using hgo.1
    split
    · rename_i hneg
      exact Or.inl ⟨hopen, hneg, rfl⟩
    · exact Or.inr (Or.inl ⟨hopen, by omega, rfl⟩)
  · exact Or.inr (Or.inr rfl)

/-- The effects of the steps of the task. -/
inductive Trans (cfg : Config) (y : Yuarel) (m : Mode) : Httpd → Httpd → Prop
  | table {s : Httpd} {loop : UvLoop WatcherId} {p : Phase} (hloop : SameTable s.loop loop)
      (hs : ∀ c, s.phase ≠ .polling c) (hp : ∀ c, p ≠ .polling c) :
      Trans cfg y m s { s with loop, phase := p }
  | stopServer {s : Httpd} (hs : s.phase = .loop) :
      Trans cfg y m s { s with loop := uvIoStop s.loop .server UV_POLLIN, phase := .exited }
  | admitted {s : Httpd} {i : Nat} {fd : Int} (hs : s.phase = .iterating i)
      (hlim : atLimit cfg.maxConns s.tcp = false) (hfd : 0 ≤ fd) : Trans cfg y m s (addConn s fd)
  | polled {s : Httpd} {i : Nat} {c : ConnId} (hs : s.phase = .iterating i) (hc : Reading s c) :
      Trans cfg y m s (s.log (.polled c))
  | fed {s : Httpd} {i : Nat} {c : ConnId} (chunk : Bytes) (hs : s.phase = .iterating i)
      (hc : Reading s c) :
      Trans cfg y m s (s.setConn c { s.conns c with fed := (s.conns c).fed ++ [chunk] })
  | piece {s : Httpd} {i : Nat} {c : ConnId} {cb : Callback} (os : Os)
      (hs : s.phase = .iterating i) (hcb : cb ≠ .messageComplete) (hc : Hears m s c) :
      Trans cfg y m s (onCallback cfg y c os s cb)
  | dispatched {s : Httpd} {i : Nat} {c : ConnId} (os : Os) (hs : s.phase = .iterating i)
      (hc : Reading s c) (hd : cfg.dispatches (s.conns c).req = true) :
      Trans cfg y m s (onCallback cfg y c os s .messageComplete)
  | answered {s : Httpd} {i : Nat} {c : ConnId} (os : Os) (hs : s.phase = .iterating i)
      (hc : (s.conns c).life = .live ∨ (m.again = true ∧ (s.conns c).life = .cleaned))
      (hd : cfg.dispatches (s.conns c).req = false) (hm : m.stale = true) :
      Trans cfg y m s (onCallback cfg y c os s .messageComplete)
  | tooLarge {s : Httpd} {i : Nat} {c : ConnId} (hs : s.phase = .iterating i)
      (hc : Reading s c) : Trans cfg y m s (httpdCleanupConn (s.log (.wrote c .tooLarge)) c)
  | dropped {s : Httpd} {i : Nat} {c : ConnId} (hs : s.phase = .iterating i)
      (hc : (s.conns c).life = .live ∨ (m.twice = true ∧ (s.conns c).life = .cleaned))
      (hm : (s.conns c).jsInitialized = true → m.lateError = true) :
      Trans cfg y m s (httpdCleanupConn s c)
  | taken {s : Httpd} {c : ConnId} (hs : s.phase = .drain)
      (hc : uvQueueHead s.jsQueue .head = .conn c) :
      Trans cfg y m s { s with
        jsQueue := uvQueueInit (uvQueueRemove s.jsQueue (.conn c)) (.conn c), phase := .polling c }
  | requeued {s : Httpd} {c : ConnId} (os : Os) (hs : s.phase = .polling c)
      (hcb : (s.conns c).response.completed = false) (hr : 0 < os.jsPoll) :
      Trans cfg y m s { polledJs s c os with
        jsQueue := uvQueueInsertTail s.jsQueue .head (.conn c) }
  | gaveUp {s : Httpd} {c : ConnId} (os : Os) (hs : s.phase = .polling c) (hr : os.jsPoll < 0) :
      Trans cfg y m s (httpdCleanupConn (polledJs s c os) c)
  | wroteBack {s : Httpd} {c : ConnId} (os : Os) (hs : s.phase = .polling c) :
      Trans cfg y m s (httpdCleanupConn ((polledJs s c os).log
        (.wrote c (httpdWriteback ((polledJs s c os).conns c).response))) c)

/-- The rest of the drain loop puts the connection back, gives it up, or
answers it. -/
theorem pollingStep_trans (cfg : Config) (y : Yuarel) (m : Mode) {s : Httpd} {c : ConnId}
    (hs : s.phase = .polling c) (os : Os) : Trans cfg y m s (pollingStep s c os) := by
  rcases pollingStep_cases s c os with ⟨-, hneg, heq⟩ | ⟨hopen, hpos, heq⟩ | heq
  · rw [heq]
    exact .gaveUp os hs hneg
  · rw [heq]
    exact .requeued os hs hopen hpos
  · rw [heq]
    exact .wroteBack os hs

/-! ## The invariant -/

/-- The connections and the watcher table. -/
structure ConnsOk (s : Httpd) : Prop where
  table : TableOk UV_POLLIN s.loop
  watched : ∀ fd c, s.loop.watchers fd = some (.conn c) → Reading s c
  born : ∀ c, (s.conns c).life = .fresh ↔ s.nextConn ≤ c
  js : ∀ c, (s.conns c).jsInitialized = true → (s.conns c).life = .live
  fd : ∀ c, (s.conns c).life = .live → 0 ≤ (s.conns c).fd

/-- The `js_queue` holds the connections of `l`: those that went to the handler,
less the one that the drain loop took. The node of that one is in no ring. -/
structure QueueIs (s : Httpd) (l : List ConnId) : Prop where
  ring : Ring s.jsQueue .head (l.map .conn)
  mem : ∀ c, c ∈ l ↔ (s.conns c).jsInitialized = true ∧ s.phase ≠ .polling c
  taken : ∀ c, s.phase = .polling c →
    (s.conns c).jsInitialized = true ∧ Alone s.jsQueue (.conn c)

structure Inv (s : Httpd) : Prop where
  conns : ConnsOk s
  queue : ∃ l, QueueIs s l

/-- The connection that the drain loop took is alive. -/
theorem Inv.taken_live {s : Httpd} (hi : Inv s) {c : ConnId} (hs : s.phase = .polling c) :
    (s.conns c).life = .live := by
  obtain ⟨l, q⟩ := hi.queue
  exact hi.conns.js c (q.taken c hs).1

theorem QueueIs.nodup {s : Httpd} {l : List ConnId} (q : QueueIs s l) : l.Nodup :=
  (List.nodup_cons.mp q.ring.nodup).2.of_map _

theorem mem_queue_iff {c : ConnId} {l : List ConnId} :
    JsNode.conn c ∈ JsNode.head :: l.map .conn ↔ c ∈ l := by
  simp

/-! ## The connections -/

/-- The part of the state that `ConnsOk` reads. -/
theorem ConnsOk.congr {s s' : Httpd} (h : ConnsOk s) (hl : SameTable s.loop s'.loop)
    (hc : ∀ c, (s'.conns c).life = (s.conns c).life ∧
      (s'.conns c).jsInitialized = (s.conns c).jsInitialized ∧ (s'.conns c).fd = (s.conns c).fd)
    (hn : s'.nextConn = s.nextConn) : ConnsOk s' := by
  refine ⟨hl.table h.table, ?_, ?_, ?_, ?_⟩
  · intro fd c hw
    unfold Reading
    rw [(hc c).1, (hc c).2.1]
    exact h.watched fd c (hl.watchers ▸ hw)
  · intro c
    rw [(hc c).1, hn]
    exact h.born c
  · intro c
    rw [(hc c).1, (hc c).2.1]
    exact h.js c
  · intro c
    rw [(hc c).1, (hc c).2.2]
    exact h.fd c

/-- No connection has the next number yet. -/
theorem ConnsOk.next_fresh {s : Httpd} (h : ConnsOk s) : (s.conns s.nextConn).life = .fresh ∧
    (s.conns s.nextConn).jsInitialized = false := by
  have hfresh := (h.born s.nextConn).mpr (Nat.le_refl _)
  refine ⟨hfresh, ?_⟩
  rw [← Bool.not_eq_true]
  intro hj
  rw [h.js _ hj] at hfresh
  cases hfresh

/-- A stop only takes a watcher out of the table. -/
theorem ConnsOk.stopped {s : Httpd} (h : ConnsOk s) (w : WatcherId) (p : Phase) :
    ConnsOk { s with loop := uvIoStop s.loop w UV_POLLIN, phase := p } := by
  refine ⟨uvIoStop_table h.table w, ?_, h.born, h.js, h.fd⟩
  intro fd c hw
  exact h.watched fd c ((uvIoStop_watchers_iff h.table w _ fd).mp hw).1

theorem not_fresh {x : Life} {p : Prop} (h : x = .live ∨ (p ∧ x = .cleaned)) : x ≠ .fresh := by
  rcases h with rfl | ⟨-, rfl⟩ <;> simp

/-- A cleanup ends a connection, or touches one that ended before. -/
theorem ConnsOk.cleaned {s : Httpd} (h : ConnsOk s) {c : ConnId} (hc : (s.conns c).life ≠ .fresh) :
    ConnsOk (httpdCleanupConn s c) := by
  refine ⟨?_, ?_, ?_, ?_, ?_⟩
  · rw [cleanup_loop]
    exact uvIoStop_table h.table _
  · intro fd d hw
    rw [cleanup_loop] at hw
    obtain ⟨hw, hne⟩ := (uvIoStop_watchers_iff h.table _ _ fd).mp hw
    have hd : d ≠ c := fun he => hne (by rw [he])
    unfold Reading
    rw [cleanup_conns_other s hd]
    exact h.watched fd d hw
  · intro d
    rw [cleanup_nextConn]
    by_cases hd : d = c
    · subst hd
      have hborn := h.born d
      simp only [hc, false_iff] at hborn
      simp [hborn]
    · rw [cleanup_conns_other s hd]
      exact h.born d
  · intro d
    by_cases hd : d = c
    · subst hd
      simp
    · rw [cleanup_conns_other s hd]
      exact h.js d
  · intro d
    by_cases hd : d = c
    · subst hd
      simp
    · rw [cleanup_conns_other s hd]
      exact h.fd d

@[simp] theorem polledJs_conns (s : Httpd) (c d : ConnId) (os : Os) :
    ((polledJs s c os).conns d).life = (s.conns d).life ∧
      ((polledJs s c os).conns d).jsInitialized = (s.conns d).jsInitialized ∧
      ((polledJs s c os).conns d).fd = (s.conns d).fd := by
  by_cases hd : d = c <;> simp [hd, polledJs, Httpd.setResponse]

theorem ConnsOk.polledJs {s : Httpd} (h : ConnsOk s) (c : ConnId) (os : Os) :
    ConnsOk (polledJs s c os) :=
  h.congr (SameTable.refl _) (fun d => polledJs_conns s c d os) rfl

/-- A dispatch of a connection that reads no more. -/
theorem ConnsOk.dispatched {s : Httpd} (h : ConnsOk s) {c : ConnId}
    (hc : (s.conns c).life = .live) (hw : ∀ fd, s.loop.watchers fd ≠ some (.conn c)) (os : Os) :
    ConnsOk (dispatch s c os) := by
  refine ⟨h.table, ?_, ?_, ?_, ?_⟩
  · intro fd d hwd
    have hd : d ≠ c := by
      rintro rfl
      exact hw fd hwd
    unfold Reading
    rw [dispatch_conns_other s hd]
    exact h.watched fd d hwd
  · intro d
    rw [dispatch_nextConn, ← h.born d]
    by_cases hd : d = c
    · subst hd
      simp
    · rw [dispatch_conns_other s hd]
  · intro d
    by_cases hd : d = c
    · subst hd
      simp [hc]
    · rw [dispatch_conns_other s hd]
      exact h.js d
  · intro d
    by_cases hd : d = c
    · subst hd
      simpa using h.fd d
    · rw [dispatch_conns_other s hd]
      exact h.fd d

theorem ConnsOk.admitted {s : Httpd} (h : ConnsOk s) {fd : Int} (hfd : 0 ≤ fd) :
    ConnsOk (addConn s fd) := by
  have hnew : ∀ fd', s.loop.watchers fd' ≠ some (.conn s.nextConn) := by
    intro fd' hw
    have hlive := (h.watched fd' _ hw).1
    rw [h.next_fresh.1] at hlive
    cases hlive
  have hset : TableOk UV_POLLIN
      (s.loop.setIo (.conn s.nextConn) { pevents := 0, events := 0, fd := fd }) := by
    refine ⟨?_, h.table.fd_lt, ?_⟩
    · intro fd' w hw
      have hne : w ≠ .conn s.nextConn := by
        rintro rfl
        exact hnew fd' hw
      simpa [UvLoop.setIo, hne] using h.table.fd_eq fd' w hw
    · intro w
      by_cases hw : w = .conn s.nextConn
      · subst hw
        simp [UvLoop.setIo]
      · simpa [UvLoop.setIo, hw] using h.table.masked w
  refine ⟨uvIoStart_table hset (by simpa [UvLoop.setIo] using hfd), ?_, ?_, ?_, ?_⟩
  · intro fd' d hw
    by_cases hd : d = s.nextConn
    · subst hd
      unfold Reading
      rw [addConn_conns_self]
      exact ⟨rfl, rfl⟩
    · rcases uvIoStart_watchers hw with hw | hw
      · unfold Reading
        rw [addConn_conns_other s hd]
        exact h.watched fd' d hw
      · simp [hd] at hw
  · intro d
    rw [addConn_nextConn]
    by_cases hd : d = s.nextConn
    · subst hd
      rw [addConn_conns_self]
      simp [HttpdConn.initial]
    · rw [addConn_conns_other s hd, h.born d]
      exact ⟨fun hle => Nat.lt_of_le_of_ne hle (Ne.symm hd), Nat.le_of_succ_le⟩
  · intro d
    by_cases hd : d = s.nextConn
    · subst hd
      rw [addConn_conns_self]
      simp [HttpdConn.initial]
    · rw [addConn_conns_other s hd]
      exact h.js d
  · intro d
    by_cases hd : d = s.nextConn
    · subst hd
      rw [addConn_conns_self]
      exact fun _ => hfd
    · rw [addConn_conns_other s hd]
      exact h.fd d

/-! ## The queue -/

/-- The part of the state that `QueueIs` reads, outside the drain loop. -/
theorem QueueIs.congr {s s' : Httpd} {l : List ConnId} (q : QueueIs s l)
    (hq : s'.jsQueue = s.jsQueue)
    (hc : ∀ c, (s'.conns c).jsInitialized = (s.conns c).jsInitialized)
    (hs : ∀ c, s.phase ≠ .polling c) (hs' : ∀ c, s'.phase ≠ .polling c) : QueueIs s' l := by
  refine ⟨hq ▸ q.ring, ?_, fun c h => absurd h (hs' c)⟩
  intro c
  rw [q.mem c, hc c]
  simp [hs c, hs' c]

/-- A cleanup takes the connection out of the ring, if it is there, and touches
nothing if its node is alone. -/
theorem cleanup_ring {s : Httpd} {c : ConnId} {l : List ConnId}
    (r : Ring s.jsQueue .head (l.map .conn)) (hin : c ∈ l → (s.conns c).jsInitialized = true)
    (hout : c ∉ l → (s.conns c).jsInitialized = true → Alone s.jsQueue (.conn c)) :
    Ring (httpdCleanupConn s c).jsQueue .head ((l.erase c).map .conn) := by
  rw [cleanup_jsQueue]
  by_cases hc : c ∈ l
  · rw [if_pos (hin hc)]
    obtain ⟨l1, l2, -, rfl, herase⟩ := List.exists_erase_eq hc
    rw [herase, List.map_append]
    rw [List.map_append, List.map_cons] at r
    exact uvQueueRemove_ring r
  · rw [List.erase_of_not_mem hc]
    split
    · rw [uvQueueRemove_alone (hout hc ‹_›)]
      exact r
    · exact r

/-- A cleanup at a poll slot. -/
theorem QueueIs.cleaned {s : Httpd} {l : List ConnId} (q : QueueIs s l)
    (hs : ∀ c, s.phase ≠ .polling c) (c : ConnId) : QueueIs (httpdCleanupConn s c) (l.erase c) := by
  refine ⟨?_, ?_, ?_⟩
  · apply cleanup_ring q.ring
    · exact fun hc => ((q.mem c).mp hc).1
    · exact fun hc hj => absurd ((q.mem c).mpr ⟨hj, hs c⟩) hc
  · intro d
    rw [q.nodup.mem_erase_iff, q.mem d, cleanup_phase]
    by_cases hd : d = c
    · subst hd
      simp
    · simp [hd]
  · intro d hd
    rw [cleanup_phase] at hd
    exact absurd hd (hs d)

/-- A cleanup of the connection that the drain loop took. -/
theorem QueueIs.finished {s s' : Httpd} {l : List ConnId} {c : ConnId} (q : QueueIs s l)
    (hs : s.phase = .polling c) (hq : s'.jsQueue = s.jsQueue)
    (hj : ∀ d, (s'.conns d).jsInitialized = (s.conns d).jsInitialized)
    (hs' : s'.phase = .drain) : QueueIs (httpdCleanupConn s' c) l := by
  have hc : c ∉ l := fun h => ((q.mem c).mp h).2 hs
  refine ⟨?_, ?_, ?_⟩
  · have herase := cleanup_ring (s := s') (c := c) (l := l) (hq ▸ q.ring)
      (fun h => absurd h hc) (fun _ _ => hq ▸ (q.taken c hs).2)
    rwa [List.erase_of_not_mem hc] at herase
  · intro d
    rw [q.mem d, cleanup_phase, hs, hs']
    by_cases hd : d = c
    · subst hd
      simp
    · rw [cleanup_conns_other s' hd, hj d]
      simp [Ne.symm hd]
  · intro d hd
    rw [cleanup_phase, hs'] at hd
    cases hd

theorem QueueIs.dispatched {s : Httpd} {l : List ConnId} (q : QueueIs s l) {c : ConnId}
    (hs : ∀ c, s.phase ≠ .polling c) (hc : (s.conns c).jsInitialized = false) (os : Os) :
    QueueIs (dispatch s c os) (l ++ [c]) := by
  have hout : c ∉ l := by
    intro h
    simpa [hc] using ((q.mem c).mp h).1
  refine ⟨?_, ?_, fun d hd => absurd hd (hs d)⟩
  · rw [dispatch_jsQueue, List.map_append]
    have hnode : JsNode.conn c ∉ JsNode.head :: l.map .conn := fun h => hout (mem_queue_iff.mp h)
    exact uvQueueInsertTail_ring (uvQueueInit_ring q.ring hnode) hnode
  · intro d
    rw [List.mem_append, List.mem_singleton, q.mem d, dispatch_phase]
    by_cases hd : d = c
    · subst hd
      simp [hs d]
    · simp [hd]

theorem QueueIs.took {s : Httpd} {l : List ConnId} {c : ConnId} (q : QueueIs s (c :: l))
    (hs : s.phase = .drain) :
    QueueIs { s with
      jsQueue := uvQueueInit (uvQueueRemove s.jsQueue (.conn c)) (.conn c),
      phase := .polling c } l := by
  have hnd := List.nodup_cons.mp q.nodup
  refine ⟨?_, ?_, ?_⟩
  · have hring := q.ring
    rw [List.map_cons, ← List.nil_append (JsNode.conn c :: _)] at hring
    exact uvQueueInit_ring (uvQueueRemove_ring hring) (fun h => hnd.1 (mem_queue_iff.mp h))
  · intro d
    have hd := q.mem d
    simp only [List.mem_cons, hs, ne_eq, reduceCtorEq, not_false_eq_true, and_true] at hd
    simp only [← hd, Phase.polling.injEq, ne_eq]
    constructor
    · intro h
      refine ⟨Or.inr h, ?_⟩
      rintro rfl
      exact hnd.1 h
    · rintro ⟨rfl | h, hne⟩
      · exact absurd rfl hne
      · exact h
  · intro d hd
    simp only [Phase.polling.injEq] at hd
    subst hd
    exact ⟨((q.mem c).mp (by simp)).1, uvQueueInit_alone _ _⟩

theorem QueueIs.putBack {s s' : Httpd} {l : List ConnId} {c : ConnId} (q : QueueIs s l)
    (hs : s.phase = .polling c) (hq : s'.jsQueue = uvQueueInsertTail s.jsQueue .head (.conn c))
    (hj : ∀ d, (s'.conns d).jsInitialized = (s.conns d).jsInitialized)
    (hs' : s'.phase = .drain) : QueueIs s' (l ++ [c]) := by
  have hc : c ∉ l := fun h => ((q.mem c).mp h).2 hs
  refine ⟨?_, ?_, ?_⟩
  · rw [hq, List.map_append]
    exact uvQueueInsertTail_ring q.ring (fun h => hc (mem_queue_iff.mp h))
  · intro d
    rw [List.mem_append, List.mem_singleton, q.mem d, hs, hs', hj d]
    by_cases hd : d = c
    · subst hd
      simp [(q.taken d hs).1]
    · simp [hd, Ne.symm hd]
  · intro d hd
    rw [hs'] at hd
    cases hd

/-! ## Every effect keeps the invariant -/

theorem trans_conns {cfg : Config} {y : Yuarel} {m : Mode} {s s' : Httpd}
    (h : Trans cfg y m s s') (hi : Inv s) : ConnsOk s' := by
  have hc := hi.conns
  cases h with
  | table hloop _ _ => exact hc.congr hloop (fun _ => ⟨rfl, rfl, rfl⟩) rfl
  | stopServer _ => exact hc.stopped .server .exited
  | admitted _ _ hfd => exact hc.admitted hfd
  | polled _ _ => exact hc.congr (SameTable.refl _) (fun _ => ⟨rfl, rfl, rfl⟩) rfl
  | @fed _ c chunk _ _ => exact hc.congr (SameTable.refl _) (fed_conns s c chunk) rfl
  | @piece _ c cb os _ hcb _ =>
    have hsame := piece_conns cfg y c os s hcb
    rw [onCallback_piece cfg y c os s hcb] at hsame ⊢
    exact hc.congr (SameTable.refl _) hsame rfl
  | @dispatched _ c os _ hr hd =>
    rw [onCallback_dispatch cfg y c os s hd]
    have hstop := hc.stopped (.conn c) s.phase
    have hout : ∀ fd, (uvIoStop s.loop (.conn c) UV_POLLIN).watchers fd ≠ some (.conn c) :=
      fun fd hw => ((uvIoStop_watchers_iff hc.table _ _ fd).mp hw).2 rfl
    have hlog : ConnsOk (stopReading s c) :=
      hstop.congr (SameTable.refl _) (fun _ => ⟨rfl, rfl, rfl⟩) rfl
    exact (hlog.dispatched hr.1 hout os).congr (SameTable.refl _) (fun _ => ⟨rfl, rfl, rfl⟩) rfl
  | @answered _ c os _ hr hd _ =>
    obtain ⟨a, -, ha⟩ := onCallback_answer cfg y c os s hd
    rw [ha]
    have hstop : ConnsOk ((stopReading s c).log (.wrote c a)) :=
      (hc.stopped (.conn c) s.phase).congr (SameTable.refl _) (fun _ => ⟨rfl, rfl, rfl⟩) rfl
    exact (hstop.cleaned (not_fresh hr)).congr (SameTable.refl _) (fun _ => ⟨rfl, rfl, rfl⟩) rfl
  | @tooLarge _ c _ hr =>
    have hlog : ConnsOk (s.log (.wrote c .tooLarge)) :=
      hc.congr (SameTable.refl _) (fun _ => ⟨rfl, rfl, rfl⟩) rfl
    exact hlog.cleaned (not_fresh (p := False) (Or.inl hr.1))
  | dropped _ hr _ => exact hc.cleaned (not_fresh hr)
  | taken _ _ => exact hc.congr (SameTable.refl _) (fun _ => ⟨rfl, rfl, rfl⟩) rfl
  | @requeued c os _ _ _ =>
    exact (hc.polledJs c os).congr (SameTable.refl _) (fun _ => ⟨rfl, rfl, rfl⟩) rfl
  | @gaveUp c os hs _ => exact (hc.polledJs c os).cleaned (by simp [hi.taken_live hs])
  | @wroteBack c os hs =>
    have hlog : ConnsOk ((polledJs s c os).log
        (.wrote c (httpdWriteback ((polledJs s c os).conns c).response))) :=
      (hc.polledJs c os).congr (SameTable.refl _) (fun _ => ⟨rfl, rfl, rfl⟩) rfl
    exact hlog.cleaned (by simp [hi.taken_live hs])

theorem trans_queue {cfg : Config} {y : Yuarel} {m : Mode} {s s' : Httpd}
    (h : Trans cfg y m s s') (hc : ConnsOk s) {l : List ConnId} (q : QueueIs s l) :
    ∃ l', QueueIs s' l' := by
  have hslot : ∀ {i}, s.phase = .iterating i → ∀ c, s.phase ≠ .polling c := by
    intro i hs c hp
    simp [hs] at hp
  cases h with
  | table _ hs hp => exact ⟨l, q.congr rfl (fun _ => rfl) hs hp⟩
  | stopServer hs =>
    exact ⟨l, q.congr rfl (fun _ => rfl) (fun c hp => by simp [hs] at hp) (by simp)⟩
  | @admitted _ fd hs _ _ =>
    refine ⟨l, ?_⟩
    refine ⟨q.ring, ?_, fun c hp => absurd hp (hslot hs c)⟩
    intro c
    rw [q.mem c]
    by_cases hnew : c = s.nextConn
    · subst hnew
      simp [HttpdConn.initial, hc.next_fresh.2]
    · simp [hnew]
  | polled hs _ => exact ⟨l, q.congr rfl (fun _ => rfl) (hslot hs) (hslot hs)⟩
  | @fed _ c chunk hs _ =>
    exact ⟨l, q.congr rfl (fun d => (fed_conns s c chunk d).2.1) (hslot hs) (hslot hs)⟩
  | @piece _ c cb os hs hcb _ =>
    have hsame := fun d => (piece_conns cfg y c os s hcb d).2.1
    rw [onCallback_piece cfg y c os s hcb] at hsame ⊢
    exact ⟨l, q.congr rfl hsame (hslot hs) (hslot hs)⟩
  | @dispatched _ c os hs hr hd =>
    rw [onCallback_dispatch cfg y c os s hd]
    have hstop : QueueIs (stopReading s c) l :=
      q.congr rfl (fun _ => rfl) (hslot hs) (hslot hs)
    exact ⟨l ++ [c], (hstop.dispatched (hslot hs) hr.2 os).congr rfl (fun _ => rfl)
      (hslot hs) (hslot hs)⟩
  | @answered _ c os hs hr hd _ =>
    obtain ⟨a, -, ha⟩ := onCallback_answer cfg y c os s hd
    rw [ha]
    have hstop : QueueIs ((stopReading s c).log (.wrote c a)) l :=
      q.congr rfl (fun _ => rfl) (hslot hs) (hslot hs)
    refine ⟨l.erase c, (hstop.cleaned (hslot hs) c).congr rfl (fun _ => rfl) ?_ ?_⟩
    · simpa using hslot hs
    · simpa using hslot hs
  | @tooLarge _ c hs _ =>
    have hlog : QueueIs (s.log (.wrote c .tooLarge)) l :=
      q.congr rfl (fun _ => rfl) (hslot hs) (hslot hs)
    exact ⟨l.erase c, hlog.cleaned (hslot hs) c⟩
  | @dropped _ c hs _ _ => exact ⟨l.erase c, q.cleaned (hslot hs) c⟩
  | @taken c hs hhead =>
    cases l with
    | nil =>
      rw [uvQueueHead, (ring_nil_iff.mp q.ring).1] at hhead
      cases hhead
    | cons d l =>
      have hd := q.ring.next_head
      rw [uvQueueHead, hd] at hhead
      cases hhead
      exact ⟨l, q.took hs⟩
  | @requeued c os hs _ _ =>
    exact ⟨l ++ [c], q.putBack hs rfl (fun d => by simp) rfl⟩
  | @gaveUp c os hs _ => exact ⟨l, q.finished hs rfl (fun d => by simp) rfl⟩
  | @wroteBack c os hs => exact ⟨l, q.finished hs rfl (fun d => by simp) rfl⟩

theorem trans_inv {cfg : Config} {y : Yuarel} {m : Mode} {s s' : Httpd}
    (h : Trans cfg y m s s') (hi : Inv s) : Inv s' := by
  obtain ⟨l, q⟩ := hi.queue
  exact ⟨trans_conns h hi, trans_queue h hi.conns q⟩

end isere.httpd
