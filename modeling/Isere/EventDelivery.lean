-- What a poll of the sockets brings to the connections. Each connection that reads
-- has its entry in the table and its slot in the poll, and what the poll reports for
-- the slot comes to the connection once, whatever the callbacks of the others do.
import Isere.Sessions
import Isere.Sockets
import Isere.StaleEvents
import Isere.TableSize
import Mathlib.Data.List.NodupEquivFin

open cstring intrusive isere.tcp isere.uv runs

namespace isere.httpd

/-! ## Connections that read are in the table -/

/-- Each connection that reads has the entry of its descriptor. -/
structure Watches (s : Httpd) : Prop where
  table : TableOk UV_POLLIN s.loop
  readers : ∀ c, Reading s c → s.loop.watchers (s.conns c).fd.toNat = some (.conn c)

section Step

variable {cfg : Config} {l : Llhttp} {y : Yuarel} {serverfd : Nat} {s s' : Httpd} {os : Os}

/-- The table stays, and no connection begins to read. -/
theorem Watches.quiet (h : Watches s) (hloop : SameTable s.loop s'.loop)
    (hconns : ∀ c, Reading s' c → Reading s c ∧ (s'.conns c).fd = (s.conns c).fd) :
    Watches s' := by
  refine ⟨hloop.table h.table, fun c hc => ?_⟩
  obtain ⟨hread, hfd⟩ := hconns c hc
  rw [hfd, hloop.watchers]
  exact h.readers c hread

/-- A watcher that goes is that of no connection that goes on reading. -/
theorem Watches.stopped (h : Watches s) (w : WatcherId) (htable : TableOk UV_POLLIN s'.loop)
    (hstop : ∀ fd w', s'.loop.watchers fd = some w' ↔ s.loop.watchers fd = some w' ∧ w' ≠ w)
    (hconns : ∀ c, Reading s' c → .conn c ≠ w ∧ Reading s c ∧
      (s'.conns c).fd = (s.conns c).fd) : Watches s' := by
  refine ⟨htable, fun c hc => ?_⟩
  obtain ⟨hne, hread, hfd⟩ := hconns c hc
  rw [hfd, hstop]
  exact ⟨h.readers c hread, hne⟩

theorem Watches.cleaned (h : Watches s) (c : ConnId) : Watches (httpdCleanupConn s c) := by
  apply h.stopped (.conn c)
  · rw [cleanup_loop]
    exact uvIoStop_table h.table _
  · intro fd w
    rw [cleanup_loop]
    exact uvIoStop_watchers_iff h.table _ w fd
  · intro d hd
    by_cases hdc : d = c
    · subst hdc
      simp [Reading] at hd
    · refine ⟨fun he => hdc (WatcherId.conn.inj he), ?_, cleanup_fd s c d⟩
      unfold Reading at hd ⊢
      rwa [cleanup_conns_other s hdc] at hd

/-- The end of a message: the connection reads no more. -/
theorem Watches.completed (h : Watches s) (c : ConnId) :
    Watches (onCallback cfg y c os s .messageComplete) := by
  have hstop := fun w fd => uvIoStop_watchers_iff h.table (.conn c) w fd
  have hstable := uvIoStop_table h.table (.conn c)
  cases hd : cfg.dispatches (s.conns c).req with
  | true =>
    rw [onCallback_dispatch cfg y c os s hd]
    refine h.stopped (.conn c) hstable (fun fd w => hstop w fd) (fun d hread => ?_)
    by_cases hdc : d = c
    · subst hdc
      simp [Reading] at hread
    · refine ⟨fun he => hdc (WatcherId.conn.inj he), ?_, by simp [hdc]⟩
      unfold Reading at hread ⊢
      simpa [hdc] using hread
  | false =>
    obtain ⟨a, -, heq⟩ := onCallback_answer cfg y c os s hd
    rw [heq]
    have hloop : ((httpdCleanupConn ((stopReading s c).log (.wrote c a)) c).log (.parser c)).loop =
        uvIoStop (uvIoStop s.loop (.conn c) UV_POLLIN) (.conn c) UV_POLLIN := by
      simp
    apply h.stopped (.conn c)
    · rw [hloop]
      exact uvIoStop_table hstable _
    · intro fd w
      rw [hloop, uvIoStop_watchers_iff hstable, hstop]
      simp
    · intro d hread
      by_cases hdc : d = c
      · subst hdc
        simp [Reading] at hread
      · refine ⟨fun he => hdc (WatcherId.conn.inj he), ?_, by simp [hdc]⟩
        unfold Reading at hread ⊢
        simpa [hdc] using hread

theorem Watches.onPoll (h : Watches s) (c : ConnId) (events : Events) :
    Watches (onPoll cfg l y s c events os) := by
  refine star_inv (I := Watches) ?_ (onPoll_moves cfg l y s c events os) h
  intro s1 s2 h1 hmove
  cases hmove with
  | logged _ => exact h1.quiet (SameTable.refl _) (fun _ hd => ⟨hd, rfl⟩)
  | cleaned => exact h1.cleaned c
  | fed chunk =>
    refine h1.quiet (SameTable.refl _) (fun d hd => ?_)
    obtain ⟨hlife, hjs, hfd⟩ := fed_conns s1 c chunk d
    unfold Reading at hd ⊢
    rw [hlife, hjs] at hd
    exact ⟨hd, hfd⟩
  | callback cb =>
    by_cases hcb : cb = .messageComplete
    · subst hcb
      exact h1.completed c
    · have hsame := piece_conns cfg y c os s1 hcb
      have hloop : (onCallback cfg y c os s1 cb).loop = s1.loop := by
        rw [onCallback_piece cfg y c os s1 hcb]
        rfl
      refine h1.quiet (hloop ▸ SameTable.refl _) (fun d hd => ?_)
      obtain ⟨hlife, hjs, hfd⟩ := hsame d
      unfold Reading at hd ⊢
      rw [hlife, hjs] at hd
      exact ⟨hd, hfd⟩

/-- An accept takes a free entry. -/
theorem addConn_watchers (s : Httpd) {fd : Int} (hfree : s.loop.watchers fd.toNat = none) :
    (addConn s fd).loop.watchers =
      Function.update s.loop.watchers fd.toNat (some (.conn s.nextConn)) := by
  have heq : (addConn s fd).loop = uvIoStart (s.loop.setIo (.conn s.nextConn)
      { pevents := 0, events := 0, fd := fd }) (.conn s.nextConn) UV_POLLIN := rfl
  rw [heq, uvIoStart_eq]
  simp [UvLoop.setIo, hfree]

theorem Watches.admitted (h : Watches s) {fd : Int} (htable : TableOk UV_POLLIN (addConn s fd).loop)
    (hfree : s.loop.watchers fd.toNat = none) : Watches (addConn s fd) := by
  refine ⟨htable, fun d hd => ?_⟩
  rw [addConn_watchers s hfree]
  by_cases hdn : d = s.nextConn
  · subst hdn
    rw [addConn_conns_self]
    exact Function.update_self _ _ _
  · unfold Reading at hd
    rw [addConn_conns_other s hdn] at hd ⊢
    have hentry := h.readers d hd
    rw [Function.update_of_ne]
    · exact hentry
    · intro he
      rw [he, hfree] at hentry
      cases hentry

theorem Watches.polled (h : Watches s) (c : ConnId) : Watches (pollingStep s c os) := by
  have hpolled : Watches (polledJs s c os) := by
    refine h.quiet (SameTable.refl _) (fun d hd => ?_)
    obtain ⟨hlife, hjs, hfd⟩ := polledJs_conns s c d os
    unfold Reading at hd ⊢
    rw [hlife, hjs] at hd
    exact ⟨hd, hfd⟩
  rcases pollingStep_cases s c os with ⟨-, -, heq⟩ | ⟨-, -, heq⟩ | heq
  · rw [heq]
    exact hpolled.cleaned c
  · rw [heq]
    exact hpolled.quiet (SameTable.refl _) (fun _ hd => ⟨hd, rfl⟩)
  · rw [heq]
    apply Watches.cleaned
    exact hpolled.quiet (SameTable.refl _) (fun _ hd => ⟨hd, rfl⟩)

theorem Watches.step (h : Watches s) (hs : SocketsOk serverfd s) (ha : AcceptsNew serverfd s os)
    (htable : TableOk UV_POLLIN (step cfg l y s os).loop) : Watches (step cfg l y s os) := by
  unfold httpd.step at htable ⊢
  cases hphase : s.phase with
  | loop =>
    simp only
    split
    · exact h.stopped .server (uvIoStop_table h.table _)
        (fun fd w => uvIoStop_watchers_iff h.table _ w fd) (fun d hd => ⟨by simp, hd, rfl⟩)
    · obtain ⟨loop, p, heq, hsame, -⟩ := pollStep_moves cfg s os
      rw [heq]
      exact h.quiet hsame (fun _ hd => ⟨hd, rfl⟩)
  | iterating i =>
    rw [hphase] at htable
    simp only at htable ⊢
    unfold slotStep at htable ⊢
    split
    · exact h.quiet ⟨rfl, rfl, fun _ => rfl, fun _ => rfl⟩ (fun _ hd => ⟨hd, rfl⟩)
    · have hslot : Watches
          { s with loop := (uvPollSlot s.loop i).1, phase := .iterating (i + 1) } :=
        h.quiet (uvPollSlot_same s.loop i) (fun _ hd => ⟨hd, rfl⟩)
      rename_i hi
      rw [if_neg hi] at htable
      simp only at htable ⊢
      cases hcall : (uvPollSlot s.loop i).2 with
      | none => exact hslot
      | some r =>
        obtain ⟨w, events⟩ := r
        rw [hcall] at htable
        cases w with
        | server =>
          simp only at htable ⊢
          rcases onConnected_cases cfg { s with
            loop := (uvPollSlot s.loop i).1, phase := .iterating (i + 1) } events os with
            heq | ⟨-, hfd, heq⟩
          · rw [heq]
            exact hslot
          · rw [heq] at htable ⊢
            apply hslot.admitted htable
            rw [(uvPollSlot_same s.loop i).watchers]
            exact hs.unwatched hfd (ha hfd).1 (ha hfd).2
        | conn d => exact hslot.onPoll d events
  | drain =>
    obtain ⟨q, p, heq, -⟩ := drainStep_moves s
    simp only [heq]
    exact h.quiet (SameTable.refl _) (fun _ hd => ⟨hd, rfl⟩)
  | polling d => exact h.polled d
  | exited => exact h

end Step

section Poll

variable (cfg : Config) (l : Llhttp) (y : Yuarel) (serverfd : Nat)

/-- What holds in every state of a run. -/
structure Watched (s : Httpd) : Prop where
  sockets : SocketsOk serverfd s
  watches : Watches s

variable {cfg l y serverfd} {s : Httpd} {os os' : Os} {c : ConnId} {i k : Nat} {fd : Int}

theorem Watched.step (h : Watched serverfd s) (ha : AcceptsNew serverfd s os)
    (honce : CleanedOnce (step cfg l y s os)) : Watched serverfd (step cfg l y s os) := by
  have hsockets := (leads_step h.sockets ha).keeps honce h.sockets
  exact ⟨hsockets, h.watches.step h.sockets ha hsockets.loop.table⟩

theorem start_watched (serverfd : Nat) : Watched serverfd (start serverfd) := by
  refine ⟨start_socketsOk serverfd, (start_socketsOk serverfd).loop.table, fun c hc => ?_⟩
  cases hc.1

theorem Watched.run (h : Watched serverfd s) {is : List Os}
    (ha : StepsOk (httpd.step cfg l y) (AcceptsNew serverfd) s is)
    (honce : CleanedOnce (run (httpd.step cfg l y) s is)) :
    Watched serverfd (run (httpd.step cfg l y) s is) :=
  run_inv (I := fun s => CleanedOnce s → Watched serverfd s)
    (fun s os hs ha ho => (hs (ho.before (step_grows cfg l y s os))).step ha ho)
    (fun _ => h) ha honce

/-! ## The slots of a poll -/

/-- The poll is at slot `k`, and no slot but `i` has the descriptor of the connection. -/
structure AtSlot (serverfd : Nat) (c : ConnId) (fd : Int) (i : Nat) (s : Httpd) (k : Nat) :
    Prop where
  known : Watched serverfd s
  phase : s.phase = .iterating k
  born : c < s.nextConn
  number : (s.conns c).fd = fd
  opened : 0 ≤ fd
  others : ∀ j ≠ i, ∀ pe, s.loop.pollFds[j]? = some pe → pe.fd ≠ fd

/-- A slot calls the watcher of its descriptor. -/
theorem AtSlot.calls (h : AtSlot serverfd c fd i s k) {events : Events}
    (hcall : (uvPollSlot s.loop k).2 = some (.conn c, events)) : k = i := by
  by_contra hki
  obtain ⟨pe, hpe, hne, hw⟩ := uvPollSlot_calls hcall
  have hfd := h.known.sockets.loop.table.fd_eq _ _ hw
  rw [h.known.sockets.io, h.number] at hfd
  have hin := (h.known.sockets.loop.inside pe (List.mem_of_getElem? hpe)).resolve_left hne
  exact h.others k hki pe hpe (by omega)

/-- At the slots of the others, the connection has no turn. -/
theorem AtSlot.no_turn (cfg : Config) (h : AtSlot serverfd c fd i s k) (hki : k ≠ i) (os : Os) :
    turnOf cfg c s os = none := by
  unfold turnOf
  rw [h.phase]
  simp only
  cases hcall : (uvPollSlot s.loop k).2 with
  | none => rfl
  | some r =>
    obtain ⟨w, events⟩ := r
    cases w with
    | server =>
      simp only
      rw [if_neg]
      rintro ⟨rfl, -⟩
      exact Nat.lt_irrefl _ h.born
    | conn d =>
      simp only
      rw [if_neg]
      rintro rfl
      exact hki (h.calls hcall)

/-- A turn of a slot leaves the number of a connection. -/
theorem slot_fd (hs : s.phase = .iterating k) (hc : c < s.nextConn) :
    ((step cfg l y s os).conns c).fd = (s.conns c).fd := by
  unfold httpd.step
  rw [hs]
  simp only
  unfold slotStep
  split
  · rfl
  · simp only
    cases hcall : (uvPollSlot s.loop k).2 with
    | none => rfl
    | some r =>
      obtain ⟨w, events⟩ := r
      cases w with
      | server =>
        simp only
        rcases onConnected_cases cfg { s with
          loop := (uvPollSlot s.loop k).1, phase := .iterating (k + 1) } events os with
          heq | ⟨-, -, heq⟩
        · rw [heq]
        · rw [heq]
          exact congrArg HttpdConn.fd (addConn_conns_other { s with
            loop := (uvPollSlot s.loop k).1, phase := .iterating (k + 1) } (Nat.ne_of_lt hc))
      | conn d =>
        exact (onPoll_sameSize cfg l y { s with
          loop := (uvPollSlot s.loop k).1, phase := .iterating (k + 1) } d events os).fd c

/-- What the turn of a slot leaves of the slots. -/
theorem AtSlot.fades (cfg : Config) (l : Llhttp) (y : Yuarel) (h : AtSlot serverfd c fd i s k)
    (hk : k < s.loop.pollFds.length) (os : Os) :
    (step cfg l y s os).loop.pollFds.length = s.loop.pollFds.length ∧
      ∀ (j : Nat) (pe' : PollFd), (step cfg l y s os).loop.pollFds[j]? = some pe' →
        ∃ pe, s.loop.pollFds[j]? = some pe ∧ Fades pe pe' ∧
          (j ≠ k → (s.loop.watchers pe.fd.toNat).isSome → pe' = pe) := by
  have hit : s.loop.pollFdsIterating = true := h.known.sockets.iterating.mpr ⟨k, h.phase⟩
  obtain ⟨-, hrun, -⟩ := slot_turn cfg l y h.phase hk os
  rw [(watcherRun_slots hrun).1]
  exact uvPollSlot_fades hit k

theorem AtSlot.step (cfg : Config) (l : Llhttp) (y : Yuarel) (h : AtSlot serverfd c fd i s k)
    (hk : k < s.loop.pollFds.length) (ha : AcceptsNew serverfd s os)
    (honce : CleanedOnce (step cfg l y s os)) :
    AtSlot serverfd c fd i (step cfg l y s os) (k + 1) where
  known := h.known.step ha honce
  phase := (slot_turn cfg l y h.phase hk os).1
  born := Nat.lt_of_lt_of_le h.born (leads_step h.known.sockets ha).born
  number := (slot_fd h.phase h.born).trans h.number
  opened := h.opened
  others := by
    intro j hj pe' hpe'
    obtain ⟨pe, hpe, hfades, -⟩ := (h.fades cfg l y hk os).2 j pe' hpe'
    rcases hfades.fd with hfd | hfd
    · rw [hfd]
      exact h.others j hj pe hpe
    · have hopened := h.opened
      omega

/-- The slot of a connection that reads stays as it is, until its turn. -/
theorem AtSlot.slot (h : AtSlot serverfd c fd i s k) (hk : k < s.loop.pollFds.length)
    (hread : Reading s c) (hki : k ≠ i) {pe : PollFd} (hpe : s.loop.pollFds[i]? = some pe)
    (hfd : pe.fd = fd) (os : Os) : (httpd.step cfg l y s os).loop.pollFds[i]? = some pe := by
  obtain ⟨hlen, hfades⟩ := h.fades cfg l y hk os
  have hi := (List.getElem?_eq_some_iff.mp hpe).1
  obtain ⟨pe', hpe'⟩ : ∃ pe', (httpd.step cfg l y s os).loop.pollFds[i]? = some pe' :=
    ⟨_, List.getElem?_eq_getElem (hlen ▸ hi)⟩
  obtain ⟨pe0, hpe0, -, hsame⟩ := hfades i pe' hpe'
  obtain rfl := Option.some.inj (hpe.symm.trans hpe0)
  rw [hpe', hsame (Ne.symm hki)]
  rw [hfd, ← h.number, h.known.watches.readers c hread]
  rfl

/-- At the slots of the others: nothing comes to the connection. -/
theorem AtSlot.others_turn (h : AtSlot serverfd c fd i s k) {oss : List Os}
    (hlen : k + oss.length ≤ s.loop.pollFds.length) (hout : i < k ∨ k + oss.length ≤ i)
    (ha : StepsOk (httpd.step cfg l y) (AcceptsNew serverfd) s oss)
    (honce : CleanedOnce (runs.run (httpd.step cfg l y) s oss)) :
    let s' := runs.run (httpd.step cfg l y) s oss
    (session cfg l y c).inputs s oss = [] ∧ AtSlot serverfd c fd i s' (k + oss.length) ∧
      s'.conns c = s.conns c ∧ s'.loop.pollFds.length = s.loop.pollFds.length ∧
      ∀ pe, s.loop.pollFds[i]? = some pe → pe.fd = fd → Reading s c →
        s'.loop.pollFds[i]? = some pe := by
  induction oss generalizing s k with
  | nil => exact ⟨rfl, h, rfl, rfl, fun pe hpe _ _ => hpe⟩
  | cons os oss ih =>
    rw [List.length_cons] at hlen hout
    have hk : k < s.loop.pollFds.length := by omega
    have hki : k ≠ i := by omega
    have hnone := h.no_turn cfg hki os
    have hconn := conns_of_no_turn (l := l) (y := y) hnone
    have hslots := (h.fades cfg l y hk os).1
    have hnext := h.step cfg l y hk ha.1 (honce.before (run_grows oss))
    obtain ⟨hin, hat, hsame, hfds, hslot⟩ := ih hnext (by omega) (by omega) ha.2 honce
    refine ⟨?_, ?_, hsame.trans hconn, hfds.trans hslots, ?_⟩
    · have hinput : (session cfg l y c).input s os = none := hnone
      rw [Component.inputs_cons, hinput, hin]
      rfl
    · rw [List.length_cons, Nat.add_comm oss.length, ← Nat.add_assoc]
      exact hat
    · intro pe hpe hfd hread
      refine hslot pe (h.slot hk hread hki hpe hfd os) hfd ?_
      unfold Reading
      rwa [hconn]

/-! ## The slot of a connection that reads -/

theorem drainWatcherQueue_empty (loop : UvLoop WatcherId) :
    (drainWatcherQueue loop).watcherQueue = [] :=
  drainWatcherQueue_inv (I := fun loop => loop.watcherQueue = [])
    (fun l w hl => (uvPollfdsAdd_rest l w).2.trans hl) rfl

/-- A number that is counted once has one place. -/
theorem eq_of_count {α : Type} [DecidableEq α] {xs : List α} {a : α} (h : xs.count a ≤ 1)
    {i j : Nat} (hi : xs[i]? = some a) (hj : xs[j]? = some a) : i = j := by
  obtain ⟨hilt, hi⟩ := List.getElem?_eq_some_iff.mp hi
  obtain ⟨hjlt, hj⟩ := List.getElem?_eq_some_iff.mp hj
  have hnot : ¬ xs.Duplicate a := by
    rw [List.duplicate_iff_two_le_count]
    omega
  rw [List.duplicate_iff_exists_distinct_get] at hnot
  rcases Nat.lt_trichotomy i j with hlt | heq | hlt
  · exact absurd ⟨⟨i, hilt⟩, ⟨j, hjlt⟩, hlt, hi.symm, hj.symm⟩ hnot
  · exact heq
  · exact absurd ⟨⟨j, hjlt⟩, ⟨i, hilt⟩, hlt, hj.symm, hi.symm⟩ hnot

/-- What a connection is told of the events that a poll reports for a slot. -/
def slotEvents (os : Os) (i : Nat) : Events := os.revents i &&& (UV_POLLIN ||| POLLERR ||| POLLHUP)

/-- The task polls the sockets, and the poll succeeds. -/
structure Polls (s : Httpd) (os : Os) : Prop where
  phase : s.phase = .loop
  goesOn : os.shouldExit = false
  ready : 0 ≤ os.ready

instance (s : Httpd) (os : Os) : Decidable (Polls s os) :=
  decidable_of_iff (s.phase = .loop ∧ os.shouldExit = false ∧ 0 ≤ os.ready)
    ⟨fun ⟨h1, h2, h3⟩ => ⟨h1, h2, h3⟩, fun h => ⟨h.phase, h.goesOn, h.ready⟩⟩

/-- A watcher that asks for something asks to read. -/
theorem pevents_eq {p : Events} (hmask : p &&& ~~~UV_POLLIN = 0) (hne : p ≠ 0) :
    p = UV_POLLIN := by
  have hall : UV_POLLIN ||| ~~~UV_POLLIN = BitVec.allOnes 32 := by decide
  have hbit : p &&& UV_POLLIN = p := by
    calc p &&& UV_POLLIN
        = (p &&& UV_POLLIN) ||| (p &&& ~~~UV_POLLIN) := by rw [hmask]; exact BitVec.or_zero.symm
      _ = p &&& BitVec.allOnes 32 := by rw [← BitVec.and_or_distrib_left, hall]
      _ = p := BitVec.and_allOnes
  have hone : p &&& UV_POLLIN = (BitVec.ofBool (p.getLsbD 0)).setWidth 32 :=
    BitVec.and_one_eq_setWidth_ofBool_getLsbD
  cases hb : p.getLsbD 0 with
  | true =>
    rw [hb] at hone
    rw [← hbit, hone]
    rfl
  | false =>
    rw [hb] at hone
    refine absurd ?_ hne
    rw [← hbit, hone]
    rfl

/-- The poll gives the connection its slot, with what was reported for it. -/
theorem Watched.polled (h : Watched serverfd s) (cfg : Config) (l : Llhttp) (y : Yuarel)
    (hpoll : Polls s os) (hread : Reading s c) :
    let s' := httpd.step cfg l y s os
    ∃ i pe, s'.loop.pollFds[i]? = some pe ∧ pe.fd = (s.conns c).fd ∧ pe.events = UV_POLLIN ∧
      pe.revents = os.revents i ∧ s'.conns c = s.conns c ∧
      (CleanedOnce s' → AcceptsNew serverfd s os → AtSlot serverfd c (s.conns c).fd i s' 0) := by
  have hentry := h.watches.readers c hread
  have hopened := (h.sockets.opened c hread.1).1
  have hit : s.loop.pollFdsIterating = false := by
    have hiff := h.sockets.iterating
    simpa [hpoll.phase] using hiff
  obtain ⟨hok, -⟩ := h.sockets.loop.polled hit os.ready os.revents
  have hsame := (drainWatcherQueue_same s.loop).trans
    (isereTcpPoll_same (drainWatcherQueue s.loop) os.ready os.revents)
  have hqueue := (isereTcpPoll_rest (drainWatcherQueue s.loop) os.ready os.revents).2
  rw [drainWatcherQueue_empty] at hqueue
  have hstep : httpd.step cfg l y s os = pollStep cfg s os := by
    unfold httpd.step
    simp [hpoll.phase, hpoll.goesOn]
  have hphase : (pollStep cfg s os).phase = .iterating 0 := by
    have hcounts := h.sockets.loop.counts hentry
    unfold pollStep
    simp [Nat.pos_iff_ne_zero.mp hcounts, Int.not_lt.mpr hpoll.ready]
  obtain ⟨-, -, hloop⟩ := pollStep_iterates hphase
  rw [← hsame.watchers] at hentry
  -- no watcher waits after the poll, so the connection has its slot
  rcases hok.placed _ _ hentry with hwaits | ⟨pe, hpe, hfd, hev⟩
  · rw [hqueue] at hwaits
    cases hwaits
  · rw [Int.toNat_of_nonneg hopened] at hfd
    obtain ⟨i, hi⟩ := List.mem_iff_getElem?.mp hpe
    have hslots : (httpd.step cfg l y s os).loop.pollFds =
        (isereTcpPoll (drainWatcherQueue s.loop) os.ready os.revents).pollFds := by
      rw [hstep, hloop]
    obtain ⟨loop, p, heq, -⟩ := pollStep_moves cfg s os
    have hconns : (httpd.step cfg l y s os).conns = s.conns := by rw [hstep, heq]
    refine ⟨i, pe, hslots ▸ hi, hfd, ?_, ?_, congrFun hconns c, fun honce ha => ?_⟩
    · rw [hev]
      exact pevents_eq (hok.table.masked _) (hok.asks _ _ hentry)
    · simp only [isereTcpPoll, if_neg (Int.not_lt.mpr hpoll.ready), List.getElem?_mapIdx,
        Option.map_eq_some_iff] at hi
      obtain ⟨pe0, -, rfl⟩ := hi
      exact if_neg (by simp only at hfd; omega)
    · refine ⟨h.step ha honce, hstep ▸ hphase, ?_, by rw [hconns], hopened, ?_⟩
      · rw [hstep, heq, ← Nat.not_le, ← h.sockets.born, hread.1]
        simp
      · intro j hj pe' hpe' hfd'
        rw [hslots] at hpe'
        refine hj (eq_of_count (hok.single _ hopened) ?_ ?_)
        · rw [List.getElem?_map, hpe', Option.map_some, hfd']
        · rw [List.getElem?_map, hi, Option.map_some, hfd]

/-- At its own slot, the connection is told what the poll reported. -/
theorem AtSlot.own_turn (cfg : Config) (h : AtSlot serverfd c fd i s i) (hread : Reading s c)
    {pe : PollFd} (hpe : s.loop.pollFds[i]? = some pe) (hfd : pe.fd = fd)
    (hev : pe.revents = os'.revents i)
    (os : Os) : turnOf cfg c s os = if slotEvents os' i = 0 then none else
      some (.ready (slotEvents os' i) os.recv (fun n => os.handler (n + elsewhere c s))) := by
  have hentry := h.known.watches.readers c hread
  rw [h.number, ← hfd] at hentry
  have hopened := h.opened
  have hasks : (s.loop.io (.conn c)).pevents = UV_POLLIN :=
    pevents_eq (h.known.sockets.loop.table.masked _) (h.known.sockets.loop.asks _ _ hentry)
  have hcall : (uvPollSlot s.loop i).2 =
      if slotEvents os' i = 0 then none else some (.conn c, slotEvents os' i) := by
    unfold uvPollSlot slotEvents
    simp only [hpe, hentry, hasks, hev]
    rw [if_neg (by omega)]
  unfold turnOf
  rw [h.phase]
  simp only [hcall]
  by_cases hzero : slotEvents os' i = 0
  · simp only [hzero, ↓reduceIte]
  · simp only [hzero, ↓reduceIte]

/-- Along all the slots of a poll, the connection has the turn of its own slot. -/
theorem AtSlot.served (h : AtSlot serverfd c fd i s 0) (hread : Reading s c) {pe : PollFd}
    (hpe : s.loop.pollFds[i]? = some pe) (hfd : pe.fd = fd) (hev : pe.revents = os'.revents i)
    {first later : List Os} (hi : first.length = i)
    (hslots : (first ++ os :: later).length = s.loop.pollFds.length)
    (ha : StepsOk (httpd.step cfg l y) (AcceptsNew serverfd) s (first ++ os :: later))
    (honce : CleanedOnce (runs.run (httpd.step cfg l y) s (first ++ os :: later))) :
    ∃ handler, (session cfg l y c).inputs s (first ++ os :: later) =
      if slotEvents os' i = 0 then [] else [.ready (slotEvents os' i) os.recv handler] := by
  rw [List.length_append, List.length_cons] at hslots
  rw [run_append, run_cons] at honce
  obtain ⟨hos, hlater⟩ := ha.right
  have hown := honce.before (run_grows later)
  have hfirst := hown.before (step_grows cfg l y _ os)
  obtain ⟨hbefore, hat, hconn, hlen, hslot⟩ :=
    h.others_turn (by omega) (Or.inr (by omega)) ha.left hfirst
  rw [Nat.zero_add, hi] at hat
  replace hslot := hslot pe hpe hfd hread
  rw [Component.inputs_append, Component.inputs_cons, hbefore, List.nil_append]
  generalize runs.run (httpd.step cfg l y) s first = s1 at *
  have hread1 : Reading s1 c := by
    unfold Reading
    rwa [hconn]
  have hturn := hat.own_turn cfg hread1 hslot hfd hev os
  have hnext := hat.step cfg l y (by omega) hos hown
  have hfds := (hat.fades cfg l y (by omega) os).1
  obtain ⟨hafter, -⟩ := hnext.others_turn (by omega) (Or.inl (Nat.lt_succ_self i)) hlater honce
  rw [hafter, List.append_nil]
  refine ⟨fun n => os.handler (n + elsewhere c s1), ?_⟩
  have hinput : (session cfg l y c).input s1 os = turnOf cfg c s1 os := rfl
  rw [hinput, hturn]
  split <;> rfl

end Poll

/-! ## The law -/

/-- In the poll of the sockets that begins in `s`, a connection has a slot that asks to
read. If the poll reports something for the slot, the connection gets it, once. -/
def ServedOnce (cfg : Config) (l : Llhttp) (y : Yuarel) (c : ConnId) (s : Httpd) (os : Os)
    (oss : List Os) : Prop :=
  ∃ i pe handler, ∃ hi : i < oss.length,
    (step cfg l y s os).loop.pollFds[i]? = some pe ∧ pe.fd = (s.conns c).fd ∧
      pe.events = UV_POLLIN ∧ (session cfg l y c).inputs (step cfg l y s os) oss =
        if slotEvents os i = 0 then [] else [.ready (slotEvents os i) oss[i].recv handler]

/-- In every run that cleans no connection up twice, in which each accept gives the
number of no open socket: a poll of the sockets serves each connection that reads,
whatever comes of the slots before its own. -/
theorem a_poll_serves_each_connection_once (cfg : Config) (l : Llhttp) (y : Yuarel)
    (serverfd : Nat) (is : List Os) (os : Os) (oss : List Os) (c : ConnId)
    (haccept : StepsOk (step cfg l y) (AcceptsNew serverfd) (start serverfd) (is ++ os :: oss))
    (honce : CleanedOnce (run (step cfg l y) (start serverfd) (is ++ os :: oss)))
    (hpoll : Polls (run (step cfg l y) (start serverfd) is) os)
    (hslots : oss.length =
      (step cfg l y (run (step cfg l y) (start serverfd) is) os).loop.pollFds.length)
    (hread : Reading (run (step cfg l y) (start serverfd) is) c) :
    ServedOnce cfg l y c (run (step cfg l y) (start serverfd) is) os oss := by
  obtain ⟨hos, hrest⟩ := haccept.right
  rw [run_append, run_cons] at honce
  have hpolled := honce.before (run_grows oss)
  have h := (start_watched serverfd).run haccept.left (hpolled.before (step_grows cfg l y _ os))
  obtain ⟨i, pe, hpe, hfd, hasks, hev, hconn, hat⟩ := h.polled cfg l y hpoll hread
  generalize run (step cfg l y) (start serverfd) is = s at *
  have hi : i < oss.length := hslots ▸ (List.getElem?_eq_some_iff.mp hpe).1
  have hread' : Reading (step cfg l y s os) c := by
    unfold Reading
    rwa [hconn]
  -- the slots before that of the connection, its own, and the slots after it
  have hsplit : oss.take i ++ oss[i] :: oss.drop (i + 1) = oss := by
    rw [List.getElem_cons_drop, List.take_append_drop]
  rw [← hsplit] at hslots hrest honce
  obtain ⟨handler, hturns⟩ := (hat hpolled hos).served hread' hpe hfd hev
    (by rw [List.length_take]; omega) hslots hrest honce
  rw [hsplit] at hturns
  exact ⟨i, pe, handler, hi, hpe, hfd, hasks, hturns⟩

theorem a_client_is_served_at_its_slot : ServedOnce { maxConns := 12, hasHandler := true }
    rootLlhttp slashYuarel 0 (run (step { maxConns := 12, hasHandler := true } rootLlhttp
      slashYuarel) (start 3) (acceptAt 5)) (Os.readable 1)
    [Os.quiet, { Os.quiet with recv := .data (getRequest "/") }] :=
  a_poll_serves_each_connection_once _ _ _ 3 _ _ _ _ (by decide +kernel) (by decide +kernel)
    (by decide +kernel) (by decide +kernel) ⟨by decide +kernel, by decide +kernel⟩

end isere.httpd
