-- The connection counter of the tcp module, in a system of the server and the
-- OpenTelemetry task. It counts the open client sockets as long as the other
-- task closes none, since its closes are counted too, and its opens are not.
import Isere.HttpdSteps
import Isere.Otel
import Mathlib.Data.Finset.Card

open cstring intrusive isere.tcp isere.uv runs

namespace isere.httpd

/-! ## The open sockets -/

/-- The client sockets that `isere_tcp_accept` returned and that are not closed. -/
def openConns (s : Httpd) : Finset ConnId :=
  (Finset.range s.nextConn).filter (fun c => (s.conns c).life = .live)

theorem mem_openConns {s : Httpd} (hi : Inv s) (c : ConnId) :
    c ∈ openConns s ↔ (s.conns c).life = .live := by
  simp only [openConns, Finset.mem_filter, Finset.mem_range, and_iff_right_iff_imp]
  intro hlive
  have hborn := (hi.conns.born c).not.mp (by simp [hlive])
  exact Nat.not_le.mp hborn

theorem openConns_congr {s s' : Httpd} (hn : s'.nextConn = s.nextConn)
    (hl : ∀ c, (s'.conns c).life = (s.conns c).life) : openConns s' = openConns s := by
  unfold openConns
  simp only [hn, hl]

/-- The counter counts the open sockets, and they are within the limit. -/
structure CountOk (cfg : Config) (s : Httpd) : Prop where
  count : s.tcp.numOfTcpConns.toNat = (openConns s).card
  limit : (openConns s).card ≤ cfg.maxConns.toNat

theorem CountOk.congr {cfg : Config} {s s' : Httpd} (h : CountOk cfg s)
    (hn : s'.nextConn = s.nextConn) (hl : ∀ c, (s'.conns c).life = (s.conns c).life)
    (ht : s'.tcp = s.tcp) : CountOk cfg s' := by
  have ho := openConns_congr hn hl
  exact ⟨by rw [ht, ho]; exact h.count, ho ▸ h.limit⟩

/-- The cleanup of an open connection takes one from both. -/
theorem CountOk.cleanup {cfg : Config} {s : Httpd} (h : CountOk cfg s) {c : ConnId}
    (hc : c ∈ openConns s) : CountOk cfg (httpdCleanupConn s c) := by
  have ho : openConns (httpdCleanupConn s c) = (openConns s).erase c := by
    ext d
    by_cases hd : d = c
    · subst hd
      simp [openConns]
    · simp [openConns, hd]
  have hcard := Finset.card_erase_of_mem hc
  have hpos : 0 < (openConns s).card := Finset.card_pos.mpr ⟨c, hc⟩
  refine ⟨?_, ?_⟩
  · have hone : (1 : UInt32) ≤ s.tcp.numOfTcpConns := by
      rw [UInt32.le_iff_toNat_le, h.count]
      exact hpos
    rw [cleanup_tcp, ho, hcard, UInt32.toNat_sub_of_le _ _ hone, h.count]
    rfl
  · rw [ho, hcard]
    exact (Nat.sub_le _ _).trans h.limit

theorem CountOk.added {cfg : Config} {s : Httpd} (h : CountOk cfg s)
    (hlim : atLimit cfg.maxConns s.tcp = false) (fd : Int) : CountOk cfg (addConn s fd) := by
  have hnot : s.nextConn ∉ openConns s := by simp [openConns]
  have ho : openConns (addConn s fd) = insert s.nextConn (openConns s) := by
    ext d
    by_cases hd : d = s.nextConn
    · subst hd
      simp [openConns, HttpdConn.initial]
    · simp only [openConns, addConn_nextConn, Finset.mem_filter, Finset.mem_range,
        addConn_conns_other s hd, Finset.mem_insert, hd, false_or]
      constructor
      · rintro ⟨hlt, hlive⟩
        exact ⟨Nat.lt_of_le_of_ne (Nat.lt_succ_iff.mp hlt) hd, hlive⟩
      · rintro ⟨hlt, hlive⟩
        exact ⟨Nat.lt_succ_of_lt hlt, hlive⟩
  have hlt : s.tcp.numOfTcpConns.toNat < cfg.maxConns.toNat := by
    simp only [atLimit, decide_eq_false_iff_not, UInt32.le_iff_toNat_le, Nat.not_le] at hlim
    exact hlim
  have hmax := cfg.maxConns.toNat_lt
  refine ⟨?_, ?_⟩
  · rw [addConn_tcp, ho, Finset.card_insert_of_notMem hnot, UInt32.toNat_add, ← h.count]
    simp
    omega
  · rw [ho, Finset.card_insert_of_notMem hnot, ← h.count]
    exact hlt

/-! ## The server -/

/-- The messages that a call of llhttp ends clean the connection up once at
most: an answered one is the last, and llhttp reports no error after it. -/
def OneCleanup (cfg : Config) (l : Llhttp) (y : Yuarel) (s : Httpd) (os : Os) : Prop :=
  ∀ k ∈ parserCall l s os,
    cfg.ends y (s.conns k.conn).req k.cbs = [] ∨ cfg.ends y (s.conns k.conn).req k.cbs = [true] ∨
      ((cfg.ends y (s.conns k.conn).req k.cbs = [false] ∨
        cfg.ends y (s.conns k.conn).req k.cbs = [true, false]) ∧ k.err = .HPE_OK)

instance (cfg : Config) (l : Llhttp) (y : Yuarel) (s : Httpd) (os : Os) :
    Decidable (OneCleanup cfg l y s os) :=
  inferInstanceAs (Decidable (∀ k ∈ parserCall l s os,
    cfg.ends y (s.conns k.conn).req k.cbs = [] ∨ cfg.ends y (s.conns k.conn).req k.cbs = [true] ∨
      ((cfg.ends y (s.conns k.conn).req k.cbs = [false] ∨
        cfg.ends y (s.conns k.conn).req k.cbs = [true, false]) ∧ k.err = .HPE_OK)))

def cleanupMode : Mode := { stale := true, again := false, twice := false, lateError := true }

theorem OneCleanup.stepOk {cfg : Config} {l : Llhttp} {y : Yuarel} {s : Httpd} {os : Os}
    (h : OneCleanup cfg l y s os) : StepOk cfg l y cleanupMode s os := by
  intro k hk
  rcases h k hk with hends | hends | ⟨hends | hends, herr⟩
  · rw [hends]
    exact ⟨trivial, fun _ => trivial⟩
  · rw [hends]
    exact ⟨trivial, fun _ => rfl⟩
  · rw [hends]
    exact ⟨⟨rfl, trivial⟩, fun hne => absurd herr hne⟩
  · rw [hends]
    exact ⟨⟨rfl, trivial⟩, fun hne => absurd herr hne⟩

theorem trans_countOk {cfg : Config} {y : Yuarel} {s s' : Httpd} (hi : Inv s) (h : CountOk cfg s)
    (htrans : Trans cfg y cleanupMode s s') : CountOk cfg s' := by
  have htaken : ∀ c, s.phase = .polling c → c ∈ openConns s :=
    fun c hs => (mem_openConns hi c).mpr (hi.taken_live hs)
  have hsame : ∀ c os, openConns (polledJs s c os) = openConns s :=
    fun c os => openConns_congr rfl (fun d => (polledJs_conns s c d os).1)
  cases htrans with
  | table _ _ _ => exact h.congr rfl (fun _ => rfl) rfl
  | stopServer _ => exact h.congr rfl (fun _ => rfl) rfl
  | admitted _ hlim _ => exact h.added hlim _
  | polled _ _ => exact h.congr rfl (fun _ => rfl) rfl
  | @fed _ c chunk _ _ => exact h.congr rfl (fun d => (fed_conns s c chunk d).1) rfl
  | @piece _ c cb os _ hcb _ =>
    have hsame := fun d => (piece_conns cfg y c os s hcb d).1
    rw [onCallback_piece cfg y c os s hcb] at hsame ⊢
    exact h.congr rfl hsame rfl
  | @dispatched _ c os _ _ hgo =>
    rw [onCallback_dispatch cfg y c os s hgo]
    refine h.congr rfl (fun d => ?_) rfl
    by_cases hd : d = c <;> simp [hd]
  | @answered _ c os _ hr hgo _ =>
    obtain ⟨a, -, heq⟩ := onCallback_answer cfg y c os s hgo
    rw [heq]
    have hlive : (s.conns c).life = .live := by simpa [cleanupMode] using hr
    have hlog : CountOk cfg ((stopReading s c).log (.wrote c a)) :=
      h.congr rfl (fun _ => rfl) rfl
    exact (hlog.cleanup ((mem_openConns hi c).mpr hlive)).congr rfl (fun _ => rfl) rfl
  | @tooLarge _ c _ hr =>
    have hlog : CountOk cfg (s.log (.wrote c .tooLarge)) := h.congr rfl (fun _ => rfl) rfl
    exact hlog.cleanup ((mem_openConns hi c).mpr hr.1)
  | @dropped _ c _ hr _ =>
    have hlive : (s.conns c).life = .live := by simpa [cleanupMode] using hr
    exact h.cleanup ((mem_openConns hi c).mpr hlive)
  | taken _ _ => exact h.congr rfl (fun _ => rfl) rfl
  | @requeued c os hs _ _ => exact h.congr rfl (fun d => (polledJs_conns s c d os).1) rfl
  | @gaveUp c os hs _ =>
    have hpoll : CountOk cfg (polledJs s c os) :=
      h.congr rfl (fun d => (polledJs_conns s c d os).1) rfl
    exact hpoll.cleanup (hsame c os ▸ htaken c hs)
  | @wroteBack c os hs =>
    have hlog : CountOk cfg ((polledJs s c os).log
        (.wrote c (httpdWriteback ((polledJs s c os).conns c).response))) :=
      h.congr rfl (fun d => (polledJs_conns s c d os).1) rfl
    have hin : c ∈ openConns (polledJs s c os) := hsame c os ▸ htaken c hs
    exact hlog.cleanup hin

/-! ## The two tasks -/

/-- The server and the OpenTelemetry task. The state of the tcp module, which
both use, is kept with the server. -/
structure Sys where
  server : Httpd
  otel : otel.Otel

/-- One step of one of the tasks. -/
inductive SysIn
  | server (os : Os)
  | otel (os : otel.OtelOs)

variable (cfg : Config) (l : Llhttp) (y : Yuarel)

def sysStep (s : Sys) : SysIn → Sys
  | .server os => { s with server := step cfg l y s.server os }
  | .otel os =>
    let r := otel.step s.otel s.server.tcp os
    { server := { s.server with tcp := r.2 }, otel := r.1 }

def sysStart (serverfd : Nat) : Sys := { server := start serverfd, otel := otel.start }

/-- A step of the server cleans up once, and one of the OpenTelemetry task does
not give its connection up. -/
def SysOk (s : Sys) : SysIn → Prop
  | .server os => OneCleanup cfg l y s.server os
  | .otel os => otel.givesUp s.otel os = false

instance (s : Sys) : ∀ i, Decidable (SysOk cfg l y s i)
  | .server os => inferInstanceAs (Decidable (OneCleanup cfg l y s.server os))
  | .otel os => inferInstanceAs (Decidable (otel.givesUp s.otel os = false))

/-- The counter is the number of open client sockets, and the limit check of
`isere_tcp_accept` refuses exactly when the limit of them are open. -/
def CounterRight (s : Httpd) : Prop :=
  s.tcp.numOfTcpConns.toNat = (openConns s).card ∧
    (atLimit cfg.maxConns s.tcp = true ↔ (openConns s).card = cfg.maxConns.toNat)

variable {cfg l y}

theorem CountOk.right {s : Httpd} (h : CountOk cfg s) : CounterRight cfg s := by
  refine ⟨h.count, ?_⟩
  have hlimit := h.limit
  simp only [atLimit, decide_eq_true_eq, UInt32.le_iff_toNat_le, h.count]
  omega

theorem sysStep_keeps {s : Sys} {i : SysIn} (h : Inv s.server ∧ CountOk cfg s.server)
    (hok : SysOk cfg l y s i) :
    Inv (sysStep cfg l y s i).server ∧ CountOk cfg (sysStep cfg l y s i).server := by
  cases i with
  | server os =>
    exact step_keeps (fun _ _ => trans_countOk) h.1 h.2 (OneCleanup.stepOk hok)
  | otel os =>
    have hsame : { s.server with tcp := (otel.step s.otel s.server.tcp os).2 } = s.server := by
      have hgive : otel.givesUp s.otel os = false := hok
      rw [otel.step_tcp, hgive]
      rfl
    simp only [sysStep, hsame]
    exact h

/-- In every run of the two tasks in which the OpenTelemetry task gives up no
connection and no call of llhttp cleans a connection up twice, the counter is
right in every state. -/
theorem the_counter_counts_the_open_sockets (cfg : Config) (l : Llhttp) (y : Yuarel)
    (serverfd : Nat) (is : List SysIn)
    (h : StepsOk (sysStep cfg l y) (SysOk cfg l y) (sysStart serverfd) is) :
    CounterRight cfg (run (sysStep cfg l y) (sysStart serverfd) is).server := by
  have hnone : openConns (start serverfd) = ∅ := rfl
  have hstart : CountOk cfg (start serverfd) := ⟨by rw [hnone]; rfl, by simp [hnone]⟩
  have hrun := run_inv (I := fun s : Sys => Inv s.server ∧ CountOk cfg s.server)
    (fun _ _ => sysStep_keeps) (s := sysStart serverfd) ⟨start_inv serverfd, hstart⟩ h
  exact hrun.2.right

/-- A connect that is on its way, at a time in milliseconds. -/
def connecting (tick : UInt64) : otel.OtelOs where
  shouldExit := false
  socket := 7
  nonblockOk := true
  connect := -2
  ready := 0
  eintr := false
  revents := fun _ => 0
  encodeOk := true
  writes := fun _ => 0
  tickConnect := tick
  tickConnected := tick
  tickTimeout := tick
  tickInterval := tick
  tickSent := tick

theorem a_patient_run_counts_right : CounterRight { maxConns := 12, hasHandler := true }
    (run (sysStep { maxConns := 12, hasHandler := true } rootLlhttp slashYuarel) (sysStart 3)
      ((acceptAt 5).map .server ++ [.otel (connecting 1), .otel (connecting 101)] ++
        (receiveAt (getRequest "/")).map .server)).server :=
  the_counter_counts_the_open_sockets _ _ _ _ _ (by decide +kernel)

/-- The system after a connect to the collector that takes over 5 seconds. -/
def timedOut : Sys :=
  run (sysStep { maxConns := 12, hasHandler := true } rootLlhttp slashYuarel) (sysStart 3)
    [.otel (connecting 1), .otel (connecting 5002)]

/-- The close of the socket of the OpenTelemetry task takes one from a counter
that it never added to, and no client gets in after that. -/
theorem a_connect_timeout_wraps_the_counter :
    ¬CounterRight { maxConns := 12, hasHandler := true } timedOut.server := by
  rintro ⟨hcount, -⟩
  have hwrapped : timedOut.server.tcp.numOfTcpConns.toNat = 4294967295 := by decide +kernel
  have hnone : timedOut.server.nextConn = 0 := by decide +kernel
  rw [hwrapped, openConns, hnone] at hcount
  simp at hcount

end isere.httpd
