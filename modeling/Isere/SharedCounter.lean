-- What becomes of the limit on clients when the OpenTelemetry task gives connections
-- up. Each of its closes takes one from a counter that it never added to: it lets one
-- more client in than the limit, until it has closed more connections than clients are
-- open. From then on the counter is over the limit, and nobody gets in.
import Isere.ConnCount

open isere.tcp isere.uv runs

namespace isere.httpd

/-! ## The two tasks -/

/-- The two tasks, with the number of connections that the OpenTelemetry task gave up. -/
structure SharedSys extends Sys where
  givenUp : Nat

/-- The connections that a step gives up. -/
def givesUpBy (s : Sys) : SysIn → Nat
  | .server _ => 0
  | .otel os => (otel.givesUp s.otel os).toNat

def sharedStep (cfg : Config) (l : Llhttp) (y : Yuarel) (s : SharedSys) (i : SysIn) :
    SharedSys where
  toSys := sysStep cfg l y s.toSys i
  givenUp := s.givenUp + givesUpBy s.toSys i

def sharedStart (serverfd : Nat) : SharedSys := { sysStart serverfd with givenUp := 0 }

/-- A step of the server cleans up once. -/
def ServerOnce (cfg : Config) (l : Llhttp) (y : Yuarel) (s : SharedSys) : SysIn → Prop
  | .server os => OneCleanup cfg l y s.server os
  | .otel _ => True

instance (cfg : Config) (l : Llhttp) (y : Yuarel) (s : SharedSys) :
    ∀ i, Decidable (ServerOnce cfg l y s i)
  | .server os => inferInstanceAs (Decidable (OneCleanup cfg l y s.server os))
  | .otel _ => inferInstanceAs (Decidable True)

/-- The open clients. -/
def SharedSys.clients (s : SharedSys) : Nat := (openConns s.server).card

/-- The limit check, by the clients that are open and the connections that were given up. -/
structure Admission (cfg : Config) (s : SharedSys) : Prop where
  counter : s.server.tcp.numOfTcpConns.toNat =
    if s.givenUp ≤ s.clients then s.clients - s.givenUp else 2 ^ 32 - (s.givenUp - s.clients)
  refuses : atLimit cfg.maxConns s.server.tcp = true ↔
    s.clients < s.givenUp ∨ s.clients = cfg.maxConns.toNat + s.givenUp
  limit : s.clients ≤ cfg.maxConns.toNat + s.givenUp

/-! ## The effects of the server on the counter -/

theorem openConns_cleanup {s : Httpd} {c : ConnId} (hc : c ∈ openConns s) :
    (openConns (httpdCleanupConn s c)).card + 1 = (openConns s).card := by
  have ho : openConns (httpdCleanupConn s c) = (openConns s).erase c := by
    ext d
    by_cases hd : d = c
    · subst hd
      simp [openConns]
    · simp [openConns, hd]
  rw [ho]
  exact Finset.card_erase_add_one hc

theorem openConns_addConn (s : Httpd) (fd : Int) :
    (openConns (addConn s fd)).card = (openConns s).card + 1 := by
  have hnot : s.nextConn ∉ openConns s := by simp [openConns]
  have ho : openConns (addConn s fd) = insert s.nextConn (openConns s) := by
    ext d
    by_cases hd : d = s.nextConn
    · subst hd
      simp [openConns, HttpdConn.initial]
    · simp only [openConns, addConn_nextConn, Finset.mem_filter, Finset.mem_range,
        addConn_conns_other s hd, Finset.mem_insert, hd, false_or]
      constructor
      · rintro ⟨hlt, hlive⟩
        exact ⟨Nat.lt_of_le_of_ne (Nat.lt_succ_iff.mp hlt) hd, hlive⟩
      · rintro ⟨hlt, hlive⟩
        exact ⟨Nat.lt_succ_of_lt hlt, hlive⟩
  rw [ho, Finset.card_insert_of_notMem hnot]

/-- What an effect of the server does to its clients and to the counter. -/
inductive Counts (cfg : Config) (s s' : Httpd) : Prop
  | same (hclients : (openConns s').card = (openConns s).card) (htcp : s'.tcp = s.tcp)
      (hnext : s'.nextConn = s.nextConn)
  | client (hlim : atLimit cfg.maxConns s.tcp = false)
      (hclients : (openConns s').card = (openConns s).card + 1)
      (htcp : s'.tcp.numOfTcpConns = s.tcp.numOfTcpConns + 1)
  | closed (hclients : (openConns s').card + 1 = (openConns s).card)
      (htcp : s'.tcp.numOfTcpConns = s.tcp.numOfTcpConns - 1) (hnext : s'.nextConn = s.nextConn)

theorem Counts.of_lives {cfg : Config} {s s' : Httpd} (hn : s'.nextConn = s.nextConn)
    (hl : ∀ c, (s'.conns c).life = (s.conns c).life) (ht : s'.tcp = s.tcp) : Counts cfg s s' :=
  .same (by rw [openConns_congr hn hl]) ht hn

/-- A cleanup right after an effect that changes no life. -/
theorem Counts.of_cleanup {cfg : Config} {s t : Httpd} {c : ConnId} (hn : t.nextConn = s.nextConn)
    (hl : ∀ d, (t.conns d).life = (s.conns d).life) (ht : t.tcp = s.tcp) (hc : c ∈ openConns s) :
    Counts cfg s (httpdCleanupConn t c) := by
  have ho := openConns_congr hn hl
  refine .closed ?_ ?_ ?_
  · rw [openConns_cleanup (ho ▸ hc), ho]
  · rw [cleanup_tcp, ht]
  · rw [cleanup_nextConn, hn]

theorem Counts.log {cfg : Config} {s s' : Httpd} (h : Counts cfg s s') (e : Event) :
    Counts cfg s (s'.log e) := by
  cases h with
  | same hclients htcp hnext => exact .same hclients htcp hnext
  | client hlim hclients htcp => exact .client hlim hclients htcp
  | closed hclients htcp hnext => exact .closed hclients htcp hnext

theorem trans_counts {cfg : Config} {y : Yuarel} {s s' : Httpd} (hi : Inv s)
    (htrans : Trans cfg y cleanupMode s s') : Counts cfg s s' := by
  have htaken : ∀ c, s.phase = .polling c → c ∈ openConns s :=
    fun c hs => (mem_openConns hi c).mpr (hi.taken_live hs)
  cases htrans with
  | table _ _ _ => exact .of_lives rfl (fun _ => rfl) rfl
  | stopServer _ => exact .of_lives rfl (fun _ => rfl) rfl
  | admitted _ hlim _ => exact .client hlim (openConns_addConn _ _) (by rw [addConn_tcp])
  | polled _ _ => exact .of_lives rfl (fun _ => rfl) rfl
  | @fed _ c chunk _ _ => exact .of_lives rfl (fun d => (fed_conns s c chunk d).1) rfl
  | @piece _ c cb os _ hcb _ =>
    have hsame := fun d => (piece_conns cfg y c os s hcb d).1
    rw [onCallback_piece cfg y c os s hcb] at hsame ⊢
    exact .of_lives rfl hsame rfl
  | @dispatched _ c os _ _ hgo =>
    rw [onCallback_dispatch cfg y c os s hgo]
    refine .of_lives rfl (fun d => ?_) rfl
    by_cases hd : d = c <;> simp [hd]
  | @answered _ c os _ hr hgo _ =>
    obtain ⟨a, -, heq⟩ := onCallback_answer cfg y c os s hgo
    rw [heq]
    have hlive : (s.conns c).life = .live := by simpa [cleanupMode] using hr
    have hcounts : Counts cfg s (httpdCleanupConn ((stopReading s c).log (.wrote c a)) c) :=
      .of_cleanup rfl (fun _ => rfl) rfl ((mem_openConns hi c).mpr hlive)
    exact hcounts.log (.parser c)
  | @tooLarge _ c _ hr =>
    exact .of_cleanup rfl (fun _ => rfl) rfl ((mem_openConns hi c).mpr hr.1)
  | @dropped _ c _ hr _ =>
    have hlive : (s.conns c).life = .live := by simpa [cleanupMode] using hr
    exact .of_cleanup rfl (fun _ => rfl) rfl ((mem_openConns hi c).mpr hlive)
  | taken _ _ => exact .of_lives rfl (fun _ => rfl) rfl
  | @requeued c os hs _ _ => exact .of_lives rfl (fun d => (polledJs_conns s c d os).1) rfl
  | @gaveUp c os hs _ =>
    exact .of_cleanup rfl (fun d => (polledJs_conns s c d os).1) rfl (htaken c hs)
  | @wroteBack c os hs =>
    exact .of_cleanup rfl (fun d => (polledJs_conns s c d os).1) rfl (htaken c hs)

/-! ## The counter -/

/-- The counter is the clients less the connections that were given up, as a `uint32_t`. -/
structure Counted (cfg : Config) (givenUp : Nat) (s : Httpd) : Prop where
  count : (s.tcp.numOfTcpConns.toNat + givenUp) % 2 ^ 32 = (openConns s).card % 2 ^ 32
  limit : (openConns s).card ≤ cfg.maxConns.toNat + givenUp

section Counter

variable {cfg : Config} {l : Llhttp} {y : Yuarel} {givenUp : Nat} {s s' : Httpd}

theorem Counted.counter (h : Counted cfg givenUp s) (hfew : givenUp + cfg.maxConns.toNat ≤ 2 ^ 32) :
    s.tcp.numOfTcpConns.toNat = if givenUp ≤ (openConns s).card then (openConns s).card - givenUp
      else 2 ^ 32 - (givenUp - (openConns s).card) := by
  have hcount := h.count
  have hlimit := h.limit
  have hlt := s.tcp.numOfTcpConns.toNat_lt
  have hmax := cfg.maxConns.toNat_lt
  split_ifs <;> omega

theorem Counted.refuses (h : Counted cfg givenUp s) (hfew : givenUp + cfg.maxConns.toNat ≤ 2 ^ 32) :
    atLimit cfg.maxConns s.tcp = true ↔
      (openConns s).card < givenUp ∨ (openConns s).card = cfg.maxConns.toNat + givenUp := by
  have hcounter := h.counter hfew
  have hlimit := h.limit
  simp only [atLimit, decide_eq_true_eq, UInt32.le_iff_toNat_le]
  rw [hcounter]
  split_ifs <;> omega

theorem Counted.counts (h : Counted cfg givenUp s) (hcounts : Counts cfg s s') :
    Counted cfg givenUp s' := by
  have hcount := h.count
  have hlimit := h.limit
  have hlt := s.tcp.numOfTcpConns.toNat_lt
  cases hcounts with
  | same hclients htcp _ =>
    refine ⟨?_, ?_⟩
    · rw [htcp, hclients]
      exact hcount
    · rw [hclients]
      exact hlimit
  | client hlim hclients htcp =>
    simp only [atLimit, decide_eq_false_iff_not, UInt32.le_iff_toNat_le, Nat.not_le] at hlim
    have hmax := cfg.maxConns.toNat_lt
    refine ⟨?_, ?_⟩
    · rw [htcp, hclients, UInt32.toNat_add, UInt32.toNat_one]
      omega
    · rw [hclients]
      omega
  | closed hclients htcp _ =>
    refine ⟨?_, by omega⟩
    rw [htcp, UInt32.toNat_sub, UInt32.toNat_one]
    omega

end Counter

/-! ## One step -/

/-- The server is in order, and the counter counts. -/
structure SharedOk (cfg : Config) (s : SharedSys) : Prop where
  inv : Inv s.server
  counted : Counted cfg s.givenUp s.server

section Step

variable {cfg : Config} {l : Llhttp} {y : Yuarel} {s : SharedSys} {i : SysIn}

theorem Inv.tcp {t : Httpd} (hi : Inv t) (tcp : Tcp) : Inv { t with tcp } where
  conns := ⟨hi.conns.table, hi.conns.watched, hi.conns.born, hi.conns.js, hi.conns.fd⟩
  queue := by
    obtain ⟨q, hq⟩ := hi.queue
    exact ⟨q, hq.ring, hq.mem, hq.taken⟩

/-- A connection that is given up takes one from the counter. -/
theorem Counted.gaveUp {givenUp : Nat} {t : Httpd} (h : Counted cfg givenUp t) (o : otel.Otel)
    (os : otel.OtelOs) : Counted cfg (givenUp + (otel.givesUp o os).toNat)
      { t with tcp := (otel.step o t.tcp os).2 } := by
  have hcount := h.count
  have hlimit := h.limit
  have hlt := t.tcp.numOfTcpConns.toNat_lt
  have hsame : openConns { t with tcp := (otel.step o t.tcp os).2 } = openConns t := rfl
  refine ⟨?_, by rw [hsame]; omega⟩
  rw [hsame, otel.step_tcp]
  cases otel.givesUp o os with
  | true =>
    simp only [↓reduceIte, UInt32.toNat_sub, UInt32.toNat_one, Bool.toNat_true]
    omega
  | false => simpa using hcount

theorem sharedStep_ok (h : SharedOk cfg s) (hok : ServerOnce cfg l y s i) :
    SharedOk cfg (sharedStep cfg l y s i) := by
  cases i with
  | server os =>
    obtain ⟨hinv, hcounted⟩ := step_keeps (I := Counted cfg s.givenUp)
      (fun _ _ hi hc htrans => hc.counts (trans_counts hi htrans)) h.inv h.counted
      (OneCleanup.stepOk hok)
    exact ⟨hinv, hcounted⟩
  | otel os => exact ⟨h.inv.tcp _, h.counted.gaveUp s.otel os⟩

/-- The counter is over the limit, and no client has come. -/
structure LockedOut (cfg : Config) (givenUp nextConn : Nat) (s : Httpd) : Prop where
  counted : Counted cfg givenUp s
  clients : (openConns s).card < givenUp
  nextConn : s.nextConn = nextConn

theorem LockedOut.counts {givenUp nextConn : Nat} {t t' : Httpd}
    (h : LockedOut cfg givenUp nextConn t) (hfew : givenUp + cfg.maxConns.toNat ≤ 2 ^ 32)
    (hcounts : Counts cfg t t') : LockedOut cfg givenUp nextConn t' := by
  have hcounted := h.counted.counts hcounts
  have hclients := h.clients
  cases hcounts with
  | same hsame _ hnext => exact ⟨hcounted, hsame ▸ hclients, hnext.trans h.nextConn⟩
  | client hlim _ _ =>
    have hrefuses := (h.counted.refuses hfew).mpr (Or.inl hclients)
    rw [hlim] at hrefuses
    cases hrefuses
  | closed hless _ hnext => exact ⟨hcounted, by omega, hnext.trans h.nextConn⟩

theorem sharedStep_locked (h : SharedOk cfg s) (hok : ServerOnce cfg l y s i)
    (hlocked : s.clients < s.givenUp) (hfew : s.givenUp + cfg.maxConns.toNat ≤ 2 ^ 32) :
    (sharedStep cfg l y s i).clients < (sharedStep cfg l y s i).givenUp ∧
      (sharedStep cfg l y s i).server.nextConn = s.server.nextConn := by
  cases i with
  | server os =>
    have hout := (step_keeps (I := LockedOut cfg s.givenUp s.server.nextConn)
      (fun _ _ hi hc htrans => hc.counts hfew (trans_counts hi htrans)) h.inv
      ⟨h.counted, hlocked, rfl⟩ (OneCleanup.stepOk hok)).2
    exact ⟨hout.clients, hout.nextConn⟩
  | otel os => exact ⟨Nat.lt_of_lt_of_le hlocked (Nat.le_add_right _ _), rfl⟩

theorem run_givenUp (s : SharedSys) (is : List SysIn) :
    s.givenUp ≤ (run (sharedStep cfg l y) s is).givenUp := by
  induction is generalizing s with
  | nil => exact Nat.le_refl _
  | cons i is ih => exact (Nat.le_add_right _ _).trans (ih (sharedStep cfg l y s i))

/-- Once the counter is over the limit, nobody gets in. -/
theorem run_locked {is : List SysIn} (h : SharedOk cfg s)
    (hok : StepsOk (sharedStep cfg l y) (ServerOnce cfg l y) s is)
    (hlocked : s.clients < s.givenUp)
    (hfew : (run (sharedStep cfg l y) s is).givenUp + cfg.maxConns.toNat ≤ 2 ^ 32) :
    (run (sharedStep cfg l y) s is).server.nextConn = s.server.nextConn := by
  induction is generalizing s with
  | nil => rfl
  | cons i is ih =>
    have hmono : s.givenUp ≤ (run (sharedStep cfg l y) s (i :: is)).givenUp := run_givenUp s _
    obtain ⟨hlocked', hnext⟩ := sharedStep_locked h hok.1 hlocked (by omega)
    exact (ih (sharedStep_ok h hok.1) hok.2 hlocked' hfew).trans hnext

end Step

/-! ## The law -/

theorem start_sharedOk (cfg : Config) (serverfd : Nat) : SharedOk cfg (sharedStart serverfd) where
  inv := start_inv serverfd
  counted := by
    have hnone : openConns (sharedStart serverfd).server = ∅ := rfl
    exact ⟨by rw [hnone]; rfl, by simp [hnone]⟩

theorem SharedOk.admission {cfg : Config} {s : SharedSys} (h : SharedOk cfg s)
    (hfew : s.givenUp + cfg.maxConns.toNat ≤ 2 ^ 32) : Admission cfg s where
  counter := h.counted.counter hfew
  refuses := h.counted.refuses hfew
  limit := h.counted.limit

/-- In every run of the two tasks in which no call of llhttp cleans a connection up twice, and
with any outcome of the connects and writes of the OpenTelemetry task: each connection that it
gives up raises the limit on clients by one, as long as it gave up no more connections than
clients are open. Once it gave up more than that, no client gets in anymore, before the
counter has come around. -/
theorem each_lost_collector_shifts_the_limit (cfg : Config) (l : Llhttp) (y : Yuarel)
    (serverfd : Nat) (is js : List SysIn)
    (h : StepsOk (sharedStep cfg l y) (ServerOnce cfg l y) (sharedStart serverfd) (is ++ js))
    (hfew : (run (sharedStep cfg l y) (sharedStart serverfd) (is ++ js)).givenUp +
      cfg.maxConns.toNat ≤ 2 ^ 32) :
    Admission cfg (run (sharedStep cfg l y) (sharedStart serverfd) is) ∧
      ((run (sharedStep cfg l y) (sharedStart serverfd) is).clients <
          (run (sharedStep cfg l y) (sharedStart serverfd) is).givenUp →
        (run (sharedStep cfg l y) (sharedStart serverfd) (is ++ js)).server.nextConn =
          (run (sharedStep cfg l y) (sharedStart serverfd) is).server.nextConn) := by
  have hok : SharedOk cfg (run (sharedStep cfg l y) (sharedStart serverfd) is) :=
    run_inv (I := SharedOk cfg) (fun _ _ hs hone => sharedStep_ok hs hone)
      (start_sharedOk cfg serverfd) h.left
  have hrest := h.right
  rw [run_append] at hfew ⊢
  generalize run (sharedStep cfg l y) (sharedStart serverfd) is = s at hok hfew hrest ⊢
  have hmono : s.givenUp ≤ (run (sharedStep cfg l y) s js).givenUp := run_givenUp s js
  refine ⟨hok.admission (by omega), fun hlocked => ?_⟩
  exact run_locked hok hrest hlocked hfew

/-- A connect to the collector that takes over 5 seconds, before any client comes. -/
def lateCollector : List SysIn := [.otel (connecting 1), .otel (connecting 5002)]

theorem no_client_gets_in_after_a_late_collector :
    Admission { maxConns := 12, hasHandler := true }
        (run (sharedStep { maxConns := 12, hasHandler := true } rootLlhttp slashYuarel)
          (sharedStart 3) lateCollector) ∧
      (run (sharedStep { maxConns := 12, hasHandler := true } rootLlhttp slashYuarel)
          (sharedStart 3) (lateCollector ++ (acceptAt 5).map .server)).server.nextConn =
        (run (sharedStep { maxConns := 12, hasHandler := true } rootLlhttp slashYuarel)
          (sharedStart 3) lateCollector).server.nextConn := by
  obtain ⟨hadmission, hlocked⟩ := each_lost_collector_shifts_the_limit
    { maxConns := 12, hasHandler := true } rootLlhttp slashYuarel 3 lateCollector
    ((acceptAt 5).map .server) (by decide +kernel) (by decide +kernel)
  exact ⟨hadmission, hlocked (by decide +kernel)⟩

end isere.httpd
