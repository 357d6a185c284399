-- The tcp module of portable/linux against the one of portable/pico2. The
-- Pico 2 port has the same counter, but looks at no limit and counts no accept.
import Isere.Runs
import Isere.Tcp

open runs

namespace isere.tcp

namespace pico2

/-- `isere_tcp_close` of portable/pico2. -/
def isereTcpClose (t : Tcp) (_fd : Int) : Tcp := { t with numOfTcpConns := t.numOfTcpConns - 1 }

/-- `isere_tcp_accept` of portable/pico2, for what `lwip_accept` gives. -/
def isereTcpAccept (t : Tcp) (os : Int) : Tcp × Int := if os < 0 then (t, -1) else (t, os)

end pico2

/-! ## Calls on a port -/

/-- A call of the module. An accept comes with what the system would give for
it, and a close with the descriptor that it closes. -/
inductive Call
  | accept (os : Int)
  | close (fd : Int)
  deriving DecidableEq, Repr

structure Port where
  accept : Tcp → Int → Tcp × Int
  close : Tcp → Int → Tcp

def linux (maxConns : UInt32) : Port := ⟨isereTcpAccept maxConns, isereTcpClose⟩

def pico2Port : Port := ⟨pico2.isereTcpAccept, pico2.isereTcpClose⟩

/-- The module, and the sockets that it accepted and that are not closed. -/
structure Clients where
  counter : Tcp
  sockets : List Int
  deriving DecidableEq, Repr

def Clients.start : Clients := ⟨⟨0⟩, []⟩

/-- What `isere_tcp_accept` returns. A close returns nothing. -/
def Port.result (p : Port) (s : Clients) : Call → Option Int
  | .accept os => some (p.accept s.counter os).2
  | .close _ => none

def Port.call (p : Port) (s : Clients) : Call → Clients
  | .accept os =>
    let (counter, fd) := p.accept s.counter os
    { counter := counter, sockets := if fd < 0 then s.sockets else fd :: s.sockets }
  | .close fd => { counter := p.close s.counter fd, sockets := s.sockets.erase fd }

/-- The results of the calls, first to last. -/
def Port.results (p : Port) : Clients → List Call → List (Option Int)
  | _, [] => []
  | s, c :: cs => p.result s c :: p.results (p.call s c) cs

/-- The counter goes down in an accept, or up in a close. -/
def Port.Wraps (p : Port) (s : Clients) (c : Call) : Prop :=
  match c with
  | .accept _ => (p.call s c).counter.numOfTcpConns < s.counter.numOfTcpConns
  | .close _ => s.counter.numOfTcpConns < (p.call s c).counter.numOfTcpConns

instance (p : Port) (s : Clients) (c : Call) : Decidable (p.Wraps s c) :=
  match c with
  | .accept _ => inferInstanceAs (Decidable (_ < _))
  | .close _ => inferInstanceAs (Decidable (_ < _))

/-- No call leaves more than the allowed sockets open, and none wraps. -/
def Port.Keeps (p : Port) (maxConns : UInt32) : List Call → Prop :=
  StepsOk p.call (fun s c => (p.call s c).sockets.length ≤ maxConns.toNat ∧ ¬ p.Wraps s c) .start

/-- The ports accept and refuse the same calls, within the limit. -/
structure InStep (maxConns : UInt32) (calls : List Call) : Prop where
  results : (linux maxConns).results .start calls = pico2Port.results .start calls
  linux : (linux maxConns).Keeps maxConns calls
  pico2 : pico2Port.Keeps maxConns calls

/-! ## The Linux port -/

/-- The counter counts the open sockets, and they are within the limit. -/
structure Counts (maxConns : UInt32) (s : Clients) : Prop where
  count : s.counter.numOfTcpConns.toNat = s.sockets.length
  limit : s.sockets.length ≤ maxConns.toNat

/-- A close is one of an open socket. -/
def ClosesOpen (s : Clients) (c : Call) : Prop := ∀ fd, c = .close fd → fd ∈ s.sockets

/-- An accept on Linux changes nothing, or takes a socket below the limit. -/
theorem linux_accept_cases (maxConns : UInt32) (s : Clients) (os : Int) :
    ((linux maxConns).call s (.accept os) = s ∧
        (linux maxConns).result s (.accept os) = some (-1)) ∨
      (s.counter.numOfTcpConns < maxConns ∧ 0 ≤ os ∧
        (linux maxConns).call s (.accept os) =
          { counter := ⟨s.counter.numOfTcpConns + 1⟩, sockets := os :: s.sockets }) := by
  rcases isereTcpAccept_cases maxConns s.counter os with h | ⟨hlim, hos, h⟩
  · refine Or.inl ⟨?_, ?_⟩
    · simp [Port.call, linux, h]
    · simp [Port.result, linux, h]
  · refine Or.inr ⟨?_, hos, ?_⟩
    · simpa [atLimit] using hlim
    · simp [Port.call, linux, h, Int.not_lt.mpr hos]

theorem toNat_succ {n m : UInt32} (h : n < m) : (n + 1).toNat = n.toNat + 1 := by
  have hlt : n.toNat < m.toNat := h
  have hmax := m.toNat_lt
  rw [UInt32.toNat_add]
  exact Nat.mod_eq_of_lt (by simp; omega)

/-- One call keeps the count, and wraps nothing. -/
theorem linux_counts {maxConns : UInt32} {s : Clients} {c : Call} (h : Counts maxConns s)
    (hclose : ClosesOpen s c) :
    Counts maxConns ((linux maxConns).call s c) ∧ ¬ (linux maxConns).Wraps s c := by
  cases c with
  | accept os =>
    unfold Port.Wraps
    rcases linux_accept_cases maxConns s os with ⟨hsame, -⟩ | ⟨hlt, -, hnew⟩
    · simp only [hsame]
      exact ⟨h, Nat.lt_irrefl _⟩
    · have hsucc := toNat_succ hlt
      have hroom : s.counter.numOfTcpConns.toNat < maxConns.toNat := hlt
      have hcount := h.count
      simp only [hnew]
      refine ⟨⟨?_, ?_⟩, ?_⟩
      · rw [hsucc, List.length_cons, hcount]
      · rw [List.length_cons]
        omega
      · rw [UInt32.lt_iff_toNat_lt, hsucc]
        omega
  | close fd =>
    have hmem := hclose fd rfl
    have hpos := List.length_pos_of_mem hmem
    have hcount := h.count
    have hone : (1 : UInt32) ≤ s.counter.numOfTcpConns := by
      rw [UInt32.le_iff_toNat_le, hcount]
      exact hpos
    have hpred := UInt32.toNat_sub_of_le _ _ hone
    have hlimit := h.limit
    refine ⟨⟨?_, ?_⟩, ?_⟩
    · simp only [Port.call, linux, isereTcpClose]
      rw [hpred, List.length_erase_of_mem hmem, hcount]
      rfl
    · simp only [Port.call, linux]
      rw [List.length_erase_of_mem hmem]
      omega
    · simp only [Port.Wraps, Port.call, linux, isereTcpClose, UInt32.lt_iff_toNat_lt, hpred]
      omega

/-- The Linux port keeps the limit and its counter in every run of accepts, and
of closes of open sockets. -/
theorem linux_keeps {maxConns : UInt32} {calls : List Call}
    (h : StepsOk (linux maxConns).call ClosesOpen .start calls) :
    (linux maxConns).Keeps maxConns calls := by
  refine h.with_inv (I := Counts maxConns) (fun s c hs hc => ?_) ⟨rfl, Nat.zero_le _⟩
  obtain ⟨hnext, hwraps⟩ := linux_counts hs hc
  exact ⟨hnext, hnext.limit, hwraps⟩

theorem closesOpen_of_none {step : Clients → Call → Clients} {s : Clients} {calls : List Call}
    (h : ∀ fd, .close fd ∉ calls) : StepsOk step ClosesOpen s calls := by
  induction calls generalizing s with
  | nil => trivial
  | cons c calls ih =>
    refine ⟨fun fd hfd => ?_, ih (fun fd hfd => h fd (List.mem_cons_of_mem _ hfd))⟩
    exact absurd (hfd ▸ List.mem_cons_self) (h fd)

/-! ## The Pico 2 port -/

/-- The accepts that the system has a socket for. -/
def Call.taken : Call → Bool
  | .accept os => decide (0 ≤ os)
  | .close _ => false

/-- While it counts nothing, the Pico 2 port keeps the limit and its counter in
exactly the runs without a close, and with no more sockets than the limit. -/
theorem pico2_keeps_from_iff {maxConns : UInt32} {s : Clients} (calls : List Call)
    (h0 : s.counter.numOfTcpConns = 0) (hs : s.sockets.length ≤ maxConns.toNat) :
    StepsOk pico2Port.call (fun s c => (pico2Port.call s c).sockets.length ≤ maxConns.toNat ∧
        ¬ pico2Port.Wraps s c) s calls ↔
      (∀ fd, .close fd ∉ calls) ∧
        s.sockets.length + calls.countP Call.taken ≤ maxConns.toNat := by
  induction calls generalizing s with
  | nil => simpa [StepsOk] using hs
  | cons c calls ih =>
    cases c with
    | close fd =>
      have hwraps : pico2Port.Wraps s (.close fd) := by
        simp only [Port.Wraps, Port.call, pico2Port, pico2.isereTcpClose, h0]
        decide
      constructor
      · intro h
        exact absurd hwraps h.1.2
      · intro h
        exact absurd List.mem_cons_self (h.1 fd)
    | accept os =>
      have hcounter : (pico2Port.call s (.accept os)).counter = s.counter := by
        simp only [Port.call, pico2Port, pico2.isereTcpAccept]
        split <;> rfl
      have hkeeps : ¬ pico2Port.Wraps s (.accept os) := by
        simp only [Port.Wraps, hcounter]
        exact Nat.lt_irrefl _
      have hlen : (pico2Port.call s (.accept os)).sockets.length =
          s.sockets.length + (if Call.taken (.accept os) then 1 else 0) := by
        by_cases hos : os < 0
        · simp [Port.call, pico2Port, pico2.isereTcpAccept, Call.taken, hos, Int.not_le.mpr hos]
        · simp [Port.call, pico2Port, pico2.isereTcpAccept, Call.taken, hos, Int.not_lt.mp hos]
      have hcount := List.countP_cons (p := Call.taken) (a := .accept os) (l := calls)
      simp only [StepsOk, List.mem_cons, reduceCtorEq, false_or]
      constructor
      · rintro ⟨⟨hroom, -⟩, hrest⟩
        have hnext := (ih (by rw [hcounter, h0]) hroom).mp hrest
        refine ⟨hnext.1, ?_⟩
        have hle := hnext.2
        rw [hlen] at hle
        omega
      · rintro ⟨hnone, hle⟩
        have hroom : (pico2Port.call s (.accept os)).sockets.length + calls.countP Call.taken ≤
            maxConns.toNat := by
          rw [hlen]
          omega
        have hlim := (Nat.le_add_right _ _).trans hroom
        exact ⟨⟨hlim, hkeeps⟩, (ih (by rw [hcounter, h0]) hlim).mpr ⟨hnone, hroom⟩⟩

theorem pico2_keeps_iff (maxConns : UInt32) (calls : List Call) :
    pico2Port.Keeps maxConns calls ↔
      (∀ fd, .close fd ∉ calls) ∧ calls.countP Call.taken ≤ maxConns.toNat := by
  unfold Port.Keeps
  rw [pico2_keeps_from_iff calls rfl (Nat.zero_le _)]
  simp [Clients.start]

/-! ## The ports against each other -/

/-- Below the limit, the ports return the same for accepts only. -/
theorem same_results {maxConns : UInt32} {s : Clients} (s' : Clients) {calls : List Call}
    (h : Counts maxConns s) (hnone : ∀ fd, .close fd ∉ calls)
    (hroom : s.sockets.length + calls.countP Call.taken ≤ maxConns.toNat) :
    (linux maxConns).results s calls = pico2Port.results s' calls := by
  induction calls generalizing s s' with
  | nil => rfl
  | cons c calls ih =>
    cases c with
    | close fd => exact absurd List.mem_cons_self (hnone fd)
    | accept os =>
      have hnext := (linux_counts h (c := .accept os) (by intro fd hfd; cases hfd)).1
      have hrest : ∀ fd, .close fd ∉ calls := fun fd hfd => hnone fd (List.mem_cons_of_mem _ hfd)
      by_cases hos : os < 0
      · have hcall : (linux maxConns).call s (.accept os) = s ∧
            (linux maxConns).result s (.accept os) = some (-1) := by
          rcases linux_accept_cases maxConns s os with hsame | ⟨-, hpos, -⟩
          · exact hsame
          · exact absurd hpos (Int.not_le.mpr hos)
        have hpico : pico2Port.result s' (.accept os) = some (-1) := by
          simp [Port.result, pico2Port, pico2.isereTcpAccept, hos]
        have htaken : Call.taken (.accept os) = false := by simp [Call.taken, hos]
        rw [List.countP_cons_of_neg (by simp [htaken])] at hroom
        rw [Port.results, Port.results, hcall.1, hcall.2, hpico, ih _ h hrest hroom]
      · have htaken : Call.taken (.accept os) = true := by simp [Call.taken, Int.not_lt.mp hos]
        rw [List.countP_cons_of_pos htaken] at hroom
        have hlim : atLimit maxConns s.counter = false := by
          simp only [atLimit, decide_eq_false_iff_not, UInt32.le_iff_toNat_le, h.count]
          omega
        have haccept : isereTcpAccept maxConns s.counter os =
            (⟨s.counter.numOfTcpConns + 1⟩, os) := by
          simp [isereTcpAccept, hlim, hos]
        have hcall : (linux maxConns).call s (.accept os) =
            ⟨⟨s.counter.numOfTcpConns + 1⟩, os :: s.sockets⟩ := by
          simp [Port.call, linux, haccept, hos]
        have hresult : (linux maxConns).result s (.accept os) =
            pico2Port.result s' (.accept os) := by
          simp [Port.result, linux, pico2Port, pico2.isereTcpAccept, haccept, hos]
        rw [hcall] at hnext
        rw [Port.results, Port.results, hresult, hcall, ih _ hnext hrest (by simp; omega)]

/-- The ports stay in step exactly in the runs without a close that have no
more accepts than the limit. -/
theorem ports_in_step_iff (maxConns : UInt32) (calls : List Call) :
    InStep maxConns calls ↔
      (∀ fd, .close fd ∉ calls) ∧ calls.countP Call.taken ≤ maxConns.toNat := by
  constructor
  · intro h
    exact (pico2_keeps_iff maxConns calls).mp h.pico2
  · intro h
    have hcounts : Counts maxConns Clients.start := ⟨rfl, Nat.zero_le _⟩
    refine ⟨same_results _ hcounts h.1 (by simpa [Clients.start] using h.2), ?_,
      (pico2_keeps_iff maxConns calls).mpr h⟩
    apply linux_keeps
    exact closesOpen_of_none h.1

/-- One client that comes and goes: the Pico 2 counter passes its end. -/
theorem pico2_close_wraps :
    ¬ ∀ (maxConns : UInt32) (calls : List Call), InStep maxConns calls := by
  intro h
  have hkeeps := (h 4 [.accept 5, .close 5]).pico2
  exact absurd hkeeps.2.1.2 (by decide)

end isere.tcp
