-- The drain loop over the js_queue as a round robin. From any state of a run in
-- which it drains, its polls are the turns of a queue whose first connection
-- goes to the end or is cleaned up.
import Isere.DrainTurn
import Isere.RoundRobin

open cstring intrusive isere.tcp isere.uv roundrobin runs

namespace isere.httpd

/-- The first `n` steps belong to one drain of the queue. -/
def Draining (t : Nat → Httpd) (n : Nat) : Prop := ∀ k ≤ n, (t k).phase ≠ .loop

/-- The connections of the drain in the order of their turns: the one that is off
the queue for its poll is the first. -/
def Standing (s : Httpd) (order : List ConnId) : Prop :=
  ∃ q, QueueIs s q ∧ order = match s.phase with
    | .polling c => c :: q
    | _ => q

/-- The steps `i` and `j` poll `c`, and no step between them does. -/
structure NextPoll (t : Nat → Httpd) (c : ConnId) (i j : Nat) : Prop where
  lt : i < j
  first : (t i).phase = .polling c
  second : (t j).phase = .polling c
  one : polls (t j) c = polls (t i) c + 1

/-- A drain that is fair to the connections and loses none of them. -/
structure FairDrain (t : Nat → Httpd) (order : Nat → List ConnId) : Prop where
  standing : ∀ n, Draining t n → Standing (t n) (order n)
  once : ∀ i j c, Draining t j → NextPoll t c i j →
    ∀ d ∈ order i, d ≠ c → polls (t j) d = polls (t i) d + 1
  cleaned : ∀ i j, i ≤ j → Draining t j →
    ∀ c ∈ order i, c ∉ order j → ((t j).conns c).life = .cleaned
  around : ∀ i j, i ≤ j → Draining t j → Around (order i) (order j)
  ordered : ∀ i j c, Draining t j → NextPoll t c i j → (order j).Sublist (order i)

instance (s : Httpd) (c : ConnId) (os : Os) : Decidable (DoneAt s c os) :=
  inferInstanceAs (Decidable (_ ∨ _))

theorem Draining.mono {t : Nat → Httpd} {m n : Nat} (h : Draining t n) (hm : m ≤ n) :
    Draining t m := fun k hk => h k (by omega)

/-! ## The turns of the drain -/

/-- A connection that is done is cleaned up by its poll. -/
theorem pollingStep_cleaned {s : Httpd} {c : ConnId} {os : Os} (hd : DoneAt s c os) :
    ((pollingStep s c os).conns c).life = .cleaned := by
  obtain ⟨es, heq⟩ := pollingStep_cleans hd
  simp [heq]

section Drain

variable (cfg : Config) (l : Llhttp) (y : Yuarel)

/-- The connection of the poll `n` goes back on the queue. -/
def staysAt (s : Httpd) (os : Nat → Os) (n : Nat) : Bool :=
  match (after (step cfg l y) s os (2 * n + 1)).phase with
  | .polling c => !decide (DoneAt (after (step cfg l y) s os (2 * n)) c (os (2 * n + 1)))
  | _ => false

/-- What `n` turns of the queue `q` make of the state `s`. -/
structure Drained (s : Httpd) (q : List ConnId) (stays : Nat → Bool) (n : Nat) (t : Httpd) :
    Prop where
  inv : Inv t
  phase : t.phase = .drain
  queue : QueueIs t (queueAt q stays n)
  polls : ∀ d, httpd.polls t d = httpd.polls s d + (served q stays n).count d
  gone : ∀ d ∈ q, d ∉ queueAt q stays n → (t.conns d).life = .cleaned

/-- Two steps are the next turn of the queue. -/
theorem Drained.turn {s t : Httpd} {q : List ConnId} {stays : Nat → Bool} {n : Nat}
    (h : Drained s q stays n t) {c : ConnId} {r : List ConnId} (hr : queueAt q stays n = c :: r)
    (os : Nat → Os) (hstays : stays n = !decide (DoneAt t c (os 1))) :
    Drained s q stays (n + 1) (after (step cfg l y) t os 2) := by
  have hqueue := h.queue
  rw [hr] at hqueue
  obtain ⟨hp, hpolled⟩ := two_steps cfg l y h.inv h.phase hqueue os
  have htake := take_step cfg l y h.inv h.phase hqueue os
  have hlast : after (step cfg l y) t os 2 =
      pollingStep (after (step cfg l y) t os 1) c (os 1) := by
    rw [after, step, hp]
  have hnext : queueAt q stays (n + 1) = if DoneAt t c (os 1) then r else r ++ [c] := by
    rw [queueAt_succ, hr, hstays]
    unfold roundrobin.turn
    by_cases hd : DoneAt t c (os 1) <;> simp [hd]
  refine ⟨hpolled.inv, hpolled.phase, ?_, ?_, ?_⟩
  · rw [hnext]
    split
    · rename_i hd
      exact hpolled.done hd
    · rename_i hd
      exact hpolled.again hd
  · intro d
    rw [hpolled.polls d, h.polls d, served, hr, List.count_append]
    by_cases hd : d = c
    · subst hd
      simp
      omega
    · simp [hd, Ne.symm hd]
  · intro d hd hout
    by_cases hdc : d = c
    · subst hdc
      have hdone : DoneAt t d (os 1) := by
        by_contra hnot
        exact hout (by simp [hnext, hnot])
      rw [hlast]
      apply pollingStep_cleaned
      unfold DoneAt at hdone ⊢
      rwa [htake]
    · rw [hpolled.other d hdc]
      apply h.gone d hd
      rw [hr]
      intro hin
      apply hout
      rw [hnext]
      have hin' : d ∈ r := by simpa [hdc] using hin
      split <;> simp [hin']

/-- An empty queue ends the drain. -/
theorem drain_ends {s : Httpd} (hs : s.phase = .drain) (hq : QueueIs s []) (os : Nat → Os) :
    (after (step cfg l y) s os 1).phase = .loop := by
  simp only [after, step, hs]
  rw [drainStep_empty hq]

/-- The drain follows the queue, two steps for each turn. -/
theorem drained {s : Httpd} {q : List ConnId} (hi : Inv s) (hs : s.phase = .drain)
    (hq : QueueIs s q) (os : Nat → Os) {n : Nat}
    (hn : Draining (after (step cfg l y) s os) (2 * n)) :
    Drained s q (staysAt cfg l y s os) n (after (step cfg l y) s os (2 * n)) := by
  induction n with
  | zero =>
    refine ⟨hi, hs, ?_, ?_, ?_⟩
    · rwa [queueAt_zero]
    · simp [served]
    · intro d hd hout
      rw [queueAt_zero] at hout
      exact absurd hd hout
  | succ n ih =>
    have hprev := ih (hn.mono (by omega))
    have hgoes := hn (2 * n + 1) (by omega)
    rw [after_add] at hgoes
    cases hr : queueAt q (staysAt cfg l y s os) n with
    | nil =>
      have hqueue := hprev.queue
      rw [hr] at hqueue
      exact absurd (drain_ends cfg l y hprev.phase hqueue _) hgoes
    | cons c r =>
      rw [show 2 * (n + 1) = 2 * n + 2 by omega, after_add]
      apply hprev.turn cfg l y hr
      have hqueue := hprev.queue
      rw [hr] at hqueue
      unfold staysAt
      rw [after_add, (two_steps cfg l y hprev.inv hprev.phase hqueue _).1]

/-- The drain at any of its steps. -/
structure Follows (s : Httpd) (q : List ConnId) (stays : Nat → Bool) (n : Nat) (t : Httpd) :
    Prop where
  standing : Standing t (queueAt q stays n)
  head : ∀ c, t.phase = .polling c → ∃ r, queueAt q stays n = c :: r
  polls : ∀ d, httpd.polls t d = httpd.polls s d + (served q stays n).count d
  gone : ∀ d ∈ q, d ∉ queueAt q stays n → (t.conns d).life = .cleaned

theorem follows {s : Httpd} {q : List ConnId} (hi : Inv s) (hs : s.phase = .drain)
    (hq : QueueIs s q) (os : Nat → Os) {m : Nat} (hm : Draining (after (step cfg l y) s os) m) :
    Follows s q (staysAt cfg l y s os) (m / 2) (after (step cfg l y) s os m) := by
  have hdrained := drained cfg l y hi hs hq os (n := m / 2) (hm.mono (by omega))
  rcases Nat.mod_two_eq_zero_or_one m with heven | hodd
  · rw [show 2 * (m / 2) = m by omega] at hdrained
    refine ⟨⟨_, hdrained.queue, by rw [hdrained.phase]⟩, ?_, hdrained.polls, hdrained.gone⟩
    intro c hc
    simp [hdrained.phase] at hc
  · have hgoes := hm m (Nat.le_refl m)
    have hqueue := hdrained.queue
    rw [show m = 2 * (m / 2) + 1 by omega, after_add] at hgoes
    rw [show after (step cfg l y) s os m = after (step cfg l y) s os (2 * (m / 2) + 1) by
      rw [show 2 * (m / 2) + 1 = m by omega], after_add]
    cases hr : queueAt q (staysAt cfg l y s os) (m / 2) with
    | nil =>
      rw [hr] at hqueue
      exact absurd (drain_ends cfg l y hdrained.phase hqueue _) hgoes
    | cons c r =>
      rw [hr] at hqueue
      rw [take_step cfg l y hdrained.inv hdrained.phase hqueue]
      refine ⟨⟨r, hqueue.took hdrained.phase, hr⟩, ?_, hdrained.polls, hdrained.gone⟩
      rintro d ⟨rfl⟩
      exact ⟨r, hr⟩

/-- From one poll of a connection to its next. -/
theorem next_poll {s : Httpd} {q : List ConnId} (hi : Inv s) (hs : s.phase = .drain)
    (hq : QueueIs s q) (os : Nat → Os) {i j : Nat} {c : ConnId}
    (hj : Draining (after (step cfg l y) s os) j) (h : NextPoll (after (step cfg l y) s os) c i j) :
    (queueAt q (staysAt cfg l y s os) (j / 2)).Sublist
        (queueAt q (staysAt cfg l y s os) (i / 2)) ∧
      ∀ d ∈ queueAt q (staysAt cfg l y s os) (i / 2), d ≠ c →
        polls (after (step cfg l y) s os j) d = polls (after (step cfg l y) s os i) d + 1 := by
  have hij := h.lt
  have hfirst := follows cfg l y hi hs hq os (hj.mono hij.le)
  have hsecond := follows cfg l y hi hs hq os hj
  obtain ⟨r, hr⟩ := hfirst.head c h.first
  obtain ⟨r', hr'⟩ := hsecond.head c h.second
  obtain ⟨n, hn⟩ := Nat.exists_eq_add_of_le (show i / 2 ≤ j / 2 by omega)
  have hpolls : ∀ d, polls (after (step cfg l y) s os j) d =
      polls (after (step cfg l y) s os i) d +
        (served (c :: r) (fun k => staysAt cfg l y s os (i / 2 + k)) n).count d := by
    intro d
    rw [hsecond.polls d, hfirst.polls d, hn, served_add, hr, List.count_append, Nat.add_assoc]
  have hone : (served (c :: r) (fun k => staysAt cfg l y s os (i / 2 + k)) n).count c = 1 := by
    have hsame := h.one
    rw [hpolls c] at hsame
    omega
  have hnodup : (c :: r).Nodup := hr ▸ (around_queueAt q _ (i / 2)).nodup hq.nodup
  have hlast : queueAt (c :: r) (fun k => staysAt cfg l y s os (i / 2 + k)) n = c :: r' := by
    rw [← hr, ← queueAt_add, ← hn, hr']
  obtain ⟨hsub, honce⟩ := next_turn hnodup hlast hone
  rw [hr, hr']
  refine ⟨hsub, fun d hd hdc => ?_⟩
  have hdr : d ∈ r := by simpa [hdc] using hd
  rw [hpolls d, honce d hdr]

theorem fair_drain {s : Httpd} {q : List ConnId} (hi : Inv s) (hs : s.phase = .drain)
    (hq : QueueIs s q) (os : Nat → Os) : FairDrain (after (step cfg l y) s os)
      (fun n => queueAt q (staysAt cfg l y s os) (n / 2)) where
  standing _ hn := (follows cfg l y hi hs hq os hn).standing
  once _ _ _ hj h := (next_poll cfg l y hi hs hq os hj h).2
  cleaned _ _ _ hj c hc hout :=
    (follows cfg l y hi hs hq os hj).gone c ((around_queueAt q _ _).mem hc) hout
  around i j hij _ := by
    obtain ⟨n, hn⟩ := Nat.exists_eq_add_of_le (show i / 2 ≤ j / 2 by omega)
    rw [hn, queueAt_add]
    exact around_queueAt _ _ n
  ordered _ _ _ hj h := (next_poll cfg l y hi hs hq os hj h).1

end Drain

/-! ## The law -/

/-- In every run in which no call of llhttp sends a second message of its
connection to the handler, each drain of the `js_queue` is fair, whatever
`isere_js_poll` returns: between two polls of a connection that follow one
another each other queued connection is polled once, a connection leaves the
queue only with its cleanup, and those that stay keep their order. -/
theorem the_drain_is_a_round_robin (cfg : Config) (l : Llhttp) (y : Yuarel) (serverfd : Nat)
    (is : List Os) (h : StepsOk (step cfg l y) (OneDispatch cfg l y) (start serverfd) is)
    (hs : (run (step cfg l y) (start serverfd) is).phase = .drain) (os : Nat → Os) :
    ∃ order,
      FairDrain (after (step cfg l y) (run (step cfg l y) (start serverfd) is) os) order := by
  have hi := (run_keeps (I := fun _ => True) (fun _ _ _ _ _ => trivial) trivial
    (h.mono (fun _ _ => OneDispatch.stepOk))).1
  obtain ⟨q, hq⟩ := hi.queue
  exact ⟨_, fair_drain cfg l y hi hs hq os⟩

/-- Two connections that send a request for `/` in the same turn of the loop. -/
def twoRequests : List Os :=
  acceptAt 5 ++ acceptAt 6 ++
    [Os.quiet,
      { Os.quiet with
        ready := 2, revents := fun i => if i = 1 ∨ i = 2 then UV_POLLIN else 0 },
      Os.quiet, { Os.quiet with recv := .data (getRequest "/") },
      { Os.quiet with recv := .data (getRequest "/") }, Os.quiet]

theorem two_requests_take_turns : ∃ order, FairDrain
    (after (step { maxConns := 12, hasHandler := true } rootLlhttp slashYuarel)
      (run (step { maxConns := 12, hasHandler := true } rootLlhttp slashYuarel) (start 3)
        twoRequests)
      (fun _ => { Os.quiet with jsPoll := 1 })) order :=
  the_drain_is_a_round_robin _ _ _ _ _ (by decide +kernel) (by decide +kernel) _

end isere.httpd
