-- One turn of the drain loop over the js_queue. It polls each queued connection
-- once and ends, just when each of them is done at its first poll: the loop
-- puts the others back on the queue that it drains.
import Isere.JsQueue

open cstring intrusive isere.tcp isere.uv runs

namespace isere.httpd

def Event.polls (c : ConnId) : Event → Bool
  | .jsPolled d _ => decide (d = c)
  | _ => false

/-- How often `isere_js_poll` was called for a connection. -/
def polls (s : Httpd) (c : ConnId) : Nat := s.trace.countP (Event.polls c)

/-- The turn that starts in `s` goes back to the poll of the sockets, and polls
each connection once at most before that. -/
def TurnOk (cfg : Config) (l : Llhttp) (y : Yuarel) (s : Httpd) (os : Nat → Os) : Prop :=
  ∃ n, (after (step cfg l y) s os n).phase = .loop ∧
    (∀ k < n, (after (step cfg l y) s os k).phase ≠ .loop) ∧
    ∀ c, polls (after (step cfg l y) s os n) c ≤ polls s c + 1

/-- The connection leaves the queue with this poll: its response was there
before, or `isere_js_poll` returns no 1. -/
def DoneAt (s : Httpd) (c : ConnId) (os : Os) : Prop :=
  (s.conns c).response.completed = true ∨ os.jsPoll ≤ 0

/-! ## The two steps of a poll -/

/-- A poll touches no other connection. -/
theorem pollingStep_frame (s : Httpd) (c : ConnId) (os : Os) :
    (pollingStep s c os).phase = .drain ∧
      (∀ d, d ≠ c → (pollingStep s c os).conns d = s.conns d) ∧
      ∀ d, polls (pollingStep s c os) d = polls s d + if d = c then 1 else 0 := by
  have hphase : (polledJs s c os).phase = .drain := rfl
  have hother : ∀ d, d ≠ c → (polledJs s c os).conns d = s.conns d :=
    fun d hd => polledJs_conns_other s hd os
  unfold polls
  rcases pollingStep_cases s c os with ⟨-, -, heq⟩ | ⟨-, -, heq⟩ | heq
  · rw [heq]
    refine ⟨by simp [hphase], fun d hd => by simp [hd, hother], fun d => ?_⟩
    simp [polledJs_trace, Event.polls, List.countP_cons, eq_comm]
  · rw [heq]
    refine ⟨hphase, hother, fun d => ?_⟩
    simp [polledJs_trace, Event.polls, List.countP_cons, eq_comm]
  · rw [heq]
    refine ⟨by simp [hphase], fun d hd => by simp [hd, hother], fun d => ?_⟩
    simp [polledJs_trace, Event.polls, List.countP_cons, eq_comm]

/-- A connection that is done is cleaned up. -/
theorem pollingStep_cleans {s : Httpd} {c : ConnId} {os : Os} (hd : DoneAt s c os) :
    ∃ es, pollingStep s c os = httpdCleanupConn { polledJs s c os with trace := es } c := by
  rcases pollingStep_cases s c os with ⟨-, -, heq⟩ | ⟨hopen, hpos, -⟩ | heq
  · exact ⟨_, heq⟩
  · rcases hd with hd | hd
    · simp [hopen] at hd
    · omega
  · exact ⟨_, heq⟩

/-- A connection that is done leaves the queue. -/
theorem pollingStep_done {s : Httpd} {c : ConnId} {q : List ConnId} (hq : QueueIs s q)
    (hs : s.phase = .polling c) {os : Os} (hd : DoneAt s c os) :
    QueueIs (pollingStep s c os) q := by
  obtain ⟨es, heq⟩ := pollingStep_cleans hd
  rw [heq]
  exact hq.finished hs rfl (fun d => (polledJs_conns s c d os).2.1) rfl

/-- A connection that is not done goes to the end of the queue. -/
theorem pollingStep_again {s : Httpd} {c : ConnId} {q : List ConnId} (hq : QueueIs s q)
    (hs : s.phase = .polling c) {os : Os} (hd : ¬DoneAt s c os) :
    QueueIs (pollingStep s c os) (q ++ [c]) := by
  simp only [DoneAt, not_or, Bool.not_eq_true, Int.not_le] at hd
  unfold pollingStep
  simp only
  rw [if_pos ⟨by simp [hd.1], by omega⟩, if_neg (by omega)]
  exact hq.putBack hs rfl (fun d => (polledJs_conns s c d os).2.1) rfl

section Turn

variable (cfg : Config) (l : Llhttp) (y : Yuarel)

/-- The two steps that take the first connection off the queue and poll it. -/
structure Polled (s t : Httpd) (c : ConnId) (q : List ConnId) (os : Os) : Prop where
  phase : t.phase = .drain
  inv : Inv t
  other : ∀ d, d ≠ c → t.conns d = s.conns d
  polls : ∀ d, polls t d = polls s d + if d = c then 1 else 0
  done : DoneAt s c os → QueueIs t q
  again : ¬DoneAt s c os → QueueIs t (q ++ [c])

/-- The first of them takes the connection off the queue, and changes nothing else. -/
theorem take_step {s : Httpd} (hi : Inv s) (hs : s.phase = .drain) {c : ConnId} {q : List ConnId}
    (hq : QueueIs s (c :: q)) (os : Nat → Os) :
    after (step cfg l y) s os 1 = { s with
      jsQueue := uvQueueInit (uvQueueRemove s.jsQueue (.conn c)) (.conn c),
      phase := .polling c } := by
  simp only [after, step, hs]
  exact drainStep_take hi hq

theorem two_steps {s : Httpd} (hi : Inv s) (hs : s.phase = .drain) {c : ConnId} {q : List ConnId}
    (hq : QueueIs s (c :: q)) (os : Nat → Os) :
    (after (step cfg l y) s os 1).phase = .polling c ∧
      Polled s (after (step cfg l y) s os 2) c q (os 1) := by
  have htake := take_step cfg l y hi hs hq os
  have hq' : QueueIs (after (step cfg l y) s os 1) q := htake ▸ hq.took hs
  have hp : (after (step cfg l y) s os 1).phase = .polling c := by rw [htake]
  have hconns : (after (step cfg l y) s os 1).conns = s.conns := by rw [htake]
  have htrace : (after (step cfg l y) s os 1).trace = s.trace := by rw [htake]
  have hi' : Inv (after (step cfg l y) s os 1) :=
    step_inv (m := anyMode) hi (stepOk_of_noSlot (by simp [hs]) _)
  have hi'' : Inv (after (step cfg l y) s os 2) :=
    step_inv (m := anyMode) hi' (stepOk_of_noSlot (by simp [hp]) _)
  have hpoll : after (step cfg l y) s os 2 =
      pollingStep (after (step cfg l y) s os 1) c (os 1) := by
    rw [after, step, hp]
  have hdone : DoneAt (after (step cfg l y) s os 1) c (os 1) ↔ DoneAt s c (os 1) := by
    unfold DoneAt
    rw [hconns]
  refine ⟨hp, ?_⟩
  rw [hpoll] at hi'' ⊢
  obtain ⟨hphase, hother, hpolls⟩ := pollingStep_frame (after (step cfg l y) s os 1) c (os 1)
  refine ⟨hphase, hi'', ?_, ?_, ?_, ?_⟩
  · intro d hd
    rw [hother d hd, hconns]
  · intro d
    rw [hpolls d]
    unfold httpd.polls
    rw [htrace]
  · exact fun hd => pollingStep_done hq' hp (hdone.mpr hd)
  · exact fun hd => pollingStep_again hq' hp (hdone.not.mpr hd)

/-! ## A turn in which each connection is done -/

theorem turn_ends {q : List ConnId} {s : Httpd} (os : Nat → Os) (hi : Inv s)
    (hs : s.phase = .drain) (hq : QueueIs s q)
    (hdone : ∀ k (hk : k < q.length), DoneAt s q[k] (os (2 * k + 1))) :
    (after (step cfg l y) s os (2 * q.length + 1)).phase = .loop ∧
      (∀ k < 2 * q.length + 1, (after (step cfg l y) s os k).phase ≠ .loop) ∧
      ∀ c, polls (after (step cfg l y) s os (2 * q.length + 1)) c = polls s c + q.count c := by
  induction q generalizing s os with
  | nil =>
    have hone : after (step cfg l y) s os 1 = { s with phase := .loop } := by
      simp only [after, step, hs]
      exact drainStep_empty hq
    refine ⟨by simp [hone], ?_, fun c => by simp [hone, polls]⟩
    intro k hk
    obtain rfl : k = 0 := by simpa using hk
    simp [after, hs]
  | cons c q ih =>
    obtain ⟨hp, hpolled⟩ := two_steps cfg l y hi hs hq os
    have hnot := (List.nodup_cons.mp hq.nodup).1
    have hq' := hpolled.done (hdone 0 (by simp))
    obtain ⟨hloop, hbefore, hcount⟩ := ih (fun k => os (2 + k)) hpolled.inv hpolled.phase hq'
      (by
        intro k hk
        have hne : q[k] ≠ c := fun he => hnot (he ▸ List.getElem_mem hk)
        have hd := hdone (k + 1) (by simpa using hk)
        unfold DoneAt at hd ⊢
        rw [hpolled.other _ hne]
        rw [show 2 + (2 * k + 1) = 2 * (k + 1) + 1 by omega]
        exact hd)
    have hlen : 2 * (c :: q).length + 1 = 2 + (2 * q.length + 1) := by
      simp only [List.length_cons]
      omega
    rw [hlen, after_add]
    refine ⟨hloop, ?_, ?_⟩
    · intro k hk
      rcases Nat.lt_or_ge k 2 with hlt | hge
      · rcases Nat.lt_or_ge k 1 with hlt' | hge'
        · obtain rfl : k = 0 := by omega
          simp [after, hs]
        · obtain rfl : k = 1 := by omega
          simp [hp]
      · obtain ⟨j, rfl⟩ := Nat.exists_eq_add_of_le hge
        rw [after_add]
        exact hbefore j (by omega)
    · intro d
      rw [hcount d, hpolled.polls d, List.count_cons]
      by_cases hd : d = c
      · subst hd
        simp
        omega
      · simp [hd, Ne.symm hd]

/-! ## A connection that is not done is polled again -/

/-- The turn comes to every connection that is queued at its start. -/
theorem turn_reaches {q : List ConnId} {s : Httpd} (os : Nat → Os) (hi : Inv s)
    (hs : s.phase = .drain) (hq : QueueIs s q) (k : Nat) (hk : k ≤ q.length) :
    Inv (after (step cfg l y) s os (2 * k)) ∧ (after (step cfg l y) s os (2 * k)).phase = .drain ∧
      (∀ j < 2 * k, (after (step cfg l y) s os j).phase ≠ .loop) ∧
      (∀ c, polls s c ≤ polls (after (step cfg l y) s os (2 * k)) c) ∧
      (∀ c ∈ q.drop k, (after (step cfg l y) s os (2 * k)).conns c = s.conns c) ∧
      ∃ r, QueueIs (after (step cfg l y) s os (2 * k)) (q.drop k ++ r) := by
  induction k with
  | zero => exact ⟨hi, hs, by simp, by simp, by simp, [], by simpa using hq⟩
  | succ k ih =>
    obtain ⟨hi', hs', hbefore, hpolls, hconns, r, hq'⟩ := ih (by omega)
    have hdrop : q.drop k = q[k] :: q.drop (k + 1) := List.drop_eq_getElem_cons (by omega)
    rw [hdrop, List.cons_append] at hq'
    obtain ⟨hp, hpolled⟩ := two_steps cfg l y hi' hs' hq'
      (fun j => os (2 * k + j))
    rw [← after_add] at hp hpolled
    rw [show 2 * (k + 1) = 2 * k + 2 by omega]
    refine ⟨hpolled.inv, hpolled.phase, ?_, ?_, ?_, ?_⟩
    · intro j hj
      rcases Nat.lt_or_ge j (2 * k) with hlt | hge
      · exact hbefore j hlt
      · rcases Nat.lt_or_ge j (2 * k + 1) with hlt | hge'
        · obtain rfl : j = 2 * k := by omega
          simp [hs']
        · obtain rfl : j = 2 * k + 1 := by omega
          simp [hp]
    · intro c
      rw [hpolled.polls c]
      have := hpolls c
      omega
    · intro c hc
      have hne : c ≠ q[k] := by
        rintro rfl
        have hnd := hq'.nodup
        simp [hc] at hnd
      rw [hpolled.other c hne]
      exact hconns c (by rw [hdrop]; exact List.mem_cons_of_mem _ hc)
    · by_cases hd : DoneAt (after (step cfg l y) s os (2 * k)) q[k] (os (2 * k + 1))
      · exact ⟨r, hpolled.done hd⟩
      · exact ⟨r ++ [q[k]], by rw [← List.append_assoc]; exact hpolled.again hd⟩

/-- In a turn, the connection is still with its handler after its first poll, or
was polled twice. -/
structure Pending (c : ConnId) (n : Nat) (s : Httpd) : Prop where
  inv : Inv s
  phase : s.phase = .drain ∨ ∃ d, s.phase = .polling d
  polled : ((s.conns c).jsInitialized = true ∧ n + 1 ≤ polls s c) ∨ n + 2 ≤ polls s c

/-- A step of the turn goes on, or the turn ends with two polls. -/
theorem Pending.one_step {c : ConnId} {n : Nat} {s : Httpd} (h : Pending c n s) (os : Os) :
    Pending c n (step cfg l y s os) ∨
      ((step cfg l y s os).phase = .loop ∧ n + 2 ≤ polls (step cfg l y s os) c) := by
  have hi : Inv (step cfg l y s os) := by
    apply step_inv (m := anyMode) h.inv (stepOk_of_noSlot _ os)
    rcases h.phase with hs | ⟨d, hs⟩ <;> simp [hs]
  rcases h.phase with hs | ⟨d, hs⟩
  · have hstep : step cfg l y s os = drainStep s := by simp only [step, hs]
    obtain ⟨q, hq⟩ := h.inv.queue
    cases q with
    | nil =>
      right
      have hj := (hq.mem c).not.mp (by simp)
      rw [hstep, drainStep_empty hq]
      refine ⟨rfl, ?_⟩
      rcases h.polled with hp | hp
      · exact absurd ⟨hp.1, by simp [hs]⟩ hj
      · exact hp
    | cons d q =>
      left
      rw [hstep, drainStep_take h.inv hq] at hi ⊢
      exact ⟨hi, Or.inr ⟨d, rfl⟩, h.polled⟩
  · have hstep : step cfg l y s os = pollingStep s d os := by simp only [step, hs]
    obtain ⟨hphase, hother, hpolls⟩ := pollingStep_frame s d os
    left
    rw [hstep] at hi ⊢
    refine ⟨hi, Or.inl hphase, ?_⟩
    rw [hpolls c]
    by_cases hc : c = d
    · simp only [hc, ↓reduceIte]
      rcases h.polled with hp | hp
      · right
        rw [← hc]
        omega
      · right
        rw [← hc]
        omega
    · simp only [hc, ↓reduceIte, Nat.add_zero]
      rw [hother c hc]
      exact h.polled

theorem Pending.steps {c : ConnId} {n : Nat} {s : Httpd} (h : Pending c n s) (os : Nat → Os)
    (m : Nat) (hm : ∀ k < m, (after (step cfg l y) s os k).phase ≠ .loop) :
    Pending c n (after (step cfg l y) s os m) ∨
      ((after (step cfg l y) s os m).phase = .loop ∧
        n + 2 ≤ polls (after (step cfg l y) s os m) c) := by
  induction m with
  | zero => exact Or.inl h
  | succ m ih =>
    rcases ih (fun k hk => hm k (by omega)) with hp | hp
    · exact hp.one_step cfg l y (os m)
    · exact absurd hp.1 (hm m (by omega))

/-- A connection that is not done at its first poll spoils the turn. -/
theorem turn_spoiled {q : List ConnId} {s : Httpd} {os : Nat → Os} (hi : Inv s)
    (hs : s.phase = .drain) (hq : QueueIs s q) (k : Nat) (hk : k < q.length)
    (hd : ¬DoneAt s q[k] (os (2 * k + 1))) : ¬TurnOk cfg l y s os := by
  rintro ⟨n, hloop, hbefore, hpolls⟩
  obtain ⟨hi', hs', hearly, hmore, hconns, r, hq'⟩ :=
    turn_reaches cfg l y os hi hs hq k (by omega)
  have hdrop : q.drop k = q[k] :: q.drop (k + 1) := List.drop_eq_getElem_cons hk
  rw [hdrop, List.cons_append] at hq'
  obtain ⟨hp, hpolled⟩ := two_steps cfg l y hi' hs' hq'
    (fun j => os (2 * k + j))
  rw [← after_add] at hp hpolled
  have hagain : ¬DoneAt (after (step cfg l y) s os (2 * k)) q[k] (os (2 * k + 1)) := by
    unfold DoneAt at hd ⊢
    rwa [hconns q[k] (by rw [hdrop]; exact List.mem_cons_self)]
  have hqueue := hpolled.again hagain
  have hpending : Pending q[k] (polls s q[k]) (after (step cfg l y) s os (2 * k + 2)) := by
    refine ⟨hpolled.inv, Or.inl hpolled.phase, Or.inl ⟨((hqueue.mem q[k]).mp (by simp)).1, ?_⟩⟩
    rw [hpolled.polls]
    have := hmore q[k]
    simp
    omega
  -- the turn cannot end before that poll
  have hn : 2 * k + 2 ≤ n := by
    rcases Nat.lt_or_ge n (2 * k + 2) with hlt | hge
    · exfalso
      rcases Nat.lt_or_ge n (2 * k) with hlt' | hge
      · exact hearly n hlt' hloop
      · rcases Nat.lt_or_ge n (2 * k + 1) with hlt' | hge'
        · obtain rfl : n = 2 * k := by omega
          simp [hs'] at hloop
        · obtain rfl : n = 2 * k + 1 := by omega
          simp [hp] at hloop
    · exact hge
  obtain ⟨m, rfl⟩ := Nat.exists_eq_add_of_le hn
  have hend := hpending.steps cfg l y (fun j => os (2 * k + 2 + j)) m
    (by
      intro j hj
      rw [← after_add]
      exact hbefore _ (by omega))
  rw [← after_add] at hend
  have hone := hpolls q[k]
  rcases hend with hend | hend
  · rcases hend.phase with hph | ⟨d, hph⟩ <;> simp [hph] at hloop
  · omega

/-! ## The law -/

/-- A turn of the drain loop ends and polls each connection once at most, exactly
when each queued connection has its response at its first poll, or that poll
returns zero or less. -/
theorem a_turn_polls_each_connection_once_iff (s : Httpd)
    (hi : Inv s) (hs : s.phase = .drain) (q : List ConnId) (hq : QueueIs s q) (os : Nat → Os) :
    TurnOk cfg l y s os ↔ ∀ k (hk : k < q.length), DoneAt s q[k] (os (2 * k + 1)) := by
  constructor
  · intro hok k hk
    by_contra hd
    exact turn_spoiled cfg l y hi hs hq k hk hd hok
  · intro hdone
    obtain ⟨hloop, hbefore, hcount⟩ := turn_ends cfg l y os hi hs hq hdone
    refine ⟨_, hloop, hbefore, fun c => ?_⟩
    rw [hcount c]
    have := List.nodup_iff_count_le_one.mp hq.nodup c
    omega

end Turn

/-- The drain loop with one request for `/` on the queue. -/
def oneQueued : Httpd :=
  run (step { maxConns := 12, hasHandler := true } rootLlhttp slashYuarel) (start 3)
    (acceptAt 5 ++ receiveAt (getRequest "/") ++ [Os.quiet])

theorem oneQueued_inv : Inv oneQueued := by
  have hok : StepsOk (step { maxConns := 12, hasHandler := true } rootLlhttp slashYuarel)
      (OneDispatch { maxConns := 12, hasHandler := true } rootLlhttp slashYuarel) (start 3)
      (acceptAt 5 ++ receiveAt (getRequest "/") ++ [Os.quiet]) := by decide +kernel
  exact (run_keeps (I := fun _ => True) (fun _ _ _ _ _ => trivial) trivial
    (hok.mono (fun _ _ => OneDispatch.stepOk))).1

theorem a_finished_request_ends_the_turn : ∃ q, QueueIs oneQueued q ∧
    TurnOk { maxConns := 12, hasHandler := true } rootLlhttp slashYuarel oneQueued
      (fun _ => Os.quiet) := by
  obtain ⟨q, hq⟩ := oneQueued_inv.queue
  exact ⟨q, hq, (a_turn_polls_each_connection_once_iff _ _ _ oneQueued oneQueued_inv
    (by decide +kernel) q hq _).mpr (fun _ _ => Or.inr (by decide))⟩

/-- A handler with a timer that never stops keeps the loop from going back to
the sockets. -/
theorem a_pending_timer_spoils_the_turn :
    ¬TurnOk { maxConns := 12, hasHandler := true } rootLlhttp slashYuarel oneQueued
      (fun _ => { Os.quiet with jsPoll := 1 }) := by
  obtain ⟨q, hq⟩ := oneQueued_inv.queue
  have hin : (0 : ConnId) ∈ q := (hq.mem 0).mpr (by decide +kernel)
  have hlen : 0 < q.length := List.length_pos_of_mem hin
  have hfirst : q[0] = 0 := by
    have hj := ((hq.mem q[0]).mp (List.getElem_mem hlen)).1
    have hborn := (oneQueued_inv.conns.born q[0]).not.mp
      (by simp [oneQueued_inv.conns.js _ hj])
    have hnext : oneQueued.nextConn = 1 := by decide +kernel
    rw [hnext] at hborn
    exact Nat.lt_one_iff.mp (Nat.not_le.mp hborn)
  apply turn_spoiled _ _ _ oneQueued_inv (by decide +kernel) hq 0 hlen
  rw [hfirst]
  have hopen : (oneQueued.conns 0).response.completed = false := by decide +kernel
  simp [DoneAt, hopen]

end isere.httpd
