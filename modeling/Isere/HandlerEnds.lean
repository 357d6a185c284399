-- What becomes of the requests that went to a handler, in runs without an end. The
-- task comes to the drain loop after each poll of the sockets, and there the turn of
-- each connection comes again and again, whatever the other handlers do.
import Isere.DrainOrder
import Isere.Sessions
import Isere.Sockets
import Isere.StaleEvents

open cstring intrusive isere.tcp isere.uv runs Relation

namespace isere.httpd

/-- The handler of a connection comes to an end: after so many polls of its own, each
poll of the connection is the last. -/
def HandlerEnds (t : Nat → Httpd) (os : Nat → Os) (c : ConnId) : Prop :=
  ∃ limit, ∀ n, (t n).phase = .polling c → limit ≤ polls (t n) c → DoneAt (t n) c (os n)

/-- What the task knows while a request is with its handler: there is a handler,
and the drain loop comes before the next poll of the sockets. -/
def Waiting (cfg : Config) (s : Httpd) : Prop :=
  ∀ c, (s.conns c).jsInitialized = true →
    cfg.hasHandler = true ∧ s.phase ≠ .loop ∧ s.phase ≠ .exited

/-! ## The slots of a poll -/

theorem uvPollfdsDelFrom_length (fd : Int) (fds : List PollFd) (i : Nat) :
    (uvPollfdsDelFrom fd fds i).length ≤ fds.length := by
  fun_induction uvPollfdsDelFrom fd fds i with
  | case1 fds i hi hfd fds' hgone ih =>
    refine Nat.le_trans ih ?_
    simp [fds']
  | case2 fds i hi hfd fds' hgone => simp [fds']
  | case3 fds i hi hfd ih => exact ih
  | case4 fds i hi => exact Nat.le_refl _

/-- A slot adds no slot. -/
theorem uvPollSlot_length {ω : Type} [DecidableEq ω] (loop : UvLoop ω) (i : Nat) :
    (uvPollSlot loop i).1.pollFds.length ≤ loop.pollFds.length := by
  unfold uvPollSlot
  split
  · exact Nat.le_refl _
  · split
    · exact Nat.le_refl _
    · split
      · simp only [uvPlatformInvalidateFd, uvPollfdsDel]
        split
        · simp
        · exact uvPollfdsDelFrom_length _ _ _
      · simp

/-! ## The steps that keep it -/

section Step

variable {cfg : Config} {l : Llhttp} {y : Yuarel}

theorem onPoll_handed {s : Httpd} {c d : ConnId} {events : Events} {os : Os}
    (hj : ((onPoll cfg l y s c events os).conns d).jsInitialized = true) :
    (s.conns d).jsInitialized = true ∨ cfg.hasHandler = true := by
  revert hj
  refine star_inv (I := fun s' => (s'.conns d).jsInitialized = true →
    (s.conns d).jsInitialized = true ∨ cfg.hasHandler = true) ?_
    (onPoll_moves cfg l y s c events os) Or.inl
  intro s1 s2 h hmove
  cases hmove with
  | logged _ => exact h
  | cleaned =>
    intro hj
    by_cases hd : d = c
    · simp [hd] at hj
    · exact h (by rwa [cleanup_conns_other s1 hd] at hj)
  | fed chunk =>
    intro hj
    exact h (by rwa [(fed_conns s1 c chunk d).2.1] at hj)
  | callback cb =>
    intro hj
    by_cases hcb : cb = .messageComplete
    · subst hcb
      cases hdis : cfg.dispatches (s1.conns c).req with
      | true =>
        simp only [Config.dispatches, Bool.and_eq_true] at hdis
        exact Or.inr hdis.1
      | false =>
        obtain ⟨a, -, heq⟩ := onCallback_answer cfg y c os s1 hdis
        rw [heq] at hj
        by_cases hd : d = c
        · simp [hd] at hj
        · exact h (by simpa [hd] using hj)
    · exact h (by rwa [(piece_conns cfg y c os s1 hcb d).2.1] at hj)

theorem onConnected_handed {s : Httpd} {d : ConnId} {events : Events} {os : Os}
    (hj : ((onConnected cfg s events os).conns d).jsInitialized = true) :
    (s.conns d).jsInitialized = true := by
  rcases onConnected_cases cfg s events os with h | ⟨-, -, h⟩
  · rwa [h] at hj
  · rw [h] at hj
    by_cases hd : d = s.nextConn
    · simp [hd, HttpdConn.initial] at hj
    · rwa [addConn_conns_other s hd] at hj

/-- A poll of the sockets leads to the drain loop, if there is a handler. -/
theorem afterPoll_handler (h : cfg.hasHandler = true) : afterPoll cfg = .drain := by
  simp [afterPoll, h]

theorem step_waiting {s : Httpd} {os : Os} (hi : Inv s) (h : Waiting cfg s) :
    Waiting cfg (step cfg l y s os) := by
  intro c
  unfold step
  cases hs : s.phase with
  | loop =>
    have hnone : (s.conns c).jsInitialized ≠ true := fun hj => (h c hj).2.1 hs
    simp only
    split
    · exact fun hj => absurd hj hnone
    · obtain ⟨loop, p, heq, -, -⟩ := pollStep_moves cfg s os
      rw [heq]
      exact fun hj => absurd hj hnone
  | iterating i =>
    intro hj
    simp only at hj ⊢
    unfold slotStep at hj ⊢
    split at hj
    · have hhandler := (h c hj).1
      rw [if_pos ‹_›]
      simp [afterPoll_handler hhandler, hhandler]
    · rw [if_neg ‹_›]
      simp only at hj ⊢
      cases hcall : (uvPollSlot s.loop i).2 with
      | none =>
        rw [hcall] at hj
        exact ⟨(h c hj).1, by simp, by simp⟩
      | some r =>
        obtain ⟨w, events⟩ := r
        rw [hcall] at hj
        cases w with
        | server =>
          simp only at hj ⊢
          rw [onConnected_phase]
          have hbefore : (s.conns c).jsInitialized = true := onConnected_handed (s := { s with
            loop := (uvPollSlot s.loop i).1, phase := .iterating (i + 1) }) hj
          exact ⟨(h c hbefore).1, by simp, by simp⟩
        | conn d =>
          simp only at hj ⊢
          rw [onPoll_phase]
          refine ⟨?_, by simp, by simp⟩
          rcases onPoll_handed hj with hj | hhandler
          · exact (h c hj).1
          · exact hhandler
  | drain =>
    obtain ⟨q, hq⟩ := hi.queue
    cases q with
    | nil =>
      intro hj
      simp only [drainStep_empty hq] at hj
      exact absurd ((hq.mem c).mpr ⟨hj, by simp [hs]⟩) (by simp)
    | cons d q =>
      simp only [drainStep_take hi hq]
      exact fun hj => ⟨(h c hj).1, by simp, by simp⟩
  | polling d =>
    intro hj
    simp only at hj ⊢
    obtain ⟨hphase, hother, -⟩ := pollingStep_frame s d os
    rw [hphase]
    refine ⟨?_, by simp, by simp⟩
    by_cases hd : c = d
    · subst hd
      obtain ⟨q, hq⟩ := hi.queue
      exact (h c (hq.taken c hs).1).1
    · rw [hother c hd] at hj
      exact (h c hj).1
  | exited => exact fun hj => absurd hs (h c hj).2.2

/-- A connection that reads no more has no turn but its polls in the drain loop. -/
theorem no_turn {s : Httpd} {c : ConnId} (hi : Inv s) (hborn : (s.conns c).life ≠ .fresh)
    (hread : ¬Reading s c) (hs : s.phase ≠ .polling c) (os : Os) : turnOf cfg c s os = none := by
  unfold turnOf
  cases hphase : s.phase with
  | loop => rfl
  | drain => rfl
  | exited => rfl
  | polling d =>
    simp only
    rw [if_neg]
    rintro rfl
    exact hs hphase
  | iterating i =>
    simp only
    cases hcall : (uvPollSlot s.loop i).2 with
    | none => rfl
    | some r =>
      obtain ⟨w, events⟩ := r
      cases w with
      | server =>
        simp only
        rw [if_neg]
        rintro ⟨rfl, -⟩
        exact hborn hi.conns.next_fresh.1
      | conn d =>
        simp only
        rw [if_neg]
        rintro rfl
        obtain ⟨pe, -, -, hw⟩ := uvPollSlot_calls hcall
        exact hread (hi.conns.watched _ d hw)

/-- A request stays with its handler until its connection is polled. -/
theorem handed_step {s : Httpd} {c : ConnId} (hi : Inv s) (hj : (s.conns c).jsInitialized = true)
    (hs : s.phase ≠ .polling c) (os : Os) :
    ((step cfg l y s os).conns c).jsInitialized = true := by
  have hlive := hi.conns.js c hj
  rw [conns_of_no_turn (no_turn hi (by simp [hlive]) (fun hr => by simp [hr.2] at hj) hs os)]
  exact hj

/-- A connection that is gone stays gone. -/
theorem gone_step {s : Httpd} {c : ConnId} (hi : Inv s) (hgone : (s.conns c).life = .cleaned)
    (os : Os) : ((step cfg l y s os).conns c).life = .cleaned := by
  have hs : s.phase ≠ .polling c := by
    intro hs
    simp [hi.taken_live hs] at hgone
  rw [conns_of_no_turn (no_turn hi (by simp [hgone]) (fun hr => by simp [hr.1] at hgone) hs os)]
  exact hgone

/-- The history only grows, and so do the polls. -/
theorem polls_step (s : Httpd) (c : ConnId) (os : Os) :
    polls s c ≤ polls (step cfg l y s os) c := by
  obtain ⟨es, hes⟩ := step_grows cfg l y s os
  unfold polls
  rw [← hes, List.countP_append]
  exact Nat.le_add_right _ _

end Step

/-! ## Runs without an end -/

section Stream

variable (cfg : Config) (l : Llhttp) (y : Yuarel) (serverfd : Nat) (os : Nat → Os)

/-- What holds in all states of a run. -/
structure Known (cfg : Config) (s : Httpd) : Prop where
  inv : Inv s
  waiting : Waiting cfg s
  handler : HandlerKnown s

theorem start_known : Known cfg (start serverfd) where
  inv := start_inv serverfd
  waiting c hj := by simp [start, HttpdConn.fresh, HttpdConn.initial] at hj
  handler c _ := by simp [start, HttpdConn.fresh, HttpdConn.initial, Dispatched]

variable {cfg l y} in
theorem step_known {s : Httpd} {os : Os} (h : Known cfg s) (hone : OneDispatch cfg l y s os) :
    Known cfg (step cfg l y s os) := by
  obtain ⟨hi, hknown⟩ := step_keeps (I := HandlerKnown)
    (fun _ _ hi h htrans => trans_handlerKnown hi h htrans) h.inv h.handler hone.stepOk
  exact ⟨hi, step_waiting h.inv h.waiting, hknown⟩

variable {cfg l y serverfd os} {t : Nat → Httpd}

/-- A run without an end: what is known holds in each state, and each state is a step from the one
before. -/
structure Endless (cfg : Config) (l : Llhttp) (y : Yuarel) (os : Nat → Os) (t : Nat → Httpd) :
    Prop where
  known : ∀ n, Known cfg (t n)
  next : ∀ n, t (n + 1) = step cfg l y (t n) (os n)

theorem endless (h : ∀ n, OneDispatch cfg l y (after (step cfg l y) (start serverfd) os n) (os n)) :
    Endless cfg l y os (after (step cfg l y) (start serverfd) os) where
  known n := by
    induction n with
    | zero => exact start_known cfg serverfd
    | succ n ih => exact step_known ih (h n)
  next n := rfl

variable (h : Endless cfg l y os t)
include h

theorem Endless.from_state (n m : Nat) :
    runs.after (step cfg l y) (t n) (fun k => os (n + k)) m = t (n + m) := by
  induction m with
  | zero => rfl
  | succ m ih => rw [runs.after, ih, ← Nat.add_assoc, h.next]

theorem Endless.gone {n m : Nat} {c : ConnId} (hgone : ((t n).conns c).life = .cleaned)
    (hnm : n ≤ m) : ((t m).conns c).life = .cleaned := by
  induction m, hnm using Nat.le_induction with
  | base => exact hgone
  | succ m _ ih =>
    rw [h.next]
    exact gone_step (h.known m).inv ih _

theorem Endless.polls_le {n m : Nat} {c : ConnId} (hnm : n ≤ m) :
    polls (t n) c ≤ polls (t m) c := by
  induction m, hnm using Nat.le_induction with
  | base => exact Nat.le_refl _
  | succ m _ ih =>
    rw [h.next]
    exact Nat.le_trans ih (polls_step _ c _)

theorem Endless.handed {n : Nat} {c : ConnId} (hj : ((t n).conns c).jsInitialized = true)
    (hs : (t n).phase ≠ .polling c) : ((t (n + 1)).conns c).jsInitialized = true := by
  rw [h.next]
  exact handed_step (h.known n).inv hj hs _

/-! ## The turn of a connection comes -/

/-- In the drain loop. -/
theorem Endless.drained {n : Nat} {c : ConnId} (hs : (t n).phase = .drain)
    (hj : ((t n).conns c).jsInitialized = true) : ∃ m, n ≤ m ∧ (t m).phase = .polling c := by
  obtain ⟨q, hq⟩ := (h.known n).inv.queue
  have hc : c ∈ q := (hq.mem c).mpr ⟨hj, by simp [hs]⟩
  obtain ⟨k, hk, rfl⟩ := List.getElem_of_mem hc
  obtain ⟨hi, hphase, -, -, -, r, hr⟩ := turn_reaches cfg l y (fun j => os (n + j))
    (h.known n).inv hs hq k (Nat.le_of_lt hk)
  rw [List.drop_eq_getElem_cons hk, List.cons_append] at hr
  have htake := (two_steps cfg l y hi hphase hr (fun j => os (n + 2 * k + j))).1
  rw [h.from_state] at htake
  rw [h.from_state] at htake
  exact ⟨n + 2 * k + 1, by omega, htake⟩

/-- After the last slot. -/
theorem Endless.over {n i : Nat} {c : ConnId} (hs : (t n).phase = .iterating i)
    (hi : (t n).loop.pollFds.length ≤ i) (hj : ((t n).conns c).jsInitialized = true) :
    (t (n + 1)).phase = .drain ∧ ((t (n + 1)).conns c).jsInitialized = true := by
  refine ⟨?_, h.handed hj (by simp [hs])⟩
  rw [h.next, step, hs]
  simp only [slotStep]
  rw [if_pos hi]
  exact afterPoll_handler ((h.known n).waiting c hj).1

/-- The poll of the sockets comes to its end. -/
theorem Endless.polled {n i k : Nat} {c : ConnId} (hs : (t n).phase = .iterating i)
    (hk : (t n).loop.pollFds.length ≤ i + k) (hj : ((t n).conns c).jsInitialized = true) :
    ∃ m, n ≤ m ∧ (t m).phase = .drain ∧ ((t m).conns c).jsInitialized = true := by
  induction k generalizing n i with
  | zero => exact ⟨n + 1, by omega, h.over hs hk hj⟩
  | succ k ih =>
    rcases Nat.lt_or_ge i (t n).loop.pollFds.length with hi | hi
    · obtain ⟨hphase, hrun, -⟩ := slot_turn cfg l y hs hi (os n)
      rw [← h.next] at hphase hrun
      have hlen := uvPollSlot_length (t n).loop i
      rw [← (watcherRun_slots hrun).1] at hlen
      obtain ⟨m, hm, hdrain⟩ := ih hphase (by omega) (h.handed hj (by simp [hs]))
      exact ⟨m, by omega, hdrain⟩
    · exact ⟨n + 1, by omega, h.over hs hi hj⟩

/-- From any state of a run, the turn of a request that is with its handler comes. -/
theorem Endless.turn {n : Nat} {c : ConnId} (hj : ((t n).conns c).jsInitialized = true) :
    ∃ m, n ≤ m ∧ (t m).phase = .polling c := by
  cases hs : (t n).phase with
  | loop => exact absurd hs ((h.known n).waiting c hj).2.1
  | exited => exact absurd hs ((h.known n).waiting c hj).2.2
  | drain => exact h.drained hs hj
  | iterating i =>
    obtain ⟨m, hm, hdrain, hj⟩ := h.polled hs (Nat.le_add_left _ i) hj
    obtain ⟨m', hm', hpolling⟩ := h.drained hdrain hj
    exact ⟨m', by omega, hpolling⟩
  | polling d =>
    by_cases hd : d = c
    · exact ⟨n, Nat.le_refl n, hd ▸ hs⟩
    · have hdrain : (t (n + 1)).phase = .drain := by
        rw [h.next, step, hs]
        exact (pollingStep_frame (t n) d (os n)).1
      obtain ⟨m, hm, hpolling⟩ := h.drained hdrain (h.handed hj (by simp [hs, hd]))
      exact ⟨m, by omega, hpolling⟩

/-! ## The end of a request -/

/-- A poll is the last one of its connection, or counts. -/
theorem Endless.poll {n : Nat} {c : ConnId} (hs : (t n).phase = .polling c) :
    polls (t (n + 1)) c = polls (t n) c + 1 ∧
      if DoneAt (t n) c (os n) then ((t (n + 1)).conns c).life = .cleaned
      else ((t (n + 1)).conns c).jsInitialized = true := by
  have hstep : t (n + 1) = pollingStep (t n) c (os n) := by rw [h.next, step, hs]
  rw [hstep]
  refine ⟨by simp [(pollingStep_frame (t n) c (os n)).2.2 c], ?_⟩
  split
  · rename_i hdone
    exact pollingStep_cleaned hdone
  · rename_i hgoes
    obtain ⟨q, hq⟩ := (h.known n).inv.queue
    exact ((pollingStep_again hq hs hgoes).mem c).mp (by simp) |>.1

theorem Endless.cleaned {n k limit : Nat} {c : ConnId}
    (hends : ∀ n, (t n).phase = .polling c → limit ≤ polls (t n) c → DoneAt (t n) c (os n))
    (hk : limit ≤ polls (t n) c + k) (hj : ((t n).conns c).jsInitialized = true) :
    ∃ m, ((t m).conns c).life = .cleaned := by
  -- on the polls that are left: each of them is the last one, or one less is left
  induction k generalizing n with
  | zero =>
    obtain ⟨m, hm, hs⟩ := h.turn hj
    have hlast := (h.poll hs).2
    rw [if_pos (hends m hs (Nat.le_trans hk (h.polls_le hm)))] at hlast
    exact ⟨m + 1, hlast⟩
  | succ k ih =>
    obtain ⟨m, hm, hs⟩ := h.turn hj
    obtain ⟨hone, hlast⟩ := h.poll hs
    have hmore := h.polls_le (c := c) hm
    by_cases hdone : DoneAt (t m) c (os m)
    · rw [if_pos hdone] at hlast
      exact ⟨m + 1, hlast⟩
    · rw [if_neg hdone] at hlast
      exact ih (by omega) hlast

/-- A connection that is gone had its last poll. -/
theorem Endless.ends {m : Nat} {c : ConnId} (hgone : ((t m).conns c).life = .cleaned) :
    HandlerEnds t os c := by
  refine ⟨polls (t m) c, fun n hs hle => ?_⟩
  have hlive := (h.known n).inv.taken_live hs
  rcases Nat.lt_or_ge n m with hlt | hge
  · have hmore := h.polls_le (c := c) (show n + 1 ≤ m by omega)
    have hone := (h.poll hs).1
    omega
  · simp [h.gone hgone hge] at hlive

end Stream

/-! ## The law -/

/-- In every run without an end in which no call of llhttp sends a second message of
its connection to the handler: a request that went to the handler comes to its end
just if its own handler does, from whatever state, and whatever the other clients and
their handlers do. -/
theorem a_request_ends_iff_its_handler_does (cfg : Config) (l : Llhttp) (y : Yuarel)
    (serverfd : Nat) (os : Nat → Os)
    (hone : ∀ n, OneDispatch cfg l y (after (step cfg l y) (start serverfd) os n) (os n)) (n : Nat)
    (c : ConnId) (hc : Dispatched (after (step cfg l y) (start serverfd) os n) c) :
    (∃ m, ((after (step cfg l y) (start serverfd) os m).conns c).life = .cleaned) ↔
      HandlerEnds (after (step cfg l y) (start serverfd) os) os c := by
  have h := endless hone
  constructor
  · rintro ⟨m, hgone⟩
    exact h.ends hgone
  · rintro ⟨limit, hends⟩
    by_cases hgone : ((after (step cfg l y) (start serverfd) os n).conns c).life = .cleaned
    · exact ⟨n, hgone⟩
    · exact h.cleaned hends (Nat.le_add_left limit _) (((h.known n).handler c hgone).mpr hc)

/-- A client sends a request for `/`, and nothing happens after that. -/
def oneRequest (n : Nat) : Os := ((acceptAt 5 ++ receiveAt (getRequest "/"))[n]?).getD Os.quiet

theorem one_request_comes_to_its_end :
    ∃ m, ((after (step { maxConns := 12, hasHandler := true } rootLlhttp slashYuarel) (start 3)
      oneRequest m).conns 0).life = .cleaned := by
  have hone : ∀ n, OneDispatch { maxConns := 12, hasHandler := true } rootLlhttp slashYuarel
      (after (step { maxConns := 12, hasHandler := true } rootLlhttp slashYuarel) (start 3)
        oneRequest n) (oneRequest n) := by
    intro n
    rcases Nat.lt_or_ge n 7 with hn | hn
    · revert n
      decide +kernel
    · have hquiet : oneRequest n = Os.quiet := by
        rw [oneRequest, List.getElem?_eq_none (by simpa [acceptAt, receiveAt] using hn)]
        rfl
      rw [hquiet]
      intro k hk
      simp [parserCall, Os.quiet] at hk
  have hdone : ∀ n, (oneRequest n).jsPoll ≤ 0 := by
    intro n
    unfold oneRequest
    cases hos : (acceptAt 5 ++ receiveAt (getRequest "/"))[n]? with
    | none => decide
    | some os =>
      have hall : ∀ os ∈ acceptAt 5 ++ receiveAt (getRequest "/"), os.jsPoll ≤ 0 := by decide
      exact hall os (List.mem_of_getElem? hos)
  refine (a_request_ends_iff_its_handler_does _ _ _ _ _ hone 7 0 ?_).mpr
    ⟨0, fun n _ _ => Or.inr (hdone n)⟩
  refine ⟨{ method := ascii "GET", path := some [], query := none, headers := [], body := [] }, ?_⟩
  decide +kernel

end isere.httpd
