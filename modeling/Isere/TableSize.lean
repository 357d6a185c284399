-- How large the table of watchers grows in src/internals/uv_poll.c. maybe_resize
-- asks for the next power of two over the descriptor, less the two entries that
-- libuv keeps behind the table, so the largest descriptor so far tells its size.
import Isere.PowersOfTwo
import Isere.ServerLoop

open intrusive powers runs Relation isere.tcp isere.uv

namespace isere.uv

variable {ω : Type}

/-- `next_power_of_two`, over all widths of an `unsigned int`. -/
theorem nextPowerOfTwo_eq {n : Nat} (h : 0 < n) (hn : n ≤ 2 ^ 32) :
    nextPowerOfTwo n = 2 ^ (n - 1).size := by
  have hsmeared := (((((smeared_start (n - 1)).double).double).double).double).double
  have hfull := hsmeared.full (by simp only [Nat.reduceAdd]; omega)
  have hpos : 0 < 2 ^ (n - 1).size := Nat.two_pow_pos _
  have hsum := congrArg (· + 1) hfull
  simp only [Nat.sub_add_cancel hpos] at hsum
  exact hsum

/-- The table has room for the descriptors below `len`, and is as small as that
allows. -/
def TableSize (len : Nat) (loop : UvLoop ω) : Prop := IsLeast (above (len + 2)) (loop.nwatchers + 2)

/-- The first table. -/
theorem maybeResize_empty {loop : UvLoop ω} (hempty : loop.nwatchers = 0) {len : Nat}
    (hlen : 0 < len) (hsmall : len + 2 ≤ 2 ^ 31) : TableSize len (maybeResize loop len) := by
  have hfirst := least_above (n := len + 2) (by omega)
  have heq := nextPowerOfTwo_eq (n := len + 2) (by omega) (by omega)
  have hge := le_nextPowerOfTwo (len + 2)
  unfold TableSize maybeResize
  rw [if_neg (by omega)]
  simp only
  rwa [Nat.sub_add_cancel (by omega), heq]

/-- A table that grows as needed. -/
theorem maybeResize_size {loop : UvLoop ω} {m len : Nat} (h : TableSize m loop)
    (hsmall : len + 2 ≤ 2 ^ 31) : TableSize (max m len) (maybeResize loop len) := by
  have hroom : m + 2 ≤ loop.nwatchers + 2 := h.1.2
  unfold TableSize maybeResize
  by_cases hlen : len ≤ loop.nwatchers
  · rw [if_pos hlen]
    exact least_above_mono h (by omega) (by omega)
  · have heq := nextPowerOfTwo_eq (n := len + 2) (by omega) (by omega)
    have hge := le_nextPowerOfTwo (len + 2)
    have hfirst := least_above (n := len + 2) (by omega)
    rw [if_neg hlen, Nat.max_eq_right (by omega)]
    simp only
    rwa [Nat.sub_add_cancel (by omega), heq]

variable [DecidableEq ω]

theorem uvIoStart_nwatchers (loop : UvLoop ω) (w : ω) (events : Events) :
    (uvIoStart loop w events).nwatchers =
      (maybeResize loop ((loop.io w).fd.toNat + 1)).nwatchers := by
  rw [uvIoStart_eq]

/-- A stop never shrinks the table. -/
theorem uvIoStop_size (loop : UvLoop ω) (w : ω) (events : Events) :
    (uvIoStop loop w events).nwatchers = loop.nwatchers := by
  unfold uvIoStop
  simp only
  split
  · rfl
  · split
    · rfl
    · split
      · split <;> rfl
      · split <;> rfl

end isere.uv

namespace isere.httpd

variable {cfg : Config} {l : Llhttp} {y : Yuarel} {serverfd : Nat} {s s1 s2 : Httpd}

/-- The descriptors that the task had a watcher for: that of the server, and those of
the connections so far. -/
def watchedFds (serverfd : Nat) (s : Httpd) : Set Nat :=
  {fd | fd = serverfd ∨ ∃ c < s.nextConn, (s.conns c).fd = fd}

/-- The largest of these descriptors tells the size of the table. -/
def Sized (serverfd : Nat) (s : Httpd) : Prop :=
  ∃ m, IsGreatest (watchedFds serverfd s) m ∧ TableSize (m + 1) s.loop

/-- A part of the task that neither grows the table nor makes a connection. -/
structure SameSize (s1 s2 : Httpd) : Prop where
  nwatchers : s2.loop.nwatchers = s1.loop.nwatchers
  nextConn : s2.nextConn = s1.nextConn
  fd : ∀ c, (s2.conns c).fd = (s1.conns c).fd

theorem SameSize.refl (s : Httpd) : SameSize s s := ⟨rfl, rfl, fun _ => rfl⟩

theorem SameSize.trans {s3 : Httpd} (h : SameSize s1 s2) (h2 : SameSize s2 s3) : SameSize s1 s3 :=
  ⟨h2.nwatchers.trans h.nwatchers, h2.nextConn.trans h.nextConn,
    fun c => (h2.fd c).trans (h.fd c)⟩

theorem Sized.same (h : Sized serverfd s1) (hs : SameSize s1 s2) : Sized serverfd s2 := by
  obtain ⟨m, hm, hsize⟩ := h
  have hfds : watchedFds serverfd s2 = watchedFds serverfd s1 := by
    unfold watchedFds
    simp only [hs.nextConn, hs.fd]
  refine ⟨m, hfds ▸ hm, ?_⟩
  unfold TableSize
  rw [hs.nwatchers]
  exact hsize

theorem cleanup_sameSize (s : Httpd) (c : ConnId) : SameSize s (httpdCleanupConn s c) := by
  refine ⟨?_, cleanup_nextConn s c, fun d => ?_⟩
  · rw [cleanup_loop, uvIoStop_size]
  · rw [cleanup_conns]
    split
    · rename_i hd
      rw [hd]
    · rfl

theorem callback_sameSize (cfg : Config) (y : Yuarel) (c : ConnId) (os : Os) (s : Httpd)
    (cb : Callback) : SameSize s (onCallback cfg y c os s cb) := by
  by_cases hcb : cb = .messageComplete
  · subst hcb
    have hstop : SameSize s (stopReading s c) :=
      ⟨by rw [stopReading_loop, uvIoStop_size], rfl, fun _ => rfl⟩
    cases hd : cfg.dispatches (s.conns c).req with
    | true =>
      rw [onCallback_dispatch cfg y c os s hd]
      refine hstop.trans ⟨rfl, rfl, fun d => ?_⟩
      rw [log_conns, dispatch_conns]
      split
      · rename_i heq
        rw [heq]
      · rfl
    | false =>
      obtain ⟨a, -, heq⟩ := onCallback_answer cfg y c os s hd
      rw [heq]
      have hlog : SameSize s ((stopReading s c).log (.wrote c a)) :=
        hstop.trans ⟨rfl, rfl, fun _ => rfl⟩
      exact (hlog.trans (cleanup_sameSize _ c)).trans ⟨rfl, rfl, fun _ => rfl⟩
  · have hsame := piece_conns cfg y c os s hcb
    rw [onCallback_piece cfg y c os s hcb] at hsame ⊢
    exact ⟨rfl, rfl, fun d => (hsame d).2.2⟩

/-- A poll of a connection keeps the table as large as it is. -/
theorem onPoll_sameSize (cfg : Config) (l : Llhttp) (y : Yuarel) (s : Httpd) (c : ConnId)
    (events : Events) (os : Os) : SameSize s (onPoll cfg l y s c events os) := by
  refine star_inv (I := SameSize s) ?_ (onPoll_moves cfg l y s c events os) (SameSize.refl s)
  intro s1 s2 hkept hmove
  refine hkept.trans ?_
  cases hmove with
  | logged _ => exact ⟨rfl, rfl, fun _ => rfl⟩
  | cleaned => exact cleanup_sameSize s1 c
  | fed chunk => exact ⟨rfl, rfl, fun d => (fed_conns s1 c chunk d).2.2⟩
  | callback cb => exact callback_sameSize cfg y c os s1 cb

theorem pollingStep_sameSize (s : Httpd) (c : ConnId) (os : Os) :
    SameSize s (pollingStep s c os) := by
  have hpolled : SameSize s (polledJs s c os) := by
    refine ⟨rfl, rfl, fun d => ?_⟩
    exact (polledJs_conns s c d os).2.2
  rcases pollingStep_cases s c os with ⟨-, -, heq⟩ | ⟨-, -, heq⟩ | heq
  · rw [heq]
    exact hpolled.trans (cleanup_sameSize _ c)
  · rw [heq]
    exact hpolled.trans ⟨rfl, rfl, fun _ => rfl⟩
  · rw [heq]
    have hlog : SameSize s ((polledJs s c os).log
        (.wrote c (httpdWriteback ((polledJs s c os).conns c).response))) :=
      hpolled.trans ⟨rfl, rfl, fun _ => rfl⟩
    exact hlog.trans (cleanup_sameSize _ c)

/-- An accept grows the table for its descriptor, if there is no room for it. -/
theorem Sized.accept (h : Sized serverfd s) {fd : Int} (hfd : 0 ≤ fd) (hsmall : fd + 3 ≤ 2 ^ 31) :
    Sized serverfd (addConn s fd) := by
  obtain ⟨m, hm, hsize⟩ := h
  obtain ⟨n, rfl⟩ := Int.eq_ofNat_of_zero_le hfd
  have hfds : watchedFds serverfd (addConn s n) = insert n (watchedFds serverfd s) := by
    ext k
    simp only [watchedFds, addConn_nextConn, Set.mem_ofPred_eq, Set.mem_insert_iff]
    constructor
    · rintro (rfl | ⟨c, hc, hk⟩)
      · exact Or.inr (Or.inl rfl)
      · by_cases hnew : c = s.nextConn
        · subst hnew
          rw [addConn_conns_self] at hk
          exact Or.inl (Int.ofNat.inj hk).symm
        · rw [addConn_conns_other s hnew] at hk
          exact Or.inr (Or.inr ⟨c, Nat.lt_of_le_of_ne (Nat.le_of_lt_succ hc) hnew, hk⟩)
    · rintro (rfl | rfl | ⟨c, hc, hk⟩)
      · exact Or.inr ⟨s.nextConn, Nat.lt_succ_self _, by rw [addConn_conns_self]; rfl⟩
      · exact Or.inl rfl
      · refine Or.inr ⟨c, Nat.lt_succ_of_lt hc, ?_⟩
        rw [addConn_conns_other s (Nat.ne_of_lt hc)]
        exact hk
  refine ⟨max n m, hfds ▸ hm.insert n, ?_⟩
  have hmax : max (m + 1) (n + 1) = max n m + 1 := by omega
  have hwatched : TableSize (m + 1) (s.loop.setIo (.conn s.nextConn)
      { pevents := 0, events := 0, fd := n }) := hsize
  have hgrown : TableSize (max n m + 1) (maybeResize _ (n + 1)) :=
    hmax ▸ maybeResize_size hwatched (by omega)
  unfold TableSize at hgrown ⊢
  simpa [addConn, uvIoStart_nwatchers, UvLoop.setIo] using hgrown

theorem Sized.step (h : Sized serverfd s) (os : Os) (hsmall : AcceptsSmall os) :
    Sized serverfd (step cfg l y s os) := by
  unfold httpd.step
  cases hphase : s.phase with
  | loop =>
    simp only
    split
    · exact h.same ⟨uvIoStop_size s.loop .server UV_POLLIN, rfl, fun _ => rfl⟩
    · obtain ⟨loop, p, heq, hsame, -⟩ := pollStep_moves cfg s os
      rw [heq]
      exact h.same ⟨hsame.nwatchers, rfl, fun _ => rfl⟩
  | iterating i =>
    simp only
    unfold slotStep
    split
    · exact h.same ⟨rfl, rfl, fun _ => rfl⟩
    · have hslot : Sized serverfd
          { s with loop := (uvPollSlot s.loop i).1, phase := .iterating (i + 1) } :=
        h.same ⟨(uvPollSlot_same s.loop i).nwatchers, rfl, fun _ => rfl⟩
      simp only
      split
      · exact hslot
      · rename_i events _
        rcases onConnected_cases cfg { s with
            loop := (uvPollSlot s.loop i).1, phase := .iterating (i + 1) } events os with
          heq | ⟨-, hfd, heq⟩
        · rw [heq]
          exact hslot
        · rw [heq]
          exact hslot.accept hfd hsmall
      · exact hslot.same (onPoll_sameSize cfg l y _ _ _ os)
  | drain =>
    obtain ⟨q, p, heq, -⟩ := drainStep_moves s
    simp only [heq]
    exact h.same ⟨rfl, rfl, fun _ => rfl⟩
  | polling c => exact h.same (pollingStep_sameSize s c os)
  | exited => exact h

theorem start_sized (hserver : (serverfd : Int) + 3 ≤ 2 ^ 31) :
    Sized serverfd (start serverfd) := by
  have hfds : watchedFds serverfd (start serverfd) = {serverfd} := by
    ext k
    simp [watchedFds, start]
  refine ⟨serverfd, hfds ▸ isGreatest_singleton, ?_⟩
  have hfirst : TableSize (serverfd + 1)
      (maybeResize (uvPlatformLoopInit (startIo serverfd)) (serverfd + 1)) :=
    maybeResize_empty rfl (by omega) (by omega)
  unfold TableSize at hfirst ⊢
  simpa [start, uvIoStart_nwatchers, uvPlatformLoopInit, startIo] using hfirst

/-! ## The law -/

/-- In every run with small descriptors, the table of watchers and its two entries
more are the first power of two that has room for the largest descriptor so far. -/
theorem the_table_fits_the_largest_descriptor (cfg : Config) (l : Llhttp) (y : Yuarel)
    (serverfd : Nat) (is : List Os) (hserver : (serverfd : Int) + 3 ≤ 2 ^ 31)
    (hsmall : ∀ os ∈ is, AcceptsSmall os) :
    ∃ m, IsGreatest (watchedFds serverfd (run (step cfg l y) (start serverfd) is)) m ∧
      IsLeast {p | (∃ k, p = 2 ^ k) ∧ m + 3 ≤ p}
        ((run (step cfg l y) (start serverfd) is).loop.nwatchers + 2) :=
  run_inv (I := Sized serverfd) (fun _ os h hok => h.step os hok) (start_sized hserver)
    (StepsOk.of_forall hsmall)

theorem a_client_on_five_needs_six_entries :
    ∃ m, IsGreatest (watchedFds 3 (run (step { maxConns := 12, hasHandler := true } rootLlhttp
        slashYuarel) (start 3) comeAndGo)) m ∧
      IsLeast {p | (∃ k, p = 2 ^ k) ∧ m + 3 ≤ p}
        ((run (step { maxConns := 12, hasHandler := true } rootLlhttp slashYuarel) (start 3)
          comeAndGo).loop.nwatchers + 2) :=
  the_table_fits_the_largest_descriptor _ rootLlhttp slashYuarel 3 comeAndGo (by decide)
    (by decide +kernel)

end isere.httpd
