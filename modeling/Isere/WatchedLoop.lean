-- The table of watchers, the queue and the poll slots of the event loop
-- together: the table is counted, each watcher in it waits in the queue or has
-- its slot, and no descriptor has two slots.
import Isere.WatcherTable
import Mathlib.Data.Set.Card

namespace isere.uv

variable {ω : Type}

/-- The descriptors that have a watcher. -/
def UvLoop.watched (loop : UvLoop ω) : Set Nat := {fd | loop.watchers fd ≠ none}

/-- The watcher has the slot of the descriptor, with the events it asks for. -/
def Placed (loop : UvLoop ω) (fd : Nat) (w : ω) : Prop :=
  ∃ pe ∈ loop.pollFds, pe.fd = fd ∧ pe.events = (loop.io w).pevents

/-- The tables of the loop agree, while the watchers of `q` wait for a slot. -/
structure LoopOk (mask : Events) (loop : UvLoop ω) (q : List ω) : Prop where
  table : TableOk mask loop
  counted : loop.watched.encard = loop.nfds
  single : ∀ fd : Int, 0 ≤ fd → (loop.pollFds.map PollFd.fd).count fd ≤ 1
  inside : ∀ pe ∈ loop.pollFds, pe.fd = -1 ∨ (0 ≤ pe.fd ∧ pe.fd < loop.nwatchers)
  placed : ∀ fd w, loop.watchers fd = some w → w ∈ q ∨ Placed loop fd w
  queued : ∀ w ∈ q, ∃ fd, loop.watchers fd = some w
  nodup : q.Nodup
  asks : ∀ fd w, loop.watchers fd = some w → (loop.io w).pevents ≠ 0

variable {mask : Events} {loop loop' : UvLoop ω} {q : List ω}

theorem LoopOk.queued_fd (h : LoopOk mask loop q) {w : ω} (hw : w ∈ q) :
    (loop.io w).pevents ≠ 0 ∧ 0 ≤ (loop.io w).fd ∧ (loop.io w).fd < loop.nwatchers := by
  obtain ⟨fd, hfd⟩ := h.queued w hw
  have h1 := h.table.fd_eq fd w hfd
  have h2 := h.table.fd_lt fd w hfd
  refine ⟨h.asks fd w hfd, ?_, ?_⟩ <;> omega

/-- The count of the entries of the table, as far as it goes. -/
theorem LoopOk.nfds_eq (h : LoopOk mask loop q) : loop.nfds =
    ((Finset.range loop.nwatchers).filter (fun fd => (loop.watchers fd).isSome)).card := by
  have hset : loop.watched =
      ↑((Finset.range loop.nwatchers).filter (fun fd => (loop.watchers fd).isSome)) := by
    ext fd
    simp only [UvLoop.watched, Set.mem_ofPred_eq, Finset.coe_filter, Finset.mem_range,
      Option.isSome_iff_ne_none, ne_eq, iff_and_self]
    intro hne
    obtain ⟨w, hw⟩ := Option.ne_none_iff_exists'.mp hne
    exact h.table.fd_lt fd w hw
  have hcard := h.counted
  rw [hset, Set.encard_coe_eq_coe_finsetCard] at hcard
  exact_mod_cast hcard.symm

/-- A watcher in the table is counted. -/
theorem LoopOk.counts (h : LoopOk mask loop q) {fd : Nat} {w : ω}
    (hw : loop.watchers fd = some w) : 0 < loop.nfds := by
  rw [h.nfds_eq, Finset.card_pos]
  refine ⟨fd, ?_⟩
  simp [hw, h.table.fd_lt fd w hw]

/-- No more watchers wait than there are in the table. -/
theorem LoopOk.queue_le (h : LoopOk mask loop q) : q.length ≤ loop.nfds := by
  have hentry : ∀ w ∈ q, loop.watchers (loop.io w).fd.toNat = some w := by
    intro w hw
    obtain ⟨fd, hfd⟩ := h.queued w hw
    rwa [h.table.fd_eq fd w hfd]
  have hnodup : (q.map (fun w => (loop.io w).fd.toNat)).Nodup := by
    refine h.nodup.map_on (fun w hw w' hw' he => ?_)
    have hsame := hentry w' hw'
    rw [← he, hentry w hw] at hsame
    exact Option.some.inj hsame
  rw [h.nfds_eq, ← List.length_map (fun w => (loop.io w).fd.toNat),
    ← List.toFinset_card_of_nodup hnodup]
  refine Finset.card_le_card (fun fd hfd => ?_)
  obtain ⟨w, hw, rfl⟩ := List.mem_map.mp (List.mem_toFinset.mp hfd)
  rw [Finset.mem_filter, Finset.mem_range, hentry w hw]
  exact ⟨h.table.fd_lt _ w (hentry w hw), rfl⟩

/-- With nothing in the table, nothing waits. -/
theorem LoopOk.queue_nil (h : LoopOk mask loop q) (hn : loop.nfds = 0) : q = [] := by
  have hcard := h.counted
  rw [hn, Nat.cast_zero, Set.encard_eq_zero] at hcard
  rw [List.eq_nil_iff_forall_not_mem]
  intro w hw
  obtain ⟨fd, hfd⟩ := h.queued w hw
  have hmem : fd ∈ loop.watched := by simp [UvLoop.watched, hfd]
  simp [hcard] at hmem

/-! ## Poll slots -/

/-- What a change of the slots has to keep, with the table left as it is. -/
theorem LoopOk.congr (h : LoopOk mask loop q) (hs : SameTable loop loop')
    (hn : loop'.nfds = loop.nfds)
    (hc : ∀ fd : Int, 0 ≤ fd →
      (loop'.pollFds.map PollFd.fd).count fd ≤ (loop.pollFds.map PollFd.fd).count fd)
    (hi : ∀ pe ∈ loop'.pollFds, pe.fd = -1 ∨ ∃ pe' ∈ loop.pollFds, pe.fd = pe'.fd)
    (hp : ∀ fd w, loop.watchers fd = some w → Placed loop fd w → Placed loop' fd w) :
    LoopOk mask loop' q := by
  refine ⟨hs.table h.table, ?_, ?_, ?_, ?_, ?_, h.nodup, ?_⟩
  · rw [UvLoop.watched, hs.watchers, hn]
    exact h.counted
  · exact fun fd hfd => (hc fd hfd).trans (h.single fd hfd)
  · intro pe hpe
    rcases hi pe hpe with hd | ⟨pe', hpe', he⟩
    · exact Or.inl hd
    · rw [he, hs.nwatchers]
      exact h.inside pe' hpe'
  · intro fd w hw
    rw [hs.watchers] at hw
    exact (h.placed fd w hw).imp_right (hp fd w hw)
  · intro w hw
    rw [hs.watchers]
    exact h.queued w hw
  · intro fd w hw
    rw [hs.pevents]
    exact h.asks fd w (hs.watchers ▸ hw)

/-- The slots with the same descriptors and events. -/
theorem LoopOk.same_slots (h : LoopOk mask loop q) (hs : SameTable loop loop')
    (hn : loop'.nfds = loop.nfds)
    (hp : loop'.pollFds.map (fun pe => (pe.fd, pe.events)) =
      loop.pollFds.map (fun pe => (pe.fd, pe.events))) : LoopOk mask loop' q := by
  have hfds : loop'.pollFds.map PollFd.fd = loop.pollFds.map PollFd.fd := by
    have hfst := congrArg (List.map Prod.fst) hp
    rwa [List.map_map, List.map_map] at hfst
  refine h.congr hs hn (fun fd _ => by rw [hfds]) ?_ ?_
  · intro pe hpe
    have hfd : pe.fd ∈ loop.pollFds.map PollFd.fd := hfds ▸ List.mem_map_of_mem hpe
    obtain ⟨pe', hpe', he⟩ := List.mem_map.mp hfd
    exact Or.inr ⟨pe', hpe', he.symm⟩
  · rintro fd w - ⟨pe, hpe, hfd, hev⟩
    have hmem : (pe.fd, pe.events) ∈ loop'.pollFds.map (fun pe => (pe.fd, pe.events)) :=
      hp ▸ List.mem_map_of_mem hpe
    obtain ⟨pe', hpe', he⟩ := List.mem_map.mp hmem
    rw [Prod.mk.injEq] at he
    exact ⟨pe', hpe', he.1.trans hfd, by rw [he.2, hev, hs.pevents]⟩

theorem LoopOk.poll (h : LoopOk mask loop q) (ready : Int) (revents : Nat → Events) :
    LoopOk mask (isereTcpPoll loop ready revents) q := by
  unfold isereTcpPoll
  split
  · exact h
  · refine h.same_slots ⟨rfl, rfl, fun _ => rfl, fun _ => rfl⟩ rfl ?_
    apply List.ext_getElem?
    intro j
    rw [List.getElem?_map, List.getElem?_map, List.getElem?_mapIdx]
    cases loop.pollFds[j]? <;> rfl

theorem isereTcpPoll_rest (loop : UvLoop ω) (ready : Int) (revents : Nat → Events) :
    (isereTcpPoll loop ready revents).pollFdsIterating = loop.pollFdsIterating ∧
      (isereTcpPoll loop ready revents).watcherQueue = loop.watcherQueue := by
  unfold isereTcpPoll
  split <;> exact ⟨rfl, rfl⟩

/-- The flag of the iteration is no part of the tables. -/
theorem LoopOk.iterate (h : LoopOk mask loop q) (b : Bool) :
    LoopOk mask { loop with pollFdsIterating := b } q :=
  ⟨⟨h.table.fd_eq, h.table.fd_lt, h.table.masked⟩, h.counted, h.single, h.inside, h.placed,
    h.queued, h.nodup, h.asks⟩

/-- An invalidated slot had no watcher. -/
theorem LoopOk.invalidate (h : LoopOk mask loop q) (hit : loop.pollFdsIterating = true) {fd : Int}
    (hfd : 0 ≤ fd) (hnone : loop.watchers fd.toNat = none) :
    LoopOk mask (uvPlatformInvalidateFd loop fd) q := by
  unfold uvPlatformInvalidateFd
  rw [if_pos hit]
  refine h.congr ⟨rfl, rfl, fun _ => rfl, fun _ => rfl⟩ rfl ?_ ?_ ?_
  · intro fd' hfd'
    simp only [List.map_map, List.count_eq_countP, List.countP_map]
    apply List.countP_mono_left
    intro pe _ hpe
    by_cases he : pe.fd = fd
    · simp only [Function.comp_apply, he, ↓reduceIte, beq_iff_eq] at hpe
      omega
    · simpa [he] using hpe
  · intro pe hpe
    obtain ⟨pe', hpe', rfl⟩ := List.mem_map.mp hpe
    by_cases he : pe'.fd = fd
    · exact Or.inl (by simp [he])
    · exact Or.inr ⟨pe', hpe', by simp [he]⟩
  · rintro fd' w hw ⟨pe, hpe, hpfd, hev⟩
    have hne : pe.fd ≠ fd := by
      intro he
      have hf : fd.toNat = fd' := by omega
      rw [hf, hw] at hnone
      cases hnone
    refine ⟨pe, List.mem_map.mpr ⟨pe, hpe, ?_⟩, hpfd, hev⟩
    rw [if_neg hne]

theorem LoopOk.slot (h : LoopOk mask loop q) (hit : loop.pollFdsIterating = true) (i : Nat) :
    LoopOk mask (uvPollSlot loop i).1 q := by
  unfold uvPollSlot
  split
  · exact h
  · rename_i pe hpe
    split
    · exact h
    · rename_i hne
      have hfd : 0 ≤ pe.fd :=
        ((h.inside pe (List.mem_of_getElem? hpe)).resolve_left hne).1
      split
      · exact h.invalidate hit hfd ‹_›
      · refine h.same_slots ⟨rfl, rfl, fun _ => rfl, fun _ => rfl⟩ rfl ?_
        exact map_set_same hpe rfl

theorem uvPollSlot_rest (loop : UvLoop ω) (i : Nat) :
    (uvPollSlot loop i).1.pollFdsIterating = loop.pollFdsIterating ∧
      (uvPollSlot loop i).1.watcherQueue = loop.watcherQueue := by
  unfold uvPollSlot
  split
  · exact ⟨rfl, rfl⟩
  · split
    · exact ⟨rfl, rfl⟩
    · split
      · unfold uvPlatformInvalidateFd uvPollfdsDel
        split <;> exact ⟨rfl, rfl⟩
      · exact ⟨rfl, rfl⟩

/-- The slot that a waiting watcher gets. -/
theorem uvPollfdsAdd_placed {w : ω} {fd : Nat} (hit : loop.pollFdsIterating = false)
    (hfd : (loop.io w).fd = fd) : Placed (uvPollfdsAdd loop w) fd w := by
  unfold uvPollfdsAdd
  rw [hit]
  simp only [Bool.false_eq_true, ↓reduceIte]
  split
  · rename_i i hi
    obtain ⟨hlt, hfound, -⟩ := List.findIdx?_eq_some_iff_getElem.mp hi
    refine ⟨{ loop.pollFds[i] with events := (loop.io w).pevents }, ?_, ?_, rfl⟩
    · rw [List.mem_iff_getElem?]
      exact ⟨i, by simp [List.getElem?_eq_getElem hlt]⟩
    · simpa [hfd] using hfound
  · exact ⟨{ fd := (loop.io w).fd, events := (loop.io w).pevents, revents := 0 }, by simp, hfd, rfl⟩

/-- The slots of the other descriptors stay. -/
theorem uvPollfdsAdd_others {w w' : ω} {fd : Nat} (hfd : (loop.io w).fd ≠ fd)
    (h : Placed loop fd w') : Placed (uvPollfdsAdd loop w) fd w' := by
  obtain ⟨pe, hpe, hpfd, hev⟩ := h
  unfold uvPollfdsAdd
  split
  · exact ⟨pe, hpe, hpfd, hev⟩
  · simp only
    split
    · rename_i i hi
      obtain ⟨hlt, hfound, -⟩ := List.findIdx?_eq_some_iff_getElem.mp hi
      obtain ⟨j, hj⟩ := List.mem_iff_getElem?.mp hpe
      have hne : i ≠ j := by
        rintro rfl
        rw [List.getElem?_eq_getElem hlt, Option.some.injEq] at hj
        rw [hj, decide_eq_true_eq, hpfd] at hfound
        exact hfd hfound.symm
      refine ⟨pe, ?_, hpfd, hev⟩
      rw [List.mem_iff_getElem?]
      exact ⟨j, by simp [hne, hj]⟩
    · exact ⟨pe, List.mem_append_left _ hpe, hpfd, hev⟩

/-- The first watcher of the queue gets its slot. -/
theorem LoopOk.add {w : ω} (h : LoopOk mask loop (w :: q)) (hit : loop.pollFdsIterating = false) :
    LoopOk mask (uvPollfdsAdd loop w) q := by
  have hs := uvPollfdsAdd_same loop w
  have hw := h.queued_fd List.mem_cons_self
  obtain ⟨hnfds, hslots⟩ := uvPollfdsAdd_fds loop w
  refine ⟨hs.table h.table, ?_, ?_, ?_, ?_, ?_, (List.nodup_cons.mp h.nodup).2, ?_⟩
  · rw [UvLoop.watched, hs.watchers, hnfds]
    exact h.counted
  · intro fd hfd
    rcases hslots with he | ⟨hnew, he⟩
    · rw [he]
      exact h.single fd hfd
    · rw [he, List.count_append]
      by_cases hf : fd = (loop.io w).fd
      · subst hf
        rw [List.count_eq_zero_of_not_mem hnew]
        simp
      · have := h.single fd hfd
        simpa [Ne.symm hf] using this
  · intro pe hpe
    have hmem := List.mem_map_of_mem (f := PollFd.fd) hpe
    rw [hs.nwatchers]
    have hold : pe.fd ∈ loop.pollFds.map PollFd.fd →
        pe.fd = -1 ∨ (0 ≤ pe.fd ∧ pe.fd < loop.nwatchers) := by
      intro hin
      obtain ⟨pe', hpe', he⟩ := List.mem_map.mp hin
      rw [← he]
      exact h.inside pe' hpe'
    rcases hslots with he | ⟨-, he⟩
    · exact hold (he ▸ hmem)
    · rw [he, List.mem_append, List.mem_singleton] at hmem
      rcases hmem with hin | hin
      · exact hold hin
      · rw [hin]
        exact Or.inr hw.2
  · intro fd w' hw'
    rw [hs.watchers] at hw'
    by_cases hfd : (loop.io w).fd = fd
    · have hsame : w' = w := by
        obtain ⟨fd', hfd'⟩ := h.queued w List.mem_cons_self
        have := h.table.fd_eq fd' w hfd'
        have hff : fd' = fd := by omega
        rw [hff, hw'] at hfd'
        exact Option.some.inj hfd'
      subst hsame
      exact Or.inr (uvPollfdsAdd_placed hit hfd)
    · rcases h.placed fd w' hw' with hq | hp
      · rcases List.mem_cons.mp hq with rfl | hq
        · exact absurd (h.table.fd_eq fd w' hw') hfd
        · exact Or.inl hq
      · exact Or.inr (uvPollfdsAdd_others hfd hp)
  · intro w' hw'
    rw [hs.watchers]
    exact h.queued w' (List.mem_cons_of_mem w hw')
  · intro fd w' hw'
    rw [hs.pevents]
    exact h.asks fd w' (hs.watchers ▸ hw')

variable [DecidableEq ω]

/-! ## Start and stop -/

/-- A watcher outside the table may change. -/
theorem LoopOk.renew (h : LoopOk mask loop q) {w : ω} (hw : ∀ fd, loop.watchers fd ≠ some w)
    {io : UvIo} (hio : io.pevents &&& ~~~mask = 0) : LoopOk mask (loop.setIo w io) q := by
  have hother : ∀ fd w', loop.watchers fd = some w' → (loop.setIo w io).io w' = loop.io w' := by
    intro fd w' hw'
    have hne : w' ≠ w := fun he => hw fd (he ▸ hw')
    simp [UvLoop.setIo, hne]
  refine ⟨⟨?_, h.table.fd_lt, ?_⟩, h.counted, h.single, h.inside, ?_, h.queued, h.nodup, ?_⟩
  · intro fd w' hw'
    rw [hother fd w' hw']
    exact h.table.fd_eq fd w' hw'
  · intro w'
    by_cases hne : w' = w
    · subst hne
      simpa [UvLoop.setIo] using hio
    · simpa [UvLoop.setIo, hne] using h.table.masked w'
  · intro fd w' hw'
    unfold Placed
    rw [hother fd w' hw']
    exact h.placed fd w' hw'
  · intro fd w' hw'
    rw [hother fd w' hw']
    exact h.asks fd w' hw'

/-- A watcher outside the table starts on a descriptor that has none. -/
theorem LoopOk.start (h : LoopOk mask loop loop.watcherQueue) (hmask : mask ≠ 0) {w : ω}
    (hfd : 0 ≤ (loop.io w).fd) (hfree : loop.watchers (loop.io w).fd.toNat = none)
    (hw : ∀ fd, loop.watchers fd ≠ some w) :
    LoopOk mask (uvIoStart loop w mask) (uvIoStart loop w mask).watcherQueue := by
  have htable := uvIoStart_table h.table hfd
  have hn := (maybeResize_nwatchers loop ((loop.io w).fd.toNat + 1)).2
  have hqueue : w ∉ loop.watcherQueue := by
    intro hq
    obtain ⟨fd, hfd⟩ := h.queued w hq
    exact hw fd hfd
  have hin : ∀ fd w', Function.update loop.watchers (loop.io w).fd.toNat (some w) fd = some w' →
      w' = w ∨ (loop.watchers fd = some w' ∧ w' ≠ w) := by
    intro fd w' hw'
    rw [Function.update_apply] at hw'
    split at hw'
    · exact Or.inl (Option.some.inj hw').symm
    · exact Or.inr ⟨hw', fun he => hw fd (he ▸ hw')⟩
  rw [uvIoStart_eq] at htable ⊢
  simp only [hfree, hqueue, ↓reduceIte] at htable ⊢
  refine ⟨htable, ?_, h.single, ?_, ?_, ?_, ?_, ?_⟩
  · have hset : {fd | Function.update loop.watchers (loop.io w).fd.toNat (some w) fd ≠ none} =
        insert (loop.io w).fd.toNat loop.watched := by
      ext fd
      by_cases he : fd = (loop.io w).fd.toNat <;> simp [he, UvLoop.watched]
    rw [UvLoop.watched, hset, Set.encard_insert_of_notMem (by simp [UvLoop.watched, hfree]),
      h.counted]
    rfl
  · intro pe hpe
    have hi := h.inside pe hpe
    simp only
    omega
  · intro fd w' hw'
    rcases hin fd w' hw' with rfl | ⟨hw', hne⟩
    · exact Or.inl (by simp)
    · rcases h.placed fd w' hw' with hq | ⟨pe, hpe, hpfd, hev⟩
      · exact Or.inl (List.mem_append_left _ hq)
      · exact Or.inr ⟨pe, hpe, hpfd, by simpa [hne] using hev⟩
  · intro w' hw'
    rcases List.mem_append.mp hw' with hq | hq
    · obtain ⟨fd, hfd'⟩ := h.queued w' hq
      refine ⟨fd, ?_⟩
      have hne : fd ≠ (loop.io w).fd.toNat := by
        rintro rfl
        rw [hfree] at hfd'
        cases hfd'
      simpa [hne] using hfd'
    · rw [List.mem_singleton] at hq
      subst hq
      exact ⟨(loop.io w').fd.toNat, by simp⟩
  · rw [List.nodup_append]
    refine ⟨h.nodup, List.nodup_singleton w, ?_⟩
    rintro a ha b hb rfl
    rw [List.mem_singleton] at hb
    exact hqueue (hb ▸ ha)
  · intro fd w' hw'
    rcases hin fd w' hw' with rfl | ⟨hw', hne⟩
    · simp only [Function.update_self]
      intro hzero
      exact hmask (BitVec.or_eq_zero_iff.mp hzero).2
    · simpa [hne] using h.asks fd w' hw'

theorem LoopOk.stop (h : LoopOk mask loop loop.watcherQueue) (w : ω) :
    LoopOk mask (uvIoStop loop w mask) (uvIoStop loop w mask).watcherQueue := by
  by_cases hout : (loop.io w).fd = -1 ∨ loop.nwatchers ≤ (loop.io w).fd.toNat
  · rw [uvIoStop_out mask hout]
    exact h
  · have htable := uvIoStop_table h.table w
    have hiff := uvIoStop_watchers_iff h.table w
    rw [not_or, Nat.not_le] at hout
    rw [uvIoStop_eq (h.table.masked w) hout.1 hout.2] at htable hiff ⊢
    simp only at hiff
    refine ⟨htable, ?_, h.single, h.inside, ?_, ?_, h.nodup.erase w, ?_⟩
    · simp only [UvLoop.watched]
      by_cases hreg : loop.watchers (loop.io w).fd.toNat = some w
      · have hset : insert (loop.io w).fd.toNat
            {fd | Function.update loop.watchers (loop.io w).fd.toNat none fd ≠ none} =
            loop.watched := by
          ext fd
          by_cases he : fd = (loop.io w).fd.toNat <;> simp [he, UvLoop.watched, hreg]
        have hcard := h.counted
        rw [← hset, Set.encard_insert_of_notMem (by simp)] at hcard
        rw [if_pos hreg, if_pos hreg]
        cases hn : loop.nfds with
        | zero => simp [hn] at hcard
        | succ n =>
          rw [hn] at hcard
          exact ENat.add_left_injective_of_ne_top ENat.one_ne_top (hcard.trans (Nat.cast_succ n))
      · rw [if_neg hreg, if_neg hreg]
        exact h.counted
    · intro fd w' hw'
      obtain ⟨hw', hne⟩ := (hiff w' fd).mp hw'
      rcases h.placed fd w' hw' with hq | ⟨pe, hpe, hfd, hev⟩
      · exact Or.inl ((List.mem_erase_of_ne hne).mpr hq)
      · exact Or.inr ⟨pe, hpe, hfd, by simpa [hne] using hev⟩
    · intro w' hw'
      obtain ⟨hne, hq⟩ := (h.nodup.mem_erase_iff).mp hw'
      obtain ⟨fd, hfd⟩ := h.queued w' hq
      exact ⟨fd, (hiff w' fd).mpr ⟨hfd, hne⟩⟩
    · intro fd w' hw'
      obtain ⟨hw', hne⟩ := (hiff w' fd).mp hw'
      simpa [hne] using h.asks fd w' hw'

/-! ## Poll -/

/-- A poll gives every waiting watcher its slot. -/
theorem LoopOk.drain (h : LoopOk mask loop loop.watcherQueue)
    (hit : loop.pollFdsIterating = false) :
    LoopOk mask (drainWatcherQueue loop) (drainWatcherQueue loop).watcherQueue := by
  have hfold : ∀ (q : List ω) (l : UvLoop ω), LoopOk mask l q → l.pollFdsIterating = false →
      l.watcherQueue = [] →
      let l' := q.foldl (fun loop w =>
        let loop := uvPollfdsAdd loop w
        loop.setIo w { loop.io w with events := (loop.io w).pevents }) l
      LoopOk mask l' l'.watcherQueue := by
    intro q
    induction q with
    | nil =>
      intro l hl _ hnil
      simpa [hnil] using hl
    | cons w q ih =>
      intro l hl hit hnil
      obtain ⟨hit', hnil'⟩ := uvPollfdsAdd_rest l w
      refine ih _ ?_ (hit'.trans hit) (hnil'.trans hnil)
      exact (hl.add hit).same_slots (setEvents_same _ w _) rfl rfl
  refine hfold loop.watcherQueue _ ?_ hit rfl
  exact h.same_slots ⟨rfl, rfl, fun _ => rfl, fun _ => rfl⟩ rfl rfl

theorem drainWatcherQueue_iterating (loop : UvLoop ω) :
    (drainWatcherQueue loop).pollFdsIterating = loop.pollFdsIterating :=
  drainWatcherQueue_inv (I := fun l => l.pollFdsIterating = loop.pollFdsIterating)
    (fun l w hl => (uvPollfdsAdd_rest l w).1.trans hl) rfl

/-- A poll of the sockets keeps the tables, and is over when it returns. -/
theorem LoopOk.polled (h : LoopOk mask loop loop.watcherQueue)
    (hit : loop.pollFdsIterating = false) (ready : Int) (revents : Nat → Events) :
    let loop' := isereTcpPoll (drainWatcherQueue loop) ready revents
    LoopOk mask loop' loop'.watcherQueue ∧ loop'.pollFdsIterating = false := by
  obtain ⟨hit', hq'⟩ := isereTcpPoll_rest (drainWatcherQueue loop) ready revents
  refine ⟨?_, hit'.trans ((drainWatcherQueue_iterating loop).trans hit)⟩
  rw [hq']
  exact (h.drain hit).poll ready revents

end isere.uv
