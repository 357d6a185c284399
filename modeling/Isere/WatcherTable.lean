-- What start, stop and poll of the event loop leave in the table of watchers:
-- an entry is a watcher with that descriptor, and a stopped watcher has none.
import Isere.UvLoop
import Mathlib.Tactic.Common

namespace isere.uv

variable {ω : Type}

theorem start_masked {p mask : Events} (h : p &&& ~~~mask = 0) : (p ||| mask) &&& ~~~mask = 0 := by
  rw [BitVec.and_or_distrib_right, h, BitVec.and_not_self]
  simp

/-- The table is kept: each entry has its descriptor and is inside the table,
and no watcher asks for events outside `mask`. -/
structure TableOk (mask : Events) (loop : UvLoop ω) : Prop where
  fd_eq : ∀ fd w, loop.watchers fd = some w → (loop.io w).fd = fd
  fd_lt : ∀ fd w, loop.watchers fd = some w → fd < loop.nwatchers
  masked : ∀ w, (loop.io w).pevents &&& ~~~mask = 0

theorem uvPlatformLoopInit_table {mask : Events} {io : ω → UvIo} (h : ∀ w, (io w).pevents = 0) :
    TableOk mask (uvPlatformLoopInit io) := by
  refine ⟨?_, ?_, ?_⟩
  · intro fd w hw
    cases hw
  · intro fd w hw
    cases hw
  · intro w
    simp [uvPlatformLoopInit, h w]

theorem le_nextPowerOfTwo (n : Nat) : n ≤ nextPowerOfTwo n := by
  unfold nextPowerOfTwo
  simp only
  have h1 := Nat.left_le_or (n := n - 1) (m := (n - 1) >>> 1)
  generalize (n - 1) ||| (n - 1) >>> 1 = a at *
  have h2 := Nat.left_le_or (n := a) (m := a >>> 2)
  generalize a ||| a >>> 2 = b at *
  have h3 := Nat.left_le_or (n := b) (m := b >>> 4)
  generalize b ||| b >>> 4 = c at *
  have h4 := Nat.left_le_or (n := c) (m := c >>> 8)
  generalize c ||| c >>> 8 = d at *
  have h5 := Nat.left_le_or (n := d) (m := d >>> 16)
  omega

/-- The table has `len` entries at least after `maybe_resize`, and never fewer
than before. -/
theorem maybeResize_nwatchers (loop : UvLoop ω) (len : Nat) :
    len ≤ (maybeResize loop len).nwatchers ∧ loop.nwatchers ≤ (maybeResize loop len).nwatchers := by
  unfold maybeResize
  split
  · exact ⟨‹_›, Nat.le_refl _⟩
  · have := le_nextPowerOfTwo (len + 2)
    simp only
    omega

/-! ## Poll slots -/

/-- Two loops with the same table of watchers: they differ in the poll slots, in
the queue and in the events that the watchers have. -/
structure SameTable (loop loop' : UvLoop ω) : Prop where
  watchers : loop'.watchers = loop.watchers
  nwatchers : loop'.nwatchers = loop.nwatchers
  fd : ∀ w, (loop'.io w).fd = (loop.io w).fd
  pevents : ∀ w, (loop'.io w).pevents = (loop.io w).pevents

theorem SameTable.refl (loop : UvLoop ω) : SameTable loop loop :=
  ⟨rfl, rfl, fun _ => rfl, fun _ => rfl⟩

theorem SameTable.trans {a b c : UvLoop ω} (h1 : SameTable a b) (h2 : SameTable b c) :
    SameTable a c :=
  ⟨h2.watchers.trans h1.watchers, h2.nwatchers.trans h1.nwatchers,
    fun w => (h2.fd w).trans (h1.fd w), fun w => (h2.pevents w).trans (h1.pevents w)⟩

theorem SameTable.table {mask : Events} {loop loop' : UvLoop ω} (h : SameTable loop loop')
    (t : TableOk mask loop) : TableOk mask loop' := by
  refine ⟨?_, ?_, ?_⟩
  · intro fd w hw
    rw [h.fd]
    exact t.fd_eq fd w (h.watchers ▸ hw)
  · intro fd w hw
    rw [h.nwatchers]
    exact t.fd_lt fd w (h.watchers ▸ hw)
  · intro w
    rw [h.pevents]
    exact t.masked w

theorem uvPollfdsAdd_same (loop : UvLoop ω) (w : ω) : SameTable loop (uvPollfdsAdd loop w) := by
  unfold uvPollfdsAdd
  split
  · exact SameTable.refl loop
  · simp only
    split <;> exact ⟨rfl, rfl, fun _ => rfl, fun _ => rfl⟩

/-- The descriptor has a slot already, or gets the next one. -/
theorem uvPollfdsAdd_fds (loop : UvLoop ω) (w : ω) : (uvPollfdsAdd loop w).nfds = loop.nfds ∧
    ((uvPollfdsAdd loop w).pollFds.map PollFd.fd = loop.pollFds.map PollFd.fd ∨
      ((loop.io w).fd ∉ loop.pollFds.map PollFd.fd ∧ (uvPollfdsAdd loop w).pollFds.map PollFd.fd =
        loop.pollFds.map PollFd.fd ++ [(loop.io w).fd])) := by
  unfold uvPollfdsAdd
  split
  · exact ⟨rfl, Or.inl rfl⟩
  · simp only
    split
    · rename_i i hi
      refine ⟨rfl, Or.inl ?_⟩
      apply List.ext_getElem?
      intro j
      rw [List.getElem?_map, List.getElem?_map, List.getElem?_modify]
      by_cases hij : i = j <;> cases loop.pollFds[j]? <;> simp [hij]
    · rename_i hnone
      rw [List.findIdx?_eq_none_iff] at hnone
      refine ⟨rfl, Or.inr ⟨?_, by simp⟩⟩
      intro hmem
      obtain ⟨pe, hpe, he⟩ := List.mem_map.mp hmem
      simpa [he] using hnone pe hpe

theorem uvPollfdsAdd_rest (loop : UvLoop ω) (w : ω) :
    (uvPollfdsAdd loop w).pollFdsIterating = loop.pollFdsIterating ∧
      (uvPollfdsAdd loop w).watcherQueue = loop.watcherQueue := by
  unfold uvPollfdsAdd
  split
  · exact ⟨rfl, rfl⟩
  · simp only
    split <;> exact ⟨rfl, rfl⟩

theorem isereTcpPoll_same (loop : UvLoop ω) (ready : Int) (revents : Nat → Events) :
    SameTable loop (isereTcpPoll loop ready revents) := by
  unfold isereTcpPoll
  split
  · exact SameTable.refl loop
  · exact ⟨rfl, rfl, fun _ => rfl, fun _ => rfl⟩

theorem uvPollSlot_same (loop : UvLoop ω) (i : Nat) : SameTable loop (uvPollSlot loop i).1 := by
  unfold uvPollSlot
  split
  · exact SameTable.refl loop
  · split
    · exact SameTable.refl loop
    · split
      · unfold uvPlatformInvalidateFd uvPollfdsDel
        split
        · exact ⟨rfl, rfl, fun _ => rfl, fun _ => rfl⟩
        · exact ⟨rfl, rfl, fun _ => rfl, fun _ => rfl⟩
      · exact ⟨rfl, rfl, fun _ => rfl, fun _ => rfl⟩

/-- A write to a slot that keeps what `f` reads of it. -/
theorem map_set_same {α β : Type} {f : α → β} {l : List α} {i : Nat} {a b : α}
    (hi : l[i]? = some a) (hf : f b = f a) : (l.set i b).map f = l.map f := by
  obtain ⟨hlt, rfl⟩ := List.getElem?_eq_some_iff.mp hi
  rw [List.map_set, hf, ← List.getElem_map f (h := by simpa using hlt), List.set_getElem_self]

/-- A slot calls a watcher only when the watcher is in the table, under the
descriptor of the slot. -/
theorem uvPollSlot_calls {loop : UvLoop ω} {i : Nat} {w : ω} {events : Events}
    (h : (uvPollSlot loop i).2 = some (w, events)) :
    ∃ pe, loop.pollFds[i]? = some pe ∧ pe.fd ≠ -1 ∧ loop.watchers pe.fd.toNat = some w := by
  unfold uvPollSlot at h
  split at h
  · cases h
  · rename_i pe hpe
    split at h
    · cases h
    · rename_i hfd
      split at h
      · cases h
      · rename_i w' hw'
        simp only [Option.ite_none_left_eq_some, Option.some.injEq, Prod.mk.injEq] at h
        exact ⟨pe, hpe, hfd, by rw [hw', h.2.1]⟩

variable [DecidableEq ω]

/-! ## Start -/

/-- `uv__io_start`, field by field. -/
theorem uvIoStart_eq (loop : UvLoop ω) (w : ω) (events : Events) :
    uvIoStart loop w events =
      { loop with
        io := Function.update loop.io w
          { loop.io w with pevents := (loop.io w).pevents ||| events },
        nwatchers := (maybeResize loop ((loop.io w).fd.toNat + 1)).nwatchers,
        watcherQueue := if w ∈ loop.watcherQueue then loop.watcherQueue
          else loop.watcherQueue ++ [w],
        watchers := if loop.watchers (loop.io w).fd.toNat = none
          then Function.update loop.watchers (loop.io w).fd.toNat (some w) else loop.watchers,
        nfds := if loop.watchers (loop.io w).fd.toNat = none then loop.nfds + 1
          else loop.nfds } := by
  have hresize : ∀ (l : UvLoop ω) (len : Nat),
      maybeResize l len = { l with nwatchers := (maybeResize l len).nwatchers } := by
    intro l len
    unfold maybeResize
    split <;> rfl
  have hnw : ∀ (io : UvIo) (len : Nat),
      (maybeResize (loop.setIo w io) len).nwatchers = (maybeResize loop len).nwatchers := by
    intro io len
    unfold maybeResize UvLoop.setIo
    split <;> rfl
  unfold uvIoStart
  simp only
  rw [hresize, hnw]
  by_cases hq : w ∈ loop.watcherQueue
  · simp only [UvLoop.setIo, hq, ↓reduceIte]
    cases hw : loop.watchers (loop.io w).fd.toNat <;> simp
  · simp only [UvLoop.setIo, hq, ↓reduceIte]
    cases hw : loop.watchers (loop.io w).fd.toNat <;> simp

theorem uvIoStart_fd (loop : UvLoop ω) (w w' : ω) (events : Events) :
    ((uvIoStart loop w events).io w').fd = (loop.io w').fd := by
  rw [uvIoStart_eq]
  by_cases h : w' = w
  · subst h; simp
  · simp [h]

theorem uvIoStart_iterating (loop : UvLoop ω) (w : ω) (events : Events) :
    (uvIoStart loop w events).pollFdsIterating = loop.pollFdsIterating := by
  rw [uvIoStart_eq]

/-- A start adds the watcher to the table, and nothing else. -/
theorem uvIoStart_watchers {loop : UvLoop ω} {w w' : ω} {events : Events} {fd : Nat}
    (h : (uvIoStart loop w events).watchers fd = some w') :
    loop.watchers fd = some w' ∨ (w' = w ∧ fd = (loop.io w).fd.toNat) := by
  rw [uvIoStart_eq] at h
  simp only at h
  split at h
  · rw [Function.update_apply] at h
    split at h
    · simp only [Option.some.injEq] at h
      exact Or.inr ⟨h.symm, ‹_›⟩
    · exact Or.inl h
  · exact Or.inl h

theorem uvIoStart_table {mask : Events} {loop : UvLoop ω} {w : ω} (t : TableOk mask loop)
    (hfd : 0 ≤ (loop.io w).fd) : TableOk mask (uvIoStart loop w mask) := by
  have hn := maybeResize_nwatchers loop ((loop.io w).fd.toNat + 1)
  refine ⟨?_, ?_, ?_⟩
  · intro fd w' h
    rw [uvIoStart_fd]
    rcases uvIoStart_watchers h with h | ⟨rfl, rfl⟩
    · exact t.fd_eq fd w' h
    · omega
  · intro fd w' h
    have hnw : (uvIoStart loop w mask).nwatchers =
        (maybeResize loop ((loop.io w).fd.toNat + 1)).nwatchers := by rw [uvIoStart_eq]
    rw [hnw]
    rcases uvIoStart_watchers h with h | ⟨rfl, rfl⟩
    · have := t.fd_lt fd w' h
      omega
    · omega
  · intro w'
    rw [uvIoStart_eq]
    by_cases h : w' = w
    · subst h
      simpa using start_masked (t.masked w')
    · simpa [h] using t.masked w'

/-! ## Stop -/

/-- `uv__io_stop` of all events of a watcher with a place in the table, field by
field. -/
theorem uvIoStop_eq {mask : Events} {loop : UvLoop ω} {w : ω}
    (hm : (loop.io w).pevents &&& ~~~mask = 0) (h1 : (loop.io w).fd ≠ -1)
    (h2 : (loop.io w).fd.toNat < loop.nwatchers) :
    uvIoStop loop w mask =
      { loop with
        io := Function.update loop.io w { pevents := 0, events := 0, fd := (loop.io w).fd },
        watcherQueue := loop.watcherQueue.erase w,
        watchers := if loop.watchers (loop.io w).fd.toNat = some w
          then Function.update loop.watchers (loop.io w).fd.toNat none else loop.watchers,
        nfds := if loop.watchers (loop.io w).fd.toNat = some w then loop.nfds - 1
          else loop.nfds } := by
  unfold uvIoStop
  simp only [h1, Nat.not_le.mpr h2, hm, ↓reduceIte, UvLoop.setIo]
  split <;> simp_all

/-- A stop does nothing to a watcher with no place in the table. -/
theorem uvIoStop_out {loop : UvLoop ω} {w : ω} (events : Events)
    (h : (loop.io w).fd = -1 ∨ loop.nwatchers ≤ (loop.io w).fd.toNat) :
    uvIoStop loop w events = loop := by
  unfold uvIoStop
  simp only
  split
  · rfl
  · split
    · rfl
    · rcases h with h | h <;> contradiction

theorem uvIoStop_fd (mask : Events) (loop : UvLoop ω) (w w' : ω)
    (hm : (loop.io w).pevents &&& ~~~mask = 0) :
    ((uvIoStop loop w mask).io w').fd = (loop.io w').fd := by
  by_cases h : (loop.io w).fd = -1 ∨ loop.nwatchers ≤ (loop.io w).fd.toNat
  · rw [uvIoStop_out mask h]
  · rw [not_or, Nat.not_le] at h
    rw [uvIoStop_eq hm h.1 h.2]
    by_cases hw : w' = w
    · subst hw; simp
    · simp [hw]

/-- A stop takes the watcher out of the table, and nothing else. -/
theorem uvIoStop_watchers_iff {mask : Events} {loop : UvLoop ω} (t : TableOk mask loop) (w w' : ω)
    (fd : Nat) :
    (uvIoStop loop w mask).watchers fd = some w' ↔ loop.watchers fd = some w' ∧ w' ≠ w := by
  by_cases h : (loop.io w).fd = -1 ∨ loop.nwatchers ≤ (loop.io w).fd.toNat
  · rw [uvIoStop_out mask h]
    refine ⟨fun hw => ⟨hw, ?_⟩, fun hw => hw.1⟩
    rintro rfl
    have h1 := t.fd_eq fd w' hw
    have h2 := t.fd_lt fd w' hw
    omega
  · rw [not_or, Nat.not_le] at h
    rw [uvIoStop_eq (t.masked w) h.1 h.2]
    simp only
    have hself : ∀ fd', loop.watchers fd' = some w → fd' = (loop.io w).fd.toNat := by
      intro fd' h'
      have := t.fd_eq fd' w h'
      omega
    split
    · rename_i hreg
      by_cases hfd : fd = (loop.io w).fd.toNat
      · subst hfd
        simp [hreg, eq_comm]
      · rw [Function.update_of_ne hfd]
        refine ⟨fun hw => ⟨hw, ?_⟩, fun hw => hw.1⟩
        rintro rfl
        exact hfd (hself fd hw)
    · rename_i hreg
      refine ⟨fun hw => ⟨hw, ?_⟩, fun hw => hw.1⟩
      rintro rfl
      exact hreg (hself fd hw ▸ hw)

/-- A stop adds no watcher to the table. -/
theorem uvIoStop_watchers {loop : UvLoop ω} {w w' : ω} {events : Events} {fd : Nat}
    (h : (uvIoStop loop w events).watchers fd = some w') : loop.watchers fd = some w' := by
  unfold uvIoStop at h
  simp only at h
  split at h
  · exact h
  · split at h
    · exact h
    · split at h
      · split at h
        · simp only [Function.update_apply] at h
          split at h
          · cases h
          · exact h
        · exact h
      · split at h <;> exact h

theorem uvIoStop_iterating (loop : UvLoop ω) (w : ω) (events : Events) :
    (uvIoStop loop w events).pollFdsIterating = loop.pollFdsIterating := by
  unfold uvIoStop
  simp only
  split
  · rfl
  · split
    · rfl
    · split
      · split <;> rfl
      · split <;> rfl

theorem uvIoStop_nwatchers (mask : Events) (loop : UvLoop ω) (w : ω)
    (hm : (loop.io w).pevents &&& ~~~mask = 0) :
    (uvIoStop loop w mask).nwatchers = loop.nwatchers := by
  by_cases h : (loop.io w).fd = -1 ∨ loop.nwatchers ≤ (loop.io w).fd.toNat
  · rw [uvIoStop_out mask h]
  · rw [not_or, Nat.not_le] at h
    rw [uvIoStop_eq hm h.1 h.2]

theorem uvIoStop_table {mask : Events} {loop : UvLoop ω} (t : TableOk mask loop) (w : ω) :
    TableOk mask (uvIoStop loop w mask) := by
  refine ⟨?_, ?_, ?_⟩
  · intro fd w' h
    rw [uvIoStop_fd mask loop w w' (t.masked w)]
    exact t.fd_eq fd w' ((uvIoStop_watchers_iff t w w' fd).mp h).1
  · intro fd w' h
    rw [uvIoStop_nwatchers mask loop w (t.masked w)]
    exact t.fd_lt fd w' ((uvIoStop_watchers_iff t w w' fd).mp h).1
  · intro w'
    by_cases h : (loop.io w).fd = -1 ∨ loop.nwatchers ≤ (loop.io w).fd.toNat
    · rw [uvIoStop_out mask h]
      exact t.masked w'
    · rw [not_or, Nat.not_le] at h
      rw [uvIoStop_eq (t.masked w) h.1 h.2]
      by_cases hw : w' = w
      · subst hw; simp
      · simpa [hw] using t.masked w'

/-! ## Poll -/

/-- What the slots of the queued watchers keep, the drain keeps. -/
theorem drainWatcherQueue_inv {I : UvLoop ω → Prop}
    (hadd : ∀ loop w, I loop → I ((uvPollfdsAdd loop w).setIo w
      { (uvPollfdsAdd loop w).io w with events := ((uvPollfdsAdd loop w).io w).pevents }))
    {loop : UvLoop ω} (h : I { loop with watcherQueue := [] }) : I (drainWatcherQueue loop) := by
  have hfold : ∀ (q : List ω) (l : UvLoop ω), I l → I (q.foldl (fun loop w =>
      let loop := uvPollfdsAdd loop w
      loop.setIo w { loop.io w with events := (loop.io w).pevents }) l) := by
    intro q
    induction q with
    | nil => exact fun _ hl => hl
    | cons w q ih => exact fun l hl => ih _ (hadd l w hl)
  exact hfold loop.watcherQueue _ h

theorem setEvents_same (loop : UvLoop ω) (w : ω) (events : Events) :
    SameTable loop (loop.setIo w { loop.io w with events := events }) := by
  refine ⟨rfl, rfl, ?_, ?_⟩
  · intro w'
    by_cases hw : w' = w
    · subst hw; simp [UvLoop.setIo]
    · simp [UvLoop.setIo, hw]
  · intro w'
    by_cases hw : w' = w
    · subst hw; simp [UvLoop.setIo]
    · simp [UvLoop.setIo, hw]

theorem drainWatcherQueue_same (loop : UvLoop ω) : SameTable loop (drainWatcherQueue loop) :=
  drainWatcherQueue_inv (I := SameTable loop)
    (fun l w hl => (hl.trans (uvPollfdsAdd_same l w)).trans (setEvents_same _ w _))
    ⟨rfl, rfl, fun _ => rfl, fun _ => rfl⟩

end isere.uv
