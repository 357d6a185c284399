-- The event loop in memory against the loop of lists. Each operation on the one
-- does what it does on the other, and it reads and writes inside of its arrays;
-- only an allocation can fail.
import Isere.UvMemory
import Isere.WatchedLoop

open checked intrusive

namespace isere.uv.memory

variable {ω : Type}

/-! ## The relation -/

/-- The loop in memory holds the loop of lists. `made` are the watchers whose
fields were set. -/
structure Refines (made : ω → Prop) (m : LoopMemory ω) (loop : UvLoop ω) : Prop where
  slots : Holds unusedSlot m.pollFds loop.pollFds
  used : m.pollFdsUsed = loop.pollFds.length
  size : m.pollFdsSize = m.pollFds.length
  iterating : m.pollFdsIterating = loop.pollFdsIterating
  queue : Ring m.watcherQueue .head (loop.watcherQueue.map .io)
  alone : ∀ w, made w → w ∉ loop.watcherQueue → Alone m.watcherQueue (.io w)
  queued : ∀ w ∈ loop.watcherQueue, made w
  nwatchers : m.nwatchers.toNat = loop.nwatchers
  room : (m.watchers = [] ∧ loop.nwatchers = 0) ∨ m.watchers.length = loop.nwatchers + 2
  entries : ∀ fd < loop.nwatchers, m.watchers[fd]? = some (loop.watchers fd)
  limit : loop.nwatchers + 2 ≤ 2 ^ 31
  nfds : m.nfds = loop.nfds
  io : m.io = loop.io

variable {made : ω → Prop} {m : LoopMemory ω} {loop : UvLoop ω}

theorem mem_nodes_iff {w : ω} {q : List ω} :
    QueueNode.io w ∈ QueueNode.head :: q.map .io ↔ w ∈ q := by
  simp

/-- The node of a watcher points at itself just when it is in no queue. -/
theorem Refines.empty_iff [DecidableEq ω] (h : Refines made m loop) {w : ω} (hw : made w) :
    uvQueueEmpty m.watcherQueue (.io w) = true ↔ w ∉ loop.watcherQueue := by
  rw [uvQueueEmpty, decide_eq_true_eq]
  constructor
  · intro he hq
    exact h.queue.next_ne_self (List.mem_map_of_mem hq) he.symm
  · intro hq
    exact (h.alone w hw hq).1.symm

/-- Slots that change in both, with the same room. -/
theorem Refines.withSlots (h : Refines made m loop) {cells fds : List PollFd} {used : Nat}
    (hs : Holds unusedSlot cells fds) (hu : used = fds.length)
    (hlen : cells.length = m.pollFds.length) :
    Refines made { m with pollFds := cells, pollFdsUsed := used } { loop with pollFds := fds } :=
  { h with slots := hs, used := hu, size := h.size.trans hlen.symm }

theorem Refines.iterate (h : Refines made m loop) (b : Bool) :
    Refines made { m with pollFdsIterating := b } { loop with pollFdsIterating := b } :=
  { h with iterating := rfl }

theorem Refines.setIo [DecidableEq ω] (h : Refines made m loop) (w : ω) (io : UvIo) :
    Refines made (m.setIo w io) (loop.setIo w io) :=
  { h with io := by simp only [LoopMemory.setIo, UvLoop.setIo, h.io] }

/-! ## The poll slots -/

theorem findSlot_eq {cells l : List PollFd} (h : Holds unusedSlot cells l) (fd : Int) (i k : Nat)
    (hk : i + k = l.length) : findSlot cells fd i k =
      .ok (((l.drop i).findIdx? (fun pe => pe.fd = fd)).map (· + i)) := by
  induction k generalizing i with
  | zero =>
    rw [List.drop_eq_nil_of_le (by omega)]
    rfl
  | succ k ih =>
    have hi : i < l.length := by omega
    rw [findSlot, h.get (List.getElem?_eq_getElem hi), List.drop_eq_getElem_cons hi,
      List.findIdx?_cons]
    by_cases hfd : l[i].fd = fd
    · simp [hfd, bind, Except.bind]
    · have hrest := ih (i + 1) (by omega)
      simp only [bind, Except.bind, hfd, ↓reduceIte, decide_false, Bool.false_eq_true, hrest,
        Option.map_map]
      congr 2
      funext j
      simp [Nat.add_comm, Nat.add_left_comm]

/-- The array has room for one more slot. -/
theorem uvPollfdsMaybeResize_ends (h : Refines made m loop) (r : Realloc ω) :
    Ends (fun m' => Refines made m' loop ∧ m'.pollFdsUsed = m.pollFdsUsed ∧
      loop.pollFds.length < m'.pollFds.length) (uvPollfdsMaybeResize r m) := by
  have hle := h.slots.length_le
  unfold uvPollfdsMaybeResize
  split
  · rename_i hlt
    rw [h.used, h.size] at hlt
    exact ⟨h, rfl, hlt⟩
  · rename_i hfull
    rw [h.used, h.size] at hfull
    have hn : m.pollFds.length ≤ if m.pollFdsSize = 0 then 64 else m.pollFdsSize * 2 := by
      rw [h.size]
      split <;> omega
    rw [h.size] at hn ⊢
    refine (h.slots.grow hn (r.pollFds _)).bind ?_
    rintro p ⟨hlen, hp⟩
    refine ⟨{ h with slots := hp, size := hlen.symm }, rfl, ?_⟩
    rw [hlen]
    split <;> omega

theorem uvPollfdsAdd_ends [DecidableEq ω] (h : Refines made m loop) (r : Realloc ω) (w : ω) :
    Ends (fun m' => Refines made m' (uv.uvPollfdsAdd loop w)) (uvPollfdsAdd r m w) := by
  have hio : m.io w = loop.io w := by rw [h.io]
  unfold uvPollfdsAdd uv.uvPollfdsAdd
  split
  · rename_i hit
    rw [if_pos (h.iterating ▸ hit)]
    exact h
  · rename_i hit
    rw [if_neg (h.iterating ▸ hit), hio]
    refine ends_of_eq (findSlot_eq h.slots (loop.io w).fd 0 m.pollFdsUsed (by simp [h.used])) ?_
    simp only [List.drop_zero]
    cases hfind : loop.pollFds.findIdx? (fun pe => pe.fd = (loop.io w).fd) with
    | some i =>
      have hi := (List.findIdx?_eq_some_iff_getElem.mp hfind).1
      have hget := List.getElem?_eq_getElem hi
      obtain ⟨hput, hset⟩ := h.slots.put hi
        { loop.pollFds[i] with events := (loop.io w).pevents }
      simp only [Option.map_some, Nat.add_zero]
      refine ends_of_eq (h.slots.get hget) (ends_of_eq hput ?_)
      rw [List.modify_eq_set_getElem?, hget]
      exact h.withSlots hset (h.used.trans (List.length_set ..).symm) (List.length_set ..)
    | none =>
      refine (uvPollfdsMaybeResize_ends h r).bind ?_
      rintro m' ⟨h', hused, hlt⟩
      obtain ⟨hput, hpush⟩ := h'.slots.push hlt
        { unusedSlot with fd := (loop.io w).fd, events := (loop.io w).pevents }
      rw [h'.used]
      refine ends_of_eq (h'.slots.get_blank hlt) (ends_of_eq hput ?_)
      exact h'.withSlots hpush (by simp) (List.length_set ..)

/-- The last slot in the place of another one. -/
theorem swapRemove_ends (h : Refines made m loop) {i : Nat} (hi : i < loop.pollFds.length) :
    ∃ cells, (do
        let cells ← uvPollfdsSwap m.pollFds i (m.pollFdsUsed - 1)
        put cells (m.pollFdsUsed - 1) unusedSlot) = .ok cells ∧
      Refines made { m with pollFds := cells, pollFdsUsed := m.pollFdsUsed - 1 }
        { loop with pollFds := (loop.pollFds.set i (loop.pollFds.getLast
          (List.ne_nil_of_length_pos (by omega)))).dropLast } := by
  have hlast : loop.pollFds.length - 1 < loop.pollFds.length := by omega
  have hend : loop.pollFds[loop.pollFds.length - 1]? = some (loop.pollFds.getLast
      (List.ne_nil_of_length_pos (by omega))) := by
    rw [List.getElem?_eq_getElem hlast, List.getLast_eq_getElem]
  generalize loop.pollFds.getLast (List.ne_nil_of_length_pos (by omega)) = other at hend ⊢
  obtain ⟨hput, hset⟩ := h.slots.put hi other
  obtain ⟨hput', hset'⟩ := hset.put (i := loop.pollFds.length - 1) (by simpa using hlast)
    loop.pollFds[i]
  have hpop : Holds unusedSlot
      ((m.pollFds.set i other).set (loop.pollFds.length - 1) loop.pollFds[i])
      ((loop.pollFds.set i other).dropLast ++ [loop.pollFds[i]]) := by
    have hne : loop.pollFds.set i other ≠ [] := List.ne_nil_of_length_pos (by simp; omega)
    rwa [← List.dropLast_concat_getLast hne, List.set_append_right _ _ (by simp),
      List.length_dropLast, List.length_set, Nat.sub_self, List.set_cons_zero] at hset'
  obtain ⟨hblank, hrest⟩ := hpop.pop
  rw [List.length_dropLast, List.length_set] at hblank hrest
  refine ⟨_, ?_, h.withSlots hrest (by simp [h.used]) (by simp)⟩
  unfold uvPollfdsSwap
  rw [h.used]
  simp only [h.slots.get (List.getElem?_eq_getElem hi), h.slots.get hend, bind, Except.bind, hput,
    hput', hblank]

/-- `uv__pollfds_del` over the slots that it still has to look at. -/
theorem uvPollfdsDelFrom_ends [DecidableEq ω] (h : Refines made m loop) (fd : Int) (i k : Nat)
    (hk : i + k = loop.pollFds.length) :
    Ends (fun m' => Refines made m' { loop with
      pollFds := uv.uvPollfdsDelFrom fd loop.pollFds i }) (uvPollfdsDelFrom fd m i k) := by
  induction k generalizing m loop i with
  | zero =>
    rw [uv.uvPollfdsDelFrom, dif_neg (by omega)]
    exact h
  | succ k ih =>
    have hi : i < loop.pollFds.length := by omega
    rw [uvPollfdsDelFrom, uv.uvPollfdsDelFrom, dif_pos hi]
    refine ends_of_eq (h.slots.get (List.getElem?_eq_getElem hi)) ?_
    split
    · obtain ⟨cells, hcells, h'⟩ := swapRemove_ends h hi
      rw [← bind_assoc]
      refine ends_of_eq hcells ?_
      by_cases hfd : fd = -1
      · rw [if_neg (not_not_intro hfd), if_pos hfd]
        exact ih h' i (by simp; omega)
      · rw [if_pos hfd, if_neg hfd]
        exact h'
    · exact ih h (i + 1) (by omega)

theorem uvPollfdsDel_ends [DecidableEq ω] (h : Refines made m loop) (fd : Int) :
    Ends (fun m' => Refines made m' (uv.uvPollfdsDel loop fd)) (uvPollfdsDel m fd) := by
  unfold uvPollfdsDel uv.uvPollfdsDel
  split
  · rename_i hit
    rw [if_pos (h.iterating ▸ hit)]
    exact h
  · rename_i hit
    rw [if_neg (h.iterating ▸ hit), h.used]
    exact uvPollfdsDelFrom_ends h fd 0 _ (Nat.zero_add _)

/-- The loop that invalidates slots, with those before slot `i` done. -/
theorem invalidateFrom_eq (fd : Int) {cells done l : List PollFd} {i : Nat}
    (h : Holds unusedSlot cells (done ++ l)) (hi : done.length = i) :
    ∃ cells', invalidateFrom fd i l.length cells = .ok cells' ∧
      cells'.length = cells.length ∧ Holds unusedSlot cells'
        (done ++ l.map (fun pe => if pe.fd = fd then unusedSlot else pe)) := by
  induction l generalizing cells done i with
  | nil => exact ⟨cells, rfl, rfl, by simpa using h⟩
  | cons pe l ih =>
    have hget : (done ++ pe :: l)[i]? = some pe := by simp [← hi]
    rw [List.length_cons, invalidateFrom, h.get hget]
    by_cases hfd : pe.fd = fd
    · obtain ⟨hput, hset⟩ := h.put (i := i) (by simp [← hi]) unusedSlot
      rw [List.set_append_right _ _ (by omega), hi, Nat.sub_self, List.set_cons_zero,
        List.append_cons] at hset
      obtain ⟨cells', hrest, hlen, hcells⟩ := ih hset (i := i + 1) (by simp [hi])
      refine ⟨cells', ?_, by simpa using hlen, by simpa [hfd] using hcells⟩
      simpa only [bind, Except.bind, hfd, ↓reduceIte, hput] using hrest
    · rw [List.append_cons] at h
      obtain ⟨cells', hrest, hlen, hcells⟩ := ih h (i := i + 1) (by simp [hi])
      refine ⟨cells', ?_, hlen, by simpa [hfd] using hcells⟩
      simpa only [bind, Except.bind, hfd, ↓reduceIte] using hrest

theorem uvPlatformInvalidateFd_ends [DecidableEq ω] (h : Refines made m loop) {fd : Int}
    (hfd : 0 ≤ fd) : Ends (fun m' => Refines made m' (uv.uvPlatformInvalidateFd loop fd))
      (uvPlatformInvalidateFd m fd) := by
  unfold uvPlatformInvalidateFd uv.uvPlatformInvalidateFd
  refine ends_of_eq (check_eq hfd) ?_
  split
  · rename_i hit
    obtain ⟨cells, hcells, hlen, hslots⟩ := @invalidateFrom_eq fd _ [] _ _ h.slots rfl
    rw [if_pos (h.iterating ▸ hit), h.used]
    refine ends_of_eq hcells ?_
    exact h.withSlots hslots (List.length_map ..).symm hlen
  · rename_i hit
    rw [if_neg (h.iterating ▸ hit)]
    exact uvPollfdsDel_ends h fd

/-! ## The watchers -/

/-- Up to half of its range, the arithmetic of an `unsigned int` does not wrap. -/
theorem nextPowerOfTwo_toNat (val : BitVec 32) (h0 : 0 < val.toNat) (h : val.toNat ≤ 2 ^ 31) :
    (nextPowerOfTwo val).toNat = uv.nextPowerOfTwo val.toNat ∧
      uv.nextPowerOfTwo val.toNat ≤ 2 ^ 31 := by
  have hsub : (val - 1).toNat = val.toNat - 1 := by bv_omega
  have hor : ∀ {a : Nat} (k : Nat), a < 2 ^ 31 → a ||| a >>> k < 2 ^ 31 :=
    fun k ha => Nat.or_lt_two_pow ha (Nat.lt_of_le_of_lt (Nat.shiftRight_le _ k) ha)
  have hlt : val.toNat - 1 < 2 ^ 31 := by omega
  have hall := hor 16 (hor 8 (hor 4 (hor 2 (hor 1 hlt))))
  unfold nextPowerOfTwo uv.nextPowerOfTwo
  simp only [BitVec.toNat_add, BitVec.toNat_or, BitVec.toNat_ushiftRight, hsub]
  have hone : (1 : BitVec 32).toNat = 1 := rfl
  generalize val.toNat - 1 ||| (val.toNat - 1) >>> 1 = a at *
  generalize a ||| a >>> 2 = b at *
  generalize b ||| b >>> 4 = c at *
  generalize c ||| c >>> 8 = d at *
  generalize d ||| d >>> 16 = e at *
  omega

/-- A table of watchers with room for the two entries at its end. -/
structure TableIs (watchers : List (Option ω)) (n : Nat) (entry : Nat → Option ω) : Prop where
  length : watchers.length = n + 2
  entries : ∀ fd < n, watchers[fd]? = some (entry fd)

/-- The new table of `maybe_resize`: the old entries, empty ones, and two at the end. -/
theorem grow_ends {old : List (Option ω)} {n : Nat} (n' : Nat) {entry : Nat → Option ω}
    (memory : Option (Nat → Option ω)) (fake : Option ω × Option ω) (hn : n ≤ n')
    (hlen : old.length ≤ n + 2) (hold : ∀ fd < n, old[fd]? = some (entry fd))
    (hnone : ∀ fd, n ≤ fd → entry fd = none) :
    Ends (fun p => TableIs p n' entry) (do
      let p ← resize memory old (n' + 2)
      let p ← fill none n (n' - n) p
      let p ← put p n' fake.1
      put p (n' + 1) fake.2) := by
  refine (resize_ends memory old (by omega)).bind ?_
  rintro p ⟨new, rfl, hsum⟩
  have hp : (old ++ new).length = n' + 2 := by simpa using hsum
  refine ends_of_eq (fill_eq none n (n' - n) (by omega)) ?_
  generalize hq : (old ++ new).take n ++ List.replicate (n' - n) none ++
    (old ++ new).drop (n + (n' - n)) = q
  have hqlen : q.length = n' + 2 := by
    rw [← hq]
    simp only [List.length_append, List.length_take, List.length_replicate, List.length_drop]
      at hp ⊢
    omega
  have hentry : ∀ fd < n', q[fd]? = some (entry fd) := by
    intro fd hfd
    have htake : ((old ++ new).take n).length = n := by
      rw [List.length_take]
      omega
    rw [← hq, List.append_assoc]
    rcases Nat.lt_or_ge fd n with hlt | hge
    · have hin := hold fd hlt
      have holen := (List.getElem?_eq_some_iff.mp hin).1
      rw [List.getElem?_append_left (by omega), List.getElem?_take_of_lt hlt,
        List.getElem?_append_left holen, hin]
    · rw [List.getElem?_append_right (by omega), htake,
        List.getElem?_append_left (by rw [List.length_replicate]; omega),
        List.getElem?_replicate, if_pos (by omega), hnone fd hge]
  refine ends_of_eq (put_eq (by omega) _) ?_
  rw [put_eq (by simp; omega)]
  refine ⟨by simpa using hqlen, ?_⟩
  intro fd hfd
  rw [List.getElem?_set_ne (by omega), List.getElem?_set_ne (by omega)]
  exact hentry fd hfd

theorem fakeWatchers_eq (h : Refines made m loop) : ∃ fake, fakeWatchers m = .ok fake := by
  unfold fakeWatchers
  split
  · exact ⟨_, rfl⟩
  · rename_i hne
    have hlen := h.room.resolve_left (fun hnil => hne hnil.1)
    have hlimit := h.limit
    have hn := h.nwatchers
    have hone : (m.nwatchers + 1).toNat = loop.nwatchers + 1 := by bv_omega
    rw [get_eq (List.getElem?_eq_getElem (i := m.nwatchers.toNat) (by rw [h.nwatchers]; omega)),
      get_eq (List.getElem?_eq_getElem (i := (m.nwatchers + 1).toNat) (by rw [hone]; omega))]
    exact ⟨_, rfl⟩

/-- The table has an entry for each descriptor below `len` after `maybe_resize`. -/
theorem maybeResize_ends [DecidableEq ω] (h : Refines made m loop) (r : Realloc ω)
    (hnone : ∀ fd, loop.nwatchers ≤ fd → loop.watchers fd = none) (len : BitVec 32)
    (hlen : len.toNat + 2 ≤ 2 ^ 31) :
    Ends (fun m' => Refines made m' (uv.maybeResize loop len.toNat)) (maybeResize r m len) := by
  unfold maybeResize uv.maybeResize
  rw [h.nwatchers]
  split
  · exact h
  · rename_i hgt
    have hplus : (len + 2).toNat = len.toNat + 2 := by bv_omega
    obtain ⟨hpow, hpowle⟩ := nextPowerOfTwo_toNat (len + 2) (by omega) (by omega)
    have hge := le_nextPowerOfTwo (len.toNat + 2)
    rw [hplus] at hpow hpowle
    have hnew : (nextPowerOfTwo (len + 2) - 2).toNat = uv.nextPowerOfTwo (len.toNat + 2) - 2 := by
      bv_omega
    generalize nextPowerOfTwo (len + 2) - 2 = nwatchers at hnew
    have hroom : (nwatchers + 2).toNat = nwatchers.toNat + 2 := by bv_omega
    have hlast : (nwatchers + 1).toNat = nwatchers.toNat + 1 := by bv_omega
    obtain ⟨fake, hfake⟩ := fakeWatchers_eq h
    have hold : m.watchers.length ≤ loop.nwatchers + 2 := by
      rcases h.room with ⟨hnil, -⟩ | heq
      · simp [hnil]
      · exact Nat.le_of_eq heq
    refine ends_of_eq hfake ?_
    have hgrow := grow_ends nwatchers.toNat (r.watchers (nwatchers.toNat + 2)) fake
      (by omega) hold h.entries hnone
    have hrest := hgrow.bind (Q := fun m' => Refines made m'
      { loop with nwatchers := uv.nextPowerOfTwo (len.toNat + 2) - 2 })
      (f := fun watchers => .ok { m with watchers, nwatchers }) (fun watchers htable =>
        { h with
          nwatchers := hnew
          room := Or.inr (hnew ▸ htable.length)
          entries := hnew ▸ htable.entries
          limit := by simp only; omega })
    simpa only [bind_assoc, hroom, hlast] using hrest

/-- A watcher that is in no queue goes to the end of this one. -/
theorem Refines.insertTail [DecidableEq ω] (h : Refines made m loop) {w : ω} (hw : made w)
    (hq : w ∉ loop.watcherQueue) :
    Refines made { m with watcherQueue := uvQueueInsertTail m.watcherQueue .head (.io w) }
      { loop with watcherQueue := loop.watcherQueue ++ [w] } := by
  have hout : QueueNode.io w ∉ QueueNode.head :: loop.watcherQueue.map .io :=
    fun hmem => hq (mem_nodes_iff.mp hmem)
  refine { h with queue := ?_, alone := ?_, queued := ?_ }
  · simpa using uvQueueInsertTail_ring h.queue hout
  · intro w' hw' hnot
    rw [List.mem_append, List.mem_singleton, not_or] at hnot
    exact uvQueueInsertTail_alone h.queue (h.alone w' hw' hnot.1) (by simpa using hnot.2)
      (fun hmem => hnot.1 (mem_nodes_iff.mp hmem))
  · intro w' hw'
    rcases List.mem_append.mp hw' with hin | hin
    · exact h.queued w' hin
    · rw [List.mem_singleton.mp hin]
      exact hw

/-- The same as `uv__io_start` does it, for any watcher. -/
theorem Refines.enqueue [DecidableEq ω] (h : Refines made m loop) {w : ω} (hw : made w) :
    Refines made
      (if uvQueueEmpty m.watcherQueue (.io w) then
        { m with watcherQueue := uvQueueInsertTail m.watcherQueue .head (.io w) } else m)
      (if w ∈ loop.watcherQueue then loop
        else { loop with watcherQueue := loop.watcherQueue ++ [w] }) := by
  by_cases hq : w ∈ loop.watcherQueue
  · rw [if_pos hq, if_neg (fun he => (h.empty_iff hw).mp he hq)]
    exact h
  · rw [if_neg hq, if_pos ((h.empty_iff hw).mpr hq)]
    exact h.insertTail hw hq

/-- A watcher leaves the queue, if it is there. -/
theorem Refines.dequeue [DecidableEq ω] (h : Refines made m loop) {w : ω} (hw : made w) :
    Refines made
      { m with watcherQueue := uvQueueInit (uvQueueRemove m.watcherQueue (.io w)) (.io w) }
      { loop with watcherQueue := loop.watcherQueue.erase w } := by
  have hnodup : loop.watcherQueue.Nodup := (List.nodup_cons.mp h.queue.nodup).2.of_map _
  have hself : ∀ m' : Links (QueueNode ω), Alone (uvQueueInit m' (.io w)) (.io w) :=
    fun m' => uvQueueInit_alone m' _
  have hgone : w ∉ loop.watcherQueue.erase w := hnodup.not_mem_erase
  have hout : QueueNode.io w ∉ QueueNode.head :: (loop.watcherQueue.erase w).map .io :=
    fun hmem => hgone (mem_nodes_iff.mp hmem)
  refine { h with queue := ?_, alone := ?_, queued := ?_ }
  · refine uvQueueInit_ring ?_ hout
    by_cases hq : w ∈ loop.watcherQueue
    · obtain ⟨q1, q2, hsplit⟩ := List.append_of_mem hq
      have hnot : w ∉ q1 := by
        rw [hsplit, List.nodup_append] at hnodup
        exact fun hin => hnodup.2.2 w hin w List.mem_cons_self rfl
      have hring := h.queue
      rw [hsplit, List.map_append, List.map_cons] at hring
      rw [hsplit, List.erase_append_right _ hnot, List.erase_cons_head, List.map_append]
      exact uvQueueRemove_ring hring
    · rw [List.erase_of_not_mem hq, uvQueueRemove_alone (h.alone w hw hq)]
      exact h.queue
  · intro w' hw' hnot
    by_cases hne : w' = w
    · rw [hne]
      exact hself _
    · have hnot' : w' ∉ loop.watcherQueue := fun hin => hnot ((List.mem_erase_of_ne hne).mpr hin)
      refine uvQueueInit_alone_other ?_ (by simpa using hne)
      by_cases hq : w ∈ loop.watcherQueue
      · exact uvQueueRemove_alone_other h.queue (h.alone w' hw' hnot') (List.mem_map_of_mem hq)
          (fun hmem => hnot' (mem_nodes_iff.mp hmem))
      · rw [uvQueueRemove_alone (h.alone w hw hq)]
        exact h.alone w' hw' hnot'
  · exact fun w' hw' => h.queued w' (List.mem_of_mem_erase hw')

/-- The entry of a descriptor inside the table. -/
theorem Refines.get_entry (h : Refines made m loop) {fd : Nat} (hfd : fd < loop.nwatchers) :
    get m.watchers fd = .ok (loop.watchers fd) := get_eq (h.entries fd hfd)

theorem Refines.put_entry (h : Refines made m loop) {fd : Nat} (hfd : fd < loop.nwatchers)
    (entry : Option ω) (f : Nat → Nat) :
    put m.watchers fd entry = .ok (m.watchers.set fd entry) ∧
      Refines made { m with watchers := m.watchers.set fd entry, nfds := f m.nfds }
        { loop with watchers := Function.update loop.watchers fd entry, nfds := f loop.nfds } := by
  have hlen : m.watchers.length = loop.nwatchers + 2 :=
    h.room.resolve_left (fun hnil => by omega)
  refine ⟨put_eq (by omega) entry, { h with room := ?_, entries := ?_, nfds := ?_ }⟩
  · exact Or.inr (by simpa using hlen)
  · intro fd' hfd'
    show (m.watchers.set fd entry)[fd']? = some (Function.update loop.watchers fd entry fd')
    by_cases he : fd = fd'
    · subst he
      rw [List.getElem?_set_self (by omega), Function.update_self]
    · rw [List.getElem?_set_ne he, Function.update_of_ne (Ne.symm he)]
      exact h.entries fd' hfd'
  · exact congrArg f h.nfds

/-- `uv__io_start` on a descriptor whose table still fits an `unsigned int`. -/
theorem uvIoStart_ends [DecidableEq ω] (h : Refines made m loop) (r : Realloc ω) {mask : Events}
    (ht : TableOk mask loop) {w : ω} (hw : made w) {events : Events}
    (hev : events &&& ~~~(UV_POLLIN ||| UV_POLLOUT) = 0) (hne : events ≠ 0)
    (hfd : 0 ≤ (loop.io w).fd) (hlt : (loop.io w).fd + 3 ≤ 2 ^ 31) :
    Ends (fun m' => Refines made m' (uv.uvIoStart loop w events)) (uvIoStart r m w events) := by
  have hio : m.io w = loop.io w := by rw [h.io]
  have hnone : ∀ fd, loop.nwatchers ≤ fd → loop.watchers fd = none := by
    intro fd hle
    rw [Option.eq_none_iff_forall_ne_some]
    intro w' hw'
    have := ht.fd_lt fd w' hw'
    omega
  unfold uvIoStart uv.uvIoStart
  dsimp only
  rw [hio]
  refine ends_of_eq (check_eq hev) (ends_of_eq (check_eq hne) (ends_of_eq (check_eq hfd)
    (ends_of_eq (check_eq (by unfold INT_MAX; omega)) ?_)))
  have hlen : (BitVec.ofInt 32 ((loop.io w).fd + 1)).toNat = (loop.io w).fd.toNat + 1 := by
    rw [BitVec.toNat_ofInt]
    omega
  have hset := h.setIo w { loop.io w with pevents := (loop.io w).pevents ||| events }
  have hresize := maybeResize_ends hset r hnone (BitVec.ofInt 32 ((loop.io w).fd + 1)) (by omega)
  have hroom := (maybeResize_nwatchers (loop.setIo w
    { loop.io w with pevents := (loop.io w).pevents ||| events }) ((loop.io w).fd.toNat + 1)).1
  rw [hlen] at hresize
  refine hresize.bind ?_
  generalize uv.maybeResize _ _ = loop' at *
  intro m' h'
  have hqueue := h'.enqueue hw
  generalize (if uvQueueEmpty m'.watcherQueue (.io w) then
    { m' with watcherQueue := uvQueueInsertTail m'.watcherQueue .head (.io w) } else m') = m''
    at hqueue ⊢
  have hin : (loop.io w).fd.toNat < (if w ∈ loop'.watcherQueue then loop'
      else { loop' with watcherQueue := loop'.watcherQueue ++ [w] }).nwatchers := by
    split <;> exact hroom
  generalize (if w ∈ loop'.watcherQueue then loop'
    else { loop' with watcherQueue := loop'.watcherQueue ++ [w] }) = loop'' at hqueue hin ⊢
  refine ends_of_eq (hqueue.get_entry hin) ?_
  cases hentry : loop''.watchers (loop.io w).fd.toNat with
  | none =>
    obtain ⟨hput, hdone⟩ := hqueue.put_entry hin (some w) (· + 1)
    exact ends_of_eq hput hdone
  | some _ => exact hqueue

/-- `uv__io_stop`, where a watcher in the table is counted. -/
theorem uvIoStop_ends [DecidableEq ω] (h : Refines made m loop) {w : ω} (hw : made w)
    {events : Events} (hev : events &&& ~~~(UV_POLLIN ||| UV_POLLOUT) = 0) (hne : events ≠ 0)
    (hfd : -1 ≤ (loop.io w).fd) (hcount : ∀ fd, loop.watchers fd = some w → 0 < loop.nfds) :
    Ends (fun m' => Refines made m' (uv.uvIoStop loop w events)) (uvIoStop m w events) := by
  have hio : m.io w = loop.io w := by rw [h.io]
  unfold uvIoStop uv.uvIoStop
  rw [hio, h.nwatchers]
  refine ends_of_eq (check_eq hev) (ends_of_eq (check_eq hne) ?_)
  by_cases hgone : (loop.io w).fd = -1
  · simp only [hgone, ↓reduceIte]
    exact h
  · simp only [hgone, ↓reduceIte]
    refine ends_of_eq (check_eq (by omega)) ?_
    by_cases hout : loop.nwatchers ≤ (loop.io w).fd.toNat
    · simp only [hout, ↓reduceIte]
      exact h
    · have hin : (loop.io w).fd.toNat < loop.nwatchers := by omega
      simp only [hout, ↓reduceIte]
      split
      · have hleft := (h.setIo w { loop.io w with
          pevents := (loop.io w).pevents &&& ~~~events, events := 0 }).dequeue hw
        refine ends_of_eq (hleft.get_entry hin) ?_
        split
        · rename_i hself
          obtain ⟨hput, hdone⟩ := hleft.put_entry hin none (· - 1)
          have hpos : 0 < m.nfds := by
            rw [h.nfds]
            exact hcount _ hself
          exact ends_of_eq (check_eq hpos) (ends_of_eq hput hdone)
        · exact hleft
      · by_cases hq : w ∈ loop.watcherQueue
        · rw [if_pos hq, if_neg (fun he => (h.empty_iff hw).mp he hq)]
          exact h.setIo w _
        · rw [if_neg hq, if_pos ((h.empty_iff hw).mpr hq)]
          exact (h.setIo w _).insertTail hw hq

/-- A watcher that is in no queue, with new fields. -/
theorem initIo_refines [DecidableEq ω] (h : Refines made m loop) {w : ω}
    (hw : w ∉ loop.watcherQueue) (io : UvIo) :
    Refines (fun w' => made w' ∨ w' = w) (initIo m w io) (loop.setIo w io) := by
  have hout : QueueNode.io w ∉ QueueNode.head :: loop.watcherQueue.map .io :=
    fun hmem => hw (mem_nodes_iff.mp hmem)
  refine { h.setIo w io with
    queue := uvQueueInit_ring h.queue hout
    alone := ?_
    queued := fun w' hw' => Or.inl (h.queued w' hw') }
  intro w' hw' hnot
  by_cases hne : w' = w
  · rw [hne]
    exact uvQueueInit_alone _ _
  · exact uvQueueInit_alone_other (h.alone w' (hw'.resolve_right hne) hnot) (by simpa using hne)

/-! ## One poll -/

theorem uvPollfdsAdd_queue [DecidableEq ω] (loop : UvLoop ω) (q : List ω) (w : ω) :
    uv.uvPollfdsAdd { loop with watcherQueue := q } w =
      { uv.uvPollfdsAdd loop w with watcherQueue := q } := by
  unfold uv.uvPollfdsAdd
  by_cases hit : loop.pollFdsIterating = true
  · simp [hit]
  · cases hfind : loop.pollFds.findIdx? (fun pe => pe.fd = (loop.io w).fd) <;>
      simp [hit, hfind]

/-- The loop over the queue, with as many turns as there are watchers. -/
theorem drain_ends [DecidableEq ω] {mask : Events} (r : Realloc ω) {q : List ω} {k : Nat}
    (hk : q.length ≤ k) (h : Refines made m { loop with watcherQueue := q })
    (hq : LoopOk mask loop q) (hit : loop.pollFdsIterating = false) :
    Ends (fun m' => Refines made m' (q.foldl
        (fun loop w =>
          let loop := uv.uvPollfdsAdd loop w
          loop.setIo w { loop.io w with events := (loop.io w).pevents })
        { loop with watcherQueue := [] })) (drainWatcherQueue r k m) := by
  induction q generalizing m loop k with
  | nil =>
    have hempty : uvQueueEmpty m.watcherQueue .head = true := (uvQueueEmpty_iff h.queue).mpr rfl
    cases k <;> rw [drainWatcherQueue, if_pos hempty] <;> exact h
  | cons w q ih =>
    obtain ⟨k, rfl⟩ : ∃ k', k = k' + 1 := ⟨k - 1, by simp at hk; omega⟩
    have hempty : ¬ uvQueueEmpty m.watcherQueue .head = true :=
      fun he => by simpa using (uvQueueEmpty_iff h.queue).mp he
    have hhead : uvQueueHead m.watcherQueue .head = .io w := h.queue.next_head
    obtain ⟨hne, hfd, hlt⟩ := hq.queued_fd List.mem_cons_self
    have hio : m.io w = loop.io w := by rw [h.io]
    have hsigned : m.nwatchers.toInt = loop.nwatchers := by
      have hn := h.nwatchers
      have hlimit := h.limit
      rw [BitVec.toInt_eq_toNat_of_lt (by omega), hn]
    have hleft : Refines made { m with
        watcherQueue := uvQueueInit (uvQueueRemove m.watcherQueue (.io w)) (.io w) }
        { loop with watcherQueue := q } := by
      have hgone := h.dequeue (h.queued w List.mem_cons_self)
      rwa [show (w :: q).erase w = q from List.erase_cons_head w q] at hgone
    rw [drainWatcherQueue, if_neg hempty, hhead]
    simp only
    rw [hio, hsigned]
    refine ends_of_eq (check_eq hne) (ends_of_eq (check_eq hfd) (ends_of_eq (check_eq hlt) ?_))
    refine (uvPollfdsAdd_ends hleft r w).bind ?_
    intro m' h'
    rw [uvPollfdsAdd_queue] at h'
    have hadd := hq.add hit
    have hit' := (uvPollfdsAdd_rest loop w).1.trans hit
    rw [List.foldl_cons, uvPollfdsAdd_queue]
    generalize uv.uvPollfdsAdd loop w = loop' at *
    have hio' : m'.io w = loop'.io w := by rw [h'.io]
    rw [hio']
    exact ih (by simpa using hk) (h'.setIo w _)
      (hadd.same_slots (setEvents_same loop' w _) rfl rfl) hit'

theorem drainWatcherQueue_ends [DecidableEq ω] {mask : Events} (r : Realloc ω) {turns : Nat}
    (h : Refines made m loop) (hturns : loop.watcherQueue.length ≤ turns)
    (hok : LoopOk mask loop loop.watcherQueue) (hit : loop.pollFdsIterating = false) :
    Ends (fun m' => Refines made m' (uv.drainWatcherQueue loop)) (drainWatcherQueue r turns m) :=
  drain_ends r hturns h hok hit

theorem isereTcpPoll_ends [DecidableEq ω] (h : Refines made m loop) (ready : Int)
    (revents : Nat → Events) :
    Ends (fun m' => Refines made m' (uv.isereTcpPoll loop ready revents))
      (isereTcpPoll m ready revents) := by
  have hfits : ¬ m.pollFds.length < loop.pollFds.length := by
    have := h.slots.length_le
    omega
  unfold isereTcpPoll uv.isereTcpPoll
  rw [h.used, if_neg hfits]
  split
  · exact h
  · refine h.withSlots ?_ (by simp) (by simp)
    obtain ⟨n, hn⟩ := h.slots
    refine ⟨n, ?_⟩
    rw [hn, List.mapIdx_append]
    congr 1
    · apply List.ext_getElem (by simp)
      intro i hi _
      rw [List.length_mapIdx] at hi
      simp [hi]
    · apply List.ext_getElem (by simp)
      intro i hi _
      simp

/-- `uv__io_poll` up to its loop over the slots. -/
theorem uvIoPoll_ends [DecidableEq ω] {mask : Events} (r : Realloc ω) {turns : Nat}
    (h : Refines made m loop) (hturns : loop.watcherQueue.length ≤ turns)
    (hok : LoopOk mask loop loop.watcherQueue) (hit : loop.pollFdsIterating = false)
    (ready : Int) (eintr : Bool) (revents : Nat → Events) :
    Ends (fun m' => Refines made m'
      (if loop.nfds = 0 then loop
        else if ready < 0 ∧ !eintr then
          uv.isereTcpPoll (uv.drainWatcherQueue loop) ready revents
        else { uv.isereTcpPoll (uv.drainWatcherQueue loop) ready revents with
          pollFdsIterating := true })) (uvIoPoll r turns m ready eintr revents) := by
  unfold uvIoPoll
  rw [h.nfds]
  split
  · rename_i hnone
    have hring := h.queue
    rw [hok.queue_nil hnone] at hring
    exact ends_of_eq (check_eq ((uvQueueEmpty_iff hring).mpr rfl)) h
  · refine (drainWatcherQueue_ends r h hturns hok hit).bind (fun m1 h1 => ?_)
    refine (isereTcpPoll_ends h1 ready revents).bind (fun m2 h2 => ?_)
    split
    · exact h2
    · exact h2.iterate true

/-- A slot with a descriptor is inside the table. -/
theorem uvPollSlot_ends [DecidableEq ω] {mask : Events} (h : Refines made m loop) {q : List ω}
    (hok : LoopOk mask loop q) (i : Nat) :
    Ends (fun r => Refines made r.1 (uv.uvPollSlot loop i).1 ∧ r.2 = (uv.uvPollSlot loop i).2)
      (uvPollSlot m i) := by
  unfold uvPollSlot uv.uvPollSlot
  rw [h.used]
  by_cases hle : loop.pollFds.length ≤ i
  · rw [if_pos hle, List.getElem?_eq_none hle]
    exact ⟨h, rfl⟩
  · have hi : i < loop.pollFds.length := by omega
    have hget := List.getElem?_eq_getElem hi
    rw [if_neg hle, hget]
    refine ends_of_eq (h.slots.get hget) ?_
    simp only
    generalize loop.pollFds[i] = pe at hget
    by_cases hfd : pe.fd = -1
    · rw [if_pos hfd, if_pos hfd]
      exact ⟨h, rfl⟩
    · rw [if_neg hfd, if_neg hfd]
      obtain ⟨hpos, hin⟩ := (hok.inside pe (List.mem_of_getElem? hget)).resolve_left hfd
      have hlt : pe.fd.toNat < loop.nwatchers := by omega
      rw [h.nwatchers]
      refine ends_of_eq (check_eq hpos) (ends_of_eq (check_eq hlt)
        (ends_of_eq (h.get_entry hlt) ?_))
      cases loop.watchers pe.fd.toNat with
      | none => exact (uvPlatformInvalidateFd_ends h hpos).bind (fun m' h' => ⟨h', rfl⟩)
      | some w =>
        have hio : m.io w = loop.io w := by rw [h.io]
        obtain ⟨hput, hset⟩ := h.slots.put hi
          { pe with revents := pe.revents &&& ((loop.io w).pevents ||| POLLERR ||| POLLHUP) }
        simp only
        rw [hio]
        refine ends_of_eq hput ⟨?_, rfl⟩
        exact h.withSlots hset (by simp) (by simp)

end isere.uv.memory
