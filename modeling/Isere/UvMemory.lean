-- The event loop of src/internals/uv_poll.c as it stands in memory: the two
-- arrays with their sizes, the links of the watcher queue, and the arithmetic of
-- an unsigned int. A read or a write outside of an array, and an assertion that
-- is false, are faults.
import Isere.CheckedArrays
import Isere.UvLoop
import Isere.UvQueue

open checked intrusive

namespace isere.uv.memory

/-- The nodes of the watcher queue: its head in the loop, and one in each watcher. -/
inductive QueueNode (ω : Type)
  | head
  | io (w : ω)
  deriving DecidableEq, Repr

/-- `struct uv_loop_s`, with the arrays that it points to. An array without cells
is a null pointer. -/
structure LoopMemory (ω : Type) where
  pollFds : List PollFd
  pollFdsUsed : Nat
  pollFdsSize : Nat
  pollFdsIterating : Bool
  watcherQueue : Links (QueueNode ω)
  watchers : List (Option ω)
  nwatchers : BitVec 32
  nfds : Nat
  io : ω → UvIo

/-- What `pvPortRealloc` gives for the two arrays, by the cells that it is asked
for: nothing, or memory with some content. No array is asked for twice with the
same number of cells. -/
structure Realloc (ω : Type) where
  pollFds : Nat → Option (Nat → PollFd)
  watchers : Nat → Option (Nat → Option ω)

variable {ω : Type} [DecidableEq ω]

def LoopMemory.setIo (m : LoopMemory ω) (w : ω) (io : UvIo) : LoopMemory ω :=
  { m with io := Function.update m.io w io }

/-- A slot without a descriptor. -/
def unusedSlot : PollFd := { fd := -1, events := 0, revents := 0 }

/-- `uv__platform_loop_init`, and the fields that its callers set after it. The
nodes of the watchers are as the memory was. -/
def uvPlatformLoopInit (links : Links (QueueNode ω)) (io : ω → UvIo) : LoopMemory ω :=
  { pollFds := [], pollFdsUsed := 0, pollFdsSize := 0, pollFdsIterating := false,
    watcherQueue := uvQueueInit links .head, watchers := [], nwatchers := 0, nfds := 0, io }

/-- What the users of the loop do to a watcher before they start it. -/
def initIo (m : LoopMemory ω) (w : ω) (io : UvIo) : LoopMemory ω :=
  { m.setIo w io with watcherQueue := uvQueueInit m.watcherQueue (.io w) }

/-! ## The poll slots -/

/-- `uv__pollfds_maybe_resize`. -/
def uvPollfdsMaybeResize (r : Realloc ω) (m : LoopMemory ω) : Except Fault (LoopMemory ω) :=
  if m.pollFdsUsed < m.pollFdsSize then .ok m
  else do
    let n := if m.pollFdsSize = 0 then 64 else m.pollFdsSize * 2
    let p ← resize (r.pollFds n) m.pollFds n >>= fill unusedSlot m.pollFdsSize (n - m.pollFdsSize)
    .ok { m with pollFds := p, pollFdsSize := n }

/-- `uv__pollfds_swap`. -/
def uvPollfdsSwap (cells : List PollFd) (l r : Nat) : Except Fault (List PollFd) := do
  let pfd ← get cells l
  let other ← get cells r
  let cells ← put cells l other
  put cells r pfd

/-- The slot of a descriptor among `k` slots, from slot `i` on. -/
def findSlot (cells : List PollFd) (fd : Int) (i : Nat) : Nat → Except Fault (Option Nat)
  | 0 => .ok none
  | k + 1 => do
    let pe ← get cells i
    if pe.fd = fd then .ok (some i) else findSlot cells fd (i + 1) k

/-- `uv__pollfds_add`. -/
def uvPollfdsAdd (r : Realloc ω) (m : LoopMemory ω) (w : ω) : Except Fault (LoopMemory ω) :=
  if m.pollFdsIterating then .ok m
  else do
    let io := m.io w
    match ← findSlot m.pollFds io.fd 0 m.pollFdsUsed with
    | some i =>
      let pe ← get m.pollFds i
      let cells ← put m.pollFds i { pe with events := io.pevents }
      .ok { m with pollFds := cells }
    | none =>
      let m ← uvPollfdsMaybeResize r m
      let pe ← get m.pollFds m.pollFdsUsed
      let cells ← put m.pollFds m.pollFdsUsed { pe with fd := io.fd, events := io.pevents }
      .ok { m with pollFds := cells, pollFdsUsed := m.pollFdsUsed + 1 }

/-- The loop of `uv__pollfds_del` from slot `i` on, with `k` slots to go. -/
def uvPollfdsDelFrom (fd : Int) (m : LoopMemory ω) (i : Nat) :
    Nat → Except Fault (LoopMemory ω)
  | 0 => .ok m
  | k + 1 => do
    let pe ← get m.pollFds i
    if pe.fd = fd then
      let used := m.pollFdsUsed - 1
      let cells ← uvPollfdsSwap m.pollFds i used
      let cells ← put cells used unusedSlot
      let m := { m with pollFds := cells, pollFdsUsed := used }
      if fd ≠ -1 then .ok m else uvPollfdsDelFrom fd m i k
    else uvPollfdsDelFrom fd m (i + 1) k

/-- `uv__pollfds_del`. -/
def uvPollfdsDel (m : LoopMemory ω) (fd : Int) : Except Fault (LoopMemory ω) :=
  if m.pollFdsIterating then .ok m else uvPollfdsDelFrom fd m 0 m.pollFdsUsed

/-- The loop of `uv__platform_invalidate_fd` over `k` slots, from slot `i` on. -/
def invalidateFrom (fd : Int) (i : Nat) : Nat → List PollFd → Except Fault (List PollFd)
  | 0, cells => .ok cells
  | k + 1, cells => do
    let pe ← get cells i
    let cells ← if pe.fd = fd then put cells i unusedSlot else .ok cells
    invalidateFrom fd (i + 1) k cells

/-- `uv__platform_invalidate_fd`. -/
def uvPlatformInvalidateFd (m : LoopMemory ω) (fd : Int) : Except Fault (LoopMemory ω) := do
  check (0 ≤ fd)
  if m.pollFdsIterating then
    let cells ← invalidateFrom fd 0 m.pollFdsUsed m.pollFds
    .ok { m with pollFds := cells }
  else uvPollfdsDel m fd

/-! ## The watchers -/

/-- `next_power_of_two`. -/
def nextPowerOfTwo (val : BitVec 32) : BitVec 32 :=
  let val := val - 1
  let val := val ||| (val >>> 1)
  let val := val ||| (val >>> 2)
  let val := val ||| (val >>> 4)
  let val := val ||| (val >>> 8)
  let val := val ||| (val >>> 16)
  val + 1

/-- The two entries that `maybe_resize` keeps at the end of the table. -/
def fakeWatchers (m : LoopMemory ω) : Except Fault (Option ω × Option ω) :=
  if m.watchers = [] then .ok (none, none)
  else do
    let list ← get m.watchers m.nwatchers.toNat
    let count ← get m.watchers (m.nwatchers + 1).toNat
    .ok (list, count)

/-- `maybe_resize`. -/
def maybeResize (r : Realloc ω) (m : LoopMemory ω) (len : BitVec 32) :
    Except Fault (LoopMemory ω) :=
  if len.toNat ≤ m.nwatchers.toNat then .ok m
  else do
    let fake ← fakeWatchers m
    let nwatchers := nextPowerOfTwo (len + 2) - 2
    let len := (nwatchers + 2).toNat
    let watchers ← resize (r.watchers len) m.watchers len
    let watchers ← fill none m.nwatchers.toNat (nwatchers.toNat - m.nwatchers.toNat) watchers
    let watchers ← put watchers nwatchers.toNat fake.1
    let watchers ← put watchers (nwatchers + 1).toNat fake.2
    .ok { m with watchers, nwatchers }

def INT_MAX : Int := 2147483647

/-- `uv__io_start`. -/
def uvIoStart (r : Realloc ω) (m : LoopMemory ω) (w : ω) (events : Events) :
    Except Fault (LoopMemory ω) := do
  check (events &&& ~~~(UV_POLLIN ||| UV_POLLOUT) = 0)
  check (events ≠ 0)
  check (0 ≤ (m.io w).fd)
  check ((m.io w).fd < INT_MAX)
  let io := m.io w
  let m := m.setIo w { io with pevents := io.pevents ||| events }
  let m ← maybeResize r m (BitVec.ofInt 32 (io.fd + 1))
  let m := if uvQueueEmpty m.watcherQueue (.io w) then
    { m with watcherQueue := uvQueueInsertTail m.watcherQueue .head (.io w) } else m
  match ← get m.watchers io.fd.toNat with
  | none =>
    let watchers ← put m.watchers io.fd.toNat (some w)
    .ok { m with watchers, nfds := m.nfds + 1 }
  | some _ => .ok m

/-- `uv__io_stop`. -/
def uvIoStop (m : LoopMemory ω) (w : ω) (events : Events) : Except Fault (LoopMemory ω) := do
  check (events &&& ~~~(UV_POLLIN ||| UV_POLLOUT) = 0)
  check (events ≠ 0)
  let io := m.io w
  if io.fd = -1 then .ok m
  else
    check (0 ≤ io.fd)
    if m.nwatchers.toNat ≤ io.fd.toNat then .ok m
    else
      let io := { io with pevents := io.pevents &&& ~~~events }
      if io.pevents = 0 then
        let queue := uvQueueInit (uvQueueRemove m.watcherQueue (.io w)) (.io w)
        let m : LoopMemory ω := { m.setIo w { io with events := 0 } with watcherQueue := queue }
        if (← get m.watchers io.fd.toNat) = some w then
          check (0 < m.nfds)
          let watchers ← put m.watchers io.fd.toNat none
          .ok { m with watchers, nfds := m.nfds - 1 }
        else .ok m
      else if uvQueueEmpty m.watcherQueue (.io w) then
        .ok { m.setIo w io with
          watcherQueue := uvQueueInsertTail m.watcherQueue .head (.io w) }
      else .ok (m.setIo w io)

/-! ## One poll -/

/-- The loop of `uv__io_poll` that gives the queued watchers their slots, for as
many turns as it has. -/
def drainWatcherQueue (r : Realloc ω) : Nat → LoopMemory ω → Except Fault (LoopMemory ω)
  | 0, m => if uvQueueEmpty m.watcherQueue .head then .ok m else .error .steps
  | k + 1, m =>
    if uvQueueEmpty m.watcherQueue .head then .ok m
    else
      let q := uvQueueHead m.watcherQueue .head
      let m := { m with watcherQueue := uvQueueInit (uvQueueRemove m.watcherQueue q) q }
      match q with
      | .head => .error .bounds
      | .io w => do
        check ((m.io w).pevents ≠ 0)
        check (0 ≤ (m.io w).fd)
        check ((m.io w).fd < m.nwatchers.toInt)
        let m ← uvPollfdsAdd r m w
        drainWatcherQueue r k (m.setIo w { m.io w with events := (m.io w).pevents })

/-- `isere_tcp_poll` over the slots in use. -/
def isereTcpPoll (m : LoopMemory ω) (ready : Int) (revents : Nat → Events) :
    Except Fault (LoopMemory ω) :=
  if m.pollFds.length < m.pollFdsUsed then .error .bounds
  else if ready < 0 then .ok m
  else
    .ok { m with
      pollFds := m.pollFds.mapIdx (fun i pe =>
        if i < m.pollFdsUsed then { pe with revents := if pe.fd < 0 then 0 else revents i }
        else pe) }

/-- `uv__io_poll` up to its loop over the slots. -/
def uvIoPoll (r : Realloc ω) (turns : Nat) (m : LoopMemory ω) (ready : Int) (eintr : Bool)
    (revents : Nat → Events) : Except Fault (LoopMemory ω) :=
  if m.nfds = 0 then do
    check (uvQueueEmpty m.watcherQueue .head = true)
    .ok m
  else do
    let m ← drainWatcherQueue r turns m
    let m ← isereTcpPoll m ready revents
    if ready < 0 ∧ !eintr then .ok m else .ok { m with pollFdsIterating := true }

/-- One turn of the loop of `uv__io_poll` over the slots. -/
def uvPollSlot (m : LoopMemory ω) (i : Nat) :
    Except Fault (LoopMemory ω × Option (ω × Events)) :=
  if m.pollFdsUsed ≤ i then .ok (m, none)
  else do
    let pe ← get m.pollFds i
    if pe.fd = -1 then .ok (m, none)
    else
      check (0 ≤ pe.fd)
      check (pe.fd.toNat < m.nwatchers.toNat)
      match ← get m.watchers pe.fd.toNat with
      | none =>
        let m ← uvPlatformInvalidateFd m pe.fd
        .ok (m, none)
      | some w =>
        let revents := pe.revents &&& ((m.io w).pevents ||| POLLERR ||| POLLHUP)
        let cells ← put m.pollFds i { pe with revents }
        .ok ({ m with pollFds := cells }, if revents = 0 then none else some (w, revents))

end isere.uv.memory
