-- The event loop of src/internals/uv_poll.c: the table of watchers, the queue
-- of watchers that wait for a poll slot, and the poll slots themselves. The
-- loop is the same for every task, so the addresses of watchers are a type
-- parameter.
import Mathlib.Data.List.Basic
import Mathlib.Logic.Function.Basic

namespace isere.uv

/-- An event mask: `pevents`, `events` and `revents`. -/
abbrev Events := BitVec 32

def UV_POLLIN : Events := 0x1
def UV_POLLOUT : Events := 0x4
def POLLERR : Events := 0x8
def POLLHUP : Events := 0x10

/-- `struct pollfd`. -/
structure PollFd where
  fd : Int
  events : Events
  revents : Events
  deriving DecidableEq, Repr

/-- `struct uv__io_s`, less the callback and its argument, which the address of
the watcher tells. -/
structure UvIo where
  pevents : Events
  events : Events
  fd : Int
  deriving DecidableEq, Repr

/-- `struct uv_loop_s`, and the watchers that it points to. `pollFds` are the
slots below `poll_fds_used`. `watcherQueue` are the watchers on the queue, from
its head on; the node of any other watcher points at itself. -/
structure UvLoop (ω : Type) where
  pollFds : List PollFd
  pollFdsIterating : Bool
  watcherQueue : List ω
  watchers : Nat → Option ω
  nwatchers : Nat
  nfds : Nat
  io : ω → UvIo

variable {ω : Type} [DecidableEq ω]

/-- `uv__platform_loop_init`, and the fields that its callers set after it. -/
def uvPlatformLoopInit (io : ω → UvIo) : UvLoop ω :=
  { pollFds := [], pollFdsIterating := false, watcherQueue := [], watchers := fun _ => none,
    nwatchers := 0, nfds := 0, io }

def UvLoop.setIo (loop : UvLoop ω) (w : ω) (io : UvIo) : UvLoop ω :=
  { loop with io := Function.update loop.io w io }

/-! ## The poll slots -/

/-- `uv__pollfds_add`: one slot for one descriptor. The array grows as needed,
and an unused slot has no `revents`. -/
def uvPollfdsAdd (loop : UvLoop ω) (w : ω) : UvLoop ω :=
  if loop.pollFdsIterating then loop
  else
    let io := loop.io w
    match loop.pollFds.findIdx? (fun pe => pe.fd = io.fd) with
    | some i =>
      { loop with pollFds := loop.pollFds.modify i (fun pe => { pe with events := io.pevents }) }
    | none =>
      { loop with pollFds := loop.pollFds ++ [{ fd := io.fd, events := io.pevents, revents := 0 }] }

/-- The loop of `uv__pollfds_del` from slot `i` on. The last slot takes the
place of the one that goes. A call with `-1` goes on, and looks again at the
slot that it just filled. -/
def uvPollfdsDelFrom (fd : Int) (fds : List PollFd) (i : Nat) : List PollFd :=
  if h : i < fds.length then
    if fds[i].fd = fd then
      let fds' := (fds.set i (fds.getLast (List.ne_nil_of_length_pos (by omega)))).dropLast
      if fd = -1 then uvPollfdsDelFrom fd fds' i else fds'
    else uvPollfdsDelFrom fd fds (i + 1)
  else fds
termination_by fds.length - i
decreasing_by
  · simp only [List.length_dropLast, List.length_set]
    omega
  · omega

/-- `uv__pollfds_del`. -/
def uvPollfdsDel (loop : UvLoop ω) (fd : Int) : UvLoop ω :=
  if loop.pollFdsIterating then loop
  else { loop with pollFds := uvPollfdsDelFrom fd loop.pollFds 0 }

/-- `uv__platform_invalidate_fd`. -/
def uvPlatformInvalidateFd (loop : UvLoop ω) (fd : Int) : UvLoop ω :=
  if loop.pollFdsIterating then
    { loop with
      pollFds := loop.pollFds.map (fun pe =>
        if pe.fd = fd then { fd := -1, events := 0, revents := 0 } else pe) }
  else uvPollfdsDel loop fd

/-! ## The watchers -/

def nextPowerOfTwo (val : Nat) : Nat :=
  let val := val - 1
  let val := val ||| (val >>> 1)
  let val := val ||| (val >>> 2)
  let val := val ||| (val >>> 4)
  let val := val ||| (val >>> 8)
  let val := val ||| (val >>> 16)
  val + 1

/-- `maybe_resize`. The new entries of the table are empty, as `watchers` is
past `nwatchers`. Descriptors are far below the width of an `unsigned`. -/
def maybeResize (loop : UvLoop ω) (len : Nat) : UvLoop ω :=
  if len ≤ loop.nwatchers then loop
  else { loop with nwatchers := nextPowerOfTwo (len + 2) - 2 }

/-- `uv__io_start`. -/
def uvIoStart (loop : UvLoop ω) (w : ω) (events : Events) : UvLoop ω :=
  let io := loop.io w
  let loop := loop.setIo w { io with pevents := io.pevents ||| events }
  let loop := maybeResize loop (io.fd.toNat + 1)
  let loop :=
    if w ∈ loop.watcherQueue then loop
    else { loop with watcherQueue := loop.watcherQueue ++ [w] }
  match loop.watchers io.fd.toNat with
  | none =>
    { loop with
      watchers := Function.update loop.watchers io.fd.toNat (some w), nfds := loop.nfds + 1 }
  | some _ => loop

/-- `uv__io_stop`. -/
def uvIoStop (loop : UvLoop ω) (w : ω) (events : Events) : UvLoop ω :=
  let io := loop.io w
  if io.fd = -1 then loop
  else if loop.nwatchers ≤ io.fd.toNat then loop
  else
    let io := { io with pevents := io.pevents &&& ~~~events }
    if io.pevents = 0 then
      let loop : UvLoop ω := { loop.setIo w { io with events := 0 } with
        watcherQueue := loop.watcherQueue.erase w }
      if loop.watchers io.fd.toNat = some w then
        { loop with
          watchers := Function.update loop.watchers io.fd.toNat none, nfds := loop.nfds - 1 }
      else loop
    else if w ∈ loop.watcherQueue then loop.setIo w io
    else { loop.setIo w io with watcherQueue := loop.watcherQueue ++ [w] }

/-! ## One poll -/

/-- The loop of `uv__io_poll` that gives the queued watchers their poll slots.
Each watcher leaves the queue before it gets its slot. -/
def drainWatcherQueue (loop : UvLoop ω) : UvLoop ω :=
  loop.watcherQueue.foldl
    (fun loop w =>
      let loop := uvPollfdsAdd loop w
      loop.setIo w { loop.io w with events := (loop.io w).pevents })
    { loop with watcherQueue := [] }

/-- `isere_tcp_poll` over the slots, for the result of `poll` and the events
that it reports. A call that fails may leave the old `revents` in place, and a
negative descriptor never has any. -/
def isereTcpPoll (loop : UvLoop ω) (ready : Int) (revents : Nat → Events) : UvLoop ω :=
  if ready < 0 then loop
  else
    { loop with
      pollFds := loop.pollFds.mapIdx (fun i pe =>
        { pe with revents := if pe.fd < 0 then 0 else revents i }) }

/-- One turn of the loop of `uv__io_poll` over the slots: the loop after it, and
the watcher to call with its events. -/
def uvPollSlot (loop : UvLoop ω) (i : Nat) : UvLoop ω × Option (ω × Events) :=
  match loop.pollFds[i]? with
  | none => (loop, none)
  | some pe =>
    if pe.fd = -1 then (loop, none)
    else
      match loop.watchers pe.fd.toNat with
      | none => (uvPlatformInvalidateFd loop pe.fd, none)
      | some w =>
        let revents := pe.revents &&& ((loop.io w).pevents ||| POLLERR ||| POLLHUP)
        let loop := { loop with pollFds := loop.pollFds.set i { pe with revents } }
        (loop, if revents = 0 then none else some (w, revents))

end isere.uv
