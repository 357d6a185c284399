-- The connection counter of portable/linux/src/tcp.c. Every close of every
-- socket takes one from it, and only a successful accept adds one.
import Mathlib.Data.UInt

namespace isere.tcp

/-- The static state of the module: `__num_of_tcp_conns`. -/
structure Tcp where
  numOfTcpConns : UInt32
  deriving DecidableEq, Repr

/-- `isere_tcp_close`. The descriptor goes to `close` and is not looked at. -/
def isereTcpClose (t : Tcp) (_fd : Int) : Tcp := { t with numOfTcpConns := t.numOfTcpConns - 1 }

/-- The limit check at the start of `isere_tcp_accept`. -/
def atLimit (maxConns : UInt32) (t : Tcp) : Bool := decide (maxConns ≤ t.numOfTcpConns)

/-- `isere_tcp_accept`, for the descriptor or the error that `accept` gives.
`EINTR` is an error too: the second check of the source sends it to `-1`. -/
def isereTcpAccept (maxConns : UInt32) (t : Tcp) (os : Int) : Tcp × Int :=
  if atLimit maxConns t then (t, -1)
  else if os < 0 then (t, -1)
  else ({ t with numOfTcpConns := t.numOfTcpConns + 1 }, os)

theorem isereTcpAccept_cases (maxConns : UInt32) (t : Tcp) (os : Int) :
    (isereTcpAccept maxConns t os = (t, -1)) ∨
      (atLimit maxConns t = false ∧ 0 ≤ os ∧
        isereTcpAccept maxConns t os = ({ t with numOfTcpConns := t.numOfTcpConns + 1 }, os)) := by
  unfold isereTcpAccept
  cases h : atLimit maxConns t with
  | true => simp
  | false =>
    by_cases hos : os < 0
    · simp [hos]
    · simp [hos, Int.not_lt.mp hos]

end isere.tcp
