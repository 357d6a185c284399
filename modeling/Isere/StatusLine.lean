-- The status that __httpd_writeback sends: snprintf cuts the text to its buffer,
-- but the length that it returns is the one of the whole text. Up to three
-- characters both are the same.
import Isere.WireFormat

open cstring

namespace isere.httpd

/-! ## The write of the status -/

/-- What `snprintf` returns for a status, and what the write takes for a length. -/
def statusLen (code : BitVec 32) : Nat := (decimal code.toInt).length

/-- The write of a status, if it stays inside the buffer of `statusCode`. -/
def statusWrite (code : BitVec 32) : Option Bytes :=
  readBlock (statusBuffer (decimal code.toInt)) (statusLen code)

/-- The writeback sends the status with `statusWrite`. -/
theorem headWrites_status (r : Response) : headWrites r =
    (statusWrite r.statusCode).bind (fun status =>
      ((List.range r.numHeaderFields).mapM (headerWrites r)).bind (fun headers =>
        some ([ascii "HTTP/1.1 ", status, ascii "\r\n"] ++ headers.flatten ++
          [ascii "Server: isere\r\n", ascii "Connection: close\r\n", ascii "\r\n"]))) := rfl

/-- The client gets the characters before the NUL of the buffer, at most three,
and nothing else. -/
def StatusIsStored (code : BitVec 32) : Prop :=
  statusLen code ≤ 3 ∧ statusWrite code = some (cstr (statusBuffer (decimal code.toInt)))

/-! ## The length of a number -/

theorem length_ascii (s : String) : (ascii s).length = s.length := by
  simp [ascii, String.length_toList]

/-- At most three characters: two digits after a minus, or three digits. -/
theorem decimal_length_le_iff (n : Int) : (decimal n).length ≤ 3 ↔ -99 ≤ n ∧ n ≤ 999 := by
  unfold decimal
  rw [length_ascii, Int.toString_eq_repr, Int.repr_eq_if]
  split
  · rw [Nat.length_repr_le_iff (by decide)]
    omega
  · have hminus : ("-" : String).length = 1 := by decide
    rw [String.length_append, hminus, Nat.add_comm, Nat.succ_le_succ_iff,
      Nat.length_repr_le_iff (by decide)]
    omega

/-- No character of a number is a NUL. -/
theorem decimal_nul_free (n : Int) : 0 ∉ decimal n :=
  fun h => absurd (mem_decimal h) (by decide)

/-! ## The law -/

/-- The client gets exactly the stored characters just when the status has at
most three of them. -/
theorem the_status_is_sent_as_stored_iff (code : BitVec 32) :
    StatusIsStored code ↔ -99 ≤ code.toInt ∧ code.toInt ≤ 999 := by
  unfold StatusIsStored statusLen
  rw [decimal_length_le_iff]
  constructor
  · exact fun h => h.1
  · intro h
    refine ⟨h, ?_⟩
    have hlen : (decimal code.toInt).length ≤ 3 := (decimal_length_le_iff _).mpr h
    have hbuf : statusBuffer (decimal code.toInt) = decimal code.toInt ++ 0 ::
        (ascii "200" ++ [0]).drop ((decimal code.toInt).length + 1) := by
      unfold statusBuffer
      rw [List.take_of_length_le hlen, List.append_assoc]
      rfl
    unfold statusWrite statusLen readBlock
    rw [hbuf, cstr_append_nul (decimal_nul_free _), if_pos (by simp), List.take_left]

/-- A handler that answers with the status 1000: the write takes four bytes of
the buffer, and the last of them is its NUL. -/
theorem four_digits_send_the_nul : ¬ ∀ (rt : Runtime) (v : HandlerResult) (r : Response),
    rt.handlerCb [v] Response.initial = some r → StatusIsStored r.statusCode := by
  intro h
  have hstored := h .quickjs ⟨some 1000, none, .other⟩ _ rfl
  exact absurd hstored.1 (by decide +kernel)

end isere.httpd
