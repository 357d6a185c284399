-- Buffers side by side in one memory. A string that ends inside its buffer is read
-- from that buffer alone, and a copy that stays inside leaves the other buffers.
import Isere.CString

open cstring

namespace regions

/-- A buffer of `size` bytes, `off` bytes into the memory. -/
structure Region where
  off : Nat
  size : Nat
  deriving DecidableEq, Repr

/-- Where the last byte of a buffer is. -/
def Region.last (b : Region) : Nat := b.off + b.size - 1

/-- The bytes of a buffer. -/
def Region.bytes (b : Region) (m : Bytes) : Bytes := (m.drop b.off).take b.size

/-- The last byte of a buffer is a NUL. -/
def Region.Ended (b : Region) (m : Bytes) : Prop := m[b.last]? = some 0

/-- The `n` bytes from `off` on lie inside the buffer. -/
def Region.Holds (b : Region) (off n : Nat) : Prop := b.off ≤ off ∧ off + n ≤ b.off + b.size

/-- No byte is in both buffers. -/
def Region.Apart (b c : Region) : Prop := b.off + b.size ≤ c.off ∨ c.off + c.size ≤ b.off

instance (b : Region) (off n : Nat) : Decidable (b.Holds off n) :=
  inferInstanceAs (Decidable (_ ∧ _))

instance (b c : Region) : Decidable (b.Apart c) := inferInstanceAs (Decidable (_ ∨ _))

/-- The memory with other bytes in a buffer. -/
def Region.replace (b : Region) (m buf : Bytes) : Bytes :=
  m.take b.off ++ buf ++ m.drop (b.off + b.size)

/-! ## Strings -/

/-- A string is not longer than the bytes before any NUL. -/
theorem strlen_le {buf : Bytes} {k : Nat} (h : buf[k]? = some 0) : strlen buf ≤ k := by
  induction buf generalizing k with
  | nil => simp at h
  | cons b buf ih =>
    unfold strlen
    rw [cstr_cons]
    by_cases hb : b = 0
    · simp [hb]
    · cases k with
      | zero => exact absurd (by simpa using h) hb
      | succ k =>
        have hlen := ih (k := k) (by simpa using h)
        unfold strlen at hlen
        simpa [hb] using hlen

theorem Region.Ended.strlen_lt {b : Region} {m : Bytes} (h : b.Ended m) (hpos : 0 < b.size) :
    strlen (m.drop b.off) < b.size := by
  have hnul : (m.drop b.off)[b.size - 1]? = some 0 := by
    rw [List.getElem?_drop, show b.off + (b.size - 1) = b.last by unfold Region.last; omega]
    exact h
  have hle := strlen_le hnul
  omega

/-- The string of a buffer that ends with a NUL lies inside it. -/
theorem Region.Ended.cstr_bytes {b : Region} {m : Bytes} (h : b.Ended m) (hpos : 0 < b.size) :
    cstr (b.bytes m) = cstr (m.drop b.off) := by
  have hlt := h.strlen_lt hpos
  unfold strlen at hlt
  unfold Region.bytes
  rw [cstr_take, List.take_of_length_le (by omega)]

/-! ## Copies -/

/-- The `n` bytes that `strncpy` writes. -/
def copied (src : Bytes) (n : Nat) : Bytes :=
  cstr (src.take n) ++ List.replicate (n - (cstr (src.take n)).length) 0

theorem copied_length (src : Bytes) (n : Nat) : (copied src n).length = n := by
  have hle : (cstr (src.take n)).length ≤ n :=
    (cstr_length_le _).trans (List.length_take_le _ _)
  unfold copied
  rw [List.length_append, List.length_replicate]
  omega

theorem strncpy_eq (dst : Bytes) (off : Nat) (src : Bytes) (n : Nat) :
    strncpy dst off src n = dst.take off ++ (copied src n ++ dst.drop (off + n)) := by
  unfold strncpy copied
  rw [List.append_assoc]

/-- A copy right behind the bytes `a`. -/
theorem strncpy_append (a b : Bytes) (src : Bytes) (n : Nat) :
    strncpy (a ++ b) a.length src n = a ++ (copied src n ++ b.drop n) := by
  rw [strncpy_eq, List.take_left, List.drop_append, List.drop_eq_nil_of_le (by omega),
    Nat.add_sub_cancel_left, List.nil_append]

theorem strncpy_length {dst : Bytes} {off n : Nat} (src : Bytes) (h : off + n ≤ dst.length) :
    (strncpy dst off src n).length = dst.length := by
  rw [strncpy_eq, List.length_append, List.length_append, copied_length, List.length_take,
    List.length_drop]
  omega

/-- A copy changes no byte outside its range. -/
theorem strncpy_frame {dst : Bytes} {off n j : Nat} (src : Bytes) (h : off + n ≤ dst.length)
    (hj : j < off ∨ off + n ≤ j) : (strncpy dst off src n)[j]? = dst[j]? := by
  have htake : (dst.take off).length = off := List.length_take_of_le (by omega)
  rw [strncpy_eq]
  rcases hj with hj | hj
  · rw [List.getElem?_append_left (by omega), List.getElem?_take_of_lt hj]
  · rw [List.getElem?_append_right (by omega),
      List.getElem?_append_right (by rw [copied_length]; omega), copied_length, htake,
      List.getElem?_drop]
    congr 1
    omega

/-- A buffer is left as it is by a memory that agrees on its bytes. -/
theorem Region.bytes_congr {b : Region} {m m' : Bytes}
    (h : ∀ j, b.off ≤ j → j < b.off + b.size → m'[j]? = m[j]?) : b.bytes m' = b.bytes m := by
  apply List.ext_getElem?
  intro j
  unfold Region.bytes
  by_cases hj : j < b.size
  · rw [List.getElem?_take_of_lt hj, List.getElem?_take_of_lt hj, List.getElem?_drop,
      List.getElem?_drop]
    exact h _ (by omega) (by omega)
  · rw [List.getElem?_take_eq_none (by omega), List.getElem?_take_eq_none (by omega)]

/-- A copy into one buffer leaves a buffer apart from it. -/
theorem Region.Apart.strncpy {b c : Region} (h : c.Apart b) {m : Bytes} {off n : Nat}
    (src : Bytes) (hin : c.Holds off n) (hlen : c.off + c.size ≤ m.length) :
    b.bytes (strncpy m off src n) = b.bytes m := by
  apply Region.bytes_congr
  intro j hj hj'
  apply strncpy_frame src
  · exact hin.2.trans hlen
  · unfold Region.Holds at hin
    unfold Region.Apart at h
    omega

/-- A copy into a buffer, as a copy of its bytes. -/
theorem Region.bytes_strncpy {b : Region} {m : Bytes} {k n : Nat} (src : Bytes)
    (hin : k + n ≤ b.size) (hlen : b.off + b.size ≤ m.length) :
    b.bytes (cstring.strncpy m (b.off + k) src n) = cstring.strncpy (b.bytes m) k src n := by
  have hpre : (m.take b.off).length = b.off := List.length_take_of_le (by omega)
  have hmid : ((m.drop b.off).take k).length = k := by
    rw [List.length_take, List.length_drop]
    omega
  have hnew : (copied src n).length ≤ b.size - k := by
    rw [copied_length]
    omega
  rw [strncpy_eq, strncpy_eq]
  unfold Region.bytes
  rw [List.take_add, List.append_assoc, List.drop_left' hpre, List.take_take,
    Nat.min_eq_left (show k ≤ b.size by omega), List.take_append, hmid,
    List.take_of_length_le (show ((m.drop b.off).take k).length ≤ b.size by omega),
    List.take_append, copied_length, List.take_of_length_le hnew, List.drop_take, List.drop_drop,
    ← Nat.add_assoc, Nat.sub_sub]

/-- A copy that leaves the last byte of every buffer leaves them ended. -/
theorem Region.Ended.strncpy {b : Region} {m : Bytes} (h : b.Ended m) {off n : Nat} (src : Bytes)
    (hlen : off + n ≤ m.length) (hout : b.last < off ∨ off + n ≤ b.last) :
    b.Ended (cstring.strncpy m off src n) := by
  unfold Region.Ended
  rw [strncpy_frame src hlen hout]
  exact h

/-! ## Other bytes in a buffer -/

section Replace

variable {b : Region} {m buf : Bytes}

theorem Region.bytes_length (hlen : b.off + b.size ≤ m.length) : (b.bytes m).length = b.size := by
  unfold Region.bytes
  rw [List.length_take, List.length_drop]
  omega

theorem Region.replace_length (hbuf : buf.length = b.size) (hlen : b.off + b.size ≤ m.length) :
    (b.replace m buf).length = m.length := by
  unfold Region.replace
  rw [List.length_append, List.length_append, List.length_take, List.length_drop]
  omega

theorem Region.bytes_replace (hbuf : buf.length = b.size) (hlen : b.off + b.size ≤ m.length) :
    b.bytes (b.replace m buf) = buf := by
  have hpre : (m.take b.off).length = b.off := List.length_take_of_le (by omega)
  unfold Region.bytes Region.replace
  rw [List.append_assoc, List.drop_left' hpre, List.take_left' hbuf]

theorem Region.replace_frame (hbuf : buf.length = b.size) (hlen : b.off + b.size ≤ m.length)
    {j : Nat} (hj : j < b.off ∨ b.off + b.size ≤ j) : (b.replace m buf)[j]? = m[j]? := by
  have hpre : (m.take b.off).length = b.off := List.length_take_of_le (by omega)
  unfold Region.replace
  rw [List.append_assoc]
  rcases hj with hj | hj
  · rw [List.getElem?_append_left (by omega), List.getElem?_take_of_lt hj]
  · rw [List.getElem?_append_right (by omega), List.getElem?_append_right (by omega),
      List.getElem?_drop, hpre, hbuf]
    congr 1
    omega

/-- The last byte, as a byte of the buffer. -/
theorem Region.ended_iff (hpos : 0 < b.size) : b.Ended m ↔ (b.bytes m)[b.size - 1]? = some 0 := by
  unfold Region.Ended Region.bytes Region.last
  rw [List.getElem?_take_of_lt (by omega), List.getElem?_drop, Nat.add_sub_assoc hpos]

end Replace

end regions
