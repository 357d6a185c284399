-- C strings in byte buffers: what strlen, strncpy and strdup see and leave.
-- A padded buffer holds a string and zero bytes after it, up to its size.
import Mathlib.Data.List.Basic
import Mathlib.Data.List.TakeWhile

namespace cstring

abbrev Bytes := List UInt8

/-- The bytes of a text in ASCII. -/
def ascii (s : String) : Bytes := s.toList.map (fun c => c.toNat.toUInt8)

/-- The bytes before the first NUL. -/
def cstr (buf : Bytes) : Bytes := buf.takeWhile (· ≠ 0)

def strlen (buf : Bytes) : Nat := (cstr buf).length

/-- `strncpy(dst + off, src, n)`: the string in the first `n` bytes of `src`,
then NULs up to `n` bytes. No NUL is added after a string of `n` bytes. -/
def strncpy (dst : Bytes) (off : Nat) (src : Bytes) (n : Nat) : Bytes :=
  let s := cstr (src.take n)
  dst.take off ++ (s ++ List.replicate (n - s.length) 0) ++ dst.drop (off + n)

/-- The block that `strdup` allocates. -/
def strdup (s : Bytes) : Bytes := cstr s ++ [0]

/-- A buffer of `n` bytes with the string `s` in front and NULs after it. -/
def padded (n : Nat) (s : Bytes) : Bytes := s ++ List.replicate (n - s.length) 0

/-- Padded buffers of `n` bytes, one after the other. -/
def rows (n : Nat) (ss : List Bytes) : Bytes := ss.flatMap (padded n)

/-- The bytes from the first one that is not NUL. -/
def skipNuls (buf : Bytes) : Bytes := buf.dropWhile (· = 0)

/-- The bytes from the first NUL. -/
def skipString (buf : Bytes) : Bytes := buf.dropWhile (· ≠ 0)

/-! ## The string of a buffer -/

theorem cstr_nul_free (buf : Bytes) : 0 ∉ cstr buf := by
  intro h
  simpa using List.mem_takeWhile_imp h

@[simp] theorem cstr_nil : cstr [] = [] := rfl

theorem cstr_cons (b : UInt8) (l : Bytes) : cstr (b :: l) = if b = 0 then [] else b :: cstr l := by
  unfold cstr
  rw [List.takeWhile_cons]
  by_cases h : b = 0 <;> simp [h]

theorem cstr_of_nul_free {s : Bytes} (h : 0 ∉ s) : cstr s = s := by
  unfold cstr
  rw [List.takeWhile_eq_self_iff]
  intro b hb
  have hne : b ≠ 0 := fun he => h (he ▸ hb)
  simpa using hne

/-- A NUL at the end of a buffer does not change its string. -/
theorem cstr_append_nul_any (buf rest : Bytes) : cstr (buf ++ 0 :: rest) = cstr buf := by
  induction buf with
  | nil => simp [cstr_cons]
  | cons b buf ih => rw [List.cons_append, cstr_cons, cstr_cons, ih]

/-- A string with a NUL after it is read up to that NUL. -/
theorem cstr_append_nul {s : Bytes} (h : 0 ∉ s) (rest : Bytes) : cstr (s ++ 0 :: rest) = s := by
  rw [cstr_append_nul_any, cstr_of_nul_free h]

theorem cstr_begins (buf : Bytes) : cstr buf <+: buf := List.takeWhile_prefix _

theorem cstr_length_le (buf : Bytes) : (cstr buf).length ≤ buf.length :=
  (cstr_begins buf).length_le

theorem cstr_take (buf : Bytes) (k : Nat) : cstr (buf.take k) = (cstr buf).take k := by
  induction buf generalizing k with
  | nil => simp
  | cons b buf ih =>
    cases k with
    | zero => simp
    | succ k =>
      rw [List.take_succ_cons, cstr_cons, cstr_cons, ih]
      by_cases h : b = 0 <;> simp [h]

/-- The NUL at the end of a string is there already. -/
theorem set_strlen (buf : Bytes) : buf.set (strlen buf) 0 = buf := by
  unfold strlen
  induction buf with
  | nil => rfl
  | cons b buf ih =>
    rw [cstr_cons]
    by_cases hb : b = 0
    · simp [hb]
    · simpa [hb] using ih

theorem getElem?_strlen {buf : Bytes} (h : strlen buf < buf.length) :
    buf[strlen buf]? = some 0 := by
  have hset := List.getElem?_set_self (a := (0 : UInt8)) h
  rwa [set_strlen] at hset

/-! ## Padded buffers -/

/-- A shorter string is followed by a NUL. -/
theorem padded_eq {n : Nat} {s : Bytes} (h : s.length < n) :
    padded n s = s ++ 0 :: List.replicate (n - s.length - 1) 0 := by
  obtain ⟨k, hk⟩ := Nat.exists_eq_add_of_lt h
  unfold padded
  rw [show n - s.length = k + 1 by omega, List.replicate_succ, Nat.add_sub_cancel]

theorem cstr_padded {n : Nat} {s : Bytes} (h0 : 0 ∉ s) (h : s.length < n) :
    cstr (padded n s) = s := by
  rw [padded_eq h]
  exact cstr_append_nul h0 _

theorem strlen_padded {n : Nat} {s : Bytes} (h0 : 0 ∉ s) (h : s.length < n) :
    strlen (padded n s) = s.length := by
  unfold strlen
  rw [cstr_padded h0 h]

/-- `strncpy` at the end of the string of a padded buffer appends to it, and
leaves the buffer padded. -/
theorem strncpy_padded {n k : Nat} {s : Bytes} (src : Bytes) (h : s.length + k ≤ n) :
    strncpy (padded n s) s.length src k = padded n (s ++ cstr (src.take k)) := by
  have hle : (cstr (src.take k)).length ≤ k :=
    (cstr_length_le _).trans (List.length_take_le _ _)
  generalize ht : cstr (src.take k) = t at hle
  unfold strncpy padded
  simp only [ht]
  rw [List.take_left, List.drop_append]
  simp only [show s.length + k - s.length = k by omega,
    List.drop_eq_nil_of_le (show s.length ≤ s.length + k by omega), List.nil_append,
    List.drop_replicate, List.append_assoc, List.length_append]
  rw [← List.replicate_add]
  congr 3
  omega

/-! ## Strings in parts

A text that comes in parts, each copied up to its first NUL. -/

/-- The bytes of a text without its NULs. -/
def nonNul (s : Bytes) : Bytes := s.filter (· ≠ 0)

@[simp] theorem nonNul_append (s t : Bytes) : nonNul (s ++ t) = nonNul s ++ nonNul t :=
  List.filter_append _ _

theorem nonNul_of_nul_free {s : Bytes} (h : 0 ∉ s) : nonNul s = s := by
  unfold nonNul
  rw [List.filter_eq_self]
  intro b hb
  have hne : b ≠ 0 := fun he => h (he ▸ hb)
  simpa using hne

theorem cstr_begins_nonNul (s : Bytes) : cstr s <+: nonNul s := by
  obtain ⟨t, ht⟩ := cstr_begins s
  have hsplit : nonNul s = cstr s ++ nonNul t := by
    rw [← ht, nonNul_append, ht, nonNul_of_nul_free (cstr_nul_free s)]
  rw [hsplit]
  exact List.prefix_append _ _

/-- The parts keep the string of the whole text, and no NUL of it. -/
theorem parts_between (parts : List Bytes) :
    cstr parts.flatten <+: parts.flatMap cstr ∧
      (parts.flatMap cstr).Sublist (nonNul parts.flatten) := by
  induction parts with
  | nil => exact ⟨List.prefix_rfl, List.Sublist.refl _⟩
  | cons s parts ih =>
    rw [List.flatten_cons, List.flatMap_cons, nonNul_append]
    refine ⟨?_, (cstr_begins_nonNul s).sublist.append ih.2⟩
    by_cases h : 0 ∈ s
    · obtain ⟨a, b, rfl⟩ := List.append_of_mem h
      rw [List.append_assoc, List.cons_append, cstr_append_nul_any, cstr_append_nul_any]
      exact List.prefix_append _ _
    · have hwhole : cstr (s ++ parts.flatten) = s ++ cstr parts.flatten := by
        unfold cstr
        rw [List.takeWhile_append_of_pos]
        intro b hb
        have hne : b ≠ 0 := fun he => h (he ▸ hb)
        simpa using hne
      rw [hwhole, cstr_of_nul_free h]
      exact (List.prefix_append_right_inj s).mpr ih.1

/-- Only NULs follow the first NUL of a text, up to `room` bytes before it. -/
def CleanText (room : Nat) (s : Bytes) : Prop := room ≤ (cstr s).length ∨ cstr s = nonNul s

instance (room : Nat) (s : Bytes) : Decidable (CleanText room s) :=
  inferInstanceAs (Decidable (_ ∨ _))

theorem clean_of_nul_free (room : Nat) {s : Bytes} (h : 0 ∉ s) : CleanText room s := by
  right
  rw [cstr_of_nul_free h, nonNul_of_nul_free h]

/-- The first bytes of a clean text do not depend on its parts. -/
theorem parts_take {room : Nat} {parts : List Bytes} (h : CleanText room parts.flatten) :
    (parts.flatMap cstr).take room = (nonNul parts.flatten).take room := by
  obtain ⟨hbegins, hsub⟩ := parts_between parts
  rcases h with h | h
  · obtain ⟨t, ht⟩ := hbegins
    obtain ⟨u, hu⟩ := cstr_begins_nonNul parts.flatten
    rw [← ht, ← hu, List.take_append_of_le_length h, List.take_append_of_le_length h]
  · rw [← h] at hsub ⊢
    rw [hbegins.sublist.antisymm hsub]

/-- A text that is not clean holds a NUL with another byte right after it. -/
theorem nul_inside {s : Bytes} (h : cstr s ≠ nonNul s) : ∃ a v b, s = a ++ 0 :: v :: b ∧ v ≠ 0 := by
  induction s with
  | nil => exact absurd rfl h
  | cons c s ih =>
    have hlater : cstr s ≠ nonNul s → ∃ a v b, c :: s = a ++ 0 :: v :: b ∧ v ≠ 0 := by
      intro hs
      obtain ⟨a, v, b, rfl, hv⟩ := ih hs
      exact ⟨c :: a, v, b, rfl, hv⟩
    by_cases hc : c = 0
    · subst hc
      cases s with
      | nil => exact absurd rfl h
      | cons v b =>
        by_cases hv : v = 0
        · apply hlater
          subst hv
          exact h
        · exact ⟨[], v, b, rfl, hv⟩
    · apply hlater
      intro hs
      apply h
      rw [cstr_cons, if_neg hc, hs]
      unfold nonNul
      rw [List.filter_cons_of_pos (by simpa using hc)]

/-! ## Rows -/

theorem rows_cons (n : Nat) (s : Bytes) (ss : List Bytes) :
    rows n (s :: ss) = padded n s ++ rows n ss := rfl

theorem skipNuls_replicate (k : Nat) (rest : Bytes) :
    skipNuls (List.replicate k 0 ++ rest) = skipNuls rest := by
  induction k with
  | zero => rfl
  | succ k ih =>
    rw [List.replicate_succ, List.cons_append]
    exact ih

/-- From a NUL-free string, the next NUL is right after it. -/
theorem skipString_append {s : Bytes} (h : 0 ∉ s) (rest : Bytes) :
    skipString (s ++ 0 :: rest) = 0 :: rest := by
  induction s with
  | nil => rfl
  | cons b s ih =>
    rw [List.mem_cons, not_or] at h
    have hb : b ≠ 0 := fun he => h.1 he.symm
    unfold skipString
    rw [List.cons_append, List.dropWhile_cons_of_pos (by simpa using hb)]
    exact ih h.2

/-- Over rows, the first byte that is not NUL starts a row. -/
theorem skipNuls_rows (n : Nat) {ss : List Bytes} (h : ∀ s ∈ ss, 0 ∉ s) :
    skipNuls (rows n ss) = rows n (ss.dropWhile List.isEmpty) := by
  induction ss with
  | nil => rfl
  | cons s ss ih =>
    rw [rows_cons]
    cases s with
    | nil =>
      rw [List.dropWhile_cons_of_pos rfl, ← ih (fun s hs => h s (List.mem_cons_of_mem _ hs))]
      exact skipNuls_replicate _ _
    | cons b s =>
      have hb : b ≠ 0 := fun he => h (b :: s) List.mem_cons_self (he ▸ List.mem_cons_self)
      rw [List.dropWhile_cons_of_neg (by simp)]
      unfold skipNuls padded
      rw [List.cons_append, List.cons_append, List.dropWhile_cons_of_neg (by simpa using hb)]
      rfl

theorem rows_eq_nil_iff {n : Nat} (hn : 0 < n) {ss : List Bytes} : rows n ss = [] ↔ ss = [] := by
  cases ss with
  | nil => simp [rows]
  | cons s ss =>
    have hne : padded n s ≠ [] := by
      unfold padded
      cases s with
      | nil => simpa using Nat.ne_of_gt hn
      | cons b s => simp
    simp [rows_cons, hne]

end cstring
