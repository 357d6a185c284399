-- The intrusive queue of include/libuv/queue.h, pointer by pointer, and the
-- ring that each of its operations leaves behind.
import Isere.IntrusiveRing

open intrusive

namespace isere.uv

variable {α : Type} [DecidableEq α]

/-! ## The operations -/

def uvQueueInit (m : Links α) (q : α) : Links α := (m.setNext q q).setPrev q q

def uvQueueEmpty (m : Links α) (q : α) : Bool := decide (q = m.next q)

def uvQueueHead (m : Links α) (q : α) : α := m.next q

def uvQueueInsertTail (m : Links α) (h q : α) : Links α :=
  let m := m.setNext q h
  let m := m.setPrev q (m.prev h)
  let m := m.setNext (m.prev q) q
  m.setPrev h q

def uvQueueRemove (m : Links α) (q : α) : Links α :=
  let m := m.setNext (m.prev q) (m.next q)
  m.setPrev (m.next q) (m.prev q)

/-! ## The rings they leave -/

theorem uvQueueInit_alone (m : Links α) (q : α) : Alone (uvQueueInit m q) q := by
  simp [Alone, uvQueueInit]

/-- The init of a node outside a ring does not touch the ring. -/
theorem uvQueueInit_ring {m : Links α} {h q : α} {l : List α} (r : Ring m h l) (hq : q ∉ h :: l) :
    Ring (uvQueueInit m q) h l := by
  have hne : ∀ x ∈ h :: l, x ≠ q := fun x hx he => hq (he ▸ hx)
  apply r.congr
  · intro x hx
    simp [uvQueueInit, hne x hx]
  · intro x hx
    simp [uvQueueInit, hne x hx]

theorem uvQueueEmpty_iff {m : Links α} {h : α} {l : List α} (r : Ring m h l) :
    uvQueueEmpty m h = true ↔ l = [] := by
  simp only [uvQueueEmpty, decide_eq_true_eq]
  rw [eq_comm]
  exact r.next_head_eq_iff

theorem uvQueueInsertTail_ring {m : Links α} {h q : α} {l : List α} (r : Ring m h l)
    (hq : q ∉ h :: l) : Ring (uvQueueInsertTail m h q) h (l ++ [q]) := by
  apply r.insert hq
  · intro x
    simp [uvQueueInsertTail]
  · intro x
    simp [uvQueueInsertTail]

theorem uvQueueRemove_ring {m : Links α} {h q : α} {l1 l2 : List α}
    (r : Ring m h (l1 ++ q :: l2)) : Ring (uvQueueRemove m q) h (l1 ++ l2) := by
  have hnp : q ≠ m.prev q := by
    intro he
    have hinv := (r.inverse (q := q) (by simp)).2
    rw [← he] at hinv
    exact r.next_ne_self (by simp) hinv
  apply r.unlink
  · intro x
    simp [uvQueueRemove]
  · intro x
    simp [uvQueueRemove, hnp]

/-- The removal of a node that is in no ring does nothing. -/
theorem uvQueueRemove_alone {m : Links α} {q : α} (ha : Alone m q) : uvQueueRemove m q = m := by
  obtain ⟨hn, hp⟩ := ha
  obtain ⟨next, prev⟩ := m
  simp only at hn hp
  simp only [uvQueueRemove, Links.setNext, Links.setPrev, hn, hp, Function.update_self]
  congr 1
  · exact Function.update_eq_self_iff.mpr hn.symm
  · exact Function.update_eq_self_iff.mpr hp.symm

/-! ## The nodes outside of the ring -/

theorem uvQueueInit_alone_other {m : Links α} {q x : α} (hx : Alone m x) (hne : x ≠ q) :
    Alone (uvQueueInit m q) x := by
  simpa [Alone, uvQueueInit, hne] using hx

/-- An insert touches the new node and the ring. -/
theorem uvQueueInsertTail_alone {m : Links α} {h q x : α} {l : List α} (r : Ring m h l)
    (hx : Alone m x) (hne : x ≠ q) (hout : x ∉ h :: l) : Alone (uvQueueInsertTail m h q) x := by
  have hlast : x ≠ m.prev h := fun he => hout (he ▸ (r.closed List.mem_cons_self).2)
  have hhead : x ≠ h := fun he => hout (he ▸ List.mem_cons_self)
  simpa [Alone, uvQueueInsertTail, hne, hlast, hhead] using hx

/-- A remove touches the ring. -/
theorem uvQueueRemove_alone_other {m : Links α} {h q x : α} {l : List α} (r : Ring m h l)
    (hx : Alone m x) (hq : q ∈ l) (hout : x ∉ h :: l) : Alone (uvQueueRemove m q) x := by
  have hmem := r.closed (List.mem_cons_of_mem h hq)
  have hnext : x ≠ m.next q := fun he => hout (he ▸ hmem.1)
  have hprev : x ≠ m.prev q := fun he => hout (he ▸ hmem.2)
  have hnp : q ≠ m.prev q := by
    intro he
    have hinv := (r.inverse (List.mem_cons_of_mem h hq)).2
    rw [← he] at hinv
    exact r.next_ne_self hq hinv
  simpa [Alone, uvQueueRemove, hnext, hprev, hnp] using hx

end isere.uv
