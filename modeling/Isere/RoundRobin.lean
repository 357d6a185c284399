-- A queue whose first element is served, and then goes to the end or leaves.
-- Between two turns of one element each other one that is there has one turn,
-- and those that stay keep their order around the queue.
import Isere.Runs
import Mathlib.Data.List.Rotate

open runs

namespace roundrobin

variable {α : Type}

/-- The first element has its turn. -/
def turn : List α → Bool → List α
  | [], _ => []
  | a :: q, stays => if stays then q ++ [a] else q

/-- The queue after `n` turns. `stays` says of each turn if its element stays. -/
def queueAt (q : List α) (stays : Nat → Bool) (n : Nat) : List α := after turn q stays n

/-- The elements that had the first `n` turns. -/
def served (q : List α) (stays : Nat → Bool) : Nat → List α
  | 0 => []
  | n + 1 => served q stays n ++ (queueAt q stays n).head?.toList

/-- The elements of a queue that stay at their first turn. -/
def kept (stays : Nat → Bool) : List α → List α
  | [] => []
  | a :: q => (if stays 0 then [a] else []) ++ kept (fun n => stays (n + 1)) q

theorem queueAt_zero (q : List α) (stays : Nat → Bool) : queueAt q stays 0 = q := by
  unfold queueAt
  rw [after_zero]

theorem queueAt_succ (q : List α) (stays : Nat → Bool) (n : Nat) :
    queueAt q stays (n + 1) = turn (queueAt q stays n) (stays n) := by
  unfold queueAt
  rw [after]

theorem queueAt_add (q : List α) (stays : Nat → Bool) (m n : Nat) :
    queueAt q stays (m + n) = queueAt (queueAt q stays m) (fun k => stays (m + k)) n := by
  unfold queueAt
  exact after_add turn q stays m n

theorem served_add (q : List α) (stays : Nat → Bool) (m n : Nat) :
    served q stays (m + n) =
      served q stays m ++ served (queueAt q stays m) (fun k => stays (m + k)) n := by
  induction n with
  | zero => simp [served]
  | succ n ih => rw [← Nat.add_assoc, served, served, ih, queueAt_add, List.append_assoc]

/-- The first turn, and then the others. -/
theorem queueAt_cons (a : α) (q : List α) (stays : Nat → Bool) (n : Nat) :
    queueAt (a :: q) stays (n + 1) =
      queueAt (q ++ if stays 0 then [a] else []) (fun k => stays (k + 1)) n := by
  rw [Nat.add_comm n 1, queueAt_add, queueAt_succ, queueAt_zero]
  unfold turn
  cases stays 0 <;> simp [Nat.add_comm]

theorem served_cons (a : α) (q : List α) (stays : Nat → Bool) (n : Nat) :
    served (a :: q) stays (n + 1) =
      a :: served (q ++ if stays 0 then [a] else []) (fun k => stays (k + 1)) n := by
  rw [Nat.add_comm n 1, served_add, queueAt_succ, queueAt_zero]
  simp only [served, queueAt_zero]
  unfold turn
  cases stays 0 <;> simp [Nat.add_comm]

/-! ## Once around the queue -/

/-- When those of `q` have had their turns, those of them that stay are at the end. -/
theorem queueAt_round (q r : List α) (stays : Nat → Bool) :
    queueAt (q ++ r) stays q.length = r ++ kept stays q := by
  induction q generalizing r stays with
  | nil => simp [queueAt_zero, kept]
  | cons a q ih =>
    rw [List.cons_append, List.length_cons, queueAt_cons, List.append_assoc, ih, kept,
      List.append_assoc]

theorem served_round (q r : List α) (stays : Nat → Bool) :
    served (q ++ r) stays q.length = q := by
  induction q generalizing r stays with
  | nil => simp [served]
  | cons a q ih =>
    rw [List.cons_append, List.length_cons, served_cons, List.append_assoc, ih]

theorem kept_sublist (q : List α) (stays : Nat → Bool) : (kept stays q).Sublist q := by
  induction q generalizing stays with
  | nil => exact List.Sublist.refl []
  | cons a q ih =>
    unfold kept
    split
    · exact (ih _).cons_cons a
    · exact (ih _).cons a

/-! ## The order around the queue -/

/-- The elements of `q` are elements of `q₀`, in the same order around the queue. -/
def Around (q₀ q : List α) : Prop := ∃ l : List α, l.Sublist q₀ ∧ l.IsRotated q

theorem Around.refl (q : List α) : Around q q := ⟨q, List.Sublist.refl q, List.IsRotated.refl q⟩

theorem Around.mem {q₀ q : List α} (h : Around q₀ q) {a : α} (ha : a ∈ q) : a ∈ q₀ := by
  obtain ⟨l, hl, hq⟩ := h
  exact hl.mem (hq.mem_iff.mpr ha)

theorem Around.nodup {q₀ q : List α} (h : Around q₀ q) (hn : q₀.Nodup) : q.Nodup := by
  obtain ⟨l, hl, hq⟩ := h
  exact hq.nodup_iff.mp (hn.sublist hl)

/-- To take out the first element leaves the others in their order. -/
theorem Around.tail {q₀ q : List α} {a : α} (h : Around q₀ (a :: q)) : Around q₀ q := by
  obtain ⟨l, hl, hq⟩ := h
  obtain ⟨n, hn, rfl⟩ := List.isRotated_iff_mod.mp hq.symm
  rw [List.rotate_eq_drop_append_take hn] at hl
  cases n with
  | zero => exact ⟨q, List.Sublist.trans (by simp) hl, List.IsRotated.refl q⟩
  | succ n =>
    refine ⟨q.drop n ++ q.take n, List.Sublist.trans ?_ hl, ?_⟩
    · simp
    · have hrot : (q.drop n ++ q.take n).IsRotated (q.take n ++ q.drop n) := List.isRotated_append
      rwa [List.take_append_drop] at hrot

theorem Around.turn {q₀ q : List α} (h : Around q₀ q) (stays : Bool) :
    Around q₀ (turn q stays) := by
  cases q with
  | nil => exact h
  | cons a q =>
    unfold roundrobin.turn
    cases stays with
    | false => exact h.tail
    | true =>
      obtain ⟨l, hl, hq⟩ := h
      exact ⟨l, hl, hq.trans (List.isRotated_concat a q).symm⟩

/-- Those that stay keep their order, for any number of turns. -/
theorem around_queueAt (q : List α) (stays : Nat → Bool) (n : Nat) :
    Around q (queueAt q stays n) := by
  induction n with
  | zero =>
    rw [queueAt_zero]
    exact Around.refl q
  | succ n ih =>
    rw [queueAt_succ]
    exact ih.turn (stays n)

/-! ## From one turn to the next -/

/-- The turn before the last that `n` counts is the first one, and `a` has it:
until the next turn of `a`, each other element has one turn, and those that stay
are then in the order that they had. -/
theorem next_turn [DecidableEq α] {a : α} {q r : List α} (hq : (a :: q).Nodup)
    {stays : Nat → Bool} {n : Nat} (hn : queueAt (a :: q) stays n = a :: r)
    (hone : (served (a :: q) stays n).count a = 1) :
    (a :: r).Sublist (a :: q) ∧ ∀ b ∈ q, (served (a :: q) stays n).count b = 1 := by
  have hnot := (List.nodup_cons.mp hq).1
  cases n with
  | zero => simp [served] at hone
  | succ n =>
    rw [queueAt_cons] at hn
    rw [served_cons] at hone ⊢
    cases hs : stays 0 with
    | false =>
      -- `a` left, so the queue cannot hold it again
      simp only [hs, Bool.false_eq_true, ↓reduceIte, List.append_nil] at hn
      have hmem : a ∈ queueAt q (fun k => stays (k + 1)) n := by
        rw [hn]
        exact List.mem_cons_self
      exact absurd ((around_queueAt q _ n).mem hmem) hnot
    | true =>
      simp only [hs, ↓reduceIte, List.count_cons_self, Nat.add_eq_right] at hn hone ⊢
      have hlast : n = q.length := by
        rcases Nat.lt_trichotomy n q.length with hlt | heq | hgt
        · -- the turn is still with those of `q`
          exfalso
          have htake : (q.take n).length = n := List.length_take_of_le hlt.le
          have hround := queueAt_round (q.take n) (q.drop n ++ [a]) (fun k => stays (k + 1))
          rw [← List.append_assoc, List.take_append_drop, htake, hn,
            List.drop_eq_getElem_cons hlt] at hround
          have hhead := (List.cons_eq_cons.mp hround).1
          exact hnot (hhead ▸ List.getElem_mem hlt)
        · exact heq
        · -- the next turn of `a` is over
          exfalso
          obtain ⟨k, rfl⟩ := Nat.exists_eq_add_of_lt hgt
          rw [Nat.add_assoc, Nat.add_comm k 1, ← Nat.add_assoc, served_add] at hone
          have hround := served_round (q ++ [a]) [] (fun k => stays (k + 1))
          simp only [List.append_nil, List.length_append, List.length_singleton] at hround
          rw [hround, List.count_append, List.count_append] at hone
          simp at hone
      subst hlast
      rw [queueAt_round] at hn
      rw [served_round]
      obtain ⟨-, rfl⟩ := List.cons_eq_cons.mp hn
      refine ⟨(kept_sublist q _).cons_cons a, fun b hb => ?_⟩
      have hne : a ≠ b := fun he => hnot (he ▸ hb)
      rw [List.count_cons_of_ne hne]
      exact List.count_eq_one_of_mem (List.nodup_cons.mp hq).2 hb

end roundrobin
