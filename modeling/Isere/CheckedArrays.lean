-- Programs over arrays in memory. An index outside of its array, an assertion
-- that is false and an allocation that fails end them. An array that is grown
-- as needed holds the elements of a list, with blank cells after them.
import Mathlib.Data.List.Basic
import Mathlib.Tactic.Common

namespace checked

/-- How a program ends before its end. `steps`: a loop is not over after the
turns that it is given. -/
inductive Fault
  | bounds
  | assertion
  | memory
  | steps
  deriving DecidableEq, Repr

variable {α β : Type}

/-! ## The operations -/

def get (cells : List α) (i : Nat) : Except Fault α :=
  match cells[i]? with
  | some a => .ok a
  | none => .error .bounds

def put (cells : List α) (i : Nat) (a : α) : Except Fault (List α) :=
  if i < cells.length then .ok (cells.set i a) else .error .bounds

def check (p : Prop) [Decidable p] : Except Fault Unit :=
  if p then .ok () else .error .assertion

/-- A reallocation to `n` cells: without memory, or with what the new memory
happens to hold. -/
def resize (memory : Option (Nat → α)) (cells : List α) (n : Nat) : Except Fault (List α) :=
  match memory with
  | none => .error .memory
  | some junk => .ok ((List.range n).map (fun i => cells[i]?.getD (junk i)))

/-- The loop that writes `a` to `k` cells, from cell `i` on. -/
def fill (a : α) (i : Nat) : Nat → List α → Except Fault (List α)
  | 0, cells => .ok cells
  | k + 1, cells => do
    let cells ← put cells i a
    fill a (i + 1) k cells

/-! ## Programs that can only run out of memory -/

/-- The program ends with a result that meets `P`, or finds no memory. -/
def Ends (P : α → Prop) : Except Fault α → Prop
  | .ok a => P a
  | .error e => e = .memory

theorem Ends.mono {P Q : α → Prop} {x : Except Fault α} (h : Ends P x) (himp : ∀ a, P a → Q a) :
    Ends Q x := by
  cases x with
  | ok a => exact himp a h
  | error e => exact h

theorem ends_iff {P : α → Prop} {x : Except Fault α} :
    Ends P x ↔ x = .error .memory ∨ ∃ a, x = .ok a ∧ P a := by
  cases x with
  | ok a => simp [Ends]
  | error e => simp [Ends]

theorem Ends.bind {P : α → Prop} {Q : β → Prop} {x : Except Fault α} {f : α → Except Fault β}
    (h : Ends P x) (hf : ∀ a, P a → Ends Q (f a)) : Ends Q (x >>= f) := by
  cases x with
  | ok a => exact hf a h
  | error e => exact h

/-- A program that is known to end goes on with its result. -/
theorem ends_of_eq {Q : β → Prop} {x : Except Fault α} {a : α} {f : α → Except Fault β}
    (h : x = .ok a) (hf : Ends Q (f a)) : Ends Q (x >>= f) := by
  rw [h]
  exact hf

/-- An invariant that each turn of a loop keeps, the whole loop keeps. -/
theorem Ends.foldlM {P : α → Prop} {f : α → β → Except Fault α} {l : List β}
    (hf : ∀ a, ∀ b ∈ l, P a → Ends P (f a b)) {a : α} (h : P a) : Ends P (l.foldlM f a) := by
  induction l generalizing a with
  | nil => exact h
  | cons b l ih =>
    rw [List.foldlM_cons]
    refine (hf a b List.mem_cons_self h).bind (fun a' ha' => ?_)
    exact ih (fun a b hb => hf a b (List.mem_cons_of_mem _ hb)) ha'

theorem get_eq {cells : List α} {i : Nat} {a : α} (h : cells[i]? = some a) :
    get cells i = .ok a := by
  unfold get
  rw [h]

theorem put_eq {cells : List α} {i : Nat} (h : i < cells.length) (a : α) :
    put cells i a = .ok (cells.set i a) := by
  unfold put
  rw [if_pos h]

theorem check_eq {p : Prop} [Decidable p] (h : p) : check p = .ok () := by
  unfold check
  rw [if_pos h]

/-- A reallocation keeps the cells that it has room for. -/
theorem resize_ends (memory : Option (Nat → α)) (cells : List α) {n : Nat}
    (hn : cells.length ≤ n) :
    Ends (fun p => ∃ new, p = cells ++ new ∧ cells.length + new.length = n)
      (resize memory cells n) := by
  cases memory with
  | none => rfl
  | some junk =>
    refine ⟨(List.range' cells.length (n - cells.length)).map junk, ?_, by simp; omega⟩
    apply List.ext_getElem
    · simp
      omega
    · intro i hi _
      rw [List.length_map, List.length_range] at hi
      rcases Nat.lt_or_ge i cells.length with hc | hc
      · rw [List.getElem_append_left hc]
        simp [hc]
      · rw [List.getElem_append_right hc]
        simp [hc]

/-- The loop writes its cells, and leaves the others. -/
theorem fill_eq (a : α) (i k : Nat) {cells : List α} (h : i + k ≤ cells.length) :
    fill a i k cells = .ok (cells.take i ++ List.replicate k a ++ cells.drop (i + k)) := by
  induction k generalizing i cells with
  | zero => simp [fill]
  | succ k ih =>
    have hput : put cells i a = .ok (cells.set i a) := put_eq (by omega) a
    have hrest := @ih (i + 1) (cells.set i a) (by simp; omega)
    simp only [fill, hput]
    refine hrest.trans (congrArg Except.ok ?_)
    rw [List.take_set, List.drop_set_of_lt (by omega), List.set_eq_take_append_cons_drop,
      List.length_take, if_pos (by omega), List.take_take, List.drop_take_self]
    simp [List.replicate_succ, Nat.add_comm, Nat.add_left_comm]

/-! ## Arrays that grow -/

/-- The first cells hold the elements of `l`, the others are blank. -/
def Holds (blank : α) (cells l : List α) : Prop :=
  ∃ n, cells = l ++ List.replicate n blank

variable {blank : α} {cells l : List α}

theorem holds_nil : Holds blank [] [] := ⟨0, rfl⟩

theorem Holds.length_le (h : Holds blank cells l) : l.length ≤ cells.length := by
  obtain ⟨n, rfl⟩ := h
  simp

theorem Holds.get (h : Holds blank cells l) {i : Nat} {a : α} (hi : l[i]? = some a) :
    checked.get cells i = .ok a := by
  obtain ⟨n, rfl⟩ := h
  have hlt := (List.getElem?_eq_some_iff.mp hi).1
  exact get_eq ((List.getElem?_append_left hlt).trans hi)

theorem Holds.put (h : Holds blank cells l) {i : Nat} (hi : i < l.length) (a : α) :
    checked.put cells i a = .ok (cells.set i a) ∧ Holds blank (cells.set i a) (l.set i a) := by
  refine ⟨put_eq (Nat.lt_of_lt_of_le hi h.length_le) a, ?_⟩
  obtain ⟨n, rfl⟩ := h
  exact ⟨n, List.set_append_left i a hi⟩

theorem Holds.get_blank (h : Holds blank cells l) (hlt : l.length < cells.length) :
    checked.get cells l.length = .ok blank := by
  obtain ⟨n, rfl⟩ := h
  apply get_eq
  rw [List.getElem?_append_right (Nat.le_refl _), Nat.sub_self, List.getElem?_replicate,
    if_pos (by simp at hlt; omega)]

/-- The first blank cell takes the next element. -/
theorem Holds.push (h : Holds blank cells l) (hlt : l.length < cells.length) (a : α) :
    checked.put cells l.length a = .ok (cells.set l.length a) ∧
      Holds blank (cells.set l.length a) (l ++ [a]) := by
  refine ⟨put_eq hlt a, ?_⟩
  obtain ⟨n, rfl⟩ := h
  cases n with
  | zero => simp at hlt
  | succ n =>
    refine ⟨n, ?_⟩
    rw [List.set_append_right _ _ (Nat.le_refl _), Nat.sub_self, List.replicate_succ,
      List.set_cons_zero, List.append_assoc]
    rfl

/-- The cell of the last element turns blank. -/
theorem Holds.pop {a : α} (h : Holds blank cells (l ++ [a])) :
    checked.put cells l.length blank = .ok (cells.set l.length blank) ∧
      Holds blank (cells.set l.length blank) l := by
  refine ⟨put_eq (by have := h.length_le; simp at this; omega) blank, ?_⟩
  obtain ⟨n, rfl⟩ := h
  refine ⟨n + 1, ?_⟩
  rw [List.append_assoc, List.set_append_right _ _ (Nat.le_refl _), Nat.sub_self]
  rfl

/-- More room, of blank cells. -/
theorem Holds.grow (h : Holds blank cells l) {n : Nat} (hn : cells.length ≤ n)
    (memory : Option (Nat → α)) :
    Ends (fun p => p.length = n ∧ Holds blank p l)
      (resize memory cells n >>= fill blank cells.length (n - cells.length)) := by
  refine (resize_ends memory cells hn).bind ?_
  rintro p ⟨new, rfl, hlen⟩
  rw [fill_eq _ _ _ (by simp; omega)]
  obtain ⟨k, rfl⟩ := h
  refine ⟨by simp at hlen ⊢; omega, k + new.length, ?_⟩
  rw [List.take_left, List.drop_eq_nil_of_le (by simp at hlen ⊢; omega), List.append_nil,
    List.append_assoc, List.replicate_add]
  congr 3
  omega

end checked
