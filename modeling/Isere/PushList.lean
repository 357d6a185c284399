-- Linked lists that grow at the head. The cells are numbered in the order in
-- which they are allocated, and none is freed. A walk from the head meets every
-- cell once, the newest first.
import Isere.Emitter
import Mathlib.Data.List.Range

open emitter

namespace push_list

variable {ν σ : Type}

/-- A cell, with a pointer to the next one. -/
structure Cell (ν : Type) where
  value : ν
  next : Option Nat

/-- The cell that is allocated before the one with this number. -/
def before : Nat → Option Nat
  | 0 => none
  | i + 1 => some i

/-- The cells and the head. Each cell points to the one that was the head before it. -/
structure PushList (ν : Type) where
  cells : List (Cell ν)
  head : Option Nat
  linked : ∀ i c, cells[i]? = some c → c.next = before i
  newest : head = before cells.length

def PushList.empty : PushList ν where
  cells := []
  head := none
  linked := by simp
  newest := rfl

/-- `c->next = head; head = c;` -/
def PushList.push (l : PushList ν) (x : ν) : PushList ν where
  cells := l.cells ++ [⟨x, l.head⟩]
  head := some l.cells.length
  linked := by
    intro i c hc
    by_cases hi : i < l.cells.length
    · rw [List.getElem?_append_left hi] at hc
      exact l.linked i c hc
    · obtain rfl : i = l.cells.length := by
        have hlt := (List.getElem?_eq_some_iff.mp hc).1
        simp at hlt
        omega
      obtain rfl : ⟨x, l.head⟩ = c := by simpa using hc
      exact l.newest
  newest := by simp [before]

/-- A change of the value of one cell, through a pointer to it. -/
def PushList.modify (l : PushList ν) (i : Nat) (f : ν → ν) : PushList ν where
  cells := l.cells.modify i (fun c => { c with value := f c.value })
  head := l.head
  linked := by
    intro j c hc
    rw [List.getElem?_modify] at hc
    cases hj : l.cells[j]? with
    | none => simp [hj] at hc
    | some d =>
      have hnext := l.linked j d hj
      by_cases hij : i = j <;> simp [hj, hij] at hc <;> simpa [← hc] using hnext
  newest := by simpa using l.newest

/-- The values, in the order of allocation. -/
def PushList.values (l : PushList ν) : List ν := l.cells.map Cell.value

@[simp] theorem values_length (l : PushList ν) : l.values.length = l.cells.length := by
  simp [PushList.values]

@[simp] theorem values_push (l : PushList ν) (x : ν) : (l.push x).values = l.values ++ [x] := by
  simp [PushList.values, PushList.push]

@[simp] theorem values_modify (l : PushList ν) (i : Nat) (f : ν → ν) :
    (l.modify i f).values = l.values.modify i f := by
  apply List.ext_getElem?
  intro j
  simp only [PushList.values, PushList.modify, List.getElem?_map, List.getElem?_modify]
  cases l.cells[j]? with
  | none => simp
  | some c => by_cases hij : i = j <;> simp [hij]

/-! ## A history of changes -/

/-- What an operation does to the list. -/
inductive Change (ν : Type)
  | none
  | push (x : ν)
  | modify (i : Nat) (f : ν → ν)

def PushList.change (l : PushList ν) : Change ν → PushList ν
  | .none => l
  | .push x => l.push x
  | .modify i f => l.modify i f

/-- The value of cell `i` after the changes, from `x`. -/
def changed (i : Nat) : List (Change ν) → ν → ν
  | [], x => x
  | .modify j f :: cs, x => changed i cs (if j = i then f x else x)
  | _ :: cs, x => changed i cs x

/-- The values that the changes push, with what they change of them later. The first gets the
number `n`. -/
def pushed : Nat → List (Change ν) → List ν
  | _, [] => []
  | n, .push x :: cs => changed n cs x :: pushed (n + 1) cs
  | n, _ :: cs => pushed n cs

/-- Each value is as the changes of its own cell leave it. -/
theorem values_foldl (l : PushList ν) (cs : List (Change ν)) :
    (cs.foldl PushList.change l).values =
      l.values.mapIdx (fun i x => changed i cs x) ++ pushed l.values.length cs := by
  induction cs generalizing l with
  | nil =>
    apply List.ext_getElem?
    intro i
    simp [changed, pushed]
  | cons c cs ih =>
    rw [List.foldl_cons, ih]
    cases c with
    | none => rfl
    | push x => simp [PushList.change, changed, pushed, List.mapIdx_append]
    | modify j f =>
      have hvalues : (l.values.modify j f).mapIdx (fun i x => changed i cs x) =
          l.values.mapIdx (fun i x => changed i (.modify j f :: cs) x) := by
        apply List.ext_getElem?
        intro k
        simp only [List.getElem?_mapIdx, List.getElem?_modify, changed]
        cases l.values[k]? with
        | none => simp
        | some x => by_cases hjk : j = k <;> simp [hjk]
      simp [PushList.change, pushed, hvalues]

/-! ## The walk -/

/-- `while (p != NULL) { if (!visit(p)) return false; p = p->next; } return true;` with fuel for
that many cells. -/
def walk (cells : List (Cell ν)) (visit : Nat → ν → Writer σ) :
    Nat → Option Nat → σ → Option (Bool × σ)
  | _, none, s => some (true, s)
  | 0, some _, _ => none
  | fuel + 1, some p, s =>
    match cells[p]? with
    | none => none
    | some c =>
      let r := visit p c.value s
      if r.1 then walk cells visit fuel c.next r.2 else some (false, r.2)

/-- The visits of the first `n` cells, the newest first. -/
def visits (l : PushList ν) (visit : Nat → ν → Writer σ) (n : Nat) : List (Writer σ) :=
  ((l.values.take n).mapIdx visit).reverse

theorem walk_before (l : PushList ν) (visit : Nat → ν → Writer σ) {n fuel : Nat}
    (hn : n ≤ l.cells.length) (hfuel : n ≤ fuel) (s : σ) :
    walk l.cells visit fuel (before n) s = some (Writer.all (visits l visit n) s) := by
  induction n generalizing fuel s with
  | zero => simp [before, walk, visits, Writer.all, Writer.done]
  | succ n ih =>
    obtain ⟨fuel, rfl⟩ : ∃ k, fuel = k + 1 := ⟨fuel - 1, by omega⟩
    have hcell : l.cells[n]? = some l.cells[n] := List.getElem?_eq_getElem hn
    have hvisits : visits l visit (n + 1) = visit n l.cells[n].value :: visits l visit n := by
      unfold visits
      have hlt : n < l.values.length := by simpa using Nat.lt_of_succ_le hn
      rw [List.take_succ_eq_append_getElem hlt, List.mapIdx_append]
      simp [PushList.values, Nat.min_eq_left (Nat.le_of_succ_le hn)]
    rw [hvisits]
    simp only [before, walk, hcell, Writer.all, Writer.andThen, l.linked n _ hcell]
    cases (visit n l.cells[n].value s).1 with
    | false => rfl
    | true => exact ih (Nat.le_of_succ_le hn) (Nat.le_of_succ_le_succ hfuel) _

/-- From the head, with fuel for every cell, the walk visits them all. -/
theorem walk_all (l : PushList ν) (visit : Nat → ν → Writer σ) {fuel : Nat}
    (hfuel : l.cells.length ≤ fuel) (s : σ) : walk l.cells visit fuel l.head s =
      some (Writer.all (l.values.mapIdx visit).reverse s) := by
  rw [l.newest, walk_before l visit (Nat.le_refl _) hfuel s]
  unfold visits
  rw [List.take_of_length_le (by simp)]

end push_list
