-- Texts that are written one after the other to a stream. A write takes all of
-- its text, a part of it, or fails, and the first that fails is the last.
import Mathlib.Data.List.Basic
import Mathlib.Data.List.Infix

namespace writes

variable {α : Type}

/-- What the stream takes of the texts, when write `i` and those after it return
these results. -/
def accepted (ret : Nat → Int) : Nat → List (List α) → List α
  | _, [] => []
  | i, t :: ts => if ret i < 0 then [] else t.take (ret i).toNat ++ accepted ret (i + 1) ts

/-- Some write fails. -/
def Fails (ret : Nat → Int) : Nat → List (List α) → Prop
  | _, [] => False
  | i, _ :: ts => ret i < 0 ∨ Fails ret (i + 1) ts

/-- Each write takes its text whole or fails, but for one right before a write
that fails. -/
def Whole (ret : Nat → Int) : Nat → List (List α) → Prop
  | _, [] => True
  | i, t :: ts =>
    ret i < 0 ∨ ((t.length ≤ ret i ∨ (ts ≠ [] ∧ ret (i + 1) < 0)) ∧ Whole ret (i + 1) ts)

instance Fails.decidable (ret : Nat → Int) :
    ∀ (i : Nat) (ts : List (List α)), Decidable (Fails ret i ts)
  | _, [] => inferInstanceAs (Decidable False)
  | i, _ :: ts =>
    have : Decidable (Fails ret (i + 1) ts) := Fails.decidable ret (i + 1) ts
    inferInstanceAs (Decidable (_ ∨ _))

instance Whole.decidable (ret : Nat → Int) :
    ∀ (i : Nat) (ts : List (List α)), Decidable (Whole ret i ts)
  | _, [] => inferInstanceAs (Decidable True)
  | i, t :: ts =>
    have : Decidable (Whole ret (i + 1) ts) := Whole.decidable ret (i + 1) ts
    have : Decidable (ts ≠ []) := decidable_of_iff (ts.isEmpty = false) (by cases ts <;> simp)
    inferInstanceAs (Decidable (_ ∨ ((_ ∨ (_ ∧ _)) ∧ _)))

variable {ret : Nat → Int} {i : Nat} {ts : List (List α)}

theorem take_of_length_le {t : List α} {n : Int} (h : t.length ≤ n) : t.take n.toNat = t := by
  apply List.take_of_length_le
  omega

/-- When no write fails, the stream takes all texts. -/
theorem accepted_whole (h : Whole ret i ts) (hf : ¬Fails ret i ts) :
    accepted ret i ts = ts.flatten := by
  induction ts generalizing i with
  | nil => rfl
  | cons t ts ih =>
    simp only [Fails, not_or] at hf
    have hok := h.resolve_left hf.1
    have hlen : t.length ≤ ret i := by
      rcases hok.1 with hlen | ⟨hne, hneg⟩
      · exact hlen
      · -- the write after a short one would fail
        cases ts with
        | nil => exact absurd rfl hne
        | cons t' ts => exact absurd (Or.inl hneg) hf.2
    rw [accepted, if_neg hf.1, take_of_length_le hlen, ih hok.2 hf.2, List.flatten_cons]

theorem flatten_ne_nil (hne : ts ≠ []) (hlast : ∀ t, ts.getLast? = some t → t ≠ []) :
    ts.flatten ≠ [] := by
  intro hnil
  have hmem := List.getLast_mem hne
  have hsome : ts.getLast? = some (ts.getLast hne) := List.getLast?_eq_some_getLast hne
  exact hlast _ hsome (List.flatten_eq_nil_iff.mp hnil _ hmem)

/-- When a write fails, the stream takes a proper part of the texts, as long as
the last of them is not empty. -/
theorem accepted_part (h : Whole ret i ts) (hf : Fails ret i ts)
    (hlast : ∀ t, ts.getLast? = some t → t ≠ []) :
    accepted ret i ts <+: ts.flatten ∧ accepted ret i ts ≠ ts.flatten := by
  induction ts generalizing i with
  | nil => exact hf.elim
  | cons t ts ih =>
    rw [accepted]
    by_cases hneg : ret i < 0
    · rw [if_pos hneg]
      exact ⟨List.nil_prefix, (flatten_ne_nil (List.cons_ne_nil t ts) hlast).symm⟩
    · have hok := h.resolve_left hneg
      have hrest : Fails ret (i + 1) ts := hf.resolve_left hneg
      have hne : ts ≠ [] := by
        rintro rfl
        exact hrest
      have hlast' : ∀ t', ts.getLast? = some t' → t' ≠ [] := by
        intro t' ht'
        apply hlast
        rw [List.getLast?_cons, ht', Option.getD_some]
      rw [if_neg hneg, List.flatten_cons]
      rcases hok.1 with hlen | ⟨-, hneg'⟩
      · obtain ⟨hpre, hproper⟩ := ih hok.2 hrest hlast'
        rw [take_of_length_le hlen]
        exact ⟨(List.prefix_append_right_inj t).mpr hpre,
          fun heq => hproper (List.append_cancel_left heq)⟩
      · have hnone : accepted ret (i + 1) ts = [] := by
          cases ts with
          | nil => rfl
          | cons t' ts => rw [accepted, if_pos hneg']
        rw [hnone, List.append_nil]
        refine ⟨(List.take_prefix _ _).trans (List.prefix_append _ _), fun heq => ?_⟩
        have hlen := congrArg List.length heq
        have hpos := List.length_pos_iff.mpr (flatten_ne_nil hne hlast')
        rw [List.length_take, List.length_append] at hlen
        omega

end writes
