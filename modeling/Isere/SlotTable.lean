-- A table of slots, each of them free or with an id. A slot takes an id and gives
-- it up again, and how often an id stands in the table tells where it is.
import Mathlib.Data.List.Nodup
import Mathlib.Data.List.Perm.Subperm

namespace slot_table

section Count

variable {α : Type} [DecidableEq α] {slots : List (Option α)} {i : Nat} {a b : α}

/-- A free slot takes an id. -/
theorem count_take (hi : slots[i]? = some none) : (slots.set i (some a)).count (some b) =
    slots.count (some b) + if a = b then 1 else 0 := by
  obtain ⟨hlt, hnone⟩ := List.getElem?_eq_some_iff.mp hi
  rw [List.count_set hlt, hnone]
  simp

/-- A slot gives its id up. -/
theorem count_release (hi : slots[i]? = some (some a)) : slots.count (some b) =
    (slots.set i none).count (some b) + if a = b then 1 else 0 := by
  obtain ⟨hlt, hsome⟩ := List.getElem?_eq_some_iff.mp hi
  have hmem : a = b → 0 < slots.count (some b) := by
    rintro rfl
    exact List.count_pos_iff.mpr (List.mem_of_getElem? hi)
  rw [List.count_set hlt, hsome]
  simp only [beq_iff_eq, Option.some.injEq, reduceCtorEq, if_false, Nat.add_zero]
  split
  · have hpos := hmem ‹_›
    omega
  · rfl

theorem mem_take (hi : slots[i]? = some none) :
    some b ∈ slots.set i (some a) ↔ some b ∈ slots ∨ b = a := by
  rw [← List.count_pos_iff, ← List.count_pos_iff, count_take hi]
  by_cases hab : a = b
  · subst hab
    simp
  · simp [hab, Ne.symm hab]

theorem mem_release (hi : slots[i]? = some (some a)) (honce : slots.count (some a) ≤ 1) :
    some b ∈ slots.set i none ↔ some b ∈ slots ∧ b ≠ a := by
  have hcount := count_release (b := b) hi
  rw [← List.count_pos_iff, ← List.count_pos_iff]
  by_cases hab : a = b
  · subst hab
    rw [if_pos rfl] at hcount
    simp only [ne_eq, not_true_eq_false, and_false, iff_false]
    omega
  · rw [if_neg hab, Nat.add_zero] at hcount
    simp [hcount, Ne.symm hab]

/-- A slot takes an id, and loses what it had. -/
theorem count_overwrite_le : (slots.set i (some a)).count (some b) ≤
    slots.count (some b) + if a = b then 1 else 0 := by
  by_cases hlt : i < slots.length
  · rw [List.count_set hlt]
    simp only [beq_iff_eq, Option.some.injEq]
    omega
  · rw [List.set_eq_of_length_le (Nat.not_lt.mp hlt)]
    omega

/-- A loop `f` over the slots, in which `g` counts the id `a`. -/
theorem foldl_count {σ τ : Type} {f : σ → τ → σ} {g : σ → Nat} {k : τ → Option α}
    (hf : ∀ s x, g (f s x) = g s + if k x = some a then 1 else 0) (xs : List τ) (s : σ) :
    g (xs.foldl f s) = g s + (xs.map k).count (some a) := by
  induction xs generalizing s with
  | nil => rfl
  | cons x xs ih =>
    rw [List.foldl_cons, ih, hf, List.map_cons, List.count_cons]
    simp only [beq_iff_eq]
    omega

end Count

section Counter

variable {slots : List (Option Nat)} {i n a c : Nat}

/-- Ids come from a counter `n`, and each one below it is in the table or counted by `c`,
at most once. The next one comes into a slot. -/
theorem once_overwrite (h : c + slots.count (some a) ≤ if a < n then 1 else 0) :
    c + (slots.set i (some n)).count (some a) ≤ if a < n + 1 then 1 else 0 := by
  have hle : (slots.set i (some n)).count (some a) ≤ _ := count_overwrite_le
  rcases Nat.lt_trichotomy a n with hlt | rfl | hgt
  · rw [if_neg (Nat.ne_of_gt hlt)] at hle
    rw [if_pos hlt] at h
    rw [if_pos (Nat.lt_succ_of_lt hlt)]
    omega
  · rw [if_pos rfl] at hle
    rw [if_neg (Nat.lt_irrefl a)] at h
    rw [if_pos (Nat.lt_succ_self a)]
    omega
  · rw [if_neg (Nat.ne_of_lt hgt)] at hle
    rw [if_neg (Nat.not_lt_of_gt hgt)] at h
    omega

end Counter

/-- Of a table with no free slot, as many ids meet `p` as there are slots just if all
of them do. -/
theorem count_full_iff {slots : List (Option Nat)} {n : Nat} {p : Nat → Bool}
    (hfull : none ∉ slots) (honce : ∀ a, slots.count (some a) ≤ 1)
    (hlt : ∀ a, some a ∈ slots → a < n) (hmem : ∀ a, p a = true → some a ∈ slots) :
    (List.range n).countP p = slots.length ↔ ∀ a, some a ∈ slots → p a = true := by
  have hids : (((List.range n).filter p).map some).Nodup :=
    ((List.nodup_range).filter p).map (fun _ _ => Option.some.inj)
  have hslots : slots.Nodup := by
    rw [List.nodup_iff_count_le_one]
    intro x
    cases x with
    | none => rw [List.count_eq_zero.mpr hfull]; exact Nat.zero_le 1
    | some a => exact honce a
  have hsub : ((List.range n).filter p).map some ⊆ slots := by
    intro x hx
    obtain ⟨a, ha, rfl⟩ := List.mem_map.mp hx
    exact hmem a (List.mem_filter.mp ha).2
  have hlen : (List.range n).countP p = (((List.range n).filter p).map some).length := by
    rw [List.countP_eq_length_filter, List.length_map]
  rw [hlen]
  constructor
  · intro heq a ha
    have hperm := (hids.subperm hsub).perm_of_length_le (Nat.le_of_eq heq.symm)
    have hin := hperm.mem_iff.mpr ha
    simp only [List.mem_map, List.mem_filter, Option.some.injEq, exists_eq_right] at hin
    exact hin.2
  · intro hall
    refine List.Perm.length_eq ((List.perm_ext_iff_of_nodup hids hslots).mpr ?_)
    intro x
    refine ⟨fun hx => hsub hx, ?_⟩
    intro hx
    cases x with
    | none => exact absurd hx hfull
    | some a =>
      exact List.mem_map_of_mem
        (List.mem_filter.mpr ⟨List.mem_range.mpr (hlt a hx), hall a hx⟩)

end slot_table
