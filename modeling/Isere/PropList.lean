-- Objects as lists of properties, in the order of their names. A name that is
-- set again keeps its place, so an object is told by the order in which its
-- names came and by the last value of each.
import Mathlib.Data.List.Nodup
import Mathlib.Data.List.Lookmap

namespace props

variable {α β γ : Type} [DecidableEq α]

/-- Set a property. It keeps its place, and a new one comes last. -/
def setProp (k : α) (v : β) : List (α × β) → List (α × β)
  | [] => [(k, v)]
  | p :: o => if p.1 = k then (k, v) :: o else p :: setProp k v o

/-- The object after the properties of a list are set, in order. -/
def setAll (o ps : List (α × β)) : List (α × β) := ps.foldl (fun o p => setProp p.1 p.2 o) o

/-- The last value that a list gives to a name. -/
def lastValue (ps : List (α × β)) (k : α) : Option β := ps.reverse.lookup k

@[simp] theorem setAll_nil (o : List (α × β)) : setAll o [] = o := rfl

@[simp] theorem setAll_cons (o : List (α × β)) (p : α × β) (ps : List (α × β)) :
    setAll o (p :: ps) = setAll (setProp p.1 p.2 o) ps := rfl

/-! ## Values -/

theorem lookup_cons_if (k : α) (p : α × β) (o : List (α × β)) :
    (p :: o).lookup k = if k = p.1 then some p.2 else o.lookup k := by
  rw [List.lookup_cons]
  by_cases h : k = p.1
  · rw [if_pos h, beq_iff_eq.mpr h]
  · rw [if_neg h, beq_eq_false_iff_ne.mpr h]

theorem lookup_setProp (k k' : α) (v : β) (o : List (α × β)) :
    (setProp k v o).lookup k' = if k' = k then some v else o.lookup k' := by
  induction o with
  | nil =>
    unfold setProp
    rw [lookup_cons_if]
  | cons p o ih =>
    unfold setProp
    by_cases hp : p.1 = k
    · rw [if_pos hp, lookup_cons_if, lookup_cons_if, hp]
      by_cases h : k' = k <;> simp [h]
    · rw [if_neg hp, lookup_cons_if, lookup_cons_if, ih]
      by_cases h : k' = p.1
      · simp [h, hp]
      · simp [h]

theorem lastValue_cons (p : α × β) (ps : List (α × β)) (k : α) :
    lastValue (p :: ps) k = (lastValue ps k).or (if k = p.1 then some p.2 else none) := by
  unfold lastValue
  rw [List.reverse_cons, List.lookup_append, lookup_cons_if, List.lookup_nil]

theorem lookup_setAll (o ps : List (α × β)) (k : α) :
    (setAll o ps).lookup k = (lastValue ps k).or (o.lookup k) := by
  induction ps generalizing o with
  | nil => simp [lastValue]
  | cons p ps ih =>
    rw [setAll_cons, ih, lookup_setProp, lastValue_cons, Option.or_assoc]
    by_cases h : k = p.1 <;> simp [h]

theorem lastValue_map (f : β → γ) (ps : List (α × β)) (k : α) :
    lastValue (ps.map (Prod.map id f)) k = (lastValue ps k).map f := by
  induction ps with
  | nil => rfl
  | cons p ps ih =>
    rw [List.map_cons, lastValue_cons, lastValue_cons, ih]
    by_cases h : k = p.1 <;> cases lastValue ps k <;> simp [h]

/-! ## Names -/

theorem mem_names_setProp (k k' : α) (v : β) (o : List (α × β)) :
    k' ∈ (setProp k v o).map Prod.fst ↔ k' = k ∨ k' ∈ o.map Prod.fst := by
  induction o with
  | nil => simp [setProp]
  | cons p o ih =>
    unfold setProp
    by_cases hp : p.1 = k
    · simp [hp]
    · rw [if_neg hp, List.map_cons, List.mem_cons, ih, List.map_cons, List.mem_cons]
      tauto

theorem nodup_setProp {o : List (α × β)} (h : (o.map Prod.fst).Nodup) (k : α) (v : β) :
    ((setProp k v o).map Prod.fst).Nodup := by
  induction o with
  | nil => simp [setProp]
  | cons p o ih =>
    rw [List.map_cons, List.nodup_cons] at h
    unfold setProp
    by_cases hp : p.1 = k
    · rw [if_pos hp, List.map_cons, List.nodup_cons, ← hp]
      exact h
    · rw [if_neg hp, List.map_cons, List.nodup_cons, mem_names_setProp]
      refine ⟨?_, ih h.2⟩
      rintro (he | hin)
      · exact hp he
      · exact h.1 hin

theorem nodup_setAll {o : List (α × β)} (h : (o.map Prod.fst).Nodup) (ps : List (α × β)) :
    ((setAll o ps).map Prod.fst).Nodup := by
  induction ps generalizing o with
  | nil => exact h
  | cons p ps ih => exact ih (nodup_setProp h p.1 p.2)

/-- The names of an object do not depend on the values that are set. -/
theorem names_setProp {o : List (α × β)} {o' : List (α × γ)}
    (h : o.map Prod.fst = o'.map Prod.fst) (k : α) (v : β) (v' : γ) :
    (setProp k v o).map Prod.fst = (setProp k v' o').map Prod.fst := by
  induction o generalizing o' with
  | nil =>
    rw [List.map_nil, eq_comm, List.map_eq_nil_iff] at h
    rw [h]
    rfl
  | cons p o ih =>
    cases o' with
    | nil => simp at h
    | cons p' o' =>
      rw [List.map_cons, List.map_cons, List.cons.injEq] at h
      unfold setProp
      rw [h.1]
      by_cases hp : p'.1 = k
      · simp [hp, h.2]
      · simp [hp, h.1, ih h.2]

theorem names_setAll {ps : List (α × β)} {ps' : List (α × γ)}
    (h : ps.map Prod.fst = ps'.map Prod.fst) {o : List (α × β)} {o' : List (α × γ)}
    (ho : o.map Prod.fst = o'.map Prod.fst) :
    (setAll o ps).map Prod.fst = (setAll o' ps').map Prod.fst := by
  induction ps generalizing ps' o o' with
  | nil =>
    rw [List.map_nil, eq_comm, List.map_eq_nil_iff] at h
    rw [h]
    exact ho
  | cons p ps ih =>
    cases ps' with
    | nil => simp at h
    | cons p' ps' =>
      rw [List.map_cons, List.map_cons, List.cons.injEq] at h
      rw [setAll_cons, setAll_cons, h.1]
      exact ih h.2 (names_setProp ho p'.1 p.2 p'.2)

/-! ## Objects -/

theorem lookup_of_not_mem {o : List (α × β)} {k : α} (h : k ∉ o.map Prod.fst) :
    o.lookup k = none := by
  induction o with
  | nil => rfl
  | cons p o ih =>
    rw [List.map_cons, List.mem_cons, not_or] at h
    rw [lookup_cons_if, if_neg h.1, ih h.2]

/-- An object is told by its names, in order, and by its values. -/
theorem ext_names {o o' : List (α × β)} (hn : o.map Prod.fst = o'.map Prod.fst)
    (hd : (o.map Prod.fst).Nodup) (hv : ∀ k, o.lookup k = o'.lookup k) : o = o' := by
  induction o generalizing o' with
  | nil =>
    rw [List.map_nil, eq_comm, List.map_eq_nil_iff] at hn
    exact hn.symm
  | cons p o ih =>
    cases o' with
    | nil => simp at hn
    | cons p' o' =>
      rw [List.map_cons, List.map_cons, List.cons.injEq] at hn
      rw [List.map_cons, List.nodup_cons] at hd
      have hhead : p = p' := by
        have hvp := hv p.1
        rw [lookup_cons_if, lookup_cons_if, if_pos rfl, if_pos hn.1, Option.some.injEq] at hvp
        exact Prod.ext hn.1 hvp
      have htail : o = o' := by
        apply ih hn.2 hd.2
        intro k
        by_cases hk : k = p.1
        · have h' : p.1 ∉ o'.map Prod.fst := hn.2 ▸ hd.1
          rw [hk, lookup_of_not_mem hd.1, lookup_of_not_mem h']
        · have hvk := hv k
          rwa [lookup_cons_if, lookup_cons_if, if_neg hk, if_neg (hn.1 ▸ hk)] at hvk
      rw [hhead, htail]

/-- Two readings of the values give one object just when they agree on the
last value of each name. -/
theorem setAll_eq_iff (f g : γ → β) (ps : List (α × γ)) :
    setAll [] (ps.map (Prod.map id f)) = setAll [] (ps.map (Prod.map id g)) ↔
      ∀ k c, lastValue ps k = some c → f c = g c := by
  constructor
  · intro h k c hc
    have hl := congrArg (List.lookup k) h
    rw [lookup_setAll, lookup_setAll, lastValue_map, lastValue_map, hc] at hl
    simpa using hl
  · intro h
    apply ext_names
    · apply names_setAll _ rfl
      simp
    · apply nodup_setAll
      exact List.nodup_nil
    · intro k
      rw [lookup_setAll, lookup_setAll, lastValue_map, lastValue_map]
      cases hc : lastValue ps k with
      | none => rfl
      | some c => simp [h k c hc]

end props
