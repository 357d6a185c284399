-- A text of elements that arrives in segments. A reader reports each element in
-- pieces, cut where the segments end, with events in between.
import Mathlib.Algebra.BigOperators.Group.List.Basic
import Mathlib.Algebra.GroupWithZero.Nat
import Mathlib.Data.List.Basic

namespace segments

variable {ε κ α : Type}

/-- A part of a text: bytes of an element, bytes that are not reported, or the
place of an event. -/
inductive Piece (ε κ α : Type)
  | data (e : ε) (s : List α)
  | gap (s : List α)
  | event (k : κ)
  deriving DecidableEq, Repr

def Piece.text : Piece ε κ α → List α
  | .data _ s => s
  | .gap s => s
  | .event _ => []

/-- The bytes of a layout. -/
def text (ps : List (Piece ε κ α)) : List α := ps.flatMap Piece.text

@[simp] theorem text_nil : text ([] : List (Piece ε κ α)) = [] := rfl

@[simp] theorem text_cons (p : Piece ε κ α) (ps : List (Piece ε κ α)) :
    text (p :: ps) = p.text ++ text ps := rfl

@[simp] theorem text_append (ps qs : List (Piece ε κ α)) : text (ps ++ qs) = text ps ++ text qs :=
  List.flatMap_append

section Reader

variable (call : ε → List α → κ)

/-- The report of a piece of an element. No bytes are no report. -/
def calls (e : ε) : List α → List κ
  | [] => []
  | s => [call e s]

/-- What is reported for the next `n` bytes, and the layout after them. Events
are reported as soon as they are reached. -/
def feed (n : Nat) : List (Piece ε κ α) → List κ × List (Piece ε κ α)
  | [] => ([], [])
  | .event k :: ps => (k :: (feed n ps).1, (feed n ps).2)
  | .gap s :: ps =>
    if s.length ≤ n then feed (n - s.length) ps else ([], .gap (s.drop n) :: ps)
  | .data e s :: ps =>
    if s.length ≤ n then
      (calls call e s ++ (feed (n - s.length) ps).1, (feed (n - s.length) ps).2)
    else (calls call e (s.take n), .data e (s.drop n) :: ps)

section Equations

variable {n : Nat} {s : List α} (ps : List (Piece ε κ α)) (e : ε)

theorem feed_event (n : Nat) (k : κ) :
    feed call n (.event k :: ps) = (k :: (feed call n ps).1, (feed call n ps).2) := rfl

theorem feed_gap (h : s.length ≤ n) :
    feed call n (.gap s :: ps) = feed call (n - s.length) ps := by
  rw [feed, if_pos h]

theorem feed_gap_part (h : n < s.length) :
    feed call n (.gap s :: ps) = ([], .gap (s.drop n) :: ps) := by
  rw [feed, if_neg (by omega)]

theorem feed_data (h : s.length ≤ n) :
    feed call n (.data e s :: ps) = (calls call e s ++ (feed call (n - s.length) ps).1,
      (feed call (n - s.length) ps).2) := by
  rw [feed, if_pos h]

theorem feed_data_part (h : n < s.length) :
    feed call n (.data e s :: ps) = (calls call e (s.take n), .data e (s.drop n) :: ps) := by
  rw [feed, if_neg (by omega)]

end Equations

/-- The layout after segments of these lengths. -/
def rest (ps : List (Piece ε κ α)) (ns : List Nat) : List (Piece ε κ α) :=
  ns.foldl (fun ps n => (feed call n ps).2) ps

/-- What is reported for segments of these lengths. -/
def feedAll : List (Piece ε κ α) → List Nat → List κ
  | _, [] => []
  | ps, n :: ns => (feed call n ps).1 ++ feedAll (feed call n ps).2 ns

theorem feedAll_append (ps : List (Piece ε κ α)) (ns ms : List Nat) :
    feedAll call ps (ns ++ ms) = feedAll call ps ns ++ feedAll call (rest call ps ns) ms := by
  induction ns generalizing ps with
  | nil => rfl
  | cons n ns ih =>
    rw [List.cons_append, feedAll, feedAll, ih, List.append_assoc]
    rfl

/-! ## What is left -/

theorem feed_text (n : Nat) (ps : List (Piece ε κ α)) :
    text (feed call n ps).2 = (text ps).drop n := by
  induction ps generalizing n with
  | nil => simp [feed]
  | cons p ps ih =>
    cases p with
    | event k => exact ih n
    | gap s =>
      rw [text_cons, Piece.text, List.drop_append]
      rcases Nat.lt_or_ge n s.length with h | h
      · rw [feed_gap_part call ps h, text_cons, Piece.text, show n - s.length = 0 by omega,
          List.drop_zero]
      · rw [feed_gap call ps h, ih, List.drop_eq_nil_of_le h, List.nil_append]
    | data e s =>
      rw [text_cons, Piece.text, List.drop_append]
      rcases Nat.lt_or_ge n s.length with h | h
      · rw [feed_data_part call ps e h, text_cons, Piece.text, show n - s.length = 0 by omega,
          List.drop_zero]
      · rw [feed_data call ps e h, ih, List.drop_eq_nil_of_le h, List.nil_append]

/-- With the last byte, all that follows is reported. -/
theorem feed_last {n : Nat} {ps : List (Piece ε κ α)} (h : (text ps).length ≤ n) :
    (feed call n ps).2 = [] := by
  induction ps generalizing n with
  | nil => rfl
  | cons p ps ih =>
    rw [text_cons, List.length_append] at h
    cases p with
    | event k => exact ih (by omega)
    | gap s =>
      rw [Piece.text] at h
      rw [feed_gap call ps (by omega)]
      exact ih (by omega)
    | data e s =>
      rw [Piece.text] at h
      rw [feed_data call ps e (by omega)]
      exact ih (by omega)

/-- It does not matter for what is left where a segment ends. -/
theorem feed_add (n m : Nat) (ps : List (Piece ε κ α)) :
    (feed call m (feed call n ps).2).2 = (feed call (n + m) ps).2 := by
  induction ps generalizing n with
  | nil => rfl
  | cons p ps ih =>
    cases p with
    | event k => exact ih n
    | gap s =>
      rcases Nat.lt_or_ge n s.length with h | h
      · rw [feed_gap_part call ps h]
        rcases Nat.lt_or_ge (n + m) s.length with h' | h'
        · rw [feed_gap_part call ps h', feed_gap_part call ps (by rw [List.length_drop]; omega),
            List.drop_drop]
        · rw [feed_gap call ps h', feed_gap call ps (by rw [List.length_drop]; omega),
            List.length_drop, show m - (s.length - n) = n + m - s.length by omega]
      · rw [feed_gap call ps h, feed_gap call ps (by omega), ih,
          show n - s.length + m = n + m - s.length by omega]
    | data e s =>
      rcases Nat.lt_or_ge n s.length with h | h
      · rw [feed_data_part call ps e h]
        rcases Nat.lt_or_ge (n + m) s.length with h' | h'
        · rw [feed_data_part call ps e h',
            feed_data_part call ps e (by rw [List.length_drop]; omega), List.drop_drop]
        · rw [feed_data call ps e h', feed_data call ps e (by rw [List.length_drop]; omega),
            List.length_drop, show m - (s.length - n) = n + m - s.length by omega]
      · rw [feed_data call ps e h, feed_data call ps e (by omega), ih,
          show n - s.length + m = n + m - s.length by omega]

theorem rest_eq (ps : List (Piece ε κ α)) (n : Nat) (ns : List Nat) :
    rest call ps (n :: ns) = (feed call (n :: ns).sum ps).2 := by
  induction ns generalizing n ps with
  | nil => simp [rest]
  | cons m ns ih =>
    have h : rest call ps (n :: m :: ns) = rest call (feed call n ps).2 (m :: ns) := rfl
    rw [h, ih, feed_add, List.sum_cons (l := m :: ns)]

/-- The bytes before an element are read without a byte of it. -/
theorem feed_to (ps qs : List (Piece ε κ α)) (e : ε) (a b : List α) (hb : b ≠ []) :
    (feed call ((text ps).length + a.length) (ps ++ .data e (a ++ b) :: qs)).2 =
      .data e b :: qs := by
  have hpos : 0 < b.length := List.length_pos_iff.mpr hb
  induction ps with
  | nil =>
    rw [List.nil_append, text_nil, List.length_nil, Nat.zero_add,
      feed_data_part call qs e (by rw [List.length_append]; omega), List.drop_left]
  | cons p ps ih =>
    have hsub : ∀ n, n + (text ps).length + a.length - n = (text ps).length + a.length := by
      intro n
      omega
    rw [text_cons, List.length_append, List.cons_append]
    cases p with
    | event k =>
      rw [feed_event, Piece.text, List.length_nil, Nat.zero_add]
      exact ih
    | gap s =>
      rw [Piece.text, feed_gap call _ (by omega), hsub]
      exact ih
    | data e' s =>
      rw [Piece.text, feed_data call _ e' (by omega), hsub]
      exact ih

theorem mem_calls {e : ε} {s : List α} {k : κ} (h : k ∈ calls call e s) :
    ∃ e s, s ≠ [] ∧ k = call e s := by
  cases s with
  | nil => exact (List.not_mem_nil h).elim
  | cons a s => exact ⟨e, a :: s, List.cons_ne_nil _ _, List.mem_singleton.mp h⟩

/-- The events that are left are events of the layout. -/
theorem mem_feed_rest {n : Nat} {ps : List (Piece ε κ α)} {k : κ}
    (h : .event k ∈ (feed call n ps).2) : .event k ∈ ps := by
  induction ps generalizing n with
  | nil => exact (List.not_mem_nil h).elim
  | cons p ps ih =>
    cases p with
    | event j =>
      rw [feed_event] at h
      exact List.mem_cons_of_mem _ (ih h)
    | gap s =>
      rcases Nat.lt_or_ge n s.length with hs | hs
      · rw [feed_gap_part call ps hs] at h
        simpa using h
      · rw [feed_gap call ps hs] at h
        exact List.mem_cons_of_mem _ (ih h)
    | data e s =>
      rcases Nat.lt_or_ge n s.length with hs | hs
      · rw [feed_data_part call ps e hs] at h
        simpa using h
      · rw [feed_data call ps e hs] at h
        exact List.mem_cons_of_mem _ (ih h)

/-- A report tells bytes of an element, or an event of the layout. -/
theorem mem_feed {n : Nat} {ps : List (Piece ε κ α)} {k : κ} (h : k ∈ (feed call n ps).1) :
    (∃ e s, s ≠ [] ∧ k = call e s) ∨ .event k ∈ ps := by
  induction ps generalizing n with
  | nil => exact (List.not_mem_nil h).elim
  | cons p ps ih =>
    cases p with
    | event j =>
      rw [feed_event] at h
      rcases List.mem_cons.mp h with rfl | h
      · exact Or.inr List.mem_cons_self
      · exact (ih h).imp_right (List.mem_cons_of_mem _)
    | gap s =>
      rcases Nat.lt_or_ge n s.length with hs | hs
      · rw [feed_gap_part call ps hs] at h
        exact (List.not_mem_nil h).elim
      · rw [feed_gap call ps hs] at h
        exact (ih h).imp_right (List.mem_cons_of_mem _)
    | data e s =>
      rcases Nat.lt_or_ge n s.length with hs | hs
      · rw [feed_data_part call ps e hs] at h
        exact Or.inl (mem_calls call h)
      · rw [feed_data call ps e hs] at h
        rcases List.mem_append.mp h with h | h
        · exact Or.inl (mem_calls call h)
        · exact (ih h).imp_right (List.mem_cons_of_mem _)

theorem mem_feedAll {ps : List (Piece ε κ α)} {ns : List Nat} {k : κ}
    (h : k ∈ feedAll call ps ns) : (∃ e s, s ≠ [] ∧ k = call e s) ∨ .event k ∈ ps := by
  induction ns generalizing ps with
  | nil => exact (List.not_mem_nil h).elim
  | cons n ns ih =>
    rcases List.mem_append.mp h with h | h
    · exact mem_feed call h
    · exact (ih h).imp_right (mem_feed_rest call)

/-! ## Each element comes whole -/

/-- The reports `ks` tell the pieces of a layout, in order, each in parts. -/
inductive Cut : List (Piece ε κ α) → List κ → Prop
  | nil : Cut [] []
  | event (k : κ) {ps ks} (h : Cut ps ks) : Cut (.event k :: ps) (k :: ks)
  | gap (s : List α) {ps ks} (h : Cut ps ks) : Cut (.gap s :: ps) ks
  | data (e : ε) (subs : List (List α)) {ps ks} (h : Cut ps ks) :
    Cut (.data e subs.flatten :: ps) (subs.map (call e) ++ ks)

variable {call}

theorem Cut.calls (e : ε) (s : List α) {t : List α} {ps : List (Piece ε κ α)} {ks : List κ}
    (h : Cut call (.data e t :: ps) ks) :
    Cut call (.data e (s ++ t) :: ps) (segments.calls call e s ++ ks) := by
  cases h with
  | data _ subs h =>
    cases s with
    | nil => exact .data e subs h
    | cons b s => exact .data e ((b :: s) :: subs) h

theorem Cut.data_inv {e : ε} {t : List α} {ps : List (Piece ε κ α)} {ks : List κ}
    (h : Cut call (.data e t :: ps) ks) :
    ∃ (parts : List (List α)) (js : List κ), parts.flatten = t ∧
      ks = parts.map (call e) ++ js ∧ Cut call ps js := by
  cases h with
  | data _ parts h => exact ⟨parts, _, rfl, rfl, h⟩

theorem Cut.event_inv {k : κ} {ps : List (Piece ε κ α)} {ks : List κ}
    (h : Cut call (.event k :: ps) ks) : ∃ js, ks = k :: js ∧ Cut call ps js := by
  cases h with
  | event _ h => exact ⟨_, rfl, h⟩

theorem Cut.append_inv {ps qs : List (Piece ε κ α)} {ks : List κ} (h : Cut call (ps ++ qs) ks) :
    ∃ is js, ks = is ++ js ∧ Cut call ps is ∧ Cut call qs js := by
  induction ps generalizing ks with
  | nil => exact ⟨[], ks, rfl, .nil, h⟩
  | cons p ps ih =>
    rw [List.cons_append] at h
    cases p with
    | event k =>
      obtain ⟨ks, rfl, h'⟩ := h.event_inv
      obtain ⟨is, js, rfl, hi, hj⟩ := ih h'
      exact ⟨k :: is, js, rfl, .event k hi, hj⟩
    | gap s =>
      cases h with
      | gap _ h' =>
        obtain ⟨is, js, rfl, hi, hj⟩ := ih h'
        exact ⟨is, js, rfl, .gap s hi, hj⟩
    | data e t =>
      obtain ⟨parts, ks, rfl, rfl, h'⟩ := h.data_inv
      obtain ⟨is, js, rfl, hi, hj⟩ := ih h'
      exact ⟨parts.map (call e) ++ is, js, by simp, .data e parts hi, hj⟩

/-- A report of a cut is one of its pieces, or a part of one. -/
theorem Cut.mem {ps : List (Piece ε κ α)} {ks : List κ} (h : Cut call ps ks) {k : κ}
    (hk : k ∈ ks) : (∃ e s t, .data e t ∈ ps ∧ k = call e s) ∨ .event k ∈ ps := by
  induction h with
  | nil => cases hk
  | event j h ih =>
    rcases List.mem_cons.mp hk with rfl | hk
    · exact Or.inr List.mem_cons_self
    · exact (ih hk).imp (fun ⟨e, s, t, ht, he⟩ => ⟨e, s, t, List.mem_cons_of_mem _ ht, he⟩)
        (List.mem_cons_of_mem _)
  | gap s h ih =>
    exact (ih hk).imp (fun ⟨e, s, t, ht, he⟩ => ⟨e, s, t, List.mem_cons_of_mem _ ht, he⟩)
      (List.mem_cons_of_mem _)
  | data e parts h ih =>
    rcases List.mem_append.mp hk with hk | hk
    · obtain ⟨s, -, rfl⟩ := List.mem_map.mp hk
      exact Or.inl ⟨e, s, _, List.mem_cons_self, rfl⟩
    · exact (ih hk).imp (fun ⟨e, s, t, ht, he⟩ => ⟨e, s, t, List.mem_cons_of_mem _ ht, he⟩)
        (List.mem_cons_of_mem _)

/-- What is neither a report of bytes nor an event of the layout is not reported. -/
theorem Cut.not_mem {ps : List (Piece ε κ α)} {ks : List κ} (h : Cut call ps ks) {k : κ}
    (hcall : ∀ e s, call e s ≠ k) (hevent : .event k ∉ ps) : k ∉ ks := by
  intro hk
  rcases h.mem hk with ⟨e, s, t, -, rfl⟩ | hin
  · exact hcall e s rfl
  · exact hevent hin

/-- The reports of a segment are the first parts of a cut. -/
theorem Cut.of_feed {n : Nat} {ps : List (Piece ε κ α)} {ks : List κ}
    (h : Cut call (feed call n ps).2 ks) : Cut call ps ((feed call n ps).1 ++ ks) := by
  induction ps generalizing n ks with
  | nil => exact h
  | cons p ps ih =>
    cases p with
    | event k => exact .event k (ih h)
    | gap s =>
      rcases Nat.lt_or_ge n s.length with hs | hs
      · rw [feed_gap_part call ps hs] at *
        cases h with
        | gap _ h => exact .gap s h
      · rw [feed_gap call ps hs] at *
        exact .gap s (ih h)
    | data e s =>
      rcases Nat.lt_or_ge n s.length with hs | hs
      · rw [feed_data_part call ps e hs] at *
        have hcut := Cut.calls e (s.take n) h
        rwa [List.take_append_drop] at hcut
      · rw [feed_data call ps e hs] at *
        have hcut := Cut.calls e s (Cut.data e [] (ih h))
        simpa using hcut

/-- Over all segments, the reports are a cut of the layout. -/
theorem feedAll_cut {ps : List (Piece ε κ α)} {n : Nat} {ns : List Nat}
    (h : (text ps).length ≤ (n :: ns).sum) : Cut call ps (feedAll call ps (n :: ns)) := by
  induction ns generalizing n ps with
  | nil =>
    rw [List.sum_singleton] at h
    apply Cut.of_feed
    rw [feed_last call h]
    exact .nil
  | cons m ns ih =>
    apply Cut.of_feed
    apply ih
    rw [feed_text, List.length_drop]
    rw [List.sum_cons] at h
    omega

/-- A cut of a layout is one of its elements and events alone. -/
theorem Cut.no_gap {ps : List (Piece ε κ α)} {ks : List κ} (h : Cut call ps ks)
    {keep : Piece ε κ α → Bool} (hgap : ∀ s, keep (.gap s) = false)
    (hdata : ∀ e s, keep (.data e s) = true) (hevent : ∀ k, keep (.event k) = true) :
    Cut call (ps.filter keep) ks := by
  induction h with
  | nil => exact .nil
  | event k h ih =>
    rw [List.filter_cons_of_pos (hevent k)]
    exact .event k ih
  | gap s h ih =>
    rw [List.filter_cons_of_neg (by simp [hgap s])]
    exact ih
  | data e subs h ih =>
    rw [List.filter_cons_of_pos (hdata e _)]
    exact .data e subs ih

end Reader

/-! ## What the reports keep -/

section Weight

variable (call : ε → List α → κ) (w : κ → Nat) (v : ε → α → Nat)

/-- What the bytes and the events of a layout weigh. -/
def weight : List (Piece ε κ α) → Nat
  | [] => 0
  | .event k :: ps => w k + weight ps
  | .gap _ :: ps => weight ps
  | .data e s :: ps => (s.map (v e)).sum + weight ps

/-- What reports weigh. -/
def total (ks : List κ) : Nat := (ks.map w).sum

theorem total_append (ks js : List κ) : total w (ks ++ js) = total w ks + total w js := by
  simp [total]

variable {call w v}

theorem total_calls_le (h : ∀ e s, w (call e s) ≤ (s.map (v e)).sum) (e : ε) (s : List α) :
    total w (calls call e s) ≤ (s.map (v e)).sum := by
  cases s with
  | nil => simp [calls, total]
  | cons a s => simpa [calls, total] using h e (a :: s)

/-- A cut of an element keeps the weight of its bytes. -/
theorem sum_cut (f : α → Nat) (n : Nat) (s : List α) :
    ((s.take n).map f).sum + ((s.drop n).map f).sum = (s.map f).sum := by
  rw [← List.sum_append, ← List.map_append, List.take_append_drop]

/-- A segment reports no more than the weight of its pieces, when a report
weighs no more than its bytes. -/
theorem feed_weight_le (h : ∀ e s, w (call e s) ≤ (s.map (v e)).sum) (n : Nat)
    (ps : List (Piece ε κ α)) :
    total w (feed call n ps).1 + weight w v (feed call n ps).2 ≤ weight w v ps := by
  induction ps generalizing n with
  | nil => simp [feed, total, weight]
  | cons p ps ih =>
    cases p with
    | event k =>
      have hrest := ih n
      rw [feed_event]
      simp only [total, List.map_cons, List.sum_cons, weight] at *
      omega
    | gap s =>
      rcases Nat.lt_or_ge n s.length with hs | hs
      · rw [feed_gap_part call ps hs]
        simp [total, weight]
      · rw [feed_gap call ps hs]
        exact ih _
    | data e s =>
      rcases Nat.lt_or_ge n s.length with hs | hs
      · have hcalls := total_calls_le h e (s.take n)
        have hsum := sum_cut (v e) n s
        rw [feed_data_part call ps e hs]
        simp only [weight]
        omega
      · have hcalls := total_calls_le h e s
        have hrest := ih (n - s.length)
        rw [feed_data call ps e hs]
        simp only [total_append, weight]
        omega

theorem total_calls_one (h : ∀ e a, w (call e [a]) = v e a) (e : ε) {s : List α}
    (hs : s.length ≤ 1) : total w (calls call e s) = (s.map (v e)).sum := by
  cases s with
  | nil => rfl
  | cons a s =>
    have hnil : s = [] := by simpa using hs
    simp [hnil, calls, total, h]

/-- A segment of one byte reports all of it, when a report of one byte does. -/
theorem feed_weight_one (h : ∀ e a, w (call e [a]) = v e a) {n : Nat} (hn : n ≤ 1)
    (ps : List (Piece ε κ α)) :
    total w (feed call n ps).1 + weight w v (feed call n ps).2 = weight w v ps := by
  induction ps generalizing n with
  | nil => simp [feed, total, weight]
  | cons p ps ih =>
    cases p with
    | event k =>
      have hrest := ih hn
      rw [feed_event]
      simp only [total, List.map_cons, List.sum_cons, weight] at *
      omega
    | gap s =>
      rcases Nat.lt_or_ge n s.length with hs | hs
      · rw [feed_gap_part call ps hs]
        simp [total, weight]
      · rw [feed_gap call ps hs]
        exact ih (by omega)
    | data e s =>
      rcases Nat.lt_or_ge n s.length with hs | hs
      · have hcalls := total_calls_one h e (s := s.take n) (by rw [List.length_take]; omega)
        have hsum := sum_cut (v e) n s
        rw [feed_data_part call ps e hs]
        simp only [weight]
        omega
      · have hcalls := total_calls_one h e (s := s) (by omega)
        have hrest := ih (n := n - s.length) (by omega)
        rw [feed_data call ps e hs]
        simp only [total_append, weight]
        omega

theorem feedAll_weight_le (h : ∀ e s, w (call e s) ≤ (s.map (v e)).sum) (ns : List Nat)
    (ps : List (Piece ε κ α)) :
    total w (feedAll call ps ns) + weight w v (rest call ps ns) ≤ weight w v ps := by
  induction ns generalizing ps with
  | nil => simp [feedAll, rest, total]
  | cons n ns ih =>
    have hone := feed_weight_le h n ps
    have hrest := ih (feed call n ps).2
    have heq : rest call ps (n :: ns) = rest call (feed call n ps).2 ns := rfl
    rw [feedAll, total_append, heq]
    omega

theorem feedAll_weight_ones (h : ∀ e a, w (call e [a]) = v e a) (k : Nat)
    (ps : List (Piece ε κ α)) :
    total w (feedAll call ps (List.replicate k 1)) +
      weight w v (rest call ps (List.replicate k 1)) = weight w v ps := by
  induction k generalizing ps with
  | zero => simp [feedAll, rest, total]
  | succ k ih =>
    have hone := feed_weight_one h (Nat.le_refl 1) ps
    have hrest := ih (feed call 1 ps).2
    have heq : rest call ps (1 :: List.replicate k 1) =
        rest call (feed call 1 ps).2 (List.replicate k 1) := rfl
    rw [List.replicate_succ, feedAll, total_append, heq]
    omega

/-- A segment that tells two bytes of an element less than each alone. -/
theorem feed_weight_pair (h : ∀ e s, w (call e s) ≤ (s.map (v e)).sum) {e : ε} {a x : α}
    (hpair : w (call e [a, x]) < v e a + v e x) (b : List α) (ps : List (Piece ε κ α)) :
    total w (feed call 2 (.data e (a :: x :: b) :: ps)).1 +
        weight w v (feed call 2 (.data e (a :: x :: b) :: ps)).2 <
      weight w v (.data e (a :: x :: b) :: ps) := by
  cases b with
  | nil =>
    have hrest := feed_weight_le h 0 ps
    rw [feed_data call ps e (Nat.le_refl 2)]
    simp only [calls, List.singleton_append, total, weight, List.map_cons, List.map_nil,
      List.sum_cons, List.sum_nil, List.length_cons, List.length_nil, Nat.zero_add,
      Nat.reduceAdd, Nat.sub_self] at *
    omega
  | cons c b =>
    rw [feed_data_part call ps e (by simp)]
    simp only [List.take_succ_cons, List.take_zero, List.drop_succ_cons, List.drop_zero, calls,
      total, weight, List.map_cons, List.map_nil, List.sum_cons, List.sum_nil]
    omega

theorem weight_append (ps qs : List (Piece ε κ α)) :
    weight w v (ps ++ qs) = weight w v ps + weight w v qs := by
  induction ps with
  | nil => simp [weight]
  | cons p ps ih => cases p <;> simp [weight, ih, Nat.add_assoc]

theorem weight_no_gap {f : Piece ε κ α → Bool} (hgap : ∀ s, f (.gap s) = false)
    (hdata : ∀ e s, f (.data e s) = true) (hevent : ∀ k, f (.event k) = true)
    (ps : List (Piece ε κ α)) : weight w v (ps.filter f) = weight w v ps := by
  induction ps with
  | nil => rfl
  | cons p ps ih =>
    cases p with
    | event k => rw [List.filter_cons_of_pos (hevent k), weight, weight, ih]
    | gap s => rw [List.filter_cons_of_neg (by simp [hgap s]), weight, ih]
    | data e s => rw [List.filter_cons_of_pos (hdata e s), weight, weight, ih]

end Weight

end segments
