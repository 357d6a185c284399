-- Lines of a text that CR LF ends, as a reader of an HTTP head cuts them. A
-- list of lines comes back as it was written just when none of them holds a
-- CR LF itself.
import Isere.CString

open cstring

namespace crlf

/-- The end of a line. -/
def lineEnd : Bytes := [13, 10]

/-- The lines up to the first empty one, and the bytes after it. `line` is what
was read of the current line. -/
def readHead (line : Bytes) : Bytes → Option (List Bytes × Bytes)
  | 13 :: 10 :: rest =>
    if line = [] then some ([], rest)
    else (readHead [] rest).map (fun p => (line :: p.1, p.2))
  | b :: rest => readHead (line ++ [b]) rest
  | [] => none

/-- The lines of a head, up to its empty line. -/
def headLines (text : Bytes) : Option (List Bytes) := (readHead [] text).map Prod.fst

/-- A head of some lines, with the empty line at its end. -/
def writeHead (lines : List Bytes) : Bytes := lines.flatMap (· ++ lineEnd) ++ lineEnd

/-! ## Where a line end stands -/

theorem lineEnd_infix_cons (b : UInt8) (s : Bytes) :
    lineEnd <:+: b :: s ↔ (b = 13 ∧ ∃ t, s = 10 :: t) ∨ lineEnd <:+: s := by
  rw [List.infix_cons_iff]
  apply or_congr_left
  unfold lineEnd
  constructor
  · rintro ⟨t, ht⟩
    simp only [List.cons_append, List.nil_append, List.cons.injEq] at ht
    exact ⟨ht.1.symm, t, ht.2.symm⟩
  · rintro ⟨rfl, t, rfl⟩
    exact ⟨t, rfl⟩

/-- Around a byte that is no part of it, a line end is on one side. -/
theorem lineEnd_infix_append {x : UInt8} (h13 : x ≠ 13) (h10 : x ≠ 10) (a b : Bytes) :
    lineEnd <:+: a ++ x :: b ↔ lineEnd <:+: a ∨ lineEnd <:+: b := by
  induction a with
  | nil =>
    rw [List.nil_append, lineEnd_infix_cons]
    have hnil : ¬ lineEnd <:+: [] := by decide
    simp [h13, hnil]
  | cons c a ih =>
    rw [List.cons_append, lineEnd_infix_cons, lineEnd_infix_cons, ih, or_assoc]
    apply or_congr_left
    cases a with
    | nil => simp [h10]
    | cons d a => simp

theorem lineEnd_free {s : Bytes} (h : ∀ b ∈ s, b ≠ 13) : ¬ lineEnd <:+: s := by
  intro hin
  exact h 13 (hin.subset (by decide)) rfl

/-! ## Reading one line -/

theorem readHead_end (line rest : Bytes) :
    readHead line (lineEnd ++ rest) =
      if line = [] then some ([], rest)
      else (readHead [] rest).map (fun p => (line :: p.1, p.2)) := by
  unfold lineEnd
  rw [List.cons_append, List.cons_append, List.nil_append, readHead]

theorem readHead_byte {b : UInt8} {rest : Bytes} (h : ¬ (b = 13 ∧ ∃ t, rest = 10 :: t))
    (line : Bytes) : readHead line (b :: rest) = readHead (line ++ [b]) rest := by
  rw [readHead]
  intro t hb hrest
  exact h ⟨hb, t, hrest⟩

/-- A text without a line end is read as part of one line. -/
theorem readHead_text {s : Bytes} (h : ¬ lineEnd <:+: s) (line rest : Bytes) :
    readHead line (s ++ (lineEnd ++ rest)) = readHead (line ++ s) (lineEnd ++ rest) := by
  induction s generalizing line with
  | nil => rw [List.nil_append, List.append_nil]
  | cons b s ih =>
    rw [lineEnd_infix_cons, not_or] at h
    have hb : ¬ (b = 13 ∧ ∃ t, s ++ (lineEnd ++ rest) = 10 :: t) := by
      rintro ⟨rfl, t, ht⟩
      cases s with
      | nil => simp [lineEnd] at ht
      | cons c s =>
        rw [List.cons_append, List.cons.injEq] at ht
        exact h.1 ⟨rfl, s, by rw [ht.1]⟩
    rw [List.cons_append, readHead_byte hb, ih h.2, List.append_assoc, List.singleton_append]

/-- A text is free of line ends, or it is cut at the first one. -/
theorem lineEnd_first (s : Bytes) :
    ¬ lineEnd <:+: s ∨ ∃ a b, s = a ++ (lineEnd ++ b) ∧ ¬ lineEnd <:+: a := by
  induction s with
  | nil => exact .inl (by decide)
  | cons c s ih =>
    by_cases hc : c = 13 ∧ ∃ t, s = 10 :: t
    · obtain ⟨rfl, t, rfl⟩ := hc
      exact .inr ⟨[], t, rfl, by decide⟩
    · rcases ih with h | ⟨a, b, rfl, ha⟩
      · refine .inl ?_
        rw [lineEnd_infix_cons]
        tauto
      · refine .inr ⟨c :: a, b, rfl, ?_⟩
        rw [lineEnd_infix_cons]
        rintro (⟨rfl, t, rfl⟩ | h)
        · exact hc ⟨rfl, t ++ (lineEnd ++ b), rfl⟩
        · exact ha h

/-! ## Heads -/

/-- The first line of a head is the one that was written, or it is shorter, or
the head is over. -/
theorem readHead_line {s : Bytes} (hs : s ≠ []) (rest : Bytes) :
    (¬ lineEnd <:+: s ∧
        readHead [] (s ++ (lineEnd ++ rest)) =
          (readHead [] rest).map (fun p => (s :: p.1, p.2))) ∨
      (lineEnd <:+: s ∧ ∀ p, readHead [] (s ++ (lineEnd ++ rest)) = some p →
        p.1.head? ≠ some s) := by
  rcases lineEnd_first s with h | ⟨a, b, rfl, ha⟩
  · refine .inl ⟨h, ?_⟩
    rw [readHead_text h, List.nil_append, readHead_end, if_neg hs]
  · refine .inr ⟨⟨a, b, by simp⟩, ?_⟩
    intro p hp
    rw [List.append_assoc, List.append_assoc, readHead_text ha, List.nil_append,
      readHead_end] at hp
    by_cases hnil : a = []
    · rw [if_pos hnil, Option.some.injEq] at hp
      simp [← hp]
    · rw [if_neg hnil, Option.map_eq_some_iff] at hp
      obtain ⟨q, -, rfl⟩ := hp
      intro he
      have hlen := congrArg List.length (Option.some.inj he)
      simp [lineEnd] at hlen

/-- A head is read back as its lines just when no line holds a line end. -/
theorem headLines_writeHead_iff {lines : List Bytes} (h : ∀ s ∈ lines, s ≠ []) (rest : Bytes) :
    headLines (writeHead lines ++ rest) = some lines ↔ ∀ s ∈ lines, ¬ lineEnd <:+: s := by
  unfold headLines writeHead
  induction lines with
  | nil => simp [readHead_end]
  | cons s lines ih =>
    have hs := readHead_line (h s List.mem_cons_self)
      (lines.flatMap (· ++ lineEnd) ++ lineEnd ++ rest)
    have ih' := ih (fun t ht => h t (List.mem_cons_of_mem _ ht))
    have htext : (s :: lines).flatMap (· ++ lineEnd) ++ lineEnd ++ rest =
        s ++ (lineEnd ++ (lines.flatMap (· ++ lineEnd) ++ lineEnd ++ rest)) := by
      simp
    rw [htext, List.forall_mem_cons]
    rcases hs with ⟨hfree, hread⟩ | ⟨hin, hread⟩
    · rw [hread, and_iff_right hfree, ← ih', Option.map_map, Option.map_eq_some_iff,
        Option.map_eq_some_iff]
      simp
    · constructor
      · intro he
        obtain ⟨p, hp, hlines⟩ := Option.map_eq_some_iff.mp he
        exact absurd (by rw [hlines]; rfl) (hread p hp)
      · rintro ⟨hfree, -⟩
        exact absurd hin hfree

/-- What follows a head is read as what follows it. -/
theorem readHead_writeHead {lines : List Bytes} (h : ∀ s ∈ lines, s ≠ [] ∧ ¬ lineEnd <:+: s)
    (rest : Bytes) : readHead [] (writeHead lines ++ rest) = some (lines, rest) := by
  unfold writeHead
  induction lines with
  | nil => simp [readHead_end]
  | cons s lines ih =>
    have hs := h s List.mem_cons_self
    have ih' := ih (fun t ht => h t (List.mem_cons_of_mem _ ht))
    rw [List.flatMap_cons, List.append_assoc, List.append_assoc, List.append_assoc,
      readHead_text hs.2, List.nil_append, readHead_end, if_neg hs.1, ← List.append_assoc, ih']
    rfl

end crlf
