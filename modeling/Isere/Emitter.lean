-- Writers: they append to a stream, and return whether they succeeded. What a
-- writer emits is put together from what its calls emit. A failure is seen in
-- the stream ever after.
import Mathlib.Data.List.Forall2

namespace emitter

variable {σ τ : Type}

/-- Returns whether it succeeded, and leaves the stream. -/
abbrev Writer (σ : Type) := σ → Bool × σ

def Writer.done : Writer σ := fun s => (true, s)

/-- `if (!f(stream)) return false; return g(stream);` -/
def Writer.andThen (f g : Writer σ) : Writer σ := fun s =>
  if (f s).1 then g (f s).2 else (false, (f s).2)

def Writer.all : List (Writer σ) → Writer σ
  | [] => .done
  | f :: fs => f.andThen (Writer.all fs)

theorem all_append (fs gs : List (Writer σ)) :
    Writer.all (fs ++ gs) = (Writer.all fs).andThen (Writer.all gs) := by
  induction fs with
  | nil => rfl
  | cons f fs ih =>
    funext s
    rw [List.cons_append, Writer.all, Writer.all, ih]
    unfold Writer.andThen
    cases (f s).1 <;> rfl

/-- What is seen of a stream: the tokens in it, and whether a call on it failed. -/
structure Observer (σ τ : Type) where
  out : σ → List τ
  failed : σ → Bool

/-- When the writer succeeds it has appended tokens that meet `P`, and no call failed in it. When
it does not, a call failed. -/
structure Emits (o : Observer σ τ) (f : Writer σ) (P : List τ → Prop) : Prop where
  succeeds : ∀ s, (f s).1 = true →
    o.failed (f s).2 = o.failed s ∧ ∃ ts, P ts ∧ o.out (f s).2 = o.out s ++ ts
  fails : ∀ s, (f s).1 = false → o.failed (f s).2 = true

/-- Tokens of the first kind, and then of the second. -/
def Cat (P Q : List τ → Prop) (ts : List τ) : Prop := ∃ a b, P a ∧ Q b ∧ ts = a ++ b

/-- Tokens of each kind, one after the other. -/
def Cats (Ps : List (List τ → Prop)) (ts : List τ) : Prop :=
  ∃ tss, List.Forall₂ (fun P ts => P ts) Ps tss ∧ ts = tss.flatten

@[simp] theorem cats_nil {ts : List τ} : Cats [] ts ↔ ts = [] := by
  simp [Cats]

theorem cats_cons {P : List τ → Prop} {Ps : List (List τ → Prop)} :
    Cats (P :: Ps) = Cat P (Cats Ps) := by
  funext ts
  apply propext
  constructor
  · rintro ⟨tss, hall, rfl⟩
    cases hall with
    | cons hP hPs => exact ⟨_, _, hP, ⟨_, hPs, rfl⟩, rfl⟩
  · rintro ⟨a, b, hP, ⟨tss, hPs, rfl⟩, rfl⟩
    exact ⟨a :: tss, .cons hP hPs, rfl⟩

section Rules

variable {o : Observer σ τ} {f g : Writer σ} {P Q : List τ → Prop}

theorem Emits.mono (h : Emits o f P) (hPQ : ∀ ts, P ts → Q ts) : Emits o f Q where
  succeeds := by
    intro s hs
    obtain ⟨hfailed, ts, hP, hout⟩ := h.succeeds s hs
    exact ⟨hfailed, ts, hPQ ts hP, hout⟩
  fails := h.fails

theorem Emits.done : Emits o Writer.done (fun ts => ts = []) where
  succeeds := by
    intro s _
    exact ⟨rfl, [], rfl, by simp [Writer.done]⟩
  fails := by
    intro s hs
    cases hs

theorem Emits.andThen (hf : Emits o f P) (hg : Emits o g Q) : Emits o (f.andThen g) (Cat P Q) where
  succeeds := by
    intro s hs
    unfold Writer.andThen at hs ⊢
    cases hfs : (f s).1 with
    | false => simp [hfs] at hs
    | true =>
      rw [hfs, if_pos rfl] at hs
      obtain ⟨hfailed, a, hP, hout⟩ := hf.succeeds s hfs
      obtain ⟨hfailed', b, hQ, hout'⟩ := hg.succeeds (f s).2 hs
      rw [if_pos rfl]
      refine ⟨hfailed'.trans hfailed, a ++ b, ⟨a, b, hP, hQ, rfl⟩, ?_⟩
      rw [hout', hout, List.append_assoc]
  fails := by
    intro s hs
    unfold Writer.andThen at hs ⊢
    cases hfs : (f s).1 with
    | false => simpa using hf.fails s hfs
    | true =>
      rw [hfs, if_pos rfl] at hs
      simpa using hg.fails (f s).2 hs

theorem Emits.all {fs : List (Writer σ)} {Ps : List (List τ → Prop)}
    (h : List.Forall₂ (Emits o) fs Ps) : Emits o (Writer.all fs) (Cats Ps) := by
  induction h with
  | nil => exact Emits.done.mono (fun ts hts => cats_nil.mpr hts)
  | cons hf _ ih =>
    rw [cats_cons]
    exact hf.andThen ih

/-- A writer that looks at the stream first. -/
theorem Emits.read {α : Type} (read : σ → α) {f : α → Writer σ} {P : α → List τ → Prop}
    (h : ∀ a, Emits o (f a) (P a)) :
    Emits o (fun s => f (read s) s) (fun ts => ∃ a, P a ts) where
  succeeds := by
    intro s hs
    obtain ⟨hfailed, ts, hP, hout⟩ := (h (read s)).succeeds s hs
    exact ⟨hfailed, ts, ⟨read s, hP⟩, hout⟩
  fails := by
    intro s hs
    exact (h (read s)).fails s hs

/-- On a stream without a failure, the writer succeeds just when no call fails. -/
theorem Emits.succeeds_iff (h : Emits o f P) {s : σ} (hs : o.failed s = false) :
    (f s).1 = true ↔ o.failed (f s).2 = false := by
  constructor
  · intro hok
    rw [(h.succeeds s hok).1, hs]
  · intro hok
    by_contra hno
    rw [h.fails s (by simpa using hno)] at hok
    cases hok

end Rules

end emitter
