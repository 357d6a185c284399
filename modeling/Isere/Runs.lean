-- Runs of a step function over a list of inputs, and histories of events. An
-- invariant that each allowed step keeps holds after every run of allowed
-- steps. A history law says which events may come after which.
import Mathlib.Data.List.Basic
import Mathlib.Data.List.Induction
import Mathlib.Logic.Relation

namespace runs

section Run

variable {σ ι : Type}

/-- The state after the steps of the inputs, first to last. -/
def run (step : σ → ι → σ) (s : σ) (is : List ι) : σ := is.foldl step s

@[simp] theorem run_nil (step : σ → ι → σ) (s : σ) : run step s [] = s := rfl

@[simp] theorem run_cons (step : σ → ι → σ) (s : σ) (i : ι) (is : List ι) :
    run step s (i :: is) = run step (step s i) is := rfl

theorem run_append (step : σ → ι → σ) (s : σ) (is js : List ι) :
    run step s (is ++ js) = run step (run step s is) js := List.foldl_append

/-- Each step of the run meets `ok`, in the state that it starts from. -/
def StepsOk (step : σ → ι → σ) (ok : σ → ι → Prop) : σ → List ι → Prop
  | _, [] => True
  | s, i :: is => ok s i ∧ StepsOk step ok (step s i) is

instance StepsOk.decidable {step : σ → ι → σ} {ok : σ → ι → Prop} [∀ s i, Decidable (ok s i)] :
    ∀ (s : σ) (is : List ι), Decidable (StepsOk step ok s is)
  | _, [] => inferInstanceAs (Decidable True)
  | s, i :: is =>
    have : Decidable (StepsOk step ok (step s i) is) := StepsOk.decidable (step s i) is
    inferInstanceAs (Decidable (ok s i ∧ StepsOk step ok (step s i) is))

/-- The steps of the first part of a run meet what the steps of the run meet. -/
theorem StepsOk.left {step : σ → ι → σ} {ok : σ → ι → Prop} {s : σ} {is js : List ι}
    (h : StepsOk step ok s (is ++ js)) : StepsOk step ok s is := by
  induction is generalizing s with
  | nil => trivial
  | cons i is ih => exact ⟨h.1, ih h.2⟩

/-- So do the steps of the rest, from where the first part leads. -/
theorem StepsOk.right {step : σ → ι → σ} {ok : σ → ι → Prop} {s : σ} {is js : List ι}
    (h : StepsOk step ok s (is ++ js)) : StepsOk step ok (run step s is) js := by
  induction is generalizing s with
  | nil => exact h
  | cons i is ih => exact ih h.2

/-- Two runs of allowed steps, one after the other. -/
theorem StepsOk.append {step : σ → ι → σ} {ok : σ → ι → Prop} {s : σ} {is js : List ι}
    (h : StepsOk step ok s is) (h' : StepsOk step ok (run step s is) js) :
    StepsOk step ok s (is ++ js) := by
  induction is generalizing s with
  | nil => exact h'
  | cons i is ih => exact ⟨h.1, ih h.2 h'⟩

theorem StepsOk.mono {step : σ → ι → σ} {ok ok' : σ → ι → Prop} {s : σ} {is : List ι}
    (himp : ∀ s i, ok s i → ok' s i) (h : StepsOk step ok s is) : StepsOk step ok' s is := by
  induction is generalizing s with
  | nil => trivial
  | cons i is ih => exact ⟨himp s i h.1, ih h.2⟩

/-- An invariant that every allowed step keeps holds after an allowed run. -/
theorem run_inv {step : σ → ι → σ} {ok : σ → ι → Prop} {I : σ → Prop}
    (hstep : ∀ s i, I s → ok s i → I (step s i)) {s : σ} {is : List ι}
    (h0 : I s) (h : StepsOk step ok s is) : I (run step s is) := by
  induction is generalizing s with
  | nil => exact h0
  | cons i is ih => exact ih (hstep s i h0 h.1) h.2

/-- An invariant that every step keeps holds after every run. -/
theorem run_inv_all {step : σ → ι → σ} {I : σ → Prop} (hstep : ∀ s i, I s → I (step s i)) {s : σ}
    (h0 : I s) (is : List ι) : I (run step s is) := by
  induction is generalizing s with
  | nil => exact h0
  | cons i is ih => exact ih (hstep s i h0)

/-- Along an allowed run, an invariant tells more of each step. -/
theorem StepsOk.with_inv {step : σ → ι → σ} {ok ok' : σ → ι → Prop} {I : σ → Prop}
    (hstep : ∀ s i, I s → ok s i → I (step s i) ∧ ok' s i) {s : σ} {is : List ι}
    (h0 : I s) (h : StepsOk step ok s is) : StepsOk step ok' s is := by
  induction is generalizing s with
  | nil => trivial
  | cons i is ih =>
    obtain ⟨hi, hok⟩ := hstep s i h0 h.1
    exact ⟨hok, ih hi h.2⟩

/-- What each input meets by itself, the steps of a run meet. -/
theorem StepsOk.of_forall {step : σ → ι → σ} {ok : ι → Prop} {s : σ} {is : List ι}
    (h : ∀ i ∈ is, ok i) : StepsOk step (fun _ => ok) s is := by
  induction is generalizing s with
  | nil => trivial
  | cons i is ih =>
    exact ⟨h i List.mem_cons_self, ih (fun j hj => h j (List.mem_cons_of_mem _ hj))⟩

/-- What does not look at the state holds of the steps of a run just if it holds of its inputs. -/
theorem stepsOk_input_iff {step : σ → ι → σ} {ok : ι → Prop} {s : σ} {is : List ι} :
    StepsOk step (fun _ => ok) s is ↔ ∀ i ∈ is, ok i := by
  induction is generalizing s with
  | nil => simp [StepsOk]
  | cons i is ih => simp only [StepsOk, ih, List.forall_mem_cons]

theorem StepsOk.and {step : σ → ι → σ} {ok ok' : σ → ι → Prop} {s : σ} {is : List ι}
    (h : StepsOk step ok s is) (h' : StepsOk step ok' s is) :
    StepsOk step (fun s i => ok s i ∧ ok' s i) s is := by
  induction is generalizing s with
  | nil => trivial
  | cons i is ih => exact ⟨⟨h.1, h'.1⟩, ih h.2 h'.2⟩

/-- The steps of a run meet the same with more to the state. -/
theorem stepsOk_lift_iff {τ : Type} {step : σ → ι → σ} {step' : τ → ι → τ} {ok : σ → ι → Prop}
    {f : τ → σ} (hf : ∀ t i, f (step' t i) = step (f t) i) {t : τ} {is : List ι} :
    StepsOk step' (fun t i => ok (f t) i) t is ↔ StepsOk step ok (f t) is := by
  induction is generalizing t with
  | nil => exact Iff.rfl
  | cons i is ih => exact and_congr_right (fun _ => by rw [ih, hf])

/-- The state after the first `n` inputs of a stream. -/
def after (step : σ → ι → σ) (s : σ) (is : Nat → ι) : Nat → σ
  | 0 => s
  | n + 1 => step (after step s is n) (is n)

@[simp] theorem after_zero (step : σ → ι → σ) (s : σ) (is : Nat → ι) : after step s is 0 = s := rfl

theorem after_add (step : σ → ι → σ) (s : σ) (is : Nat → ι) (m n : Nat) :
    after step s is (m + n) = after step (after step s is m) (fun k => is (m + k)) n := by
  induction n with
  | zero => rfl
  | succ n ih =>
    rw [← Nat.add_assoc, after, after, ih]

/-- What a relation keeps, any number of its steps keep. -/
theorem star_inv {R : σ → σ → Prop} {I : σ → Prop} (hR : ∀ a b, I a → R a b → I b) {a b : σ}
    (h : Relation.ReflTransGen R a b) (ha : I a) : I b := by
  induction h with
  | refl => exact ha
  | tail _ hbc ih => exact hR _ _ ih hbc

end Run

section History

variable {ε : Type}

/-- Every event of the history is allowed after the events before it. -/
def Allowed (P : List ε → ε → Prop) (t : List ε) : Prop :=
  ∀ pre e post, t = pre ++ e :: post → P pre e

theorem allowed_nil (P : List ε → ε → Prop) : Allowed P [] := by
  intro pre e post h
  simp at h

theorem allowed_snoc_iff {P : List ε → ε → Prop} {t : List ε} {e : ε} :
    Allowed P (t ++ [e]) ↔ Allowed P t ∧ P t e := by
  constructor
  · intro h
    refine ⟨?_, h t e [] rfl⟩
    rintro pre x post rfl
    exact h pre x (post ++ [e]) (by simp)
  · rintro ⟨h, he⟩ pre x post hx
    rcases List.eq_nil_or_concat post with rfl | ⟨post', y, rfl⟩
    · have hlast := List.append_inj' hx (by simp)
      rw [← hlast.1]
      have hxe : e = x := by simpa using hlast.2
      rwa [← hxe]
    · rw [List.concat_eq_append, ← List.cons_append, ← List.append_assoc] at hx
      exact h pre x post' (List.append_inj' hx (by simp)).1

/-- Events that are allowed one by one, each after those before it. -/
theorem allowed_append {P : List ε → ε → Prop} {t es : List ε} (h : Allowed P t)
    (hes : ∀ pre e post, es = pre ++ e :: post → P (t ++ pre) e) : Allowed P (t ++ es) := by
  induction es using List.reverseRecOn with
  | nil => simpa using h
  | append_singleton es e ih =>
    rw [← List.append_assoc, allowed_snoc_iff]
    refine ⟨ih ?_, hes es e [] rfl⟩
    rintro pre x post rfl
    exact hes pre x (post ++ [e]) (by simp)

end History

end runs
