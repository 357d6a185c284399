-- The components of a system. What is seen of a component moves by a step of its
-- own on the inputs that it gets, and stays as it is otherwise: along any run of
-- the system it is the run of the component on its inputs alone.
import Isere.Runs

namespace runs

section Component

variable {σ ι τ κ : Type}

/-- What a component gets along a run, first to last. -/
def inputsOf (step : σ → ι → σ) (input : σ → ι → Option κ) : σ → List ι → List κ
  | _, [] => []
  | s, i :: is => (input s i).toList ++ inputsOf step input (step s i) is

/-- What a component gives along its inputs, first to last. -/
def outputsOf {ο : Type} (own : τ → κ → τ) (out : τ → κ → List ο) : τ → List κ → List ο
  | _, [] => []
  | t, k :: ks => out t k ++ outputsOf own out (own t k) ks

theorem outputsOf_append {ο : Type} (own : τ → κ → τ) (out : τ → κ → List ο) (t : τ)
    (ks ks' : List κ) : outputsOf own out t (ks ++ ks') =
      outputsOf own out t ks ++ outputsOf own out (run own t ks) ks' := by
  induction ks generalizing t with
  | nil => rfl
  | cons k ks ih => rw [List.cons_append, outputsOf, ih, outputsOf, run_cons, List.append_assoc]

/-- A component with the step `own`, in a system with the step `step`. -/
structure Component (step : σ → ι → σ) (own : τ → κ → τ) where
  view : σ → τ
  input : σ → ι → Option κ
  moves : ∀ s i k, input s i = some k → view (step s i) = own (view s) k
  stays : ∀ s i, input s i = none → view (step s i) = view s

variable {step : σ → ι → σ} {own : τ → κ → τ}

/-- What a component gets along a run of its system. -/
def Component.inputs (C : Component step own) (s : σ) (is : List ι) : List κ :=
  inputsOf step C.input s is

/-- A run of the system, seen from a component, is a run of the component. -/
theorem Component.run_view (C : Component step own) (s : σ) (is : List ι) :
    C.view (run step s is) = run own (C.view s) (C.inputs s is) := by
  unfold inputs
  induction is generalizing s with
  | nil => rw [run_nil, inputsOf, run_nil]
  | cons i is ih =>
    rw [run_cons, ih, inputsOf]
    cases hin : C.input s i with
    | none => rw [C.stays s i hin, Option.toList_none, List.nil_append]
    | some k => rw [C.moves s i k hin, Option.toList_some, List.singleton_append, run_cons]

@[simp] theorem Component.inputs_nil (C : Component step own) (s : σ) : C.inputs s [] = [] := rfl

@[simp] theorem Component.inputs_cons (C : Component step own) (s : σ) (i : ι) (is : List ι) :
    C.inputs s (i :: is) = (C.input s i).toList ++ C.inputs (step s i) is := rfl

/-- What a component gets in one part of a run, and then in the next. -/
theorem Component.inputs_append (C : Component step own) (s : σ) (is js : List ι) :
    C.inputs s (is ++ js) = C.inputs s is ++ C.inputs (run step s is) js := by
  induction is generalizing s with
  | nil => rw [List.nil_append, inputs_nil, List.nil_append, run_nil]
  | cons i is ih => rw [List.cons_append, inputs_cons, ih, inputs_cons, run_cons, List.append_assoc]

end Component

end runs
