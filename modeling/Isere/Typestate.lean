-- Programs of atomic actions, run by many threads over one shared state. A
-- program obeys a typestate when every path of it makes only the actions that
-- its view allows. What each allowed action keeps, every interleaving keeps.
import Mathlib.Logic.Function.Basic

namespace typestate

/-! ## Programs -/

/-- A program. The world answers each action, and the answer tells how the
program goes on. -/
inductive Code (α ρ : Type)
  | done (r : ρ)
  | act (a : α) (k : Bool → Code α ρ)

/-- An action whose answer is not looked at. -/
def Code.andThen {α ρ : Type} (a : α) (k : Code α ρ) : Code α ρ := .act a (fun _ => k)

variable {α ρ ν : Type}

/-- Each action is allowed in the view before it, on every path, and the view at
the end is final. `rule` gives the view after an action that is allowed. -/
def Code.Obeys (rule : ν → α → Bool → Option ν) (final : ν → Prop) : ν → Code α ρ → Prop
  | v, .done _ => final v
  | v, .act a k => ∀ b, ∃ v', rule v a b = some v' ∧ Code.Obeys rule final v' (k b)

theorem obeys_andThen_iff {rule : ν → α → Bool → Option ν} {final : ν → Prop} {v v' : ν} {a : α}
    {k : Code α ρ} (h : ∀ b, rule v a b = some v') :
    (Code.andThen a k).Obeys rule final v ↔ k.Obeys rule final v' := by
  constructor
  · intro hk
    obtain ⟨w, hw, hok⟩ := hk true
    rw [h, Option.some.injEq] at hw
    exact hw ▸ hok
  · exact fun hk b => ⟨v', h b, hk⟩

theorem obeys_act_iff {rule : ν → α → Bool → Option ν} {final : ν → Prop} {v v' : ν} {a : α}
    {k : Bool → Code α ρ} (h : ∀ b, rule v a b = some v') :
    (Code.act a k).Obeys rule final v ↔ ∀ b, (k b).Obeys rule final v' := by
  constructor
  · intro hk b
    obtain ⟨w, hw, hok⟩ := hk b
    rw [h, Option.some.injEq] at hw
    exact hw ▸ hok
  · exact fun hk b => ⟨v', h b, hk b⟩

/-! ## Threads -/

/-- Threads with what is left of the program of each, and the state they share. -/
structure Pool (σ ι α ρ : Type) where
  shared : σ
  code : ι → Code α ρ

section Pool

variable {σ ι : Type} [DecidableEq ι]

/-- The next action of a thread. It waits when `exec` gives nothing. -/
def Pool.next (exec : σ → ι → α → Bool → Option σ) (p : Pool σ ι α ρ) (i : ι) (b : Bool) :
    Pool σ ι α ρ :=
  match p.code i with
  | .done _ => p
  | .act a k =>
    match exec p.shared i a b with
    | none => p
    | some s => { shared := s, code := Function.update p.code i (k b) }

/-- The threads have views that describe the shared state, and what is left of
each program obeys its view. -/
def Pool.Sound (rule : ν → α → Bool → Option ν) (final : ι → ν → Prop)
    (I : σ → (ι → ν) → Prop) (p : Pool σ ι α ρ) : Prop :=
  ∃ v : ι → ν, I p.shared v ∧ ∀ i, (p.code i).Obeys rule (final i) (v i)

/-- The rule of interleaving: it is enough to look at one allowed action of one
thread at a time. -/
theorem Pool.Sound.next {rule : ν → α → Bool → Option ν} {final : ι → ν → Prop}
    {I : σ → (ι → ν) → Prop} {exec : σ → ι → α → Bool → Option σ}
    (hexec : ∀ s v i a b s' w, I s v → rule (v i) a b = some w → exec s i a b = some s' →
      I s' (Function.update v i w))
    {p : Pool σ ι α ρ} (h : p.Sound rule final I) (i : ι) (b : Bool) :
    (p.next exec i b).Sound rule final I := by
  obtain ⟨v, hI, hcode⟩ := h
  unfold Pool.next
  split
  · exact ⟨v, hI, hcode⟩
  · rename_i a k hi
    split
    · exact ⟨v, hI, hcode⟩
    · rename_i s hs
      have hob := hcode i
      rw [hi] at hob
      obtain ⟨w, hw, hk⟩ := hob b
      refine ⟨Function.update v i w, hexec _ v i a b s w hI hw hs, ?_⟩
      intro j
      by_cases hj : j = i
      · subst hj
        simpa using hk
      · simpa [hj] using hcode j

/-- A thread that is done starts a program that obeys its view. -/
theorem Pool.Sound.start {rule : ν → α → Bool → Option ν} {final final' : ι → ν → Prop}
    {I : σ → (ι → ν) → Prop} {p : Pool σ ι α ρ} (h : p.Sound rule final I) {i : ι} {r : ρ}
    (hi : p.code i = .done r) (hfinal : ∀ j, j ≠ i → final' j = final j) {code : Code α ρ}
    (hcode : ∀ w, final i w → code.Obeys rule (final' i) w) :
    Pool.Sound rule final' I { p with code := Function.update p.code i code } := by
  obtain ⟨v, hI, hobeys⟩ := h
  refine ⟨v, hI, ?_⟩
  intro j
  by_cases hj : j = i
  · subst hj
    have hdone := hobeys j
    rw [hi] at hdone
    simpa using hcode _ hdone
  · rw [hfinal j hj]
    simpa [hj] using hobeys j

end Pool

end typestate
