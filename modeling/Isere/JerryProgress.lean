-- The calls of the JerryScript runtime under a fair scheduler: whatever the
-- connections call and the engine answers, the mutex is given back again and
-- again, and each call returns.
import Isere.FairThreads
import Isere.JerryContexts

open Filter isere.httpd typestate runs

namespace isere.jerryscript

/-- The call of a connection does not wait: its next action can be made. -/
def CanGo (p : Pool Globals ConnId Act Int) (c : ConnId) : Prop :=
  ∃ a k, p.code c = .act a k ∧ ∀ answer, exec p.shared c a answer ≠ none

/-- The runtime over the time. -/
def schedule (input : Nat → Input) : Schedule ConnId Act Int where
  code n := (after step start input n).pool.code
  holder n := (after step start input n).pool.shared.ctxMut
  ready n c := CanGo (after step start input n).pool c
  moves n c := CanGo (after step start input n).pool c ∧ ∃ answer, input n = .next c answer

/-- The connection of a step. -/
def Input.conn : Input → ConnId
  | .start c _ => c
  | .next c _ => c
  | .callback c _ => c

/-- No call is stuck. -/
structure Progress (input : Nat → Input) : Prop where
  going : ∀ n c, ¬((after step start input n).pool.code c).Returned →
    ∃ d, CanGo (after step start input n).pool d
  freed : ∃ᶠ n in atTop, (after step start input n).pool.shared.ctxMut = none
  returns : ∀ c n, ∃ m, n ≤ m ∧ ((after step start input m).pool.code c).Returned

/-! ## Who waits -/

section Waits

variable {s s' : Globals} {c d : ConnId} {a : Act} {b : Bool}

theorem exec_eq_none_iff : exec s c a b = none ↔ a = .takeCtxMut ∧ s.ctxMut ≠ none := by
  cases a with
  | takeCtxMut => simp [exec]
  | _ => simp [exec]

/-- The mutex changes hands by being free. -/
theorem exec_given (h : exec s c a b = some s') (hm : s.ctxMut = some d) :
    s'.ctxMut = some d ∨ s'.ctxMut = none := by
  cases a with
  | takeCtxMut => simp [exec, hm] at h
  | giveCtxMut =>
    obtain rfl := Option.some.inj h
    exact Or.inr rfl
  | jerry f =>
    obtain rfl := Option.some.inj h
    left
    rw [← hm]
    unfold Jerry.exec
    split
    · split <;> rfl
    · rfl
  | _ =>
    obtain rfl := Option.some.inj h
    exact Or.inl hm

theorem rule_takes {v w : View} (h : rule v .takeCtxMut b = some w) : v.place = .outside := by
  simp only [rule, Option.ite_none_right_eq_some] at h
  exact h.1

end Waits

variable {s : Js} {c d : ConnId}

/-- A call goes on, unless it has returned or another one has the mutex. -/
theorem canGo_of_free (hc : ¬(s.pool.code c).Returned) (hm : s.pool.shared.ctxMut = none) :
    CanGo s.pool c := by
  cases hcode : s.pool.code c with
  | done r => exact absurd ⟨r, hcode⟩ hc
  | act a k =>
    refine ⟨a, k, hcode, fun answer hno => ?_⟩
    exact (exec_eq_none_iff.mp hno).2 hm

/-- The call that has the mutex is under way, and it does not wait. -/
theorem Sound.holder (h : Sound s) (hm : s.pool.shared.ctxMut = some c) :
    ¬(s.pool.code c).Returned ∧ CanGo s.pool c := by
  obtain ⟨v, hshared, hobeys⟩ := h
  have hplace : (v c).place ≠ .outside := by
    intro hout
    exact hshared.2.place_at hout hm
  have hob := hobeys c
  cases hcode : s.pool.code c with
  | done r =>
    rw [hcode] at hob
    -- between its calls a connection is outside of the lock
    have hview : v c = (s.stage c).view := hob
    rw [hview] at hplace
    cases hst : s.stage c <;> simp [hst, Stage.view] at hplace
  | act a k =>
    rw [hcode] at hob
    refine ⟨fun ⟨r, hr⟩ => ?_, a, k, hcode, fun answer hno => ?_⟩
    · cases hr
    · obtain ⟨rfl, -⟩ := exec_eq_none_iff.mp hno
      obtain ⟨w, hw, -⟩ := hob answer
      exact hplace (rule_takes hw)

/-- While some call is under way, some call can go on. -/
theorem Sound.going (h : Sound s) (hc : ¬(s.pool.code c).Returned) : ∃ d, CanGo s.pool d := by
  cases hm : s.pool.shared.ctxMut with
  | none => exact ⟨c, canGo_of_free hc hm⟩
  | some d => exact ⟨d, (h.holder hm).2⟩

/-! ## One step -/

theorem next_moves (hc : CanGo s.pool c) (answer : Bool) :
    ∃ a k b, s.pool.code c = .act a k ∧ (step s (.next c answer)).pool.code c = k b := by
  obtain ⟨a, k, hcode, hexec⟩ := hc
  refine ⟨a, k, answer, hcode, ?_⟩
  simp only [step, Pool.next, hcode]
  cases hs : exec s.pool.shared c a answer with
  | none => exact absurd hs (hexec answer)
  | some s' => simp

/-- The calls of the other connections stay where they are. -/
theorem step_other {input : Input} (h : input.conn ≠ c) :
    (step s input).pool.code c = s.pool.code c := by
  cases input with
  | start d call =>
    simp only [step]
    split
    · exact Function.update_of_ne (Ne.symm h) _ _
    · rfl
  | next d answer =>
    simp only [step, Pool.next]
    split
    · rfl
    · split
      · rfl
      · exact Function.update_of_ne (Ne.symm h) _ _
  | callback d args =>
    simp only [step]
    split
    · split <;> rfl
    · rfl

theorem step_stays {input : Input} (h : ¬(CanGo s.pool c ∧ ∃ answer, input = .next c answer)) :
    (s.pool.code c).Returned ∨ (step s input).pool.code c = s.pool.code c := by
  by_cases hc : input.conn = c
  · subst hc
    cases input with
    | start c call =>
      simp only [step]
      split
      · rename_i r st hdone hafter
        exact Or.inl ⟨r, hdone⟩
      · exact Or.inr rfl
    | next c answer =>
      cases hcode : s.pool.code c with
      | done r => exact Or.inl ⟨r, hcode⟩
      | act a k =>
        right
        -- it waits for the mutex, whatever the answer
        have hwait : exec s.pool.shared c a answer = none := by
          by_contra hgo
          refine h ⟨⟨a, k, hcode, fun b hno => hgo ?_⟩, answer, rfl⟩
          exact exec_eq_none_iff.mpr (exec_eq_none_iff.mp hno)
        simp [step, Pool.next, hcode, hwait]
    | callback c args =>
      right
      simp only [step]
      split
      · split <;> rfl
      · rfl
  · exact Or.inr (step_other hc)

theorem runHandlerCb_ctxMut (g : Globals) (c : ConnId) (args : List HandlerResult) :
    (runHandlerCb g c args).ctxMut = g.ctxMut := by
  unfold runHandlerCb
  split
  · rfl
  · simp only
    split <;> rfl

theorem step_given (input : Input) (hm : s.pool.shared.ctxMut = some c) :
    (step s input).pool.shared.ctxMut = some c ∨ (step s input).pool.shared.ctxMut = none := by
  cases input with
  | start d call =>
    left
    simp only [step]
    split <;> exact hm
  | next d answer =>
    simp only [step, Pool.next]
    split
    · exact Or.inl hm
    · split
      · exact Or.inl hm
      · rename_i hs
        exact exec_given hs hm
  | callback d args =>
    left
    simp only [step]
    split
    · split
      · rw [← hm]
        exact runHandlerCb_ctxMut _ d args
      · exact hm
    · exact hm

/-! ## The law -/

theorem after_sound (input : Nat → Input) (n : Nat) : Sound (after step start input n) := by
  induction n with
  | zero => exact start_sound
  | succ n ih => exact step_sound ih (input n)

theorem schedule_oneLock (input : Nat → Input) : (schedule input).OneLock where
  moved n c hmoves := by
    obtain ⟨hc, answer, hinput⟩ := hmoves
    obtain ⟨a, k, b, hcode, hnext⟩ := next_moves hc answer
    refine ⟨a, k, b, hcode, ?_⟩
    simpa [schedule, after, hinput] using hnext
  stays _ _ hno := step_stays hno
  given n _ hm := step_given (input n) hm
  busy n _ hm := ((after_sound input n).holder hm).1
  holds n _ hm := ((after_sound input n).holder hm).2
  free _ _ hm hc := canGo_of_free hc hm

/-- In every run without end, with any calls of any number of connections, any outcome of
the engine calls and any callbacks in them, under a scheduler that lets no call wait
forever that can go on again and again: while a call is under way some call can go on,
the mutex is given back again and again, and each call returns. -/
theorem every_call_returns (input : Nat → Input) (hfair : (schedule input).Fair) :
    Progress input where
  going n _ hc := (after_sound input n).going hc
  freed := hfair.lock_is_freed (schedule_oneLock input)
  returns c n := hfair.every_thread_returns (schedule_oneLock input) c n

/-- A connection that gets its context, and has the processor to itself. -/
def oneConnection : Nat → Input
  | 0 => .start 0 .newContext
  | _ => .next 0 true

theorem oneConnection_conn (n : Nat) : (oneConnection n).conn = 0 := by
  cases n <;> rfl

theorem oneConnection_fair : (schedule oneConnection).Fair := by
  intro c hready
  by_cases hc : c = 0
  · subst hc
    refine (hready.and_eventually (eventually_ge_atTop 1)).mono fun n ⟨hgo, hn⟩ => ⟨hgo, true, ?_⟩
    obtain ⟨m, rfl⟩ := Nat.exists_eq_add_of_le' hn
    rfl
  · -- nothing is called for it
    have hidle : ∀ n, (after step start oneConnection n).pool.code c = .done 0 := by
      intro n
      induction n with
      | zero => rfl
      | succ n ih =>
        rw [after, step_other (by rw [oneConnection_conn]; exact Ne.symm hc), ih]
    obtain ⟨n, a, k, hcode, -⟩ := hready.exists
    rw [hidle n] at hcode
    cases hcode

theorem one_connection_gets_its_context : Progress oneConnection :=
  every_call_returns oneConnection oneConnection_fair

end isere.jerryscript
