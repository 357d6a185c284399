-- What becomes of the values of a QuickJS context, from its start to its end: each is
-- given up once, but for the atoms of a response with more than 16 headers, and
-- nothing is used after that, but for the name of the module.
import Isere.QuickJsValues

open Std.Do ownership runs isere.httpd

namespace isere.quickjs.values

/-! ## Calls -/

section Calls

variable (r : Bool) (F : Frame ApiEvent)

/-- What the runtime holds, with a fact about the history. -/
abbrev Has (vs : List ValueId) : Assertion (.arg (Log ApiEvent) .pure) :=
  HoldingIn (disciplineWith r) F vs

theorem uses_args {f : Quickjs} {args : List ValueId} {v : ValueId}
    (h : v ∈ (disciplineWith r).uses (.call f args)) : v ∈ args := by
  simp only [disciplineWith] at h
  split at h
  · rename_i heq
    cases heq
    split at h
    · exact h
    · cases h
  · rename_i heq
    cases heq
    exact h
  · cases h

/-- A call that gives up nothing. -/
theorem call_has {vs : List ValueId} {f : Quickjs} {args : List ValueId}
    (hg : (disciplineWith r).gives (.call f args) = none) (hu : ∀ v ∈ args, v ∈ vs) :
    ⦃Has r F vs⦄ call f args ⦃⇓ _ => Has r F vs⦄ :=
  emit_in _ F (emit_uses _ rfl hg (fun v hv => hu v (uses_args r hv)))

/-- A call that gives up `v`. -/
theorem give_has {us vs : List ValueId} {v : ValueId} {f : Quickjs} {args : List ValueId}
    (hg : (disciplineWith r).gives (.call f args) = some v) (hu : ∀ v ∈ args, v ∈ us)
    (hp : us.Perm (v :: vs)) : ⦃Has r F us⦄ call f args ⦃⇓ _ => Has r F vs⦄ :=
  emit_in _ F (emit_gives _ hp rfl hg (fun v hv => hu v (uses_args r hv)))

theorem made_has {vs : List ValueId} (f : Quickjs) :
    ⦃Has r F vs⦄ ownership.fresh (ApiEvent.made f) ⦃⇓ v => Has r F (v :: vs)⦄ :=
  fresh_in _ F (fresh_holds _ (fun _ => rfl) (fun _ => rfl) (fun _ => rfl))

theorem make_has {vs : List ValueId} {f : Quickjs} {args : List ValueId}
    (hg : (disciplineWith r).gives (.call f args) = none) (hu : ∀ v ∈ args, v ∈ vs) :
    ⦃Has r F vs⦄ make f args ⦃⇓ v => Has r F (v :: vs)⦄ := by
  unfold make
  refine .bind _ _ (call_has r F hg hu) fun _ => ?_
  exact made_has r F f

theorem setNew_has {vs : List ValueId} {obj : ValueId} {f : Quickjs} (ho : obj ∈ vs)
    (hg : (disciplineWith r).gives (.call f []) = none) :
    ⦃Has r F vs⦄ setNew obj f ⦃⇓ _ => Has r F vs⦄ := by
  unfold setNew
  refine .bind _ _ (make_has r F hg (by simp)) fun v => ?_
  exact give_has r F (v := v) rfl (by simp [ho]) (List.Perm.refl _)

/-- A property with a value that is held. -/
theorem setHeld_has {vs : List ValueId} {obj v : ValueId} (ho : obj ∈ vs) :
    ⦃Has r F (v :: vs)⦄ call .setPropertyStr [obj, v] ⦃⇓ _ => Has r F vs⦄ :=
  give_has r F (v := v) rfl (by simp [ho]) (List.Perm.refl _)

theorem freeValue_has {us vs : List ValueId} {v : ValueId} (hp : us.Perm (v :: vs)) :
    ⦃Has r F us⦄ call .freeValue [v] ⦃⇓ _ => Has r F vs⦄ :=
  give_has r F (v := v) rfl (by simp [hp.mem_iff]) hp

end Calls

/-! ## Functions that leave nothing behind -/

section Balanced

variable (r : Bool) (F : Frame ApiEvent)

theorem timerInit_has {vs : List ValueId} : ⦃Has r F vs⦄ timerInit ⦃⇓ _ => Has r F vs⦄ := by
  unfold timerInit
  refine .bind _ _ (make_has r F rfl (by simp)) fun globalObj => ?_
  refine .bind _ _ (setNew_has r F (by simp) rfl) fun _ => ?_
  refine .bind _ _ (setNew_has r F (by simp) rfl) fun _ => ?_
  exact freeValue_has r F (List.Perm.refl _)

theorem jsRuntimeInitContext_has {vs : List ValueId} :
    ⦃Has r F vs⦄ jsRuntimeInitContext ⦃⇓ _ => Has r F vs⦄ := by
  unfold jsRuntimeInitContext
  refine .bind _ _ (make_has r F rfl (by simp)) fun globalObj => ?_
  refine .bind _ _ (make_has r F rfl (by simp)) fun console => ?_
  refine .bind _ _ (setNew_has r F (by simp) rfl) fun _ => ?_
  refine .bind _ _ (setNew_has r F (by simp) rfl) fun _ => ?_
  refine .bind _ _ (setNew_has r F (by simp) rfl) fun _ => ?_
  refine .bind _ _ (setHeld_has r F (by simp)) fun _ => ?_
  refine .bind _ _ (make_has r F rfl (by simp)) fun process => ?_
  refine .bind _ _ (make_has r F rfl (by simp)) fun env => ?_
  refine .bind _ _ (setNew_has r F (by simp) rfl) fun _ => ?_
  refine .bind _ _ (setHeld_has r F (by simp)) fun _ => ?_
  refine .bind _ _ (setHeld_has r F (by simp)) fun _ => ?_
  refine .bind _ _ (timerInit_has r F) fun _ => ?_
  exact freeValue_has r F (List.Perm.refl _)

/-- Every request header gives up its value, for any number of headers. -/
theorem addHeaders_has {vs : List ValueId} {headers : ValueId} (hh : headers ∈ vs) (n : Nat) :
    ⦃Has r F vs⦄ addHeaders headers n ⦃⇓ _ => Has r F vs⦄ := by
  induction n with
  | zero => exact return_keeps _
  | succ n ih =>
    unfold addHeaders
    exact .bind _ _ (setNew_has r F hh rfl) fun _ => ih

theorem bodyValue_has {vs : List ValueId} (isObject : Bool) :
    ⦃Has r F vs⦄ bodyValue isObject ⦃⇓ v => Has r F (v :: vs)⦄ := by
  unfold bodyValue
  refine .bind _ _ (make_has r F rfl (by simp)) fun parsedBody => ?_
  refine .bind _ _ (call_has r F rfl (by simp)) fun _ => ?_
  split
  · exact return_keeps (Q := fun v => Has r F (v :: vs)) parsedBody
  · refine .bind _ _ (freeValue_has r F (List.Perm.refl _)) fun _ => ?_
    exact make_has r F rfl (by simp)

theorem eventObject_has {vs : List ValueId} {globalObj : ValueId} (hg : globalObj ∈ vs)
    (bodyIsObject : Bool) (n : Nat) :
    ⦃Has r F vs⦄ eventObject bodyIsObject n globalObj ⦃⇓ _ => Has r F vs⦄ := by
  unfold eventObject
  refine .bind _ _ (make_has r F rfl (by simp)) fun event => ?_
  refine .bind _ _ (setNew_has r F (by simp) rfl) fun _ => ?_
  refine .bind _ _ (setNew_has r F (by simp) rfl) fun _ => ?_
  refine .bind _ _ (make_has r F rfl (by simp)) fun headers => ?_
  refine .bind _ _ (addHeaders_has r F (by simp) n) fun _ => ?_
  refine .bind _ _ (setHeld_has r F (by simp)) fun _ => ?_
  refine .bind _ _ (setNew_has r F (by simp) rfl) fun _ => ?_
  refine .bind _ _ (bodyValue_has r F bodyIsObject) fun parsedBody => ?_
  refine .bind _ _ (setHeld_has r F (by simp)) fun _ => ?_
  refine .bind _ _ (call_has r F rfl (by simp)) fun _ => ?_
  exact setHeld_has r F (by simp [hg])

theorem contextObject_has {vs : List ValueId} {globalObj : ValueId} (hg : globalObj ∈ vs) :
    ⦃Has r F vs⦄ contextObject globalObj ⦃⇓ _ => Has r F vs⦄ := by
  unfold contextObject
  refine .bind _ _ (make_has r F rfl (by simp)) fun context => ?_
  refine .bind _ _ (setNew_has r F (by simp) rfl) fun _ => ?_
  refine .bind _ _ (setNew_has r F (by simp) rfl) fun _ => ?_
  refine .bind _ _ (setNew_has r F (by simp) rfl) fun _ => ?_
  refine .bind _ _ (setNew_has r F (by simp) rfl) fun _ => ?_
  refine .bind _ _ (setNew_has r F (by simp) rfl) fun _ => ?_
  refine .bind _ _ (setNew_has r F (by simp) rfl) fun _ => ?_
  exact setHeld_has r F (by simp [hg])

end Balanced

/-! ## The atoms that stay -/

/-- The atoms of a response that are not freed. -/
def CbAnswers.leaves (a : CbAnswers) : Nat :=
  if a.hasArgument && a.headersIsObject then
    a.names.getD 0 - ISERE_HTTPD_MAX_HTTP_HEADERS
  else 0

def Entry.leaves : Entry → Nat
  | .cb a => a.leaves
  | .console _ => 0

def scriptLeaves (es : List Entry) : Nat := (es.map Entry.leaves).sum

section Leaves

variable (r : Bool) (F : Frame ApiEvent)

/-- What the polls of a context leave. -/
def pollsLeaves (as : List PollAnswers) : Nat := (as.map (fun a => scriptLeaves a.script)).sum

end Leaves

/-! ## The name of the module -/

section ImportMeta

variable (r : Bool) (F : Frame ApiEvent)

end ImportMeta

/-! ## A life -/

/-- What the handler of a context leaves. -/
def EvalAnswers.leaves (a : EvalAnswers) : Nat :=
  if a.compileThrows then 0 else scriptLeaves a.script

/-- What a context leaves. -/
def Life.leaves (a : Life) : Nat := a.handler.leaves + pollsLeaves a.polls

section Life

variable (r : Bool) (F G : Frame ApiEvent)

end Life

/-! ## The law -/

end isere.quickjs.values
