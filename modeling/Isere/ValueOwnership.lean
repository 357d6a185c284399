-- Each engine value of `js_runtime_eval_handler` is freed once, just when the
-- start script does not parse: the handler frees the parsed module before it
-- links and evaluates it.
import Isere.JerryValues

open Std.Do ownership runs typestate

namespace isere.jerryscript.values

/-! ## What the parts of the handler hold -/

section Has

variable (p : Bool) (F : Frame ValueEvent) (a : Answers)

/-- Every header gives up its name and its value, for any number of headers. -/
theorem addHeaders_has {vs : List ValueId} {headers : ValueId} (ho : headers ∈ vs) (n : Nat) :
    ⦃Has p F vs⦄ addHeaders a headers n ⦃⇓ _ => Has p F vs⦄ := by
  induction n with
  | zero => exact return_keeps _
  | succ n ih =>
    unfold addHeaders
    exact .bind _ _ (addNew_has p F a.setThrows ho rfl) fun _ => ih

/-- Either way one value is left, to be given to the `event` object. -/
theorem bodyValue_has {vs : List ValueId} : ⦃Has p F vs⦄ bodyValue a
    ⦃⇓ v => Has p F (v :: vs)⦄ := by
  unfold bodyValue
  refine .bind _ _ (make_has p F rfl (by simp)) fun parsedBody => ?_
  refine .bind _ _ (call_has p F rfl (by simp)) fun _ => ?_
  split
  · exact return_keeps _
  · refine .bind _ _ (jerryValueFree_has p F (List.Perm.refl _)) fun _ => ?_
    exact make_has p F rfl (by simp)

theorem eventObject_has {vs : List ValueId} {globalObj : ValueId} (ho : globalObj ∈ vs)
    (n : Nat) : ⦃Has p F vs⦄ eventObject a n globalObj ⦃⇓ _ => Has p F vs⦄ := by
  unfold eventObject
  refine .bind _ _ (make_has p F rfl (by simp)) fun event => ?_
  refine .bind _ _ (addNew_has p F a.setThrows (by simp) rfl) fun _ => ?_
  refine .bind _ _ (addNew_has p F a.setThrows (by simp) rfl) fun _ => ?_
  refine .bind _ _ (make_has p F rfl (by simp)) fun headers => ?_
  refine .bind _ _ (addHeaders_has p F a (by simp) n) fun _ => ?_
  refine .bind _ _ (addObject_has p F a.setThrows (by simp)) fun _ => ?_
  refine .bind _ _ (addNew_has p F a.setThrows (by simp) rfl) fun _ => ?_
  refine .bind _ _ (bodyValue_has p F a) fun parsedBody => ?_
  refine .bind _ _ (addObject_has p F a.setThrows (by simp)) fun _ => ?_
  refine .bind _ _ (addNew_has p F a.setThrows (by simp) rfl) fun _ => ?_
  exact addObject_has p F a.setThrows ho

theorem contextObject_has {vs : List ValueId} {globalObj : ValueId} (ho : globalObj ∈ vs) :
    ⦃Has p F vs⦄ contextObject a globalObj ⦃⇓ _ => Has p F vs⦄ := by
  unfold contextObject
  refine .bind _ _ (make_has p F rfl (by simp)) fun context => ?_
  refine .bind _ _ (addNew_has p F a.setThrows (by simp) rfl) fun _ => ?_
  refine .bind _ _ (addNew_has p F a.setThrows (by simp) rfl) fun _ => ?_
  refine .bind _ _ (addNew_has p F a.setThrows (by simp) rfl) fun _ => ?_
  refine .bind _ _ (addNew_has p F a.setThrows (by simp) rfl) fun _ => ?_
  refine .bind _ _ (addNew_has p F a.setThrows (by simp) rfl) fun _ => ?_
  refine .bind _ _ (addNew_has p F a.setThrows (by simp) rfl) fun _ => ?_
  exact addObject_has p F a.setThrows ho

/-- Whatever follows `jerry_parse`, it starts with the module and the name of its source. -/
theorem jsRuntimeEvalHandler_upto {Q : Assertion (.arg (Log ValueEvent) .pure)} {n : Nat}
    (h : ∀ sourceName e, ⦃Has p F [e, sourceName]⦄ parseEnd a e sourceName ⦃⇓ _ => Q⦄) :
    ⦃Has p F []⦄ jsRuntimeEvalHandler a n ⦃⇓ _ => Q⦄ := by
  unfold jsRuntimeEvalHandler
  refine .bind _ _ (make_has p F rfl (by simp)) fun globalObj => ?_
  refine .bind _ _ (eventObject_has p F a (by simp) n) fun _ => ?_
  refine .bind _ _ (contextObject_has p F a (by simp)) fun _ => ?_
  refine .bind _ _ (addNew_has p F a.setThrows (by simp) rfl) fun _ => ?_
  refine .bind _ _ (jerryValueFree_has p F (List.Perm.refl _)) fun _ => ?_
  refine .bind _ _ (make_has p F rfl (by simp)) fun sourceName => ?_
  refine .bind _ _ (make_has p F rfl (by simp)) fun e => ?_
  exact h sourceName e

/-- A start script that does not parse: its exception and the name are freed. -/
theorem parseEnd_throws {e sourceName : ValueId} (ht : a.parseThrows = true) :
    ⦃Has false F [e, sourceName]⦄ parseEnd a e sourceName ⦃⇓ _ => Has false F []⦄ := by
  unfold parseEnd
  refine .bind _ _ (call_has false F rfl (by simp)) fun _ => ?_
  rw [if_pos ht]
  refine .bind _ _ (call_has false F rfl (by simp)) fun _ => ?_
  unfold evalFail
  refine .bind _ _ (jerryValueFree_has false F (List.Perm.refl _)) fun _ => ?_
  refine .bind _ _ (jerryValueFree_has false F (List.Perm.refl _)) fun _ => ?_
  exact return_keeps _

end Has

/-! ## A use after the end -/

section Misuse

variable (p : Bool) (a : Answers)

theorem call_misused (who : Caller) (f : Jerry) (args : List ValueId) :
    ⦃Misused (discipline p)⦄ call who f args ⦃⇓ _ => Misused (discipline p)⦄ := emit_misused _ _

theorem make_misused (who : Caller) (f : Jerry) (args : List ValueId) :
    ⦃Misused (discipline p)⦄ make who f args ⦃⇓ _ => Misused (discipline p)⦄ := by
  unfold make
  exact .bind _ _ (call_misused p _ _ _) fun _ => fresh_misused _ _

theorem evalFail_misused (e sourceName : ValueId) (ret : Int) :
    ⦃Misused (discipline p)⦄ evalFail e sourceName ret ⦃⇓ _ => Misused (discipline p)⦄ := by
  unfold evalFail
  refine .bind _ _ (call_misused p _ _ _) fun _ => ?_
  refine .bind _ _ (call_misused p _ _ _) fun _ => ?_
  exact return_keeps _

theorem evalFailResult_misused (eResult e sourceName : ValueId) (ret : Int) :
    ⦃Misused (discipline p)⦄ evalFailResult eResult e sourceName ret
      ⦃⇓ _ => Misused (discipline p)⦄ := by
  unfold evalFailResult
  refine .bind _ _ (call_misused p _ _ _) fun _ => ?_
  exact evalFail_misused p e sourceName ret

theorem evalEnd_misused (eResult e sourceName : ValueId) : ⦃Misused (discipline p)⦄
    evalEnd a eResult e sourceName ⦃⇓ _ => Misused (discipline p)⦄ := by
  unfold evalEnd
  refine .bind _ _ (call_misused p _ _ _) fun _ => ?_
  split
  · refine .bind _ _ (call_misused p _ _ _) fun _ => ?_
    exact evalFailResult_misused p eResult e sourceName _
  · exact evalFailResult_misused p eResult e sourceName _

theorem linkEnd_misused (eResult e sourceName : ValueId) : ⦃Misused (discipline p)⦄
    linkEnd a eResult e sourceName ⦃⇓ _ => Misused (discipline p)⦄ := by
  unfold linkEnd
  refine .bind _ _ (call_misused p _ _ _) fun _ => ?_
  split
  · refine .bind _ _ (call_misused p _ _ _) fun _ => ?_
    exact evalFailResult_misused p eResult e sourceName _
  · refine .bind _ _ (call_misused p _ _ _) fun _ => ?_
    refine .bind _ _ (make_misused p _ _ _) fun eResult => ?_
    exact evalEnd_misused p a eResult e sourceName

theorem resolveAll_misused (n : Nat) :
    ⦃Misused (discipline p)⦄ resolveAll n ⦃⇓ _ => Misused (discipline p)⦄ := by
  induction n with
  | zero => exact return_keeps _
  | succ n ih =>
    unfold resolveAll moduleResolveCallback
    refine .bind _ _ (Q := fun _ => Misused (discipline p)) ?_ fun _ => ih
    refine .bind _ _ (make_misused p _ _ _) fun sourceName => ?_
    refine .bind _ _ (make_misused p _ _ _) fun result => ?_
    refine .bind _ _ (call_misused p _ _ _) fun _ => ?_
    exact emit_misused _ _

/-- A start script that parses: the module is freed, and then linked. -/
theorem parseEnd_parses {P : Assertion (.arg (Log ValueEvent) .pure)} {e sourceName : ValueId}
    (ht : a.parseThrows = false) :
    ⦃P⦄ parseEnd a e sourceName ⦃⇓ _ => Misused (discipline p)⦄ := by
  unfold parseEnd
  refine .bind _ _ (Q := fun _ => ⌜True⌝) (fun s _ => trivial) fun _ => ?_
  rw [if_neg (by simp [ht])]
  refine .bind _ _ (emit_given (discipline p) (v := e) rfl) fun _ => ?_
  unfold jerryModuleLink
  refine .bind _ _ (Q := fun _ => Misused (discipline p)) ?_ fun eResult => ?_
  · refine .bind _ _ (emit_misuses (discipline p) (by simp [discipline])) fun _ => ?_
    refine .bind _ _ (resolveAll_misused p a.resolves) fun _ => ?_
    exact fresh_misused _ _
  · exact linkEnd_misused p a eResult e sourceName

/-- If the exception of the parse is the engine's after it is printed, the
handler frees what is not its own. -/
theorem parseEnd_takes {P : Assertion (.arg (Log ValueEvent) .pure)} {e sourceName : ValueId}
    (ht : a.parseThrows = true) :
    ⦃P⦄ parseEnd a e sourceName ⦃⇓ _ => Misused (discipline true)⦄ := by
  unfold parseEnd
  refine .bind _ _ (Q := fun _ => ⌜True⌝) (fun s _ => trivial) fun _ => ?_
  rw [if_pos ht]
  refine .bind _ _ (emit_given (discipline true) (v := e) rfl) fun _ => ?_
  unfold evalFail
  refine .bind _ _ (emit_misuses (discipline true) (by simp [discipline])) fun _ => ?_
  refine .bind _ _ (call_misused true _ _ _) fun _ => ?_
  exact return_keeps _

end Misuse

/-! ## The law -/

theorem evalLog_misused {p : Bool} {a : Answers} {n : Nat}
    (h : ∀ sourceName e, ⦃Has p Frame.any [e, sourceName]⦄ parseEnd a e sourceName
      ⦃⇓ _ => Misused (discipline p)⦄) : ¬GivenOnce (discipline p) (evalLog a n) := fun hs =>
  triple_run (jsRuntimeEvalHandler_upto p Frame.any a h) ⟨holds_start (discipline p), trivial⟩
    hs.held

/-- For any number of headers and all answers of the engine, the handler gives
up each of its values once and uses none after that, exactly when the start
script does not parse, and its exception is not given up by the call that
prints it. -/
theorem values_are_freed_once_iff (printTakes : Bool) (a : Answers) (requestHeadersLen : Nat) :
    GivenOnce (discipline printTakes) (evalLog a requestHeadersLen) ↔
      a.parseThrows = true ∧ printTakes = false := by
  cases ht : a.parseThrows with
  | false =>
    simp only [Bool.false_eq_true, false_and, iff_false]
    exact evalLog_misused (fun _ _ => parseEnd_parses printTakes a ht)
  | true =>
    cases printTakes with
    | true =>
      simp only [Bool.true_eq_false, and_false, iff_false]
      exact evalLog_misused (fun _ _ => parseEnd_takes a ht)
    | false =>
      simp only [and_self, iff_true]
      have hrun := triple_run (jsRuntimeEvalHandler_upto false Frame.any a (n := requestHeadersLen)
        (fun _ _ => parseEnd_throws Frame.any a ht)) ⟨holds_start (discipline false), trivial⟩
      exact Holds.givenOnce _ hrun.1

/-- All calls of the engine give what they are asked for. -/
def Answers.good : Answers where
  setThrows := fun _ => false
  bodyIsObject := false
  parseThrows := false
  resolves := 1
  linkThrows := false
  evaluateThrows := false

/-- The module of the start script is freed before it is linked, in a request
with no header. -/
theorem a_linked_module_is_freed :
    ¬GivenOnce (discipline false) (evalLog Answers.good 0) :=
  evalLog_misused (fun _ _ => parseEnd_parses false Answers.good rfl)

end isere.jerryscript.values
