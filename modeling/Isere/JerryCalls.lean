-- The engine values of src/runtimes/jerryscript/jerryscript.c: which of them an engine
-- call uses, and where each is given up. The functions that put a property on an object
-- are here too, for the start of a context and for its handler.
import Isere.JerryScript
import Isere.OwnedFrames

open Std.Do ownership runs typestate

namespace isere.jerryscript.values

/-- A `jerry_value_t` that the engine gave to the runtime. -/
abbrev ValueId := Nat

/-- Who calls the engine: the function of the runtime that the server called, or a
function of the runtime that the engine calls in the meantime. -/
inductive Caller
  | task
  | callback
  deriving DecidableEq, Repr

/-- An engine call with those of its arguments that the runtime owns, a value that the
runtime comes to own, or a value that a callback returns to the engine. -/
inductive ValueEvent
  | call (who : Caller) (f : Jerry) (args : List ValueId)
  | made (v : ValueId)
  | returned (v : ValueId)
  deriving DecidableEq, Repr

/-- A part of the runtime, over the log of its engine calls. -/
abbrev Engine := StateM (Log ValueEvent)

def call (who : Caller) (f : Jerry) (args : List ValueId) : Engine Unit := emit (.call who f args)

/-- An engine call that returns a value. -/
def make (who : Caller) (f : Jerry) (args : List ValueId) : Engine ValueId := do
  call who f args
  ownership.fresh .made

def jerryValueFree (who : Caller) (v : ValueId) : Engine Unit := call who .valueFree [v]

/-! ## Properties -/

/-- `__add_key_value_to_object`. `setThrows` is told by the result of
`jerry_object_set`. -/
def addKeyValueToObject (setThrows : ValueId → Bool) (object key value : ValueId) :
    Engine Int := do
  let setResult ← make .task .objectSet [object, key, value]
  jerryValueFree .task key
  jerryValueFree .task value
  call .task .valueIsException [setResult]
  if setThrows setResult then
    jerryValueFree .task setResult
    return -1
  else
    jerryValueFree .task setResult
    return 0

/-- A property of an object. The result of `__add_key_value_to_object` is not
looked at. -/
def addValue (setThrows : ValueId → Bool) (object key value : ValueId) : Engine Unit := do
  let _ ← addKeyValueToObject setThrows object key value

/-- A property with a new value, a string if `f` is `jerry_string_sz`. -/
def addNew (setThrows : ValueId → Bool) (object : ValueId) (f : Jerry) : Engine Unit := do
  let key ← make .task .stringSz []
  let value ← make .task f []
  addValue setThrows object key value

/-- A property whose value is there already. -/
def addObject (setThrows : ValueId → Bool) (object value : ValueId) : Engine Unit := do
  let key ← make .task .stringSz []
  addValue setThrows object key value

/-! ## Who owns a value -/

/-- The owner of a value frees it, or gives it to the engine. It is not known
here if `jerryx_print_unhandled_exception` takes its argument. -/
def discipline (printTakes : Bool) : Discipline ValueEvent where
  made
    | .made v => some v
    | _ => none
  uses
    | .call _ _ args => args
    | .returned v => [v]
    | .made _ => []
  gives
    | .call _ .valueFree [v] => some v
    | .call _ .printUnhandledException [v] => if printTakes then some v else none
    | .returned v => some v
    | _ => none

/-! ## What the runtime holds -/

section Has

variable (p : Bool) (F : Frame ValueEvent)

/-- What the runtime holds, with a fact about the history. -/
abbrev Has (vs : List ValueId) : Assertion (.arg (Log ValueEvent) .pure) :=
  HoldingIn (discipline p) F vs

/-- A call that gives up none of its arguments. -/
theorem call_has {vs : List ValueId} {who : Caller} {f : Jerry} {args : List ValueId}
    (hg : (discipline p).gives (.call who f args) = none) (hu : ∀ v ∈ args, v ∈ vs) :
    ⦃Has p F vs⦄ call who f args ⦃⇓ _ => Has p F vs⦄ :=
  emit_in _ F (emit_uses _ rfl hg hu)

theorem made_has {vs : List ValueId} :
    ⦃Has p F vs⦄ ownership.fresh ValueEvent.made ⦃⇓ v => Has p F (v :: vs)⦄ :=
  fresh_in _ F (fresh_holds _ (fun _ => rfl) (fun _ => rfl) (fun _ => rfl))

theorem make_has {vs : List ValueId} {who : Caller} {f : Jerry} {args : List ValueId}
    (hg : (discipline p).gives (.call who f args) = none) (hu : ∀ v ∈ args, v ∈ vs) :
    ⦃Has p F vs⦄ make who f args ⦃⇓ v => Has p F (v :: vs)⦄ := by
  unfold make
  refine .bind _ _ (call_has p F hg hu) fun _ => ?_
  exact made_has p F

theorem jerryValueFree_has {us vs : List ValueId} {who : Caller} {v : ValueId}
    (hp : us.Perm (v :: vs)) :
    ⦃Has p F us⦄ jerryValueFree who v ⦃⇓ _ => Has p F vs⦄ := by
  refine emit_in _ F (emit_gives _ hp rfl rfl fun u hu => ?_)
  obtain rfl : u = v := by simpa [discipline] using hu
  exact hp.mem_iff.mpr List.mem_cons_self

/-- A value that goes to the engine. -/
theorem returned_has {vs : List ValueId} {v : ValueId} :
    ⦃Has p F (v :: vs)⦄ emit (ValueEvent.returned v) ⦃⇓ _ => Has p F vs⦄ :=
  emit_in _ F (emit_gives _ (List.Perm.refl _) rfl rfl (by simp [discipline]))

variable (setThrows : ValueId → Bool)

/-- `__add_key_value_to_object` gives up the key and the value. -/
theorem addKeyValueToObject_has {us vs : List ValueId} {object key value : ValueId}
    (hp : us.Perm (key :: value :: vs)) (ho : object ∈ us) : ⦃Has p F us⦄
      addKeyValueToObject setThrows object key value ⦃⇓ _ => Has p F vs⦄ := by
  have hargs : ∀ v ∈ [object, key, value], v ∈ us := by
    have hkey : key ∈ us := hp.mem_iff.mpr (by simp)
    have hvalue : value ∈ us := hp.mem_iff.mpr (by simp)
    simp [ho, hkey, hvalue]
  unfold addKeyValueToObject
  refine .bind _ _ (make_has p F rfl hargs) fun setResult => ?_
  have hkey : (setResult :: us).Perm (key :: setResult :: value :: vs) :=
    (hp.cons setResult).trans (List.Perm.swap key setResult _)
  refine .bind _ _ (jerryValueFree_has p F hkey) fun _ => ?_
  refine .bind _ _ (jerryValueFree_has p F (List.Perm.swap value setResult vs)) fun _ => ?_
  refine .bind _ _ (call_has p F rfl (by simp)) fun _ => ?_
  split
  · refine .bind _ _ (jerryValueFree_has p F (List.Perm.refl _)) fun _ => ?_
    exact return_keeps _
  · refine .bind _ _ (jerryValueFree_has p F (List.Perm.refl _)) fun _ => ?_
    exact return_keeps _

theorem addValue_has {us vs : List ValueId} {object key value : ValueId}
    (hp : us.Perm (key :: value :: vs)) (ho : object ∈ us) : ⦃Has p F us⦄
      addValue setThrows object key value ⦃⇓ _ => Has p F vs⦄ := by
  unfold addValue
  refine .bind _ _ (addKeyValueToObject_has p F setThrows hp ho) fun _ => ?_
  exact return_keeps _

theorem addNew_has {vs : List ValueId} {object : ValueId} {f : Jerry} (ho : object ∈ vs)
    (hg : (discipline p).gives (.call .task f []) = none) :
    ⦃Has p F vs⦄ addNew setThrows object f ⦃⇓ _ => Has p F vs⦄ := by
  unfold addNew
  refine .bind _ _ (make_has p F rfl (by simp)) fun key => ?_
  refine .bind _ _ (make_has p F hg (by simp)) fun value => ?_
  exact addValue_has p F setThrows (List.Perm.swap key value vs) (by simp [ho])

theorem addObject_has {vs : List ValueId} {object value : ValueId} (ho : object ∈ vs) :
    ⦃Has p F (value :: vs)⦄ addObject setThrows object value ⦃⇓ _ => Has p F vs⦄ := by
  unfold addObject
  refine .bind _ _ (make_has p F rfl (by simp)) fun key => ?_
  exact addValue_has p F setThrows (List.Perm.refl _) (by simp [ho])

end Has

/-! ## The same calls as a program -/

/-- The engine calls that are no callback's. -/
def taskCalls (t : List ValueEvent) : List Jerry :=
  t.filterMap fun
    | .call .task f _ => some f
    | _ => none

/-- The program made these engine calls, and this is left of it. -/
inductive Performs (p : Program) : List Jerry → Program → Prop
  | start : Performs p [] p
  | call {fs : List Jerry} {f : Jerry} {k : Bool → Program} (b : Bool)
      (h : Performs p fs (.act (.jerry f) k)) : Performs p (fs ++ [f]) (k b)
  | other {fs : List Jerry} {x : Act} {k : Bool → Program} (b : Bool)
      (hx : ∀ f, x ≠ .jerry f) (h : Performs p fs (.act x k)) : Performs p fs (k b)

/-- `__lock_context` makes no engine call. -/
theorem Performs.lock {k : Program} : Performs (lockContext k) [] k := by
  have htake : Performs (lockContext k) [] (.act .takeCtxMut fun _ =>
      .andThen .setCurrentContext <| .andThen .setCurrentIsereJsContext k) := .start
  have hcontext := htake.other true (by simp)
  have hconn := hcontext.other true (by simp)
  exact hconn.other true (by simp)

/-- `__unlock_context` makes no engine call. -/
theorem Performs.unlock {p k : Program} {fs : List Jerry} (h : Performs p fs (unlockContext k)) :
    Performs p fs k :=
  Performs.other true (by simp) (.other true (by simp) (.other true (by simp) h))

section Left

variable (p : Program)

/-- The program made the calls of the log, and `q` is left of it. -/
def Left (q : Program) : Assertion (.arg (Log ValueEvent) .pure) := fun s =>
  ⌜Performs p (taskCalls s.trace) q⌝

theorem call_left {f : Jerry} {args : List ValueId} {k : Bool → Program} (b : Bool) :
    ⦃Left p (.act (.jerry f) k)⦄ call .task f args ⦃⇓ _ => Left p (k b)⦄ := by
  intro s h
  have hcalls : taskCalls (s.trace ++ [.call .task f args]) = taskCalls s.trace ++ [f] := by
    simp [taskCalls]
  show Performs p (taskCalls (s.trace ++ [.call .task f args])) (k b)
  rw [hcalls]
  exact h.call b

/-- Other events than the calls of the program leave it where it is. -/
theorem emit_left {e : ValueEvent} {q : Program} (he : taskCalls [e] = []) :
    ⦃Left p q⦄ emit e ⦃⇓ _ => Left p q⦄ := by
  intro s h
  have hcalls : taskCalls (s.trace ++ [e]) = taskCalls s.trace := by
    unfold taskCalls at he ⊢
    rw [List.filterMap_append, he, List.append_nil]
  show Performs p (taskCalls (s.trace ++ [e])) q
  rwa [hcalls]

theorem made_left {q : Program} :
    ⦃Left p q⦄ ownership.fresh ValueEvent.made ⦃⇓ _ => Left p q⦄ := by
  intro s h
  have hcalls : taskCalls (s.trace ++ [.made s.next]) = taskCalls s.trace := by
    simp [taskCalls]
  show Performs p (taskCalls (s.trace ++ [.made s.next])) q
  rwa [hcalls]

theorem make_left {f : Jerry} {args : List ValueId} {k : Bool → Program} (b : Bool) :
    ⦃Left p (.act (.jerry f) k)⦄ make .task f args ⦃⇓ _ => Left p (k b)⦄ := by
  unfold make
  exact .bind _ _ (call_left p b) fun _ => made_left p

/-- Neither does a new value of a callback. -/
theorem make_callback_left {f : Jerry} {args : List ValueId} {q : Program} :
    ⦃Left p q⦄ make .callback f args ⦃⇓ _ => Left p q⦄ := by
  unfold make
  exact .bind _ _ (emit_left p rfl) fun _ => made_left p

variable (setThrows : ValueId → Bool)

theorem addKeyValueToObject_left (object key value : ValueId) (k : Program) :
    ⦃Left p (jerryscript.addKeyValueToObject k)⦄ addKeyValueToObject setThrows object key value
      ⦃⇓ _ => Left p k⦄ := by
  unfold addKeyValueToObject
  refine .bind _ _ (make_left p true) fun setResult => ?_
  refine .bind _ _ (call_left p true) fun _ => ?_
  refine .bind _ _ (call_left p true) fun _ => ?_
  refine .bind _ _ (call_left p (setThrows setResult)) fun _ => ?_
  split
  · refine .bind _ _ (call_left p true) fun _ => ?_
    exact return_keeps _
  · refine .bind _ _ (call_left p true) fun _ => ?_
    exact return_keeps _

theorem addNew_left (object : ValueId) (f : Jerry) (k : Program) :
    ⦃Left p (jerry .stringSz <| jerry f <| jerryscript.addKeyValueToObject k)⦄
      addNew setThrows object f ⦃⇓ _ => Left p k⦄ := by
  unfold addNew addValue
  refine .bind _ _ (make_left p true) fun key => ?_
  refine .bind _ _ (make_left p true) fun value => ?_
  refine .bind _ _ (addKeyValueToObject_left p setThrows object key value k) fun _ => ?_
  exact return_keeps _

theorem addObject_left (object value : ValueId) (k : Program) :
    ⦃Left p (jerryscript.addObject k)⦄ addObject setThrows object value ⦃⇓ _ => Left p k⦄ := by
  unfold addObject addValue
  refine .bind _ _ (make_left p true) fun key => ?_
  refine .bind _ _ (addKeyValueToObject_left p setThrows object key value k) fun _ => ?_
  exact return_keeps _

end Left

end isere.jerryscript.values
