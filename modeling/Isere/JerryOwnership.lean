-- What becomes of the engine values of a JerryScript context, beside those of
-- `js_runtime_eval_handler`: each is given up once, and not used after that, unless a
-- poll prints an exception that the printer takes.
import Isere.JerryEntries

open Std.Do ownership runs typestate isere.jerryscript.values

namespace isere.jerryscript.entries

/-! ## What scripts call

The callbacks keep what the runtime holds, and they leave the program of the task where
it is. Both are cases of one law. -/

/-- A family of assertions that the calls of a callback keep, for what the runtime
holds. -/
structure Keeps (p : Bool) (I : List ValueId → Assertion (.arg (Log ValueEvent) .pure)) :
    Prop where
  call : ∀ {vs : List ValueId} {f : Jerry} {args : List ValueId},
    (discipline p).gives (.call .callback f args) = none → (∀ v ∈ args, v ∈ vs) →
      ⦃I vs⦄ values.call .callback f args ⦃⇓ _ => I vs⦄
  make : ∀ {vs : List ValueId} {f : Jerry} {args : List ValueId},
    (discipline p).gives (.call .callback f args) = none → (∀ v ∈ args, v ∈ vs) →
      ⦃I vs⦄ values.make .callback f args ⦃⇓ v => I (v :: vs)⦄
  free : ∀ {us vs : List ValueId} {v : ValueId}, us.Perm (v :: vs) →
    ⦃I us⦄ jerryValueFree .callback v ⦃⇓ _ => I vs⦄
  returned : ∀ {vs : List ValueId} {v : ValueId},
    ⦃I (v :: vs)⦄ emit (ValueEvent.returned v) ⦃⇓ _ => I vs⦄

theorem has_keeps (p : Bool) (F : Frame ValueEvent) : Keeps p (Has p F) where
  call := call_has p F
  make := make_has p F
  free := jerryValueFree_has p F
  returned := returned_has p F

theorem left_keeps (p : Bool) (code q : Program) : Keeps p (fun _ => Left code q) where
  call _ _ := emit_left code rfl
  make _ _ := make_callback_left code
  free _ := emit_left code rfl
  returned := emit_left code rfl

section Entries

variable {p : Bool} {I : List ValueId → Assertion (.arg (Log ValueEvent) .pure)} (hI : Keeps p I)
include hI

theorem returnNew_keeps {vs : List ValueId} {f : Jerry}
    (hg : (discipline p).gives (.call .callback f []) = none) :
    ⦃I vs⦄ returnNew f ⦃⇓ _ => I vs⦄ := by
  unfold returnNew
  refine .bind _ _ (hI.make hg (by simp)) fun v => ?_
  exact hI.returned

theorem copyString_keeps {vs : List ValueId} {v : ValueId} (hv : v ∈ vs) :
    ⦃I vs⦄ copyString v ⦃⇓ _ => I vs⦄ := by
  unfold copyString
  refine .bind _ _ (hI.call rfl (by simpa using hv)) fun _ => ?_
  exact hI.call rfl (by simpa using hv)

theorem copyJson_keeps {vs args : List ValueId} (ha : ∀ v ∈ args, v ∈ vs) :
    ⦃I vs⦄ copyJson args ⦃⇓ _ => I vs⦄ := by
  unfold copyJson
  refine .bind _ _ (hI.make rfl ha) fun stringified => ?_
  refine .bind _ _ (copyString_keeps hI (by simp)) fun _ => ?_
  exact hI.free (List.Perm.refl _)

theorem logArgument_keeps {vs : List ValueId} (a : Kind) :
    ⦃I vs⦄ logArgument a ⦃⇓ _ => I vs⦄ := by
  cases a with
  | function => exact hI.call rfl (by simp)
  | object =>
    refine .bind _ _ (hI.call rfl (by simp)) fun _ => ?_
    refine .bind _ _ (hI.call rfl (by simp)) fun _ => ?_
    exact copyJson_keeps hI (by simp)
  | string =>
    refine .bind _ _ (hI.call rfl (by simp)) fun _ => ?_
    refine .bind _ _ (hI.call rfl (by simp)) fun _ => ?_
    refine .bind _ _ (hI.call rfl (by simp)) fun _ => ?_
    refine .bind _ _ (hI.call rfl (by simp)) fun _ => ?_
    exact hI.call rfl (by simp)
  | other =>
    refine .bind _ _ (hI.call rfl (by simp)) fun _ => ?_
    refine .bind _ _ (hI.call rfl (by simp)) fun _ => ?_
    exact hI.call rfl (by simp)

theorem loggerInternal_keeps {vs : List ValueId} (args : List Kind) :
    ⦃I vs⦄ loggerInternal args ⦃⇓ _ => I vs⦄ := by
  have hargs : ⦃I vs⦄ logArguments args ⦃⇓ _ => I vs⦄ := by
    induction args with
    | nil => exact return_keeps _
    | cons a as ih => exact .bind _ _ (logArgument_keeps hI a) fun _ => ih
  unfold loggerInternal
  refine .bind _ _ hargs fun _ => ?_
  exact returnNew_keeps hI rfl

theorem getValueFromObjectByKey_keeps {vs : List ValueId} :
    ⦃I vs⦄ getValueFromObjectByKey ⦃⇓ v => I (v :: vs)⦄ := by
  unfold getValueFromObjectByKey
  refine .bind _ _ (hI.make rfl (by simp)) fun key => ?_
  refine .bind _ _ (hI.make rfl (by simp)) fun ret => ?_
  refine .bind _ _ (hI.free (List.Perm.swap key ret vs)) fun _ => ?_
  exact return_keeps (Q := fun v => I (v :: vs)) ret

theorem copyHeader_keeps {vs : List ValueId} {headerName headerField : ValueId}
    (hn : headerName ∈ vs) (hf : headerField ∈ vs) (a : CbAnswers) (i : Nat) :
    ⦃I vs⦄ copyHeader a i headerName headerField ⦃⇓ _ => I vs⦄ := by
  unfold copyHeader
  refine .bind _ _ (hI.call rfl (by simpa using hn)) fun _ => ?_
  split
  · refine .bind _ _ (hI.call rfl (by simpa using hf)) fun _ => ?_
    split
    · refine .bind _ _ (copyString_keeps hI hn) fun _ => ?_
      exact copyString_keeps hI hf
    · exact return_keeps _
  · exact return_keeps _

/-- Every header gives up its name and its value. -/
theorem copyHeaders_keeps {vs : List ValueId} {headers props : ValueId} (hh : headers ∈ vs)
    (hp : props ∈ vs) (a : CbAnswers) (i n : Nat) :
    ⦃I vs⦄ copyHeaders a headers props i n ⦃⇓ _ => I vs⦄ := by
  induction n generalizing i with
  | zero => exact return_keeps _
  | succ n ih =>
    unfold copyHeaders
    refine .bind _ _ (hI.make rfl (by simpa using hp)) fun headerName => ?_
    refine .bind _ _ (hI.make rfl (by simp [hh])) fun headerField => ?_
    refine .bind _ _ (copyHeader_keeps hI (by simp) (by simp) a i) fun _ => ?_
    refine .bind _ _ (hI.free (List.Perm.swap headerName headerField vs))
      fun _ => ?_
    refine .bind _ _ (hI.free (List.Perm.refl _)) fun _ => ?_
    exact ih (i + 1)

theorem headersObject_keeps {vs : List ValueId} {headers : ValueId} (hh : headers ∈ vs)
    (a : CbAnswers) : ⦃I vs⦄ headersObject a headers ⦃⇓ _ => I vs⦄ := by
  unfold headersObject
  split
  · refine .bind _ _ (hI.make rfl (by simpa using hh)) fun props => ?_
    refine .bind _ _ (hI.call rfl (by simp)) fun _ => ?_
    refine .bind _ _ (copyHeaders_keeps hI (by simp [hh]) (by simp) a 0 _) fun _ => ?_
    exact hI.free (List.Perm.refl _)
  · exact return_keeps _

theorem copyBody_keeps {vs : List ValueId} {body : ValueId} (hb : body ∈ vs) (k : Kind) :
    ⦃I vs⦄ copyBody body k ⦃⇓ _ => I vs⦄ := by
  have hargs : ∀ v ∈ [body], v ∈ vs := by simpa using hb
  cases k with
  | function | object =>
    refine .bind _ _ (hI.call rfl hargs) fun _ => ?_
    exact copyJson_keeps hI hargs
  | string =>
    refine .bind _ _ (hI.call rfl hargs) fun _ => ?_
    refine .bind _ _ (hI.call rfl hargs) fun _ => ?_
    exact copyString_keeps hI hb
  | other =>
    refine .bind _ _ (hI.call rfl hargs) fun _ => ?_
    exact hI.call rfl hargs

theorem copyStatus_keeps {vs : List ValueId} {statusCode : ValueId} (hs : statusCode ∈ vs)
    (a : CbAnswers) : ⦃I vs⦄ copyStatus a statusCode ⦃⇓ _ => I vs⦄ := by
  unfold copyStatus
  split
  · exact hI.call rfl (by simpa using hs)
  · exact return_keeps _

theorem handlerCb_keeps {vs : List ValueId} (a : CbAnswers) :
    ⦃I vs⦄ handlerCb a ⦃⇓ _ => I vs⦄ := by
  unfold handlerCb
  split
  · refine .bind _ _ (getValueFromObjectByKey_keeps hI) fun statusCode => ?_
    refine .bind _ _ (hI.call rfl (by simp)) fun _ => ?_
    refine .bind _ _ (copyStatus_keeps hI (by simp) a) fun _ => ?_
    refine .bind _ _ (hI.free (List.Perm.refl _)) fun _ => ?_
    refine .bind _ _ (getValueFromObjectByKey_keeps hI) fun headers => ?_
    refine .bind _ _ (hI.call rfl (by simp)) fun _ => ?_
    refine .bind _ _ (headersObject_keeps hI (by simp) a) fun _ => ?_
    refine .bind _ _ (hI.free (List.Perm.refl _)) fun _ => ?_
    refine .bind _ _ (getValueFromObjectByKey_keeps hI) fun body => ?_
    refine .bind _ _ (copyBody_keeps hI (by simp) a.body) fun _ => ?_
    refine .bind _ _ (hI.free (List.Perm.refl _)) fun _ => ?_
    exact returnNew_keeps hI rfl
  · exact returnNew_keeps hI rfl

theorem runScript_keeps {vs : List ValueId} (es : List Entry) :
    ⦃I vs⦄ runScript es ⦃⇓ _ => I vs⦄ := by
  induction es with
  | nil => exact return_keeps _
  | cons e es ih =>
    cases e with
    | cb a => exact .bind _ _ (handlerCb_keeps hI a) fun _ => ih
    | console args => exact .bind _ _ (loggerInternal_keeps hI args) fun _ => ih

end Entries

/-! ## The same calls as the programs -/

/-- What is left of the program of a poll after `jerry_run_jobs`. -/
def polled : Program :=
  askJerry .valueIsException fun isException =>
  if isException then
    askJerry .valueIsAbort fun isAbort =>
    if isAbort then pollFinally (-1) else jerry .printUnhandledException <| pollFinally (-1)
  else pollFinally 0

section Left

variable (code : Program)

theorem init_left {k : Program} : ⦃Left code (jerry .init <| .andThen .keepContext k)⦄
    call .task .init [] ⦃⇓ _ => Left code k⦄ := by
  have hinit : ⦃Left code (jerry .init <| .andThen .keepContext k)⦄ call .task .init []
      ⦃⇓ _ => Left code (.andThen .keepContext k)⦄ := call_left code true
  exact fun s h => Performs.other true (by simp) (hinit s h)

/-- The last value is freed before the context is unlocked. -/
theorem unlock_left {v : ValueId} {k : Program} :
    ⦃Left code (jerry .valueFree <| unlockContext k)⦄ jerryValueFree .task v
      ⦃⇓ _ => Left code k⦄ := by
  have hfree : ⦃Left code (jerry .valueFree <| unlockContext k)⦄ jerryValueFree .task v
      ⦃⇓ _ => Left code (unlockContext k)⦄ := call_left code true
  exact fun s h => Performs.unlock (hfree s h)

/-- The start of a context, with `k` left of its program. -/
theorem jsRuntimeInitContext_left (setThrows : ValueId → Bool) (k : Program) :
    ⦃Left code (jerry .init <| .andThen .keepContext <| jerry .currentRealm <|
      jerry .object <| addFunction .consoleLog <| addFunction .consoleWarn <|
      addFunction .consoleError <| jerryscript.addObject <|
      jerry .object <| jerry .object <| addString <| jerryscript.addObject <|
      jerryscript.addObject <| jerry .valueFree <| unlockContext k)⦄
      jsRuntimeInitContext setThrows ⦃⇓ _ => Left code k⦄ := by
  unfold jsRuntimeInitContext
  refine .bind _ _ (init_left code) fun _ => ?_
  refine .bind _ _ (make_left code true) fun globalObj => ?_
  refine .bind _ _ (make_left code true) fun console => ?_
  refine .bind _ _ (addNew_left code setThrows console _ _) fun _ => ?_
  refine .bind _ _ (addNew_left code setThrows console _ _) fun _ => ?_
  refine .bind _ _ (addNew_left code setThrows console _ _) fun _ => ?_
  refine .bind _ _ (addObject_left code setThrows globalObj console _) fun _ => ?_
  refine .bind _ _ (make_left code true) fun process => ?_
  refine .bind _ _ (make_left code true) fun env => ?_
  refine .bind _ _ (addNew_left code setThrows env _ _) fun _ => ?_
  refine .bind _ _ (addObject_left code setThrows process env _) fun _ => ?_
  refine .bind _ _ (addObject_left code setThrows globalObj process _) fun _ => ?_
  exact unlock_left code

theorem pollResult_left (jobValue : ValueId) (result : JobResult) :
    ⦃Left code polled⦄ pollResult jobValue result ⦃⇓ ret => Left code (pollFinally ret)⦄ := by
  cases result with
  | value =>
    refine .bind _ _ (call_left code false) fun _ => ?_
    exact return_keeps (Q := fun ret => Left code (pollFinally ret)) 0
  | abort =>
    refine .bind _ _ (call_left code true) fun _ => ?_
    refine .bind _ _ (call_left code true) fun _ => ?_
    exact return_keeps (Q := fun ret => Left code (pollFinally ret)) (-1)
  | exception =>
    refine .bind _ _ (call_left code true) fun _ => ?_
    refine .bind _ _ (call_left code false) fun _ => ?_
    refine .bind _ _ (call_left code true) fun _ => ?_
    exact return_keeps (Q := fun ret => Left code (pollFinally ret)) (-1)

end Left

/-- The start of a context makes the engine calls of its program. -/
theorem jsRuntimeInitContext_performs (setThrows : ValueId → Bool) (k : Program) :
    Performs (jerryscript.jsRuntimeInitContext k)
      (taskCalls (jsRuntimeInitContext setThrows { next := 0, trace := [] }).2.trace) k := by
  have hlock : Performs (jerryscript.jsRuntimeInitContext k) [] _ := Performs.lock
  have halloc := hlock.other true (by simp)
  exact triple_run (jsRuntimeInitContext_left _ setThrows k) halloc

/-- A poll makes the engine calls of its program, beside those of the scripts, and
returns what the program returns. -/
theorem jsRuntimePoll_performs (a : PollAnswers) :
    Performs jerryscript.jsRuntimePoll
      (taskCalls (jsRuntimePoll a { next := 0, trace := [] }).2.trace)
      (.done (jsRuntimePoll a { next := 0, trace := [] }).1) := by
  have hrun : ⦃Left jerryscript.jsRuntimePoll (jerry .runJobs polled)⦄ jsRuntimePoll a
      ⦃⇓ ret => Left jerryscript.jsRuntimePoll (.done ret)⦄ := by
    unfold jsRuntimePoll
    refine .bind _ _ (call_left _ true) fun _ => ?_
    refine .bind _ _ (@runScript_keeps false _ (left_keeps false _ polled) [] a.script) fun _ => ?_
    refine .bind _ _ (made_left _) fun jobValue => ?_
    refine .bind _ _ (pollResult_left _ jobValue a.result) fun ret => ?_
    refine .bind _ _ (unlock_left _) fun _ => ?_
    exact return_keeps (Q := fun ret => Left jerryscript.jsRuntimePoll (.done ret)) ret
  exact triple_run hrun Performs.lock

/-! ## The start of a context -/

theorem jsRuntimeInitContext_has (p : Bool) (F : Frame ValueEvent) (setThrows : ValueId → Bool)
    {vs : List ValueId} :
    ⦃Has p F vs⦄ jsRuntimeInitContext setThrows ⦃⇓ _ => Has p F vs⦄ := by
  unfold jsRuntimeInitContext
  refine .bind _ _ (call_has p F rfl (by simp)) fun _ => ?_
  refine .bind _ _ (make_has p F rfl (by simp)) fun globalObj => ?_
  refine .bind _ _ (make_has p F rfl (by simp)) fun console => ?_
  refine .bind _ _ (addNew_has p F setThrows (by simp) rfl) fun _ => ?_
  refine .bind _ _ (addNew_has p F setThrows (by simp) rfl) fun _ => ?_
  refine .bind _ _ (addNew_has p F setThrows (by simp) rfl) fun _ => ?_
  refine .bind _ _ (addObject_has p F setThrows (by simp)) fun _ => ?_
  refine .bind _ _ (make_has p F rfl (by simp)) fun process => ?_
  refine .bind _ _ (make_has p F rfl (by simp)) fun env => ?_
  refine .bind _ _ (addNew_has p F setThrows (by simp) rfl) fun _ => ?_
  refine .bind _ _ (addObject_has p F setThrows (by simp)) fun _ => ?_
  refine .bind _ _ (addObject_has p F setThrows (by simp)) fun _ => ?_
  exact jerryValueFree_has p F (List.Perm.refl _)

/-! ## Polls -/

section Polls

variable (p : Bool) (F : Frame ValueEvent)

/-- A result that is not printed, or that the printer leaves to the poll. -/
theorem pollResult_has {vs : List ValueId} {jobValue : ValueId} (hj : jobValue ∈ vs)
    {result : JobResult} (h : result = .exception → p = false) :
    ⦃Has p F vs⦄ pollResult jobValue result ⦃⇓ _ => Has p F vs⦄ := by
  have hargs : ∀ v ∈ [jobValue], v ∈ vs := by simpa using hj
  cases result with
  | value =>
    refine .bind _ _ (call_has p F rfl hargs) fun _ => ?_
    exact return_keeps _
  | abort =>
    refine .bind _ _ (call_has p F rfl hargs) fun _ => ?_
    refine .bind _ _ (call_has p F rfl hargs) fun _ => ?_
    exact return_keeps _
  | exception =>
    obtain rfl := h rfl
    refine .bind _ _ (call_has false F rfl hargs) fun _ => ?_
    refine .bind _ _ (call_has false F rfl hargs) fun _ => ?_
    refine .bind _ _ (call_has false F rfl hargs) fun _ => ?_
    exact return_keeps _

theorem runTurn_has {vs : List ValueId} {t : Turn} (h : t.prints = true → p = false) :
    ⦃Has p F vs⦄ runTurn t ⦃⇓ _ => Has p F vs⦄ := by
  cases t with
  | script es => exact runScript_keeps (has_keeps p F) es
  | poll a =>
    unfold runTurn jsRuntimePoll
    refine .bind _ _ (Q := fun _ => Has p F vs) ?_ fun _ => return_keeps _
    refine .bind _ _ (call_has p F rfl (by simp)) fun _ => ?_
    refine .bind _ _ (runScript_keeps (has_keeps p F) a.script) fun _ => ?_
    refine .bind _ _ (made_has p F) fun jobValue => ?_
    have hresult : ⦃Has p F (jobValue :: vs)⦄ pollResult jobValue a.result
        ⦃⇓ _ => Has p F (jobValue :: vs)⦄ :=
      pollResult_has p F (by simp) fun he => h (by simp [Turn.prints, he])
    refine .bind _ _ hresult fun ret => ?_
    refine .bind _ _ (jerryValueFree_has p F (List.Perm.refl _)) fun _ => ?_
    exact return_keeps _

theorem runTurns_has {vs : List ValueId} {ts : List Turn}
    (h : ∀ t ∈ ts, t.prints = true → p = false) :
    ⦃Has p F vs⦄ runTurns ts ⦃⇓ _ => Has p F vs⦄ := by
  induction ts with
  | nil => exact return_keeps _
  | cons t ts ih =>
    rw [List.forall_mem_cons] at h
    exact .bind _ _ (runTurn_has p F h.1) fun _ => ih h.2

end Polls

/-! ## A poll that prints -/

section Prints

variable (F : Frame ValueEvent)

/-- The exception was printed. -/
abbrev printed (jobValue : ValueId) : Frame ValueEvent :=
  F.and (Frame.happened [.call .task .printUnhandledException [jobValue]])

theorem pollResult_prints {vs : List ValueId} {jobValue : ValueId} :
    ⦃Has false F (jobValue :: vs)⦄ pollResult jobValue .exception
      ⦃⇓ _ => Has false (printed F jobValue) (jobValue :: vs)⦄ := by
  refine .bind _ _ (call_has false F rfl (by simp)) fun _ => ?_
  refine .bind _ _ (call_has false F rfl (by simp)) fun _ => ?_
  refine .bind _ _ (Q := fun _ => Has false (printed F jobValue) (jobValue :: vs)) ?_
    fun _ => return_keeps _
  exact emit_happened _ F (emit_uses _ rfl rfl (by simp [discipline]))

/-- If the printer took the exception, it is not the poll's to free. -/
theorem free_misuses {vs : List ValueId} {jobValue : ValueId} :
    ⦃Has false (printed F jobValue) (jobValue :: vs)⦄ jerryValueFree .task jobValue
      ⦃⇓ _ => Has false (F.and (Frame.misused (discipline true))) vs⦄ := by
  have hfree : ⦃Has false (printed F jobValue) (jobValue :: vs)⦄ jerryValueFree .task jobValue
      ⦃⇓ _ => Has false ((printed F jobValue).and (Frame.misused (discipline true))) vs⦄ := by
    refine emit_misuse _ _ (v := jobValue)
      (emit_gives _ (List.Perm.refl _) rfl rfl (by simp [discipline])) ?_ (by simp [discipline])
    exact fun t ht => ⟨_, ht.2 _ (List.mem_singleton_self _), rfl⟩
  exact fun s hs => HoldingIn.mono (hfree s hs) fun t ht => ⟨ht.1.1, ht.2⟩

/-- The printer takes the exception, and the poll frees it again. -/
theorem runTurn_misuses {vs : List ValueId} {t : Turn} (h : t.prints = true) :
    ⦃Has false F vs⦄ runTurn t
      ⦃⇓ _ => Has false (F.and (Frame.misused (discipline true))) vs⦄ := by
  cases t with
  | script es => cases h
  | poll a =>
    have hresult : a.result = .exception := of_decide_eq_true h
    unfold runTurn jsRuntimePoll
    refine .bind _ _ (Q := fun _ => Has false (F.and (Frame.misused (discipline true))) vs) ?_
      fun _ => return_keeps _
    rw [hresult]
    refine .bind _ _ (call_has false F rfl (by simp)) fun _ => ?_
    refine .bind _ _ (runScript_keeps (has_keeps false F) a.script) fun _ => ?_
    refine .bind _ _ (made_has false F) fun jobValue => ?_
    refine .bind _ _ (pollResult_prints F) fun ret => ?_
    refine .bind _ _ (free_misuses F) fun _ => ?_
    exact return_keeps _

/-- From the first such poll on. -/
theorem runTurns_misuse {vs : List ValueId} {ts : List Turn} (h : ∃ t ∈ ts, t.prints = true) :
    ⦃Has false F vs⦄ runTurns ts
      ⦃⇓ _ => Has false (F.and (Frame.misused (discipline true))) vs⦄ := by
  induction ts with
  | nil => simp at h
  | cons t ts ih =>
    by_cases ht : t.prints = true
    · exact .bind _ _ (runTurn_misuses F ht) fun _ => runTurns_has false _ fun _ _ _ => rfl
    · have hrest : ∃ t ∈ ts, t.prints = true := by simpa [ht] using h
      exact .bind _ _ (runTurn_has false F fun _ => rfl) fun _ => ih hrest

end Prints

/-! ## The law -/

/-- Over the life of a JerryScript context, whatever the engine answers, its scripts call and
its jobs do: each value that the runtime has of the engine beside those of
`js_runtime_eval_handler` is given up once and not used after that, just when no poll
prints an exception that `jerryx_print_unhandled_exception` takes. -/
theorem values_are_given_up_once_iff (printTakes : Bool) (setThrows : ValueId → Bool)
    (ts : List Turn) : GivenOnce (discipline printTakes) (lifeLog setThrows ts) ↔
      (printTakes = true → ∀ t ∈ ts, t.prints = false) := by
  have hstart : ∀ p, (Has p Frame.any [] { next := 0, trace := [] }).down :=
    fun p => ⟨holds_start _, trivial⟩
  constructor
  · rintro hgiven rfl t ht
    by_contra hprints
    have hlife : ⦃Has false Frame.any []⦄ contextLife setThrows ts
        ⦃⇓ _ => Has false (Frame.any.and (Frame.misused (discipline true))) []⦄ :=
      .bind _ _ (jsRuntimeInitContext_has false Frame.any setThrows) fun _ =>
        runTurns_misuse Frame.any ⟨t, ht, by simpa using hprints⟩
    exact (triple_run hlife (hstart false)).2.2 hgiven.held
  · intro h
    have hlife : ⦃Has printTakes Frame.any []⦄ contextLife setThrows ts
        ⦃⇓ _ => Has printTakes Frame.any []⦄ :=
      .bind _ _ (jsRuntimeInitContext_has printTakes Frame.any setThrows) fun _ =>
        runTurns_has printTakes Frame.any fun t ht hprints => by
          cases printTakes with
          | false => rfl
          | true => simp [h rfl t ht] at hprints
    exact (triple_run hlife (hstart printTakes)).1.givenOnce

end isere.jerryscript.entries
