-- The life of a connection over whole runs: it is freed once, and nothing uses
-- it after that. This holds as long as every message goes to the handler, since
-- an answer inside the callback frees the parser that is running.
import Isere.HttpdSteps

open cstring intrusive isere.tcp isere.uv runs

namespace isere.httpd

/-- No event uses a connection that was freed before. A second cleanup would
be one. -/
def NoUseAfterFree (s : Httpd) : Prop := Allowed (fun pre e => .freed e.conn ∉ pre) s.trace

/-- A call of llhttp ends no message, or one that goes to the handler. -/
def OnlyDispatch (cfg : Config) (l : Llhttp) (y : Yuarel) (s : Httpd) (os : Os) : Prop :=
  ∀ k ∈ parserCall l s os,
    cfg.ends y (s.conns k.conn).req k.cbs = [] ∨ cfg.ends y (s.conns k.conn).req k.cbs = [true]

instance (cfg : Config) (l : Llhttp) (y : Yuarel) (s : Httpd) (os : Os) :
    Decidable (OnlyDispatch cfg l y s os) :=
  inferInstanceAs (Decidable (∀ k ∈ parserCall l s os,
    cfg.ends y (s.conns k.conn).req k.cbs = [] ∨ cfg.ends y (s.conns k.conn).req k.cbs = [true]))

def dispatchMode : Mode := { stale := false, again := false, twice := false, lateError := true }

theorem OnlyDispatch.stepOk {cfg : Config} {l : Llhttp} {y : Yuarel} {s : Httpd} {os : Os}
    (h : OnlyDispatch cfg l y s os) : StepOk cfg l y dispatchMode s os := by
  intro k hk
  rcases h k hk with hends | hends
  · rw [hends]
    exact ⟨trivial, fun _ => trivial⟩
  · rw [hends]
    exact ⟨trivial, fun _ => rfl⟩

/-! ## The invariant -/

/-- Nothing is used after its end, and what was freed is marked so. -/
structure LifeOk (s : Httpd) : Prop where
  safe : NoUseAfterFree s
  marked : ∀ c, .freed c ∈ s.trace → (s.conns c).life = .cleaned

/-- Events on connections that are not gone, none of which frees one. -/
theorem LifeOk.keep {s s' : Httpd} (h : LifeOk s) (es : List Event)
    (ht : s'.trace = s.trace ++ es)
    (hes : ∀ e ∈ es, (∀ c, e ≠ .freed c) ∧ (s.conns e.conn).life ≠ .cleaned)
    (hl : ∀ c, (s.conns c).life = .cleaned → (s'.conns c).life = .cleaned) : LifeOk s' := by
  have hfree : ∀ c, .freed c ∈ s.trace ++ es ↔ .freed c ∈ s.trace := by
    intro c
    have hno : .freed c ∉ es := fun he => (hes _ he).1 c rfl
    simp [hno]
  refine ⟨?_, ?_⟩
  · unfold NoUseAfterFree
    rw [ht]
    apply allowed_append h.safe
    rintro pre e post rfl hin
    have hpre : ∀ x ∈ pre, ∀ c, x ≠ .freed c := fun x hx => (hes x (by simp [hx])).1
    rcases List.mem_append.mp hin with hin | hin
    · exact (hes e (by simp)).2 (h.marked _ hin)
    · exact hpre _ hin _ rfl
  · intro c hc
    rw [ht, hfree] at hc
    exact hl c (h.marked c hc)

/-- The cleanup of a connection that is not gone. -/
theorem LifeOk.cleanup {s : Httpd} (h : LifeOk s) {c : ConnId} (hc : (s.conns c).life ≠ .cleaned) :
    LifeOk (httpdCleanupConn s c) := by
  have hnot : .freed c ∉ s.trace := fun hin => hc (h.marked c hin)
  refine ⟨?_, ?_⟩
  · unfold NoUseAfterFree
    rw [cleanup_trace, show s.trace ++ [Event.closed c, .freed c] =
      (s.trace ++ [.closed c]) ++ [.freed c] by simp, allowed_snoc_iff, allowed_snoc_iff]
    exact ⟨⟨h.safe, hnot⟩, by simpa [Event.conn] using hnot⟩
  · intro d hd
    by_cases hdc : d = c
    · subst hdc
      simp
    · rw [cleanup_conns_other s hdc]
      apply h.marked
      simpa [hdc] using hd

theorem LifeOk.polledJs {s : Httpd} (h : LifeOk s) {c : ConnId}
    (hc : (s.conns c).life ≠ .cleaned) (os : Os) : LifeOk (polledJs s c os) := by
  refine h.keep [.jsPolled c os.jsPoll] (polledJs_trace s c os)
    (by simpa [Event.conn] using hc) (fun d hd => ?_)
  simpa using hd

theorem trans_lifeOk {cfg : Config} {y : Yuarel} {s s' : Httpd} (hi : Inv s) (h : LifeOk s)
    (htrans : Trans cfg y dispatchMode s s') : LifeOk s' := by
  have htaken : ∀ c, s.phase = .polling c → (s.conns c).life ≠ .cleaned :=
    fun c hs => by simp [hi.taken_live hs]
  cases htrans with
  | table _ _ _ => exact h.keep [] (by simp) (by simp) (fun _ hd => hd)
  | stopServer _ => exact h.keep [] (by simp) (by simp) (fun _ hd => hd)
  | admitted _ _ _ =>
    have hfresh := hi.conns.next_fresh.1
    refine h.keep _ (addConn_trace s _) (by simp [Event.conn, hfresh]) (fun d hd => ?_)
    have hdc : d ≠ s.nextConn := by
      rintro rfl
      simp [hfresh] at hd
    rwa [addConn_conns_other s hdc]
  | polled _ hr => exact h.keep _ rfl (by simp [Event.conn, hr.1]) (fun _ hd => hd)
  | @fed _ c chunk _ _ =>
    exact h.keep [] (by simp) (by simp) (fun d hd => (fed_conns s c chunk d).1.trans hd)
  | @piece _ c cb os _ hcb hr =>
    have hlive : (s.conns c).life = .live := by simpa [Hears, dispatchMode] using hr
    exact h.keep _ (piece_trace cfg y c os s hcb) (by simp [Event.conn, hlive])
      (fun d hd => (piece_conns cfg y c os s hcb d).1.trans hd)
  | @dispatched _ c os _ hr hgo =>
    rw [onCallback_dispatch cfg y c os s hgo]
    refine h.keep [.callback c .messageComplete,
      .handler c (s.conns c).req.handlerArgs, .parser c] (by simp)
      (by simp [Event.conn, hr.1]) (fun d hd => ?_)
    by_cases hdc : d = c
    · subst hdc
      simpa using hd
    · simpa [hdc] using hd
  | answered _ _ _ _ hm => cases hm
  | @tooLarge _ c _ hr =>
    have hlog : LifeOk (s.log (.wrote c .tooLarge)) :=
      h.keep _ rfl (by simp [Event.conn, hr.1]) (fun _ hd => hd)
    exact hlog.cleanup (by simp [hr.1])
  | @dropped _ c _ hr _ =>
    have hlive : (s.conns c).life = .live := by simpa [dispatchMode] using hr
    exact h.cleanup (by simp [hlive])
  | taken _ _ => exact h.keep [] (by simp) (by simp) (fun _ hd => hd)
  | @requeued c os hs _ _ =>
    exact (h.polledJs (htaken c hs) os).keep [] (by simp) (by simp) (fun _ hd => hd)
  | @gaveUp c os hs _ =>
    exact (h.polledJs (htaken c hs) os).cleanup (by simpa using htaken c hs)
  | @wroteBack c os hs =>
    have hlog : LifeOk ((polledJs s c os).log
        (.wrote c (httpdWriteback ((polledJs s c os).conns c).response))) :=
      (h.polledJs (htaken c hs) os).keep _ rfl
        (by simpa [Event.conn] using htaken c hs) (fun _ hd => hd)
    exact hlog.cleanup (by simpa using htaken c hs)

/-! ## The law -/

/-- In every run in which each message goes to the handler, alone in its call of
llhttp, no connection is cleaned up twice, and nothing uses one after its
cleanup. -/
theorem no_connection_is_used_after_its_cleanup (cfg : Config) (l : Llhttp) (y : Yuarel)
    (serverfd : Nat) (is : List Os)
    (h : StepsOk (step cfg l y) (OnlyDispatch cfg l y) (start serverfd) is) :
    NoUseAfterFree (run (step cfg l y) (start serverfd) is) := by
  have hstart : LifeOk (start serverfd) :=
    ⟨allowed_nil _, by simp [start]⟩
  exact (run_keeps (fun _ _ => trans_lifeOk) hstart
    (h.mono (fun _ _ => OnlyDispatch.stepOk))).2.safe

theorem one_request_is_used_until_its_cleanup : NoUseAfterFree
    (run (step { maxConns := 12, hasHandler := true } rootLlhttp slashYuarel) (start 3)
      (acceptAt 5 ++ receiveAt (getRequest "/") ++ List.replicate 5 Os.quiet)) :=
  no_connection_is_used_after_its_cleanup _ _ _ _ _ (by decide +kernel)

/-- The parser that fails after a request for `/x`. -/
def garbageLlhttp : Llhttp := scripted [
  (getRequest "/x" ++ ascii "!!", getCallbacks "/x", .failed 6)]

/-- The history after a request for `/x` with two more bytes in the same `recv`,
where llhttp wants a method. -/
def twiceCleaned : Httpd :=
  run (step { maxConns := 12, hasHandler := true } garbageLlhttp slashYuarel) (start 3)
    (acceptAt 5 ++ receiveAt (getRequest "/x" ++ ascii "!!"))

/-- The 404 frees the connection inside its parser, and the error of that parser
frees it once more. -/
theorem a_404_is_cleaned_up_twice : ¬NoUseAfterFree twiceCleaned := by
  intro h
  have hlast : twiceCleaned.trace = twiceCleaned.trace.take 18 ++ [.freed 0] := by
    decide +kernel
  have hfirst : Event.freed 0 ∈ twiceCleaned.trace.take 18 := by decide +kernel
  exact h _ _ _ hlast hfirst

end isere.httpd
