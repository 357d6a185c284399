-- The limit on the bytes of a request. The count that __on_poll checks is never
-- raised, so the check passes every chunk, however much came before it.
import Isere.HttpdSteps
import Isere.Received

open cstring isere.tcp isere.uv runs

namespace isere.httpd

/-- The bytes that the parser of a connection was given. -/
def given (s : Httpd) (c : ConnId) : Nat := ((s.conns c).fed.map List.length).sum

/-- The chunk that a call of `__on_poll` receives. -/
def recvChunk (events : Events) (os : Os) : Option Bytes :=
  match os.recv with
  | .data avail =>
    let chunk := avail.take ISERE_HTTPD_LINE_BUFFER_LEN
    if events &&& UV_POLLIN ≠ UV_POLLIN ∨ chunk = [] then none else some chunk
  | _ => none

/-- The chunk that is received in a step, and its connection. -/
def incoming (s : Httpd) (os : Os) : Option (ConnId × Bytes) :=
  match s.phase with
  | .iterating i =>
    match (uvPollSlot s.loop i).2 with
    | some (.conn c, events) => (recvChunk events os).map (fun chunk => (c, chunk))
    | _ => none
  | _ => none

/-- The connection is answered with 413 and closed, and its parser gets nothing. -/
def Refused (s s' : Httpd) (c : ConnId) : Prop :=
  s'.trace = s.trace ++ [.polled c, .wrote c .tooLarge, .closed c, .freed c] ∧
    (s'.conns c).fed = (s.conns c).fed

/-- The step leaves no parser with more than the limit, and refuses a chunk that
would take one past it. -/
def KeepsLimit (cfg : Config) (l : Llhttp) (y : Yuarel) (s : Httpd) (os : Os) : Prop :=
  (∀ c, given (step cfg l y s os) c ≤ ISERE_HTTPD_MAX_HTTP_REQUEST_LEN) ∧
    ∀ c chunk, incoming s os = some (c, chunk) →
      ISERE_HTTPD_MAX_HTTP_REQUEST_LEN < given s c + chunk.length →
        Refused s (step cfg l y s os) c

/-- The chunk that comes in fits, with what came before it. -/
def Fits (s : Httpd) (os : Os) : Prop :=
  ∀ c chunk, incoming s os = some (c, chunk) →
    given s c + chunk.length ≤ ISERE_HTTPD_MAX_HTTP_REQUEST_LEN

/-! ## What a step gives to the parsers -/

/-- The count of a connection stays 0. -/
def NoCount (s : Httpd) : Prop := ∀ c, (s.conns c).recvd = 0

/-- The parsers get nothing, and the counts stay. -/
def SameInput (s s' : Httpd) : Prop :=
  ∀ c, (s'.conns c).fed = (s.conns c).fed ∧ (s'.conns c).recvd = (s.conns c).recvd

theorem SameInput.refl (s : Httpd) : SameInput s s := fun _ => ⟨rfl, rfl⟩

theorem SameInput.trans {s s' s'' : Httpd} (h : SameInput s s') (h' : SameInput s' s'') :
    SameInput s s'' := fun c => ⟨(h' c).1.trans (h c).1, (h' c).2.trans (h c).2⟩

theorem sameInput_cleanup (s : Httpd) (c : ConnId) : SameInput s (httpdCleanupConn s c) := by
  intro d
  by_cases hd : d = c <;> simp [hd]

theorem sameInput_onCallback (cfg : Config) (y : Yuarel) (c : ConnId) (os : Os) (s : Httpd)
    (cb : Callback) : SameInput s (onCallback cfg y c os s cb) := by
  intro d
  by_cases hcb : cb = .messageComplete
  · subst hcb
    cases hgo : cfg.dispatches (s.conns c).req with
    | true =>
      rw [onCallback_dispatch cfg y c os s hgo]
      by_cases hd : d = c <;> simp [hd]
    | false =>
      obtain ⟨a, -, heq⟩ := onCallback_answer cfg y c os s hgo
      rw [heq]
      by_cases hd : d = c <;> simp [hd]
  · rw [onCallback_piece cfg y c os s hcb]
    by_cases hd : d = c <;> simp [Httpd.setReq, hd]

theorem sameInput_callbacks (cfg : Config) (y : Yuarel) (c : ConnId) (os : Os) (s : Httpd)
    (cbs : List Callback) : SameInput s (cbs.foldl (onCallback cfg y c os) s) := by
  induction cbs generalizing s with
  | nil => exact SameInput.refl s
  | cons cb cbs ih => exact (sameInput_onCallback cfg y c os s cb).trans (ih _)

/-- What a step gives to the parser of a connection. -/
def arrived (s : Httpd) (os : Os) (d : ConnId) : List Bytes :=
  match incoming s os with
  | some (c, chunk) => if d = c then [chunk] else []
  | none => []

/-- A chunk is shorter than the limit. -/
theorem recvChunk_fits {events : Events} {os : Os} {chunk : Bytes}
    (h : recvChunk events os = some chunk) : chunk.length ≤ ISERE_HTTPD_MAX_HTTP_REQUEST_LEN := by
  unfold recvChunk at h
  split at h
  · simp only at h
    split at h
    · cases h
    · cases h
      exact (List.length_take_le _ _).trans (by decide)
  · cases h

section Step

variable (cfg : Config) (l : Llhttp) (y : Yuarel)

/-- The state in which the parser of a connection has its next chunk. -/
def giveChunk (s : Httpd) (c : ConnId) (chunk : Bytes) : Httpd :=
  s.setConn c { s.conns c with fed := (s.conns c).fed ++ [chunk] }

theorem sameInput_execute (s : Httpd) (c : ConnId) (os : Os) (chunk : Bytes) :
    SameInput (giveChunk s c chunk) (llhttpExecute cfg l y s c os chunk).1 :=
  sameInput_callbacks cfg y c os _ _

/-- Without a chunk, `__on_poll` gives nothing to a parser. -/
theorem onPoll_nothing {s : Httpd} (c : ConnId) {events : Events} {os : Os}
    (h : recvChunk events os = none) : SameInput s (onPoll cfg l y s c events os) := by
  unfold recvChunk at h
  unfold onPoll
  split
  · exact SameInput.refl s
  · rename_i hev
    simp only
    cases hrecv : os.recv with
    | eintr => exact SameInput.refl s
    | error => exact sameInput_cleanup (s.log (.polled c)) c
    | data avail =>
      simp only [hrecv, hev, false_or, ite_eq_left_iff, reduceCtorEq, imp_false,
        Decidable.not_not] at h
      simp only [h, ↓reduceIte]
      exact sameInput_cleanup (s.log (.polled c)) c

/-- As long as the count is 0, `__on_poll` gives its parser every chunk. -/
theorem onPoll_gives {s : Httpd} (hz : NoCount s) (c : ConnId) {events : Events} {os : Os}
    {chunk : Bytes} (h : recvChunk events os = some chunk) :
    SameInput (giveChunk s c chunk) (onPoll cfg l y s c events os) := by
  have hfits := recvChunk_fits h
  unfold recvChunk at h
  cases hrecv : os.recv with
  | eintr => simp [hrecv] at h
  | error => simp [hrecv] at h
  | data avail =>
    simp only [hrecv, Option.ite_none_left_eq_some, not_or, Decidable.not_not] at h
    obtain ⟨⟨hev, hne⟩, hchunk⟩ := h
    cases hchunk
    have hcount : ¬(s.conns c).recvd +
        ((avail.take ISERE_HTTPD_LINE_BUFFER_LEN).length : Int) >
          ISERE_HTTPD_MAX_HTTP_REQUEST_LEN := by
      rw [hz c]
      omega
    have hexec := sameInput_execute cfg l y (s.log (.polled c)) c os
      (avail.take ISERE_HTTPD_LINE_BUFFER_LEN)
    unfold onPoll
    simp only [hev, hrecv, hne, ne_eq, not_true_eq_false, ↓reduceIte, log_conns, hcount]
    split
    · exact hexec.trans (sameInput_cleanup _ c)
    · exact hexec

theorem sameInput_accept {s : Httpd} (hr : ReceivedOk l y s) (hz : NoCount s) (events : Events)
    (os : Os) : SameInput s (onConnected cfg s events os) := by
  rcases onConnected_cases cfg s events os with heq | ⟨-, -, heq⟩
  · rw [heq]
    exact SameInput.refl s
  · rw [heq]
    intro d
    by_cases hd : d = s.nextConn
    · subst hd
      rw [addConn_conns_self, (hr.fresh s.nextConn (Nat.le_refl _)).1, hz]
      exact ⟨rfl, rfl⟩
    · rw [addConn_conns_other s hd]
      exact ⟨rfl, rfl⟩

theorem sameInput_pollingStep (s : Httpd) (c : ConnId) (os : Os) :
    SameInput s (pollingStep s c os) := by
  have hpolled : SameInput s (polledJs s c os) := by
    intro d
    by_cases hd : d = c <;> simp [polledJs, Httpd.setResponse, hd]
  rcases pollingStep_cases s c os with ⟨-, -, heq⟩ | ⟨-, -, heq⟩ | heq
  · rw [heq]
    exact hpolled.trans (sameInput_cleanup (polledJs s c os) c)
  · rw [heq]
    exact hpolled
  · rw [heq]
    exact hpolled.trans (sameInput_cleanup ((polledJs s c os).log _) c)

/-- A step gives the parsers the chunk that comes in, and nothing else. -/
theorem step_input {s : Httpd} (hr : ReceivedOk l y s) (hz : NoCount s) (os : Os) (d : ConnId) :
    ((step cfg l y s os).conns d).recvd = 0 ∧
      ((step cfg l y s os).conns d).fed = (s.conns d).fed ++ arrived s os d := by
  have hsame : ∀ s', incoming s os = none → SameInput s s' →
      (s'.conns d).recvd = 0 ∧ (s'.conns d).fed = (s.conns d).fed ++ arrived s os d := by
    intro s' hin hs'
    unfold arrived
    rw [(hs' d).1, (hs' d).2, hin, hz d]
    simp
  unfold step
  cases hs : s.phase with
  | loop =>
    apply hsame _ (by simp [incoming, hs])
    simp only
    split
    · exact fun _ => ⟨rfl, rfl⟩
    · obtain ⟨loop, p, heq, -, -⟩ := pollStep_moves cfg s os
      rw [heq]
      exact fun _ => ⟨rfl, rfl⟩
  | iterating i =>
    simp only [slotStep]
    split
    · rename_i hlast
      refine hsame _ ?_ (fun _ => ⟨rfl, rfl⟩)
      simp [incoming, hs, uvPollSlot, List.getElem?_eq_none hlast]
    · cases hcall : (uvPollSlot s.loop i).2 with
      | none => exact hsame _ (by simp [incoming, hs, hcall]) (fun _ => ⟨rfl, rfl⟩)
      | some r =>
        obtain ⟨w, events⟩ := r
        have htable : ReceivedOk l y { s with
            loop := (uvPollSlot s.loop i).1, phase := .iterating (i + 1) } :=
          hr.quiet (.of_same rfl rfl rfl
            (fun _ _ hw => (uvPollSlot_same s.loop i).watchers ▸ hw))
        cases w with
        | server =>
          exact hsame _ (by simp [incoming, hs, hcall])
            (sameInput_accept cfg l y htable hz events os)
        | conn c =>
          cases hchunk : recvChunk events os with
          | none =>
            exact hsame _ (by simp [incoming, hs, hcall, hchunk])
              (onPoll_nothing cfg l y (s := { s with
                loop := (uvPollSlot s.loop i).1, phase := .iterating (i + 1) }) c hchunk)
          | some chunk =>
            obtain ⟨hfed, hrecvd⟩ := onPoll_gives cfg l y (s := { s with
              loop := (uvPollSlot s.loop i).1, phase := .iterating (i + 1) }) hz c hchunk d
            rw [hfed, hrecvd]
            by_cases hd : d = c
            · simp [giveChunk, arrived, incoming, hs, hcall, hchunk, hd, hz c]
            · simp [giveChunk, arrived, incoming, hs, hcall, hchunk, hd, hz d]
  | drain =>
    apply hsame _ (by simp [incoming, hs])
    obtain ⟨q, p, heq, -⟩ := drainStep_moves s
    rw [heq]
    exact fun _ => ⟨rfl, rfl⟩
  | polling c => exact hsame _ (by simp [incoming, hs]) (sameInput_pollingStep s c os)
  | exited => exact hsame s (by simp [incoming, hs]) (SameInput.refl s)

/-! ## A run -/

/-- What every run keeps as long as each chunk fits. -/
structure LimitOk (s : Httpd) : Prop where
  received : ReceivedOk l y s
  noCount : NoCount s
  limit : ∀ c, given s c ≤ ISERE_HTTPD_MAX_HTTP_REQUEST_LEN

theorem given_step {s : Httpd} (h : LimitOk l y s) (os : Os) (c : ConnId) :
    given (step cfg l y s os) c = given s c + ((arrived s os c).map List.length).sum := by
  unfold given
  rw [(step_input cfg l y h.received h.noCount os c).2, List.map_append, List.sum_append]

/-- A step keeps the limit just when its chunk fits. -/
theorem keepsLimit_iff_fits {s : Httpd} (h : LimitOk l y s) (os : Os) :
    KeepsLimit cfg l y s os ↔ Fits s os := by
  constructor
  · rintro ⟨hlimit, -⟩ c chunk hin
    have hc := hlimit c
    rw [given_step cfg l y h os c] at hc
    simpa [arrived, hin] using hc
  · intro hfits
    refine ⟨fun c => ?_, fun c chunk hin hover => ?_⟩
    · rw [given_step cfg l y h os c]
      have hold := h.limit c
      unfold arrived
      split
      · rename_i d chunk hin
        split
        · rename_i hcd
          subst hcd
          simpa using hfits c chunk hin
        · simpa using hold
      · simpa using hold
    · exact absurd (hfits c chunk hin) (Nat.not_le.mpr hover)

theorem LimitOk.step {s : Httpd} (h : LimitOk l y s) {os : Os} (hk : KeepsLimit cfg l y s os) :
    LimitOk l y (step cfg l y s os) where
  received := step_received h.received os
  noCount c := (step_input cfg l y h.received h.noCount os c).1
  limit := hk.1

/-- A run keeps the limit on what the parsers are given, and answers 413 past
it, exactly when every chunk fits. -/
theorem every_parser_is_within_the_limit_iff (serverfd : Nat) (is : List Os) :
    StepsOk (step cfg l y) (KeepsLimit cfg l y) (start serverfd) is ↔
      StepsOk (step cfg l y) Fits (start serverfd) is := by
  have hstart : LimitOk l y (start serverfd) :=
    ⟨start_received serverfd, fun _ => rfl, fun _ => Nat.zero_le _⟩
  constructor
  · intro h
    refine h.with_inv (I := LimitOk l y) (fun s os hs hk => ?_) hstart
    exact ⟨hs.step cfg l y hk, (keepsLimit_iff_fits cfg l y hs os).mp hk⟩
  · intro h
    refine h.with_inv (I := LimitOk l y) (fun s os hs hf => ?_) hstart
    have hk := (keepsLimit_iff_fits cfg l y hs os).mpr hf
    exact ⟨hs.step cfg l y hk, hk⟩

/-- A run that keeps the limit ends within it. -/
theorem given_le {serverfd : Nat} {is : List Os}
    (h : StepsOk (step cfg l y) (KeepsLimit cfg l y) (start serverfd) is) (c : ConnId) :
    given (run (step cfg l y) (start serverfd) is) c ≤ ISERE_HTTPD_MAX_HTTP_REQUEST_LEN := by
  refine run_inv (I := fun s => given s c ≤ ISERE_HTTPD_MAX_HTTP_REQUEST_LEN)
    (fun s os _ hk => hk.1 c) ?_ h
  exact Nat.zero_le _

end Step

/-- The head of a request with a body of 10000 bytes. -/
def postHead : Bytes := ascii "POST / HTTP/1.1\r\nContent-Length: 10000\r\n\r\n"

/-- A piece of the body, as long as the buffer of `recv`. -/
def bodyPiece : Bytes := List.replicate 64 97

/-- What llhttp reports for the head, and for each piece. -/
def postLlhttp : Llhttp := scripted [
  (postHead, [.method (ascii "POST"), .methodComplete, .url (ascii "/"), .urlComplete,
    .headerField (ascii "Content-Length"), .headerFieldComplete,
    .headerValue (ascii "10000"), .headerValueComplete, .headersComplete], .HPE_OK),
  (bodyPiece, [.body bodyPiece], .HPE_OK)]

/-- A client that sends the head, and then so many pieces of the body. -/
def post (pieces : Nat) : List Os :=
  acceptAt 5 ++
    (postHead :: List.replicate pieces bodyPiece).flatMap
      (fun chunk => receiveAt chunk ++ [Os.quiet, Os.quiet])

/-- With 156 pieces of the body the parser has 10026 bytes, and the limit is 10000. -/
theorem a_long_request_is_parsed : ¬∀ (cfg : Config) (l : Llhttp) (y : Yuarel) (serverfd : Nat)
    (is : List Os), StepsOk (step cfg l y) (KeepsLimit cfg l y) (start serverfd) is := by
  intro h
  have hle := given_le _ _ _
    (h { maxConns := 12, hasHandler := true } postLlhttp slashYuarel 3 (post 156)) 0
  exact absurd hle (by decide +kernel)

end isere.httpd
