-- yuarel_parse on the target of a request. It cuts the string in its buffer at the
-- first '#' and at the first '?', and puts a NUL over a '/' in front. The test for
-- 404 reads the buffer after that.
import Isere.RequestHead

open cstring

namespace isere.httpd

/-! ## The parser -/

/-- `find_and_terminate`: a NUL over the first `c` of the string, and where the
string after it starts. -/
def findAndTerminate (buf : Bytes) (c : UInt8) : Bytes × Option Nat :=
  let n := ((cstr buf).takeWhile (· ≠ c)).length
  if c ∈ cstr buf then (buf.set n 0, some (n + 1)) else (buf, none)

/-- What `yuarel_parse` leaves of a string with a '/' in front. -/
def relativeUrl (buf : Bytes) : YuarelUrl :=
  let fragment := findAndTerminate buf 35
  let query := findAndTerminate fragment.1 63
  { buf := query.1.set 0 0, path := some 1, query := query.2 }

/-- `yuarel_parse` works in place. A string without a '/' in front keeps its first
byte. -/
structure Yuarel.InPlace (y : Yuarel) : Prop where
  relative : ∀ buf, buf.head? = some 47 → 0 ∈ buf → y.parse buf = relativeUrl buf
  other : ∀ buf, buf.getD 0 0 ≠ 0 → buf.getD 0 0 ≠ 47 → (y.parse buf).buf.getD 0 0 ≠ 0

/-! ## The parts of a target -/

/-- The part of a target before the first '?' or '#'. -/
def targetPath (target : Bytes) : Bytes := target.takeWhile (fun b => b ≠ 63 && b ≠ 35)

/-- The query in the first 255 bytes of a target: what follows the first '?'
before any '#', up to the first '#'. -/
def targetQuery (target : Bytes) : Option Bytes :=
  let s := (target.take (ISERE_HTTPD_MAX_HTTP_PATH_LEN - 1)).takeWhile (· ≠ 35)
  if 63 ∈ s then some ((s.dropWhile (· ≠ 63)).drop 1) else none

example : targetQuery (ascii "/?a=1#top?") = some (ascii "a=1") := by decide

/-! ## One cut -/

theorem split_at_first {s : Bytes} {c : UInt8} (h : c ∈ s) :
    s.dropWhile (· ≠ c) = c :: (s.dropWhile (· ≠ c)).drop 1 := by
  induction s with
  | nil => cases h
  | cons b s ih =>
    by_cases hb : b = c
    · simp [hb]
    · have hs : c ∈ s := (List.mem_cons.mp h).resolve_left (Ne.symm hb)
      simpa [List.dropWhile_cons, hb] using ih hs

/-- A cut leaves the string before the byte, and the one after it behind the
pointer. -/
theorem findAndTerminate_string {s : Bytes} (h : 0 ∉ s) (tail : Bytes) (c : UInt8) :
    (∃ tail', (findAndTerminate (s ++ 0 :: tail) c).1 = s.takeWhile (· ≠ c) ++ 0 :: tail') ∧
      ∀ buf : Bytes, buf.drop 1 = (findAndTerminate (s ++ 0 :: tail) c).1.drop 1 →
        (findAndTerminate (s ++ 0 :: tail) c).2.map (fun i => cstr (buf.drop i)) =
          if c ∈ s then some ((s.dropWhile (· ≠ c)).drop 1) else none := by
  unfold findAndTerminate
  rw [cstr_append_nul h]
  by_cases hc : c ∈ s
  · simp only [hc, ↓reduceIte]
    have hsplit : s = s.takeWhile (· ≠ c) ++ c :: (s.dropWhile (· ≠ c)).drop 1 := by
      rw [← split_at_first hc, List.takeWhile_append_dropWhile]
    generalize ha : s.takeWhile (· ≠ c) = a at hsplit ⊢
    generalize hb : (s.dropWhile (· ≠ c)).drop 1 = b at hsplit ⊢
    have hset : (s ++ 0 :: tail).set a.length 0 = a ++ 0 :: (b ++ 0 :: tail) := by
      rw [hsplit, List.append_assoc, List.set_append_right _ _ (Nat.le_refl _), Nat.sub_self,
        List.cons_append, List.set_cons_zero]
    have hb0 : 0 ∉ b := fun hin => h (by rw [hsplit]; simp [hin])
    rw [hset]
    refine ⟨⟨_, rfl⟩, fun buf hbuf => ?_⟩
    have hdrop : buf.drop (a.length + 1) = b ++ 0 :: tail := by
      rw [Nat.add_comm, ← List.drop_drop, hbuf, List.drop_drop, Nat.add_comm]
      simp
    rw [Option.map_some, hdrop, cstr_append_nul hb0]
  · simp only [hc, ↓reduceIte]
    refine ⟨⟨tail, ?_⟩, fun _ _ => rfl⟩
    rw [List.takeWhile_eq_self_iff.mpr]
    intro b hb
    have hne : b ≠ c := fun he => hc (he ▸ hb)
    simpa using hne

/-! ## The whole parse -/

theorem targetPath_eq (s : Bytes) :
    targetPath s = (s.takeWhile (· ≠ 35)).takeWhile (· ≠ 63) := by
  rw [List.takeWhile_takeWhile]
  unfold targetPath
  congr 1
  funext b
  simp

/-- The string of a target with a '/' in front, after the parse. -/
theorem relativeUrl_string {s : Bytes} (h : 0 ∉ 47 :: s) (tail : Bytes) :
    ∃ path tail', targetPath (47 :: s) = 47 :: path ∧
      (relativeUrl (47 :: s ++ 0 :: tail)).buf = 0 :: (path ++ 0 :: tail') ∧
      (relativeUrl (47 :: s ++ 0 :: tail)).path = some 1 ∧
      (relativeUrl (47 :: s ++ 0 :: tail)).query.map
          (fun i => cstr ((relativeUrl (47 :: s ++ 0 :: tail)).buf.drop i)) =
        if 63 ∈ (47 :: s).takeWhile (· ≠ 35) then
          some ((((47 :: s).takeWhile (· ≠ 35)).dropWhile (· ≠ 63)).drop 1)
        else none := by
  obtain ⟨⟨tail1, hfragment⟩, -⟩ := findAndTerminate_string h tail 35
  have h1 : 0 ∉ (47 :: s).takeWhile (· ≠ 35) := fun hin => h (List.takeWhile_subset _ hin)
  obtain ⟨⟨tail2, hquery⟩, hstring⟩ := findAndTerminate_string h1 tail1 63
  have hpath : ((47 :: s).takeWhile (· ≠ 35)).takeWhile (· ≠ 63) =
      47 :: (s.takeWhile (· ≠ 35)).takeWhile (· ≠ 63) := by
    rw [List.takeWhile_cons_of_pos (by decide), List.takeWhile_cons_of_pos (by decide)]
  refine ⟨_, tail2, (targetPath_eq _).trans hpath, ?_, rfl, ?_⟩
  · simp only [relativeUrl, hfragment, hquery, hpath]
    rfl
  · simp only [relativeUrl, hfragment]
    apply hstring
    rw [List.drop_set_of_lt Nat.zero_lt_one]

/-- The test for 404 passes a buffer whose string is empty, if its second byte is
NUL too. -/
theorem notFound_iff (r : Request) {path tail : Bytes} (h : r.path = 0 :: (path ++ 0 :: tail))
    (h0 : 0 ∉ path) : r.notFound = false ↔ path = [] := by
  unfold Request.notFound
  rw [h]
  cases path with
  | nil => simp
  | cons b path =>
    have hb : b ≠ 0 := fun he => h0 (he ▸ List.mem_cons_self)
    simp [hb]

/-- The path of the bytes that fit the buffer tells that of the whole target. -/
theorem targetPath_take (target path : Bytes)
    (h : targetPath (target.take (ISERE_HTTPD_MAX_HTTP_PATH_LEN - 1)) = 47 :: path) :
    targetPath target = [47] ↔ path = [] := by
  unfold targetPath at h ⊢
  rw [← List.take_takeWhile] at h
  cases hp : target.takeWhile (fun b => b ≠ 63 && b ≠ 35) with
  | nil =>
    rw [hp, List.take_nil] at h
    cases h
  | cons b rest =>
    rw [hp, ISERE_HTTPD_MAX_HTTP_PATH_LEN, List.take_succ_cons, List.cons.injEq] at h
    rw [List.cons.injEq, ← h.2, List.take_eq_nil_iff]
    simp [h.1]

/-- The request that `__on_message_complete` reads, for a target in an empty
buffer: it is found just when the target is for the root, and then its path is
empty and its query is that of the target. -/
theorem onUrlComplete_target {y : Yuarel} (hy : y.InPlace) {target : Bytes} (hne : target ≠ [])
    (h : 0 ∉ target) {r : Request} (hr : r.path = kept ISERE_HTTPD_MAX_HTTP_PATH_LEN target) :
    ((onUrlComplete y r).notFound = false ↔ targetPath target = [47]) ∧
      (targetPath target = [47] → (onUrlComplete y r).handlerArgs.path = some [] ∧
        (onUrlComplete y r).handlerArgs.query = targetQuery target) := by
  obtain ⟨b, rest, rfl⟩ := List.exists_cons_of_ne_nil hne
  have htake : (b :: rest).take (ISERE_HTTPD_MAX_HTTP_PATH_LEN - 1) = b :: rest.take 254 := rfl
  have hkept : ∃ tail, r.path = b :: rest.take 254 ++ 0 :: tail := by
    have hlen : (b :: rest.take 254).length < ISERE_HTTPD_MAX_HTTP_PATH_LEN :=
      Nat.succ_lt_succ (lt_of_le_of_lt (List.length_take_le _ _) (by decide))
    rw [hr, kept, htake, padded_eq hlen]
    exact ⟨_, rfl⟩
  obtain ⟨tail, hpath⟩ := hkept
  by_cases hb : b = 47
  · subst hb
    have hfits : 0 ∉ 47 :: rest.take 254 := by
      rw [← htake]
      exact fun hin => h (List.mem_of_mem_take hin)
    obtain ⟨path, tail', htarget, hbuf, hurl, hquery⟩ := relativeUrl_string hfits tail
    have hparse : y.parse r.path = relativeUrl (47 :: rest.take 254 ++ 0 :: tail) := by
      rw [hpath]
      exact hy.relative _ rfl (by simp)
    have h0 : 0 ∉ path := by
      intro hin
      have hmem : 0 ∈ targetPath (47 :: rest.take 254) := htarget ▸ List.mem_cons_of_mem _ hin
      exact hfits (List.takeWhile_subset _ hmem)
    have hroot := targetPath_take (47 :: rest) path (htake ▸ htarget)
    have hleft : (onUrlComplete y r).path = 0 :: (path ++ 0 :: tail') := by
      simp only [onUrlComplete, hparse, hbuf]
    refine ⟨(notFound_iff _ hleft h0).trans hroot.symm, fun hp => ?_⟩
    rw [hroot] at hp
    subst hp
    constructor
    · simp only [Request.handlerArgs, onUrlComplete, hparse, hurl, hbuf]
      rfl
    · simp only [Request.handlerArgs, onUrlComplete, hparse, hquery, targetQuery, htake]
  · have hb0 : b ≠ 0 := fun he => h (he ▸ List.mem_cons_self)
    have hfirst := hy.other r.path (by rw [hpath]; exact hb0) (by rw [hpath]; exact hb)
    have hnot : targetPath (b :: rest) ≠ [47] := by
      intro he
      unfold targetPath at he
      rw [List.takeWhile_cons] at he
      split at he
      · exact hb (List.cons.inj he).1
      · cases he
    refine ⟨?_, fun he => absurd he hnot⟩
    have hfound : (onUrlComplete y r).notFound = true := by
      unfold Request.notFound
      rw [Bool.or_eq_true]
      exact Or.inl (decide_eq_true hfirst)
    simp [hfound, hnot]

end isere.httpd
