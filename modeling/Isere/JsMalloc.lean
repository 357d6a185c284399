-- The allocator that QuickJS gets (`js_def_malloc`, `js_def_realloc`, `js_def_free`),
-- and what its account knows of the blocks that live.
import Isere.Runs
import Mathlib.Data.BitVec
import Mathlib.Data.Fintype.Card

open runs

namespace isere.quickjs

variable {w : Nat}

/-! ## The three functions, with a `size_t` and a pointer of `w` bits -/

structure JSMallocState (w : Nat) where
  mallocCount : BitVec w
  mallocSize : BitVec w
  mallocLimit : BitVec w
deriving DecidableEq

/-- A block that the heap has handed out, with the size that was asked for. -/
structure Block (w : Nat) where
  ptr : BitVec w
  size : BitVec w
deriving DecidableEq

/-- The account that the functions keep, and the blocks that live. -/
structure Memory (w : Nat) where
  s : JSMallocState w
  live : List (Block w)
deriving DecidableEq

def NULL : BitVec w := 0#w

def MALLOC_OVERHEAD : BitVec w := 0#w

def jsDefMallocUsableSize (_ptr : BitVec w) : BitVec w := 0#w

/-- `pvPortMalloc` calls the `malloc` of the C library, which answers `answer`. -/
def pvPortMalloc (live : List (Block w)) (size answer : BitVec w) : List (Block w) :=
  if answer = NULL then live else ⟨answer, size⟩ :: live

def vPortFree (live : List (Block w)) (ptr : BitVec w) : List (Block w) :=
  live.eraseP (fun b => b.ptr = ptr)

/-- `realloc` leaves the old block as it is when it answers `NULL`. -/
def pvPortRealloc (live : List (Block w)) (pv xWantedSize answer : BitVec w) : List (Block w) :=
  if answer = NULL then live else ⟨answer, xWantedSize⟩ :: vPortFree live pv

def jsDefMalloc (m : Memory w) (size answer : BitVec w) : Memory w × BitVec w :=
  if size = 0#w then (m, NULL)
  else if m.s.mallocSize + size > m.s.mallocLimit then (m, NULL)
  else
    let m := { m with live := pvPortMalloc m.live size answer }
    if answer = NULL then (m, NULL)
    else
      ({ m with s := { m.s with
          mallocCount := m.s.mallocCount + 1
          mallocSize := m.s.mallocSize + (jsDefMallocUsableSize answer + MALLOC_OVERHEAD) } },
        answer)

def jsDefFree (m : Memory w) (ptr : BitVec w) : Memory w :=
  if ptr = NULL then m
  else
    { s := { m.s with
        mallocCount := m.s.mallocCount - 1
        mallocSize := m.s.mallocSize - (jsDefMallocUsableSize ptr + MALLOC_OVERHEAD) }
      live := vPortFree m.live ptr }

def jsDefRealloc (m : Memory w) (ptr size answer : BitVec w) : Memory w × BitVec w :=
  if ptr = NULL then
    if size = 0#w then (m, NULL) else jsDefMalloc m size answer
  else
    let oldSize := jsDefMallocUsableSize ptr
    if size = 0#w then
      ({ s := { m.s with
          mallocCount := m.s.mallocCount - 1
          mallocSize := m.s.mallocSize - (oldSize + MALLOC_OVERHEAD) }
         live := vPortFree m.live ptr }, NULL)
    else if m.s.mallocSize + size - oldSize > m.s.mallocLimit then (m, NULL)
    else
      let m := { m with live := pvPortRealloc m.live ptr size answer }
      if answer = NULL then (m, NULL)
      else
        ({ m with s := { m.s with
            mallocSize := m.s.mallocSize + (jsDefMallocUsableSize answer - oldSize) } },
          answer)

/-! ## The calls that QuickJS makes -/

/-- A call of the engine, with the answer of the C library if it is asked. -/
inductive AllocCall (w : Nat) where
  | malloc (size answer : BitVec w)
  | realloc (ptr size answer : BitVec w)
  | free (ptr : BitVec w)
deriving DecidableEq

def Memory.call (m : Memory w) : AllocCall w → Memory w × BitVec w
  | .malloc size answer => jsDefMalloc m size answer
  | .realloc ptr size answer => jsDefRealloc m ptr size answer
  | .free ptr => (jsDefFree m ptr, NULL)

def Memory.step (m : Memory w) (c : AllocCall w) : Memory w := (m.call c).1

def Memory.Lives (m : Memory w) (ptr : BitVec w) : Prop := ptr ∈ m.live.map Block.ptr

/-- The engine frees and moves what lives, and a new block lies where none lives. -/
def Allowed (m : Memory w) : AllocCall w → Prop
  | .malloc _ answer => ¬ m.Lives answer
  | .realloc ptr _ answer => (ptr = NULL ∨ m.Lives ptr) ∧ (answer = ptr ∨ ¬ m.Lives answer)
  | .free ptr => ptr = NULL ∨ m.Lives ptr

/-- A new runtime has no block, and may have any limit. -/
def fresh (mallocLimit : BitVec w) : Memory w := ⟨⟨0#w, 0#w, mallocLimit⟩, []⟩

/-! ## What the account is for -/

/-- The number of bytes in the blocks that live. -/
def Memory.total (m : Memory w) : Nat := (m.live.map fun b => b.size.toNat).sum

structure Accounts (m : Memory w) : Prop where
  count : m.s.mallocCount.toNat = m.live.length
  size : m.s.mallocSize.toNat = m.total
  limit : m.total ≤ m.s.mallocLimit.toNat

/-- A `realloc` that gives no block though one was asked for changes nothing. -/
def FailedReallocKeeps (m : Memory w) : AllocCall w → Prop
  | .realloc ptr size answer =>
    size ≠ 0#w → (jsDefRealloc m ptr size answer).2 = NULL →
      (jsDefRealloc m ptr size answer).1 = m
  | _ => True

/-- With nothing in the account, the call gets a new block. -/
def Obtains (mallocLimit : BitVec w) : AllocCall w → Prop
  | .malloc size answer => size ≠ 0#w ∧ size ≤ mallocLimit ∧ answer ≠ NULL
  | .realloc ptr size answer => ptr = NULL ∧ size ≠ 0#w ∧ size ≤ mallocLimit ∧ answer ≠ NULL
  | .free _ => False

/-! ## What every call keeps -/

/-- The account counts the blocks, which lie apart, and knows nothing of their sizes. -/
structure Counted (m : Memory w) : Prop where
  count : m.s.mallocCount = BitVec.ofNat w m.live.length
  size : m.s.mallocSize = 0#w
  apart : (NULL :: m.live.map Block.ptr).Nodup

theorem fresh_counted (mallocLimit : BitVec w) : Counted (fresh mallocLimit) where
  count := by simp [fresh]
  size := by simp [fresh]
  apart := by simp [fresh]

@[simp] theorem fresh_lives (mallocLimit ptr : BitVec w) : ¬ (fresh mallocLimit).Lives ptr := by
  simp [fresh, Memory.Lives]

theorem vPortFree_ptrs (live : List (Block w)) (ptr : BitVec w) :
    (vPortFree live ptr).map Block.ptr = (live.map Block.ptr).erase ptr := by
  have hp : (fun b : Block w => decide (b.ptr = ptr)) = (ptr == ·) ∘ Block.ptr := by
    funext b
    simp [Bool.beq_eq_decide_eq, eq_comm]
  rw [List.erase_eq_eraseP, List.eraseP_map, vPortFree, hp]

theorem vPortFree_length {live : List (Block w)} {ptr : BitVec w}
    (h : ptr ∈ live.map Block.ptr) : (vPortFree live ptr).length = live.length - 1 := by
  rw [← List.length_map Block.ptr, vPortFree_ptrs, List.length_erase_of_mem h, List.length_map]

/-- The number of the blocks fits a `size_t`, as each has an address of its own. -/
theorem Counted.length_lt {m : Memory w} (h : Counted m) : m.live.length < 2 ^ w := by
  have hnodup := h.apart.map BitVec.toFin_injective
  have hle := hnodup.length_le_card
  rw [Fintype.card_fin, List.length_map, List.length_cons, List.length_map] at hle
  exact Nat.lt_of_succ_le hle

theorem Counted.toNat_count {m : Memory w} (h : Counted m) :
    m.s.mallocCount.toNat = m.live.length := by
  rw [h.count, BitVec.toNat_ofNat, Nat.mod_eq_of_lt h.length_lt]

/-- The memory with one more block. -/
def Memory.taken (m : Memory w) (size answer : BitVec w) : Memory w where
  s := { m.s with mallocCount := m.s.mallocCount + 1 }
  live := ⟨answer, size⟩ :: m.live

def Memory.released (m : Memory w) (ptr : BitVec w) : Memory w where
  s := { m.s with mallocCount := m.s.mallocCount - 1 }
  live := vPortFree m.live ptr

/-- The memory with a block in the place of another. -/
def Memory.moved (m : Memory w) (ptr size answer : BitVec w) : Memory w where
  s := m.s
  live := ⟨answer, size⟩ :: vPortFree m.live ptr

theorem jsDefMalloc_cases {m : Memory w} (h : m.s.mallocSize = 0#w) (size answer : BitVec w) :
    (Obtains m.s.mallocLimit (.malloc size answer) ∧
      jsDefMalloc m size answer = (m.taken size answer, answer)) ∨
    (¬ Obtains m.s.mallocLimit (.malloc size answer) ∧ jsDefMalloc m size answer = (m, NULL)) := by
  unfold jsDefMalloc Obtains pvPortMalloc
  by_cases hsize : size = 0#w
  · exact Or.inr (by simp [hsize])
  by_cases hlimit : size ≤ m.s.mallocLimit
  · have hnot : ¬ m.s.mallocSize + size > m.s.mallocLimit := by
      simpa [h] using hlimit
    by_cases hanswer : answer = NULL
    · exact Or.inr (by simp [hsize, hnot, hanswer])
    · refine Or.inl ⟨⟨hsize, hlimit, hanswer⟩, ?_⟩
      simp [hsize, hnot, hanswer, Memory.taken, jsDefMallocUsableSize, MALLOC_OVERHEAD]
  · have hover : m.s.mallocSize + size > m.s.mallocLimit := by
      simpa [h] using hlimit
    exact Or.inr (by simp [hsize, hover, hlimit])

/-- With no size in the account, a call takes a block, releases one, moves one or does nothing. -/
theorem call_cases {m : Memory w} (h : m.s.mallocSize = 0#w) (c : AllocCall w) :
    (∃ size answer, (c = .malloc size answer ∨ c = .realloc NULL size answer) ∧
      Obtains m.s.mallocLimit c ∧ m.call c = (m.taken size answer, answer)) ∨
    (¬ Obtains m.s.mallocLimit c ∧ m.call c = (m, NULL)) ∨
    (∃ ptr, (c = .free ptr ∨ ∃ answer, c = .realloc ptr 0#w answer) ∧ ptr ≠ NULL ∧
      m.call c = (m.released ptr, NULL)) ∨
    ∃ ptr size answer, c = .realloc ptr size answer ∧ ptr ≠ NULL ∧ size ≠ 0#w ∧ answer ≠ NULL ∧
      m.call c = (m.moved ptr size answer, answer) := by
  cases c with
  | malloc size answer =>
    rcases jsDefMalloc_cases h size answer with ⟨hobtains, heq⟩ | ⟨hnot, heq⟩
    · exact Or.inl ⟨size, answer, Or.inl rfl, hobtains, heq⟩
    · exact Or.inr (Or.inl ⟨hnot, heq⟩)
  | free ptr =>
    by_cases hptr : ptr = NULL
    · exact Or.inr (Or.inl ⟨not_false, by simp [Memory.call, jsDefFree, hptr]⟩)
    · refine Or.inr (Or.inr (Or.inl ⟨ptr, Or.inl rfl, hptr, ?_⟩))
      simp [Memory.call, jsDefFree, hptr, Memory.released, jsDefMallocUsableSize, MALLOC_OVERHEAD]
  | realloc ptr size answer =>
    by_cases hptr : ptr = NULL
    · subst hptr
      by_cases hsize : size = 0#w
      · refine Or.inr (Or.inl ⟨fun hobtains => hobtains.2.1 hsize, ?_⟩)
        simp [Memory.call, jsDefRealloc, hsize]
      · have hcall : m.call (.realloc NULL size answer) = jsDefMalloc m size answer := by
          simp [Memory.call, jsDefRealloc, hsize]
        rw [hcall]
        rcases jsDefMalloc_cases h size answer with ⟨hobtains, heq⟩ | ⟨hnot, heq⟩
        · exact Or.inl ⟨size, answer, Or.inr rfl, ⟨rfl, hobtains⟩, heq⟩
        · exact Or.inr (Or.inl ⟨fun hobtains => hnot hobtains.2, heq⟩)
    · have hnot : ¬ Obtains m.s.mallocLimit (.realloc ptr size answer) :=
        fun hobtains => hptr hobtains.1
      by_cases hsize : size = 0#w
      · subst hsize
        refine Or.inr (Or.inr (Or.inl ⟨ptr, Or.inr ⟨answer, rfl⟩, hptr, ?_⟩))
        simp [Memory.call, jsDefRealloc, hptr, Memory.released, jsDefMallocUsableSize,
          MALLOC_OVERHEAD]
      by_cases hlimit : m.s.mallocSize + size > m.s.mallocLimit
      · refine Or.inr (Or.inl ⟨hnot, ?_⟩)
        simp [Memory.call, jsDefRealloc, hptr, hsize, hlimit, jsDefMallocUsableSize]
      by_cases hanswer : answer = NULL
      · refine Or.inr (Or.inl ⟨hnot, ?_⟩)
        simp [Memory.call, jsDefRealloc, hptr, hsize, hlimit, hanswer, pvPortRealloc,
          jsDefMallocUsableSize]
      · refine Or.inr (Or.inr (Or.inr ⟨ptr, size, answer, rfl, hptr, hsize, hanswer, ?_⟩))
        simp [Memory.call, jsDefRealloc, hptr, hsize, hlimit, hanswer, pvPortRealloc, Memory.moved,
          jsDefMallocUsableSize]

theorem Counted.taken {m : Memory w} (h : Counted m) {size answer : BitVec w}
    (hnull : answer ≠ NULL) (hnew : ¬ m.Lives answer) : Counted (m.taken size answer) where
  count := by simp [Memory.taken, h.count, BitVec.ofNat_add]
  size := h.size
  apart := by
    obtain ⟨hnot, hptrs⟩ := List.nodup_cons.mp h.apart
    have hnot' : NULL ∉ answer :: m.live.map Block.ptr := by
      rintro (_ | ⟨_, hmem⟩)
      · exact hnull rfl
      · exact hnot hmem
    exact List.nodup_cons.mpr ⟨hnot', List.nodup_cons.mpr ⟨hnew, hptrs⟩⟩

theorem Counted.released {m : Memory w} (h : Counted m) {ptr : BitVec w} (hlives : m.Lives ptr) :
    Counted (m.released ptr) where
  count := by
    have hpos : 0 < m.live.length := by
      simpa using List.length_pos_of_mem hlives
    have hsucc : m.live.length = (m.live.length - 1) + 1 := by omega
    simp only [Memory.released, vPortFree_length hlives, h.count]
    rw [hsucc, BitVec.ofNat_add]
    simp
  size := h.size
  apart := by
    refine h.apart.sublist ?_
    simp only [Memory.released, vPortFree_ptrs]
    exact (List.erase_sublist).cons_cons NULL

theorem Counted.moved {m : Memory w} (h : Counted m) {ptr size answer : BitVec w}
    (hlives : m.Lives ptr) (hnull : answer ≠ NULL) (hnew : answer = ptr ∨ ¬ m.Lives answer) :
    Counted (m.moved ptr size answer) := by
  have hfree : ¬ (m.released ptr).Lives answer := by
    simp only [Memory.Lives, Memory.released, vPortFree_ptrs]
    rcases hnew with rfl | hnew
    · exact (List.nodup_cons.mp h.apart).2.not_mem_erase
    · exact fun hmem => hnew (List.mem_of_mem_erase hmem)
  have htaken : Counted ((m.released ptr).taken size answer) :=
    (h.released hlives).taken hnull hfree
  refine ⟨?_, h.size, htaken.apart⟩
  simpa [Memory.moved, Memory.taken, Memory.released] using htaken.count

theorem step_counted {m : Memory w} (h : Counted m) {c : AllocCall w} (hok : Allowed m c) :
    Counted (m.step c) := by
  unfold Memory.step
  rcases call_cases h.size c with ⟨size, answer, rfl | rfl, hobtains, heq⟩ | ⟨-, heq⟩ |
    ⟨ptr, rfl | ⟨answer, rfl⟩, hptr, heq⟩ | ⟨ptr, size, answer, rfl, hptr, -, hanswer, heq⟩
  all_goals rw [heq]
  · exact h.taken hobtains.2.2 hok
  · have hnew : ¬ m.Lives answer := hok.2.resolve_left hobtains.2.2.2
    exact h.taken hobtains.2.2.2 hnew
  · exact h
  · exact h.released (hok.resolve_left hptr)
  · exact h.released (hok.1.resolve_left hptr)
  · exact h.moved (hok.1.resolve_left hptr) hanswer hok.2

theorem failedRealloc_keeps {m : Memory w} (h : Counted m) (c : AllocCall w) :
    FailedReallocKeeps m c := by
  cases c with
  | malloc size answer => trivial
  | free ptr => trivial
  | realloc ptr size answer =>
    intro hsize hnull
    change (m.call (.realloc ptr size answer)).2 = NULL at hnull
    change (m.call (.realloc ptr size answer)).1 = m
    rcases call_cases h.size (.realloc ptr size answer) with
      ⟨size', answer', hc | hc, hobtains, heq⟩ | ⟨-, heq⟩ | ⟨ptr', hc | ⟨answer', hc⟩, -, -⟩ |
      ⟨ptr', size', answer', -, -, -, hanswer, heq⟩
    · cases hc
    · cases hc
      rw [heq] at hnull
      exact absurd hnull hobtains.2.2.2
    · rw [heq]
    · cases hc
    · cases hc
      exact absurd rfl hsize
    · rw [heq] at hnull
      exact absurd hnull hanswer

/-- On every run the number of the blocks is right, and a failed `realloc` changes nothing. -/
theorem blocks_are_counted {m : Memory w} (hm : Counted m) {cs : List (AllocCall w)}
    (h : StepsOk Memory.step Allowed m cs) :
    StepsOk Memory.step (fun m c => FailedReallocKeeps m c ∧
      (m.step c).s.mallocCount.toNat = (m.step c).live.length ∧
      (m.step c).s.mallocSize = 0#w) m cs := by
  refine h.with_inv (I := Counted) ?_ hm
  intro m c hcount hok
  have hnext := step_counted hcount hok
  exact ⟨hnext, failedRealloc_keeps hcount c, hnext.toNat_count, hnext.size⟩

/-! ## The law -/

/-- A call that obtains no block finds nothing to change while none lives. -/
theorem fresh_step {mallocLimit : BitVec w} {c : AllocCall w} (hok : Allowed (fresh mallocLimit) c)
    (hnot : ¬ Obtains mallocLimit c) : (fresh mallocLimit).step c = fresh mallocLimit := by
  unfold Memory.step
  rcases call_cases (fresh_counted mallocLimit).size c with ⟨-, -, -, hobtains, -⟩ | ⟨-, heq⟩ |
    ⟨ptr, rfl | ⟨answer, rfl⟩, hptr, -⟩ | ⟨ptr, size, answer, rfl, hptr, -⟩
  · exact absurd hobtains hnot
  · rw [heq]
  · exact absurd (hok.resolve_left hptr) (fresh_lives mallocLimit ptr)
  · exact absurd (hok.1.resolve_left hptr) (fresh_lives mallocLimit ptr)
  · exact absurd (hok.1.resolve_left hptr) (fresh_lives mallocLimit ptr)

theorem fresh_accounts (mallocLimit : BitVec w) : Accounts (fresh mallocLimit) where
  count := by simp [fresh]
  size := by simp [fresh, Memory.total]
  limit := by simp [fresh, Memory.total]

/-- The first block that the engine obtains is missing in the size of the account. -/
theorem obtained_is_missing {mallocLimit : BitVec w} {c : AllocCall w}
    (hobtains : Obtains mallocLimit c) : ¬ Accounts ((fresh mallocLimit).step c) := by
  intro haccounts
  have hsize := haccounts.size
  unfold Memory.step at hsize
  rcases call_cases (fresh_counted mallocLimit).size c with ⟨size, answer, hc, -, heq⟩ |
    ⟨hnot, -⟩ | ⟨ptr, hc, hptr, -⟩ | ⟨ptr, size, answer, rfl, hptr, -⟩
  · have hne : size ≠ 0#w := by
      rcases hc with rfl | rfl
      · exact hobtains.1
      · exact hobtains.2.1
    rw [heq] at hsize
    have hzero : size.toNat = 0 := by
      simpa [Memory.taken, fresh, Memory.total] using hsize.symm
    exact hne (BitVec.eq_of_toNat_eq (by simpa using hzero))
  · exact hnot hobtains
  · rcases hc with rfl | ⟨answer, rfl⟩
    · exact hobtains
    · exact hptr hobtains.1
  · exact hptr hobtains.1

/-- The account is right along a run just if the run never obtains a block. -/
theorem account_is_right_iff {mallocLimit : BitVec w} {cs : List (AllocCall w)}
    (h : StepsOk Memory.step Allowed (fresh mallocLimit) cs) :
    StepsOk Memory.step (fun m c => FailedReallocKeeps m c ∧ Accounts (m.step c))
        (fresh mallocLimit) cs ↔
      ∀ c ∈ cs, ¬ Obtains mallocLimit c := by
  induction cs with
  | nil => simp [StepsOk]
  | cons c cs ih =>
    obtain ⟨hok, hrest⟩ := h
    by_cases hobtains : Obtains mallocLimit c
    · constructor
      · rintro ⟨⟨-, haccounts⟩, -⟩
        exact absurd haccounts (obtained_is_missing hobtains)
      · intro hall
        exact absurd hobtains (hall c List.mem_cons_self)
    · have hstep := fresh_step hok hobtains
      rw [hstep] at hrest
      simp only [StepsOk, hstep, ih hrest, List.forall_mem_cons]
      have hkeeps := failedRealloc_keeps (fresh_counted mallocLimit) c
      have haccounts := fresh_accounts mallocLimit
      exact ⟨fun hrun => ⟨hobtains, hrun.2⟩, fun hall => ⟨⟨hkeeps, haccounts⟩, hall.2⟩⟩

theorem account_of_no_blocks :
    StepsOk Memory.step (fun m c => FailedReallocKeeps m c ∧ Accounts (m.step c))
      (fresh 64#32) [.malloc 0 0, .malloc 65 256, .realloc 0 8 0, .free 0] := by
  refine (account_is_right_iff ?_).mpr ?_
  · simp [StepsOk, Allowed, fresh, Memory.Lives, NULL, Memory.step, Memory.call, jsDefMalloc,
      jsDefRealloc, pvPortMalloc]
  · simp [Obtains, NULL]

/-- With a limit of 64 bytes, two blocks of 64 bytes live. -/
theorem two_blocks_over_the_limit :
    StepsOk Memory.step Allowed (fresh 64#32) [.malloc 64 256, .malloc 64 512] ∧
    ¬ StepsOk Memory.step (fun m c => FailedReallocKeeps m c ∧ Accounts (m.step c))
      (fresh 64#32) [.malloc 64 256, .malloc 64 512] := by
  constructor
  · simp [StepsOk, Allowed, fresh, Memory.Lives, NULL, Memory.step, Memory.call, jsDefMalloc,
      pvPortMalloc]
  · rintro ⟨-, ⟨-, haccounts⟩, -⟩
    have hlimit := haccounts.limit
    revert hlimit
    decide

end isere.quickjs
