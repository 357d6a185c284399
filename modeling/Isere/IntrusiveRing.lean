-- Circular doubly linked lists whose nodes live inside other objects. A ring
-- through a head holds each of its members once, and every step of it can be
-- walked back.
import Mathlib.Data.List.Chain
import Mathlib.Data.List.Nodup
import Mathlib.Logic.Function.Basic
import Mathlib.Tactic.Tauto

namespace intrusive

variable {α : Type}

/-- The two pointer fields of every node, by the address of the node. -/
structure Links (α : Type) where
  next : α → α
  prev : α → α

/-- Write the `next` field of `a`. -/
def Links.setNext [DecidableEq α] (m : Links α) (a b : α) : Links α :=
  { m with next := Function.update m.next a b }

/-- Write the `prev` field of `a`. -/
def Links.setPrev [DecidableEq α] (m : Links α) (a b : α) : Links α :=
  { m with prev := Function.update m.prev a b }

@[simp] theorem setNext_next [DecidableEq α] (m : Links α) (a b x : α) :
    (m.setNext a b).next x = if x = a then b else m.next x := by
  simp [Links.setNext, Function.update_apply]

@[simp] theorem setNext_prev [DecidableEq α] (m : Links α) (a b : α) :
    (m.setNext a b).prev = m.prev := rfl

@[simp] theorem setPrev_prev [DecidableEq α] (m : Links α) (a b x : α) :
    (m.setPrev a b).prev x = if x = a then b else m.prev x := by
  simp [Links.setPrev, Function.update_apply]

@[simp] theorem setPrev_next [DecidableEq α] (m : Links α) (a b : α) :
    (m.setPrev a b).next = m.next := rfl

/-- Node `b` comes right after node `a`, and right before it on the way back. -/
def Link (m : Links α) (a b : α) : Prop := m.next a = b ∧ m.prev b = a

/-- The ring through `h` holds the nodes of `l`, in this order, each once. -/
structure Ring (m : Links α) (h : α) (l : List α) : Prop where
  nodup : (h :: l).Nodup
  chain : List.IsChain (Link m) (h :: l ++ [h])

/-- A node that points at itself: a ring with no member, and in no other ring. -/
def Alone (m : Links α) (q : α) : Prop := m.next q = q ∧ m.prev q = q

/-! ## Frames -/

/-- A chain reads the `next` field of all nodes but the last, and the `prev`
field of all nodes but the first. -/
theorem chain_congr {m m' : Links α} {a : α} {l : List α}
    (h : List.IsChain (Link m) (a :: l))
    (hn : ∀ x ∈ (a :: l).dropLast, m'.next x = m.next x)
    (hp : ∀ x ∈ l, m'.prev x = m.prev x) : List.IsChain (Link m') (a :: l) := by
  induction l generalizing a with
  | nil => exact List.isChain_singleton a
  | cons b l ih =>
    rw [List.isChain_cons_cons] at h ⊢
    obtain ⟨hab, hbl⟩ := h
    refine ⟨⟨?_, ?_⟩, ?_⟩
    · rw [hn a (by simp [List.dropLast_cons_cons])]
      exact hab.1
    · rw [hp b (by simp)]
      exact hab.2
    · apply ih hbl
      · intro x hx
        exact hn x (by rw [List.dropLast_cons_cons]; exact List.mem_cons_of_mem _ hx)
      · intro x hx
        exact hp x (List.mem_cons_of_mem _ hx)

/-- A ring only depends on the fields of its own nodes. -/
theorem Ring.congr {m m' : Links α} {h : α} {l : List α} (r : Ring m h l)
    (hn : ∀ x ∈ h :: l, m'.next x = m.next x) (hp : ∀ x ∈ h :: l, m'.prev x = m.prev x) :
    Ring m' h l := by
  refine ⟨r.nodup, chain_congr r.chain ?_ ?_⟩
  · intro x hx
    rw [show h :: l.append [h] = (h :: l) ++ [h] from rfl, List.dropLast_concat] at hx
    exact hn x hx
  · intro x hx
    apply hp
    simpa [or_comm] using hx

/-! ## What a ring says of its nodes -/

theorem ring_nil_iff {m : Links α} {h : α} : Ring m h [] ↔ Alone m h := by
  constructor
  · rintro ⟨_, hc⟩
    exact (List.isChain_cons_cons.mp hc).1
  · intro ha
    exact ⟨List.nodup_singleton h, List.isChain_cons_cons.mpr ⟨ha, List.isChain_singleton h⟩⟩

theorem Ring.next_head {m : Links α} {h q : α} {l : List α} (r : Ring m h (q :: l)) :
    m.next h = q := (List.isChain_cons_cons.mp r.chain).1.1

/-- The head points at itself just when the ring is empty. -/
theorem Ring.next_head_eq_iff {m : Links α} {h : α} {l : List α} (r : Ring m h l) :
    m.next h = h ↔ l = [] := by
  cases l with
  | nil => simpa using (ring_nil_iff.mp r).1
  | cons q l =>
    have hne : q ≠ h := fun he => by simpa [he] using r.nodup
    simp [r.next_head, hne]

/-- The last node of the ring comes right before the head. -/
theorem Ring.link_last {m : Links α} {h : α} {l : List α} (r : Ring m h l) :
    Link m ((h :: l).getLast (List.cons_ne_nil h l)) h :=
  (List.isChain_append.mp r.chain).2.2 _ (List.getLast_mem_getLast? _) h (by simp)

/-- Around a member of a ring: the node before it, and the node after it. -/
theorem Ring.neighbours {m : Links α} {h q : α} {l1 l2 : List α} (r : Ring m h (l1 ++ q :: l2)) :
    Link m ((h :: l1).getLast (List.cons_ne_nil h l1)) q ∧
      Link m q ((l2 ++ [h]).head (by simp)) := by
  have hc := r.chain
  rw [show h :: (l1 ++ q :: l2) ++ [h] = (h :: l1) ++ q :: (l2 ++ [h]) by simp] at hc
  obtain ⟨hl, hr⟩ := List.isChain_split.mp hc
  constructor
  · exact (List.isChain_append.mp hl).2.2 _ (List.getLast_mem_getLast? _) q (by simp)
  · exact (List.isChain_cons.mp hr).1 _ (List.head_mem_head? _)

/-- No member of a ring points at itself. -/
theorem Ring.next_ne_self {m : Links α} {h q : α} {l : List α} (r : Ring m h l) (hq : q ∈ l) :
    m.next q ≠ q := by
  obtain ⟨l1, l2, rfl⟩ := List.append_of_mem hq
  have hmem : (l2 ++ [h]).head (by simp) ∈ l2 ++ [h] := List.head_mem _
  rw [r.neighbours.2.1]
  intro he
  have hnd := r.nodup
  rw [he, List.mem_append, List.mem_singleton] at hmem
  rcases hmem with hm | hm
  · simp [List.nodup_append, hm] at hnd
  · simp [hm] at hnd

/-- `next` and `prev` undo each other on the nodes of a ring. -/
theorem Ring.inverse {m : Links α} {h q : α} {l : List α} (r : Ring m h l) (hq : q ∈ h :: l) :
    m.prev (m.next q) = q ∧ m.next (m.prev q) = q := by
  rcases List.mem_cons.mp hq with rfl | hq
  · have hlast := r.link_last
    rw [hlast.2, hlast.1]
    refine ⟨?_, rfl⟩
    cases l with
    | nil => rw [(ring_nil_iff.mp r).1, (ring_nil_iff.mp r).2]
    | cons a l =>
      have hfirst := (List.isChain_cons_cons.mp r.chain).1
      rw [hfirst.1, hfirst.2]
  · obtain ⟨l1, l2, rfl⟩ := List.append_of_mem hq
    obtain ⟨hpq, hqs⟩ := r.neighbours
    rw [hqs.1, hqs.2, hpq.2, hpq.1]
    exact ⟨rfl, rfl⟩

/-- The fields of a node of a ring point into the ring. -/
theorem Ring.closed {m : Links α} {h q : α} {l : List α} (r : Ring m h l) (hq : q ∈ h :: l) :
    m.next q ∈ h :: l ∧ m.prev q ∈ h :: l := by
  rcases List.mem_cons.mp hq with rfl | hq
  · constructor
    · cases l with
      | nil => simp [(ring_nil_iff.mp r).1]
      | cons a l => simp [r.next_head]
    · rw [r.link_last.2]
      exact List.getLast_mem _
  · obtain ⟨l1, l2, rfl⟩ := List.append_of_mem hq
    obtain ⟨hpq, hqs⟩ := r.neighbours
    constructor
    · have hmem := List.head_mem (l := l2 ++ [h]) (by simp)
      rw [hqs.1]
      simp only [List.mem_append, List.mem_cons] at hmem ⊢
      tauto
    · have hmem := List.getLast_mem (List.cons_ne_nil h l1)
      rw [hpq.2]
      simp only [List.mem_append, List.mem_cons] at hmem ⊢
      tauto

/-! ## Growing and shrinking a ring -/

variable [DecidableEq α]

/-- Pointers that put a new node between the last node and the head add it at
the end of the ring. -/
theorem Ring.insert {m m' : Links α} {h q : α} {l : List α} (r : Ring m h l) (hq : q ∉ h :: l)
    (hn : ∀ x, m'.next x = if x = m.prev h then q else if x = q then h else m.next x)
    (hp : ∀ x, m'.prev x = if x = h then q else if x = q then m.prev h else m.prev x) :
    Ring m' h (l ++ [q]) := by
  have hlast := r.link_last.2
  have hmem := List.getLast_mem (List.cons_ne_nil h l)
  have hnd : (h :: (l ++ [q])).Nodup := by
    rw [← List.cons_append]
    exact List.nodup_append.mpr ⟨r.nodup, List.nodup_singleton q,
      fun a ha b hb he => hq (by simp at hb; rw [← hb, ← he]; exact ha)⟩
  refine ⟨hnd, ?_⟩
  rw [show h :: (l ++ [q]) ++ [h] = (h :: l) ++ [q, h] by simp]
  apply List.isChain_append.mpr
  refine ⟨?_, ?_, ?_⟩
  · -- up to the old last node nothing changed
    apply chain_congr (List.isChain_append.mp r.chain).1
    · intro x hx
      have hxl : x ≠ m.prev h := by
        rw [hlast]
        rintro rfl
        have hcat := List.dropLast_concat_getLast (List.cons_ne_nil h l)
        have hd := r.nodup
        rw [← hcat] at hd
        exact (List.nodup_append.mp hd).2.2 _ hx _ (by simp) rfl
      have hxq : x ≠ q := fun he => hq (he ▸ (List.dropLast_sublist _).subset hx)
      rw [hn, if_neg hxl, if_neg hxq]
    · intro x hx
      have hxh : x ≠ h := fun he => (List.nodup_cons.mp r.nodup).1 (he ▸ hx)
      have hxq : x ≠ q := fun he => hq (he ▸ List.mem_cons_of_mem h hx)
      rw [hp, if_neg hxh, if_neg hxq]
  · have hqh : q ≠ h := fun he => hq (by simp [he])
    have hql : q ≠ m.prev h := by
      rw [hlast]
      exact fun he => hq (he ▸ hmem)
    refine List.isChain_cons_cons.mpr ⟨⟨?_, ?_⟩, List.isChain_singleton h⟩
    · rw [hn, if_neg hql, if_pos rfl]
    · rw [hp, if_pos rfl]
  · intro x hx y hy
    obtain rfl : q = y := by simpa using hy
    have hqh : q ≠ h := fun he => hq (by simp [he])
    have hx : x = m.prev h := by
      rw [hlast]
      exact (List.getLast_of_mem_getLast? hx).symm
    refine ⟨?_, ?_⟩
    · rw [hn, if_pos hx]
    · rw [hp, if_neg hqh, if_pos rfl, hx]

/-- Pointers that join the neighbours of a member take it out of the ring. -/
theorem Ring.unlink {m m' : Links α} {h q : α} {l1 l2 : List α}
    (r : Ring m h (l1 ++ q :: l2))
    (hn : ∀ x, m'.next x = if x = m.prev q then m.next q else m.next x)
    (hp : ∀ x, m'.prev x = if x = m.next q then m.prev q else m.prev x) :
    Ring m' h (l1 ++ l2) := by
  obtain ⟨hpq, hqs⟩ := r.neighbours
  have hnd : (h :: (l1 ++ l2)).Nodup := by
    refine r.nodup.sublist ?_
    exact (List.Sublist.append (List.Sublist.refl l1) (List.sublist_cons_self q l2)).cons_cons h
  have hsplit : ((h :: l1) ++ l2).Nodup := hnd
  have hbefore : ((h :: l1).dropLast ++ [(h :: l1).getLast (List.cons_ne_nil h l1)]).Nodup := by
    rw [List.dropLast_concat_getLast]
    exact (List.nodup_append.mp hsplit).1
  have hafter : (l2 ++ [h]).Nodup := by
    rw [List.nodup_append]
    refine ⟨(List.nodup_append.mp hsplit).2.1, List.nodup_singleton h, ?_⟩
    intro a ha b hb he
    rw [List.mem_singleton] at hb
    exact (List.nodup_append.mp hsplit).2.2 h (by simp) a ha (by rw [← hb, he])
  have hpmem := List.getLast_mem (List.cons_ne_nil h l1)
  rw [hpq.2, hqs.1] at hn hp
  generalize hlast : (h :: l1).getLast (List.cons_ne_nil h l1) = p at *
  obtain ⟨s, t, hst⟩ := List.exists_cons_of_ne_nil (show l2 ++ [h] ≠ [] by simp)
  have hs : (l2 ++ [h]).head (by simp) = s := by simp [hst]
  rw [hs] at hn hp
  have hc := r.chain
  rw [show h :: (l1 ++ q :: l2) ++ [h] = (h :: l1) ++ q :: (l2 ++ [h]) by simp] at hc
  obtain ⟨hl, hr⟩ := List.isChain_split.mp hc
  refine ⟨hnd, ?_⟩
  rw [show h :: (l1 ++ l2) ++ [h] = (h :: l1) ++ (l2 ++ [h]) by simp]
  apply List.isChain_append.mpr
  refine ⟨?_, ?_, ?_⟩
  · apply chain_congr (List.isChain_append.mp hl).1
    · intro x hx
      have hxp : x ≠ p := (List.nodup_append.mp hbefore).2.2 x hx p (by simp)
      rw [hn, if_neg hxp]
    · intro x hx
      have hxs : x ≠ s := by
        rintro rfl
        have hm : x ∈ l2 ++ [h] := by simp [hst]
        rcases List.mem_append.mp hm with hm | hm
        · exact (List.nodup_append.mp hsplit).2.2 x (List.mem_cons_of_mem h hx) x hm rfl
        · rw [List.mem_singleton] at hm
          exact (List.nodup_cons.mp (List.nodup_append.mp hsplit).1).1 (hm ▸ hx)
      rw [hp, if_neg hxs]
  · rw [hst] at hr hafter ⊢
    apply chain_congr (List.isChain_cons_cons.mp hr).2
    · intro x hx
      have hxl : x ∈ l2 := by
        rwa [← hst, List.dropLast_concat] at hx
      have hxp : x ≠ p := fun he => (List.nodup_append.mp hsplit).2.2 p hpmem x hxl he.symm
      rw [hn, if_neg hxp]
    · intro x hx
      have hxs : x ≠ s := fun he => (List.nodup_cons.mp hafter).1 (he ▸ hx)
      rw [hp, if_neg hxs]
  · intro x hx y hy
    obtain rfl : p = x := hlast ▸ List.getLast_of_mem_getLast? hx
    obtain rfl : s = y := by simpa [hst] using hy
    exact ⟨by rw [hn, if_pos rfl], by rw [hp, if_pos rfl]⟩

end intrusive
