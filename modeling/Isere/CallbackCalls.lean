-- A handler that calls cb more than once. Each call writes over the pointers that
-- it sets and leaves the others, and the cleanup frees what the last one left.
import Isere.ResponseBlocks
import Mathlib.Data.List.Nodup

open cstring

namespace isere.httpd

/-! ## What the calls should leave -/

/-- A block behind one of the pointers. -/
def Owned.Holds (o : Owned) (b : Block) : Prop :=
  some b ∈ o.headerNames ∨ some b ∈ o.headerValues ∨ o.body = some b

/-- The pointers of `o'` are pointers of `o`, or lead to blocks that the calls
from `first` up to `last` made after `o`. -/
structure Grows (first last : Nat) (o o' : Owned) : Prop where
  le : o.allocated ≤ o'.allocated
  made : ∀ b, o'.Holds b → o.Holds b ∨ (o.allocated ≤ b.id ∧ first ≤ b.call ∧ b.call < last)

theorem Grows.refl (first last : Nat) (o : Owned) : Grows first last o o :=
  ⟨Nat.le_refl _, fun _ h => Or.inl h⟩

theorem Grows.trans {first last first' last' : Nat} {o o1 o' : Owned} (h : Grows first last o o1)
    (h' : Grows first' last' o1 o') (hf : first ≤ first') (hl : last ≤ last') :
    Grows first last' o o' := by
  refine ⟨h.le.trans h'.le, fun b hb => ?_⟩
  have hle := h.le
  rcases h'.made b hb with hold | ⟨hid, hfirst, hlast⟩
  · rcases h.made b hold with hold | ⟨hid, hfirst, hlast⟩
    · exact Or.inl hold
    · exact Or.inr ⟨hid, hfirst, by omega⟩
  · exact Or.inr ⟨by omega, by omega, hlast⟩

/-- Nothing is stored yet but a status. -/
def Owned.Clean (o : Owned) : Prop :=
  ∃ completed statusCode statusCall,
    o = { Owned.initial with
      completed := completed, statusCode := statusCode, statusCall := statusCall }

end isere.httpd
