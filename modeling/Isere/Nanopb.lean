-- The calls of nanopb that src/otel.c makes. The library is not part of the
-- repository: a successful call appends its encoding to the stream, and
-- `pb_encode_submessage` calls the callbacks of the message in between.
import Isere.CString
import Isere.Emitter

open cstring emitter

namespace isere.otel

/-- The fields of the messages that the task sends. -/
inductive Field
  | attributes | key | value | stringValue
  | metrics | name | description | unit | gauge | sum | dataPoints
  | aggregationTemporality | isMonotonic
  | startTimeUnixNano | timeUnixNano | asInt
  deriving DecidableEq, Repr

/-- A value in a field of a message that is no callback. -/
inductive Value
  | fixed64 (v : UInt64)
  | int64 (v : Int64)
  | enum (v : Nat)
  | bool (v : Bool)
  deriving DecidableEq

/-- Proto3 leaves such a value out, unless its field is one of several. -/
def Value.isDefault : Value → Bool
  | .fixed64 v => v = 0
  | .int64 v => v = 0
  | .enum v => v = 0
  | .bool v => !v

inductive Token
  | tag (f : Field)
  | string (s : Bytes)
  | value (f : Field) (v : Value)
  | opened
  | closed
  deriving DecidableEq

/-- A field of a message, in the order of the message. A callback gets the stream and its field;
its argument is part of it here. -/
inductive MessageField (σ : Type)
  | callback (f : Field) (encode : Field → Writer σ)
  | singular (f : Field) (v : Value)
  | oneof (f : Field) (v : Value)

structure NanopbCalls (σ : Type) where
  pbEncodeTagForField : Field → Writer σ
  pbEncodeString : Bytes → Writer σ
  pbEncodeSubmessage : List (MessageField σ) → Writer σ

/-- What the field of a message emits, if its callback emits `P`. -/
def FieldEmits {σ : Type} (o : Observer σ Token) : MessageField σ → (List Token → Prop) → Prop
  | .callback f encode, P => Emits o (encode f) P
  | .singular f v, P => P = (fun ts => ts = if v.isDefault then [] else [.value f v])
  | .oneof f v, P => P = (fun ts => ts = [.value f v])

/-- A message: what its fields emit, between its ends. -/
def Message (Ps : List (List Token → Prop)) (ts : List Token) : Prop :=
  ∃ body, Cats Ps body ∧ ts = .opened :: body ++ [.closed]

/-- The calls, with what is documented of them. -/
structure Nanopb (σ : Type) extends NanopbCalls σ, Observer σ Token where
  tag_emits : ∀ f, Emits toObserver (pbEncodeTagForField f) (fun ts => ts = [.tag f])
  string_emits : ∀ s, Emits toObserver (pbEncodeString s) (fun ts => ts = [.string s])
  submessage_emits : ∀ fields Ps, List.Forall₂ (FieldEmits toObserver) fields Ps →
    Emits toObserver (pbEncodeSubmessage fields) (Message Ps)

/-! ## A nanopb that encodes a submessage twice

Once to learn its size, and once to write it. -/

/-- A stream, with the number of calls that it has seen. -/
structure Stream where
  calls : Nat
  broken : Bool
  tokens : List Token
  deriving DecidableEq

namespace twoPass

def observer : Observer Stream Token := ⟨Stream.tokens, Stream.broken⟩

/-- One call, which succeeds as `ok` says. -/
def append (ok : Nat → Bool) (ts : List Token) : Writer Stream := fun s =>
  if ok s.calls then (true, { s with calls := s.calls + 1, tokens := s.tokens ++ ts })
  else (false, { s with calls := s.calls + 1, broken := true })

/-- `pb_encode`. -/
def encodeField (ok : Nat → Bool) : MessageField Stream → Writer Stream
  | .callback f encode => encode f
  | .singular f v => if v.isDefault then .done else append ok [.value f v]
  | .oneof f v => append ok [.value f v]

/-- The sizing pass goes to a stream of its own, which is then dropped. -/
def sizing (w : Writer Stream) : Writer Stream := fun s =>
  let r := w { s with tokens := [] }
  (r.1, { r.2 with tokens := s.tokens })

def submessage (ok : Nat → Bool) (fields : List (MessageField Stream)) : Writer Stream :=
  let encode := Writer.all (fields.map (encodeField ok))
  (sizing encode).andThen
    ((append ok [.opened]).andThen (encode.andThen (append ok [.closed])))

theorem append_emits (ok : Nat → Bool) (ts : List Token) :
    Emits observer (append ok ts) (fun ts' => ts' = ts) where
  succeeds := by
    intro s hs
    unfold append at hs ⊢
    cases hok : ok s.calls with
    | false => simp [hok] at hs
    | true => exact ⟨rfl, ts, rfl, rfl⟩
  fails := by
    intro s hs
    unfold append at hs ⊢
    cases hok : ok s.calls with
    | false => rfl
    | true => simp [hok] at hs

theorem encodeField_emits (ok : Nat → Bool) {p : MessageField Stream} {P : List Token → Prop}
    (h : FieldEmits observer p P) : Emits observer (encodeField ok p) P := by
  cases p with
  | callback f encode => exact h
  | singular f v =>
    obtain rfl := h
    unfold encodeField
    by_cases hv : v.isDefault = true
    · simpa [hv] using Emits.done
    · simpa [hv] using append_emits ok [Token.value f v]
  | oneof f v =>
    obtain rfl := h
    exact append_emits ok [Token.value f v]

theorem sizing_emits {w : Writer Stream} {P : List Token → Prop} (h : Emits observer w P) :
    Emits observer (sizing w) (fun ts => ts = []) where
  succeeds := by
    intro s hs
    have hfailed := (h.succeeds { s with tokens := [] } hs).1
    exact ⟨hfailed, [], rfl, by simp [sizing, observer]⟩
  fails := by
    intro s hs
    exact h.fails { s with tokens := [] } hs

theorem submessage_emits (ok : Nat → Bool) {fields : List (MessageField Stream)}
    {Ps : List (List Token → Prop)} (h : List.Forall₂ (FieldEmits observer) fields Ps) :
    Emits observer (submessage ok fields) (Message Ps) := by
  have hall : Emits observer (Writer.all (fields.map (encodeField ok))) (Cats Ps) := by
    apply Emits.all
    rw [List.forall₂_map_left_iff]
    exact h.imp (fun p P hp => encodeField_emits ok hp)
  have hwrite := (append_emits ok [.opened]).andThen (hall.andThen (append_emits ok [.closed]))
  refine ((sizing_emits hall).andThen hwrite).mono ?_
  rintro ts ⟨_, _, rfl, ⟨_, _, rfl, ⟨body, _, hbody, rfl, rfl⟩, rfl⟩, rfl⟩
  exact ⟨body, hbody, by simp⟩

end twoPass

/-- The calls succeed as `ok` says, by their number. -/
def twoPass (ok : Nat → Bool) : Nanopb Stream where
  pbEncodeTagForField f := twoPass.append ok [.tag f]
  pbEncodeString s := twoPass.append ok [.string s]
  pbEncodeSubmessage := twoPass.submessage ok
  toObserver := twoPass.observer
  tag_emits f := twoPass.append_emits ok [.tag f]
  string_emits s := twoPass.append_emits ok [.string s]
  submessage_emits _ _ := twoPass.submessage_emits ok

end isere.otel
