-- The period that polyfill_timer_setTimeout of src/polyfills/quickjs/timer.c
-- gives to xTimerCreate: an int64 delay, divided by the tick and cut to the
-- width of TickType_t.
import Mathlib.Data.Int.ModEq
import Mathlib.Tactic.Common

namespace isere.timers

def configTICK_RATE_HZ : Nat := 1000

/-- The width of `TickType_t`, which depends on the port. -/
inductive TickType
  | bits32
  | bits64
  deriving DecidableEq, Repr

def TickType.width : TickType → Nat
  | .bits32 => 32
  | .bits64 => 64

/-- `(TickType_t)1000 / configTICK_RATE_HZ`. -/
def portTICK_PERIOD_MS (width : Nat) : BitVec width :=
  BitVec.ofNat width 1000 / BitVec.ofNat width configTICK_RATE_HZ

/-- `delay / portTICK_PERIOD_MS`, as the period of `xTimerCreate`. Next to a
32-bit tick the division is one of int64, next to a 64-bit tick one of uint64. -/
def timerPeriod : (tick : TickType) → BitVec 64 → BitVec tick.width
  | .bits32, delay => (delay.sdiv ((portTICK_PERIOD_MS 32).setWidth 64)).setWidth 32
  | .bits64, delay => delay / portTICK_PERIOD_MS 64

/-! ## The period of a delay -/

/-- A tick is a millisecond, so the period is the delay, cut to its low bits. -/
theorem timerPeriod_eq (tick : TickType) (delay : BitVec 64) :
    timerPeriod tick delay = delay.setWidth tick.width := by
  cases tick with
  | bits32 =>
    have hone : (portTICK_PERIOD_MS 32).setWidth 64 = 1#64 := by decide
    simp [timerPeriod, hone, TickType.width]
  | bits64 =>
    have hone : portTICK_PERIOD_MS 64 = 1#64 := by decide
    simp [timerPeriod, hone, TickType.width]

theorem timerPeriod_toNat (tick : TickType) (delay : BitVec 64) :
    ((timerPeriod tick delay).toNat : Int) = delay.toInt % 2 ^ tick.width := by
  rw [timerPeriod_eq, BitVec.toNat_setWidth, BitVec.toInt_eq_toNat_cond]
  cases tick <;> simp only [TickType.width] <;> split <;> omega

/-! ## The law -/

/-- The period of a delay is at least one tick, no shorter than the one of any
delay from 0 up to it, the same for every negative delay, and the delay itself if
that is a number of ticks that `TickType_t` holds. -/
structure PeriodOk (tick : TickType) (delay : BitVec 64) : Prop where
  positive : 1 ≤ (timerPeriod tick delay).toNat
  monotone : ∀ d : BitVec 64, 0 ≤ d.toInt → d.toInt ≤ delay.toInt →
    (timerPeriod tick d).toNat ≤ (timerPeriod tick delay).toNat
  negative : delay.toInt < 0 → timerPeriod tick delay = timerPeriod tick 0
  corresponds : 1 ≤ delay.toInt → delay.toInt < 2 ^ tick.width →
    ((timerPeriod tick delay).toNat : Int) = delay.toInt

/-- The longest delay that a 32-bit tick holds. -/
theorem longest_period {delay : BitVec 64} (h : 2 ^ TickType.bits32.width ≤ delay.toInt) :
    ∃ d : BitVec 64, 0 ≤ d.toInt ∧ d.toInt ≤ delay.toInt ∧
      ((timerPeriod .bits32 d).toNat : Int) = 2 ^ TickType.bits32.width - 1 := by
  refine ⟨0xFFFFFFFF#64, by decide, ?_, by decide⟩
  have hmax : (0xFFFFFFFF#64).toInt = 2 ^ TickType.bits32.width - 1 := by decide
  omega

theorem pow_width_pos (tick : TickType) : (1 : Int) < 2 ^ tick.width := by
  cases tick <;> decide

theorem PeriodOk.one_le {tick : TickType} {delay : BitVec 64} (h : PeriodOk tick delay) :
    1 ≤ delay.toInt := by
  have hpos := h.positive
  have hmod := timerPeriod_toNat tick delay
  rcases Int.lt_trichotomy delay.toInt 0 with hneg | hzero | hone
  · have hsame := h.negative hneg
    have h0 := timerPeriod_toNat tick 0
    rw [← hsame] at h0
    have hz : (0 : BitVec 64).toInt = 0 := by decide
    rw [hz, Int.zero_emod] at h0
    omega
  · rw [hzero, Int.zero_emod] at hmod
    omega
  · omega

/-- A delay that is too long for the tick can only wrap around to its last value. -/
theorem PeriodOk.last {tick : TickType} {delay : BitVec 64} (h : PeriodOk tick delay)
    (hlong : 2 ^ tick.width ≤ delay.toInt) : delay.toInt % 2 ^ tick.width = 2 ^ tick.width - 1 := by
  have hmod := timerPeriod_toNat tick delay
  have hpow := pow_width_pos tick
  cases tick with
  | bits32 =>
    obtain ⟨d, h0, hle, hd⟩ := longest_period hlong
    have hmono := h.monotone d h0 hle
    have hlt := Int.emod_lt_of_pos delay.toInt (Int.lt_trans Int.zero_lt_one hpow)
    omega
  | bits64 =>
    have hlt := delay.toInt_lt
    simp only [TickType.width] at hlong
    omega

/-- The period of a delay that the tick holds is the delay. -/
theorem timerPeriod_of_fits {tick : TickType} {delay : BitVec 64} (h0 : 0 ≤ delay.toInt)
    (hfits : delay.toInt < 2 ^ tick.width) :
    ((timerPeriod tick delay).toNat : Int) = delay.toInt := by
  rw [timerPeriod_toNat, Int.emod_eq_of_lt h0 hfits]

theorem periodOk_of_fits {tick : TickType} {delay : BitVec 64} (hone : 1 ≤ delay.toInt)
    (hfits : delay.toInt < 2 ^ tick.width) : PeriodOk tick delay := by
  have hperiod := timerPeriod_of_fits (by omega) hfits
  refine ⟨by omega, ?_, fun hneg => absurd hneg (by omega), fun _ _ => hperiod⟩
  intro d h0 hle
  have hd := timerPeriod_of_fits h0 (Int.lt_of_le_of_lt hle hfits)
  omega

theorem periodOk_of_last {tick : TickType} {delay : BitVec 64} (hone : 1 ≤ delay.toInt)
    (hlast : delay.toInt % 2 ^ tick.width = 2 ^ tick.width - 1) : PeriodOk tick delay := by
  have hpow := pow_width_pos tick
  have hperiod := (timerPeriod_toNat tick delay).trans hlast
  refine ⟨by omega, ?_, fun hneg => absurd hneg (by omega), ?_⟩
  · intro d h0 hle
    have hd := timerPeriod_toNat tick d
    have hlt := Int.emod_lt_of_pos d.toInt (Int.lt_trans Int.zero_lt_one hpow)
    omega
  · exact fun _ hfits => timerPeriod_of_fits (by omega) hfits

/-- The period is as it should be just for the delays from one tick up to the
largest `TickType_t`, and for those that wrap around to that one. -/
theorem the_period_is_right_iff (tick : TickType) (delay : BitVec 64) : PeriodOk tick delay ↔
    1 ≤ delay.toInt ∧ (delay.toInt < 2 ^ tick.width ∨
      delay.toInt % 2 ^ tick.width = 2 ^ tick.width - 1) := by
  constructor
  · intro h
    refine ⟨h.one_le, ?_⟩
    by_cases hfits : delay.toInt < 2 ^ tick.width
    · exact Or.inl hfits
    · exact Or.inr (h.last (Int.not_lt.mp hfits))
  · rintro ⟨hone, hfits | hlast⟩
    · exact periodOk_of_fits hone hfits
    · exact periodOk_of_last hone hlast

/-- `setTimeout(f, 0)`, and `setTimeout(f)`: the period is 0, which xTimerCreate
asserts it is not. -/
theorem a_delay_of_zero_has_no_period :
    ¬ ∀ (tick : TickType) (delay : BitVec 64), PeriodOk tick delay :=
  fun h => absurd (h .bits32 0).positive (by decide)

end isere.timers
