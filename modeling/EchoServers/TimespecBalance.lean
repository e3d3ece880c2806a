import EchoServers.TimeUtils
import Mathlib.Algebra.Ring.Int.Defs
import Mathlib.Algebra.Ring.Nat

namespace EchoServers.TimespecBalance

open EchoServers.TimeUtils

/-- The instant a timespec stands for, in nanoseconds. -/
def value (ts : Timespec) : Int :=
  ts.tvSec.toInt * 1000000000 + ts.tvNsec.toInt

/-- What `timespec_rebalance` calls balanced: less than a second of
nanoseconds, and no two signs. -/
structure Balanced (ts : Timespec) : Prop where
  lower : -1000000000 < ts.tvNsec.toInt
  upper : ts.tvNsec.toInt < 1000000000
  sign : (0 ≤ ts.tvSec.toInt ∧ 0 ≤ ts.tvNsec.toInt) ∨
    (ts.tvSec.toInt ≤ 0 ∧ ts.tvNsec.toInt ≤ 0)

/-- Seconds and nanoseconds of one sign are the quotient and the remainder of
the instant. -/
theorem Balanced.eq_of_value_eq {a b : Timespec} (ha : Balanced a) (hb : Balanced b)
    (h : value a = value b) : a = b := by
  have hala := ha.lower
  have haup := ha.upper
  have hblo := hb.lower
  have hbup := hb.upper
  have hsigns := ha.sign
  have hsigns' := hb.sign
  unfold value at h
  have hsec : a.tvSec.toInt = b.tvSec.toInt := by omega
  have hnsec : a.tvNsec.toInt = b.tvNsec.toInt := by omega
  cases a
  cases b
  simp only [Timespec.mk.injEq]
  exact ⟨Int64.toInt_inj.mp hsec, Int64.toInt_inj.mp hnsec⟩

section Words

theorem toInt_number10E9 : number10E9.toInt = 1000000000 := by decide

theorem toInt_add_of_bounds {a b : Int64} (hlow : -(2 ^ 63) ≤ a.toInt + b.toInt)
    (hhigh : a.toInt + b.toInt < 2 ^ 63) : (a + b).toInt = a.toInt + b.toInt := by
  rw [Int64.toInt_add]
  exact Int.bmod_eq_of_le (by omega) (by omega)

theorem toInt_sub_of_bounds {a b : Int64} (hlow : -(2 ^ 63) ≤ a.toInt - b.toInt)
    (hhigh : a.toInt - b.toInt < 2 ^ 63) : (a - b).toInt = a.toInt - b.toInt := by
  rw [Int64.toInt_sub]
  exact Int.bmod_eq_of_le (by omega) (by omega)

theorem toInt_ne_zero {a : Int64} (h : a ≠ 0) : a.toInt ≠ 0 :=
  fun hzero => h (Int64.toInt_inj.mp hzero)

end Words

section Rebalance

variable {ts : Timespec}

/-- The quotient `tv_nsec / NUMBER_10E9`, before it is stored in an `int`. -/
def quotient (ts : Timespec) : Int :=
  ts.tvNsec.toInt.tdiv 1000000000

theorem quotient_spec (ts : Timespec) :
    ts.tvNsec.toInt =
      quotient ts * 1000000000 + ts.tvNsec.toInt.tmod 1000000000 := by
  have h := Int.mul_tdiv_add_tmod ts.tvNsec.toInt 1000000000
  unfold quotient
  omega

/-- The seconds after `ts->tv_sec += hole_parts`. -/
def wholeSeconds (ts : Timespec) : Int64 :=
  ts.tvSec + (ts.tvNsec / number10E9).toInt32.toInt64

/-- The quotient as the `int` holds it. -/
theorem toInt_holeParts (ts : Timespec) :
    (ts.tvNsec / number10E9).toInt32.toInt64.toInt = (quotient ts).bmod (2 ^ 32) := by
  rw [Int32.toInt_toInt64, Int64.toInt_toInt32,
    Int64.toInt_div_of_ne_right _ _ (by decide), toInt_number10E9, quotient]

theorem toInt_wholeSeconds (ts : Timespec) :
    (wholeSeconds ts).toInt =
      (ts.tvSec.toInt + (quotient ts).bmod (2 ^ 32)).bmod (2 ^ 64) := by
  rw [wholeSeconds, Int64.toInt_add, toInt_holeParts]

theorem toInt_remainder (ts : Timespec) :
    (ts.tvNsec % number10E9).toInt = ts.tvNsec.toInt.tmod 1000000000 := by
  rw [Int64.toInt_mod, toInt_number10E9]

theorem remainder_bounds (ts : Timespec) :
    -1000000000 < ts.tvNsec.toInt.tmod 1000000000 ∧
      ts.tvNsec.toInt.tmod 1000000000 < 1000000000 :=
  ⟨Int.lt_tmod_of_pos _ (by decide), Int.tmod_lt_of_pos _ (by decide)⟩

/-- Whatever the seconds have become, the last part of the function keeps the
instant they make with the remainder and balances it. -/
theorem timespecRebalance_spec (ts : Timespec) :
    value (timespecRebalance ts) =
      (wholeSeconds ts).toInt * 1000000000 + ts.tvNsec.toInt.tmod 1000000000 ∧
    Balanced (timespecRebalance ts) := by
  have hrem := toInt_remainder ts
  have hbounds := remainder_bounds ts
  have hlow := (wholeSeconds ts).le_toInt
  have hhigh := (wholeSeconds ts).toInt_lt
  rw [← hrem] at hbounds ⊢
  have hdef : timespecRebalance ts =
      if wholeSeconds ts = 0 ∨ ts.tvNsec % number10E9 = 0 then
        ⟨wholeSeconds ts, ts.tvNsec % number10E9⟩
      else if decide (wholeSeconds ts < 0) = decide (ts.tvNsec % number10E9 < 0) then
        ⟨wholeSeconds ts, ts.tvNsec % number10E9⟩
      else if decide (ts.tvNsec % number10E9 < 0) = true then
        ⟨wholeSeconds ts - 1, ts.tvNsec % number10E9 + number10E9⟩
      else
        ⟨wholeSeconds ts + 1, ts.tvNsec % number10E9 - number10E9⟩ := rfl
  rw [hdef]
  generalize wholeSeconds ts = sec at hlow hhigh ⊢
  generalize ts.tvNsec % number10E9 = nsec at hbounds ⊢
  have hone : (1 : Int64).toInt = 1 := by decide
  have hzero : (0 : Int64).toInt = 0 := by decide
  split
  · rename_i h
    refine ⟨rfl, hbounds.1, hbounds.2, ?_⟩
    rcases h with rfl | rfl <;> simp only [hzero] <;> omega
  · rename_i h
    rw [not_or] at h
    have hsec := toInt_ne_zero h.1
    have hnsec := toInt_ne_zero h.2
    simp only [Int64.lt_iff_toInt_lt, hzero]
    split
    · rename_i hsigns
      rw [decide_eq_decide] at hsigns
      refine ⟨rfl, hbounds.1, hbounds.2, ?_⟩
      dsimp only
      omega
    · rename_i hsigns
      rw [decide_eq_decide] at hsigns
      split
      · rename_i hnegative
        rw [decide_eq_true_eq] at hnegative
        have hs : (sec - 1).toInt = sec.toInt - 1 := by
          rw [toInt_sub_of_bounds (by rw [hone]; omega) (by rw [hone]; omega), hone]
        have hn : (nsec + number10E9).toInt = nsec.toInt + 1000000000 := by
          rw [toInt_add_of_bounds (by rw [toInt_number10E9]; omega)
            (by rw [toInt_number10E9]; omega), toInt_number10E9]
        refine ⟨?_, ?_, ?_, ?_⟩
        · simp only [value, hs, hn]
          omega
        all_goals
          simp only [hs, hn]
          omega
      · rename_i hpositive
        rw [decide_eq_true_eq] at hpositive
        have hs : (sec + 1).toInt = sec.toInt + 1 := by
          rw [toInt_add_of_bounds (by rw [hone]; omega) (by rw [hone]; omega), hone]
        have hn : (nsec - number10E9).toInt = nsec.toInt - 1000000000 := by
          rw [toInt_sub_of_bounds (by rw [toInt_number10E9]; omega)
            (by rw [toInt_number10E9]; omega), toInt_number10E9]
        refine ⟨?_, ?_, ?_, ?_⟩
        · simp only [value, hs, hn]
          omega
        all_goals
          simp only [hs, hn]
          omega

theorem balanced_timespecRebalance (ts : Timespec) : Balanced (timespecRebalance ts) :=
  (timespecRebalance_spec ts).2

theorem quotient_bounds (ts : Timespec) :
    -9223372038 < quotient ts ∧ quotient ts < 9223372038 := by
  have hlow := ts.tvNsec.le_toInt
  have hhigh := ts.tvNsec.toInt_lt
  have hspec := quotient_spec ts
  have hbounds := remainder_bounds ts
  omega

/-- The quotient survives its conversion to `int`. -/
def NarrowQuotient (ts : Timespec) : Prop :=
  -(2 ^ 31) ≤ quotient ts ∧ quotient ts < 2 ^ 31

/-- The seconds with the quotient added fit their type. -/
def SecondsFit (ts : Timespec) : Prop :=
  -(2 ^ 63) ≤ ts.tvSec.toInt + quotient ts ∧ ts.tvSec.toInt + quotient ts < 2 ^ 63

/-- Narrowing changes the quotient by a multiple of `2 ^ 32`, and neither
another overflow nor the remainder makes up for it. -/
theorem value_eq_iff (hfit : SecondsFit ts) :
    value (timespecRebalance ts) = value ts ↔ NarrowQuotient ts := by
  obtain ⟨hlow, hhigh⟩ := hfit
  have hvalue : value ts =
      (ts.tvSec.toInt + quotient ts) * 1000000000 + ts.tvNsec.toInt.tmod 1000000000 := by
    have hspec := quotient_spec ts
    unfold value
    omega
  rw [(timespecRebalance_spec ts).1, hvalue, toInt_wholeSeconds]
  have hq := quotient_bounds ts
  constructor
  · intro h
    have hlower := Int.le_bmod (x := quotient ts) (m := 2 ^ 32) (by decide)
    have hupper := Int.bmod_lt (x := quotient ts) (m := 2 ^ 32) (by decide)
    have hsum := Int.bmod_add_bdiv
      (ts.tvSec.toInt + (quotient ts).bmod (2 ^ 32)) (2 ^ 64)
    -- the two quotients differ by a multiple of `2 ^ 64`, and both are small
    have hsame : (quotient ts).bmod (2 ^ 32) = quotient ts := by omega
    unfold NarrowQuotient
    omega
  · intro h
    rw [Int.bmod_eq_of_le (m := 2 ^ 32) (by unfold NarrowQuotient at h; omega)
      (by unfold NarrowQuotient at h; omega), Int.bmod_eq_of_le (by omega) (by omega)]

/-- A balanced timespec has no whole second to move. -/
theorem timespecRebalance_of_balanced (h : Balanced ts) : timespecRebalance ts = ts := by
  have hlower := h.lower
  have hupper := h.upper
  have hquotient : quotient ts = 0 := by
    unfold quotient
    rcases Int.le_total 0 ts.tvNsec.toInt with hsign | hsign
    · exact Int.tdiv_eq_zero_of_lt hsign hupper
    · rw [← Int.neg_neg ts.tvNsec.toInt, Int.neg_tdiv,
        Int.tdiv_eq_zero_of_lt (by omega) (by omega), Int.neg_zero]
  have hfit : SecondsFit ts := by
    have hlow := ts.tvSec.le_toInt
    have hhigh := ts.tvSec.toInt_lt
    unfold SecondsFit
    omega
  have hnarrow : NarrowQuotient ts := by
    unfold NarrowQuotient
    omega
  exact (balanced_timespecRebalance ts).eq_of_value_eq h ((value_eq_iff hfit).mpr hnarrow)

/-- `r` is the balanced form of `ts`: the same instant, balanced, the only
such timespec, and left alone by another rebalancing. -/
structure Rebalances (ts r : Timespec) : Prop where
  value_eq : value r = value ts
  balanced : Balanced r
  unique : ∀ u, Balanced u → value u = value ts → u = r
  idempotent : timespecRebalance r = r

/-- The instant is preserved exactly as far as the quotient fits the `int`
it is stored in. -/
theorem rebalances_iff (hfit : SecondsFit ts) :
    Rebalances ts (timespecRebalance ts) ↔ NarrowQuotient ts := by
  constructor
  · intro h
    exact (value_eq_iff hfit).mp h.value_eq
  · intro hnarrow
    have hvalue := (value_eq_iff hfit).mpr hnarrow
    have hbalanced := balanced_timespecRebalance ts
    refine ⟨hvalue, hbalanced, ?_, timespecRebalance_of_balanced hbalanced⟩
    intro u hu hsame
    exact hu.eq_of_value_eq hbalanced (hsame.trans hvalue.symm)

theorem rebalances_iff_mixed :
    Rebalances { tvSec := 2, tvNsec := -1300000000 }
        (timespecRebalance { tvSec := 2, tvNsec := -1300000000 }) ↔
      NarrowQuotient { tvSec := 2, tvNsec := -1300000000 } := by
  apply rebalances_iff
  unfold SecondsFit
  decide

/-- From `2 ^ 31` whole seconds of nanoseconds on, the narrowed quotient has
another value. -/
theorem not_rebalances :
    ¬ ∀ ts, SecondsFit ts → Rebalances ts (timespecRebalance ts) := by
  intro h
  have hfit : SecondsFit { tvSec := 0, tvNsec := 2147483648000000000 } := by
    unfold SecondsFit
    decide
  have hvalue := (h _ hfit).value_eq
  revert hvalue
  decide

end Rebalance

end EchoServers.TimespecBalance
