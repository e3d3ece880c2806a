import EchoServers.MeasContainer
import EchoServers.TimespecBalance

namespace EchoServers.TimespecDelta

open EchoServers.MeasContainer
open EchoServers.ServerBenchmark
open EchoServers.TimespecBalance
open EchoServers.TimeUtils

section Checked

/-- A signed sum, if it fits. -/
def checkedAdd (a b : Int64) : Option Int64 :=
  if -(2 ^ 63) ≤ a.toInt + b.toInt ∧ a.toInt + b.toInt < 2 ^ 63 then some (a + b) else none

def checkedSub (a b : Int64) : Option Int64 :=
  if -(2 ^ 63) ≤ a.toInt - b.toInt ∧ a.toInt - b.toInt < 2 ^ 63 then some (a - b) else none

/-- The conversion of a `long` to an `int`, if nothing is lost by it. -/
def checkedNarrow (a : Int64) : Option Int32 :=
  if -(2 ^ 31) ≤ a.toInt ∧ a.toInt < 2 ^ 31 then some a.toInt32 else none

/-- `timespec_rebalance` that stops where a signed operation overflows.  A
division by `NUMBER_10E9` cannot. -/
def timespecRebalanceChecked (ts : Timespec) : Option Timespec := do
  let holeParts ← checkedNarrow (ts.tvNsec / number10E9)
  let tvSec ← checkedAdd ts.tvSec holeParts.toInt64
  let tvNsec := ts.tvNsec % number10E9
  if tvSec = 0 ∨ tvNsec = 0 then
    return ⟨tvSec, tvNsec⟩
  else
    let secNegative := decide (tvSec < 0)
    let nsecNegative := decide (tvNsec < 0)
    if secNegative = nsecNegative then
      return ⟨tvSec, tvNsec⟩
    else if nsecNegative then
      return ⟨← checkedSub tvSec 1, ← checkedAdd tvNsec number10E9⟩
    else
      return ⟨← checkedAdd tvSec 1, ← checkedSub tvNsec number10E9⟩

/-- `time_delta` that stops where a signed operation overflows. -/
def timeDeltaChecked (minuend subtrahend : Timespec) : Option Timespec := do
  let tvSec ← checkedSub minuend.tvSec subtrahend.tvSec
  let tvNsec ← checkedSub minuend.tvNsec subtrahend.tvNsec
  timespecRebalanceChecked ⟨tvSec, tvNsec⟩

variable {a b : Int64} {ts : Timespec}

theorem checkedAdd_eq (hlow : -(2 ^ 63) ≤ a.toInt + b.toInt) (hhigh : a.toInt + b.toInt < 2 ^ 63) :
    checkedAdd a b = some (a + b) :=
  if_pos ⟨hlow, hhigh⟩

theorem checkedSub_eq (hlow : -(2 ^ 63) ≤ a.toInt - b.toInt) (hhigh : a.toInt - b.toInt < 2 ^ 63) :
    checkedSub a b = some (a - b) :=
  if_pos ⟨hlow, hhigh⟩

theorem toInt_quotient (ts : Timespec) : (ts.tvNsec / number10E9).toInt = quotient ts := by
  rw [Int64.toInt_div_of_ne_right _ _ (by decide), toInt_number10E9, quotient]

theorem checkedNarrow_eq (h : NarrowQuotient ts) :
    checkedNarrow (ts.tvNsec / number10E9) = some (ts.tvNsec / number10E9).toInt32 := by
  rw [checkedNarrow, toInt_quotient]
  exact if_pos h

/-- The last part of the function moves one second between fields of two
signs, which cannot overflow. -/
theorem timespecRebalanceChecked_eq (hfit : SecondsFit ts) (hnarrow : NarrowQuotient ts) :
    timespecRebalanceChecked ts = some (timespecRebalance ts) := by
  have hhole := toInt_holeParts ts
  rw [Int.bmod_eq_of_le (m := 2 ^ 32) (by unfold NarrowQuotient at hnarrow; omega)
    (by unfold NarrowQuotient at hnarrow; omega)] at hhole
  have hsum : checkedAdd ts.tvSec (ts.tvNsec / number10E9).toInt32.toInt64 =
      some (wholeSeconds ts) := by
    apply checkedAdd_eq
    · rw [hhole]
      exact hfit.1
    · rw [hhole]
      exact hfit.2
  have hrem := remainder_bounds ts
  rw [← toInt_remainder] at hrem
  have hlow := (wholeSeconds ts).le_toInt
  have hhigh := (wholeSeconds ts).toInt_lt
  have hone : (1 : Int64).toInt = 1 := by decide
  have hbillion := toInt_number10E9
  have hzero : (0 : Int64).toInt = 0 := by decide
  have hunfolded : timespecRebalance ts =
      if wholeSeconds ts = 0 ∨ ts.tvNsec % number10E9 = 0 then
        ⟨wholeSeconds ts, ts.tvNsec % number10E9⟩
      else if decide (wholeSeconds ts < 0) = decide (ts.tvNsec % number10E9 < 0) then
        ⟨wholeSeconds ts, ts.tvNsec % number10E9⟩
      else if decide (ts.tvNsec % number10E9 < 0) = true then
        ⟨wholeSeconds ts - 1, ts.tvNsec % number10E9 + number10E9⟩
      else
        ⟨wholeSeconds ts + 1, ts.tvNsec % number10E9 - number10E9⟩ := rfl
  simp only [timespecRebalanceChecked, checkedNarrow_eq hnarrow, hsum, hunfolded,
    Option.bind_eq_bind, Option.bind_some]
  generalize wholeSeconds ts = sec at hlow hhigh ⊢
  generalize ts.tvNsec % number10E9 = nsec at hrem ⊢
  split
  · rfl
  · rename_i hnonzero
    rw [not_or] at hnonzero
    have hsec := toInt_ne_zero hnonzero.1
    split
    · rfl
    · rename_i hsigns
      simp only [decide_eq_decide, Int64.lt_iff_toInt_lt, hzero] at hsigns
      split
      · rename_i hnegative
        simp only [decide_eq_true_eq, Int64.lt_iff_toInt_lt, hzero] at hnegative
        rw [checkedSub_eq (by omega) (by omega), checkedAdd_eq (by omega) (by omega)]
        rfl
      · rename_i hpositive
        simp only [decide_eq_true_eq, Int64.lt_iff_toInt_lt, hzero] at hpositive
        rw [checkedAdd_eq (by omega) (by omega), checkedSub_eq (by omega) (by omega)]
        rfl

end Checked

section Nanoseconds

theorem toNat_ofInt (x : Int) : ((UInt64.ofInt x).toNat : Int) = x % 2 ^ 64 := by
  have hlow := Int.emod_nonneg x (b := 2 ^ 64) (by decide)
  have hhigh := Int.emod_lt_of_pos x (b := 2 ^ 64) (by decide)
  rw [UInt64.ofInt, UInt64.toNat_ofNat']
  omega

theorem toUInt64_eq (a : Int64) : a.toUInt64 = UInt64.ofInt a.toInt := by
  apply UInt64.toNat_inj.mp
  have hsigned : a.toInt = _ := BitVec.toInt_eq_toNat_cond a.toBitVec
  have hcast := toNat_ofInt a.toInt
  have hnat : a.toUInt64.toNat = a.toBitVec.toNat := rfl
  have hlt := a.toBitVec.isLt
  split at hsigned <;> omega

/-- The wrapped arithmetic computes the instant up to multiples of `2 ^ 64`. -/
theorem timespecToNs_eq (ts : Timespec) : timespecToNs ts = UInt64.ofInt (value ts) := by
  rw [value, UInt64.ofInt_add, UInt64.ofInt_mul, ← toUInt64_eq, ← toUInt64_eq]
  rfl

theorem ofInt_sub (x y : Int) : UInt64.ofInt (x - y) = UInt64.ofInt x - UInt64.ofInt y := by
  rw [Int.sub_eq_add_neg, UInt64.ofInt_add, UInt64.ofInt_neg, UInt64.sub_eq_add_neg]

end Nanoseconds

section Delta

variable {finish start : Timespec}

/-- The seconds of the two lie less than the whole range of an `int64_t` apart. -/
def SecondsApart (minuend subtrahend : Timespec) : Prop :=
  Int64.minValue.toInt < minuend.tvSec.toInt - subtrahend.tvSec.toInt ∧
    minuend.tvSec.toInt - subtrahend.tvSec.toInt < Int64.maxValue.toInt

/-- What `time_delta` hands to `timespec_rebalance`. -/
def difference (minuend subtrahend : Timespec) : Timespec where
  tvSec := minuend.tvSec - subtrahend.tvSec
  tvNsec := minuend.tvNsec - subtrahend.tvNsec

theorem SecondsApart.bounds (h : SecondsApart finish start) :
    -(2 ^ 63) < finish.tvSec.toInt - start.tvSec.toInt ∧
      finish.tvSec.toInt - start.tvSec.toInt < 2 ^ 63 - 1 := by
  have hmin : Int64.minValue.toInt = -(2 ^ 63) := by decide
  have hmax : Int64.maxValue.toInt = 2 ^ 63 - 1 := by decide
  rw [SecondsApart, hmin, hmax] at h
  exact h

theorem toInt_difference_tvSec (h : SecondsApart finish start) :
    (difference finish start).tvSec.toInt = finish.tvSec.toInt - start.tvSec.toInt := by
  obtain ⟨hlow, hhigh⟩ := h.bounds
  exact toInt_sub_of_bounds (by omega) (by omega)

theorem toInt_difference_tvNsec (hf : Balanced finish) (hs : Balanced start) :
    (difference finish start).tvNsec.toInt = finish.tvNsec.toInt - start.tvNsec.toInt := by
  have hflow := hf.lower
  have hfhigh := hf.upper
  have hslow := hs.lower
  have hshigh := hs.upper
  exact toInt_sub_of_bounds (by omega) (by omega)

theorem value_difference (hf : Balanced finish) (hs : Balanced start)
    (h : SecondsApart finish start) :
    value (difference finish start) = value finish - value start := by
  unfold value
  rw [toInt_difference_tvSec h, toInt_difference_tvNsec hf hs]
  omega

/-- The nanoseconds of two balanced timespecs differ by less than two seconds. -/
theorem quotient_difference (hf : Balanced finish) (hs : Balanced start) :
    -1 ≤ quotient (difference finish start) ∧ quotient (difference finish start) ≤ 1 := by
  have hspec := quotient_spec (difference finish start)
  have hbounds := remainder_bounds (difference finish start)
  rw [toInt_difference_tvNsec hf hs] at hspec hbounds
  have hflow := hf.lower
  have hfhigh := hf.upper
  have hslow := hs.lower
  have hshigh := hs.upper
  -- the remainder has the sign of what is divided
  rcases Int.le_total 0 (finish.tvNsec.toInt - start.tvNsec.toInt) with hsign | hsign
  · have hrem := Int.tmod_nonneg 1000000000 hsign
    omega
  · have hrem := Int.tmod_nonneg 1000000000 (Int.neg_nonneg_of_nonpos hsign)
    rw [Int.neg_tmod] at hrem
    omega

theorem narrow_difference (hf : Balanced finish) (hs : Balanced start) :
    NarrowQuotient (difference finish start) := by
  have hquotient := quotient_difference hf hs
  unfold NarrowQuotient
  omega

theorem fit_difference (hf : Balanced finish) (hs : Balanced start)
    (h : SecondsApart finish start) : SecondsFit (difference finish start) := by
  have hquotient := quotient_difference hf hs
  obtain ⟨hlow, hhigh⟩ := h.bounds
  unfold SecondsFit
  rw [toInt_difference_tvSec h]
  omega

theorem timeDeltaChecked_eq (hf : Balanced finish) (hs : Balanced start)
    (h : SecondsApart finish start) :
    timeDeltaChecked finish start = some (timeDelta finish start) := by
  obtain ⟨hlow, hhigh⟩ := h.bounds
  have hflow := hf.lower
  have hfhigh := hf.upper
  have hslow := hs.lower
  have hshigh := hs.upper
  have hchecked :=
    timespecRebalanceChecked_eq (fit_difference hf hs h) (narrow_difference hf hs)
  rw [timeDeltaChecked, checkedSub_eq (by omega) (by omega), Option.bind_eq_bind,
    Option.bind_some, checkedSub_eq (by omega) (by omega), Option.bind_some]
  exact hchecked

theorem value_timeDelta (hf : Balanced finish) (hs : Balanced start)
    (h : SecondsApart finish start) :
    value (timeDelta finish start) = value finish - value start := by
  rw [← value_difference hf hs h]
  exact (value_eq_iff (fit_difference hf hs h)).mpr (narrow_difference hf hs)

/-- The entry that `sb_record_event` appends holds the delta. -/
theorem recorded_delta {bench : ServerBench} {now : Timespec} (hmeasures : bench.doMeasure ≠ 0)
    (hsize : bench.eventLatency.entrySize = measValueHolderSize)
    (hroom : bench.eventLatency.size ≠ bench.eventLatency.capacity) :
    measValueHolderAt (sbRecordEvent bench start finish now).eventLatency
      bench.eventLatency.size = timespecToNs (timeDelta finish start) := by
  rw [sbRecordEvent_of_room hmeasures hsize hroom]
  exact measValueHolderAt_withValue hsize

/-- The delta is the elapsed time, and so is what is recorded of it. -/
structure ExactDelta (finish start : Timespec) : Prop where
  checked : timeDeltaChecked finish start = some (timeDelta finish start)
  balanced : Balanced (timeDelta finish start)
  value_eq : value (timeDelta finish start) = value finish - value start
  ns_eq : timespecToNs (timeDelta finish start) = timespecToNs finish - timespecToNs start
  recorded : value start ≤ value finish → value finish - value start < 2 ^ 64 →
    ∀ (bench : ServerBench) (now : Timespec), bench.doMeasure ≠ 0 →
      bench.eventLatency.entrySize = measValueHolderSize →
      bench.eventLatency.size ≠ bench.eventLatency.capacity →
      ((measValueHolderAt (sbRecordEvent bench start finish now).eventLatency
        bench.eventLatency.size).toNat : Int) = value finish - value start

theorem timeDelta_exact (hf : Balanced finish) (hs : Balanced start)
    (h : SecondsApart finish start) : ExactDelta finish start := by
  have hvalue := value_timeDelta hf hs h
  refine ⟨timeDeltaChecked_eq hf hs h, balanced_timespecRebalance _, hvalue, ?_, ?_⟩
  · rw [timespecToNs_eq, timespecToNs_eq, timespecToNs_eq, hvalue, ofInt_sub]
  · intro hle hlt bench now hmeasures hsize hroom
    rw [recorded_delta hmeasures hsize hroom, timespecToNs_eq, toNat_ofInt, hvalue]
    exact Int.emod_eq_of_lt (by omega) hlt

/-- Across a second boundary. -/
theorem timeDelta_exact_carry :
    ExactDelta { tvSec := 5, tvNsec := 100 } { tvSec := 3, tvNsec := 999999900 } := by
  have hfinish : Balanced { tvSec := 5, tvNsec := 100 } :=
    ⟨by decide, by decide, .inl (by decide)⟩
  have hstart : Balanced { tvSec := 3, tvNsec := 999999900 } :=
    ⟨by decide, by decide, .inl (by decide)⟩
  exact timeDelta_exact hfinish hstart ⟨by decide, by decide⟩

end Delta

end EchoServers.TimespecDelta
