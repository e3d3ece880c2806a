import EchoServers.TimespecDelta
import Mathlib.Order.Defs.Unbundled

namespace EchoServers.TimespecOrder

open EchoServers.TimespecBalance
open EchoServers.TimespecDelta
open EchoServers.TimeUtils

/-- A timespec as `timespec_lt` expects it. -/
abbrev BalancedTimespec :=
  { ts : Timespec // Balanced ts }

/-- The sign of a balanced timespec. -/
def Positive (ts : Timespec) : Prop :=
  0 < ts.tvSec ∨ (ts.tvSec = 0 ∧ 0 < ts.tvNsec)

section Order

variable {a b : Timespec}

/-- With nanoseconds of the sign of the seconds, the seconds decide unless they
are equal. -/
theorem timespecLt_iff (ha : Balanced a) (hb : Balanced b) :
    timespecLt a b = true ↔ value a < value b := by
  have halow := ha.lower
  have hahigh := ha.upper
  have hblow := hb.lower
  have hbhigh := hb.upper
  have hasign := ha.sign
  have hbsign := hb.sign
  unfold timespecLt value
  split
  · rename_i hsame
    rw [decide_eq_true_eq, Int64.lt_iff_toInt_lt, hsame]
    omega
  · rename_i hdiffer
    have hne : a.tvSec.toInt ≠ b.tvSec.toInt := fun heq => hdiffer (Int64.toInt_inj.mp heq)
    rw [decide_eq_true_eq, Int64.lt_iff_toInt_lt]
    omega

theorem positive_iff (ha : Balanced a) : Positive a ↔ 0 < value a := by
  have halow := ha.lower
  have hahigh := ha.upper
  have hasign := ha.sign
  have hzero : (0 : Int64).toInt = 0 := by decide
  unfold Positive value
  rw [Int64.lt_iff_toInt_lt, Int64.lt_iff_toInt_lt, ← Int64.toInt_inj, hzero]
  omega

instance : IsStrictTotalOrder BalancedTimespec fun a b => timespecLt a.1 b.1 = true where
  irrefl a := by
    rw [timespecLt_iff a.2 a.2]
    exact Int.lt_irrefl _
  trans a b c hab hbc := by
    rw [timespecLt_iff a.2 b.2] at hab
    rw [timespecLt_iff b.2 c.2] at hbc
    rw [timespecLt_iff a.2 c.2]
    exact Int.lt_trans hab hbc
  trichotomous a b hab hba := by
    rw [timespecLt_iff a.2 b.2] at hab
    rw [timespecLt_iff b.2 a.2] at hba
    exact Subtype.ext (a.2.eq_of_value_eq b.2 (by omega))

/-- `timespec_lt` compares instants, and agrees with the sign of `time_delta`
where that does not overflow. -/
theorem timespecLt_orders :
    (∀ a b : BalancedTimespec, timespecLt a.1 b.1 = true ↔ value a.1 < value b.1) ∧
      IsStrictTotalOrder BalancedTimespec (fun a b => timespecLt a.1 b.1 = true) ∧
      ∀ a b : BalancedTimespec, SecondsApart b.1 a.1 →
        (timespecLt a.1 b.1 = true ↔ Positive (timeDelta b.1 a.1)) := by
  refine ⟨fun a b => timespecLt_iff a.2 b.2, inferInstance, fun a b h => ?_⟩
  have hdelta := value_timeDelta b.2 a.2 h
  have hbalanced : Balanced (timeDelta b.1 a.1) := balanced_timespecRebalance _
  rw [timespecLt_iff a.2 b.2, positive_iff hbalanced]
  omega

/-- Half a second before and half a second after zero. -/
theorem timespecLt_orders_zero :
    timespecLt { tvSec := 0, tvNsec := -500000000 } { tvSec := 0, tvNsec := 500000000 } = true ↔
      Positive (timeDelta { tvSec := 0, tvNsec := 500000000 }
        { tvSec := 0, tvNsec := -500000000 }) := by
  have hbefore : Balanced { tvSec := 0, tvNsec := -500000000 } :=
    ⟨by decide, by decide, .inr (by decide)⟩
  have hafter : Balanced { tvSec := 0, tvNsec := 500000000 } :=
    ⟨by decide, by decide, .inl (by decide)⟩
  have hapart : SecondsApart { tvSec := 0, tvNsec := 500000000 }
      { tvSec := 0, tvNsec := -500000000 } := ⟨by decide, by decide⟩
  exact timespecLt_orders.2.2 ⟨_, hbefore⟩ ⟨_, hafter⟩ hapart

end Order

section Conversions

variable {ns x y : UInt64} {ts : Timespec}

theorem toInt_toInt64 (h : ns.toNat < 2 ^ 63) : ns.toInt64.toInt = ns.toNat := by
  have hsigned : ns.toInt64.toInt = _ := BitVec.toInt_eq_toNat_cond ns.toInt64.toBitVec
  have hnat : ns.toInt64.toBitVec.toNat = ns.toNat := rfl
  split at hsigned <;> omega

theorem toInt_nsToTimespec (ns : UInt64) :
    (nsToTimespec ns).tvSec.toInt = (ns.toNat / 1000000000 : Nat) ∧
      (nsToTimespec ns).tvNsec.toInt = (ns.toNat % 1000000000 : Nat) := by
  have hlt := ns.toNat_lt
  have hbillion : number10E9.toUInt64.toNat = 1000000000 := by decide
  have hsec : (ns / number10E9.toUInt64).toNat = ns.toNat / 1000000000 := by
    rw [UInt64.toNat_div, hbillion]
  have hnsec : (ns % number10E9.toUInt64).toNat = ns.toNat % 1000000000 := by
    rw [UInt64.toNat_mod, hbillion]
  constructor
  · rw [← hsec]
    exact toInt_toInt64 (by omega)
  · rw [← hnsec]
    exact toInt_toInt64 (by omega)

theorem value_nsToTimespec (ns : UInt64) : value (nsToTimespec ns) = ns.toNat := by
  obtain ⟨hsec, hnsec⟩ := toInt_nsToTimespec ns
  unfold value
  rw [hsec, hnsec]
  omega

theorem balanced_nsToTimespec (ns : UInt64) : Balanced (nsToTimespec ns) := by
  obtain ⟨hsec, hnsec⟩ := toInt_nsToTimespec ns
  refine ⟨?_, ?_, .inl ⟨?_, ?_⟩⟩
  · rw [hnsec]
    omega
  · rw [hnsec]
    omega
  · rw [hsec]
    omega
  · rw [hnsec]
    omega

theorem timespecToNs_nsToTimespec (ns : UInt64) : timespecToNs (nsToTimespec ns) = ns := by
  apply UInt64.toNat_inj.mp
  have hlt := ns.toNat_lt
  have hcast := toNat_ofInt (value (nsToTimespec ns))
  rw [← timespecToNs_eq, value_nsToTimespec] at hcast
  omega

theorem nsToTimespec_timespecToNs (hsec : 0 ≤ ts.tvSec) (hnsec : 0 ≤ ts.tvNsec)
    (hless : ts.tvNsec < number10E9) (hfits : value ts < 2 ^ 64) :
    nsToTimespec (timespecToNs ts) = ts := by
  have hzero : (0 : Int64).toInt = 0 := by decide
  rw [Int64.le_iff_toInt_le, hzero] at hsec hnsec
  rw [Int64.lt_iff_toInt_lt, toInt_number10E9] at hless
  have hbalanced : Balanced ts := ⟨by omega, hless, .inl ⟨hsec, hnsec⟩⟩
  apply (balanced_nsToTimespec _).eq_of_value_eq hbalanced
  have hnonneg : 0 ≤ value ts := by
    unfold value
    omega
  rw [value_nsToTimespec, timespecToNs_eq, toNat_ofInt]
  exact Int.emod_eq_of_lt hnonneg hfits

/-- The conversions undo each other, and `timespec_lt` compares what they
convert. -/
theorem conversions_inverse :
    (∀ ns : UInt64, Balanced (nsToTimespec ns) ∧ 0 ≤ (nsToTimespec ns).tvSec ∧
      0 ≤ (nsToTimespec ns).tvNsec ∧ timespecToNs (nsToTimespec ns) = ns) ∧
    (∀ ts : Timespec, 0 ≤ ts.tvSec → 0 ≤ ts.tvNsec → ts.tvNsec < number10E9 →
      value ts < 2 ^ 64 → nsToTimespec (timespecToNs ts) = ts) ∧
    ∀ x y : UInt64, x < y ↔ timespecLt (nsToTimespec x) (nsToTimespec y) = true := by
  refine ⟨fun ns => ?_, fun ts => nsToTimespec_timespecToNs, fun x y => ?_⟩
  · obtain ⟨hsec, hnsec⟩ := toInt_nsToTimespec ns
    have hzero : (0 : Int64).toInt = 0 := by decide
    refine ⟨balanced_nsToTimespec ns, ?_, ?_, timespecToNs_nsToTimespec ns⟩
    · rw [Int64.le_iff_toInt_le, hzero, hsec]
      omega
    · rw [Int64.le_iff_toInt_le, hzero, hnsec]
      omega
  · rw [timespecLt_iff (balanced_nsToTimespec x) (balanced_nsToTimespec y), value_nsToTimespec,
      value_nsToTimespec, UInt64.lt_iff_toNat_lt]
    omega

/-- The last nanosecond of an unsigned word. -/
theorem conversions_inverse_top :
    nsToTimespec (timespecToNs { tvSec := 18446744073, tvNsec := 709551615 }) =
      { tvSec := 18446744073, tvNsec := 709551615 } :=
  conversions_inverse.2.1 _ (by decide) (by decide) (by decide) (by decide)

end Conversions

end EchoServers.TimespecOrder
