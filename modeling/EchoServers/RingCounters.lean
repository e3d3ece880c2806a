import Mathlib.Data.List.Basic
import Mathlib.Data.Nat.ModEq

namespace EchoServers.RingCounters

/-- The `n` counters from `head` on.  A counter runs freely and wraps at
`2 ^ 32`; it is reduced to a slot of the ring only when a slot is touched. -/
def window (head : UInt32) : Nat → List UInt32
  | 0 => []
  | n + 1 => head :: window (head + 1) n

/-- The number of counters from `head` up to `tail`. -/
def distance (head tail : UInt32) : Nat := (tail - head).toNat

@[simp] theorem distance_self (head : UInt32) : distance head head = 0 := by
  simp [distance]

theorem distance_eq_zero_iff {head tail : UInt32} :
    distance head tail = 0 ↔ head = tail := by
  have hhead := UInt32.toNat_lt head
  have htail := UInt32.toNat_lt tail
  rw [distance, UInt32.toNat_sub, ← UInt32.toNat_inj]
  omega

theorem distance_tail_succ {head tail : UInt32}
    (hroom : distance head tail + 1 < 2 ^ 32) :
    distance head (tail + 1) = distance head tail + 1 := by
  have hhead := UInt32.toNat_lt head
  have htail := UInt32.toNat_lt tail
  simp only [distance, UInt32.toNat_sub, UInt32.toNat_add, UInt32.toNat_one] at *
  omega

theorem distance_head_succ {head tail : UInt32} (hne : head ≠ tail) :
    distance head tail = distance (head + 1) tail + 1 := by
  have hhead := UInt32.toNat_lt head
  have htail := UInt32.toNat_lt tail
  rw [ne_eq, ← UInt32.toNat_inj] at hne
  simp only [distance, UInt32.toNat_sub, UInt32.toNat_add, UInt32.toNat_one]
  omega

theorem head_add_distance (head tail : UInt32) :
    head + UInt32.ofNat (distance head tail) = tail := by
  simp [distance, UInt32.add_comm head]

theorem window_length (head : UInt32) (n : Nat) : (window head n).length = n := by
  induction n generalizing head with
  | zero => rfl
  | succ n ih => simp [window, ih]

theorem window_succ_last (head : UInt32) (n : Nat) :
    window head (n + 1) = window head n ++ [head + UInt32.ofNat n] := by
  induction n generalizing head with
  | zero => simp [window]
  | succ n ih =>
      have hstep : head + 1 + UInt32.ofNat n = head + UInt32.ofNat (n + 1) := by
        rw [UInt32.ofNat_add, UInt32.add_assoc, UInt32.add_comm 1]
        rfl
      rw [window, ih (head + 1), hstep]
      simp [window]

theorem mem_window_iff {head c : UInt32} {n : Nat} :
    c ∈ window head n ↔ ∃ i < n, c = head + UInt32.ofNat i := by
  induction n with
  | zero => simp [window]
  | succ n ih =>
      rw [window_succ_last, List.mem_append, ih, List.mem_singleton]
      constructor
      · rintro (⟨i, hi, rfl⟩ | rfl)
        · exact ⟨i, by omega, rfl⟩
        · exact ⟨n, by omega, rfl⟩
      · rintro ⟨i, hi, rfl⟩
        rcases Nat.lt_succ_iff_lt_or_eq.mp hi with hlt | rfl
        · exact .inl ⟨i, hlt, rfl⟩
        · exact .inr rfl

/-- A mask that selects the low `k` bits of a counter. -/
def IsMask (mask : UInt32) (k : Nat) : Prop :=
  k ≤ 31 ∧ mask.toNat = 2 ^ k - 1

theorem isMask_ofNat {k : Nat} (hk : k ≤ 31) : IsMask (UInt32.ofNat (2 ^ k - 1)) k := by
  refine ⟨hk, ?_⟩
  have hle : 2 ^ k ≤ 2 ^ 31 := Nat.pow_le_pow_right (by decide) hk
  rw [UInt32.toNat_ofNat', Nat.mod_eq_of_lt]
  omega

theorem toNat_slot {mask : UInt32} {k : Nat} (hmask : IsMask mask k) (c : UInt32) :
    (c &&& mask).toNat = c.toNat % 2 ^ k := by
  rw [UInt32.toNat_and, hmask.2, Nat.and_two_pow_sub_one_eq_mod]

/-- A power of two that divides `2 ^ 32` does not notice the wrap. -/
theorem toNat_slot_add {mask : UInt32} {k : Nat} (hmask : IsMask mask k)
    (head : UInt32) {i : Nat} (hi : i < 2 ^ k) :
    ((head + UInt32.ofNat i) &&& mask).toNat = (head.toNat + i) % 2 ^ k := by
  have hdvd : 2 ^ k ∣ 2 ^ 32 := Nat.pow_dvd_pow 2 (by have := hmask.1; omega)
  have hle : 2 ^ k ≤ 2 ^ 32 := Nat.le_of_dvd (by decide) hdvd
  have hofNat : (UInt32.ofNat i).toNat = i := by
    simp only [UInt32.toNat_ofNat']
    exact Nat.mod_eq_of_lt (by omega)
  rw [toNat_slot hmask, UInt32.toNat_add, hofNat, Nat.mod_mod_of_dvd _ hdvd]

theorem slot_add_ne {mask : UInt32} {k : Nat} (hmask : IsMask mask k)
    (head : UInt32) {i j : Nat} (hij : i < j) (hj : j < 2 ^ k) :
    (head + UInt32.ofNat i) &&& mask ≠ (head + UInt32.ofNat j) &&& mask := by
  intro heq
  have hnat := congrArg UInt32.toNat heq
  rw [toNat_slot_add hmask head (by omega), toNat_slot_add hmask head hj] at hnat
  have hmod : i ≡ j [MOD 2 ^ k] := Nat.ModEq.add_left_cancel' head.toNat hnat
  have : i = j := hmod.eq_of_lt_of_lt (by omega) hj
  omega

/-- The slot behind the last of fewer than `2 ^ k` live counters belongs to
none of them. -/
theorem slot_ne_of_mem_window {mask : UInt32} {k n : Nat} (hmask : IsMask mask k)
    {head c : UInt32} (hn : n < 2 ^ k) (hc : c ∈ window head n) :
    c &&& mask ≠ (head + UInt32.ofNat n) &&& mask := by
  obtain ⟨i, hi, rfl⟩ := mem_window_iff.mp hc
  exact slot_add_ne hmask head hi hn

section Entries

variable {α : Type} {at_ at' : UInt32 → α} {head tail : UInt32}

/-- The contents of a ring: what `at_` finds at each counter from `head` up to
`tail`, oldest first. -/
def entries (at_ : UInt32 → α) (head tail : UInt32) : List α :=
  (window head (distance head tail)).map at_

theorem entries_length : (entries at_ head tail).length = distance head tail := by
  simp [entries, window_length]

theorem entries_eq_nil_iff : entries at_ head tail = [] ↔ head = tail := by
  rw [← List.length_eq_zero_iff, entries_length, distance_eq_zero_iff]

/-- Advancing the tail appends the entry it passes. -/
theorem entries_push (hroom : distance head tail + 1 < 2 ^ 32) :
    entries at_ head (tail + 1) = entries at_ head tail ++ [at_ tail] := by
  rw [entries, distance_tail_succ hroom, window_succ_last, head_add_distance]
  simp [entries]

/-- Advancing the head drops the oldest entry. -/
theorem entries_pop (hne : head ≠ tail) :
    entries at_ head tail = at_ head :: entries at_ (head + 1) tail := by
  rw [entries, distance_head_succ hne, window]
  rfl

theorem entries_congr
    (h : ∀ c ∈ window head (distance head tail), at_ c = at' c) :
    entries at_ head tail = entries at' head tail :=
  List.map_congr_left h

end Entries

end EchoServers.RingCounters
