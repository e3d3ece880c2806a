import EchoServers.PollVector
import Mathlib.Algebra.Ring.Nat

namespace EchoServers.PollVectorRuns

open EchoServers.PollVector
open EchoServers.SocketKernel
open EchoServers.SwapRemoval
open EchoServers.Utils

/-- A call of one of the two operations on a vector. -/
inductive Call where
  | add (conf : Pollfd) (privateData : Option Ptr) (g : Growth)
  | remove (index : UInt32)

def perform (v : PollfdVector) : Call → Except Stop PollfdVector
  | .add conf privateData g => pollfdvAdd v conf privateData g
  | .remove index => .ok (pollfdvRemoveIndex v index)

/-- The states a sequence of calls goes through, until the process exits. -/
def reached (v : PollfdVector) : List Call → List PollfdVector
  | [] => [v]
  | c :: cs => v ::
      match perform v c with
      | .ok u => reached u cs
      | .error _ => []

/-- All calls are made on states that allow them. -/
def Allowed (allows : PollfdVector → Call → Prop) (v : PollfdVector) : List Call → Prop
  | [] => True
  | c :: cs => allows v c ∧
      match perform v c with
      | .ok u => Allowed allows u cs
      | .error _ => True

instance decidableAllowed {allows : PollfdVector → Call → Prop}
    [∀ v c, Decidable (allows v c)] :
    (calls : List Call) → (v : PollfdVector) → Decidable (Allowed allows v calls)
  | [], _ => isTrue trivial
  | c :: cs, v =>
      haveI : Decidable (match perform v c with
          | .ok u => Allowed allows u cs
          | .error _ => True) :=
        match perform v c with
        | .ok u => decidableAllowed cs u
        | .error _ => isTrue trivial
      inferInstanceAs (Decidable (_ ∧ _))

/-- An empty vector, as `pollfdv_create` makes it. -/
def freshVector : PollfdVector :=
  { capacity := dataInitialSize
    data := List.replicate 16 { fd := -1 }
    pd := List.replicate 16 none }

theorem create_freshVector : pollfdvCreate false false = .ok freshVector := rfl

/-- `n` clients are added; the memory that `realloc` adds is zero. -/
def additions (n : Nat) : List Call :=
  (List.range n).map fun i => .add { fd := Int.ofNat (i + 4), events := 1 } (some (i + 3)) {}

/-- The state after the calls, or the given state if the process has exited. -/
def stateAfter (v : PollfdVector) (calls : List Call) : PollfdVector :=
  match calls.foldlM perform v with
  | .ok u => u
  | .error _ => v

theorem run_stateAfter {v : PollfdVector} {calls : List Call}
    (h : (calls.foldlM perform v).isOk = true) :
    calls.foldlM perform v = .ok (stateAfter v calls) := by
  cases hrun : calls.foldlM perform v with
  | error e => simp [hrun, Except.isOk, Except.toBool] at h
  | ok u => simp [stateAfter, hrun]

theorem mem_reached_of_run {v u : PollfdVector} {calls : List Call}
    (hrun : calls.foldlM perform v = .ok u) : u ∈ reached v calls := by
  induction calls generalizing v with
  | nil =>
      cases hrun
      exact List.mem_singleton_self _
  | cons c cs ih =>
      rw [List.foldlM_cons] at hrun
      cases hstep : perform v c with
      | error e =>
          rw [hstep] at hrun
          cases hrun
      | ok t =>
          rw [hstep] at hrun
          rw [reached, hstep]
          exact List.mem_cons_of_mem _ (ih hrun)

section Capacity

variable {v u : PollfdVector} {c : Call} {calls : List Call}

/-- The capacity is a power of two, or has wrapped around to zero. -/
def Doubled (v : PollfdVector) : Prop :=
  ∃ k : Nat, v.capacity.toNat = 2 ^ k % 2 ^ 32

theorem Doubled.capacity_le (h : Doubled v) : v.capacity.toNat ≤ 2 ^ 31 := by
  obtain ⟨k, hk⟩ := h
  rw [hk]
  rcases Nat.lt_or_ge k 32 with hlt | hge
  · exact Nat.le_trans (Nat.mod_le _ _) (Nat.pow_le_pow_right (by decide) (by omega))
  · rw [Nat.mod_eq_zero_of_dvd (Nat.pow_dvd_pow 2 hge)]
    exact Nat.zero_le _

theorem capacity_writeData (index : UInt32) (conf : Pollfd) :
    (v.writeData index conf).capacity = v.capacity := by
  unfold PollfdVector.writeData
  split_ifs <;> rfl

theorem capacity_writePd (index : UInt32) (privateData : Option Ptr) :
    (v.writePd index privateData).capacity = v.capacity := by
  unfold PollfdVector.writePd
  split_ifs <;> rfl

theorem capacity_pollfdvRemoveIndex (index : UInt32) :
    (pollfdvRemoveIndex v index).capacity = v.capacity := by
  unfold pollfdvRemoveIndex
  dsimp only
  split_ifs <;> simp only [capacity_writeData, capacity_writePd]

theorem Doubled.extend {g : Growth} (h : Doubled v) (hrun : pollfdvExtend v g = .ok u) :
    Doubled u := by
  obtain ⟨k, hk⟩ := h
  unfold pollfdvExtend at hrun
  split at hrun
  · cases hrun
  · split at hrun
    · cases hrun
    · cases hrun
      refine ⟨k + 1, ?_⟩
      have htwice : (v.capacity * dataCapacityExtendMult).toNat = v.capacity.toNat * 2 % 2 ^ 32 :=
        UInt32.toNat_mul ..
      rw [htwice, hk, Nat.pow_succ]
      omega

theorem Doubled.perform (h : Doubled v) (hrun : perform v c = .ok u) : Doubled u := by
  cases c with
  | remove index =>
      cases hrun
      obtain ⟨k, hk⟩ := h
      exact ⟨k, by rw [capacity_pollfdvRemoveIndex, hk]⟩
  | add conf privateData g =>
      have hplaced : ∀ t : PollfdVector, Doubled t →
          (if t.size ≥ t.capacity then
            .error (Stop.exit "Did not find a place to add a new entry in pollfdv")
          else .ok (pollfdvPlace t conf privateData)) = Except.ok u → Doubled u := by
        rintro t ⟨k, hk⟩ ht
        split_ifs at ht
        cases ht
        exact ⟨k, by rw [← hk, pollfdvPlace, capacity_writePd, capacity_writeData]⟩
      change pollfdvAdd v conf privateData g = .ok u at hrun
      unfold pollfdvAdd at hrun
      by_cases hfull : v.size ≥ v.capacity
      · rw [if_pos hfull] at hrun
        cases hext : pollfdvExtend v g with
        | error e =>
            rw [hext] at hrun
            cases hrun
        | ok t =>
            rw [hext] at hrun
            exact hplaced t (h.extend hext) hrun
      · rw [if_neg hfull] at hrun
        exact hplaced v h hrun

/-- No sequence of calls gets the vector beyond `2 ^ 31` slots, so that the index
of an occupied slot is an `int`. -/
theorem capacity_le_of_reached {dataNull pdNull : Bool} {v₀ : PollfdVector}
    (hcreate : pollfdvCreate dataNull pdNull = .ok v₀) (hu : u ∈ reached v₀ calls) :
    u.capacity.toNat ≤ 2 ^ 31 := by
  have hstart : Doubled v₀ := by
    unfold pollfdvCreate at hcreate
    split_ifs at hcreate
    cases hcreate
    exact ⟨4, rfl⟩
  suffices hrun : ∀ v, Doubled v → u ∈ reached v calls → Doubled u from
    (hrun v₀ hstart hu).capacity_le
  clear hu
  intro v hv hmem
  induction calls generalizing v with
  | nil =>
      rw [List.mem_singleton.mp hmem]
      exact hv
  | cons c cs ih =>
      rcases List.mem_cons.mp hmem with rfl | hmem
      · exact hv
      · cases hstep : PollVectorRuns.perform v c with
        | error e =>
            rw [hstep] at hmem
            cases hmem
        | ok t =>
            rw [hstep] at hmem
            exact ih t (hv.perform hstep) hmem

end Capacity

section Bag

variable {v u : PollfdVector} {calls : List Call}

/-- Entries are added with a descriptor and removed where there is one. -/
def WithinSize (v : PollfdVector) : Call → Prop
  | .add conf _ _ => 0 ≤ conf.fd
  | .remove index => index.toNat < v.size.toNat

/-- What calls do to a sequence of entries, beside the entries taken out of it. -/
def bag (es gone : List Entry) : List Call → List Entry × List Entry
  | [] => (es, gone)
  | .add conf privateData _ :: cs => bag (es ++ [(conf, privateData)]) gone cs
  | .remove index :: cs =>
      bag (swapRemove es index.toNat) ((es[index.toNat]?).toList ++ gone) cs

/-- The entries given to `pollfdv_add`. -/
def added : List Call → List Entry
  | [] => []
  | .add conf privateData _ :: cs => (conf, privateData) :: added cs
  | .remove _ :: cs => added cs

/-- A vector whose occupied slots hold descriptors. -/
structure Filled (v : PollfdVector) : Prop where
  sound : Sound v
  fd_nonneg : ∀ e ∈ v.entries, 0 ≤ e.1.fd

theorem Filled.fd_ne (h : Filled v) {i : Nat} (hi : i < v.size.toNat) :
    (v.slot i).1.fd ≠ -1 := by
  have hmem := List.mem_of_getElem? (getElem?_entries hi)
  exact ne_of_fd_nonneg (h.fd_nonneg _ hmem)

theorem Filled.add {conf : Pollfd} {privateData : Option Ptr} {g : Growth} (h : Filled v)
    (hfd : 0 ≤ conf.fd) (hrun : pollfdvAdd v conf privateData g = .ok u) : Filled u := by
  obtain ⟨hsound, -, hentries⟩ := pollfdvAdd_spec h.sound hrun
  refine ⟨hsound, fun e he => ?_⟩
  rw [hentries, List.mem_append, List.mem_singleton] at he
  rcases he with he | rfl
  · exact h.fd_nonneg e he
  · exact hfd

theorem Filled.remove {index : UInt32} (h : Filled v) (hindex : index.toNat < v.size.toNat) :
    Filled (pollfdvRemoveIndex v index) := by
  obtain ⟨hsound, -, hentries⟩ := pollfdvRemoveIndex_spec h.sound hindex (h.fd_ne hindex)
  refine ⟨hsound, fun e he => ?_⟩
  rw [hentries] at he
  exact h.fd_nonneg e (mem_of_mem_swapRemove he)

theorem filled_create {dataNull pdNull : Bool} (hcreate : pollfdvCreate dataNull pdNull = .ok v) :
    Filled v ∧ v.entries = [] := by
  obtain ⟨hsound, hsize, -⟩ := pollfdvCreate_spec hcreate
  have hentries : v.entries = [] := by
    rw [PollfdVector.entries, hsize]
    rfl
  refine ⟨⟨hsound, fun e he => ?_⟩, hentries⟩
  rw [hentries] at he
  cases he

/-- The entries of the vector are those of the bag after every run, and none is
lost or invented. -/
theorem bag_run (hallowed : Allowed WithinSize v calls) (h : Filled v)
    (hrun : calls.foldlM perform v = .ok u) (gone : List Entry) :
    Filled u ∧ u.entries = (bag v.entries gone calls).1 ∧
      (v.entries ++ added calls ++ gone).Perm
        (u.entries ++ (bag v.entries gone calls).2) := by
  induction calls generalizing v gone with
  | nil =>
      cases hrun
      refine ⟨h, rfl, ?_⟩
      rw [added, List.append_nil]
      rfl
  | cons c cs ih =>
      obtain ⟨hc, hallowed⟩ := hallowed
      rw [List.foldlM_cons] at hrun
      cases hstep : perform v c with
      | error e =>
          rw [hstep] at hrun
          cases hrun
      | ok t =>
          rw [hstep] at hrun hallowed
          cases c with
          | add conf privateData g =>
              obtain ⟨-, -, hentries⟩ := pollfdvAdd_spec h.sound hstep
              have hrest := ih hallowed (h.add hc hstep) hrun gone
              rw [hentries] at hrest
              refine ⟨hrest.1, hrest.2.1, ?_⟩
              have hperm := hrest.2.2
              rw [List.append_assoc v.entries, List.singleton_append] at hperm
              exact hperm
          | remove index =>
              cases hstep
              have hne := h.fd_ne hc
              obtain ⟨-, -, hentries⟩ := pollfdvRemoveIndex_spec h.sound hc hne
              have hget := getElem?_entries hc
              have hrest := ih hallowed (h.remove hc) hrun ((v.slot index.toNat) :: gone)
              rw [hentries] at hrest
              rw [bag, hget, Option.toList_some, List.singleton_append]
              refine ⟨hrest.1, hrest.2.1, List.Perm.trans ?_ hrest.2.2⟩
              have hperm := (perm_cons_swapRemove hget).append_right (added cs ++ gone)
              rw [List.append_assoc]
              refine hperm.trans ?_
              rw [List.cons_append, ← List.append_assoc]
              exact List.perm_middle.symm

theorem slot_pollfdvPlace {conf : Pollfd} {privateData : Option Ptr} {i : Nat} (h : Sound v)
    (hlt : v.size.toNat < v.capacity.toNat) (hi : i ≠ v.size.toNat) :
    (pollfdvPlace v conf privateData).slot i = v.slot i := by
  rw [pollfdvPlace_eq h hlt]
  exact slot_withSlot_of_ne hi _

/-- An add changes no slot but the one it fills, whether the arrays grow or not. -/
theorem slot_pollfdvAdd {conf : Pollfd} {privateData : Option Ptr} {g : Growth} {i : Nat}
    (h : Sound v) (hrun : pollfdvAdd v conf privateData g = .ok u)
    (hi : i < v.capacity.toNat) (hne : i ≠ v.size.toNat) : u.slot i = v.slot i := by
  obtain ⟨t, ht, hsize, hlt, rfl, -, hcases⟩ := pollfdvAdd_cases h hrun
  rw [slot_pollfdvPlace ht hlt (by rwa [hsize])]
  rcases hcases with ⟨-, rfl⟩ | ⟨hfull, moved, junk, -, -, hext⟩
  · rfl
  · refine hext.slot_old i hi ?_
    rw [hsize, hfull] at hlt
    omega

/-- Whatever the memory functions answer, the vector holds the entries added
and not removed, within its blocks, and each operation touches the slots it is
said to touch only. -/
theorem vector_refines_bag {dataNull pdNull : Bool} {v₀ : PollfdVector}
    (hcreate : pollfdvCreate dataNull pdNull = .ok v₀) (calls : List Call)
    (hallowed : Allowed WithinSize v₀ calls) (hrun : calls.foldlM perform v₀ = .ok v) :
    (v.size ≤ v.capacity ∧ v.data.length = v.capacity.toNat ∧
      v.pd.length = v.capacity.toNat ∧ v.overruns = []) ∧
    v.entries = (bag [] [] calls).1 ∧
    (added calls).Perm (v.entries ++ (bag [] [] calls).2) ∧
    (∀ conf privateData g u, pollfdvAdd v conf privateData g = .ok u →
      u.size.toNat = v.size.toNat + 1 ∧ u.slot v.size.toNat = (conf, privateData) ∧
        ∀ i < v.capacity.toNat, i ≠ v.size.toNat → u.slot i = v.slot i) ∧
    ∀ index : UInt32, index.toNat < v.size.toNat →
      (pollfdvRemoveIndex v index).size.toNat = v.size.toNat - 1 ∧
        v.entries.Perm (v.slot index.toNat :: (pollfdvRemoveIndex v index).entries) ∧
        ∀ i < v.size.toNat - 1, (pollfdvRemoveIndex v index).slot i =
          if i = index.toNat then v.slot (v.size.toNat - 1) else v.slot i := by
  obtain ⟨hfilled₀, hnil⟩ := filled_create hcreate
  obtain ⟨hfilled, hentries, hperm⟩ := bag_run hallowed hfilled₀ hrun []
  rw [hnil] at hentries hperm
  rw [List.append_nil, List.nil_append] at hperm
  have hsound := hfilled.sound
  refine ⟨⟨?_, hsound.data_length, hsound.pd_length, hsound.overruns_eq⟩, hentries, hperm,
    fun conf privateData g u hadd => ?_, fun index hindex => ?_⟩
  · rw [UInt32.le_iff_toNat_le]
    exact hsound.size_le
  · obtain ⟨-, hsize, hadded⟩ := pollfdvAdd_spec hsound hadd
    refine ⟨hsize, ?_, fun i hi hne => slot_pollfdvAdd hsound hadd hi hne⟩
    · have hget : u.entries[v.size.toNat]? = some (u.slot v.size.toNat) :=
        getElem?_entries (by omega)
      rw [hadded, List.getElem?_append_right (Nat.le_of_eq length_entries), length_entries,
        Nat.sub_self] at hget
      exact (Option.some.inj hget).symm
  · have hne := hfilled.fd_ne hindex
    obtain ⟨-, hsize, hremoved⟩ := pollfdvRemoveIndex_spec hsound hindex hne
    refine ⟨hsize, ?_, fun i hi => ?_⟩
    · rw [hremoved]
      exact perm_cons_swapRemove (getElem?_entries hindex)
    · rw [slot_pollfdvRemoveIndex hsound hindex hne, if_neg (by omega)]

instance (v : PollfdVector) (c : Call) : Decidable (WithinSize v c) :=
  match c with
  | .add _ _ _ => inferInstanceAs (Decidable (_ ≤ _))
  | .remove _ => inferInstanceAs (Decidable (_ < _))

/-- Seventeen clients come, which makes the arrays grow, and the fourth goes. -/
theorem vector_refines_bag_growing :
    ((stateAfter freshVector (additions 17 ++ [.remove 3])).entries.map fun e => e.1.fd) =
        [4, 5, 6, 20, 8, 9, 10, 11, 12, 13, 14, 15, 16, 17, 18, 19] ∧
      (stateAfter freshVector (additions 17 ++ [.remove 3])).entries =
        (bag [] [] (additions 17 ++ [.remove 3])).1 :=
  ⟨by decide +kernel,
    (vector_refines_bag create_freshVector (additions 17 ++ [.remove 3])
      (by decide +kernel) (run_stateAfter (by decide +kernel))).2.1⟩

end Bag

section Markers

variable {v u : PollfdVector} {calls : List Call} {c : Call}

/-- Any index may be removed. -/
def WithDescriptor (_ : PollfdVector) : Call → Prop
  | .add conf _ _ => 0 ≤ conf.fd
  | .remove _ => True

/-- Every slot that is not in use carries the descriptor -1. -/
def MarkedFree (v : PollfdVector) : Prop :=
  ∀ i, v.size.toNat ≤ i → i < v.capacity.toNat → (v.slot i).1.fd = -1

/-- A removal behind the entries changes nothing. -/
def RemovalHarmless (v : PollfdVector) : Prop :=
  ∀ index, v.size ≤ index → (pollfdvRemoveIndex v index).size = v.size ∧
    (pollfdvRemoveIndex v index).entries = v.entries

/-- In the slots that `realloc` adds to a full vector, except for the one that
is filled at once, the descriptor happens to be -1. -/
def GrowthMarked (v : PollfdVector) : Call → Prop
  | .add _ _ g => v.size = v.capacity → ∀ moved junk moved' junk',
      g.data = .block moved junk → g.pd = .block moved' junk' →
        ∀ i, v.capacity.toNat < i → i < (v.capacity * dataCapacityExtendMult).toNat →
          (junk i).fd = -1
  | .remove _ => True

theorem remove_of_marked (hmarked : MarkedFree v) {index : UInt32}
    (hindex : v.size ≤ index) : pollfdvRemoveIndex v index = v := by
  rw [UInt32.le_iff_toNat_le] at hindex
  unfold pollfdvRemoveIndex
  split
  · rfl
  · rename_i hcapacity
    rw [ge_iff_le, UInt32.le_iff_toNat_le, Nat.not_le] at hcapacity
    exact if_pos (hmarked index.toNat hindex hcapacity)

theorem removalHarmless_of_marked (hmarked : MarkedFree v) : RemovalHarmless v := by
  intro index hindex
  rw [remove_of_marked hmarked hindex]
  exact ⟨rfl, rfl⟩

theorem marked_remove (h : Filled v) (hmarked : MarkedFree v) {index : UInt32}
    (hindex : index.toNat < v.size.toNat) : MarkedFree (pollfdvRemoveIndex v index) := by
  have hne := h.fd_ne hindex
  obtain ⟨-, hsize, -⟩ := pollfdvRemoveIndex_spec h.sound hindex hne
  have hcapacity : (pollfdvRemoveIndex v index).capacity = v.capacity := by
    rw [pollfdvRemoveIndex_eq h.sound hindex hne]
    rfl
  intro i hi hi'
  rw [hcapacity] at hi'
  rw [slot_pollfdvRemoveIndex h.sound hindex hne]
  split
  · rfl
  · rw [if_neg (by omega)]
    exact hmarked i (by omega) hi'

/-- Adding an entry keeps the free slots marked exactly when it does not grow
the arrays by slots without the mark. -/
theorem marked_add_iff {conf : Pollfd} {privateData : Option Ptr} {g : Growth} (h : Filled v)
    (hmarked : MarkedFree v) (hrun : pollfdvAdd v conf privateData g = .ok u) :
    MarkedFree u ↔ GrowthMarked v (.add conf privateData g) := by
  have hsize := (pollfdvAdd_spec h.sound hrun).2.1
  obtain ⟨t, ht, hsizet, hlt, rfl, -, hcases⟩ := pollfdvAdd_cases h.sound hrun
  have hcapacity : (pollfdvPlace t conf privateData).capacity = t.capacity := by
    rw [pollfdvPlace_eq ht hlt]
    rfl
  have hslot : ∀ i, v.size.toNat < i →
      (pollfdvPlace t conf privateData).slot i = t.slot i := by
    intro i hi
    apply slot_pollfdvPlace ht hlt
    rw [hsizet]
    omega
  rcases hcases with ⟨hroom, rfl⟩ | ⟨hfull, moved, junk, hdata, hpd, hext⟩
  · constructor
    · intro _ hfull
      rw [hfull] at hroom
      omega
    · intro _ i hi hi'
      rw [hslot i (by omega)]
      exact hmarked i (by omega) (by rwa [hcapacity] at hi')
  · have hold : v.size.toNat = v.capacity.toNat := by rw [hfull]
    constructor
    · intro hfree _ moved' junk' moved'' junk'' hdata' _ i hi hi'
      rw [hdata] at hdata'
      cases hdata'
      rw [← hext.slot_new i (by omega) (by rwa [hext.capacity_eq]), ← hslot i (by omega)]
      exact hfree i (by omega) (by rwa [hcapacity, hext.capacity_eq])
    · intro hgrowth i hi hi'
      rw [hcapacity] at hi'
      obtain ⟨moved', junk', hpd⟩ := hpd
      rw [hslot i (by omega), hext.slot_new i (by omega) hi']
      exact hgrowth hfull moved junk moved' junk' hdata hpd i (by omega)
        (by rwa [← hext.capacity_eq])

/-- One call: it keeps what the run relies on, and the mark of the free slots
exactly when the growth is marked. -/
theorem marked_perform_iff (h : Filled v) (hmarked : MarkedFree v)
    (hallows : WithDescriptor v c) (hrun : perform v c = .ok u) :
    Filled u ∧ (MarkedFree u ↔ GrowthMarked v c) := by
  cases c with
  | add conf privateData g => exact ⟨h.add hallows hrun, marked_add_iff h hmarked hrun⟩
  | remove index =>
      cases hrun
      rcases Nat.lt_or_ge index.toNat v.size.toNat with hindex | hindex
      · exact ⟨h.remove hindex, fun _ => trivial, fun _ => marked_remove h hmarked hindex⟩
      · rw [remove_of_marked hmarked (UInt32.le_iff_toNat_le.mpr hindex)]
        exact ⟨h, fun _ => trivial, fun _ => hmarked⟩

/-- A call that exits although `realloc` returned blocks has no slot to mark:
the doubled capacity has wrapped. -/
theorem growthMarked_of_error {e : Stop} (hrun : perform v c = .error e) :
    GrowthMarked v c := by
  cases c with
  | remove index => trivial
  | add conf privateData g =>
      intro hfull moved junk moved' junk' hdata hpd i hi hi'
      have hext : pollfdvExtend v g = .ok
          { v with
            data := reallocated v.data (v.capacity * dataCapacityExtendMult).toNat junk
            pd := reallocated v.pd (v.capacity * dataCapacityExtendMult).toNat junk'
            capacity := v.capacity * dataCapacityExtendMult
            moves := if moved then v.moves + 1 else v.moves } := by
        unfold pollfdvExtend
        rw [hdata, hpd]
      change pollfdvAdd v conf privateData g = .error e at hrun
      unfold pollfdvAdd at hrun
      rw [if_pos (by rw [hfull]; exact UInt32.le_refl _), hext] at hrun
      change (if v.size ≥ v.capacity * dataCapacityExtendMult then _ else _) = _ at hrun
      split at hrun
      · rename_i hwrapped
        rw [ge_iff_le, UInt32.le_iff_toNat_le, hfull] at hwrapped
        omega
      · cases hrun

theorem head_mem_reached (v : PollfdVector) (calls : List Call) : v ∈ reached v calls := by
  cases calls with
  | nil => exact List.mem_singleton_self v
  | cons c cs => exact List.mem_cons_self

theorem marked_reached_iff (h : Filled v) (hmarked : MarkedFree v)
    (hallowed : Allowed WithDescriptor v calls) :
    (∀ u ∈ reached v calls, MarkedFree u ∧ RemovalHarmless u) ↔
      Allowed GrowthMarked v calls := by
  induction calls generalizing v with
  | nil =>
      constructor
      · intro _
        trivial
      · intro _ u hu
        rw [List.mem_singleton.mp hu]
        exact ⟨hmarked, removalHarmless_of_marked hmarked⟩
  | cons c cs ih =>
      obtain ⟨hc, hallowed⟩ := hallowed
      simp only [reached, Allowed, List.forall_mem_cons]
      cases hstep : perform v c with
      | error e =>
          constructor
          · intro _
            refine ⟨?_, trivial⟩
            exact growthMarked_of_error hstep
          · intro _
            exact ⟨⟨hmarked, removalHarmless_of_marked hmarked⟩, fun u hu => by cases hu⟩
      | ok u =>
          rw [hstep] at hallowed
          obtain ⟨hfilled, hiff⟩ := marked_perform_iff h hmarked hc hstep
          constructor
          · rintro ⟨-, hrest⟩
            have hu : MarkedFree u := (hrest u (head_mem_reached u cs)).1
            exact ⟨hiff.mp hu, (ih hfilled hu hallowed).mp hrest⟩
          · rintro ⟨hgrowth, hrest⟩
            have hu := hiff.mpr hgrowth
            exact ⟨⟨hmarked, removalHarmless_of_marked hmarked⟩,
              (ih hfilled hu hallowed).mpr hrest⟩

/-- In a run of any additions and removals, every state marks its free slots
and keeps removals behind the entries harmless exactly when the memory that
`realloc` adds happens to be marked. -/
theorem marked_iff {dataNull pdNull : Bool} {v₀ : PollfdVector}
    (hcreate : pollfdvCreate dataNull pdNull = .ok v₀) (calls : List Call)
    (hallowed : Allowed WithDescriptor v₀ calls) :
    (∀ v ∈ reached v₀ calls, MarkedFree v ∧ RemovalHarmless v) ↔
      Allowed GrowthMarked v₀ calls := by
  have hmarked : MarkedFree v₀ := by
    intro i _ hi
    rw [(pollfdvCreate_spec hcreate).2.2.2 i hi]
  exact marked_reached_iff (filled_create hcreate).1 hmarked hallowed

instance (v : PollfdVector) (c : Call) : Decidable (WithDescriptor v c) :=
  match c with
  | .add _ _ _ => inferInstanceAs (Decidable (_ ≤ _))
  | .remove _ => isTrue trivial

theorem marked_iff_seventeen :
    (∀ v ∈ reached freshVector (additions 17), MarkedFree v ∧ RemovalHarmless v) ↔
      Allowed GrowthMarked freshVector (additions 17) :=
  marked_iff create_freshVector (additions 17) (by decide +kernel)

/-- The seventeenth client makes the arrays grow; the slot behind it is not
marked, and a removal there takes an entry away. -/
theorem not_marked :
    ¬ ∀ (dataNull pdNull : Bool) (v₀ : PollfdVector) (calls : List Call),
      pollfdvCreate dataNull pdNull = .ok v₀ → Allowed WithDescriptor v₀ calls →
        ∀ v ∈ reached v₀ calls, MarkedFree v ∧ RemovalHarmless v := by
  intro h
  have hrun : (additions 17).foldlM perform freshVector =
      .ok (stateAfter freshVector (additions 17)) :=
    run_stateAfter (by decide +kernel)
  have hlast := h false false freshVector (additions 17) create_freshVector (by decide +kernel) _
    (mem_reached_of_run hrun)
  have hremoved := (hlast.2 17 (by decide +kernel)).1
  exact absurd hremoved (by decide +kernel)

end Markers

end EchoServers.PollVectorRuns
