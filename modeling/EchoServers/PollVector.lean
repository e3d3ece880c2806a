import EchoServers.SocketKernel
import EchoServers.SwapRemoval
import EchoServers.Utils

namespace EchoServers.PollVector

open EchoServers.SocketKernel
open EchoServers.SwapRemoval
open EchoServers.Utils

def dataInitialSize : UInt32 := 16
def dataCapacityExtendMult : UInt32 := 2

/-- `struct pollfd`.  The file that was behind the descriptor when the entry was
made is kept beside it for the statements; the server never reads it. -/
structure Pollfd where
  fd : Fd := 0
  events : UInt16 := 0
  revents : UInt16 := 0
  object : Option File := none
  deriving DecidableEq, Repr

/-- `struct pollfd_vector`, with the blocks behind `data` and `pd`: their
lengths are the allocated numbers of slots. -/
structure PollfdVector where
  data : List Pollfd := []
  size : UInt32 := 0
  capacity : UInt32 := 0
  pd : List (Option Ptr) := []
  /-- How often `realloc` has moved the block behind `data`. -/
  moves : Nat := 0
  /-- The slots written outside of the allocated blocks. -/
  overruns : List UInt32 := []
  deriving DecidableEq

/-- What `realloc` returns: a null pointer, or a block that was moved or not and
has any contents behind the old ones. -/
inductive ReallocAnswer (α : Type) where
  | null
  | block (moved : Bool) (junk : Nat → α)

/-- The answers to the two calls of `realloc` in `pollfdv_extend`. -/
structure Growth where
  data : ReallocAnswer Pollfd := .block false fun _ => {}
  pd : ReallocAnswer (Option Ptr) := .block false fun _ => none

def reallocated {α : Type} (old : List α) (count : Nat) (junk : Nat → α) : List α :=
  (List.range count).map fun i => (old[i]?).getD (junk i)

namespace PollfdVector

variable (v : PollfdVector)

def readData (index : UInt32) : Pollfd := (v.data[index.toNat]?).getD {}

def readPd (index : UInt32) : Option Ptr := (v.pd[index.toNat]?).getD none

def writeData (index : UInt32) (conf : Pollfd) : PollfdVector :=
  if index.toNat < v.data.length then
    { v with data := v.data.set index.toNat conf }
  else { v with overruns := v.overruns ++ [index] }

def writePd (index : UInt32) (privateData : Option Ptr) : PollfdVector :=
  if index.toNat < v.pd.length then
    { v with pd := v.pd.set index.toNat privateData }
  else { v with overruns := v.overruns ++ [index] }

end PollfdVector

section Operations

/-- The two `calloc`s may fail. -/
def pollfdvCreate (dataNull pdNull : Bool) : Except Stop PollfdVector :=
  if dataNull then .error (.exit "calloc pollfdv.data")
  else if pdNull then .error (.exit "calloc pollfdv.pd")
  else
    .ok
      { size := 0
        capacity := dataInitialSize
        data := (List.replicate dataInitialSize.toNat ({} : Pollfd)).map fun p =>
          { p with fd := -1 }
        pd := List.replicate dataInitialSize.toNat none }

def pollfdvExtend (v : PollfdVector) (g : Growth) : Except Stop PollfdVector :=
  let newCapacity := v.capacity * dataCapacityExtendMult
  match g.data with
  | .null => .error (.exit "realloc pollfdv.data")
  | .block moved junk =>
      match g.pd with
      | .null => .error (.exit "realloc pollfdv.pd")
      | .block _ pdJunk =>
          .ok { v with
            data := reallocated v.data newCapacity.toNat junk
            pd := reallocated v.pd newCapacity.toNat pdJunk
            capacity := newCapacity
            moves := if moved then v.moves + 1 else v.moves }

/-- The second part of `pollfdv_add`, when there is a free slot. -/
def pollfdvPlace (v : PollfdVector) (conf : Pollfd) (privateData : Option Ptr) :
    PollfdVector :=
  let v := v.writeData v.size conf
  let v := v.writePd v.size privateData
  { v with size := v.size + 1 }

def pollfdvAdd (v : PollfdVector) (conf : Pollfd) (privateData : Option Ptr) (g : Growth) :
    Except Stop PollfdVector := do
  let v ← if v.size ≥ v.capacity then pollfdvExtend v g else .ok v
  if v.size ≥ v.capacity then
    .error (.exit "Did not find a place to add a new entry in pollfdv")
  else
    .ok (pollfdvPlace v conf privateData)

def pollfdvRemoveIndex (v : PollfdVector) (index : UInt32) : PollfdVector :=
  if index ≥ v.capacity then v
  else if (v.readData index).fd = -1 then v
  else
    let last := v.size - 1
    let v :=
      if index ≠ last then
        (v.writeData index (v.readData last)).writePd index (v.readPd last)
      else v
    -- remove the last entry
    let v := v.writeData last {}
    let v := v.writePd last none
    let v := v.writeData last { v.readData last with fd := -1 }
    { v with size := v.size - 1 }

end Operations

/-- An entry: a `struct pollfd` and the pointer stored beside it. -/
abbrev Entry := Pollfd × Option Ptr

/-- What the slot `i` of the two arrays holds. -/
def PollfdVector.slot (v : PollfdVector) (i : Nat) : Entry :=
  ((v.data[i]?).getD {}, (v.pd[i]?).getD none)

def PollfdVector.entries (v : PollfdVector) : List Entry :=
  (List.range v.size.toNat).map v.slot

/-- Both blocks have `capacity` slots, and nothing was written outside of them. -/
structure Sound (v : PollfdVector) : Prop where
  size_le : v.size.toNat ≤ v.capacity.toNat
  data_length : v.data.length = v.capacity.toNat
  pd_length : v.pd.length = v.capacity.toNat
  overruns_eq : v.overruns = []

section Slots

variable {v : PollfdVector} {i : Nat}

@[simp] theorem length_entries : v.entries.length = v.size.toNat := by
  simp [PollfdVector.entries]

theorem getElem?_entries (hi : i < v.size.toNat) : v.entries[i]? = some (v.slot i) := by
  simp [PollfdVector.entries, hi]

theorem length_reallocated {α : Type} (old : List α) (count : Nat) (junk : Nat → α) :
    (reallocated old count junk).length = count := by
  simp [reallocated]

theorem getElem?_reallocated {α : Type} {old : List α} {count : Nat} {junk : Nat → α}
    (hi : i < count) : (reallocated old count junk)[i]? = some ((old[i]?).getD (junk i)) := by
  simp [reallocated, hi]

theorem writeData_of_lt {index : UInt32} (h : index.toNat < v.data.length) (conf : Pollfd) :
    v.writeData index conf = { v with data := v.data.set index.toNat conf } :=
  if_pos h

theorem writePd_of_lt {index : UInt32} (h : index.toNat < v.pd.length)
    (privateData : Option Ptr) :
    v.writePd index privateData = { v with pd := v.pd.set index.toNat privateData } :=
  if_pos h

/-- A vector in which both arrays differ in one slot at most. -/
def PollfdVector.withSlot (v : PollfdVector) (i : Nat) (e : Entry) : PollfdVector :=
  { v with data := v.data.set i e.1, pd := v.pd.set i e.2 }

theorem Sound.withSlot (h : Sound v) (i : Nat) (e : Entry) : Sound (v.withSlot i e) :=
  ⟨h.size_le, by simp [PollfdVector.withSlot, h.data_length],
    by simp [PollfdVector.withSlot, h.pd_length], h.overruns_eq⟩

theorem slot_withSlot_self (h : Sound v) (hi : i < v.capacity.toNat) (e : Entry) :
    (v.withSlot i e).slot i = e := by
  have hdata := h.data_length
  have hpd := h.pd_length
  simp only [PollfdVector.slot, PollfdVector.withSlot]
  rw [List.getElem?_set_self (by omega), List.getElem?_set_self (by omega)]
  rfl

theorem slot_withSlot_of_ne {j : Nat} (hne : j ≠ i) (e : Entry) :
    (v.withSlot i e).slot j = v.slot j := by
  simp only [PollfdVector.slot, PollfdVector.withSlot]
  rw [List.getElem?_set_ne hne.symm, List.getElem?_set_ne hne.symm]

theorem withSlot_slot_self (h : Sound v) (hi : i < v.capacity.toNat) :
    v.withSlot i (v.slot i) = v := by
  have hdata := h.data_length
  have hpd := h.pd_length
  have hi' : i < v.data.length := by omega
  have hi'' : i < v.pd.length := by omega
  simp only [PollfdVector.slot, PollfdVector.withSlot, List.getElem?_eq_getElem hi',
    List.getElem?_eq_getElem hi'', Option.getD_some, List.set_getElem_self]

/-- Rewriting the `struct pollfd` of an entry. -/
theorem writeData_spec {index : UInt32} (h : Sound v) (hi : index.toNat < v.size.toNat)
    (conf : Pollfd) :
    Sound (v.writeData index conf) ∧ (v.writeData index conf).size = v.size ∧
      (v.writeData index conf).moves = v.moves ∧
      (v.writeData index conf).entries =
        v.entries.set index.toNat (conf, (v.slot index.toNat).2) := by
  have hle := h.size_le
  have hdata := h.data_length
  rw [writeData_of_lt (by omega)]
  refine ⟨⟨h.size_le, by rw [List.length_set]; exact hdata, h.pd_length, h.overruns_eq⟩,
    rfl, rfl, ?_⟩
  have hget : ∀ j < v.size.toNat,
      (PollfdVector.entries { v with data := v.data.set index.toNat conf })[j]? =
        some (PollfdVector.slot { v with data := v.data.set index.toNat conf } j) :=
    fun j hj => getElem?_entries hj
  apply List.ext_getElem?
  intro j
  rcases eq_or_ne j index.toNat with rfl | hne
  · rw [List.getElem?_set_self (by rw [length_entries]; exact hi), hget _ hi]
    simp only [PollfdVector.slot]
    rw [List.getElem?_set_self (by omega)]
    rfl
  · rw [List.getElem?_set_ne hne.symm]
    rcases Nat.lt_or_ge j v.size.toNat with hj | hj
    · rw [hget j hj, getElem?_entries hj]
      simp only [PollfdVector.slot]
      rw [List.getElem?_set_ne hne.symm]
    · rw [List.getElem?_eq_none (by rw [length_entries]; exact hj),
        List.getElem?_eq_none (by rw [length_entries]; exact hj)]

end Slots

section Creating

variable {v : PollfdVector} {dataNull pdNull : Bool}

theorem pollfdvCreate_spec (hrun : pollfdvCreate dataNull pdNull = .ok v) :
    Sound v ∧ v.size = 0 ∧ v.capacity = dataInitialSize ∧
      ∀ i < v.capacity.toNat, v.slot i = ({ fd := -1 }, none) := by
  unfold pollfdvCreate at hrun
  split at hrun
  · cases hrun
  · split at hrun
    · cases hrun
    · cases hrun
      refine ⟨⟨Nat.zero_le _, by simp, by simp, rfl⟩, rfl, rfl, fun i hi => ?_⟩
      simp only [PollfdVector.slot, List.map_replicate, List.getElem?_replicate]
      rw [if_pos hi, if_pos hi]
      rfl

end Creating

section Adding

variable {v v' : PollfdVector} {conf : Pollfd} {privateData : Option Ptr} {g : Growth}

theorem pollfdvPlace_eq (h : Sound v) (hlt : v.size.toNat < v.capacity.toNat) :
    pollfdvPlace v conf privateData =
      { v.withSlot v.size.toNat (conf, privateData) with size := v.size + 1 } := by
  have hdata := h.data_length
  have hpd := h.pd_length
  unfold pollfdvPlace
  rw [writeData_of_lt (by omega)]
  dsimp only
  rw [writePd_of_lt (by dsimp only; omega)]
  rfl

/-- What `pollfdv_extend` leaves, when it returns. -/
structure Extended (v v' : PollfdVector) (moved : Bool) (junk : Nat → Pollfd) : Prop where
  size_eq : v'.size = v.size
  capacity_eq : v'.capacity = v.capacity * dataCapacityExtendMult
  data_length : v'.data.length = v'.capacity.toNat
  pd_length : v'.pd.length = v'.capacity.toNat
  overruns_eq : v'.overruns = v.overruns
  moves_eq : v'.moves = if moved then v.moves + 1 else v.moves
  slot_old : ∀ i < v.capacity.toNat, i < v'.capacity.toNat → v'.slot i = v.slot i
  slot_new : ∀ i, v.capacity.toNat ≤ i → i < v'.capacity.toNat → (v'.slot i).1 = junk i

theorem pollfdvExtend_spec (h : Sound v) (hrun : pollfdvExtend v g = .ok v') :
    ∃ moved junk, g.data = .block moved junk ∧ (∃ moved' junk', g.pd = .block moved' junk') ∧
      Extended v v' moved junk := by
  unfold pollfdvExtend at hrun
  dsimp only at hrun
  split at hrun
  · cases hrun
  · rename_i moved junk hdata
    split at hrun
    · cases hrun
    · rename_i moved' junk' hpd
      cases hrun
      have hlen := h.data_length
      have hlen' := h.pd_length
      refine ⟨moved, junk, hdata, ⟨moved', junk', hpd⟩, rfl, rfl, length_reallocated _ _ _,
        length_reallocated _ _ _, rfl, rfl, fun i hi hi' => ?_, fun i hi hi' => ?_⟩
      · simp only [PollfdVector.slot]
        rw [getElem?_reallocated hi', getElem?_reallocated hi',
          List.getElem?_eq_getElem (by omega), List.getElem?_eq_getElem (by omega)]
        rfl
      · simp only [PollfdVector.slot]
        rw [getElem?_reallocated hi', List.getElem?_eq_none (by omega)]
        rfl

/-- The vector in which `pollfdv_add` places the new entry: the given one, or
one with twice the slots. -/
theorem pollfdvAdd_cases (h : Sound v)
    (hrun : pollfdvAdd v conf privateData g = .ok v') :
    ∃ u, Sound u ∧ u.size = v.size ∧ u.size.toNat < u.capacity.toNat ∧
      v' = pollfdvPlace u conf privateData ∧
      (∀ i < v.size.toNat, u.slot i = v.slot i) ∧
      ((v.size.toNat < v.capacity.toNat ∧ u = v) ∨
        (v.size = v.capacity ∧
          ∃ moved junk, g.data = .block moved junk ∧
            (∃ moved' junk', g.pd = .block moved' junk') ∧ Extended v u moved junk)) := by
  have hle := h.size_le
  unfold pollfdvAdd at hrun
  by_cases hfull : v.size ≥ v.capacity
  · rw [if_pos hfull] at hrun
    rw [ge_iff_le, UInt32.le_iff_toNat_le] at hfull
    have hsize : v.size = v.capacity := UInt32.toNat_inj.mp (by omega)
    cases hext : pollfdvExtend v g with
    | error e =>
        rw [hext] at hrun
        cases hrun
    | ok u =>
        rw [hext] at hrun
        change (if u.size ≥ u.capacity then _ else _) = _ at hrun
        obtain ⟨moved, junk, hdata, hpd, hspec⟩ := pollfdvExtend_spec h hext
        split at hrun
        · cases hrun
        · rename_i hroom
          cases hrun
          rw [ge_iff_le, UInt32.le_iff_toNat_le, hspec.size_eq] at hroom
          refine ⟨u, ⟨?_, hspec.data_length, hspec.pd_length, ?_⟩, hspec.size_eq, ?_, rfl,
            fun i hi => ?_, .inr ⟨hsize, moved, junk, hdata, hpd, hspec⟩⟩
          · rw [hspec.size_eq]
            omega
          · rw [hspec.overruns_eq]
            exact h.overruns_eq
          · rw [hspec.size_eq]
            omega
          · exact hspec.slot_old i (by omega) (by omega)
  · rw [if_neg hfull] at hrun
    change (if v.size ≥ v.capacity then _ else _) = _ at hrun
    rw [if_neg hfull] at hrun
    cases hrun
    rw [ge_iff_le, UInt32.le_iff_toNat_le] at hfull
    exact ⟨v, h, rfl, by omega, rfl, fun _ _ => rfl, .inl ⟨by omega, rfl⟩⟩

/-- The exits of `pollfdv_add`. -/
def pollfdvAddStops : List Stop :=
  [.exit "realloc pollfdv.data", .exit "realloc pollfdv.pd",
    .exit "Did not find a place to add a new entry in pollfdv"]

theorem pollfdvExtend_error {e : Stop} (hrun : pollfdvExtend v g = .error e) :
    e ∈ pollfdvAddStops := by
  unfold pollfdvExtend at hrun
  dsimp only at hrun
  split at hrun
  · cases hrun
    simp [pollfdvAddStops]
  · split at hrun
    · cases hrun
      simp [pollfdvAddStops]
    · cases hrun

theorem pollfdvAdd_error {e : Stop} (hrun : pollfdvAdd v conf privateData g = .error e) :
    e ∈ pollfdvAddStops := by
  have hplace : ∀ u : PollfdVector, (if u.size ≥ u.capacity then
      (.error (.exit "Did not find a place to add a new entry in pollfdv") :
        Except Stop PollfdVector)
      else .ok (pollfdvPlace u conf privateData)) = .error e → e ∈ pollfdvAddStops := by
    intro u hu
    split at hu
    · cases hu
      simp [pollfdvAddStops]
    · cases hu
  unfold pollfdvAdd at hrun
  by_cases hfull : v.size ≥ v.capacity
  · rw [if_pos hfull] at hrun
    cases hext : pollfdvExtend v g with
    | error e' =>
        rw [hext] at hrun
        cases hrun
        exact pollfdvExtend_error hext
    | ok u =>
        rw [hext] at hrun
        exact hplace u hrun
  · rw [if_neg hfull] at hrun
    exact hplace v hrun

theorem moves_pollfdvAdd (h : Sound v) (hrun : pollfdvAdd v conf privateData g = .ok v') :
    v'.moves = v.moves ∨ v'.moves = v.moves + 1 := by
  obtain ⟨u, hu, -, hlt, rfl, -, hcases⟩ := pollfdvAdd_cases h hrun
  rw [pollfdvPlace_eq hu hlt]
  rcases hcases with ⟨-, rfl⟩ | ⟨-, moved, junk, -, -, hext⟩
  · exact .inl rfl
  · have hmoves := hext.moves_eq
    cases moved with
    | false => exact .inl hmoves
    | true => exact .inr hmoves

/-- An entry is added behind the others. -/
theorem pollfdvAdd_spec (h : Sound v) (hrun : pollfdvAdd v conf privateData g = .ok v') :
    Sound v' ∧ v'.size.toNat = v.size.toNat + 1 ∧
      v'.entries = v.entries ++ [(conf, privateData)] := by
  obtain ⟨u, hu, hsize, hlt, rfl, hslot, -⟩ := pollfdvAdd_cases h hrun
  have hcapacity := UInt32.toNat_lt u.capacity
  have hsucc : (u.size + 1).toNat = u.size.toNat + 1 := by
    rw [UInt32.toNat_add, UInt32.toNat_one]
    omega
  rw [pollfdvPlace_eq hu hlt]
  have hu' := hu.withSlot u.size.toNat (conf, privateData)
  refine ⟨⟨?_, hu'.data_length, hu'.pd_length, hu'.overruns_eq⟩, ?_, ?_⟩
  · change (u.size + 1).toNat ≤ u.capacity.toNat
    omega
  · rw [← hsize]
    exact hsucc
  · unfold PollfdVector.entries
    dsimp only
    rw [hsucc, List.range_succ, List.map_append, List.map_singleton, ← hsize]
    congr 1
    · apply List.map_congr_left
      intro i hi
      have hi := List.mem_range.mp hi
      exact (slot_withSlot_of_ne (by omega) _).trans (hslot i (by rw [← hsize]; exact hi))
    · congr 1
      exact slot_withSlot_self hu hlt _

end Adding

section Removing

variable {v : PollfdVector} {index : UInt32}

theorem pollfdvRemoveIndex_eq (h : Sound v) (hindex : index.toNat < v.size.toNat)
    (hfd : (v.slot index.toNat).1.fd ≠ -1) :
    pollfdvRemoveIndex v index =
      { (v.withSlot index.toNat (v.slot (v.size.toNat - 1))).withSlot (v.size.toNat - 1)
          ({ fd := -1 }, none) with size := v.size - 1 } := by
  have hle := h.size_le
  have hdata := h.data_length
  have hpd := h.pd_length
  have hlast : (v.size - 1).toNat = v.size.toNat - 1 := by
    rw [UInt32.toNat_sub_of_le _ _ (by rw [UInt32.le_iff_toNat_le, UInt32.toNat_one]; omega)]
    rfl
  have hcapacity : ¬ index ≥ v.capacity := by
    rw [ge_iff_le, UInt32.le_iff_toNat_le]
    omega
  unfold pollfdvRemoveIndex
  rw [if_neg hcapacity, if_neg (show ¬ (v.readData index).fd = -1 from hfd)]
  -- the last entry is removed from the vector whose place `index` holds it too
  have hclear : ∀ u : PollfdVector, u.data.length = v.data.length →
      u.pd.length = v.pd.length →
      ((u.writeData (v.size - 1) {}).writePd (v.size - 1) none).writeData (v.size - 1)
        { ((u.writeData (v.size - 1) {}).writePd (v.size - 1) none).readData (v.size - 1) with
          fd := -1 } = u.withSlot (v.size.toNat - 1) ({ fd := -1 }, none) := by
    intro u hu hu'
    have hzeroed : u.writeData (v.size - 1) {} = _ := writeData_of_lt (by omega) _
    rw [hzeroed, writePd_of_lt (by dsimp only; omega),
      writeData_of_lt (by dsimp only; rw [List.length_set]; omega)]
    simp only [PollfdVector.readData, PollfdVector.withSlot, hlast, List.set_set]
    rw [List.getElem?_set_self (by omega)]
    rfl
  have hcopy : (if index ≠ v.size - 1 then
      (v.writeData index (v.readData (v.size - 1))).writePd index (v.readPd (v.size - 1))
      else v) = v.withSlot index.toNat (v.slot (v.size.toNat - 1)) := by
    by_cases hne : index = v.size - 1
    · rw [if_neg (not_not.mpr hne), hne, hlast]
      exact (withSlot_slot_self h (by omega)).symm
    · rw [if_pos hne, writeData_of_lt (by omega), writePd_of_lt (by dsimp only; omega)]
      simp only [PollfdVector.readData, PollfdVector.readPd, PollfdVector.withSlot,
        PollfdVector.slot, hlast]
  dsimp only
  rw [hcopy, hclear _ (by simp [PollfdVector.withSlot]) (by simp [PollfdVector.withSlot])]
  rfl

/-- What each slot holds after a removal. -/
theorem slot_pollfdvRemoveIndex (h : Sound v) (hindex : index.toNat < v.size.toNat)
    (hfd : (v.slot index.toNat).1.fd ≠ -1) (j : Nat) :
    (pollfdvRemoveIndex v index).slot j =
      if j = v.size.toNat - 1 then ({ fd := -1 }, none)
      else if j = index.toNat then v.slot (v.size.toNat - 1)
      else v.slot j := by
  have hle := h.size_le
  have hlast := h.withSlot index.toNat (v.slot (v.size.toNat - 1))
  rw [pollfdvRemoveIndex_eq h hindex hfd]
  change ((v.withSlot index.toNat (v.slot (v.size.toNat - 1))).withSlot (v.size.toNat - 1)
    ({ fd := -1 }, none)).slot j = _
  split
  · rename_i heq
    rw [heq, slot_withSlot_self hlast (show v.size.toNat - 1 < v.capacity.toNat by omega)]
  · rename_i hne
    rw [slot_withSlot_of_ne hne]
    split
    · rename_i heq
      rw [heq, slot_withSlot_self h (by omega)]
    · rename_i hne'
      rw [slot_withSlot_of_ne hne']

theorem pollfdvRemoveIndex_spec (h : Sound v) (hindex : index.toNat < v.size.toNat)
    (hfd : (v.slot index.toNat).1.fd ≠ -1) :
    Sound (pollfdvRemoveIndex v index) ∧
      (pollfdvRemoveIndex v index).size.toNat = v.size.toNat - 1 ∧
      (pollfdvRemoveIndex v index).entries = swapRemove v.entries index.toNat := by
  have hle := h.size_le
  have hlast : (v.size - 1).toNat = v.size.toNat - 1 := by
    rw [UInt32.toNat_sub_of_le _ _ (by rw [UInt32.le_iff_toNat_le, UInt32.toNat_one]; omega)]
    rfl
  have hsize : (pollfdvRemoveIndex v index).size.toNat = v.size.toNat - 1 := by
    rw [pollfdvRemoveIndex_eq h hindex hfd]
    exact hlast
  refine ⟨?_, hsize, ?_⟩
  · rw [pollfdvRemoveIndex_eq h hindex hfd]
    have hsound := (h.withSlot index.toNat (v.slot (v.size.toNat - 1))).withSlot
      (v.size.toNat - 1) ({ fd := -1 }, none)
    refine ⟨?_, hsound.data_length, hsound.pd_length, hsound.overruns_eq⟩
    change (v.size - 1).toNat ≤ v.capacity.toNat
    omega
  · apply List.ext_getElem?
    intro j
    rcases Nat.lt_or_ge j (v.size.toNat - 1) with hj | hj
    · rw [getElem?_entries (by omega), slot_pollfdvRemoveIndex h hindex hfd,
        getElem?_swapRemove (by rw [length_entries]; omega), if_neg (by omega)]
      split
      · rw [List.getLast?_eq_getElem?, length_entries, getElem?_entries (by omega)]
      · rw [getElem?_entries (by omega)]
    · rw [List.getElem?_eq_none (by rw [length_entries]; omega),
        List.getElem?_eq_none (by rw [length_swapRemove, length_entries]; omega)]

end Removing

end EchoServers.PollVector
