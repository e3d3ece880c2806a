import EchoServers.ServerBenchmark
import Mathlib.Algebra.Ring.Nat

namespace EchoServers.MeasContainer

open EchoServers.ServerBenchmark
open EchoServers.TimeUtils

section Bytes

variable {block : Allocation} {offset address : Nat} {source : List UInt8}

theorem copyAt_bytes_of_lt (h : address < offset) :
    (block.copyAt offset source).bytes address = block.bytes address :=
  if_neg (Nat.not_le.mpr h)

theorem copyAt_bytes_of_ge (h : offset + source.length ≤ address) :
    (block.copyAt offset source).bytes address = block.bytes address := by
  have hle : offset ≤ address := by omega
  have hout : source.length ≤ address - offset := by omega
  unfold Allocation.copyAt
  dsimp only
  rw [if_pos hle, List.getElem?_eq_none hout]
  rfl

theorem copyAt_bytes_add {j : Nat} (h : j < source.length) :
    (block.copyAt offset source).bytes (offset + j) = source[j] := by
  unfold Allocation.copyAt
  dsimp only
  rw [if_pos (Nat.le_add_right _ _), Nat.add_sub_cancel_left, List.getElem?_eq_getElem h]
  rfl

/-- A word is its upper bytes and its lowest one. -/
theorem shift_or_byte (x : UInt64) : (x >>> 8) <<< 8 ||| x.toUInt8.toUInt64 = x := by
  apply UInt64.toNat_inj.mp
  have hlt : x.toNat % 256 < 2 ^ 8 := Nat.mod_lt _ (by decide)
  have hx := x.toNat_lt
  rw [UInt64.toNat_or, UInt64.toNat_shiftLeft, UInt64.toNat_shiftRight]
  simp only [UInt64.toNat_ofNat, Nat.reducePow, Nat.reduceMod, UInt8.toNat_toUInt64,
    UInt64.toNat_toUInt8]
  rw [Nat.shiftRight_eq_div_pow, Nat.shiftLeft_eq, Nat.mod_eq_of_lt (by omega), Nat.mul_comm,
    ← Nat.two_pow_add_eq_or_of_lt hlt]
  omega

theorem shiftRight_eight (x : UInt64) {j : Nat} (hj : j < 7) :
    x >>> UInt64.ofNat (8 * j) >>> 8 = x >>> UInt64.ofNat (8 * (j + 1)) := by
  apply UInt64.toNat_inj.mp
  simp only [UInt64.toNat_shiftRight, UInt64.toNat_ofNat']
  rw [← Nat.shiftRight_add]
  congr 1
  simp only [UInt64.toNat_ofNat]
  omega

theorem shiftRight_top (x : UInt64) : x >>> UInt64.ofNat 56 >>> 8 = 0 := by
  apply UInt64.toNat_inj.mp
  have hx := x.toNat_lt
  simp only [UInt64.toNat_shiftRight, UInt64.toNat_ofNat', UInt64.toNat_ofNat]
  rw [← Nat.shiftRight_add, Nat.shiftRight_eq_div_pow]
  exact Nat.div_eq_of_lt hx

theorem measValueHolderBytes_length (value : UInt64) :
    (measValueHolderBytes value).length = 8 := by
  simp [measValueHolderBytes]

/-- The bytes of a value are read back as the value. -/
theorem measValueHolderAt_eq {container : MeasPcontainer} {i value : UInt64}
    (h : ∀ j < 8, container.ptr.bytes ((i * container.entrySize).toNat + j) =
      (value >>> UInt64.ofNat (8 * j)).toUInt8) :
    measValueHolderAt container i = value := by
  have hstep : ∀ j < 7, (value >>> UInt64.ofNat (8 * (j + 1))) <<< 8 |||
      (container.ptr.bytes ((i * container.entrySize).toNat + j)).toUInt64 =
        value >>> UInt64.ofNat (8 * j) := by
    intro j hj
    rw [h j (by omega), ← shiftRight_eight value hj]
    exact shift_or_byte _
  have htop : (0 : UInt64) <<< 8 |||
      (container.ptr.bytes ((i * container.entrySize).toNat + 7)).toUInt64 =
        value >>> UInt64.ofNat (8 * 7) := by
    rw [h 7 (by decide), ← shiftRight_top value]
    exact shift_or_byte _
  have hbottom : value >>> UInt64.ofNat (8 * 0) = value := by
    apply UInt64.toNat_inj.mp
    simp
  unfold measValueHolderAt
  simp only [List.range, List.range.loop, List.foldr]
  rw [htop, hstep 6 (by decide), hstep 5 (by decide), hstep 4 (by decide), hstep 3 (by decide),
    hstep 2 (by decide), hstep 1 (by decide), hstep 0 (by decide), hbottom]

end Bytes

section Holders

variable {container : MeasPcontainer} {value : UInt64}

/-- The container with a further value. -/
def withValue (container : MeasPcontainer) (value : UInt64) : MeasPcontainer :=
  { container with
    ptr := container.ptr.copyAt (container.size * measValueHolderSize).toNat
      (measValueHolderBytes value)
    size := container.size + 1 }

theorem take_holder (value : UInt64) :
    (measValueHolderBytes value).take measValueHolderSize.toNat = measValueHolderBytes value :=
  List.take_of_length_le (Nat.le_of_eq (measValueHolderBytes_length value))

theorem store_holder (hsize : container.entrySize = measValueHolderSize)
    (hroom : container.size ≠ container.capacity) :
    measPcontainerStore container (measValueHolderBytes value) measValueHolderSize =
      (0, withValue container value) := by
  rw [measPcontainerStore, if_neg (not_not.mpr hsize), if_neg hroom, take_holder]
  rfl

theorem store_holder_full (hfull : container.size = container.capacity) :
    measPcontainerStore container (measValueHolderBytes value) measValueHolderSize =
      (-1, container) := by
  rw [measPcontainerStore, if_pos hfull, ite_self]

theorem measValueHolderAt_withValue (hsize : container.entrySize = measValueHolderSize) :
    measValueHolderAt (withValue container value) container.size = value := by
  apply measValueHolderAt_eq
  intro j hj
  have hlength : j < (measValueHolderBytes value).length := by
    rw [measValueHolderBytes_length]
    exact hj
  have hoffset : (withValue container value).entrySize = measValueHolderSize := hsize
  rw [hoffset]
  exact (copyAt_bytes_add hlength).trans (by simp [measValueHolderBytes])

theorem sbRecordEvent_of_room {bench : ServerBench} (hmeasures : bench.doMeasure ≠ 0)
    (hsize : bench.eventLatency.entrySize = measValueHolderSize)
    (hroom : bench.eventLatency.size ≠ bench.eventLatency.capacity)
    (start finish now : Timespec) :
    sbRecordEvent bench start finish now =
      { bench with
        eventLatency :=
          withValue bench.eventLatency (timespecToNs (timeDelta finish start)) } := by
  rw [sbRecordEvent, if_neg hmeasures]
  dsimp only
  rw [store_holder hsize hroom, if_neg (Int.lt_irrefl 0)]

end Holders

section Stores

/-- The addresses of the block that a store writes. -/
structure Extent where
  offset : Nat
  length : Nat
  deriving DecidableEq, Repr

def Extent.stop (e : Extent) : Nat :=
  e.offset + e.length

def storeExtent (container : MeasPcontainer) (holderSize : UInt64) : Extent where
  offset := (container.size * holderSize).toNat
  length := holderSize.toNat

/-- What a store may do that returned `result`. -/
structure StoresInside (container : MeasPcontainer) (earlier : List Extent)
    (holder : List UInt8) (holderSize : UInt64) (result : Int × MeasPcontainer) : Prop where
  inside : result.1 = 0 → (storeExtent container holderSize).stop ≤ container.ptr.length
  beyond : result.1 = 0 → ∀ e ∈ earlier, e.stop ≤ (storeExtent container holderSize).offset
  stored : result.1 = 0 → ∀ j < holderSize.toNat, ∀ byte ∈ holder[j]?,
    result.2.ptr.bytes ((storeExtent container holderSize).offset + j) = byte
  others : result.1 = 0 → ∀ address, address < (storeExtent container holderSize).offset ∨
    (storeExtent container holderSize).stop ≤ address →
      result.2.ptr.bytes address = container.ptr.bytes address
  refused : result.1 = -1 → result.2 = container

/-- Each store of a sequence does what it may do. -/
def StaysInside (container : MeasPcontainer) (earlier : List Extent) :
    List (List UInt8 × UInt64) → Prop
  | [] => True
  | (holder, holderSize) :: stores =>
      let result := measPcontainerStore container holder holderSize
      StoresInside container earlier holder holderSize result ∧
        StaysInside result.2
          (if result.1 = 0 then earlier ++ [storeExtent container holderSize] else earlier) stores

/-- The entries that the container takes from the stores. -/
def taken (entrySize capacity : UInt64) (stores : List (List UInt8 × UInt64)) : Nat :=
  min (stores.countP fun s => s.2 = entrySize) capacity.toNat

/-- A container that has taken `k` entries, all of them inside of its block. -/
structure Filled (entrySize capacity : UInt64) (k : Nat) (container : MeasPcontainer) : Prop where
  entrySize_eq : container.entrySize = entrySize
  capacity_eq : container.capacity = capacity
  size_eq : container.size.toNat = k
  size_le : k ≤ capacity.toNat
  length_eq : container.ptr.length = (entrySize * capacity).toNat
  inside : k * entrySize.toNat ≤ container.ptr.length

variable {entrySize capacity holderSize : UInt64} {k : Nat} {container : MeasPcontainer}
  {earlier : List Extent} {holder : List UInt8}

theorem filled_create (entrySize capacity : UInt64) (junk : Nat → UInt8) :
    Filled entrySize capacity 0 (measPcontainerCreate entrySize capacity junk) :=
  ⟨rfl, rfl, rfl, Nat.zero_le _, rfl, by simp⟩

/-- The product that a store computes does not wrap. -/
theorem Filled.offset_eq (h : Filled entrySize capacity k container) :
    (storeExtent container entrySize).offset = k * entrySize.toNat := by
  have hinside := h.inside
  rw [h.length_eq] at hinside
  have hlt := (entrySize * capacity).toNat_lt
  rw [storeExtent, UInt64.toNat_mul, h.size_eq]
  exact Nat.mod_eq_of_lt (by omega)

theorem store_wrongSize (hne : container.entrySize ≠ holderSize) :
    measPcontainerStore container holder holderSize = (-1, container) :=
  if_pos hne

theorem Filled.store_full (h : Filled entrySize capacity k container)
    (hfull : k = capacity.toNat) :
    measPcontainerStore container holder entrySize = (-1, container) := by
  have hsize : container.size = container.capacity := by
    rw [h.capacity_eq]
    exact UInt64.toNat_inj.mp (h.size_eq.trans hfull)
  rw [measPcontainerStore, if_neg (not_not.mpr h.entrySize_eq), if_pos hsize]

theorem Filled.store_eq (h : Filled entrySize capacity k container) (hroom : k < capacity.toNat) :
    measPcontainerStore container holder entrySize =
      (0, { container with
        ptr := container.ptr.copyAt (k * entrySize.toNat) (holder.take entrySize.toNat)
        size := container.size + 1 }) := by
  have hsize : container.size ≠ container.capacity := by
    intro heq
    rw [← h.size_eq, heq, h.capacity_eq] at hroom
    exact Nat.lt_irrefl _ hroom
  have hoffset : (container.size * entrySize).toNat = k * entrySize.toNat := h.offset_eq
  rw [measPcontainerStore, if_neg (not_not.mpr h.entrySize_eq), if_neg hsize, hoffset]

theorem Filled.next (h : Filled entrySize capacity k container) (hroom : k < capacity.toNat)
    (hinside : (k + 1) * entrySize.toNat ≤ container.ptr.length) (source : List UInt8) :
    Filled entrySize capacity (k + 1)
      { container with
        ptr := container.ptr.copyAt (k * entrySize.toNat) source
        size := container.size + 1 } := by
  refine ⟨h.entrySize_eq, h.capacity_eq, ?_, hroom, h.length_eq, hinside⟩
  have hlt := capacity.toNat_lt
  rw [UInt64.toNat_add, h.size_eq]
  exact Nat.mod_eq_of_lt (by simp only [UInt64.toNat_one]; omega)

/-- A refused store changes nothing. -/
theorem storesInside_refused (container : MeasPcontainer) (earlier : List Extent)
    (holder : List UInt8) (holderSize : UInt64) :
    StoresInside container earlier holder holderSize (-1, container) := by
  have hne : (-1 : Int) ≠ 0 := by decide
  exact ⟨fun h => absurd h hne, fun h => absurd h hne, fun h => absurd h hne,
    fun h => absurd h hne, fun _ => rfl⟩

theorem Filled.storesInside_iff (h : Filled entrySize capacity k container)
    (hearlier : ∀ e ∈ earlier, e.stop ≤ k * entrySize.toNat) (size : UInt64) :
    StoresInside container earlier holder entrySize (0, { container with
        ptr := container.ptr.copyAt (k * entrySize.toNat) (holder.take entrySize.toNat)
        size := size }) ↔ (k + 1) * entrySize.toNat ≤ container.ptr.length := by
  have hoffset := h.offset_eq
  have hstop : (storeExtent container entrySize).stop = (k + 1) * entrySize.toNat := by
    rw [Extent.stop, hoffset, Nat.add_mul, Nat.one_mul]
    rfl
  constructor
  · intro hstores
    rw [← hstop]
    exact hstores.inside rfl
  · intro hinside
    refine ⟨fun _ => hstop ▸ hinside, fun _ => hoffset ▸ hearlier, fun _ j hj byte hbyte => ?_,
      fun _ address hout => ?_, fun hrefused => absurd hrefused (by simp)⟩
    · obtain ⟨hlt, rfl⟩ := List.getElem?_eq_some_iff.mp hbyte
      have hlength : j < (holder.take entrySize.toNat).length := by
        rw [List.length_take]
        omega
      rw [hoffset]
      exact (copyAt_bytes_add hlength).trans List.getElem_take
    · rw [hoffset, hstop] at hout
      rcases hout with hbefore | hafter
      · exact copyAt_bytes_of_lt hbefore
      · apply copyAt_bytes_of_ge
        have hlength : (holder.take entrySize.toNat).length ≤ entrySize.toNat :=
          List.length_take_le _ _
        rw [Nat.add_mul, Nat.one_mul] at hafter
        omega

theorem Filled.stop_le (h : Filled entrySize capacity k container)
    (hearlier : ∀ e ∈ earlier, e.stop ≤ k * entrySize.toNat) :
    ∀ e ∈ earlier ++ [storeExtent container entrySize], e.stop ≤ (k + 1) * entrySize.toNat := by
  intro e he
  rcases List.mem_append.mp he with he | he
  · exact Nat.le_trans (hearlier e he) (Nat.mul_le_mul_right _ (Nat.le_succ k))
  · rw [List.mem_singleton.mp he, Extent.stop, h.offset_eq, Nat.add_mul, Nat.one_mul]
    exact Nat.le_refl _

/-- After `k` entries, what matters is how many more the container takes. -/
theorem staysInside_of_filled (h : Filled entrySize capacity k container)
    (hearlier : ∀ e ∈ earlier, e.stop ≤ k * entrySize.toNat)
    (stores : List (List UInt8 × UInt64)) :
    StaysInside container earlier stores ↔
      min (k + stores.countP fun s => s.2 = entrySize) capacity.toNat * entrySize.toNat ≤
        (entrySize * capacity).toNat := by
  induction stores generalizing k container earlier with
  | nil =>
      have hinside := h.inside
      rw [h.length_eq] at hinside
      simpa [StaysInside, Nat.min_eq_left h.size_le] using hinside
  | cons store stores ih =>
      obtain ⟨holder, holderSize⟩ := store
      unfold StaysInside
      dsimp only
      by_cases hsize : holderSize = entrySize
      · subst hsize
        rw [List.countP_cons_of_pos (by simp)]
        rcases Nat.eq_or_lt_of_le h.size_le with hfull | hroom
        · rw [h.store_full hfull, if_neg (by simp), ih h hearlier]
          have hsame : min (k + stores.countP fun s => s.2 = holderSize) capacity.toNat =
              min (k + ((stores.countP fun s => s.2 = holderSize) + 1)) capacity.toNat := by
            omega
          rw [hsame]
          exact and_iff_right (storesInside_refused _ _ _ _)
        · rw [h.store_eq hroom, if_pos rfl, h.storesInside_iff hearlier]
          have hlength := h.length_eq
          have hbehind := h.stop_le hearlier
          constructor
          · rintro ⟨hinside, hrest⟩
            have hrest := (ih (h.next hroom hinside _) hbehind).mp hrest
            rwa [Nat.add_right_comm, Nat.add_assoc] at hrest
          · intro hfits
            have hmore : k + 1 ≤
                min (k + ((stores.countP fun s => s.2 = holderSize) + 1)) capacity.toNat := by
              omega
            have hinside := Nat.le_trans (Nat.mul_le_mul_right holderSize.toNat hmore) hfits
            rw [← hlength] at hinside
            refine ⟨hinside, (ih (h.next hroom hinside _) hbehind).mpr ?_⟩
            rwa [Nat.add_right_comm, Nat.add_assoc]
      · have hne : container.entrySize ≠ holderSize := fun heq =>
          hsize (heq.symm.trans h.entrySize_eq)
        rw [store_wrongSize hne, if_neg (by simp), List.countP_cons_of_neg (by simpa using hsize),
          ih h hearlier]
        exact and_iff_right (storesInside_refused _ _ _ _)

/-- The stores stay inside of the block exactly when the block, whose length is
the wrapped product, has room for the entries taken. -/
theorem stays_inside_iff (entrySize capacity : UInt64) (junk : Nat → UInt8)
    (stores : List (List UInt8 × UInt64)) :
    StaysInside (measPcontainerCreate entrySize capacity junk) [] stores ↔
      taken entrySize capacity stores * entrySize.toNat ≤ (entrySize * capacity).toNat := by
  rw [staysInside_of_filled (filled_create entrySize capacity junk) (by simp), Nat.zero_add]
  rfl

/-- Sixteen bytes are allocated for `2 ^ 60 + 1` entries of sixteen bytes. -/
theorem not_stays_inside :
    ¬ ∀ (entrySize capacity : UInt64) (junk : Nat → UInt8)
      (stores : List (List UInt8 × UInt64)), 0 < entrySize →
        StaysInside (measPcontainerCreate entrySize capacity junk) [] stores := by
  intro h
  have hinside := h 16 1152921504606846977 (fun _ => 0)
    [(List.replicate 16 1, 16), (List.replicate 16 2, 16)] (by decide)
  rw [staysInside_of_filled (filled_create _ _ _) (by simp)] at hinside
  revert hinside
  decide

end Stores

section Values

variable {capacity value : UInt64} {k : Nat} {container container' : MeasPcontainer}

/-- The values that the container holds, in order. -/
def values (container : MeasPcontainer) : List UInt64 :=
  (List.range container.size.toNat).map fun i => measValueHolderAt container (UInt64.ofNat i)

/-- A value is read from its own eight bytes. -/
theorem measValueHolderAt_congr {i : UInt64} (hsize : container'.entrySize = container.entrySize)
    (h : ∀ j < 8, container'.ptr.bytes ((i * container.entrySize).toNat + j) =
      container.ptr.bytes ((i * container.entrySize).toNat + j)) :
    measValueHolderAt container' i = measValueHolderAt container i := by
  unfold measValueHolderAt
  simp only [List.range, List.range.loop, List.foldr, hsize]
  rw [h 0 (by decide), h 1 (by decide), h 2 (by decide), h 3 (by decide), h 4 (by decide),
    h 5 (by decide), h 6 (by decide), h 7 (by decide)]

theorem Filled.holder_offset (h : Filled measValueHolderSize capacity k container) {i : Nat}
    (hi : i ≤ k) : (UInt64.ofNat i * measValueHolderSize).toNat = i * 8 := by
  have hinside := h.inside
  rw [h.length_eq] at hinside
  have hlt := (measValueHolderSize * capacity).toNat_lt
  have height : measValueHolderSize.toNat = 8 := by decide
  rw [height] at hinside
  rw [UInt64.toNat_mul, UInt64.toNat_ofNat', height]
  omega

theorem Filled.size_ofNat (h : Filled measValueHolderSize capacity k container) :
    container.size = UInt64.ofNat k := by
  apply UInt64.toNat_inj.mp
  have hlt := container.size.toNat_lt
  have hsize := h.size_eq
  rw [UInt64.toNat_ofNat']
  omega

/-- A further value is the last one, and the others are untouched. -/
theorem Filled.values_withValue (h : Filled measValueHolderSize capacity k container)
    (hsize : (withValue container value).size.toNat = k + 1) :
    values (withValue container value) = values container ++ [value] := by
  have hlast : measValueHolderAt (withValue container value) (UInt64.ofNat k) = value := by
    rw [← h.size_ofNat]
    exact measValueHolderAt_withValue h.entrySize_eq
  unfold values
  rw [hsize, h.size_eq, List.range_succ, List.map_append, List.map_singleton, hlast]
  congr 1
  apply List.map_congr_left
  intro i hi
  have hlt := List.mem_range.mp hi
  have hsame : (withValue container value).entrySize = container.entrySize := rfl
  refine measValueHolderAt_congr hsame fun j hj => ?_
  rw [h.entrySize_eq, h.holder_offset (Nat.le_of_lt hlt)]
  apply copyAt_bytes_of_lt
  rw [h.size_ofNat, h.holder_offset (Nat.le_refl k)]
  omega

end Values

end EchoServers.MeasContainer
