import EchoServers.PageTables
import EchoServers.UringServer

/-!
How the rings come into the address space of the program, and how they leave it.
-/

namespace EchoServers.UringRings

open EchoServers.PageTables
open EchoServers.SocketKernel
open EchoServers.StateTriples
open EchoServers.UringMemory
open EchoServers.UringServer
open EchoServers.Utils

/-- `struct io_sqring_offsets`, less what is not used. -/
structure IoSqringOffsets where
  head : UInt32 := 0
  tail : UInt32 := 0
  ringMask : UInt32 := 0
  ringEntries : UInt32 := 0
  flags : UInt32 := 0
  array : UInt32 := 0
  deriving DecidableEq, Repr

/-- `struct io_cqring_offsets`, less what is not used. -/
structure IoCqringOffsets where
  head : UInt32 := 0
  tail : UInt32 := 0
  ringMask : UInt32 := 0
  ringEntries : UInt32 := 0
  cqes : UInt32 := 0
  deriving DecidableEq, Repr

/-- `struct io_uring_params`; the default value is the zeroed structure. -/
structure IoUringParams where
  sqEntries : UInt32 := 0
  cqEntries : UInt32 := 0
  flags : UInt32 := 0
  sqThreadCpu : UInt32 := 0
  sqThreadIdle : UInt32 := 0
  features : UInt32 := 0
  sqOff : IoSqringOffsets := {}
  cqOff : IoCqringOffsets := {}
  deriving DecidableEq, Repr

def ioringFeatSingleMmap : UInt32 := 0x1
def ioringFeatSqpollNonfixed : UInt32 := 0x80

def kernelThreadIdleSleepTimeMs : UInt32 := 3100
def kernelThreadCpuBind : UInt32 := 0

/-- An address; 0 is `NULL`. -/
abbrev Address := Nat

/-- `struct iou_sq_ring` -/
structure SqPointers where
  head : Address := 0
  tail : Address := 0
  ringMask : Address := 0
  ringEntries : Address := 0
  flags : Address := 0
  array : Address := 0
  deriving DecidableEq, Repr

/-- `struct iou_cq_ring` -/
structure CqPointers where
  head : Address := 0
  tail : Address := 0
  ringMask : Address := 0
  ringEntries : Address := 0
  cqes : Address := 0
  deriving DecidableEq, Repr

/-- `struct iou` with its pointers. -/
structure MappedIou where
  ringFd : Fd := 0
  ringSize : UInt32 := 0
  configuration : IoUringParams := {}
  sqRing : SqPointers := {}
  sqes : Address := 0
  cqRing : CqPointers := {}
  sqPtrMapped : Address := 0
  sqMappedSize : UInt32 := 0
  cqPtrMapped : Address := 0
  cqMappedSize : UInt32 := 0
  sqePtrMapped : Address := 0
  sqeMappedSize : UInt32 := 0
  deriving DecidableEq, Repr

def sizeofUnsignedInt : Nat := 4
def sizeofIoUringCqe : Nat := 16
def sizeofIoUringSqe : Nat := 64
def pageSize : Nat := 4096

/-- The parts of a ring that can be mapped, by the offset given to `mmap`. -/
inductive Area where
  | sqRing
  | cqRing
  | sqes
  deriving DecidableEq, Repr

/-- What a page is backed by. -/
inductive Backing where
  | ring (fd : Fd) (area : Area) (page : Nat)
  | other
  deriving DecidableEq, Repr

/-- The memory of a ring: what is found at a byte of an area. -/
structure RingMemory where
  word : Area → Nat → UInt32
  cqe : Area → Nat → Cqe
  sqe : Nat → Sqe

inductive OpenFile where
  | ring (memory : RingMemory)
  | other

/-- What `io_uring_setup` decides: the sizes, the features and where the parts
of the rings lie.  The entries of a ring are behind the words of its header, and
end below 4 GiB. -/
structure Geometry where
  sqBits : Nat
  cqBits : Nat
  features : UInt32
  sqOff : IoSqringOffsets
  cqOff : IoCqringOffsets
  sqBits_le : sqBits ≤ 15
  cqBits_le : cqBits ≤ 16
  sqWords : ∀ offset ∈ [sqOff.head, sqOff.tail, sqOff.ringMask, sqOff.ringEntries, sqOff.flags],
    offset.toNat + sizeofUnsignedInt ≤ sqOff.array.toNat
  cqWords : ∀ offset ∈ [cqOff.head, cqOff.tail, cqOff.ringMask, cqOff.ringEntries],
    offset.toNat + sizeofUnsignedInt ≤ cqOff.cqes.toNat
  sqEnd : sqOff.array.toNat + 2 ^ sqBits * sizeofUnsignedInt < 2 ^ 32
  cqEnd : cqOff.cqes.toNat + 2 ^ cqBits * sizeofIoUringCqe < 2 ^ 32

def Geometry.single (g : Geometry) : Bool :=
  decide (g.features &&& ioringFeatSingleMmap ≠ 0)

/-- The area in which the completion ring is found. -/
def Geometry.cqArea (g : Geometry) : Area :=
  if g.single then .sqRing else .cqRing

/-- The memory of a new ring: equal indices, and the masks and sizes in place. -/
structure Setup extends Geometry where
  memory : RingMemory
  sqEmpty : memory.word .sqRing sqOff.head.toNat = memory.word .sqRing sqOff.tail.toNat
  sqMask : memory.word .sqRing sqOff.ringMask.toNat = UInt32.ofNat (2 ^ sqBits - 1)
  sqSize : memory.word .sqRing sqOff.ringEntries.toNat = UInt32.ofNat (2 ^ sqBits)
  cqEmpty : memory.word toGeometry.cqArea cqOff.head.toNat =
    memory.word toGeometry.cqArea cqOff.tail.toNat
  cqMask : memory.word toGeometry.cqArea cqOff.ringMask.toNat = UInt32.ofNat (2 ^ cqBits - 1)
  cqSize : memory.word toGeometry.cqArea cqOff.ringEntries.toNat = UInt32.ofNat (2 ^ cqBits)

/-- The kernel's answer to one call. -/
structure Answer where
  /-- The error of a call that fails. -/
  errno : Option Nat := none
  /-- The number of the ring's descriptor. -/
  fd : Fd := 0
  setup : Option Setup := none
  /-- The first page of a new mapping. -/
  page : Nat := 0

/-- The descriptors and the address space of the program. -/
structure Process where
  files : Fd → Option OpenFile := fun _ => none
  table : PageTable Backing := fun _ => none
  /-- The calls of `mmap` and `munmap`, of `io_uring_setup` and `close` that
  succeeded, in order. -/
  mapped : List (Address × UInt32) := []
  unmapped : List (Address × UInt32) := []
  opened : List Fd := []
  closed : List Fd := []
  sched : List Answer := []

section Calls

/-- The calls after the last answer fail. -/
def nextAnswer : Program Process Answer :=
  modifyGet fun p =>
    match p.sched with
    | [] => ({ errno := some 12 }, p)
    | a :: as => (a, { p with sched := as })

/-- The parameters as the kernel leaves them. -/
def Geometry.report (g : Geometry) (p : IoUringParams) : IoUringParams :=
  { p with
    sqEntries := UInt32.ofNat (2 ^ g.sqBits)
    cqEntries := UInt32.ofNat (2 ^ g.cqBits)
    features := g.features
    sqOff := g.sqOff
    cqOff := g.cqOff }

/-- The rings have room for the entries asked for, and the descriptor is new. -/
def ioUringSetup (entries : UInt32) (params : IoUringParams) :
    Program Process (Int × IoUringParams) := do
  let answer ← nextAnswer
  let p ← get
  match answer.errno, answer.setup with
  | none, some setup =>
      if 0 < entries.toNat ∧ entries.toNat ≤ 2 ^ setup.sqBits ∧ 0 ≤ answer.fd ∧
          (p.files answer.fd).isNone then do
        modify fun p => { p with
          files := Function.update p.files answer.fd (some (.ring setup.memory))
          opened := p.opened ++ [answer.fd] }
        pure (answer.fd, setup.report params)
      else pure (-22, params)
  | some errno, _ => pure (-(Int.ofNat errno + 1), params)
  | none, none => pure (-22, params)

def pagesOf (length : UInt32) : Nat :=
  (length.toNat + (pageSize - 1)) / pageSize

/-- The pages that `mmap` gives to `length` bytes of an area. -/
def regionAt (fd : Fd) (area : Area) (address : Address) (length : UInt32) : Region Backing where
  start := address / pageSize
  pages := pagesOf length
  backing := fun i => .ring fd area i

/-- `none` is `MAP_FAILED`; a mapping gets pages where nothing is mapped, and
never the first page. -/
def mmap (length : UInt32) (fd : Fd) (area : Area) : Program Process (Option Address) := do
  let answer ← nextAnswer
  let p ← get
  let address := answer.page * pageSize
  let region := regionAt fd area address length
  if answer.errno.isNone ∧ 0 < length.toNat ∧ 0 < answer.page ∧
      ∀ i < region.pages, (p.table (region.start + i)).isNone then do
    modify fun p => { p with
      table := map p.table region
      mapped := p.mapped ++ [(address, length)] }
    pure (some address)
  else pure none

/-- Whole mappings are unmapped, which does not fail. -/
def munmap (address : Address) (length : UInt32) : Program Process Int :=
  if address % pageSize = 0 ∧ 0 < length.toNat then do
    modify fun p => { p with
      table := unmap p.table (regionAt 0 .sqRing address length)
      unmapped := p.unmapped ++ [(address, length)] }
    pure 0
  else pure (-1)

def closeRing (fd : Fd) : Program Process Int := do
  let p ← get
  if (p.files fd).isSome then do
    modify fun p => { p with
      files := Function.update p.files fd none
      closed := p.closed ++ [fd] }
    pure 0
  else pure (-1)

end Calls

section Create

def iouConfigParams (useKernelPooling : Bool) : IoUringParams :=
  let p : IoUringParams := {}
  let p := { p with flags := p.flags ||| ioringSetupSingleIssuer }
  if !useKernelPooling then { p with flags := p.flags ||| ioringSetupCoopTaskrun }
  else
    let p := { p with
      flags := p.flags ||| ioringSetupSqpoll
      sqThreadIdle := kernelThreadIdleSleepTimeMs }
    { p with
      flags := p.flags ||| ioringSetupSqAff
      sqThreadCpu := kernelThreadCpuBind }

def iouCheckFeatures (p : IoUringParams) (useKernelPooling : Bool) : Program Process PUnit :=
  if !useKernelPooling then pure ⟨⟩
  else whenTrue (p.features &&& ioringFeatSqpollNonfixed = 0) <|
    exitFailure "Necessary feature IORING_FEAT_SQPOLL_NONFIXED not supported\n"

def assertMapped (address : Option Address) (text : String) : Program Process Address :=
  match address with
  | none => exitFailure text
  | some address => pure address

def sringSize (p : IoUringParams) : UInt32 :=
  UInt32.ofNat (p.sqOff.array.toNat + p.sqEntries.toNat * sizeofUnsignedInt)

def cringSize (p : IoUringParams) : UInt32 :=
  UInt32.ofNat (p.cqOff.cqes.toNat + p.cqEntries.toNat * sizeofIoUringCqe)

/-- The lengths of the mappings of the two rings, in 32 bits. -/
def ringSizes (p : IoUringParams) : UInt32 × UInt32 :=
  if p.features &&& ioringFeatSingleMmap ≠ 0 then
    let sringSize := if cringSize p > sringSize p then cringSize p else sringSize p
    (sringSize, sringSize)
  else (sringSize p, cringSize p)

/-- The structure with everything in it but the mappings and the pointers. -/
def unmappedIou (ringFd : Fd) (p : IoUringParams) (ringSize : UInt32) : MappedIou :=
  { ringFd, ringSize, configuration := p }

/-- The pointers into the mappings. -/
def MappedIou.pointInto (iou : MappedIou) (p : IoUringParams) (sqPtr cqPtr sqes : Address) :
    MappedIou :=
  { iou with
    sqRing :=
      { head := sqPtr + p.sqOff.head.toNat
        tail := sqPtr + p.sqOff.tail.toNat
        ringMask := sqPtr + p.sqOff.ringMask.toNat
        ringEntries := sqPtr + p.sqOff.ringEntries.toNat
        flags := sqPtr + p.sqOff.flags.toNat
        array := sqPtr + p.sqOff.array.toNat }
    sqes := sqes
    cqRing :=
      { head := cqPtr + p.cqOff.head.toNat
        tail := cqPtr + p.cqOff.tail.toNat
        ringMask := cqPtr + p.cqOff.ringMask.toNat
        ringEntries := cqPtr + p.cqOff.ringEntries.toNat
        cqes := cqPtr + p.cqOff.cqes.toNat } }

def iouMmapRings (ringFd : Fd) (p : IoUringParams) (ringSize : UInt32) :
    Program Process MappedIou := do
  let iou := unmappedIou ringFd p ringSize
  let (sringSize, cringSize) := ringSizes p
  let sqPtr ← mmap sringSize ringFd .sqRing
  let sqPtr ← assertMapped sqPtr "mmap submission queue"
  let iou := { iou with sqPtrMapped := sqPtr, sqMappedSize := sringSize }
  let (iou, cqPtr) ←
    if p.features &&& ioringFeatSingleMmap ≠ 0 then pure (iou, sqPtr)
    else do
      let cqPtr ← mmap cringSize ringFd .cqRing
      let cqPtr ← assertMapped cqPtr "mmap completion queue"
      pure ({ iou with cqPtrMapped := cqPtr, cqMappedSize := cringSize }, cqPtr)
  let sqeMappedSize := UInt32.ofNat (p.sqEntries.toNat * sizeofIoUringSqe)
  let sqes ← mmap sqeMappedSize ringFd .sqes
  let sqes ← assertMapped sqes "mmap submission queue entries"
  let iou := { iou with sqePtrMapped := sqes, sqeMappedSize := sqeMappedSize }
  pure (iou.pointInto p sqPtr cqPtr sqes)

def iouCreate (ringSize : UInt32) (useKernelPooling : Bool) : Program Process MappedIou := do
  let (ringFd, p) ← ioUringSetup ringSize (iouConfigParams useKernelPooling)
  whenTrue (ringFd < 0) <| exitFailure "io_uring_setup failed"
  iouCheckFeatures p useKernelPooling
  iouMmapRings ringFd p ringSize

def iouFree (iou : MappedIou) : Program Process MappedIou := do
  let rc ← munmap iou.sqPtrMapped iou.sqMappedSize
  assertZero rc "munmap(sq_ring)"
  whenTrue (iou.cqPtrMapped ≠ 0) do
    let rc ← munmap iou.cqPtrMapped iou.cqMappedSize
    assertZero rc "munmap(cq_ring)"
  let rc ← munmap iou.sqePtrMapped iou.sqeMappedSize
  assertZero rc "munmap(sqe_array)"
  let rc ← closeRing iou.ringFd
  assertZero rc "close(ring_fd)"
  pure { ({} : MappedIou) with ringFd := -1 }

end Create

section Rules

variable {c : Process}

/-- The process is `c`, whatever the kernel answers from now on. -/
def Is (c p : Process) : Prop :=
  ∃ answers, p = { c with sched := answers }

theorem triple_nextAnswer : Triple (Is c) nextAnswer fun _ => Is c := by
  apply Triple.modifyGet
  rintro p ⟨answers, rfl⟩
  cases answers with
  | nil => exact ⟨_, rfl⟩
  | cons a as => exact ⟨as, rfl⟩

/-- What a ring takes up in the process. -/
def Process.openRing (p : Process) (fd : Fd) (memory : RingMemory) : Process :=
  { p with
    files := Function.update p.files fd (some (.ring memory))
    opened := p.opened ++ [fd] }

def Process.mapArea (p : Process) (fd : Fd) (area : Area) (address : Address) (length : UInt32) :
    Process :=
  { p with
    table := map p.table (regionAt fd area address length)
    mapped := p.mapped ++ [(address, length)] }

def Process.unmapArea (p : Process) (address : Address) (length : UInt32) : Process :=
  { p with
    table := unmap p.table (regionAt 0 .sqRing address length)
    unmapped := p.unmapped ++ [(address, length)] }

def Process.closeRing (p : Process) (fd : Fd) : Process :=
  { p with
    files := Function.update p.files fd none
    closed := p.closed ++ [fd] }

theorem triple_ioUringSetup (entries : UInt32) (params : IoUringParams) :
    Triple (Is c) (ioUringSetup entries params) fun r p => r.1 < 0 ∨
      ∃ setup : Setup, 0 < entries.toNat ∧ entries.toNat ≤ 2 ^ setup.sqBits ∧
        c.files r.1 = none ∧ r.2 = setup.report params ∧ Is (c.openRing r.1 setup.memory) p := by
  have hinval : (-22 : Int) < 0 := by decide
  refine triple_nextAnswer.bind fun answer => Triple.get_bind fun p hp => ?_
  obtain ⟨answers, rfl⟩ := hp
  split
  · rename_i setup _ _
    refine Triple.ite (fun hnew => ?_) fun _ => Triple.pure _ fun _ _ => .inl hinval
    obtain ⟨hpos, hle, -, hnone⟩ := hnew
    apply Triple.modify_bind
    apply Triple.pure
    rintro p rfl
    exact .inr ⟨setup, hpos, hle, Option.isNone_iff_eq_none.mp hnone, rfl, answers, rfl⟩
  · refine Triple.pure _ fun _ _ => .inl ?_
    exact Int.neg_neg_of_pos (Int.lt_add_one_of_le (Int.natCast_nonneg _))
  · exact Triple.pure _ fun _ _ => .inl hinval

/-- Where an area can be mapped. -/
structure Fits (t : PageTable Backing) (fd : Fd) (area : Area) (address : Address)
    (length : UInt32) : Prop where
  nonnull : address ≠ 0
  aligned : address % pageSize = 0
  nonempty : 0 < length.toNat
  free : Free t (regionAt fd area address length)

theorem triple_mmap (length : UInt32) (fd : Fd) (area : Area) (text : String) {α : Type}
    {f : Address → Program Process α} {Q : α → Process → Prop}
    (hf : ∀ address, Fits c.table fd area address length →
      Triple (Is (c.mapArea fd area address length)) (f address) Q) :
    Triple (Is c) (mmap length fd area >>= fun a => assertMapped a text >>= f) Q := by
  have hmmap : Triple (Is c) (mmap length fd area) fun r p => r = none ∨
      ∃ address, r = some address ∧ Fits c.table fd area address length ∧
        Is (c.mapArea fd area address length) p := by
    refine triple_nextAnswer.bind fun answer => Triple.get_bind fun p hp => ?_
    obtain ⟨answers, rfl⟩ := hp
    refine Triple.ite (fun hfits => ?_) fun _ => Triple.pure _ fun _ _ => .inl rfl
    obtain ⟨-, hpos, hpage, hfree⟩ := hfits
    apply Triple.modify_bind
    apply Triple.pure
    rintro p rfl
    refine .inr ⟨_, rfl, ⟨?_, Nat.mul_mod_left .., hpos, fun page hpage => ?_⟩, answers, rfl⟩
    · exact Nat.mul_ne_zero (by omega) (by decide)
    · obtain ⟨hle, hlt⟩ := hpage
      have hnone := hfree (page - (regionAt fd area (answer.page * pageSize) length).start)
        (by omega)
      rw [Nat.add_sub_cancel' hle, Option.isNone_iff_eq_none] at hnone
      exact hnone
  refine hmmap.bind fun r => ?_
  cases r with
  | none => exact (triple_exitFailure (R := fun _ _ => False) text).bind fun _ _ hnone => hnone.elim
  | some a =>
      intro p hp
      rcases hp with hp | ⟨address, heq, hfits, hp⟩
      · cases hp
      · cases heq
        exact hf a hfits p hp

end Rules

section Created

/-- The areas that `iou_free` unmaps, in that order. -/
def MappedIou.areas (iou : MappedIou) : List (Area × Address × UInt32) :=
  (.sqRing, iou.sqPtrMapped, iou.sqMappedSize) ::
    ((if iou.cqPtrMapped ≠ 0 then [(.cqRing, iou.cqPtrMapped, iou.cqMappedSize)] else []) ++
      [(.sqes, iou.sqePtrMapped, iou.sqeMappedSize)])

def regionsOf (fd : Fd) (areas : List (Area × Address × UInt32)) : List (Region Backing) :=
  areas.map fun a => regionAt fd a.1 a.2.1 a.2.2

def MappedIou.regions (iou : MappedIou) : List (Region Backing) :=
  regionsOf iou.ringFd iou.areas

def MappedIou.mappings (iou : MappedIou) : List (Address × UInt32) :=
  iou.areas.map Prod.snd

def Process.mapAreas (p : Process) (fd : Fd) (areas : List (Area × Address × UInt32)) : Process :=
  { p with
    table := mapAll p.table (regionsOf fd areas)
    mapped := p.mapped ++ areas.map Prod.snd }

theorem mapAreas_cons (p : Process) (fd : Fd) (area : Area) (address : Address)
    (length : UInt32) (areas : List (Area × Address × UInt32)) :
    p.mapAreas fd ((area, address, length) :: areas) =
      (p.mapArea fd area address length).mapAreas fd areas := by
  simp only [Process.mapAreas, Process.mapArea, List.map_cons, List.append_assoc,
    List.singleton_append]
  rfl

/-- What `iou_mmap_rings` returns, and what it has done to the process `c`. -/
structure Mapped (c : Process) (ringFd : Fd) (params : IoUringParams) (ringSize : UInt32)
    (iou : MappedIou) (p : Process) : Prop where
  process : Is (c.mapAreas ringFd iou.areas) p
  placed : Placed c.table iou.regions
  wellFormed : ∀ a ∈ iou.areas, a.2.1 % pageSize = 0 ∧ 0 < a.2.2.toNat
  ringFd_eq : iou.ringFd = ringFd
  ringSize_eq : iou.ringSize = ringSize
  configuration_eq : iou.configuration = params
  sqSize : iou.sqMappedSize = (ringSizes params).1
  sqeSize : iou.sqeMappedSize = UInt32.ofNat (params.sqEntries.toNat * sizeofIoUringSqe)
  single : params.features &&& ioringFeatSingleMmap ≠ 0 →
    iou.cqPtrMapped = 0 ∧
      iou = iou.pointInto params iou.sqPtrMapped iou.sqPtrMapped iou.sqePtrMapped
  double : params.features &&& ioringFeatSingleMmap = 0 →
    iou.cqPtrMapped ≠ 0 ∧ iou.cqMappedSize = (ringSizes params).2 ∧
      iou = iou.pointInto params iou.sqPtrMapped iou.cqPtrMapped iou.sqePtrMapped

theorem triple_iouMmapRings (c : Process) (ringFd : Fd) (params : IoUringParams)
    (ringSize : UInt32) :
    Triple (Is c) (iouMmapRings ringFd params ringSize) (Mapped c ringFd params ringSize) := by
  unfold iouMmapRings
  rcases hsizes : ringSizes params with ⟨sringSize, cringSize⟩
  have hsring : sringSize = (ringSizes params).1 := (congrArg Prod.fst hsizes).symm
  have hcring : cringSize = (ringSizes params).2 := (congrArg Prod.snd hsizes).symm
  refine triple_mmap _ _ _ _ fun sqPtr hsq => ?_
  by_cases hsingle : params.features &&& ioringFeatSingleMmap ≠ 0
  · rw [if_pos hsingle, pure_bind]
    refine triple_mmap _ _ _ _ fun sqes hsqes => Triple.pure _ fun p hp => ?_
    constructor
    · change Is (c.mapAreas ringFd [(.sqRing, _, _), (.sqes, _, _)]) p
      rw [mapAreas_cons]
      exact hp
    · exact ⟨hsq.free, hsqes.free, trivial⟩
    · intro a ha
      rcases List.mem_cons.mp ha with rfl | ha
      · exact ⟨hsq.aligned, hsq.nonempty⟩
      · rcases List.mem_singleton.mp ha with rfl
        exact ⟨hsqes.aligned, hsqes.nonempty⟩
    · rfl
    · rfl
    · rfl
    · exact hsring
    · rfl
    · exact fun _ => ⟨rfl, rfl⟩
    · exact fun hdouble => absurd hdouble hsingle
  · rw [if_neg hsingle]
    refine triple_mmap _ _ _ _ fun cqPtr hcq => ?_
    rw [pure_bind]
    refine triple_mmap _ _ _ _ fun sqes hsqes => Triple.pure _ fun p hp => ?_
    have hareas : ∀ iou : MappedIou, iou.sqPtrMapped = sqPtr → iou.sqMappedSize = sringSize →
        iou.cqPtrMapped = cqPtr → iou.cqMappedSize = cringSize → iou.sqePtrMapped = sqes →
        iou.sqeMappedSize = UInt32.ofNat (params.sqEntries.toNat * sizeofIoUringSqe) →
        iou.areas = [(.sqRing, sqPtr, sringSize), (.cqRing, cqPtr, cringSize),
          (.sqes, sqes, UInt32.ofNat (params.sqEntries.toNat * sizeofIoUringSqe))] := by
      rintro iou rfl rfl rfl rfl rfl hsize
      rw [MappedIou.areas, if_pos hcq.nonnull, hsize]
      rfl
    constructor
    · rw [hareas _ rfl rfl rfl rfl rfl rfl, mapAreas_cons, mapAreas_cons]
      exact hp
    · rw [MappedIou.regions, hareas _ rfl rfl rfl rfl rfl rfl]
      exact ⟨hsq.free, hcq.free, hsqes.free, trivial⟩
    · rw [hareas _ rfl rfl rfl rfl rfl rfl]
      simp only [List.forall_mem_cons]
      exact ⟨⟨hsq.aligned, hsq.nonempty⟩, ⟨hcq.aligned, hcq.nonempty⟩,
        ⟨hsqes.aligned, hsqes.nonempty⟩, fun _ ha => absurd ha List.not_mem_nil⟩
    · rfl
    · rfl
    · rfl
    · exact hsring
    · rfl
    · exact fun hne => absurd hne hsingle
    · exact fun _ => ⟨hcq.nonnull, hcring, rfl⟩

/-- What `iou_create` returns, and what it has done to the process `c`. -/
structure Created (c : Process) (ringSize : UInt32) (useKernelPooling : Bool) (setup : Setup)
    (iou : MappedIou) (p : Process) : Prop where
  asked : 0 < ringSize.toNat
  granted : ringSize.toNat ≤ 2 ^ setup.sqBits
  fresh : c.files iou.ringFd = none
  mapped : Mapped (c.openRing iou.ringFd setup.memory) iou.ringFd
    (setup.report (iouConfigParams useKernelPooling)) ringSize iou p

theorem triple_iouCreate (c : Process) (ringSize : UInt32) (useKernelPooling : Bool) :
    Triple (Is c) (iouCreate ringSize useKernelPooling) fun iou p =>
      ∃ setup, Created c ringSize useKernelPooling setup iou p := by
  refine (triple_ioUringSetup ringSize (iouConfigParams useKernelPooling)).bind ?_
  rintro ⟨ringFd, params⟩
  refine Triple.bind (Q := fun _ p => ∃ setup : Setup, (0 < ringSize.toNat ∧
      ringSize.toNat ≤ 2 ^ setup.sqBits ∧ c.files ringFd = none ∧
        params = setup.report (iouConfigParams useKernelPooling)) ∧
      Is (c.openRing ringFd setup.memory) p) ?_ fun _ => ?_
  · refine triple_whenTrue (fun _ => triple_exitFailure _) fun p hp hnonneg => ?_
    obtain ⟨setup, hpos, hle, hnone, hparams, his⟩ := hp.resolve_left hnonneg
    exact ⟨setup, ⟨hpos, hle, hnone, hparams⟩, his⟩
  refine Triple.exists_pre fun setup => Triple.and_pre fun ⟨hpos, hle, hnone, hparams⟩ => ?_
  subst hparams
  have hcheck : Triple (Is (c.openRing ringFd setup.memory))
      (iouCheckFeatures (setup.report (iouConfigParams useKernelPooling)) useKernelPooling)
      fun _ => Is (c.openRing ringFd setup.memory) := by
    refine Triple.ite (fun _ => Triple.pure _ fun _ hp => hp) fun _ => ?_
    exact triple_whenTrue (fun _ => triple_exitFailure _) fun _ hp _ => hp
  refine hcheck.bind fun _ => (triple_iouMmapRings _ _ _ _).post fun iou p hmapped => ?_
  have hfd := hmapped.ringFd_eq
  subst hfd
  exact ⟨setup, hpos, hle, hnone, hmapped⟩

end Created

section Freed

variable {iou : MappedIou} {p : Process}

def Process.unmapAreas (p : Process) (fd : Fd) (areas : List (Area × Address × UInt32)) : Process :=
  { p with
    table := unmapAll p.table (regionsOf fd areas)
    unmapped := p.unmapped ++ areas.map Prod.snd }

theorem unmapAreas_cons (p : Process) (fd : Fd) (area : Area) (address : Address)
    (length : UInt32) (areas : List (Area × Address × UInt32)) :
    p.unmapAreas fd ((area, address, length) :: areas) =
      (p.unmapArea address length).unmapAreas fd areas := by
  simp only [Process.unmapAreas, Process.unmapArea, List.map_cons, List.append_assoc,
    List.singleton_append]
  rfl

theorem munmap_run {address : Address} {length : UInt32} (haligned : address % pageSize = 0)
    (hnonempty : 0 < length.toNat) (text : String) :
    (munmap address length >>= fun rc => assertZero rc text) p =
      .ok (⟨⟩, p.unmapArea address length) := by
  have hrun : munmap address length p = .ok (0, p.unmapArea address length) := by
    rw [munmap, if_pos ⟨haligned, hnonempty⟩]
    rfl
  rw [bind_run hrun]
  rfl

/-- What `iou_free` leaves of the process. -/
def Process.released (p : Process) (iou : MappedIou) : Process :=
  (p.unmapAreas iou.ringFd iou.areas).closeRing iou.ringFd

theorem iouFree_run (hwell : ∀ a ∈ iou.areas, a.2.1 % pageSize = 0 ∧ 0 < a.2.2.toNat)
    (hopen : (p.files iou.ringFd).isSome) :
    iouFree iou p = .ok ({ ringFd := -1 }, p.released iou) := by
  have hclose : ∀ q : Process, q.files iou.ringFd = p.files iou.ringFd →
      UringRings.closeRing iou.ringFd q = .ok (0, q.closeRing iou.ringFd) := by
    intro q hq
    rw [← hq] at hopen
    exact (bind_run rfl).trans (congrFun (if_pos hopen) q)
  obtain ⟨hsq, hrest⟩ := List.forall_mem_cons.mp hwell
  have hsqes := hrest (.sqes, iou.sqePtrMapped, iou.sqeMappedSize)
    (List.mem_append_right _ List.mem_cons_self)
  unfold iouFree
  rw [← bind_assoc, bind_run (munmap_run hsq.1 hsq.2 _)]
  by_cases hcq : iou.cqPtrMapped ≠ 0
  · have hcqArea := hrest (.cqRing, iou.cqPtrMapped, iou.cqMappedSize)
      (List.mem_append_left _ (by rw [if_pos hcq]; exact List.mem_cons_self))
    rw [whenTrue_of hcq, bind_run (munmap_run hcqArea.1 hcqArea.2 _), ← bind_assoc,
      bind_run (munmap_run hsqes.1 hsqes.2 _)]
    refine (bind_run (hclose _ (by rfl))).trans ?_
    rw [Process.released, MappedIou.areas, if_pos hcq, List.singleton_append, unmapAreas_cons,
      unmapAreas_cons]
    rfl
  · rw [whenTrue_of_not hcq, pure_bind, ← bind_assoc, bind_run (munmap_run hsqes.1 hsqes.2 _)]
    refine (bind_run (hclose _ (by rfl))).trans ?_
    rw [Process.released, MappedIou.areas, if_neg hcq, List.nil_append, unmapAreas_cons]
    rfl

end Freed

section Addresses

/-- What the byte at an address is: of which ring, in which area, and where. -/
def locate (t : PageTable Backing) (address : Address) : Option (Fd × Area × Nat) :=
  match t (address / pageSize) with
  | some (.ring fd area page) => some (fd, area, page * pageSize + address % pageSize)
  | _ => none

/-- The `length` bytes at an address are those of an area from `offset` on. -/
def Shows (t : PageTable Backing) (fd : Fd) (area : Area) (address offset length : Nat) : Prop :=
  ∀ i < length, locate t (address + i) = some (fd, area, offset + i)

variable {t : PageTable Backing} {fd : Fd} {area : Area} {address offset n : Nat}
  {length : UInt32}

theorem locate_of_backed (h : Backed t (regionAt fd area address length))
    (haligned : address % pageSize = 0) {i : Nat} (hi : i < length.toNat) :
    locate t (address + i) = some (fd, area, i) := by
  obtain ⟨page, rfl⟩ := Nat.dvd_of_mod_eq_zero haligned
  have hpage : (pageSize * page + i) / pageSize = page + i / pageSize :=
    Nat.mul_add_div (by decide) ..
  have hrest : (pageSize * page + i) % pageSize = i % pageSize := Nat.mul_add_mod ..
  have hstart : (regionAt fd area (pageSize * page) length).start = page :=
    Nat.mul_div_cancel_left _ (by decide)
  have hbelow : i / pageSize < pagesOf length := by
    rw [pagesOf, Nat.lt_iff_add_one_le, Nat.le_div_iff_mul_le (by decide), Nat.add_mul]
    have hle := Nat.div_mul_le_self i pageSize
    change _ + 1 * 4096 ≤ _ + 4095
    omega
  have hbacked := h (page + i / pageSize)
    ⟨by rw [hstart]; exact Nat.le_add_right .., by rw [hstart]; exact Nat.add_lt_add_left hbelow _⟩
  rw [hstart, Nat.add_sub_cancel_left] at hbacked
  rw [locate, hpage, hbacked, hrest]
  exact congrArg (fun k => some (fd, area, k)) (Nat.div_add_mod' i pageSize)

theorem shows_of_backed (h : Backed t (regionAt fd area address length))
    (haligned : address % pageSize = 0) (hinside : offset + n ≤ length.toNat) :
    Shows t fd area (address + offset) offset n := by
  intro i hi
  rw [Nat.add_assoc]
  exact locate_of_backed h haligned (by omega)

end Addresses

section InPlace

/-- Every pointer of the structure leads to its part of the ring. -/
structure InPlace (g : Geometry) (iou : MappedIou) (t : PageTable Backing) : Prop where
  sqWord : ∀ word ∈ [(iou.sqRing.head, g.sqOff.head), (iou.sqRing.tail, g.sqOff.tail),
      (iou.sqRing.ringMask, g.sqOff.ringMask), (iou.sqRing.ringEntries, g.sqOff.ringEntries),
      (iou.sqRing.flags, g.sqOff.flags)],
    Shows t iou.ringFd .sqRing word.1 word.2.toNat sizeofUnsignedInt
  array : ∀ i < 2 ^ g.sqBits, Shows t iou.ringFd .sqRing
    (iou.sqRing.array + i * sizeofUnsignedInt) (g.sqOff.array.toNat + i * sizeofUnsignedInt)
    sizeofUnsignedInt
  sqe : ∀ i < 2 ^ g.sqBits, Shows t iou.ringFd .sqes (iou.sqes + i * sizeofIoUringSqe)
    (i * sizeofIoUringSqe) sizeofIoUringSqe
  cqWord : ∀ word ∈ [(iou.cqRing.head, g.cqOff.head), (iou.cqRing.tail, g.cqOff.tail),
      (iou.cqRing.ringMask, g.cqOff.ringMask), (iou.cqRing.ringEntries, g.cqOff.ringEntries)],
    Shows t iou.ringFd g.cqArea word.1 word.2.toNat sizeofUnsignedInt
  cqe : ∀ i < 2 ^ g.cqBits, Shows t iou.ringFd g.cqArea
    (iou.cqRing.cqes + i * sizeofIoUringCqe) (g.cqOff.cqes.toNat + i * sizeofIoUringCqe)
    sizeofIoUringCqe

variable {c p : Process} {ringSize : UInt32} {useKernelPooling : Bool} {setup : Setup}
  {iou : MappedIou}

theorem toNat_two_pow {k : Nat} (hk : k ≤ 16) : (UInt32.ofNat (2 ^ k)).toNat = 2 ^ k := by
  have hle : 2 ^ k ≤ 2 ^ 16 := Nat.pow_le_pow_right (by decide) hk
  rw [UInt32.toNat_ofNat', Nat.mod_eq_of_lt]
  omega

theorem report_sqEntries (g : Geometry) (params : IoUringParams) :
    (g.report params).sqEntries.toNat = 2 ^ g.sqBits :=
  toNat_two_pow (Nat.le_succ_of_le g.sqBits_le)

theorem report_cqEntries (g : Geometry) (params : IoUringParams) :
    (g.report params).cqEntries.toNat = 2 ^ g.cqBits :=
  toNat_two_pow g.cqBits_le

theorem toNat_sringSize (g : Geometry) (params : IoUringParams) :
    (sringSize (g.report params)).toNat =
      g.sqOff.array.toNat + 2 ^ g.sqBits * sizeofUnsignedInt := by
  rw [sringSize, report_sqEntries, UInt32.toNat_ofNat']
  exact Nat.mod_eq_of_lt g.sqEnd

theorem toNat_cringSize (g : Geometry) (params : IoUringParams) :
    (cringSize (g.report params)).toNat =
      g.cqOff.cqes.toNat + 2 ^ g.cqBits * sizeofIoUringCqe := by
  rw [cringSize, report_cqEntries, UInt32.toNat_ofNat']
  exact Nat.mod_eq_of_lt g.cqEnd

/-- The one mapping of both rings has room for each of them. -/
theorem le_ringSizes {p : IoUringParams} :
    (sringSize p).toNat ≤ (ringSizes p).1.toNat ∧
      (p.features &&& ioringFeatSingleMmap ≠ 0 → (cringSize p).toNat ≤ (ringSizes p).1.toNat) ∧
      (p.features &&& ioringFeatSingleMmap = 0 → (ringSizes p).2 = cringSize p) := by
  rw [ringSizes]
  by_cases hsingle : p.features &&& ioringFeatSingleMmap ≠ 0
  · rw [if_pos hsingle]
    refine ⟨?_, fun _ => ?_, fun hdouble => absurd hdouble hsingle⟩
    · dsimp only
      split
      · exact UInt32.le_iff_toNat_le.mp (UInt32.le_of_lt ‹_›)
      · exact Nat.le_refl _
    · dsimp only
      split
      · exact Nat.le_refl _
      · exact UInt32.le_iff_toNat_le.mp (UInt32.not_lt.mp ‹_›)
  · rw [if_neg hsingle]
    exact ⟨Nat.le_refl _, fun h => absurd h hsingle, fun _ => rfl⟩

/-- The completion ring is found in one of the areas mapped. -/
theorem Created.cqMapping (h : Created c ringSize useKernelPooling setup iou p) :
    ∃ cqPtr length, (setup.cqArea, cqPtr, length) ∈ iou.areas ∧
      setup.cqOff.cqes.toNat + 2 ^ setup.cqBits * sizeofIoUringCqe ≤ length.toNat ∧
      iou = iou.pointInto (setup.report (iouConfigParams useKernelPooling)) iou.sqPtrMapped cqPtr
        iou.sqePtrMapped := by
  have hsize := toNat_cringSize setup.toGeometry (iouConfigParams useKernelPooling)
  obtain ⟨-, hcover, hexact⟩ :=
    le_ringSizes (p := setup.report (iouConfigParams useKernelPooling))
  by_cases hsingle : setup.features &&& ioringFeatSingleMmap ≠ 0
  · have harea : setup.cqArea = .sqRing := if_pos (decide_eq_true hsingle)
    refine ⟨iou.sqPtrMapped, iou.sqMappedSize, ?_, ?_, (h.mapped.single hsingle).2⟩
    · rw [harea]
      exact List.mem_cons_self
    · rw [h.mapped.sqSize, ← hsize]
      exact hcover hsingle
  · rw [not_not] at hsingle
    obtain ⟨hnonnull, hlength, hpoints⟩ := h.mapped.double hsingle
    have harea : setup.cqArea = .cqRing := if_neg (by simpa [Geometry.single] using hsingle)
    refine ⟨iou.cqPtrMapped, iou.cqMappedSize, ?_, ?_, hpoints⟩
    · rw [harea, MappedIou.areas, if_pos hnonnull]
      exact List.mem_cons_of_mem _ List.mem_cons_self
    · rw [hlength, hexact hsingle, ← hsize]

theorem Created.shows (h : Created c ringSize useKernelPooling setup iou p)
    {t : PageTable Backing} (ht : ∀ r ∈ iou.regions, Backed t r) {area : Area} {address : Address}
    {length : UInt32} (hmem : (area, address, length) ∈ iou.areas) {offset n : Nat}
    (hinside : offset + n ≤ length.toNat) :
    Shows t iou.ringFd area (address + offset) offset n := by
  have hregion : regionAt iou.ringFd area address length ∈ iou.regions :=
    List.mem_map_of_mem (f := fun a => regionAt iou.ringFd a.1 a.2.1 a.2.2) hmem
  exact shows_of_backed (ht _ hregion) (h.mapped.wellFormed _ hmem).1 hinside

/-- The `i`-th of `n` entries ends where they all end at the latest. -/
theorem entry_le {i n : Nat} (hi : i < n) (size : Nat) : i * size + size ≤ n * size := by
  rw [← Nat.succ_mul]
  exact Nat.mul_le_mul_right size hi

theorem Created.inPlace (h : Created c ringSize useKernelPooling setup iou p)
    {t : PageTable Backing} (ht : ∀ r ∈ iou.regions, Backed t r) :
    InPlace setup.toGeometry iou t := by
  obtain ⟨cqPtr, length, hcq, hlength, hpoints⟩ := h.cqMapping
  have hsq : (.sqRing, iou.sqPtrMapped, iou.sqMappedSize) ∈ iou.areas := List.mem_cons_self
  have hsqes : (.sqes, iou.sqePtrMapped, iou.sqeMappedSize) ∈ iou.areas :=
    List.mem_cons_of_mem _ (List.mem_append_right _ List.mem_cons_self)
  have hsqSize : setup.sqOff.array.toNat + 2 ^ setup.sqBits * sizeofUnsignedInt ≤
      iou.sqMappedSize.toNat := by
    rw [h.mapped.sqSize, ← toNat_sringSize setup.toGeometry (iouConfigParams useKernelPooling)]
    exact le_ringSizes.1
  have hsqesSize : 2 ^ setup.sqBits * sizeofIoUringSqe = iou.sqeMappedSize.toNat := by
    have hle : 2 ^ setup.sqBits ≤ 2 ^ 15 := Nat.pow_le_pow_right (by decide) setup.sqBits_le
    rw [h.mapped.sqeSize, report_sqEntries, UInt32.toNat_ofNat', Nat.mod_eq_of_lt]
    change _ * 64 < _
    omega
  have hsqRing := congrArg MappedIou.sqRing hpoints
  have hcqRing := congrArg MappedIou.cqRing hpoints
  have hsqesPtr : iou.sqes = iou.sqePtrMapped := congrArg MappedIou.sqes hpoints
  constructor
  · intro word hword
    have hoffset : word.1 = iou.sqPtrMapped + word.2.toNat ∧
        word.2.toNat + sizeofUnsignedInt ≤ setup.sqOff.array.toNat := by
      have hwords := setup.sqWords
      simp only [List.forall_mem_cons] at hwords
      rw [hsqRing] at hword
      simp only [List.mem_cons, List.not_mem_nil, or_false] at hword
      rcases hword with rfl | rfl | rfl | rfl | rfl
      · exact ⟨rfl, hwords.1⟩
      · exact ⟨rfl, hwords.2.1⟩
      · exact ⟨rfl, hwords.2.2.1⟩
      · exact ⟨rfl, hwords.2.2.2.1⟩
      · exact ⟨rfl, hwords.2.2.2.2.1⟩
    rw [hoffset.1]
    exact h.shows ht hsq (by omega)
  · intro i hi
    have hentry := entry_le hi sizeofUnsignedInt
    rw [hsqRing]
    change Shows t _ _ (iou.sqPtrMapped + setup.sqOff.array.toNat + _) _ _
    rw [Nat.add_assoc]
    exact h.shows ht hsq (by omega)
  · intro i hi
    have hentry := entry_le hi sizeofIoUringSqe
    rw [hsqesPtr]
    exact h.shows ht hsqes (by omega)
  · intro word hword
    have hoffset : word.1 = cqPtr + word.2.toNat ∧
        word.2.toNat + sizeofUnsignedInt ≤ setup.cqOff.cqes.toNat := by
      have hwords := setup.cqWords
      simp only [List.forall_mem_cons] at hwords
      rw [hcqRing] at hword
      simp only [List.mem_cons, List.not_mem_nil, or_false] at hword
      rcases hword with rfl | rfl | rfl | rfl
      · exact ⟨rfl, hwords.1⟩
      · exact ⟨rfl, hwords.2.1⟩
      · exact ⟨rfl, hwords.2.2.1⟩
      · exact ⟨rfl, hwords.2.2.2.1⟩
    rw [hoffset.1]
    exact h.shows ht hcq (by omega)
  · intro i hi
    have hentry := entry_le hi sizeofIoUringCqe
    rw [hcqRing]
    change Shows t _ _ (cqPtr + setup.cqOff.cqes.toNat + _) _ _
    rw [Nat.add_assoc]
    exact h.shows ht hcq (by omega)

end InPlace

section View

/-- What is found at an address in the memory of a ring. -/
def Process.load {α : Type} (p : Process) (content : RingMemory → Area → Nat → α)
    (address : Address) : Option α :=
  match locate p.table address with
  | some (fd, area, offset) =>
      match p.files fd with
      | some (.ring memory) => some (content memory area offset)
      | _ => none
  | none => none

def Process.word (p : Process) (address : Address) : UInt32 :=
  (p.load RingMemory.word address).getD 0

/-- The rings as the program finds them when it follows the pointers. -/
def MappedIou.view (iou : MappedIou) (p : Process) : Iou where
  ringSize := iou.ringSize
  configurationFlags := iou.configuration.flags
  sqRing :=
    { head := p.word iou.sqRing.head
      tail := p.word iou.sqRing.tail
      ringMask := p.word iou.sqRing.ringMask
      flags := p.word iou.sqRing.flags
      array := fun i => p.word (iou.sqRing.array + i.toNat * sizeofUnsignedInt) }
  sqes := fun i =>
    (p.load (fun memory _ => memory.sqe) (iou.sqes + i.toNat * sizeofIoUringSqe)).getD {}
  cqRing :=
    { head := p.word iou.cqRing.head
      tail := p.word iou.cqRing.tail
      ringMask := p.word iou.cqRing.ringMask
      cqes := fun i =>
        (p.load RingMemory.cqe (iou.cqRing.cqes + i.toNat * sizeofIoUringCqe)).getD {} }

variable {c p : Process} {ringSize : UInt32} {useKernelPooling : Bool} {setup : Setup}
  {iou : MappedIou}

theorem word_of_shows {fd : Fd} {area : Area} {address offset n : Nat} {memory : RingMemory}
    (h : Shows p.table fd area address offset n) (hn : 0 < n)
    (hfile : p.files fd = some (.ring memory)) : p.word address = memory.word area offset := by
  have hlocated : locate p.table address = some (fd, area, offset) := h 0 hn
  simp only [Process.word, Process.load, hlocated, hfile]
  rfl

theorem Created.backed (h : Created c ringSize useKernelPooling setup iou p) :
    ∀ r ∈ iou.regions, Backed p.table r := by
  obtain ⟨answers, hp⟩ := h.mapped.process
  have htable : p.table = mapAll c.table iou.regions := congrArg Process.table hp
  rw [htable]
  exact Placed.backed h.mapped.placed

theorem Created.file (h : Created c ringSize useKernelPooling setup iou p) :
    p.files iou.ringFd = some (.ring setup.memory) := by
  obtain ⟨answers, hp⟩ := h.mapped.process
  have hfiles := congrArg Process.files hp
  rw [hfiles]
  exact Function.update_self ..

theorem flags_iouConfigParams (useKernelPooling : Bool) :
    (iouConfigParams useKernelPooling).flags = UringMemory.iouConfigParams useKernelPooling := by
  cases useKernelPooling <;> decide

theorem polling_iouConfigParams (useKernelPooling : Bool) :
    decide (UringMemory.iouConfigParams useKernelPooling &&& ioringSetupSqpoll ≠ 0) =
      useKernelPooling := by
  cases useKernelPooling <;> decide

end View

section Results

variable {p₀ p₁ p₂ p₃ : Process} {ringSize : UInt32} {useKernelPooling : Bool}
  {iou iou' : MappedIou}

/-- A ring of four SQEs and eight CQEs in one mapping. -/
def smallRing : Setup where
  sqBits := 2
  cqBits := 3
  features := ioringFeatSingleMmap ||| ioringFeatSqpollNonfixed
  sqOff := { head := 0, tail := 4, ringMask := 16, ringEntries := 24, flags := 36, array := 192 }
  cqOff := { head := 8, tail := 12, ringMask := 20, ringEntries := 28, cqes := 64 }
  memory :=
    { word := fun _ offset =>
        if offset = 16 then 3 else if offset = 24 then 4 else
          if offset = 20 then 7 else if offset = 28 then 8 else 0
      cqe := fun _ _ => {}
      sqe := fun _ => {} }
  sqBits_le := by decide
  cqBits_le := by decide
  sqWords := by
    repeat refine List.forall_mem_cons.mpr ⟨by decide, ?_⟩
    exact fun _ h => absurd h List.not_mem_nil
  cqWords := by
    repeat refine List.forall_mem_cons.mpr ⟨by decide, ?_⟩
    exact fun _ h => absurd h List.not_mem_nil
  sqEnd := by decide
  cqEnd := by decide
  sqEmpty := rfl
  sqMask := rfl
  sqSize := rfl
  cqEmpty := rfl
  cqMask := rfl
  cqSize := rfl

def willingProcess : Process where
  sched := [{ fd := 4, setup := some smallRing }, { page := 7 }, { page := 9 }]

def smallMapped : MappedIou × Process :=
  settled (iouCreate 4 true) willingProcess {}

theorem iouCreate_small : iouCreate 4 true willingProcess = .ok (smallMapped.1, smallMapped.2) :=
  run_settled (by decide +kernel)

/-- The pointers of a new ring lead to the words and the entries of its own
memory, every entry wholly inside of a mapping, for as long as the mappings stay. -/
theorem ring_in_place (h : iouCreate ringSize useKernelPooling p₀ = .ok (iou, p₁)) :
    ∃ setup : Setup, ringSize.toNat ≤ 2 ^ setup.sqBits ∧
      iou.configuration = setup.report (iouConfigParams useKernelPooling) ∧
      (∀ r ∈ iou.regions, Backed p₁.table r) ∧
      ∀ t, (∀ r ∈ iou.regions, Backed t r) → InPlace setup.toGeometry iou t := by
  obtain ⟨setup, hcreated⟩ := triple_iouCreate p₀ ringSize useKernelPooling p₀ ⟨_, rfl⟩ _ _ h
  exact ⟨setup, hcreated.granted, hcreated.mapped.configuration_eq, hcreated.backed,
    fun _ ht => hcreated.inPlace ht⟩

theorem ring_in_place_small :
    ∃ setup : Setup, (4 : UInt32).toNat ≤ 2 ^ setup.sqBits ∧
      smallMapped.1.configuration = setup.report (iouConfigParams true) ∧
      (∀ r ∈ smallMapped.1.regions, Backed smallMapped.2.table r) ∧
      ∀ t, (∀ r ∈ smallMapped.1.regions, Backed t r) → InPlace setup.toGeometry smallMapped.1 t :=
  ring_in_place iouCreate_small

/-- What the program finds behind its pointers are the rings that the loop starts
with: both empty, with the masks of their sizes, and polled by the kernel as it
was asked. -/
theorem ring_viewed {cfg : Config}
    (h : iouCreate cfg.ioUringRingSize useKernelPooling p₀ = .ok (iou, p₁)) :
    ∃ s : RingSetup cfg, iou.view p₁ = UringServer.iouCreate cfg s useKernelPooling ∧
      (iou.view p₁).polling = useKernelPooling := by
  obtain ⟨setup, hcreated⟩ :=
    triple_iouCreate p₀ cfg.ioUringRingSize useKernelPooling p₀ ⟨_, rfl⟩ _ _ h
  have hplace := hcreated.inPlace hcreated.backed
  have hsq := hplace.sqWord
  have hcq := hplace.cqWord
  simp only [List.forall_mem_cons] at hsq hcq
  obtain ⟨hsqHead, hsqTail, hsqMask, -⟩ := hsq
  obtain ⟨hcqHead, hcqTail, hcqMask, -⟩ := hcq
  have hword {area : Area} {address offset : Nat}
      (hshows : Shows p₁.table iou.ringFd area address offset sizeofUnsignedInt) :
      p₁.word address = setup.memory.word area offset :=
    word_of_shows hshows (by decide) hcreated.file
  have hflags : iou.configuration.flags = UringMemory.iouConfigParams useKernelPooling := by
    rw [hcreated.mapped.configuration_eq]
    exact flags_iouConfigParams useKernelPooling
  have hsqEmpty : p₁.word iou.sqRing.tail = p₁.word iou.sqRing.head := by
    rw [hword hsqTail, hword hsqHead]
    exact setup.sqEmpty.symm
  have hcqEmpty : p₁.word iou.cqRing.tail = p₁.word iou.cqRing.head := by
    rw [hword hcqTail, hword hcqHead]
    exact setup.cqEmpty.symm
  refine ⟨{ sqBits := setup.sqBits
            cqBits := setup.cqBits
            sqStart := p₁.word iou.sqRing.head
            cqStart := p₁.word iou.cqRing.head
            sqFlags := p₁.word iou.sqRing.flags
            array := (iou.view p₁).sqRing.array
            sqes := (iou.view p₁).sqes
            cqes := (iou.view p₁).cqRing.cqes
            sqBits_le := setup.sqBits_le.trans (by decide)
            cqBits_le := setup.cqBits_le.trans (by decide)
            ringSize_pos := hcreated.asked
            ringSize_le := hcreated.granted }, ?_, ?_⟩
  · rw [MappedIou.view, UringServer.iouCreate, hcreated.mapped.ringSize_eq, hflags, hsqEmpty,
      hcqEmpty, (hword hsqMask).trans setup.sqMask, (hword hcqMask).trans setup.cqMask]
  · rw [Iou.polling]
    change decide (iou.configuration.flags &&& _ ≠ 0) = _
    rw [hflags]
    exact polling_iouConfigParams useKernelPooling

def smallRingConfig : Config :=
  { ServerUtils.smallServerConfig with ioUringRingSize := 4 }

theorem ring_viewed_small :
    ∃ s : RingSetup smallRingConfig,
      smallMapped.1.view smallMapped.2 = UringServer.iouCreate smallRingConfig s true ∧
        (smallMapped.1.view smallMapped.2).polling = true :=
  ring_viewed iouCreate_small

/-- What the life of a ring leaves in the process: `p₀` before `iou_create`, `p₁`
after it, `p₂` before `iou_free`, `p₃` after it. -/
structure Released (iou : MappedIou) (p₀ p₁ p₂ p₃ : Process) : Prop where
  /-- No page is mapped twice, and each mapping is unmapped once, as it was made. -/
  disjoint : iou.regions.Pairwise PageTables.Disjoint
  mapped : p₁.mapped = p₀.mapped ++ iou.mappings
  unmapped : p₃.unmapped = p₂.unmapped ++ iou.mappings
  opened : p₁.opened = p₀.opened ++ [iou.ringFd]
  closed : p₃.closed = p₂.closed ++ [iou.ringFd]
  gone : ∀ r ∈ iou.regions, Free p₃.table r
  other : ∀ page, (∀ r ∈ iou.regions, ¬ r.Has page) → p₃.table page = p₂.table page
  files : p₃.files = Function.update p₂.files iou.ringFd none
  /-- If nothing else has changed, all is as before. -/
  table : (∀ page, (∀ r ∈ iou.regions, ¬ r.Has page) → p₂.table page = p₀.table page) →
    p₃.table = p₀.table
  restored : (∀ fd, fd ≠ iou.ringFd → p₂.files fd = p₀.files fd) → p₃.files = p₀.files

/-- Whatever else happens in the process as long as the ring is open: `iou_free`
returns, and gives back what `iou_create` took and nothing else. -/
theorem ring_released (h : iouCreate ringSize useKernelPooling p₀ = .ok (iou, p₁))
    (hopen : p₂.files iou.ringFd = p₁.files iou.ringFd) :
    ∃ p₃, iouFree iou p₂ = .ok ({ ringFd := -1 }, p₃) ∧ Released iou p₀ p₁ p₂ p₃ := by
  obtain ⟨setup, hcreated⟩ := triple_iouCreate p₀ ringSize useKernelPooling p₀ ⟨_, rfl⟩ _ _ h
  obtain ⟨answers, hp⟩ := hcreated.mapped.process
  have hplaced : Placed p₀.table iou.regions := hcreated.mapped.placed
  have hsome : (p₂.files iou.ringFd).isSome := by
    rw [hopen, hcreated.file]
    rfl
  refine ⟨_, iouFree_run hcreated.mapped.wellFormed hsome, ?_⟩
  constructor
  · exact hplaced.pairwise
  · exact congrArg Process.mapped hp
  · rfl
  · exact congrArg Process.opened hp
  · rfl
  · intro r hr page hpage
    exact unmapAll_of_has hr hpage
  · intro page hpage
    exact unmapAll_of_not_has hpage
  · rfl
  · intro hother
    exact hplaced.unmapAll (List.Perm.refl _) hother
  · intro hother
    funext fd
    rcases eq_or_ne fd iou.ringFd with rfl | hne
    · exact (Function.update_self ..).trans hcreated.fresh.symm
    · exact (Function.update_of_ne hne ..).trans (hother fd hne)

theorem ring_released_small :
    ∃ p₃, iouFree smallMapped.1 smallMapped.2 = .ok ({ ringFd := -1 }, p₃) ∧
      Released smallMapped.1 willingProcess smallMapped.2 smallMapped.2 p₃ :=
  ring_released iouCreate_small rfl

end Results

end EchoServers.UringRings
