import EchoServers.UringMemory
import EchoServers.Utils

namespace EchoServers.UringQueues

open EchoServers.RingCounters
open EchoServers.ServerUtils
open EchoServers.SocketKernel
open EchoServers.UringMemory
open EchoServers.Utils

/-- The kernel takes its turn. -/
def yield : Program World Tick :=
  modifyGet fun w =>
    match w.sched with
    | [] => ({}, w)
    | t :: ts => (t, t.acts.foldl World.act { w with sched := ts })

def recordFault (f : Fault) : Program World PUnit :=
  modify fun w => w.fault f

/-- `*op` for reading. -/
def readOp (p : Ptr) : Program World IouOp := do
  match (← get).ops p with
  | some o => return o
  | none =>
      recordFault (.useAfterFree p)
      return {}

/-- `*op` for writing. -/
def modifyOp (p : Ptr) (f : IouOp → IouOp) : Program World PUnit := do
  match (← get).ops p with
  | some o => modify fun w => { w with ops := Function.update w.ops p (some (f o)) }
  | none => recordFault (.useAfterFree p)

def modifySqRing (f : IouSqRing → IouSqRing) : Program World PUnit :=
  modify fun w => { w with iou := { w.iou with sqRing := f w.iou.sqRing } }

def modifySqe (index : UInt32) (f : Sqe → Sqe) : Program World PUnit :=
  modify fun w =>
    { w with
      iou := { w.iou with
        sqes := Function.update w.iou.sqes index (f (w.iou.sqes index)) } }

def sockNonblock : UInt32 := 2048

def ebusy : Int := 16
def einval : Int := 22
def eintr : Int := 4

/-- `struct iou_acquired_sqe_data`; `sqe` is the index behind the pointer. -/
structure IouAcquiredSqeData where
  sqe : Option UInt32 := none
  tail : UInt32 := 0
  index : UInt32 := 0

def iouAcquireSqe : Program World IouAcquiredSqeData := do
  let tail := (← get).iou.sqRing.tail
  let _ ← yield
  let iou := (← get).iou
  if tail - iou.sqRing.head ≥ iou.ringSize then
    return { tail := tail }
  else
    let index := tail &&& iou.sqRing.ringMask
    let _ ← yield
    modifySqe index fun _ => {}
    return { sqe := some index, tail := tail, index := index }

def iouSubmitSqe (sqeAcquired : IouAcquiredSqeData) : Program World PUnit := do
  let _ ← yield
  modifySqRing fun ring =>
    { ring with
      array := Function.update ring.array sqeAcquired.index sqeAcquired.index }
  let _ ← yield
  modifySqRing fun ring => { ring with tail := sqeAcquired.tail + 1 }

def iouPrepAcceptSqe (op : Ptr) (infoAccept : IouSocketAccept) (sqe : Sqe) : Sqe :=
  { sqe with
    opcode := .accept
    fd := infoAccept.fd
    addr := .acceptAddr op
    offAddr2 := .acceptAddrlen op
    opFlags := sockNonblock }

def iouPrepCloseSqe (con : ClientCon) (sqe : Sqe) : Sqe :=
  { sqe with opcode := .close, fd := con.fd, fileIndex := 0 }

def iouPrepRecvSqe (op : Ptr) (con : ClientCon) (sqe : Sqe) : Sqe :=
  { sqe with
    opcode := .recv
    fd := con.fd
    addr := .conBuf op
    len := UInt32.ofNat con.buf.length
    opFlags := 0 }

def iouPrepSendSqe (op : Ptr) (con : ClientCon) (sqe : Sqe) : Sqe :=
  { sqe with
    opcode := .send
    fd := con.fd
    addr := .conBuf op
    len := con.bufSendLen
    opFlags := 0 }

def iouPrepTimerSqe (op : Ptr) (sqe : Sqe) : Sqe :=
  { sqe with
    opcode := .timeout
    addr := .timer op
    len := 1
    opFlags := 0
    offAddr2 := .null }

/-- The `switch` of `iou_config_and_submit`; `none` is its default case. -/
def iouPrepSqe (p : Ptr) (o : IouOp) : Option (Sqe → Sqe) :=
  match o.op with
  | .acceptedConnection => some (iouPrepAcceptSqe p o.infoAccept)
  | .closeConnection => some (iouPrepCloseSqe o.infoCon)
  | .recvFromClient => some (iouPrepRecvSqe p o.infoCon)
  | .sendToClient => some (iouPrepSendSqe p o.infoCon)
  | .timerExpired => some (iouPrepTimerSqe p)
  | .other _ => none

def iouConfigAndSubmit (op : Ptr) : Program World Int := do
  let sqeAcquired ← iouAcquireSqe
  match sqeAcquired.sqe with
  | none => return -ebusy
  | some sqe =>
      let _ ← yield
      modifySqe sqe fun s => { s with userData := op }
      let _ ← yield
      match iouPrepSqe op (← readOp op) with
      | none => return -einval
      | some prep =>
          modifySqe sqe prep
          iouSubmitSqe sqeAcquired
          return 0

/-- `cqe_out` points to `cqeStorage`; what is copied there is returned with the
pointer. -/
def iouGetCqe : Program World (Option Cqe) := do
  let head := (← get).iou.cqRing.head
  let _ ← yield
  if head = (← get).iou.cqRing.tail then
    return none
  else
    let _ ← yield
    let cqeOut := (← get).iou.cqeAt head
    modify fun w => { w with cqeStorage := cqeOut }
    let _ ← yield
    modify fun w =>
      { w with iou := { w.iou with cqRing := { w.iou.cqRing with head := head + 1 } } }
    return some cqeOut

/-- The kernel takes the `k` oldest published SQEs. -/
def consumeMany (w : World) : Nat → World
  | 0 => w
  | k + 1 => (consumeMany w k).consume

/-- `io_uring_enter` with `min_complete = 1`: it consumes at most `toSubmit`
SQEs and waits, during which requests complete. -/
def ioUringEnter (toSubmit : UInt32) : Program World Int := do
  let t ← yield
  let w ← get
  let published := w.iou.sqRing.tail - w.iou.sqRing.head
  let k := match t.enter with
    | .consumed k => min k (min toSubmit.toNat published.toNat)
    | _ => 0
  modify fun w =>
    t.afterEnter.foldl World.act
      (consumeMany { w with enters := w.enters ++ [⟨toSubmit, published, k⟩] } k)
  match t.enter with
  | .consumed _ => return k
  | .eintr => return -eintr
  | .error errno => return -(errno + 1 : Int)

/-- `io_uring_enter(ring_fd, 0, 0, IORING_ENTER_SQ_WAKEUP, NULL)`. -/
def ioUringWakeup : Program World Int := do
  match (← yield).enter with
  | .consumed _ => return 0
  | .eintr => return -eintr
  | .error errno => return -(errno + 1 : Int)

def iouEnterOrWake (toSubmit : UInt32) : Program World PUnit := do
  if (← get).iou.polling = false then
    let rc ← ioUringEnter toSubmit
    ioUringAssert (decide (0 ≤ rc ∨ rc = -eintr))
      "io_uring_enter(IORING_ENTER_GETEVENTS)"
  else
    let _ ← yield
    if (← get).iou.sqRing.flags &&& ioringSqNeedWakeup ≠ 0 then
      let rc ← ioUringWakeup
      ioUringAssert (decide (0 ≤ rc ∨ rc = -eintr))
        "io_uring_enter(IORING_ENTER_SQ_WAKEUP)"

end EchoServers.UringQueues
