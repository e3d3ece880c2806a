import EchoServers.RingCounters
import EchoServers.ServerUtils

namespace EchoServers.UringMemory

open EchoServers.RingCounters
open EchoServers.ServerBenchmark
open EchoServers.ServerUtils
open EchoServers.SocketKernel
open EchoServers.TimeUtils

/-- `enum io_operation_types`; `other` is a value outside the enumerators. -/
inductive IoOperationTypes where
  | acceptedConnection
  | closeConnection
  | recvFromClient
  | sendToClient
  | timerExpired
  | other (value : Int)
  deriving DecidableEq, Repr

structure ClientCon where
  fd : Fd := 0
  busy : Int := 0
  bufSendLen : UInt32 := 0
  buf : List Octet := []
  benchStartSend : Timespec := {}
  deriving DecidableEq

/-- The peer address the kernel stores here is never read and left out. -/
structure IouSocketAccept where
  fd : Fd := 0
  addrlen : UInt32 := 0
  deriving DecidableEq

/-- The members of the union are kept side by side: every object is used
through one member only. -/
structure IouOp where
  op : IoOperationTypes := .acceptedConnection
  infoAccept : IouSocketAccept := {}
  infoCon : ClientCon := {}
  infoTimer : Timespec := {}
  memTracker : Option Ptr := none
  deriving DecidableEq

structure IouOpMemTrackerNode where
  allocatedOp : Option Ptr := none
  next : Option Ptr := none
  prev : Option Ptr := none
  deriving DecidableEq

structure IouOpMemTracker where
  head : Option Ptr := none
  tail : Option Ptr := none
  deriving DecidableEq

/-- The opcodes in use; `nop` is the value 0 that `memset` leaves. -/
inductive Opcode where
  | nop
  | timeout
  | accept
  | close
  | send
  | recv
  deriving DecidableEq, Repr

/-- A pointer stored in an SQE: into which member of which `struct iou_op`. -/
inductive Addr where
  | null
  | acceptAddr (op : Ptr)
  | acceptAddrlen (op : Ptr)
  | conBuf (op : Ptr)
  | timer (op : Ptr)
  deriving DecidableEq, Repr

/-- `struct io_uring_sqe`; the default value is the zeroed entry.  `offAddr2`
and `opFlags` are the unions the kernel interprets by opcode. -/
structure Sqe where
  opcode : Opcode := .nop
  flags : UInt8 := 0
  ioprio : UInt16 := 0
  fd : Fd := 0
  offAddr2 : Addr := .null
  addr : Addr := .null
  len : UInt32 := 0
  opFlags : UInt32 := 0
  userData : Ptr := 0
  bufIndex : UInt16 := 0
  personality : UInt16 := 0
  fileIndex : UInt32 := 0
  addr3 : UInt64 := 0
  deriving DecidableEq, Repr

/-- A request in flight: the SQE it was made from, the connection its file
was resolved to, and the bytes received or transmitted for it so far. -/
structure Request where
  sqe : Sqe := {}
  conn : Option ConnId := none
  moved : List Octet := []
  deriving DecidableEq

/-- `struct io_uring_cqe`.  The completed request is kept beside it for the
statements; the server never reads it. -/
structure Cqe where
  userData : Ptr := 0
  res : Int := 0
  request : Request := {}
  deriving DecidableEq

structure IouSqRing where
  head : UInt32
  tail : UInt32
  ringMask : UInt32
  flags : UInt32
  array : UInt32 → UInt32

structure IouCqRing where
  head : UInt32
  tail : UInt32
  ringMask : UInt32
  cqes : UInt32 → Cqe

def ioringSetupSqpoll : UInt32 := 0x2
def ioringSetupSqAff : UInt32 := 0x4
def ioringSetupCoopTaskrun : UInt32 := 0x100
def ioringSetupSingleIssuer : UInt32 := 0x1000
def ioringSqNeedWakeup : UInt32 := 0x1

structure Iou where
  ringSize : UInt32
  configurationFlags : UInt32
  sqRing : IouSqRing
  sqes : UInt32 → Sqe
  cqRing : IouCqRing

/-- The flags `iou_config_params` asks for. -/
def iouConfigParams (useKernelPooling : Bool) : UInt32 :=
  if useKernelPooling then
    ioringSetupSingleIssuer ||| ioringSetupSqpoll ||| ioringSetupSqAff
  else ioringSetupSingleIssuer ||| ioringSetupCoopTaskrun

def Iou.polling (iou : Iou) : Bool :=
  decide (iou.configurationFlags &&& ioringSetupSqpoll ≠ 0)

/-- The SQE the kernel finds at a free-running counter. -/
def Iou.sqeAt (iou : Iou) (c : UInt32) : Sqe :=
  iou.sqes (iou.sqRing.array (c &&& iou.sqRing.ringMask))

/-- The SQEs published and not yet consumed, oldest first. -/
def Iou.pending (iou : Iou) : List Sqe :=
  entries iou.sqeAt iou.sqRing.head iou.sqRing.tail

def Iou.cqeAt (iou : Iou) (c : UInt32) : Cqe :=
  iou.cqRing.cqes (c &&& iou.cqRing.ringMask)

/-- The CQEs posted and not yet reaped, oldest first. -/
def Iou.unreaped (iou : Iou) : List Cqe :=
  entries iou.cqeAt iou.cqRing.head iou.cqRing.tail

/-- The kernel posts only while fewer than `cq_entries` CQEs are unreaped. -/
def IouCqRing.hasRoom (ring : IouCqRing) : Bool :=
  decide (distance ring.head ring.tail < ring.ringMask.toNat + 1)

def IouCqRing.post (ring : IouCqRing) (c : Cqe) : IouCqRing :=
  { ring with
    cqes := Function.update ring.cqes (ring.tail &&& ring.ringMask) c
    tail := ring.tail + 1 }

/-- What the server and the kernel work on, except for the rings. -/
structure Server where
  ops : Ptr → Option IouOp := fun _ => none
  nodes : Ptr → Option IouOpMemTrackerNode := fun _ => none
  memAllocsTracker : IouOpMemTracker := {}
  kernel : Kernel := {}
  inflight : List Request := []
  /-- The SQEs the kernel has consumed, in order. -/
  consumed : List Sqe := []
  /-- The CQEs whose handler has run, in order. -/
  handled : List Cqe := []
  faults : List Fault := []
  /-- The addresses given to `free`, in order: ops and tracker nodes. -/
  freedOps : List Ptr := []
  freedNodes : List Ptr := []
  /-- Whether every result the kernel reports is that of what it did; otherwise
  it may report any. -/
  faithful : Bool := true

/-- What the kernel does between two steps of the server.  Requests in flight
are named by their position. -/
inductive KernelAct where
  | network (a : Arrival)
  | consume
  | needWakeup (asleep : Bool)
  | accept (i : Nat) (fd : Fd)
  | deliver (i size : Nat)
  | eof (i : Nat)
  | scribble (i : Nat) (data : List UInt8)
  | transmit (i size : Nat)
  | sent (i : Nat)
  | close (i : Nat)
  | expire (i : Nat)
  | answer (i : Nat) (res : Int)
  deriving DecidableEq, Repr

/-- How `io_uring_enter` answers. -/
inductive EnterAnswer where
  | consumed (k : Nat)
  | eintr
  | error (errno : Nat)
  deriving DecidableEq, Repr

/-- The kernel's part at one point where it may interfere: its steps, and its
answer if the server makes a call there. -/
structure Tick where
  acts : List KernelAct := []
  /-- The address `calloc` returns; 0 for a failure. -/
  ptr : Ptr := 0
  clock : Timespec := {}
  enter : EnterAnswer := .eintr
  afterEnter : List KernelAct := []

/-- One call of `io_uring_enter` without SQPOLL: the argument, the number of
SQEs published and not consumed at the call, and how many it consumed. -/
structure EnterCall where
  toSubmit : UInt32
  published : UInt32
  consumed : Nat
  deriving DecidableEq, Repr

structure World extends Server where
  iou : Iou
  bench : ServerBench := {}
  benchFile : Option String := none
  samples : Samples := {}
  /-- `cqe_storage` of `service_loop`. -/
  cqeStorage : Cqe := {}
  enters : List EnterCall := []
  /-- The CQEs the kernel has posted, in order. -/
  posted : List Cqe := []
  /-- The most CQEs there have been unreaped at once. -/
  peak : Nat := 0
  sched : List Tick := []

section KernelSteps

def World.fault (w : World) (f : Fault) : World :=
  { w with faults := w.faults ++ [f] }

/-- The kernel completes the `i`-th request with the result `res`. -/
def World.complete (w : World) (i : Nat) (r : Request) (res : Int) : World :=
  let cqe : Cqe := { userData := r.sqe.userData, res := res, request := r }
  { w with
    inflight := w.inflight.eraseIdx i
    posted := w.posted ++ [cqe]
    peak := max w.peak (w.iou.unreaped.length + 1)
    iou := { w.iou with cqRing := w.iou.cqRing.post cqe } }

/-- A step on the `i`-th request in flight, if it is of the given kind. -/
def World.onRequest (w : World) (i : Nat) (kind : Opcode)
    (f : Request → World) : World :=
  match w.inflight[i]? with
  | some r => if r.sqe.opcode = kind then f r else w
  | none => w

/-- The same for a step that posts a CQE. -/
def World.onCompletion (w : World) (i : Nat) (kind : Opcode)
    (f : Request → World) : World :=
  if w.iou.cqRing.hasRoom then w.onRequest i kind f else w

/-- The connection a request on the descriptor `fd` is resolved to. -/
def connOf (k : Kernel) (fd : Fd) : Option ConnId :=
  match k.files fd with
  | some (.socket c) => some c
  | _ => none

/-- The kernel takes the oldest published SQE and advances the head. -/
def World.consume (w : World) : World :=
  let ring := w.iou.sqRing
  if ring.head = ring.tail then w
  else
    let sqe := w.iou.sqeAt ring.head
    { w with
      inflight := w.inflight ++ [{ sqe := sqe, conn := connOf w.kernel sqe.fd }]
      consumed := w.consumed ++ [sqe]
      iou := { w.iou with sqRing := { ring with head := ring.head + 1 } } }

def World.writeBuf (w : World) (a : Addr) (data : List Octet) : World :=
  match a with
  | .conBuf p =>
      match w.ops p with
      | some o =>
          { w with
            ops := Function.update w.ops p
              (some { o with
                infoCon := { o.infoCon with buf := overwrite o.infoCon.buf data } }) }
      | none => w.fault (.useAfterFree p)
  | _ => w.fault .nullDereference

/-- The bytes the kernel reads at an address. -/
def World.readBuf (w : World) (a : Addr) : Option (List Octet) :=
  match a with
  | .conBuf p => (w.ops p).map fun o => o.infoCon.buf
  | _ => none

def World.act (w : World) : KernelAct → World
  | .network a => { w with kernel := w.kernel.arrive a }
  | .consume => if w.iou.polling then w.consume else w
  | .needWakeup asleep =>
      { w with
        iou := { w.iou with
          sqRing := { w.iou.sqRing with
            flags := if asleep then ioringSqNeedWakeup else 0 } } }
  | .accept i fd =>
      w.onCompletion i .accept fun r =>
        match w.kernel.accept4 fd with
        | (.ok client, k) => { w with kernel := k }.complete i r client
        | (.error _, _) => w
  | .deliver i size =>
      w.onCompletion i .recv fun r =>
        match r.conn with
        | none => w
        | some c =>
            let data := ((w.kernel.conns c).unread.take size).take r.sqe.len.toNat
            if data = [] then w
            else
              let k := w.kernel.updateConn c fun con =>
                { con with unread := con.unread.drop data.length }
              ({ w with kernel := k }.writeBuf r.sqe.addr data).complete i
                { r with moved := data } data.length
  | .eof i =>
      w.onCompletion i .recv fun r =>
        match r.conn with
        | none => w
        | some c =>
            if (w.kernel.conns c).unread = [] ∧ (w.kernel.conns c).eos = true then
              w.complete i r 0
            else w
  | .scribble i data =>
      w.onRequest i .recv fun r =>
        w.writeBuf r.sqe.addr
          ((data.take r.sqe.len.toNat).map fun value => { value := value })
  | .transmit i size =>
      w.onRequest i .send fun r =>
        match r.conn, w.readBuf r.sqe.addr with
        | some c, some buf =>
            let data := ((buf.take r.sqe.len.toNat).drop r.moved.length).take size
            { w with
              kernel := w.kernel.updateConn c fun con =>
                { con with transmitted := con.transmitted ++ data }
              inflight := w.inflight.set i { r with moved := r.moved ++ data } }
        | some _, none => w.fault .nullDereference
        | none, _ => w
  | .sent i =>
      w.onCompletion i .send fun r => w.complete i r r.moved.length
  | .close i =>
      w.onCompletion i .close fun r =>
        let closed := w.kernel.close r.sqe.fd
        { w with kernel := closed.2 }.complete i r (if closed.1 = 0 then 0 else -9)
  | .expire i =>
      w.onCompletion i .timeout fun r => w.complete i r (-62)
  | .answer i res =>
      if w.iou.cqRing.hasRoom ∧ (w.faithful = true → res < 0) then
        match w.inflight[i]? with
        | some r => w.complete i r res
        | none => w
      else w

end KernelSteps

end EchoServers.UringMemory
