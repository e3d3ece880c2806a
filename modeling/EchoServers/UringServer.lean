import EchoServers.UringQueues

namespace EchoServers.UringServer

open EchoServers.ServerBenchmark
open EchoServers.ServerUtils
open EchoServers.SocketKernel
open EchoServers.StateTriples
open EchoServers.TimeUtils
open EchoServers.UringMemory
open EchoServers.UringQueues
open EchoServers.Utils

/-- The configuration of the io_uring server. -/
structure Config extends ServerConfig where
  ioUringRingSize : UInt32

/-- The addresses of the two structures on the stack of `service_loop`. -/
def acceptReq : Ptr := 1
def timerReq : Ptr := 2

section Memory

/-- `calloc(1, sizeof(struct iou_op))`; addresses of live objects are not
handed out. -/
def callocOp (cfg : Config) : Program World Ptr := do
  let t ← yield
  if t.ptr = 0 ∨ ((← get).ops t.ptr).isSome then return 0
  else
    modify fun w =>
      { w with
        ops := Function.update w.ops t.ptr (some
          { infoCon := { buf := List.replicate cfg.defaultServerBufferSize {} } }) }
    return t.ptr

def callocNode : Program World Ptr := do
  let t ← yield
  if t.ptr = 0 ∨ ((← get).nodes t.ptr).isSome then return 0
  else
    modify fun w => { w with nodes := Function.update w.nodes t.ptr (some {}) }
    return t.ptr

def freeOp (p : Ptr) : Program World PUnit := do
  match (← get).ops p with
  | some _ =>
      modify fun w =>
        { w with
          ops := Function.update w.ops p none
          freedOps := w.freedOps ++ [p] }
  | none => recordFault (.doubleFree p)

def freeNode (p : Ptr) : Program World PUnit := do
  match (← get).nodes p with
  | some _ =>
      modify fun w =>
        { w with
          nodes := Function.update w.nodes p none
          freedNodes := w.freedNodes ++ [p] }
  | none => recordFault (.doubleFree p)

def readNode (p : Ptr) : Program World IouOpMemTrackerNode := do
  match (← get).nodes p with
  | some node => return node
  | none =>
      recordFault (.useAfterFree p)
      return {}

def modifyNode (p : Ptr) (f : IouOpMemTrackerNode → IouOpMemTrackerNode) :
    Program World PUnit := do
  match (← get).nodes p with
  | some node =>
      modify fun w => { w with nodes := Function.update w.nodes p (some (f node)) }
  | none => recordFault (.useAfterFree p)

/-- A pointer that is followed without a test. -/
def deref (p : Option Ptr) : Program World Ptr :=
  match p with
  | some p => return p
  | none => do
      recordFault .nullDereference
      return 0

def modifyTracker (f : IouOpMemTracker → IouOpMemTracker) : Program World PUnit :=
  modify fun w => { w with memAllocsTracker := f w.memAllocsTracker }

def memTPushBack (node : Ptr) : Program World PUnit := do
  let tracker := (← get).memAllocsTracker
  if tracker.head = none then
    modifyTracker fun _ => { head := some node, tail := some node }
    modifyNode node fun n => { n with next := none, prev := none }
  else
    modifyNode node fun n => { n with prev := tracker.tail }
    modifyNode node fun n => { n with next := none }
    modifyNode (← deref tracker.tail) fun n => { n with next := some node }
    modifyTracker fun t => { t with tail := some node }

def memTRemoveNode (node : Ptr) : Program World PUnit := do
  let n ← readNode node
  whenNonNull n.next fun next => modifyNode next fun m => { m with prev := n.prev }
  let n ← readNode node
  whenNonNull n.prev fun prev => modifyNode prev fun m => { m with next := n.next }
  let n ← readNode node
  whenTrue ((← get).memAllocsTracker.head = some node) do
    modifyTracker fun t => { t with head := n.next }
  whenTrue ((← get).memAllocsTracker.tail = some node) do
    modifyTracker fun t => { t with tail := n.prev }
  modifyNode node fun m => { m with next := none, prev := none }

end Memory

section Benchmark

def modifyBench (f : ServerBench → ServerBench) : Program World PUnit :=
  modify fun w => { w with bench := f w.bench }

def nowMonotonic : Program World Timespec := do
  return (← yield).clock

/-- `sb_create`, where `malloc` answers `block`. -/
def createBench (block : Option Block) : Program World PUnit :=
  match block with
  | none => exitFailure "malloc"
  | some block =>
      modify fun w =>
        { w with
          bench := sbCreate benchExpectedMessages block.bytes
          samples := { w.samples with block := some block.ptr } }

/-- `sb_save_bench`; `fileNull` is whether `fopen` fails. -/
def saveBench (fileNull : Bool) : Program World PUnit := do
  match sbSaveBench (← get).bench with
  | none => return ⟨⟩
  | some text =>
      assertNnull fileNull "fopen"
      modify fun w => { w with benchFile := some text }

def freeBench : Program World PUnit :=
  modify fun w => { w with bench := sbFree w.bench, samples := w.samples.release }

/-- What `service_loop` does with the bench behind its loop. -/
def stopBench (cfg : Config) (fileNull : Bool) : Program World PUnit :=
  whenTrue cfg.doServerSideBenchmarking do
    let now ← nowMonotonic
    modifyBench fun b => sbStop b now
    saveBench fileNull

end Benchmark

section Handlers

variable (cfg : Config)

def handleNewClient (socket : Fd) : Program World PUnit := do
  let tracker ← callocNode
  assertNnull (tracker = 0) "calloc tracker"
  let clientOp ← callocOp cfg
  assertNnull (clientOp = 0) "calloc client_op"
  modifyOp clientOp fun o => { o with infoCon := { o.infoCon with fd := socket } }
  modifyOp clientOp fun o => { o with memTracker := some tracker }
  modifyNode tracker fun n => { n with allocatedOp := some clientOp }
  memTPushBack tracker
  let recvReq := clientOp
  modifyOp recvReq fun o => { o with op := .recvFromClient }
  modifyOp recvReq fun o => { o with infoCon := { o.infoCon with busy := 1 } }
  let rc ← iouConfigAndSubmit recvReq
  ioUringAssertZero rc "iou_config_and_submit(recv_req)"
  whenTrue cfg.doServerSideBenchmarking do
    modifyBench sbClientConnected

def prepCloseClientReq (opWInfoCon : Ptr) : Program World Int32 := do
  let closeReq := opWInfoCon
  modifyOp closeReq fun o => { o with op := .closeConnection }
  let rc ← iouConfigAndSubmit closeReq
  ioUringAssertZero rc "iou_config_and_submit(close_req)"
  return 1

def handleClosingClient (opWInfoCon : Ptr) : Program World PUnit := do
  let tracker ← deref (← readOp opWInfoCon).memTracker
  memTRemoveNode tracker
  freeNode tracker
  freeOp opWInfoCon

def handleCqeAccept (acceptReq : Ptr) (result : Int) : Program World Int32 := do
  ioUringAssertNonn result "CQE accept"
  let clientSocket := result
  handleNewClient cfg clientSocket
  -- the accept operation is submitted again
  let rc ← iouConfigAndSubmit acceptReq
  ioUringAssertZero rc "iou_config_and_submit(accept_req)"
  return 2

def handleCqeClose (closeReq : Ptr) (result : Int) : Program World Int32 := do
  ioUringAssertZero result "CQE close"
  modifyOp closeReq fun o => { o with infoCon := { o.infoCon with fd := -1 } }
  handleClosingClient closeReq
  return 0

def handleCqeRecv (recvReq : Ptr) (result : Int) : Program World Int32 := do
  modifyOp recvReq fun o => { o with infoCon := { o.infoCon with busy := 0 } }
  ioUringAssertNonn result "CQE recv"
  let readBytes := UInt32.ofNat result.toNat
  if readBytes = 0 then
    prepCloseClientReq recvReq
  else if readBytes > cfg.defaultBufferSize then
    exitFailure "recv: got more than expected"
  else if readBytes < cfg.defaultBufferSize then
    exitFailure "recv: got less than expected"
  else
    whenTrue (cfg.doServerSideBenchmarking && cfg.benchMeasureServicingLatency) do
      let now ← nowMonotonic
      modifyOp recvReq fun o => { o with infoCon := { o.infoCon with benchStartSend := now } }
    -- the structure is repurposed: a send always follows a recv
    let sendReq := recvReq
    modifyOp sendReq fun o => { o with op := .sendToClient }
    modifyOp sendReq fun o => { o with infoCon := { o.infoCon with bufSendLen := readBytes } }
    modifyOp sendReq fun o => { o with infoCon := { o.infoCon with busy := 1 } }
    let rc ← iouConfigAndSubmit sendReq
    ioUringAssertZero rc "iou_config_and_submit(send_req)"
    return 1

def handleCqeSend (sendReq : Ptr) (result : Int) : Program World Int32 := do
  modifyOp sendReq fun o => { o with infoCon := { o.infoCon with busy := 0 } }
  ioUringAssertNonn result "CQE send"
  let sentBytes := UInt32.ofNat result.toNat
  if sentBytes < cfg.defaultBufferSize then
    exitFailure "send: less than expected"
  else
    whenTrue (cfg.doServerSideBenchmarking && cfg.benchMeasureServicingLatency) do
      let benchEndSend ← nowMonotonic
      let o ← readOp sendReq
      let now ← nowMonotonic
      modifyBench fun b => sbRecordEvent b o.infoCon.benchStartSend benchEndSend now
    -- the structure is repurposed: a recv is always expected after the send
    let recvReq := sendReq
    modifyOp recvReq fun o => { o with op := .recvFromClient }
    modifyOp recvReq fun o => { o with infoCon := { o.infoCon with busy := 1 } }
    let rc ← iouConfigAndSubmit recvReq
    ioUringAssertZero rc "iou_config_and_submit(recv_req)"
    return 1

def handleCqeTimer (_timerReq : Ptr) (result : Int) : Program World Int32 := do
  ioUringAssert (decide (result = -62)) "CQE timer"
  whenTrue cfg.doServerSideBenchmarking do
    let now ← nowMonotonic
    modifyBench fun b => sbStart b now
  return 0

def dispatchCqe (cqe : Cqe) : Program World Int32 := do
  let op := cqe.userData
  match (← readOp op).op with
  | .acceptedConnection => handleCqeAccept cfg op cqe.res
  | .closeConnection => handleCqeClose op cqe.res
  | .recvFromClient => handleCqeRecv cfg op cqe.res
  | .sendToClient => handleCqeSend cfg op cqe.res
  | .timerExpired => handleCqeTimer cfg op cqe.res
  | .other _ => return 0

def serviceCqeEvents (cqe : Cqe) : Program World Int32 := do
  whenTrue cfg.doServerSideBenchmarking do
    modifyBench fun b => sbRequestsPerformed b 1
  let submitted ← dispatchCqe cfg cqe
  modify fun w => { w with handled := w.handled ++ [cqe] }
  return submitted

end Handlers

section ServiceLoop

variable (cfg : Config)

def createAcceptSqe (allocatedOp : Ptr) : Program World Int32 := do
  modifyOp allocatedOp fun o => { o with op := .acceptedConnection }
  modifyOp allocatedOp fun o =>
    { o with infoAccept := { fd := cfg.listeningSocket, addrlen := 16 } }
  let rc ← iouConfigAndSubmit allocatedOp
  ioUringAssertZero rc "iou_config_and_submit(accept_req)"
  return 1

def createTimerSqe (allocatedOp : Ptr) : Program World Int32 := do
  modifyOp allocatedOp fun o => { o with op := .timerExpired }
  modifyOp allocatedOp fun o => { o with infoTimer := { tvSec := 10, tvNsec := 0 } }
  let rc ← iouConfigAndSubmit allocatedOp
  ioUringAssertZero rc "iou_config_and_submit(timer_req)"
  return 1

/-- The part of `service_loop` in front of its loop; the result is
`io_events_to_submit`. -/
def serviceLoopStart : Program World Int32 := do
  let accepts ← createAcceptSqe cfg acceptReq
  if cfg.doServerSideBenchmarking then
    let timers ← createTimerSqe timerReq
    return accepts + timers
  else
    return accepts

/-- One turn of the loop of `service_loop`. -/
def serviceLoopTurn (ioEventsToSubmit : Int32) : Program World Int32 := do
  match ← iouGetCqe with
  | none =>
      iouEnterOrWake ioEventsToSubmit.toUInt32
      return 0
  | some cqe =>
      let submitted ← serviceCqeEvents cfg cqe
      return ioEventsToSubmit + submitted

/-- `service_loop` up to the moment its loop is at the top for the `n`-th
time; the signal that ends the loop can come at any of them. -/
def serviceLoop (n : Nat) : Program World Int32 := do
  let ioEventsToSubmit ← serviceLoopStart cfg
  turns (serviceLoopTurn cfg) n ioEventsToSubmit

/-- `iou_free`: the rings are unmapped and the ring is closed.  The last steps of
the kernel are those in front of it. -/
def iouFree : Program World PUnit :=
  modify fun w =>
    { w with
      inflight := []
      iou := { w.iou with
        ringSize := 0
        sqRing := { w.iou.sqRing with head := 0, tail := 0 }
        cqRing := { w.iou.cqRing with head := 0, tail := 0 } } }

def closeFd (fd : Fd) : Program World Int := do
  let closed := (← get).kernel.close fd
  modify fun w => { w with kernel := closed.2 }
  return closed.1

/-- The walk over the tracked connections; `fuel` bounds its length. -/
def closeTracked : Nat → Option Ptr → Program World PUnit
  | _, none => return ⟨⟩
  | 0, some _ => throw .diverged
  | fuel + 1, some tracker => do
      let node ← readNode tracker
      let next := node.next
      let allocatedOp ← deref node.allocatedOp
      let rc ← closeFd (← readOp allocatedOp).infoCon.fd
      assertZero rc "close(client_socket)"
      freeOp allocatedOp
      freeNode tracker
      closeTracked fuel next

def doServiceLoopCleanup (fuel : Nat) : Program World PUnit := do
  let tracker := (← get).memAllocsTracker.head
  iouFree
  closeTracked fuel tracker
  modifyTracker fun _ => {}

/-- What `service_loop` does after its loop; `fileNull` is whether the file for
the bench cannot be opened.  The kernel works until the ring is closed. -/
def serviceLoopEnd (fileNull : Bool) (fuel : Nat) : Program World PUnit := do
  stopBench cfg fileNull
  let _ ← yield
  doServiceLoopCleanup fuel

end ServiceLoop

section Setup

/-- What `iou_create` finds after `io_uring_setup`: the sizes the kernel chose,
equal indices in each ring, and slots with any contents. -/
structure RingSetup (cfg : Config) where
  sqBits : Nat
  cqBits : Nat
  sqStart : UInt32
  cqStart : UInt32
  sqFlags : UInt32
  array : UInt32 → UInt32
  sqes : UInt32 → Sqe
  cqes : UInt32 → Cqe
  sqBits_le : sqBits ≤ 31
  cqBits_le : cqBits ≤ 31
  ringSize_pos : 0 < cfg.ioUringRingSize.toNat
  ringSize_le : cfg.ioUringRingSize.toNat ≤ 2 ^ sqBits

def iouCreate (cfg : Config) (s : RingSetup cfg) (useKernelPooling : Bool) : Iou where
  ringSize := cfg.ioUringRingSize
  configurationFlags := iouConfigParams useKernelPooling
  sqRing :=
    { head := s.sqStart
      tail := s.sqStart
      ringMask := UInt32.ofNat (2 ^ s.sqBits - 1)
      flags := s.sqFlags
      array := s.array }
  sqes := s.sqes
  cqRing :=
    { head := s.cqStart
      tail := s.cqStart
      ringMask := UInt32.ofNat (2 ^ s.cqBits - 1)
      cqes := s.cqes }

/-- The state in which `service_loop` enters its body: the two requests are on
the stack, nothing is allocated, and only the listening socket is open. -/
def initialWorld (cfg : Config) (s : RingSetup cfg) (useKernelPooling faithful : Bool)
    (sched : List Tick) : World where
  ops := Function.update (Function.update (fun _ => none)
    acceptReq (some {})) timerReq (some {})
  kernel :=
    { files := Function.update (fun _ => none) cfg.listeningSocket (some .listening) }
  faithful := faithful
  iou := iouCreate cfg s useKernelPooling
  sched := sched

/-- `w` is a state of the server at the top of its loop, in some run, after any
further steps of the kernel. -/
def Reachable (cfg : Config) (w : World) : Prop :=
  ∃ (s : RingSetup cfg) (useKernelPooling faithful : Bool) (sched : List Tick) (n : Nat)
    (ioEventsToSubmit : Int32) (w₀ : World) (acts : List KernelAct),
    serviceLoop cfg n (initialWorld cfg s useKernelPooling faithful sched) =
      .ok (ioEventsToSubmit, w₀) ∧ w = acts.foldl World.act w₀

/-- The state after `n` turns, or the initial state if the server has exited. -/
def worldAfter (cfg : Config) (n : Nat) (w : World) : World :=
  match serviceLoop cfg n w with
  | .ok (_, w') => w'
  | .error _ => w

theorem run_worldAfter {cfg : Config} {n : Nat} {w : World}
    (h : (serviceLoop cfg n w).isOk = true) :
    ∃ ioEventsToSubmit, serviceLoop cfg n w = .ok (ioEventsToSubmit, worldAfter cfg n w) := by
  cases hrun : serviceLoop cfg n w with
  | error e => simp [hrun, Except.isOk, Except.toBool] at h
  | ok p => exact ⟨p.1, by simp [worldAfter, hrun]⟩

theorem reachable_worldAfter {cfg : Config} {s : RingSetup cfg}
    {useKernelPooling faithful : Bool} {sched : List Tick} {n : Nat}
    (h : (serviceLoop cfg n
      (initialWorld cfg s useKernelPooling faithful sched)).isOk = true) :
    Reachable cfg (worldAfter cfg n (initialWorld cfg s useKernelPooling faithful sched)) := by
  obtain ⟨ioEventsToSubmit, hrun⟩ := run_worldAfter h
  exact ⟨s, useKernelPooling, faithful, sched, n, ioEventsToSubmit, _, [], hrun, rfl⟩

/-- Messages of two bytes and a ring of four SQEs. -/
def smallConfig : Config :=
  { smallServerConfig with
    doServerSideBenchmarking := false
    benchMeasureServicingLatency := false
    ioUringRingSize := 4 }

/-- The submission counters wrap at the first SQE. -/
def smallSetup : RingSetup smallConfig where
  sqBits := 2
  cqBits := 3
  sqStart := 0xffffffff
  cqStart := 7
  sqFlags := 0
  array := fun _ => 0
  sqes := fun _ => {}
  cqes := fun _ => {}
  sqBits_le := by decide
  cqBits_le := by decide
  ringSize_pos := by decide
  ringSize_le := by decide

/-- Points at which the kernel does nothing. -/
def idle (n : Nat) : List Tick := List.replicate n {}

end Setup

end EchoServers.UringServer
