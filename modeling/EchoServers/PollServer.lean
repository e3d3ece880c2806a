import EchoServers.PollVector
import EchoServers.ServerUtils

namespace EchoServers.PollServer

open EchoServers.PollVector
open EchoServers.ServerBenchmark
open EchoServers.ServerUtils
open EchoServers.SocketKernel
open EchoServers.StateTriples
open EchoServers.Utils

def pollin : UInt16 := 0x1
def pollerr : UInt16 := 0x8
def pollhup : UInt16 := 0x10
def pollnval : UInt16 := 0x20

/-- `pd_echo_connection_t` of the poll server. -/
structure PdEchoConnection where
  bufSize : UInt32 := 0
  buf : List Octet := []
  deriving DecidableEq

/-- An entry at the moment it is serviced: the branch it is given to, and the
file that is then behind its descriptor. -/
structure Dispatch where
  branch : Branch
  entry : Entry
  object : Option File
  deriving DecidableEq

structure PollApp where
  pollfdv : PollfdVector := {}
  /-- The variable `timer_fd` of `service_loop`. -/
  timerFd : Fd := -1
  /-- The entries serviced, in order. -/
  dispatched : List Dispatch := []
  /-- The slots written through a pointer into a block that `realloc` has moved. -/
  staleWrites : List UInt32 := []

instance : Inhabited Growth := ⟨{}⟩

abbrev PollWorld := HostWorld Growth PdEchoConnection PollApp

section Vector

def getVector : Program PollWorld PollfdVector := do
  return (← get).app.pollfdv

def setVector (v : PollfdVector) : Program PollWorld PUnit :=
  modify fun w => { w with app := { w.app with pollfdv := v } }

def pollAddFd (fd : Fd) (pollEvents : UInt16) (privateData : Option Ptr) :
    Program PollWorld PUnit := do
  let t ← hostYield
  let config : Pollfd :=
    { fd := fd, events := pollEvents, revents := 0, object := (← get).kernel.files fd }
  match pollfdvAdd (← getVector) config privateData t.answer with
  | .ok v => setVector v
  | .error e => throw e

/-- `free` of the private data of an entry. -/
def freePd (privateData : Option Ptr) : Program PollWorld PUnit :=
  whenNonNull privateData freeCon

/-- What the kernel reports for an entry. -/
def reported (k : Kernel) (p : Pollfd) : UInt16 :=
  if p.fd < 0 then 0
  else
    match k.files p.fd with
    | none => pollnval
    | some f =>
        let r := k.readiness f
        (if r.readable then p.events &&& pollin else 0) |||
          (if r.err then pollerr else 0) ||| (if r.hup then pollhup else 0)

/-- The vector with the reports of `ppoll` in its first `size` slots. -/
def reportAll (k : Kernel) (v : PollfdVector) : PollfdVector :=
  { v with
    data := v.data.mapIdx fun i p =>
      if i < v.size.toNat then { p with revents := reported k p } else p }

/-- The number of entries that are ready. -/
def ready (es : List Entry) : Nat :=
  (es.filter fun e => decide (e.1.revents ≠ 0)).length

/-- `ppoll`; -1 stands for the error `EINTR`.  While nothing is ready the call
goes on waiting, which is as if it were interrupted and made again. -/
def ppoll : Program PollWorld Int := do
  let t ← hostYield
  if t.refuses then exitFailure "poll"
  else
    let w ← get
    let v := reportAll w.kernel w.app.pollfdv
    if t.interrupted ∨ ready v.entries = 0 then
      return -1
    else
      setVector v
      recordBatch (ready v.entries)
      return Int.ofNat (ready v.entries)

end Vector

section Handlers

variable (cfg : ServerConfig)

def closeTimer (timerFd : Fd) : Program PollWorld PUnit := do
  let rc ← hostClose timerFd
  assertZero rc "close"

def timerExpired (timerFd : Fd) : Program PollWorld PUnit := do
  closeTimer timerFd
  whenTrue cfg.doServerSideBenchmarking do
    let now ← hostNow
    modifyHostBench fun b => sbStart b now

def pollHandleNewClient (listeningSocket : Fd) : Program PollWorld PUnit := do
  let clientFd ← acceptClient listeningSocket
  let con ← allocCon { buf := List.replicate cfg.defaultServerBufferSize {} }
  assertNnull (con = 0) "malloc"
  modifyCon con fun c => { c with bufSize := 0 }
  pollAddFd clientFd pollin (some con)
  whenTrue cfg.doServerSideBenchmarking do
    modifyHostBench sbClientConnected

/-- The `index` of the source is an `int`; the capacity of the vector is a power
of two below `2 ^ 32`, so that no index of a slot is too large for one. -/
def closeClient (index : UInt32) : Program PollWorld PUnit := do
  let rc ← hostClose ((← getVector).readData index).fd
  assertZero rc "close"
  freePd ((← getVector).readPd index)
  setVector (pollfdvRemoveIndex (← getVector) index)

/-- The buffer of the connection behind `pd[index]`. -/
def readBuf (privateData : Option Ptr) : Program PollWorld (List Octet) := do
  match privateData with
  | none =>
      hostFault .nullDereference
      return []
  | some p =>
      match (← get).cons p with
      | some con => return con.buf
      | none =>
          hostFault (.useAfterFree p)
          return []

/-- `POLLIN` on a client: its message is read and echoed. -/
def handleClientData (index : UInt32) : Program PollWorld Bool := do
  let start ← hostStart cfg
  let con := (← getVector).readPd index
  let buf ← readBuf con
  let read ← readNEcho cfg ((← getVector).readData index).fd buf
  whenNonNull con fun p => modifyCon p fun c => { c with buf := read.2 }
  whenTrue cfg.measuresLatency do
    let finish ← hostNow
    let now ← hostNow
    modifyHostBench fun b => sbRecordEvent b start finish now
  if read.1 = 0 then
    closeClient index
    return true
  else
    return false

/-- Whether the client was removed. -/
def handleClientEvent (index : UInt32) : Program PollWorld Bool := do
  let revents := ((← getVector).readData index).revents
  if revents &&& (pollhup ||| pollerr) ≠ 0 then
    closeClient index
    return true
  else if revents &&& pollin ≠ 0 then
    handleClientData cfg index
  else
    return false

end Handlers

section ServiceEvents

variable (cfg : ServerConfig)

def record (branch : Branch) (i : UInt32) : Program PollWorld PUnit :=
  modify fun w =>
    { w with
      app := { w.app with
        dispatched := w.app.dispatched ++
          [⟨branch, (w.app.pollfdv.readData i, w.app.pollfdv.readPd i),
            w.kernel.files (w.app.pollfdv.readData i).fd⟩] } }

/-- `ev->revents = 0`, where `ev` was taken when `realloc` had moved the block
`moves` times. -/
def clearRevents (moves : Nat) (i : UInt32) : Program PollWorld PUnit := do
  let v ← getVector
  if v.moves = moves then
    setVector (v.writeData i { v.readData i with revents := 0 })
  else
    modify fun w => { w with app := { w.app with staleWrites := w.app.staleWrites ++ [i] } }

/-- The part of the loop body for an entry that is ready.  The result tells
whether the entry was removed, so that its slot is looked at again. -/
def serviceEvent (i : UInt32) : Program PollWorld Bool := do
  let w ← get
  let ev := w.app.pollfdv.readData i
  let moves := w.app.pollfdv.moves
  if ev.fd = cfg.listeningSocket ∧ ev.revents &&& pollin ≠ 0 then
    record .newClient i
    pollHandleNewClient cfg cfg.listeningSocket
    clearRevents moves i
    return false
  else if ev.fd = w.app.timerFd ∧ ev.revents &&& pollin ≠ 0 then
    record .timer i
    timerExpired cfg w.app.timerFd
    setVector (pollfdvRemoveIndex (← getVector) i)
    modify fun w => { w with app := { w.app with timerFd := -1 } }
    return true
  else
    record .client i
    let removedClient ← handleClientEvent cfg i
    if removedClient then
      return true
    else
      clearRevents moves i
      return false

/-- The loop of `service_events` from the index `i` on; `fuel` bounds the number
of its turns.  The index is stepped back when an entry was removed and may wrap
then. -/
def serviceEventsLoop (size : UInt32) (noEvents : Int) :
    Nat → UInt32 → Int → Program PollWorld Int
  | 0, i, noServiced =>
      if i < size ∧ noServiced < noEvents then throw .diverged else return noServiced
  | fuel + 1, i, noServiced => do
      if i < size ∧ noServiced < noEvents then
        if ((← getVector).readData i).revents = 0 then
          serviceEventsLoop size noEvents fuel (i + 1) noServiced
        else
          let removed ← serviceEvent cfg i
          let i := if removed then i - 1 else i
          serviceEventsLoop size noEvents fuel (i + 1) (noServiced + 1)
      else
        return noServiced

def serviceEvents (noEvents : Int) : Program PollWorld PUnit := do
  let size := (← getVector).size
  let noServiced ← serviceEventsLoop cfg size noEvents (size.toNat + noEvents.toNat) 0 0
  assertZero (noEvents - noServiced) "Did not service all requests"

end ServiceEvents

section ServiceLoop

variable (cfg : ServerConfig)

/-- The part of `service_loop` in front of its loop, with the creation of the
vector by `main`. -/
def serviceLoopStart (dataNull pdNull : Bool) : Program PollWorld PUnit := do
  match pollfdvCreate dataNull pdNull with
  | .error e => throw e
  | .ok v =>
      setVector v
      whenTrue cfg.doServerSideBenchmarking do
        let timerFd ← createWarmupTimer
        modify fun w => { w with app := { w.app with timerFd := timerFd } }
      pollAddFd cfg.listeningSocket pollin none
      whenTrue cfg.doServerSideBenchmarking do
        pollAddFd (← get).app.timerFd pollin none

/-- One turn of the loop of `service_loop`. -/
def serviceLoopTurn : Program PollWorld PUnit := do
  let noEvents ← ppoll
  whenTrue (0 ≤ noEvents) do
    whenTrue cfg.doServerSideBenchmarking do
      modifyHostBench fun b => sbRequestsPerformed b (Int32.ofInt noEvents)
    serviceEvents cfg noEvents

/-- `service_loop` up to the moment its loop is at the top for the `n`-th
time; the signal that ends the loop can come at any of them. -/
def serviceLoop (dataNull pdNull : Bool) (n : Nat) : Program PollWorld PUnit := do
  serviceLoopStart cfg dataNull pdNull
  turns (fun _ => serviceLoopTurn cfg) n ⟨⟩

/-- The loop of `do_client_connections_cleanup` from the index `i` on. -/
def closeEntries (ls timerFd : Fd) : Nat → UInt32 → Program PollWorld PUnit
  | 0, _ => return ⟨⟩
  | fuel + 1, i => do
      let v ← getVector
      if i < v.size then
        let fd := (v.readData i).fd
        if fd = ls then
          closeEntries ls timerFd fuel (i + 1)
        else
          if timerFd ≠ -1 ∧ fd = timerFd then
            closeTimer timerFd
          else
            let rc ← hostClose fd
            assertZero rc "close client socket"
          freePd (v.readPd i)
          closeEntries ls timerFd fuel (i + 1)
      else
        return ⟨⟩

def doClientConnectionsCleanup : Program PollWorld PUnit := do
  let w ← get
  closeEntries cfg.listeningSocket w.app.timerFd w.app.pollfdv.size.toNat 0

/-- What `service_loop` does after its loop; `fileNull` is whether the file for
the bench cannot be opened. -/
def serviceLoopEnd (fileNull : Bool) : Program PollWorld PUnit := do
  hostStopBench cfg fileNull
  doClientConnectionsCleanup cfg

/-- The state in which `main` starts: only the listening socket is open. -/
def initialWorld (sched : List (HostTick Growth)) : PollWorld where
  kernel :=
    { files := Function.update (fun _ => none) cfg.listeningSocket (some .listening) }
  sched := sched
  app := {}

/-- `w` is a state of the server at the top of its loop, in some run, after any
further arrivals. -/
def Reachable (w : PollWorld) : Prop :=
  ∃ (dataNull pdNull : Bool) (sched : List (HostTick Growth)) (n : Nat) (w₀ : PollWorld)
    (arrivals : List Arrival),
    serviceLoop cfg dataNull pdNull n (initialWorld cfg sched) = .ok (⟨⟩, w₀) ∧
      w = arrivals.foldl HostWorld.arrive w₀

end ServiceLoop

end EchoServers.PollServer
