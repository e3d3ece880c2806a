import EchoServers.ServerUtils

namespace EchoServers.EpollServer

open EchoServers.ServerBenchmark
open EchoServers.ServerUtils
open EchoServers.SocketKernel
open EchoServers.StateTriples
open EchoServers.Utils

def epollWaitMaxEvents : Nat := 256

/-- A pointer stored in a link of the connection list.  The file of the
connection it was made to point to is kept beside it for the statements. -/
structure Link where
  ptr : Ptr
  object : Option File := none
  deriving DecidableEq, Repr

/-- `pd_echo_connection_t` of the epoll server; `object` is the file that was
behind `fd` when the structure was made. -/
structure PdEchoConnection where
  fd : Fd := 0
  bufSize : UInt32 := 0
  buf : List Octet := []
  next : Option Link := none
  prev : Option Link := none
  object : Option File := none
  deriving DecidableEq

/-- What happens to the connection structures, for the statements. -/
inductive ClientStep where
  | accepted (con : Link) (fd : Fd)
  | closed (con : Link)
  deriving DecidableEq, Repr

structure Dispatch where
  branch : Branch
  event : EpollEvent
  deriving DecidableEq

/-- The variables of `service_loop`, and the global list of connections. -/
structure EpollApp where
  epollFd : Fd := -1
  /-- `tfd_holder.fd`. -/
  tfd : Fd := -1
  dllHead : Option Link := none
  dllTail : Option Link := none
  history : List ClientStep := []
  /-- The events serviced, in order. -/
  dispatched : List Dispatch := []

/-- The machine chooses the pending edges that `epoll_pwait` delivers. -/
abbrev EpollWorld := HostWorld (List Fd) PdEchoConnection EpollApp

/-- The addresses of `lfd_holder` and `tfd_holder` on the stack. -/
def lfdHolder : Ptr := 1
def tfdHolder : Ptr := 2

section Memory

def modifyApp (f : EpollApp → EpollApp) : Program EpollWorld PUnit :=
  modify fun w => { w with app := f w.app }

/-- The connection behind a pointer; a freed one is recorded as a fault. -/
def readCon (p : Ptr) : Program EpollWorld PdEchoConnection := do
  match (← get).cons p with
  | some con => return con
  | none =>
      hostFault (.useAfterFree p)
      return {}

/-- A pointer to the connection, to be stored in a link. -/
def linkTo (p : Ptr) : Program EpollWorld Link := do
  return { ptr := p, object := (← readCon p).object }

/-- A field of the connection that a link leads to is written.  That connection
has been freed also when its address has been handed out again. -/
def writeThrough (l : Link) (f : PdEchoConnection → PdEchoConnection) :
    Program EpollWorld PUnit := do
  match (← get).cons l.ptr with
  | some con =>
      whenTrue (con.object ≠ l.object) do hostFault (.useAfterFree l.ptr)
      modifyCon l.ptr f
  | none => hostFault (.useAfterFree l.ptr)

/-- The connection that a link leads to is read, with the same check. -/
def readThrough (l : Link) : Program EpollWorld PdEchoConnection := do
  let con ← readCon l.ptr
  whenTrue (con.object ≠ l.object) do hostFault (.useAfterFree l.ptr)
  return con

/-- `((struct pd_fd *)ptr)->fd`. -/
def readFd (cfg : ServerConfig) (p : Ptr) : Program EpollWorld Fd := do
  if p = lfdHolder then
    return cfg.listeningSocket
  else if p = tfdHolder then
    return (← get).app.tfd
  else
    return (← readCon p).fd

end Memory

section ConnectionList

def dllConnectBack (con : Ptr) : Program EpollWorld PUnit := do
  let link ← linkTo con
  let app := (← get).app
  if app.dllHead = none then
    modifyApp fun a => { a with dllHead := some link }
    modifyApp fun a => { a with dllTail := some link }
  else
    modifyCon con fun c => { c with prev := app.dllTail }
    modifyApp fun a => { a with dllTail := some link }

def dllRemove (con : Ptr) : Program EpollWorld PUnit := do
  let c ← readCon con
  whenNonNull c.next fun next => writeThrough next fun n => { n with prev := c.prev }
  let c ← readCon con
  whenNonNull c.prev fun prev => writeThrough prev fun p => { p with next := c.next }
  let c ← readCon con
  whenTrue ((← get).app.dllHead.map Link.ptr = some con) do
    modifyApp fun a => { a with dllHead := c.next }
  whenTrue ((← get).app.dllTail.map Link.ptr = some con) do
    modifyApp fun a => { a with dllTail := c.prev }

end ConnectionList

section Calls

def createEpoll : Program EpollWorld Fd := do
  let t ← hostYield
  if t.refuses ∨ t.fd < 0 ∨ ((← get).kernel.files t.fd).isSome then
    exitFailure "epoll_create1"
  else
    modify fun w =>
      { w with kernel := { w.kernel with
          files := Function.update w.kernel.files t.fd (some .epoll) } }
    return t.fd

/-- `epoll_ctl` with `EPOLL_CTL_ADD`. -/
def epollCtlAdd (fd : Fd) (data : Ptr) : Program EpollWorld Int := do
  let t ← hostYield
  if t.refuses then
    return -1
  else
    let added := (← get).kernel.epollAdd fd data
    setKernel added.2
    return added.1

/-- `epoll_pwait`; -1 stands for the error `EINTR`.  While no edge is delivered
the call goes on waiting, which is as if it were interrupted and made again. -/
def epollPwait : Program EpollWorld (Int × List EpollEvent) := do
  let t ← hostYield
  if t.refuses then exitFailure "epoll_wait"
  else
    let delivered := (← get).kernel.epollWait epollWaitMaxEvents t.answer
    if t.interrupted ∨ delivered.1 = [] then
      return (-1, [])
    else
      setKernel delivered.2
      recordBatch delivered.1.length
      return (Int.ofNat delivered.1.length, delivered.1)

end Calls

section Handlers

variable (cfg : ServerConfig)

def epollAddListeningSocket : Program EpollWorld PUnit := do
  let rc ← epollCtlAdd cfg.listeningSocket lfdHolder
  assertZero rc "epoll_ctl listening_socket"

def epollAddTimer : Program EpollWorld PUnit := do
  let rc ← epollCtlAdd (← get).app.tfd tfdHolder
  assertZero rc "epoll_ctl timer add"

def closeTimer : Program EpollWorld PUnit := do
  let rc ← hostClose (← get).app.tfd
  assertZero rc "close"
  modifyApp fun a => { a with tfd := -1 }

def timerExpired : Program EpollWorld PUnit := do
  closeTimer
  whenTrue cfg.doServerSideBenchmarking do
    let now ← hostNow
    modifyHostBench fun b => sbStart b now

def closeClient (con : Ptr) : Program EpollWorld PUnit := do
  dllRemove con
  let c ← readCon con
  let rc ← hostClose c.fd
  assertZero rc "close"
  modifyApp fun a =>
    { a with history := a.history ++ [.closed { ptr := con, object := c.object }] }
  freeCon con

def epollHandleNewClient (clientFd : Fd) : Program EpollWorld PUnit := do
  let object := (← get).kernel.files clientFd
  let con ← allocCon { buf := List.replicate cfg.defaultServerBufferSize {}, object := object }
  assertNnull (con = 0) "calloc"
  modifyCon con fun c => { c with fd := clientFd, bufSize := 0 }
  let rc ← epollCtlAdd clientFd con
  assertZero rc "epoll_ctl client_fd"
  dllConnectBack con
  modifyApp fun a =>
    { a with history := a.history ++ [.accepted { ptr := con, object := object } clientFd] }
  whenTrue cfg.doServerSideBenchmarking do
    modifyHostBench sbClientConnected

/-- The loop of `epoll_handle_new_clients`; `fuel` bounds the number of its
turns. -/
def epollHandleNewClientsLoop (listeningSocket : Fd) : Nat → Program EpollWorld PUnit
  | 0 => throw .diverged
  | fuel + 1 => do
      let clientFd ← acceptClient listeningSocket
      if clientFd = -1 then
        return ⟨⟩
      else
        epollHandleNewClient cfg clientFd
        epollHandleNewClientsLoop listeningSocket fuel

/-- Every turn uses up what the machine has planned, and without a plan a second
client cannot be accepted. -/
def epollHandleNewClients (listeningSocket : Fd) : Program EpollWorld PUnit := do
  epollHandleNewClientsLoop cfg listeningSocket ((← get).sched.length + 2)

/-- `EPOLLIN` on a client: its message is read and echoed. -/
def handleClientData (con : Ptr) : Program EpollWorld PUnit := do
  let start ← hostStart cfg
  let c ← readCon con
  let read ← readNEcho cfg c.fd c.buf
  modifyCon con fun c => { c with buf := read.2, bufSize := UInt32.ofInt read.1 }
  whenTrue cfg.measuresLatency do
    let finish ← hostNow
    let now ← hostNow
    modifyHostBench fun b => sbRecordEvent b start finish now

def handleClientEvent (ev : EpollEvent) : Program EpollWorld PUnit := do
  if ev.events.rdhup then
    closeClient ev.data
  else if ev.events.readable then
    handleClientData cfg ev.data
  else
    return ⟨⟩

end Handlers

section ServiceEvents

variable (cfg : ServerConfig)

def record (branch : Branch) (ev : EpollEvent) : Program EpollWorld PUnit :=
  modifyApp fun a => { a with dispatched := a.dispatched ++ [⟨branch, ev⟩] }

def serviceEvent (ev : EpollEvent) : Program EpollWorld PUnit := do
  let fd ← readFd cfg ev.data
  if fd = cfg.listeningSocket then
    record .newClient ev
    epollHandleNewClients cfg cfg.listeningSocket
  else
    let fd ← readFd cfg ev.data
    if fd = (← get).app.tfd then
      record .timer ev
      timerExpired cfg
    else
      record .client ev
      handleClientEvent cfg ev

/-- The loop over the events that `epoll_pwait` has stored. -/
def serviceEvents : List EpollEvent → Program EpollWorld PUnit
  | [] => return ⟨⟩
  | ev :: evs => do
      serviceEvent cfg ev
      serviceEvents evs

end ServiceEvents

section ServiceLoop

variable (cfg : ServerConfig)

/-- The part of `service_loop` in front of its loop. -/
def serviceLoopStart : Program EpollWorld PUnit := do
  let epollFd ← createEpoll
  modifyApp fun a => { a with epollFd := epollFd }
  whenTrue cfg.doServerSideBenchmarking do
    let tfd ← createWarmupTimer
    modifyApp fun a => { a with tfd := tfd }
  epollAddListeningSocket cfg
  whenTrue cfg.doServerSideBenchmarking epollAddTimer

/-- `epoll_pwait` and the count of its events. -/
def awaitEvents : Program EpollWorld (List EpollEvent) := do
  let batch ← epollPwait
  whenTrue (0 ≤ batch.1) do
    whenTrue cfg.doServerSideBenchmarking do
      modifyHostBench fun b => sbRequestsPerformed b (Int32.ofInt batch.1)
  return batch.2

/-- One turn of the loop of `service_loop`. -/
def serviceLoopTurn : Program EpollWorld PUnit := do
  let evs ← awaitEvents cfg
  serviceEvents cfg evs

/-- `service_loop` up to the moment its loop is at the top for the `n`-th
time; the signal that ends the loop can come at any of them. -/
def serviceLoop (n : Nat) : Program EpollWorld PUnit := do
  serviceLoopStart cfg
  turns (fun _ => serviceLoopTurn cfg) n ⟨⟩

/-- The walk of `do_service_loop_cleanup` through the list; `fuel` bounds the
number of its steps. -/
def closeClients : Nat → Option Link → Program EpollWorld PUnit
  | _, none => return ⟨⟩
  | 0, some _ => throw .diverged
  | fuel + 1, some p => do
      let next := (← readThrough p).next
      closeClient p.ptr
      closeClients fuel next

/-- The list is not longer than the number of clients there have been. -/
def doServiceLoopCleanup : Program EpollWorld PUnit := do
  whenTrue ((← get).app.tfd ≠ -1) closeTimer
  let rc ← hostClose (← get).app.epollFd
  assertZero rc "close epoll_fd"
  let w ← get
  closeClients (w.accepts.length + 1) w.app.dllHead

/-- What `service_loop` does after its loop; `fileNull` is whether the file for
the bench cannot be opened. -/
def serviceLoopEnd (fileNull : Bool) : Program EpollWorld PUnit := do
  hostStopBench cfg fileNull
  doServiceLoopCleanup

/-- The state in which `main` starts: only the listening socket is open. -/
def initialWorld (sched : List (HostTick (List Fd))) : EpollWorld where
  kernel :=
    { files := Function.update (fun _ => none) cfg.listeningSocket (some .listening) }
  sched := sched
  app := {}

/-- `w` is a state of the server at the top of its loop, in some run, after any
further arrivals. -/
def Reachable (w : EpollWorld) : Prop :=
  ∃ (sched : List (HostTick (List Fd))) (n : Nat) (w₀ : EpollWorld) (arrivals : List Arrival),
    serviceLoop cfg n (initialWorld cfg sched) = .ok (⟨⟩, w₀) ∧
      w = arrivals.foldl HostWorld.arrive w₀

end ServiceLoop

end EchoServers.EpollServer
