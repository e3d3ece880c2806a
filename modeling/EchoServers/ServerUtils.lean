import EchoServers.ServerBenchmark
import EchoServers.SocketKernel
import EchoServers.Utils
import Mathlib.Algebra.Ring.Nat

namespace EchoServers.ServerUtils

open EchoServers.ServerBenchmark
open EchoServers.SocketKernel
open EchoServers.StateTriples
open EchoServers.TimeUtils
open EchoServers.Utils

/-- The compile-time configuration and the listening socket. -/
structure ServerConfig where
  defaultBufferSize : UInt32
  doServerSideBenchmarking : Bool
  benchMeasureServicingLatency : Bool
  listeningSocket : Fd
  buffer_pos : 0 < defaultBufferSize.toNat
  /-- A buffer length and a result of `recv` fit an `int`. -/
  buffer_lt : defaultBufferSize.toNat + 8 < 2 ^ 31
  /-- `create_ipv4_listening_socket` asserts it. -/
  listeningSocket_nonneg : 0 ≤ listeningSocket

/-- `DEFAULT_SERVER_BUFFER_SIZE`: a message and a pointer. -/
def ServerConfig.defaultServerBufferSize (cfg : ServerConfig) : Nat :=
  cfg.defaultBufferSize.toNat + 8

def ServerConfig.measuresLatency (cfg : ServerConfig) : Bool :=
  cfg.doServerSideBenchmarking && cfg.benchMeasureServicingLatency

/-- Messages of two bytes, with benchmarking. -/
def smallServerConfig : ServerConfig where
  defaultBufferSize := 2
  doServerSideBenchmarking := true
  benchMeasureServicingLatency := true
  listeningSocket := 3
  buffer_pos := by decide
  buffer_lt := by decide
  listeningSocket_nonneg := by decide

/-- `BENCH_EXPECTED_MESSAGES`. -/
def benchExpectedMessages : Int32 := 10000000

/-- What `malloc` hands out: an address, and what is found there. -/
structure Block where
  ptr : Ptr
  bytes : Nat → UInt8

/-- Where the samples of the bench are, and the addresses of samples given to
`free`, in order. -/
structure Samples where
  block : Option Ptr := none
  freed : List Ptr := []
  deriving DecidableEq

/-- `free` of the samples; nothing is done for a null pointer. -/
def Samples.release (s : Samples) : Samples where
  freed := s.freed ++ s.block.toList

/-- Misuse of memory, recorded where it happens. -/
inductive Fault where
  | useAfterFree (p : Ptr)
  | doubleFree (p : Ptr)
  | nullDereference
  deriving DecidableEq, Repr

/-- The branches of `service_events` in the servers that wait for readiness. -/
inductive Branch where
  | newClient
  | timer
  | client
  deriving DecidableEq, Repr

/-- The branch for the events of a file. -/
def branchFor : File → Branch
  | .listening => .newClient
  | .timer => .timer
  | .socket _ => .client
  | .epoll => .client

/-- `memcpy` from the kernel to a buffer. -/
def overwrite (buf data : List Octet) : List Octet :=
  data ++ buf.drop data.length

section Host

/-- The machine's part at one call of a server that waits for readiness: what
arrives before the call, and how the call is answered.  The calls that only one
of the servers makes are answered by a `ρ`. -/
structure HostTick (ρ : Type) where
  arrivals : List Arrival := []
  /-- The number of a new descriptor. -/
  fd : Fd := 0
  /-- The address a new allocation gets. -/
  ptr : Ptr := 0
  /-- How many bytes fit the send buffer. -/
  limit : Nat := 0
  refuses : Bool := false
  interrupted : Bool := false
  clock : Timespec := {}
  answer : ρ

/-- An echo that was completed, and `do_measure` at that moment. -/
structure Echo where
  fd : Fd
  message : List Octet
  doMeasure : Int32
  deriving DecidableEq

/-- What a server that waits for readiness works on: the kernel, its connection
structures `κ` on the heap, and the rest `α` of its memory. -/
structure HostWorld (ρ κ α : Type) where
  kernel : Kernel := {}
  bench : ServerBench := {}
  benchFile : Option String := none
  samples : Samples := {}
  cons : Ptr → Option κ := fun _ => none
  /-- The addresses given to `free`, in order. -/
  freed : List Ptr := []
  faults : List Fault := []
  /-- The results of `accept_client`, in order. -/
  accepts : List Fd := []
  /-- The numbers of events that the calls which wait for them have returned, in
  order. -/
  batches : List Nat := []
  echoes : List Echo := []
  sched : List (HostTick ρ) := []
  app : α

end Host

section Calls

variable {ρ κ α : Type}

def HostWorld.arrive (w : HostWorld ρ κ α) (a : Arrival) : HostWorld ρ κ α :=
  { w with kernel := w.kernel.arrive a }

/-- The machine takes its turn. -/
def hostYield [Inhabited ρ] : Program (HostWorld ρ κ α) (HostTick ρ) :=
  modifyGet fun w =>
    match w.sched with
    | [] => ({ answer := default }, w)
    | t :: ts => (t, t.arrivals.foldl HostWorld.arrive { w with sched := ts })

def hostFault (f : Fault) : Program (HostWorld ρ κ α) PUnit :=
  modify fun w => { w with faults := w.faults ++ [f] }

/-- A call that waits for events has returned `n` of them. -/
def recordBatch (n : Nat) : Program (HostWorld ρ κ α) PUnit :=
  modify fun w => { w with batches := w.batches ++ [n] }

def setKernel (k : Kernel) : Program (HostWorld ρ κ α) PUnit :=
  modify fun w => { w with kernel := k }

/-- `malloc` or `calloc` of a connection structure with the contents `init`; the
addresses of live objects are not handed out. -/
def allocCon [Inhabited ρ] (init : κ) : Program (HostWorld ρ κ α) Ptr := do
  let t ← hostYield
  if t.ptr < 3 ∨ ((← get).cons t.ptr).isSome then return 0
  else
    modify fun w => { w with cons := Function.update w.cons t.ptr (some init) }
    return t.ptr

def freeCon (p : Ptr) : Program (HostWorld ρ κ α) PUnit := do
  match (← get).cons p with
  | some _ =>
      modify fun w =>
        { w with cons := Function.update w.cons p none, freed := w.freed ++ [p] }
  | none => hostFault (.doubleFree p)

def modifyCon (p : Ptr) (f : κ → κ) : Program (HostWorld ρ κ α) PUnit := do
  match (← get).cons p with
  | some con => modify fun w => { w with cons := Function.update w.cons p (some (f con)) }
  | none => hostFault (.useAfterFree p)

def modifyHostBench (f : ServerBench → ServerBench) : Program (HostWorld ρ κ α) PUnit :=
  modify fun w => { w with bench := f w.bench }

/-- `sb_create`, where `malloc` answers `block`. -/
def hostCreateBench (block : Option Block) : Program (HostWorld ρ κ α) PUnit :=
  match block with
  | none => exitFailure "malloc"
  | some block =>
      modify fun w =>
        { w with
          bench := sbCreate benchExpectedMessages block.bytes
          samples := { w.samples with block := some block.ptr } }

/-- `sb_save_bench`; `fileNull` is whether `fopen` fails. -/
def hostSaveBench (fileNull : Bool) : Program (HostWorld ρ κ α) PUnit := do
  match sbSaveBench (← get).bench with
  | none => return ⟨⟩
  | some text =>
      assertNnull fileNull "fopen"
      modify fun w => { w with benchFile := some text }

def hostFreeBench : Program (HostWorld ρ κ α) PUnit :=
  modify fun w => { w with bench := sbFree w.bench, samples := w.samples.release }

variable [Inhabited ρ]

def hostNow : Program (HostWorld ρ κ α) Timespec := do
  return (← hostYield).clock

/-- The reading of the clock in front of an echo, where latency is measured. -/
def hostStart (cfg : ServerConfig) : Program (HostWorld ρ κ α) Timespec :=
  if cfg.measuresLatency then hostNow else return {}

/-- What `service_loop` does with the bench behind its loop. -/
def hostStopBench (cfg : ServerConfig) (fileNull : Bool) : Program (HostWorld ρ κ α) PUnit :=
  whenTrue cfg.doServerSideBenchmarking do
    let now ← hostNow
    modifyHostBench fun b => sbStop b now
    hostSaveBench fileNull

def hostClose (fd : Fd) : Program (HostWorld ρ κ α) Int := do
  let _ ← hostYield
  let closed := (← get).kernel.close fd
  setKernel closed.2
  return closed.1

def createWarmupTimer : Program (HostWorld ρ κ α) Fd := do
  let t ← hostYield
  if t.refuses ∨ t.fd < 0 ∨ ((← get).kernel.files t.fd).isSome then
    exitFailure "timerfd_create"
  else
    modify fun w =>
      { w with
        kernel := { w.kernel with
          files := Function.update w.kernel.files t.fd (some .timer)
          timerExpired := false } }
    let s ← hostYield
    assertZero (if s.refuses then -1 else 0) "timerfd_settime"
    return t.fd

def acceptClient (_listeningSocket : Fd) : Program (HostWorld ρ κ α) Fd := do
  let t ← hostYield
  match (← get).kernel.accept4 t.fd with
  | (.ok clientSocket, k) =>
      modify fun w => { w with kernel := k, accepts := w.accepts ++ [clientSocket] }
      return clientSocket
  | (.error .eagain, _) =>
      modify fun w => { w with accepts := w.accepts ++ [-1] }
      return -1
  | (.error _, _) => exitFailure "accept"

/-- The buffer is given and returned by value. -/
def readNEcho (cfg : ServerConfig) (fd : Fd) (buf : List Octet) :
    Program (HostWorld ρ κ α) (Int × List Octet) := do
  let _ ← hostYield
  match (← get).kernel.read fd buf.length with
  | (.error _, _) => exitFailure "read\n"
  | (.ok data, k) =>
      setKernel k
      let buf := overwrite buf data
      let readBytes := data.length
      if readBytes = 0 then
        return (0, buf)
      else if readBytes > cfg.defaultBufferSize.toNat then
        exitFailure "recv: got more than expected"
      else if readBytes < cfg.defaultBufferSize.toNat then
        exitFailure "recv: got less than expected"
      else
        let t ← hostYield
        match (← get).kernel.write fd (buf.take readBytes) t.limit with
        | (.error _, _) => exitFailure "write\n"
        | (.ok sentBytes, k) =>
            setKernel k
            if sentBytes < cfg.defaultBufferSize.toNat then
              exitFailure "send: less than expected"
            else
              modify fun w =>
                { w with echoes := w.echoes ++ [⟨fd, buf.take readBytes, w.bench.doMeasure⟩] }
              return (Int.ofNat readBytes, buf)

end Calls

section Preserves

variable {ρ κ α β : Type} {L : List Stop}

/-- The calls leave what only the server works on as it is. -/
abbrev KeepsApp (L : List Stop) (x : Program (HostWorld ρ κ α) β) : Prop :=
  Preserves HostWorld.app (fun e => e ∉ L) x

theorem app_arrivals (w : HostWorld ρ κ α) (arrivals : List Arrival) :
    (arrivals.foldl HostWorld.arrive w).app = w.app := by
  induction arrivals generalizing w with
  | nil => rfl
  | cons a as ih => exact ih (w.arrive a)

theorem keepsApp_hostFault (f : Fault) :
    KeepsApp L (hostFault f : Program (HostWorld ρ κ α) PUnit) :=
  Preserves.modify fun _ => rfl

theorem keepsApp_setKernel (k : Kernel) :
    KeepsApp L (setKernel k : Program (HostWorld ρ κ α) PUnit) :=
  Preserves.modify fun _ => rfl

theorem keepsApp_exitFailure {text : String} (htext : .exit text ∉ L) :
    KeepsApp L (exitFailure text : Program (HostWorld ρ κ α) β) :=
  Preserves.throw htext

theorem keepsApp_whenTrue {c : Prop} [Decidable c] {x : Program (HostWorld ρ κ α) PUnit}
    (hx : KeepsApp L x) : KeepsApp L (whenTrue c x) :=
  Preserves.ite hx (Preserves.pure _)

theorem keepsApp_whenNonNull {π : Type} {p : Option π}
    {x : π → Program (HostWorld ρ κ α) PUnit} (hx : ∀ q, KeepsApp L (x q)) :
    KeepsApp L (whenNonNull p x) := by
  cases p with
  | none => exact Preserves.pure _
  | some q => exact hx q

theorem keepsApp_assertZero {text : String} (htext : .exit text ∉ L) (code : Int) :
    KeepsApp L (assertZero code text : Program (HostWorld ρ κ α) PUnit) :=
  Preserves.ite (keepsApp_exitFailure htext) (Preserves.pure _)

theorem keepsApp_assertNnull {text : String} (htext : .exit text ∉ L) (isNull : Bool) :
    KeepsApp L (assertNnull isNull text : Program (HostWorld ρ κ α) PUnit) :=
  Preserves.ite (keepsApp_exitFailure htext) (Preserves.pure _)

theorem keepsApp_freeCon (p : Ptr) :
    KeepsApp L (freeCon p : Program (HostWorld ρ κ α) PUnit) := by
  apply Preserves.get_bind
  intro w
  cases w.cons p with
  | some con => exact Preserves.modify fun _ => rfl
  | none => exact keepsApp_hostFault _

theorem keepsApp_modifyCon (p : Ptr) (f : κ → κ) :
    KeepsApp L (modifyCon p f : Program (HostWorld ρ κ α) PUnit) := by
  apply Preserves.get_bind
  intro w
  cases w.cons p with
  | some con => exact Preserves.modify fun _ => rfl
  | none => exact keepsApp_hostFault _

theorem keepsApp_modifyHostBench (f : ServerBench → ServerBench) :
    KeepsApp L (modifyHostBench f : Program (HostWorld ρ κ α) PUnit) :=
  Preserves.modify fun _ => rfl

variable [Inhabited ρ]

theorem keepsApp_hostYield :
    KeepsApp L (hostYield : Program (HostWorld ρ κ α) (HostTick ρ)) := by
  apply Preserves.modifyGet
  intro w
  cases w.sched with
  | nil => rfl
  | cons t ts => exact app_arrivals _ _

theorem keepsApp_allocCon (init : κ) :
    KeepsApp L (allocCon init : Program (HostWorld ρ κ α) Ptr) := by
  refine keepsApp_hostYield.bind fun t => Preserves.get_bind fun w =>
    Preserves.ite (Preserves.pure _) ?_
  exact Preserves.bind (Preserves.modify fun _ => rfl) fun _ => Preserves.pure _

theorem keepsApp_hostNow : KeepsApp L (hostNow : Program (HostWorld ρ κ α) Timespec) :=
  keepsApp_hostYield.bind fun _ => Preserves.pure _

theorem keepsApp_hostStart (cfg : ServerConfig) :
    KeepsApp L (hostStart cfg : Program (HostWorld ρ κ α) Timespec) :=
  Preserves.ite keepsApp_hostNow (Preserves.pure _)

theorem keepsApp_hostClose (fd : Fd) :
    KeepsApp L (hostClose fd : Program (HostWorld ρ κ α) Int) :=
  keepsApp_hostYield.bind fun _ => Preserves.get_bind fun _ =>
    (keepsApp_setKernel _).bind fun _ => Preserves.pure _

theorem keepsApp_acceptClient (haccept : .exit "accept" ∉ L) (ls : Fd) :
    KeepsApp L (acceptClient ls : Program (HostWorld ρ κ α) Fd) := by
  refine keepsApp_hostYield.bind fun t => Preserves.get_bind fun w => ?_
  split
  · exact Preserves.bind (Preserves.modify fun _ => rfl) fun _ => Preserves.pure _
  · exact Preserves.bind (Preserves.modify fun _ => rfl) fun _ => Preserves.pure _
  · exact keepsApp_exitFailure haccept

/-- The exits of `read_n_echo`. -/
def readNEchoStops : List Stop :=
  [.exit "read\n", .exit "recv: got more than expected",
    .exit "recv: got less than expected", .exit "write\n", .exit "send: less than expected"]

theorem keepsApp_readNEcho (hstops : ∀ e ∈ readNEchoStops, e ∉ L) (cfg : ServerConfig)
    (fd : Fd) (buf : List Octet) :
    KeepsApp L (readNEcho cfg fd buf : Program (HostWorld ρ κ α) (Int × List Octet)) := by
  refine keepsApp_hostYield.bind fun _ => Preserves.get_bind fun w => ?_
  split
  · exact keepsApp_exitFailure (hstops _ (by simp [readNEchoStops]))
  · refine (keepsApp_setKernel _).bind fun _ => Preserves.ite (Preserves.pure _) ?_
    refine Preserves.ite (keepsApp_exitFailure (hstops _ (by simp [readNEchoStops]))) ?_
    refine Preserves.ite (keepsApp_exitFailure (hstops _ (by simp [readNEchoStops]))) ?_
    refine keepsApp_hostYield.bind fun t => Preserves.get_bind fun w' => ?_
    split
    · exact keepsApp_exitFailure (hstops _ (by simp [readNEchoStops]))
    · refine (keepsApp_setKernel _).bind fun _ => ?_
      refine Preserves.ite (keepsApp_exitFailure (hstops _ (by simp [readNEchoStops]))) ?_
      exact Preserves.bind (Preserves.modify fun _ => rfl) fun _ => Preserves.pure _

end Preserves

end EchoServers.ServerUtils
