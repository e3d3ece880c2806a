import EchoServers.PollEchoes
import EchoServers.PollShutdown

/-!
The poll server from the moment its socket listens until the process ends.
-/

namespace EchoServers.PollMain

open EchoServers.EchoTraffic
open EchoServers.HostLedger
open EchoServers.PollEchoes
open EchoServers.PollRegistry
open EchoServers.PollRuns
open EchoServers.PollServer
open EchoServers.PollServicing
open EchoServers.PollShutdown
open EchoServers.PollVector
open EchoServers.ServerBenchmark
open EchoServers.ServerUtils
open EchoServers.SocketKernel
open EchoServers.StateTriples
open EchoServers.Utils

section Program

/-- Both blocks are freed. -/
def pollfdvFree (v : PollfdVector) : PollfdVector :=
  { v with data := [], pd := [], size := 0, capacity := 0 }

variable (cfg : ServerConfig)

def doExitCleanup : Program PollWorld PUnit := do
  let rc ← hostClose cfg.listeningSocket
  assertZero rc "close listening socket"
  whenTrue cfg.doServerSideBenchmarking hostFreeBench
  setVector (pollfdvFree (← getVector))

/-- `main` up to the signal, which comes at the `n`-th turn of the loop; `malloc`
has answered `block` for the samples of the bench. -/
def mainLoop (block : Option Block) (dataNull pdNull : Bool) (n : Nat) :
    Program PollWorld PUnit := do
  whenTrue cfg.doServerSideBenchmarking <| hostCreateBench block
  serviceLoop cfg dataNull pdNull n

def main (block : Option Block) (dataNull pdNull fileNull : Bool) (n : Nat) :
    Program PollWorld PUnit := do
  mainLoop cfg block dataNull pdNull n
  serviceLoopEnd cfg fileNull
  doExitCleanup cfg

end Program

section Walk

variable {l : PollLedger} {ls fd : Fd} {e : Entry} {es : List Entry} {p : Ptr}

theorem files_cleaned : (cleaned ls l e).files =
    if e.1.fd = ls then l.files else Function.update l.files e.1.fd none := by
  unfold cleaned freedPd
  split_ifs
  · rfl
  · cases e.2 <;> rfl

theorem foldl_files_listening : (es.foldl (cleaned ls) l).files ls = l.files ls := by
  induction es generalizing l with
  | nil => rfl
  | cons e es ih =>
      refine ih.trans ?_
      rw [files_cleaned]
      split_ifs with hls
      · rfl
      · exact Function.update_of_ne (Ne.symm hls) ..

end Walk

section End

variable {cfg : ServerConfig} {l : PollLedger} {w t : PollWorld} {fd : Fd} {p : Ptr}
  {E : Stop → Prop}

/-- The ledger once the connections are cleaned up. -/
def cleanedAll (cfg : ServerConfig) (l : PollLedger) : PollLedger :=
  l.app.pollfdv.entries.foldl (cleaned cfg.listeningSocket) l

/-- The ledger at the end of the process. -/
def exited (cfg : ServerConfig) (l : PollLedger) : PollLedger :=
  let freed := benchFreed cfg.doServerSideBenchmarking
    ((cleanedAll cfg l).closed cfg.listeningSocket .listening)
  freed.withApp { freed.app with pollfdv := pollfdvFree freed.app.pollfdv }

theorem meets_serviceLoopEnd (h : Orderly cfg (ledger pollShape w)) (hlost : -1 ∉ w.accepts)
    {fileNull : Bool} (hfile : cfg.doServerSideBenchmarking → fileNull = false) :
    Meets (Booked pollShape (ledger pollShape w)) (serviceLoopEnd cfg fileNull)
      (fun _ => Booked pollShape (cleanedAll cfg (ledger pollShape w))) E := by
  refine (meets_hostStopBench hfile).bind fun _ => Meets.get_bind fun v hv => ?_
  have happ : v.app = w.app := congrArg Ledger.app hv
  rw [happ]
  exact (meets_closeOrderly h hlost).pre fun _ heq => heq ▸ hv

/-- The last step of `do_exit_cleanup`. -/
theorem meets_vectorFreed {P Q : PollWorld → Prop}
    (h : ∀ w, P w → Q { w with app := { w.app with pollfdv := pollfdvFree w.app.pollfdv } }) :
    Meets P (do setVector (pollfdvFree (← getVector))) (fun _ => Q) E := by
  constructor
  · exact Stops.of_returns ((Returns.get_bind fun _ => Returns.pure _).bind fun _ =>
      Returns.modify _)
  · intro w hw a t hrun
    cases hrun
    exact h w hw

theorem meets_doExitCleanup (hlistening : l.files cfg.listeningSocket = some .listening) :
    Meets (Booked pollShape (cleanedAll cfg l)) (doExitCleanup cfg)
      (fun _ w => Booked pollShape (exited cfg l) w ∧
        (cfg.doServerSideBenchmarking → w.bench.eventLatency.size = 0)) E := by
  have hfile : (cleanedAll cfg l).files cfg.listeningSocket = some .listening :=
    foldl_files_listening.trans hlistening
  refine (meets_hostClose hfile).bind fun rc => Meets.and_pre ?_
  rintro rfl
  refine meets_assertZero.bind fun _ => (meets_freeBench _).bind fun _ => meets_vectorFreed ?_
  rintro w ⟨hw, hbench⟩
  refine ⟨?_, hbench⟩
  rw [Booked, exited, ← hw]
  rfl

/-- The process that was in the state `w` ends in the state `t` with nothing
left open or allocated, and nothing was released twice on the way. -/
structure Released (cfg : ServerConfig) (block : Option Block) (w t : PollWorld) : Prop where
  files : ∀ fd, t.kernel.files fd = none
  cons : ∀ p, t.cons p = none
  vector : t.app.pollfdv.data = [] ∧ t.app.pollfdv.pd = []
  samples : SamplesFreed cfg block t.samples
  bench : cfg.doServerSideBenchmarking → t.bench.eventLatency.size = 0
  closes : ∃ closed, t.kernel.closes = w.kernel.closes ++ closed ∧
    (closed.map Prod.fst).Nodup ∧ ∀ fd, fd ∈ closed.map Prod.fst ↔ w.kernel.files fd ≠ none
  frees : ∃ freed, t.freed = w.freed ++ freed ∧ freed.Nodup ∧
    ∀ p, p ∈ freed ↔ w.cons p ≠ none
  faults : t.faults = []

/-- Up to the signal the samples of the bench stay where `sb_create` has put them. -/
theorem run_of_mainLoop {block : Option Block} {dataNull pdNull : Bool}
    {sched : List (HostTick Growth)} {n : Nat}
    (hrun : mainLoop cfg block dataNull pdNull n (initialWorld cfg sched) = .ok (⟨⟩, w)) :
    (cfg.doServerSideBenchmarking → block.isSome) ∧ w.samples = madeSamples cfg block ∧
      Orderly cfg (ledger pollShape w) := by
  obtain ⟨⟨⟩, w₁, hcreate, hloop⟩ := bind_eq_ok hrun
  obtain ⟨hmade, b₀, rfl⟩ := createBench_eq_ok hcreate rfl
  have hreachable : BenchReachable cfg b₀ (madeSamples cfg block) w :=
    ⟨dataNull, pdNull, sched, n, w, [], hloop, rfl⟩
  obtain ⟨horderly, hflow⟩ := atTop_of_reachable lasting_true trivial hreachable
  obtain ⟨_, -, -, hjournal⟩ := hflow.noted
  exact ⟨hmade, hjournal.samples, horderly⟩

end End

section Lost

variable {cfg : ServerConfig} {v : PollfdVector} {w : PollWorld} {ls timerFd fd : Fd}

theorem mainLoop_settled {block : Option Block} {dataNull pdNull : Bool}
    {sched : List (HostTick Growth)} {n : Nat}
    (h : (mainLoop cfg block dataNull pdNull n (initialWorld cfg sched)).isOk = true) :
    mainLoop cfg block dataNull pdNull n (initialWorld cfg sched) =
      .ok (⟨⟩, (settled (mainLoop cfg block dataNull pdNull n) (initialWorld cfg sched) ⟨⟩).2) :=
  run_settled h

end Lost

end EchoServers.PollMain
