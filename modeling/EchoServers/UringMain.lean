import EchoServers.UringBench
import EchoServers.UringShutdown
import EchoServers.UringTraffic

/-!
The io_uring server from the moment its socket listens until the process ends,
and what it leaves behind.
-/

namespace EchoServers.UringMain

open EchoServers.HostLedger
open EchoServers.ServerBenchmark
open EchoServers.ServerUtils
open EchoServers.SocketKernel
open EchoServers.StateTriples
open EchoServers.UringBench
open EchoServers.UringGuarantees
open EchoServers.UringHandlers
open EchoServers.UringInvariant
open EchoServers.UringKernelSteps
open EchoServers.UringMemory
open EchoServers.UringOwnership
open EchoServers.UringQueues
open EchoServers.UringReferences
open EchoServers.UringServer
open EchoServers.UringShutdown
open EchoServers.UringStreams
open EchoServers.UringSubmission
open EchoServers.UringTraffic
open EchoServers.Utils

section Program

variable (cfg : Config)

def doExitCleanup : Program World PUnit := do
  let rc ← closeFd cfg.listeningSocket
  assertZero rc "close"
  whenTrue cfg.doServerSideBenchmarking freeBench

/-- `main` up to the signal, which comes at the `n`-th turn of the loop; `malloc`
has answered `block` for the samples of the bench. -/
def mainLoop (block : Option Block) (n : Nat) : Program World Int32 := do
  whenTrue cfg.doServerSideBenchmarking <| createBench block
  serviceLoop cfg n

/-- `main`; `fuel` bounds the walk over the tracked connections. -/
def main (block : Option Block) (fileNull : Bool) (n fuel : Nat) : Program World PUnit := do
  let _ ← mainLoop cfg block n
  serviceLoopEnd cfg fileNull fuel
  doExitCleanup cfg

end Program

section Files

variable {cfg : Config} {held : List Reference} {cur now : List Cqe} {spare : List Ptr}
  {v v' : View} {w : World}

/-- Only the listening socket and connections are open. -/
structure Listening (cfg : Config) (v : View) : Prop where
  listening : v.kernel.files cfg.listeningSocket = some .listening
  others : ∀ fd, fd ≠ cfg.listeningSocket → v.kernel.files fd ≠ none →
    ∃ c, v.kernel.files fd = some (.socket c)

def Listens (cfg : Config) (_ _ : List Cqe) (v : View) : Prop :=
  v.faithful = true ∧ Listening cfg v

theorem Listening.congr (h : Listening cfg v) (hfiles : v'.kernel.files = v.kernel.files) :
    Listening cfg v' := by
  constructor
  · rw [hfiles]
    exact h.listening
  · rw [hfiles]
    exact h.others

/-- The kernel opens sockets, and closes what the server has a claim to. -/
theorem Listening.step {xs : List (Ptr × Ptr)} (hown : Owned cfg held cur spare xs v)
    (hecho : Echoes cfg held cur v) (hstep : KernelStep v v') (h : Listening cfg v) :
    Listening cfg v' := by
  cases hstep with
  | network a => exact h.congr (arrive_files a)
  | accept before after r hinflight hkind fd c backlog hbacklog hfd hfree =>
      have hne : cfg.listeningSocket ≠ fd := by
        rintro rfl
        rw [h.listening] at hfree
        cases hfree
      constructor
      · exact (Function.update_of_ne hne ..).trans h.listening
      · intro fd' hls hopen
        rcases eq_or_ne fd' fd with rfl | hother
        · exact ⟨c, Function.update_self ..⟩
        · have hsame : Function.update v.kernel.files fd (some (.socket c)) fd' =
              v.kernel.files fd' := Function.update_of_ne hother ..
          change Function.update v.kernel.files fd (some (.socket c)) fd' ≠ none at hopen
          rw [hsame] at hopen
          obtain ⟨c', hfile⟩ := h.others fd' hls hopen
          exact ⟨c', hsame.trans hfile⟩
  | close before after r hinflight hkind f hopen =>
      have hmem : r.sqe.fd ∈ claims (references v ++ held) := by
        refine mem_claims (List.mem_append_left _ (mem_references_inflight (r := r) ?_)) ?_
        · simp [hinflight]
        · simp [claim, hkind]
      obtain ⟨c, hsocket⟩ := (hecho.claimsOpen r.sqe.fd).mp hmem
      have hne : cfg.listeningSocket ≠ r.sqe.fd := by
        intro heq
        rw [← heq, h.listening] at hsocket
        cases hsocket
      have hfiles : (v.kernel.close r.sqe.fd).2.files =
          Function.update v.kernel.files r.sqe.fd none := close_files
      constructor
      · exact (congrFun hfiles _).trans ((Function.update_of_ne hne ..).trans h.listening)
      · intro fd' hls hopen'
        change (v.kernel.close r.sqe.fd).2.files fd' ≠ none at hopen'
        rw [hfiles] at hopen'
        rcases eq_or_ne fd' r.sqe.fd with rfl | hother
        · exact absurd (Function.update_self ..) hopen'
        · rw [Function.update_of_ne hother] at hopen'
          obtain ⟨c', hfile⟩ := h.others fd' hls hopen'
          exact ⟨c', (congrFun hfiles _).trans ((Function.update_of_ne hother ..).trans hfile)⟩
  | stray r hmem hkind hstray =>
      obtain ⟨haddr, o, ho⟩ := hown.request_addr hmem hkind
      rw [hstray _ haddr] at ho
      cases ho
  | consume | deliver | eof | scribble | transmit | sent | answer => exact h.congr rfl

theorem listens_step (hinv : Inv cfg held cur spare v) (hstep : KernelStep v v')
    (h : Listens cfg cur cur v) : Listens cfg cur cur v' := by
  obtain ⟨hfaithful, hlistening⟩ := h
  obtain ⟨xs, hown, hecho⟩ := hinv
  exact ⟨(hown.step hstep).2.1.trans hfaithful, hlistening.step hown (hecho hfaithful) hstep⟩

theorem rides_listens (cfg : Config) : Rides cfg (Listens cfg) fun _ _ => True where
  same hsame h :=
    ⟨hsame.faithful.trans h.1, h.2.congr (congrArg Kernel.files hsame.kernel)⟩
  sameClosing _ _ := trivial
  step := listens_step
  stepClosing _ _ _ _ := trivial
  publish h _ := ⟨h.1, h.2.congr rfl⟩
  reap h _ := ⟨h.1, h.2.congr rfl⟩
  count _ _ h := h
  ended _ _ _ _ _ _ := trivial
  finish h := ⟨h.1, h.2.congr rfl⟩

theorem listens_initialWorld (s : RingSetup cfg) (useKernelPooling : Bool) (sched : List Tick) :
    Listens cfg [] [] (view (initialWorld cfg s useKernelPooling true sched)) := by
  have hfiles : (view (initialWorld cfg s useKernelPooling true sched)).kernel.files =
      Function.update (fun _ => none) cfg.listeningSocket (some .listening) := rfl
  refine ⟨rfl, ?_, ?_⟩
  · rw [hfiles]
    exact Function.update_self ..
  · intro fd hls hopen
    rw [hfiles, Function.update_of_ne hls] at hopen
    exact absurd rfl hopen

end Files

section Bench

variable {cfg : Config} {P : World → Prop} {block : Option Block} {fileNull : Bool}
  {w w' : World}

theorem createBench_eq_ok
    (hrun : whenTrue cfg.doServerSideBenchmarking (createBench block) w = .ok (⟨⟩, w'))
    (hnone : w.samples = {}) :
    (cfg.doServerSideBenchmarking → block.isSome) ∧
      ∃ b₀, w' = { w with bench := b₀, samples := madeSamples cfg.toServerConfig block } := by
  unfold madeSamples
  by_cases hbench : cfg.doServerSideBenchmarking = true
  · rw [whenTrue_of hbench] at hrun
    rw [if_pos hbench]
    cases block with
    | none => cases hrun
    | some b =>
        cases hrun
        refine ⟨fun _ => rfl, sbCreate benchExpectedMessages b.bytes, ?_⟩
        have hmade : { w.samples with block := some b.ptr } = ({ block := some b.ptr } : Samples) :=
          congrArg (fun s => Samples.mk (some b.ptr) s.freed) hnone
        exact congrArg (fun s => { w with
          bench := sbCreate benchExpectedMessages b.bytes, samples := s }) hmade
  · rw [whenTrue_of_not hbench] at hrun
    cases hrun
    rw [if_neg hbench, ← hnone]
    exact ⟨fun h => absurd h hbench, w.bench, rfl⟩

theorem triple_stopBench (hyield : Triple P yield fun _ => P)
    (hbench : ∀ w b, P w → P { w with bench := b })
    (hfile : ∀ w text, P w → P { w with benchFile := text }) :
    Triple P (stopBench cfg fileNull) fun _ => P := by
  refine triple_whenTrue (fun _ => ?_) fun _ h _ => h
  refine Triple.bind (Q := fun _ => P) (hyield.bind fun _ => Triple.pure _ fun _ h => h)
    fun now => ?_
  refine Triple.bind (Q := fun _ => P) (Triple.modify fun w h => hbench w _ h) fun _ => ?_
  refine Triple.get_bind fun w h => ?_
  cases sbSaveBench w.bench with
  | none => exact Triple.pure _ fun _ heq => heq ▸ h
  | some text =>
      refine triple_assertNnull.bind fun _ => Triple.modify ?_
      rintro w' ⟨rfl, -⟩
      exact hfile w' _ h

/-- There is a text to be written once measuring has stopped, so that the file
was opened. -/
theorem opened_of_stopBench (hrun : stopBench cfg fileNull w = .ok (⟨⟩, w')) :
    cfg.doServerSideBenchmarking → fileNull = false := by
  have hopened : Triple (fun _ => True) (stopBench cfg fileNull)
      fun _ _ => cfg.doServerSideBenchmarking → fileNull = false := by
    refine triple_whenTrue (fun _ => ?_) fun _ _ hoff hon => absurd hon hoff
    refine Triple.bind (Q := fun _ _ => True) (fun _ _ _ _ _ => trivial) fun now => ?_
    refine Triple.bind (Q := fun _ w => w.bench.doMeasure = 0) (Triple.modify fun _ _ => rfl)
      fun _ => Triple.get_bind fun w hidle => ?_
    have htext : ∃ text, sbSaveBench w.bench = some text := ⟨_, if_neg (not_not.mpr hidle)⟩
    obtain ⟨text, htext⟩ := htext
    rw [htext]
    exact triple_assertNnull.bind fun _ => Triple.modify fun _ hopen _ => hopen.2
  exact hopened w trivial ⟨⟩ w' hrun

theorem stopBench_of_opened (hfile : cfg.doServerSideBenchmarking → fileNull = false) :
    stopBench cfg fileNull = stopBench cfg false := by
  by_cases hbench : cfg.doServerSideBenchmarking = true
  · rw [hfile hbench]
  · rw [stopBench, stopBench, whenTrue_of_not hbench, whenTrue_of_not hbench]

theorem returns_yield : Returns yield := Returns.modifyGet _

theorem returns_stopBench : Returns (stopBench cfg false) := by
  refine Returns.ite ?_ (Returns.pure _)
  refine Returns.bind (returns_yield.bind fun _ => Returns.pure _) fun _ =>
    (Returns.modify _).bind fun _ => Returns.get_bind fun w => ?_
  cases sbSaveBench w.bench with
  | none => exact Returns.pure _
  | some text => exact Returns.bind (Returns.pure _) fun _ => Returns.modify _

theorem samples_act (w : World) (a : KernelAct) : (w.act a).samples = w.samples :=
  (sameBooks_act w a).2.2

/-- What holds when the ring is closed. -/
theorem kept_until_closing {s₀ : Samples} {tick : Tick}
    (h : On (fun v => Inv cfg [] [] [] v ∧ Listens cfg [] [] v) w ∧ w.samples = s₀)
    (hrun : (do stopBench cfg false; yield) w = .ok (tick, w')) :
    On (fun v => Inv cfg [] [] [] v ∧ Listens cfg [] [] v) w' ∧ w'.samples = s₀ := by
  have hstable : Stable fun v => Inv cfg [] [] [] v ∧ Listens cfg [] [] v :=
    (rides_listens cfg).stable stable_inv fun v h => ⟨_, _, h⟩
  have hyield : Triple (fun w => On (fun v => Inv cfg [] [] [] v ∧ Listens cfg [] [] v) w ∧
      w.samples = s₀) yield fun _ w =>
        On (fun v => Inv cfg [] [] [] v ∧ Listens cfg [] [] v) w ∧ w.samples = s₀ :=
    (triple_yield hstable).and
      (triple_yield_of (fun w a h => (samples_act w a).trans h) fun _ _ h => h)
  have hstop : Triple (fun w => On (fun v => Inv cfg [] [] [] v ∧ Listens cfg [] [] v) w ∧
      w.samples = s₀) (stopBench cfg false) fun _ w =>
        On (fun v => Inv cfg [] [] [] v ∧ Listens cfg [] [] v) w ∧ w.samples = s₀ :=
    triple_stopBench hyield (fun _ _ h => h) fun _ _ h => h
  exact (hstop.bind fun _ => hyield) w h tick w' hrun

/-- What holds at the top of the loop of `main`. -/
theorem run_of_mainLoop {s : RingSetup cfg} {useKernelPooling : Bool} {sched : List Tick}
    {n : Nat} {k : Int32}
    (hrun : mainLoop cfg block n (initialWorld cfg s useKernelPooling true sched) = .ok (k, w)) :
    (cfg.doServerSideBenchmarking → block.isSome) ∧
      On (fun v => Inv cfg [] [] [] v ∧ Listens cfg [] [] v) w ∧
        w.samples = madeSamples cfg.toServerConfig block := by
  obtain ⟨⟨⟩, w₁, hcreate, hloop⟩ := bind_eq_ok hrun
  obtain ⟨hmade, b₀, rfl⟩ := createBench_eq_ok hcreate rfl
  have hreachable : BenchReachable cfg b₀ (madeSamples cfg.toServerConfig block) w :=
    ⟨s, useKernelPooling, true, sched, n, k, w, [], hloop, rfl⟩
  obtain ⟨-, t, hjournal, -, hsamples, -⟩ := journaled_of_reachable hreachable
  have hstart : On (fun v => Inv cfg (initiallyHeld cfg) [] [] v ∧ Listens cfg [] [] v)
      (benchWorld cfg s useKernelPooling true b₀ (madeSamples cfg.toServerConfig block) sched) :=
    ⟨wellFormed_iouCreate s useKernelPooling, inv_initialWorld s useKernelPooling true sched,
      listens_initialWorld s useKernelPooling sched⟩
  exact ⟨hmade, rides_of_run (rides_listens cfg) hstart hloop,
    hsamples.symm.trans hjournal.samples⟩

end Bench

section Walk

variable {cfg : Config} {w w' : World} {start : Option Ptr} {fuel : Nat} {xs : List (Ptr × Ptr)}
  {fd : Fd} {p n : Ptr}

/-- A walk that comes to its end has been at every node. -/
theorem state_of_walk (h : Walkable w.toServer start xs)
    (hrun : closeTracked fuel start w = .ok (⟨⟩, w')) : w' = xs.foldl release w := by
  induction xs generalizing fuel start w with
  | nil =>
      obtain rfl : start = none := h.chain
      cases fuel <;> cases hrun <;> rfl
  | cons x xs ih =>
      obtain ⟨m, hnode, hallocated⟩ := h.allocatedOp x (by simp)
      obtain ⟨o, hop⟩ := Option.isSome_iff_exists.mp (h.live x (by simp))
      obtain rfl : start = some x.1 := h.chain.1
      cases fuel with
      | zero => cases hrun
      | succ fuel =>
          rw [closeTracked_cons hnode hallocated hop] at hrun
          split at hrun
          · cases hrun
          · exact ih (h.rest hnode) hrun

theorem foldl_release_files (hnodup : (xs.map Prod.snd).Nodup) :
    (xs.foldl release w).kernel.files fd =
      if fd ∈ xs.map (trackedFd w.toServer) then none else w.kernel.files fd := by
  induction xs generalizing w with
  | nil => rfl
  | cons x xs ih =>
      have hfiles : (release w x).kernel.files =
          Function.update w.kernel.files (trackedFd w.toServer x) none := close_files
      rw [List.foldl_cons, ih (List.nodup_cons.mp hnodup).2, trackedFd_release hnodup, hfiles,
        List.map_cons]
      rcases eq_or_ne fd (trackedFd w.toServer x) with rfl | hne
      · rw [Function.update_self, ite_self, if_pos List.mem_cons_self]
      · rw [Function.update_of_ne hne]
        simp only [List.mem_cons, hne, false_or]

theorem foldl_release_ops :
    (xs.foldl release w).ops p = if p ∈ xs.map Prod.snd then none else w.ops p := by
  induction xs generalizing w with
  | nil => rfl
  | cons x xs ih =>
      have hops : (release w x).ops = Function.update w.ops x.2 none := rfl
      rw [List.foldl_cons, ih, List.map_cons, hops]
      rcases eq_or_ne p x.2 with rfl | hne
      · simp
      · rw [Function.update_of_ne hne]
        simp only [List.mem_cons, hne, false_or]

theorem foldl_release_nodes :
    (xs.foldl release w).nodes n = if n ∈ xs.map Prod.fst then none else w.nodes n := by
  induction xs generalizing w with
  | nil => rfl
  | cons x xs ih =>
      have hnodes : (release w x).nodes = Function.update w.nodes x.1 none := rfl
      rw [List.foldl_cons, ih, List.map_cons, hnodes]
      rcases eq_or_ne n x.1 with rfl | hne
      · simp
      · rw [Function.update_of_ne hne]
        simp only [List.mem_cons, hne, false_or]

end Walk

section Exit

variable {cfg : Config} {w w' t : World} {fuel : Nat} {xs : List (Ptr × Ptr)} {fd : Fd}

/-- The process in which the ring was closed in the state `w` ends in the state `t`:
the sockets whose accept the server has not seen stay open, all else is closed and
freed, once. -/
structure LeftUnseen (cfg : Config) (block : Option Block) (w t : World) : Prop where
  files : ∀ fd, t.kernel.files fd ≠ none ↔ fd ∈ acceptedUnreaped w
  ops : ∀ p, t.ops p ≠ none ↔ p = acceptReq ∨ p = timerReq
  nodes : ∀ n, t.nodes n = none
  closes : ∃ closed, t.kernel.closes = w.kernel.closes ++ closed ∧
    (closed.map Prod.fst).Nodup ∧
      ∀ fd, fd ∈ closed.map Prod.fst ↔ w.kernel.files fd ≠ none ∧ fd ∉ acceptedUnreaped w
  frees : ∃ xs, Tracked w.toServer xs ∧ t.freedOps = w.freedOps ++ xs.map Prod.snd ∧
    t.freedNodes = w.freedNodes ++ xs.map Prod.fst ∧ (xs.map Prod.snd).Nodup ∧
      (xs.map Prod.fst).Nodup
  samples : SamplesFreed cfg.toServerConfig block t.samples
  bench : cfg.doServerSideBenchmarking → t.bench.eventLatency.size = 0
  faults : t.faults = []

/-- The sockets that are tracked are those that are open and not among the unseen. -/
theorem mem_tracked_iff (hown : Owned cfg [] [] [] xs (view w)) (hecho : Echoes cfg [] [] (view w))
    (hseen : closedUnreaped w = []) :
    fd ∈ xs.map (trackedFd w.toServer) ↔
      (∃ c, w.kernel.files fd = some (.socket c)) ∧ fd ∉ acceptedUnreaped w := by
  have hnodup := hecho.claimsNodup
  have hopen := hecho.claimsOpen fd
  rw [List.append_nil] at hnodup hopen
  have hclaims := claims_split (references (view w))
  rw [filterMap_accepted] at hclaims
  have htracked := tracked_split hown
  rw [hseen, List.append_nil] at htracked
  rw [htracked.mem_iff]
  change _ ↔ (∃ c, (view w).kernel.files fd = some (.socket c)) ∧ _
  rw [← hopen, hclaims.mem_iff, List.mem_append]
  have hdisjoint := List.disjoint_of_nodup_append (hclaims.nodup_iff.mp hnodup)
  constructor
  · intro hserving
    exact ⟨.inl hserving, hdisjoint hserving⟩
  · rintro ⟨hor, hunseen⟩
    exact hor.resolve_right hunseen

theorem tracked_nodup (hown : Owned cfg [] [] [] xs (view w)) (hecho : Echoes cfg [] [] (view w))
    (hseen : closedUnreaped w = []) : (xs.map (trackedFd w.toServer)).Nodup := by
  have hnodup := hecho.claimsNodup
  rw [List.append_nil] at hnodup
  have htracked := tracked_split hown
  rw [hseen, List.append_nil] at htracked
  have hclaims := (claims_split (references (view w))).nodup_iff.mp hnodup
  exact htracked.nodup_iff.mpr (List.nodup_append.mp hclaims).1

/-- The walk through the tracker comes to its end. -/
theorem walk_runs (hown : Owned cfg [] [] [] xs (view w)) (hecho : Echoes cfg [] [] (view w))
    (hseen : closedUnreaped w = []) :
    closeTracked xs.length w.memAllocsTracker.head (ringsFreed w) =
      .ok (⟨⟩, xs.foldl release (ringsFreed w)) := by
  have hwalkable := walkable_ringsFreed hown
  have hsame : trackedFd (ringsFreed w).toServer = trackedFd w.toServer := rfl
  have hnodup : (xs.map (trackedFd (ringsFreed w).toServer)).Nodup := by
    rw [hsame]
    exact tracked_nodup hown hecho hseen
  have hopen : ∀ fd ∈ xs.map (trackedFd (ringsFreed w).toServer),
      ((ringsFreed w).kernel.files fd).isSome := by
    intro fd hfd
    rw [hsame] at hfd
    obtain ⟨⟨c, hfile⟩, -⟩ := (mem_tracked_iff hown hecho hseen).mp hfd
    exact Option.isSome_iff_exists.mpr ⟨_, hfile⟩
  obtain ⟨w₁, hwalk⟩ := walk_of_open (w := ringsFreed w) hwalkable hnodup hopen
  rwa [← state_of_walk hwalkable hwalk]

/-- Closing the listening socket ends the process. -/
theorem doExitCleanup_run (cfg : Config) {f : File}
    (hopen : w.kernel.files cfg.listeningSocket = some f) :
    ∃ b, doExitCleanup cfg w = .ok (⟨⟩, { w with
        kernel := (w.kernel.close cfg.listeningSocket).2
        bench := b
        samples := if cfg.doServerSideBenchmarking then w.samples.release else w.samples }) ∧
      (cfg.doServerSideBenchmarking → b.eventLatency.size = 0) := by
  have hclosed : (w.kernel.close cfg.listeningSocket).1 = 0 := by
    rw [Kernel.close, hopen]
  have hrun : doExitCleanup cfg w =
      whenTrue cfg.doServerSideBenchmarking freeBench
        { w with kernel := (w.kernel.close cfg.listeningSocket).2 } := by
    rw [doExitCleanup, bind_run (closeFd_run _), hclosed]
    rfl
  by_cases hbench : cfg.doServerSideBenchmarking = true
  · refine ⟨sbFree w.bench, ?_, fun _ => rfl⟩
    rw [hrun, whenTrue_of hbench, if_pos hbench]
    rfl
  · refine ⟨w.bench, ?_, fun hon => absurd hon hbench⟩
    rw [hrun, whenTrue_of_not hbench, if_neg hbench]
    rfl

theorem closes_of_exit (hrun : doExitCleanup cfg w = .ok (⟨⟩, t)) :
    ∃ f, t.kernel.closes = w.kernel.closes ++ [(cfg.listeningSocket, f)] := by
  cases hopen : w.kernel.files cfg.listeningSocket with
  | none =>
      have hclosed : (w.kernel.close cfg.listeningSocket).1 = -1 := by
        rw [Kernel.close, hopen]
      rw [doExitCleanup, bind_run (closeFd_run _), hclosed] at hrun
      cases hrun
  | some f =>
      obtain ⟨b, hexit, -⟩ := doExitCleanup_run cfg hopen
      rw [hexit] at hrun
      cases hrun
      refine ⟨f, ?_⟩
      simp only [Kernel.close, hopen]

theorem open_of_unseen (hecho : Echoes cfg [] [] (view w)) (hmem : fd ∈ acceptedUnreaped w) :
    ∃ c, w.kernel.files fd = some (.socket c) := by
  have hopen := hecho.claimsOpen fd
  rw [List.append_nil, (claims_split (references (view w))).mem_iff, filterMap_accepted,
    List.mem_append] at hopen
  exact hopen.mp (.inr hmem)

/-- The cleanup spares the listening socket. -/
theorem listening_spared (hown : Owned cfg [] [] [] xs (view w))
    (hecho : Echoes cfg [] [] (view w)) (hlistening : Listening cfg (view w))
    (hseen : closedUnreaped w = []) :
    cfg.listeningSocket ∉ xs.map (trackedFd w.toServer) ∧
      cfg.listeningSocket ∉ acceptedUnreaped w := by
  have hls : w.kernel.files cfg.listeningSocket = some .listening := hlistening.listening
  have hsocket : ¬ ∃ c, w.kernel.files cfg.listeningSocket = some (.socket c) := by
    rintro ⟨c, hfile⟩
    rw [hls] at hfile
    cases hfile
  constructor
  · intro hmem
    exact hsocket ((mem_tracked_iff hown hecho hseen).mp hmem).1
  · intro hmem
    exact hsocket (open_of_unseen hecho hmem)

theorem files_walked (hown : Owned cfg [] [] [] xs (view w)) :
    (xs.foldl release (ringsFreed w)).kernel.files fd =
      if fd ∈ xs.map (trackedFd w.toServer) then none else w.kernel.files fd :=
  foldl_release_files (List.nodup_append.mp hown.opsNodup).2.1

/-- The ops on the stack are left. -/
theorem ops_walked (hown : Owned cfg [] [] [] xs (view w)) (p : Ptr) :
    (xs.foldl release (ringsFreed w)).ops p ≠ none ↔ p = acceptReq ∨ p = timerReq := by
  have hlive : (w.ops p).isSome ↔ _ := hown.opsLive p
  have hops : (ringsFreed w).ops = w.ops := rfl
  rw [foldl_release_ops, hops]
  by_cases hmem : p ∈ xs.map Prod.snd
  · obtain ⟨x, hx, rfl⟩ := List.mem_map.mp hmem
    rw [if_pos hmem]
    have hne := (hown.clients x hx).ne_acceptReq
    have hne' := (hown.clients x hx).ne_timerReq
    simp [hne, hne']
  · rw [if_neg hmem, ← Option.isSome_iff_ne_none, hlive]
    simp [hmem]

theorem nodes_walked (hown : Owned cfg [] [] [] xs (view w)) (n : Ptr) :
    (xs.foldl release (ringsFreed w)).nodes n = none := by
  have hlive : (w.nodes n).isSome ↔ _ := hown.nodesLive n
  have hnodes : (ringsFreed w).nodes = w.nodes := rfl
  rw [List.append_nil] at hlive
  rw [foldl_release_nodes, hnodes]
  by_cases hmem : n ∈ xs.map Prod.fst
  · exact if_pos hmem
  · rw [if_neg hmem]
    exact Option.not_isSome_iff_eq_none.mp fun hsome => hmem (hlive.mp hsome)

/-- What is open at the end. -/
theorem files_left_iff (hown : Owned cfg [] [] [] xs (view w))
    (hecho : Echoes cfg [] [] (view w)) (hlistening : Listening cfg (view w))
    (hseen : closedUnreaped w = []) (fd : Fd) :
    Function.update (xs.foldl release (ringsFreed w)).kernel.files cfg.listeningSocket none fd ≠
      none ↔ fd ∈ acceptedUnreaped w := by
  rcases eq_or_ne fd cfg.listeningSocket with rfl | hne
  · simpa using (listening_spared hown hecho hlistening hseen).2
  · rw [Function.update_of_ne hne, files_walked hown]
    by_cases htracked : fd ∈ xs.map (trackedFd w.toServer)
    · rw [if_pos htracked]
      exact iff_of_false (fun h => h rfl) ((mem_tracked_iff hown hecho hseen).mp htracked).2
    · rw [if_neg htracked]
      constructor
      · intro hopen
        by_contra hunseen
        exact htracked ((mem_tracked_iff hown hecho hseen).mpr
          ⟨hlistening.others fd hne hopen, hunseen⟩)
      · intro hmem
        obtain ⟨c, hfile⟩ := open_of_unseen hecho hmem
        rw [hfile]
        exact Option.some_ne_none _

/-- What was closed on the way. -/
theorem mem_closed_iff (hown : Owned cfg [] [] [] xs (view w))
    (hecho : Echoes cfg [] [] (view w)) (hlistening : Listening cfg (view w))
    (hseen : closedUnreaped w = []) :
    fd ∈ xs.map (trackedFd w.toServer) ∨ fd = cfg.listeningSocket ↔
      w.kernel.files fd ≠ none ∧ fd ∉ acceptedUnreaped w := by
  have hls : w.kernel.files cfg.listeningSocket = some .listening := hlistening.listening
  rw [mem_tracked_iff hown hecho hseen]
  constructor
  · rintro (⟨⟨c, hfile⟩, hunseen⟩ | rfl)
    · rw [hfile]
      exact ⟨Option.some_ne_none _, hunseen⟩
    · rw [hls]
      exact ⟨Option.some_ne_none _, (listening_spared hown hecho hlistening hseen).2⟩
  · rintro ⟨hopen, hunseen⟩
    rcases eq_or_ne fd cfg.listeningSocket with hfd | hfd
    · exact .inr hfd
    · exact .inl ⟨hlistening.others fd hfd hopen, hunseen⟩

theorem foldl_release_samples {ys : List (Ptr × Ptr)} :
    (ys.foldl release w).samples = w.samples := by
  induction ys generalizing w with
  | nil => rfl
  | cons y ys ih => exact ih

/-- The process from the moment its cleanup begins. -/
theorem leftUnseen_of_cleanup {block : Option Block} (hown : Owned cfg [] [] [] xs (view w))
    (hecho : Echoes cfg [] [] (view w)) (hlistening : Listening cfg (view w))
    (hmade : cfg.doServerSideBenchmarking → block.isSome)
    (hsamples : w.samples = madeSamples cfg.toServerConfig block)
    (hseen : closedUnreaped w = []) :
    ∃ t, (do doServiceLoopCleanup xs.length; doExitCleanup cfg) w = .ok (⟨⟩, t) ∧
      LeftUnseen cfg block w t := by
  have hnodes := hown.nodesNodup
  rw [List.append_nil] at hnodes
  have hspared := (listening_spared hown hecho hlistening hseen).1
  have hwalk := walk_runs hown hecho hseen
  obtain ⟨⟨closed, hcloses, hfst⟩, hfreedOps, hfreedNodes, hfaults⟩ :=
    closed_of_walk (walkable_ringsFreed hown) hwalk
  have hstill : (xs.foldl release (ringsFreed w)).kernel.files cfg.listeningSocket =
      some .listening := by
    rw [files_walked hown, if_neg hspared]
    exact hlistening.listening
  obtain ⟨b, hexit, hbench⟩ := doExitCleanup_run cfg
    (w := { xs.foldl release (ringsFreed w) with memAllocsTracker := {} }) hstill
  refine ⟨_, (bind_run (cleanup_run.mpr ⟨_, hwalk, rfl⟩)).trans hexit, fun fd => ?_,
    ops_walked hown, nodes_walked hown, ?_, ?_, ?_, hbench, hfaults.trans hown.clean⟩
  · simp only [close_files]
    exact files_left_iff hown hecho hlistening hseen fd
  · refine ⟨closed ++ [(cfg.listeningSocket, .listening)], ?_, ?_, fun fd => ?_⟩
    · simp only [Kernel.close, hstill]
      rw [hcloses, List.append_assoc]
      rfl
    · rw [List.map_append, hfst]
      refine (tracked_nodup hown hecho hseen).append (List.nodup_singleton _) fun fd hfd heq => ?_
      rw [List.map_singleton, List.mem_singleton] at heq
      rw [heq] at hfd
      exact hspared hfd
    · rw [List.map_append, List.mem_append, hfst, List.map_singleton, List.mem_singleton]
      exact mem_closed_iff hown hecho hlistening hseen
  · exact ⟨xs, ⟨hown.tracker.forward, fun x hx => (hown.clients x hx).node⟩, hfreedOps,
      hfreedNodes, (List.nodup_append.mp hown.opsNodup).2.1, hnodes⟩
  · exact samplesFreed_release hmade (foldl_release_samples.trans hsamples)

/-- Nothing could be closed once more. -/
theorem seen_of_leftUnseen {block : Option Block} (hown : Owned cfg [] [] [] xs (view w))
    (hecho : Echoes cfg [] [] (view w)) (hlistening : Listening cfg (view w))
    (hcleanup : doServiceLoopCleanup fuel w = .ok (⟨⟩, w'))
    (hexit : doExitCleanup cfg w' = .ok (⟨⟩, t)) (hleft : LeftUnseen cfg block w t) :
    closedUnreaped w = [] := by
  obtain ⟨w₁, hwalk, rfl⟩ := cleanup_run.mp hcleanup
  obtain ⟨⟨closed, hcloses, hfst⟩, -⟩ := closed_of_walk (walkable_ringsFreed hown) hwalk
  obtain ⟨f, hlast⟩ := closes_of_exit hexit
  obtain ⟨all, hall, hnodup, hmem⟩ := hleft.closes
  have hsplit : all = closed ++ [(cfg.listeningSocket, f)] := by
    apply (List.append_right_inj w.kernel.closes).mp
    rw [← hall, hlast, ← List.append_assoc]
    exact congrArg (· ++ [(cfg.listeningSocket, f)]) hcloses
  have hfds : all.map Prod.fst = xs.map (trackedFd w.toServer) ++ [cfg.listeningSocket] := by
    rw [hsplit, List.map_append, hfst]
    rfl
  rw [hfds] at hnodup hmem
  have htracked := tracked_split hown
  have hdisjoint := List.disjoint_of_nodup_append
    (htracked.nodup_iff.mp (List.nodup_append.mp hnodup).1)
  rw [List.eq_nil_iff_forall_not_mem]
  intro fd hfd
  have hthere := htracked.mem_iff.mpr (List.mem_append_right _ hfd)
  obtain ⟨hopen, hunseen⟩ := (hmem fd).mp (List.mem_append_left _ hthere)
  have hne : fd ≠ cfg.listeningSocket :=
    (List.nodup_append.mp hnodup).2.2 _ hthere _ (List.mem_singleton_self _)
  have hclaim := (hecho.claimsOpen fd).mpr (hlistening.others fd hne hopen)
  rw [List.append_nil, (claims_split (references (view w))).mem_iff, filterMap_accepted,
    List.mem_append] at hclaim
  exact hdisjoint (hclaim.resolve_right hunseen) hfd

/-- Whenever the signal comes, and whatever the kernel is at work on until the
ring is closed: `main` runs to its end, and leaves only the sockets open whose
accept the server has not seen, exactly if the file for the bench can be opened
and no close is left that the server has not seen. -/
theorem main_leaves_unseen_iff {s : RingSetup cfg} {useKernelPooling fileNull : Bool}
    {block : Option Block} {sched : List Tick} {n : Nat} {k : Int32}
    (hrun : mainLoop cfg block n (initialWorld cfg s useKernelPooling true sched) = .ok (k, w)) :
    ∃ tick w', (do stopBench cfg false; yield) w = .ok (tick, w') ∧
      ((∃ fuel t, main cfg block fileNull n fuel
          (initialWorld cfg s useKernelPooling true sched) = .ok (⟨⟩, t) ∧
        LeftUnseen cfg block w' t) ↔
          (cfg.doServerSideBenchmarking → fileNull = false) ∧ closedUnreaped w' = []) := by
  obtain ⟨hmade, htop⟩ := run_of_mainLoop hrun
  have hreturns : Returns (stopBench cfg false) := returns_stopBench
  obtain ⟨⟨⟩, w₁, hstop⟩ := hreturns w
  obtain ⟨tick, w', hyield⟩ := returns_yield w₁
  have hclosing : (do stopBench cfg false; yield) w = .ok (tick, w') :=
    (bind_run hstop).trans hyield
  obtain ⟨⟨-, ⟨xs, hown, hecho⟩, hfaithful, hlistening⟩, hsamples⟩ :=
    kept_until_closing htop hclosing
  have hend : ∀ fuel, (cfg.doServerSideBenchmarking → fileNull = false) →
      serviceLoopEnd cfg fileNull fuel w = doServiceLoopCleanup fuel w' := by
    intro fuel hfile
    rw [serviceLoopEnd, stopBench_of_opened hfile, bind_run hstop, bind_run hyield]
  refine ⟨tick, w', hclosing, ?_, ?_⟩
  · rintro ⟨fuel, t, hmain, hleft⟩
    obtain ⟨k', w₀, hloop, hrest⟩ := bind_eq_ok hmain
    obtain ⟨rfl, rfl⟩ := Prod.mk.inj (Except.ok.inj (hrun.symm.trans hloop))
    obtain ⟨⟨⟩, w₂, hloopEnd, hexit⟩ := bind_eq_ok hrest
    obtain ⟨⟨⟩, w₃, hstop', -⟩ := bind_eq_ok hloopEnd
    have hfile := opened_of_stopBench hstop'
    rw [hend fuel hfile] at hloopEnd
    exact ⟨hfile, seen_of_leftUnseen hown (hecho hfaithful) hlistening hloopEnd hexit hleft⟩
  · rintro ⟨hfile, hseen⟩
    obtain ⟨t, hrest, hleft⟩ :=
      leftUnseen_of_cleanup hown (hecho hfaithful) hlistening hmade hsamples hseen
    obtain ⟨⟨⟩, w₂, hclean, hexit⟩ := bind_eq_ok hrest
    have hloopEnd := (hend xs.length hfile).trans hclean
    exact ⟨xs.length, t, (bind_run hrun).trans ((bind_run hloopEnd).trans hexit), hleft⟩

theorem mainLoop_settled {s : RingSetup cfg} {useKernelPooling : Bool} {block : Option Block}
    {sched : List Tick} {n : Nat}
    (h : (mainLoop cfg block n (initialWorld cfg s useKernelPooling true sched)).isOk = true) :
    ∃ k, mainLoop cfg block n (initialWorld cfg s useKernelPooling true sched) =
      .ok (k, (Utils.settled (mainLoop cfg block n)
        (initialWorld cfg s useKernelPooling true sched) 0).2) :=
  ⟨_, run_settled h⟩

/-- The kernel accepts a client when the server no longer looks for a CQE. -/
def acceptUnseenSched : List Tick :=
  idle 15 ++ [{ acts := [.consume, .network .connect, .accept 0 5] }]

theorem main_leaves_unseen_iff_acceptUnseen :
    ∃ tick w', (do stopBench measuredConfig false; yield)
        (Utils.settled (mainLoop measuredConfig (some ⟨16, fun _ => 0⟩) 1)
          (initialWorld measuredConfig measuredSetup true true acceptUnseenSched) 0).2 =
            .ok (tick, w') ∧
      ((∃ fuel t, main measuredConfig (some ⟨16, fun _ => 0⟩) false 1 fuel
          (initialWorld measuredConfig measuredSetup true true acceptUnseenSched) =
            .ok (⟨⟩, t) ∧
        LeftUnseen measuredConfig (some ⟨16, fun _ => 0⟩) w' t) ↔
          (measuredConfig.doServerSideBenchmarking → false = false) ∧
            closedUnreaped w' = []) := by
  have hok : (mainLoop measuredConfig (some ⟨16, fun _ => 0⟩) 1
      (initialWorld measuredConfig measuredSetup true true acceptUnseenSched)).isOk = true := by
    decide +kernel
  obtain ⟨k, hrun⟩ := mainLoop_settled hok
  exact main_leaves_unseen_iff hrun

end Exit

end EchoServers.UringMain
