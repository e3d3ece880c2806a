import EchoServers.BenchJournal
import EchoServers.UringGuarantees

/-!
What the io_uring server tells its bench of the CQEs that it handles.
-/

namespace EchoServers.UringBench

open EchoServers.BenchJournal
open EchoServers.MeasContainer
open EchoServers.ServerBenchmark
open EchoServers.ServerUtils
open EchoServers.SocketKernel
open EchoServers.StateTriples
open EchoServers.TimeUtils
open EchoServers.UringClients
open EchoServers.UringGuarantees
open EchoServers.UringHandlers
open EchoServers.UringInvariant
open EchoServers.UringKernelSteps
open EchoServers.UringMemory
open EchoServers.UringOwnership
open EchoServers.UringQueues
open EchoServers.UringReferences
open EchoServers.UringServer
open EchoServers.UringSubmission
open EchoServers.Utils

/-- `K` is true of the CQEs handled, the bench and its samples. -/
def Booked (K : List Cqe → ServerBench → Samples → Prop) (w : World) : Prop :=
  K w.handled w.bench w.samples

/-- The program has nothing to do with the bench, nor with the record of the CQEs
handled. -/
def Quiet {α : Type} (x : Program World α) : Prop :=
  ∀ K, Triple (Booked K) x fun _ => Booked K

section Rules

variable {α β : Type} {x y : Program World α}

theorem Quiet.pure (a : α) : Quiet (Pure.pure a) :=
  fun _ => Triple.pure a fun _ h => h

theorem Quiet.bind {f : α → Program World β} (hx : Quiet x) (hf : ∀ a, Quiet (f a)) :
    Quiet (x >>= f) :=
  fun K => (hx K).bind fun a => hf a K

theorem Quiet.get_bind {g : World → Program World β} (h : ∀ w, Quiet (g w)) :
    Quiet (get >>= g) := by
  intro K
  exact Triple.get_bind fun w hw => ((h w) K).pre fun _ heq => heq ▸ hw

theorem Quiet.modify {g : World → World}
    (h : ∀ w, (g w).handled = w.handled ∧ (g w).bench = w.bench ∧ (g w).samples = w.samples) :
    Quiet (modify g) := by
  intro K
  refine Triple.modify fun w hw => ?_
  obtain ⟨hhandled, hbench, hsamples⟩ := h w
  rw [Booked, hhandled, hbench, hsamples]
  exact hw

theorem Quiet.ite {c : Prop} [Decidable c] (hx : Quiet x) (hy : Quiet y) :
    Quiet (if c then x else y) :=
  fun K => Triple.ite (fun _ => hx K) fun _ => hy K

theorem Quiet.exitFailure (text : String) : Quiet (exitFailure text : Program World α) :=
  fun _ => triple_exitFailure text

theorem Quiet.whenTrue {c : Prop} [Decidable c] {x : Program World PUnit} (hx : Quiet x) :
    Quiet (whenTrue c x) :=
  Quiet.ite hx (Quiet.pure _)

theorem Quiet.whenNonNull {π : Type} {p : Option π} {x : π → Program World PUnit}
    (hx : ∀ q, Quiet (x q)) : Quiet (whenNonNull p x) := by
  cases p with
  | none => exact Quiet.pure _
  | some q => exact hx q

theorem quiet_ioUringAssertZero (code : Int) (text : String) :
    Quiet (ioUringAssertZero code text) :=
  Quiet.whenTrue (Quiet.exitFailure text)

theorem quiet_ioUringAssertNonn (code : Int) (text : String) :
    Quiet (ioUringAssertNonn code text) :=
  Quiet.whenTrue (Quiet.exitFailure text)

theorem quiet_ioUringAssert (condition : Bool) (text : String) :
    Quiet (ioUringAssert condition text) :=
  Quiet.whenTrue (Quiet.exitFailure text)

theorem quiet_assertNnull (isNull : Bool) (text : String) : Quiet (assertNnull isNull text) :=
  Quiet.whenTrue (Quiet.exitFailure text)

end Rules

section Primitives

/-- The books of the server are the same. -/
def SameBooks (w w' : World) : Prop :=
  w'.handled = w.handled ∧ w'.bench = w.bench ∧ w'.samples = w.samples

theorem SameBooks.booked {K : List Cqe → ServerBench → Samples → Prop} {w w' : World}
    (hsame : SameBooks w w') (h : Booked K w) : Booked K w' := by
  rw [Booked, hsame.1, hsame.2.1, hsame.2.2]
  exact h

theorem sameBooks_onRequest {w : World} (i : Nat) (kind : Opcode) {f : Request → World}
    (hf : ∀ r, SameBooks w (f r)) : SameBooks w (w.onRequest i kind f) := by
  unfold World.onRequest
  cases w.inflight[i]? with
  | none => exact ⟨rfl, rfl, rfl⟩
  | some r =>
      dsimp only
      split_ifs
      · exact hf r
      · exact ⟨rfl, rfl, rfl⟩

theorem sameBooks_onCompletion {w : World} (i : Nat) (kind : Opcode) {f : Request → World}
    (hf : ∀ r, SameBooks w (f r)) : SameBooks w (w.onCompletion i kind f) := by
  unfold World.onCompletion
  split_ifs
  · exact sameBooks_onRequest i kind hf
  · exact ⟨rfl, rfl, rfl⟩

theorem sameBooks_writeBuf (w : World) (a : Addr) (data : List Octet) :
    SameBooks w (w.writeBuf a data) := by
  unfold World.writeBuf
  split
  · split
    · exact ⟨rfl, rfl, rfl⟩
    · exact ⟨rfl, rfl, rfl⟩
  · exact ⟨rfl, rfl, rfl⟩

theorem sameBooks_consume (w : World) : SameBooks w w.consume := by
  unfold World.consume
  dsimp only
  split_ifs
  · exact ⟨rfl, rfl, rfl⟩
  · exact ⟨rfl, rfl, rfl⟩

/-- The kernel does not touch the books. -/
theorem sameBooks_act (w : World) (a : KernelAct) : SameBooks w (w.act a) := by
  cases a with
  | network a | needWakeup asleep => exact ⟨rfl, rfl, rfl⟩
  | consume =>
      rw [World.act]
      split_ifs
      · exact sameBooks_consume w
      · exact ⟨rfl, rfl, rfl⟩
  | accept i fd =>
      refine sameBooks_onCompletion i _ fun r => ?_
      cases w.kernel.accept4 fd with
      | mk answer k =>
          cases answer with
          | ok client => exact ⟨rfl, rfl, rfl⟩
          | error e => exact ⟨rfl, rfl, rfl⟩
  | deliver i size =>
      refine sameBooks_onCompletion i _ fun r => ?_
      cases r.conn with
      | none => exact ⟨rfl, rfl, rfl⟩
      | some c =>
          dsimp only
          split_ifs
          · exact ⟨rfl, rfl, rfl⟩
          · exact sameBooks_writeBuf _ _ _
  | eof i =>
      refine sameBooks_onCompletion i _ fun r => ?_
      cases r.conn with
      | none => exact ⟨rfl, rfl, rfl⟩
      | some c =>
          dsimp only
          split_ifs
          · exact ⟨rfl, rfl, rfl⟩
          · exact ⟨rfl, rfl, rfl⟩
  | scribble i data => exact sameBooks_onRequest i _ fun r => sameBooks_writeBuf _ _ _
  | transmit i size =>
      refine sameBooks_onRequest i _ fun r => ?_
      cases r.conn with
      | none => exact ⟨rfl, rfl, rfl⟩
      | some c =>
          cases w.readBuf r.sqe.addr with
          | none => exact ⟨rfl, rfl, rfl⟩
          | some buf => exact ⟨rfl, rfl, rfl⟩
  | sent i => exact sameBooks_onCompletion i _ fun r => ⟨rfl, rfl, rfl⟩
  | close i => exact sameBooks_onCompletion i _ fun r => ⟨rfl, rfl, rfl⟩
  | expire i => exact sameBooks_onCompletion i _ fun r => ⟨rfl, rfl, rfl⟩
  | answer i res =>
      rw [World.act]
      split_ifs
      · cases w.inflight[i]? with
        | none => exact ⟨rfl, rfl, rfl⟩
        | some r => exact ⟨rfl, rfl, rfl⟩
      · exact ⟨rfl, rfl, rfl⟩

theorem booked_consumeMany {K : List Cqe → ServerBench → Samples → Prop} {w : World}
    (h : Booked K w)
    (k : Nat) : Booked K (consumeMany w k) := by
  induction k with
  | zero => exact h
  | succ k ih => exact (sameBooks_consume _).booked ih

theorem quiet_yield : Quiet yield :=
  fun _ => triple_yield_of (fun w a h => (sameBooks_act w a).booked h) fun _ _ h => h

theorem quiet_recordFault (f : Fault) : Quiet (recordFault f) :=
  Quiet.modify fun _ => ⟨rfl, rfl, rfl⟩

theorem quiet_readOp (p : Ptr) : Quiet (readOp p) := by
  refine Quiet.get_bind fun w => ?_
  cases w.ops p with
  | some o => exact Quiet.pure o
  | none => exact (quiet_recordFault _).bind fun _ => Quiet.pure _

theorem quiet_modifyOp (p : Ptr) (f : IouOp → IouOp) : Quiet (modifyOp p f) := by
  refine Quiet.get_bind fun w => ?_
  cases w.ops p with
  | some o => exact Quiet.modify fun _ => ⟨rfl, rfl, rfl⟩
  | none => exact quiet_recordFault _

theorem quiet_readNode (n : Ptr) : Quiet (readNode n) := by
  refine Quiet.get_bind fun w => ?_
  cases w.nodes n with
  | some m => exact Quiet.pure m
  | none => exact (quiet_recordFault _).bind fun _ => Quiet.pure _

theorem quiet_modifyNode (n : Ptr) (f : IouOpMemTrackerNode → IouOpMemTrackerNode) :
    Quiet (modifyNode n f) := by
  refine Quiet.get_bind fun w => ?_
  cases w.nodes n with
  | some m => exact Quiet.modify fun _ => ⟨rfl, rfl, rfl⟩
  | none => exact quiet_recordFault _

theorem quiet_deref (p : Option Ptr) : Quiet (deref p) := by
  cases p with
  | some p => exact Quiet.pure p
  | none => exact (quiet_recordFault _).bind fun _ => Quiet.pure _

theorem quiet_modifyTracker (f : IouOpMemTracker → IouOpMemTracker) :
    Quiet (modifyTracker f) :=
  Quiet.modify fun _ => ⟨rfl, rfl, rfl⟩

theorem quiet_callocOp (cfg : Config) : Quiet (callocOp cfg) := by
  refine quiet_yield.bind fun t => Quiet.get_bind fun w => Quiet.ite (Quiet.pure _) ?_
  refine Quiet.bind (Quiet.modify ?_) fun _ => Quiet.pure _
  exact fun _ => ⟨rfl, rfl, rfl⟩

theorem quiet_callocNode : Quiet callocNode := by
  refine quiet_yield.bind fun t => Quiet.get_bind fun w => Quiet.ite (Quiet.pure _) ?_
  refine Quiet.bind (Quiet.modify ?_) fun _ => Quiet.pure _
  exact fun _ => ⟨rfl, rfl, rfl⟩

theorem quiet_freeOp (p : Ptr) : Quiet (freeOp p) := by
  refine Quiet.get_bind fun w => ?_
  cases w.ops p with
  | some o => exact Quiet.modify fun _ => ⟨rfl, rfl, rfl⟩
  | none => exact quiet_recordFault _

theorem quiet_freeNode (n : Ptr) : Quiet (freeNode n) := by
  refine Quiet.get_bind fun w => ?_
  cases w.nodes n with
  | some m => exact Quiet.modify fun _ => ⟨rfl, rfl, rfl⟩
  | none => exact quiet_recordFault _

theorem quiet_memTPushBack (node : Ptr) : Quiet (memTPushBack node) := by
  refine Quiet.get_bind fun w => Quiet.ite ?_ ?_
  · exact (quiet_modifyTracker _).bind fun _ => quiet_modifyNode _ _
  · refine (quiet_modifyNode _ _).bind fun _ => (quiet_modifyNode _ _).bind fun _ => ?_
    exact (quiet_deref _).bind fun _ => (quiet_modifyNode _ _).bind fun _ =>
      quiet_modifyTracker _

theorem quiet_memTRemoveNode (node : Ptr) : Quiet (memTRemoveNode node) := by
  refine (quiet_readNode _).bind fun _ =>
    (Quiet.whenNonNull fun _ => quiet_modifyNode _ _).bind fun _ => ?_
  refine (quiet_readNode _).bind fun _ =>
    (Quiet.whenNonNull fun _ => quiet_modifyNode _ _).bind fun _ => ?_
  refine (quiet_readNode _).bind fun _ => Quiet.get_bind fun _ =>
    (Quiet.whenTrue (quiet_modifyTracker _)).bind fun _ => Quiet.get_bind fun _ => ?_
  exact (Quiet.whenTrue (quiet_modifyTracker _)).bind fun _ => quiet_modifyNode _ _

theorem quiet_modifySqRing (f : IouSqRing → IouSqRing) : Quiet (modifySqRing f) :=
  Quiet.modify fun _ => ⟨rfl, rfl, rfl⟩

theorem quiet_modifySqe (index : UInt32) (f : Sqe → Sqe) : Quiet (modifySqe index f) :=
  Quiet.modify fun _ => ⟨rfl, rfl, rfl⟩

theorem quiet_iouAcquireSqe : Quiet iouAcquireSqe := by
  refine Quiet.get_bind fun _ => quiet_yield.bind fun _ => Quiet.get_bind fun _ =>
    Quiet.ite (Quiet.pure _) ?_
  exact quiet_yield.bind fun _ => (quiet_modifySqe _ _).bind fun _ => Quiet.pure _

theorem quiet_iouConfigAndSubmit (p : Ptr) : Quiet (iouConfigAndSubmit p) := by
  refine quiet_iouAcquireSqe.bind fun a => ?_
  obtain ⟨sqe, tail, index⟩ := a
  cases sqe with
  | none => exact Quiet.pure _
  | some sqe =>
      refine quiet_yield.bind fun _ => (quiet_modifySqe _ _).bind fun _ =>
        quiet_yield.bind fun _ => (quiet_readOp p).bind fun o => ?_
      cases iouPrepSqe p o with
      | none => exact Quiet.pure _
      | some prep =>
          refine (quiet_modifySqe _ _).bind fun _ => Quiet.bind ?_ fun _ => Quiet.pure _
          exact quiet_yield.bind fun _ => (quiet_modifySqRing _).bind fun _ =>
            quiet_yield.bind fun _ => quiet_modifySqRing _

theorem quiet_iouGetCqe : Quiet iouGetCqe := by
  refine Quiet.get_bind fun _ => quiet_yield.bind fun _ => Quiet.get_bind fun _ =>
    Quiet.ite (Quiet.pure _) ?_
  refine quiet_yield.bind fun _ => Quiet.get_bind fun _ =>
    Quiet.bind (Quiet.modify fun _ => ⟨rfl, rfl, rfl⟩) fun _ => quiet_yield.bind fun _ => ?_
  refine Quiet.bind (Quiet.modify ?_) fun _ => Quiet.pure _
  exact fun _ => ⟨rfl, rfl, rfl⟩

theorem quiet_ioUringEnter (toSubmit : UInt32) : Quiet (ioUringEnter toSubmit) := by
  refine quiet_yield.bind fun t => Quiet.get_bind fun w => Quiet.bind (fun K => ?_) fun _ => ?_
  · refine Triple.modify fun w' h => ?_
    refine foldl_act (P := Booked K) (fun w'' a h => (sameBooks_act w'' a).booked h) _ ?_
    apply booked_consumeMany
    exact h
  · cases t.enter with
    | consumed k => exact Quiet.pure _
    | eintr => exact Quiet.pure _
    | error errno => exact Quiet.pure _

theorem quiet_ioUringWakeup : Quiet ioUringWakeup := by
  refine quiet_yield.bind fun t => ?_
  cases t.enter with
  | consumed k => exact Quiet.pure _
  | eintr => exact Quiet.pure _
  | error errno => exact Quiet.pure _

theorem quiet_iouEnterOrWake (toSubmit : UInt32) : Quiet (iouEnterOrWake toSubmit) := by
  refine Quiet.get_bind fun w => Quiet.ite ?_ ?_
  · exact (quiet_ioUringEnter _).bind fun _ => quiet_ioUringAssert _ _
  · refine quiet_yield.bind fun _ => Quiet.get_bind fun _ => Quiet.ite ?_ (Quiet.pure _)
    exact quiet_ioUringWakeup.bind fun _ => quiet_ioUringAssert _ _

theorem quiet_nowMonotonic : Quiet nowMonotonic :=
  quiet_yield.bind fun _ => Quiet.pure _

end Primitives

section Handlers

variable {cfg : Config} {K : List Cqe → ServerBench → Samples → Prop} {p : Ptr} {res : Int}

theorem booked_modifyBench (f : ServerBench → ServerBench) :
    Triple (Booked K) (modifyBench f) fun _ =>
      Booked fun log b s => ∃ b₁, K log b₁ s ∧ b = f b₁ :=
  Triple.modify fun w h => ⟨w.bench, h, rfl⟩

/-- The bench is told of something, if there is one. -/
theorem booked_whenBench (c : Bool) (f : ServerBench → ServerBench) :
    Triple (Booked K) (whenTrue c (modifyBench f)) fun _ =>
      Booked fun log b s => ∃ b₁, K log b₁ s ∧ b = if c then f b₁ else b₁ := by
  apply triple_whenTrue
  · intro hc
    refine (booked_modifyBench f).post ?_
    rintro _ w ⟨b₁, hb₁, hb⟩
    exact ⟨b₁, hb₁, hb.trans (if_pos hc).symm⟩
  · intro w h hc
    exact ⟨w.bench, h, (if_neg hc).symm⟩

theorem booked_handleNewClient (socket : Fd) :
    Triple (Booked K) (handleNewClient cfg socket) fun _ =>
      Booked fun log b s => ∃ b₁, K log b₁ s ∧
        b = if cfg.doServerSideBenchmarking then sbClientConnected b₁ else b₁ := by
  refine (quiet_callocNode K).bind fun n => ?_
  refine (quiet_assertNnull _ _ K).bind fun _ => ?_
  refine (quiet_callocOp cfg K).bind fun q => ?_
  refine (quiet_assertNnull _ _ K).bind fun _ => ?_
  refine (quiet_modifyOp q _ K).bind fun _ => ?_
  refine (quiet_modifyOp q _ K).bind fun _ => ?_
  refine (quiet_modifyNode n _ K).bind fun _ => ?_
  refine (quiet_memTPushBack n K).bind fun _ => ?_
  refine (quiet_modifyOp q _ K).bind fun _ => ?_
  refine (quiet_modifyOp q _ K).bind fun _ => ?_
  refine (quiet_iouConfigAndSubmit q K).bind fun rc => ?_
  exact (quiet_ioUringAssertZero rc _ K).bind fun _ => booked_whenBench _ _

theorem booked_handleCqeAccept :
    Triple (Booked K) (handleCqeAccept cfg p res) fun _ =>
      Booked fun log b s => ∃ b₁, K log b₁ s ∧
        b = if cfg.doServerSideBenchmarking then sbClientConnected b₁ else b₁ := by
  refine (quiet_ioUringAssertNonn res _ K).bind fun _ => ?_
  refine (booked_handleNewClient res).bind fun _ => ?_
  refine (quiet_iouConfigAndSubmit p _).bind fun rc => ?_
  exact (quiet_ioUringAssertZero rc _ _).bind fun _ => Triple.pure _ fun _ h => h

theorem booked_handleCqeTimer :
    Triple (Booked K) (handleCqeTimer cfg p res) fun _ =>
      Booked fun log b s => ∃ b₁, K log b₁ s ∧ ∃ now,
        b = if cfg.doServerSideBenchmarking then sbStart b₁ now else b₁ := by
  refine (quiet_ioUringAssert _ _ K).bind fun _ => ?_
  refine Triple.bind (Q := fun _ => Booked fun log b s => ∃ b₁, K log b₁ s ∧ ∃ now,
    b = if cfg.doServerSideBenchmarking then sbStart b₁ now else b₁) ?_
    fun _ => Triple.pure _ fun _ h => h
  apply triple_whenTrue
  · intro hbench
    refine (quiet_nowMonotonic K).bind fun now => (booked_modifyBench _).post ?_
    rintro _ w ⟨b₁, hb₁, hb⟩
    exact ⟨b₁, hb₁, now, hb.trans (if_pos hbench).symm⟩
  · intro w h hnot
    exact ⟨w.bench, h, {}, (if_neg hnot).symm⟩

theorem booked_handleCqeSend :
    Triple (Booked K) (handleCqeSend cfg p res) fun _ =>
      Booked fun log b s => ∃ b₁, K log b₁ s ∧ ∃ start finish now,
        b = if cfg.measuresLatency then sbRecordEvent b₁ start finish now else b₁ := by
  refine (quiet_modifyOp p _ K).bind fun _ => ?_
  refine (quiet_ioUringAssertNonn res _ K).bind fun _ => ?_
  refine Triple.ite (fun _ => triple_exitFailure _) fun _ => ?_
  refine Triple.bind (Q := fun _ => Booked fun log b s => ∃ b₁, K log b₁ s ∧ ∃ start finish now,
    b = if cfg.measuresLatency then sbRecordEvent b₁ start finish now else b₁) ?_ fun _ => ?_
  · apply triple_whenTrue
    · intro hmeasures
      refine (quiet_nowMonotonic K).bind fun finish => (quiet_readOp p K).bind fun o =>
        (quiet_nowMonotonic K).bind fun now => (booked_modifyBench _).post ?_
      rintro _ w ⟨b₁, hb₁, hb⟩
      refine ⟨b₁, hb₁, o.infoCon.benchStartSend, finish, now, ?_⟩
      rw [show cfg.measuresLatency = true from hmeasures, if_pos rfl]
      exact hb
    · intro w h hnot
      refine ⟨w.bench, h, {}, {}, {}, ?_⟩
      exact (if_neg hnot).symm
  · refine (quiet_modifyOp p _ _).bind fun _ => (quiet_modifyOp p _ _).bind fun _ => ?_
    refine (quiet_iouConfigAndSubmit p _).bind fun rc => ?_
    exact (quiet_ioUringAssertZero rc _ _).bind fun _ => Triple.pure _ fun _ h => h

theorem quiet_prepCloseClientReq (p : Ptr) : Quiet (prepCloseClientReq p) := by
  refine (quiet_modifyOp p _).bind fun _ => (quiet_iouConfigAndSubmit p).bind fun rc => ?_
  exact (quiet_ioUringAssertZero rc _).bind fun _ => Quiet.pure _

theorem quiet_handleCqeRecv : Quiet (handleCqeRecv cfg p res) := by
  refine (quiet_modifyOp p _).bind fun _ => (quiet_ioUringAssertNonn res _).bind fun _ => ?_
  refine Quiet.ite (quiet_prepCloseClientReq p) (Quiet.ite (Quiet.exitFailure _)
    (Quiet.ite (Quiet.exitFailure _) (Quiet.bind (Quiet.whenTrue ?_) fun _ => ?_)))
  · exact quiet_nowMonotonic.bind fun now => quiet_modifyOp p _
  · refine (quiet_modifyOp p _).bind fun _ => (quiet_modifyOp p _).bind fun _ =>
      (quiet_modifyOp p _).bind fun _ => (quiet_iouConfigAndSubmit p).bind fun rc => ?_
    exact (quiet_ioUringAssertZero rc _).bind fun _ => Quiet.pure _

theorem quiet_handleCqeClose : Quiet (handleCqeClose p res) := by
  refine (quiet_ioUringAssertZero res _).bind fun _ => (quiet_modifyOp p _).bind fun _ => ?_
  refine Quiet.bind ?_ fun _ => Quiet.pure _
  refine (quiet_readOp p).bind fun o => (quiet_deref _).bind fun n => ?_
  exact (quiet_memTRemoveNode n).bind fun _ => (quiet_freeNode n).bind fun _ => quiet_freeOp p

end Handlers

section Journals

variable {cfg : Config} {b₀ b : ServerBench} {s₀ s : Samples} {log : List Cqe} {q : Cqe}

def manner (cfg : Config) : Manner where
  cfg := cfg.toServerConfig
  counts _ := true
  bound := 2

/-- What a CQE brought that was handled. -/
def served (q : Cqe) : Served :=
  match q.request.sqe.opcode with
  | .accept => .newClient
  | .timeout => .timer
  | .send => .message q.request.sqe.fd
  | .recv | .close | .nop => .other

/-- The journal of a run in which the CQEs in `log` were handled: each of them is a
batch of its own. -/
structure Journaled (cfg : Config) (b₀ : ServerBench) (s₀ : Samples) (log : List Cqe)
    (b : ServerBench) (s : Samples) : Prop where
  timer : ∀ q ∈ log, served q = .timer → q.userData = timerReq
  journal : ∃ t, Journal (manner cfg) (.start b₀ s₀) (log.map served) 0 t ∧ t.bench = b ∧
    t.samples = s ∧ t.batches = List.replicate log.length 1 ∧
      t.accepts.length = log.countP fun q => q.request.sqe.opcode = .accept

/-- A CQE was counted, and is not handled yet. -/
def Noting (cfg : Config) (b₀ : ServerBench) (s₀ : Samples) (log : List Cqe) (b : ServerBench)
    (s : Samples) : Prop :=
  ∃ b₁, Journaled cfg b₀ s₀ log b₁ s ∧
    b = if cfg.doServerSideBenchmarking then sbRequestsPerformed b₁ 1 else b₁

/-- The CQE has been handled in a step that the journal knows. -/
theorem Noting.serviced (h : Noting cfg b₀ s₀ log b s)
    (htimer : served q = .timer → q.userData = timerReq) {b' : ServerBench}
    (hstep : ∀ t, Journal (manner cfg) (.start b₀ s₀) (log.map served) 1 t → t.bench = b →
      ∃ t', Journal (manner cfg) (.start b₀ s₀) (log.map served ++ [served q]) 0 t' ∧
        t'.bench = b' ∧ (t'.samples = t.samples ∧ t'.batches = t.batches) ∧
          t'.accepts.length = t.accepts.length +
            if q.request.sqe.opcode = .accept then 1 else 0) :
    Journaled cfg b₀ s₀ (log ++ [q]) b' s := by
  obtain ⟨b₁, ⟨hlog, t, hjournal, rfl, hsamples, hbatches, haccepts⟩, hb⟩ := h
  have hbatch := hjournal.batch 1 (show 1 < 2 by decide)
  obtain ⟨t', hjournal', hb', ⟨hsamples', hbatches'⟩, haccepts'⟩ := hstep _ hbatch hb.symm
  constructor
  · intro q' hq'
    rw [List.mem_append, List.mem_singleton] at hq'
    rcases hq' with hq' | rfl
    · exact hlog q' hq'
    · exact htimer
  · refine ⟨t', ?_, hb', hsamples'.trans hsamples, ?_, ?_⟩
    · rw [List.map_append, List.map_singleton]
      exact hjournal'
    · rw [List.length_append, List.length_singleton, List.replicate_succ', hbatches', ← hbatches]
      rfl
    · rw [List.countP_append, List.countP_singleton, ← haccepts]
      simp only [decide_eq_true_eq]
      exact haccepts'

theorem Noting.accept (h : Noting cfg b₀ s₀ log b s) (hkind : q.request.sqe.opcode = .accept) :
    Journaled cfg b₀ s₀ (log ++ [q])
      (if cfg.doServerSideBenchmarking then sbClientConnected b else b) s := by
  have hserved : served q = .newClient := by rw [served, hkind]
  apply h.serviced
  · rw [hserved]
    intro hne
    cases hne
  · rintro t hjournal rfl
    rw [hserved]
    refine ⟨_, hjournal.newClient.accept q.res, ?_, ⟨rfl, rfl⟩, ?_⟩
    · change (if cfg.doServerSideBenchmarking && true then _ else _) = _
      rw [Bool.and_true]
    · rw [if_pos hkind]
      exact List.length_append

theorem Noting.timer (h : Noting cfg b₀ s₀ log b s) (hkind : q.request.sqe.opcode = .timeout)
    (huser : q.userData = timerReq) (hfirst : ∀ q ∈ log, q.userData ≠ timerReq) (now : Timespec) :
    Journaled cfg b₀ s₀ (log ++ [q])
      (if cfg.doServerSideBenchmarking then sbStart b now else b) s := by
  have hserved : served q = .timer := by rw [served, hkind]
  have hnone : .timer ∉ log.map served := by
    intro hmem
    obtain ⟨q', hq', heq⟩ := List.mem_map.mp hmem
    obtain ⟨b₁, hjournaled, -⟩ := h
    exact hfirst q' hq' (hjournaled.timer q' hq' heq)
  apply h.serviced
  · intro _
    exact huser
  · rintro t hjournal rfl
    rw [hserved]
    refine ⟨_, hjournal.timer hnone now, rfl, ⟨rfl, rfl⟩, ?_⟩
    rw [if_neg (by simp [hkind])]
    rfl

theorem Noting.send (h : Noting cfg b₀ s₀ log b s) (hkind : q.request.sqe.opcode = .send)
    (start finish now : Timespec) :
    Journaled cfg b₀ s₀ (log ++ [q])
      (if cfg.measuresLatency then sbRecordEvent b start finish now else b) s := by
  have hserved : served q = .message q.request.sqe.fd := by rw [served, hkind]
  apply h.serviced
  · rw [hserved]
    intro hne
    cases hne
  · rintro t hjournal rfl
    rw [hserved]
    refine ⟨_, hjournal.message q.request.sqe.fd q.request.moved start finish now, rfl,
      ⟨rfl, rfl⟩, ?_⟩
    rw [if_neg (by simp [hkind])]
    rfl

theorem Noting.other (h : Noting cfg b₀ s₀ log b s)
    (hkind : q.request.sqe.opcode = .recv ∨ q.request.sqe.opcode = .close) :
    Journaled cfg b₀ s₀ (log ++ [q]) b s := by
  have hserved : served q = .other := by
    rcases hkind with hkind | hkind
    all_goals rw [served, hkind]
  apply h.serviced
  · rw [hserved]
    intro hne
    cases hne
  · rintro t hjournal rfl
    rw [hserved]
    refine ⟨t, hjournal.other, rfl, ⟨rfl, rfl⟩, ?_⟩
    rw [if_neg (by rcases hkind with hkind | hkind <;> simp [hkind])]
    rfl

end Journals

section Turns

variable {cfg : Config} {b₀ : ServerBench} {s₀ : Samples}

/-- The CQE of the timer is the only one of its kind. -/
theorem timer_of_taken {c : Cqe} {v : View} (h : Taken cfg c v) (hc : c.userData = timerReq) :
    ∀ q ∈ v.handled, q.userData ≠ timerReq := by
  obtain ⟨huser, -, o, ⟨⟨xs, hown, -⟩, -⟩, -⟩ := h
  intro q hq heq
  have hmem : timerReq ∈ roots cfg (v.handled ++ []) ++ xs.map Prod.snd := by
    refine hown.balance.subset ?_
    rw [List.map_append, List.mem_append, List.map_singleton, List.mem_singleton]
    exact .inr (huser.symm.trans hc).symm
  rw [List.append_nil, roots, if_neg, List.mem_append] at hmem
  · rcases hmem with hmem | hmem
    · rw [List.mem_singleton] at hmem
      exact absurd hmem (by decide)
    · obtain ⟨x, hx, hxq⟩ := List.mem_map.mp hmem
      exact (hown.clients x hx).ne_timerReq hxq
  · rintro ⟨-, hnot⟩
    exact hnot (List.mem_map.mpr ⟨q, hq, heq⟩)

theorem booked_dispatchCqe (c : Cqe) :
    Triple (fun w => On (Taken cfg c) w ∧ Booked (Noting cfg b₀ s₀) w) (dispatchCqe cfg c)
      fun _ => Booked fun log b s => Journaled cfg b₀ s₀ (log ++ [c]) b s := by
  refine Triple.of_pre fun w hw => ?_
  obtain ⟨⟨hwf, htaken⟩, hnoting⟩ := hw
  obtain ⟨huser, hfits, o, hreaped⟩ := id htaken
  have ho : (view w).ops c.userData = some o := by
    rw [huser]
    exact hreaped.1.2
  rw [ho] at hfits
  have hfirst := timer_of_taken htaken
  have hread : Triple (fun w' => w' = w) (readOp c.userData) fun a w' =>
      a = o ∧ Booked (fun log b s => log = w.handled ∧ Noting cfg b₀ s₀ log b s) w' :=
    triple_readOp fun w' hw' => by
      subst hw'
      exact ⟨o, ho, rfl, rfl, hnoting⟩
  refine hread.bind fun a => Triple.and_pre fun ha => ?_
  subst ha
  have hopcode := hfits.opcode
  have hok := hfits.opOk
  rw [← huser] at hok
  rcases hok with ⟨-, hop⟩ | ⟨hp, hop⟩ | ⟨-, -, hclient⟩
  · rw [hop] at hopcode ⊢
    refine booked_handleCqeAccept.post ?_
    rintro _ w' ⟨b, ⟨-, hb⟩, heq⟩
    rw [Booked, heq]
    exact hb.accept hopcode
  · rw [hop] at hopcode ⊢
    refine booked_handleCqeTimer.post ?_
    rintro _ w' ⟨b, ⟨hlog, hb⟩, now, heq⟩
    rw [Booked, heq]
    exact hb.timer hopcode hp (hlog ▸ hfirst hp) now
  · rcases hclient with ⟨hop, -⟩ | ⟨hop, -⟩ | ⟨hop, -⟩
    · rw [hop] at hopcode ⊢
      refine (quiet_handleCqeRecv _).post ?_
      rintro _ w' ⟨-, hb⟩
      exact hb.other (.inl hopcode)
    · rw [hop] at hopcode ⊢
      refine booked_handleCqeSend.post ?_
      rintro _ w' ⟨b, ⟨-, hb⟩, start, finish, now, heq⟩
      rw [Booked, heq]
      exact hb.send hopcode start finish now
    · rw [hop] at hopcode ⊢
      refine (quiet_handleCqeClose _).post ?_
      rintro _ w' ⟨-, hb⟩
      exact hb.other (.inr hopcode)

theorem booked_serviceCqeEvents (c : Cqe) :
    Triple (fun w => On (Taken cfg c) w ∧ Booked (Journaled cfg b₀ s₀) w) (serviceCqeEvents cfg c)
      fun _ => Booked (Journaled cfg b₀ s₀) := by
  have hcount : Triple (fun w => On (Taken cfg c) w ∧ Booked (Journaled cfg b₀ s₀) w)
      (whenTrue cfg.doServerSideBenchmarking (modifyBench fun b => sbRequestsPerformed b 1))
      fun _ w => On (Taken cfg c) w ∧ Booked (Noting cfg b₀ s₀) w :=
    (triple_whenTrue (fun _ => triple_modifyBench _) fun _ h _ => h).and (booked_whenBench _ _)
  refine hcount.bind fun _ => (booked_dispatchCqe c).bind fun submitted => ?_
  refine Triple.bind (Q := fun _ => Booked (Journaled cfg b₀ s₀)) (Triple.modify ?_)
    fun _ => Triple.pure _ fun _ h => h
  exact fun w h => h

/-- One turn of the loop keeps the books. -/
theorem booked_serviceLoopTurn (n : Int32) :
    Triple (fun w => On (Inv cfg [] [] []) w ∧ Booked (Journaled cfg b₀ s₀) w)
      (serviceLoopTurn cfg n) fun _ => Booked (Journaled cfg b₀ s₀) := by
  refine (triple_iouGetCqe_taken.and (quiet_iouGetCqe _)).bind fun r => ?_
  cases r with
  | none =>
      refine Triple.bind ((quiet_iouEnterOrWake _ (Journaled cfg b₀ s₀)).pre fun w h => h.2)
        fun _ => Triple.pure _ fun _ h => h
  | some c => exact (booked_serviceCqeEvents c).bind fun _ => Triple.pure _ fun _ h => h

end Turns

section Runs

variable {cfg : Config} {w : World}

/-- The state in which `service_loop` starts when `sb_create` has made the bench `b₀`
and its samples `s₀`. -/
def benchWorld (cfg : Config) (s : RingSetup cfg) (useKernelPooling faithful : Bool)
    (b₀ : ServerBench) (s₀ : Samples) (sched : List Tick) : World :=
  { initialWorld cfg s useKernelPooling faithful sched with bench := b₀, samples := s₀ }

/-- `w` is a state of the server with that bench at the top of its loop, in some
run, after any further steps of the kernel. -/
def BenchReachable (cfg : Config) (b₀ : ServerBench) (s₀ : Samples) (w : World) : Prop :=
  ∃ (s : RingSetup cfg) (useKernelPooling faithful : Bool) (sched : List Tick) (n : Nat)
    (ioEventsToSubmit : Int32) (w₀ : World) (acts : List KernelAct),
    serviceLoop cfg n (benchWorld cfg s useKernelPooling faithful b₀ s₀ sched) =
      .ok (ioEventsToSubmit, w₀) ∧ w = acts.foldl World.act w₀

theorem benchReachable_worldAfter {s : RingSetup cfg} {useKernelPooling faithful : Bool}
    {b₀ : ServerBench} {s₀ : Samples} {sched : List Tick} {n : Nat}
    (h : (serviceLoop cfg n
      (benchWorld cfg s useKernelPooling faithful b₀ s₀ sched)).isOk = true) :
    BenchReachable cfg b₀ s₀
      (worldAfter cfg n (benchWorld cfg s useKernelPooling faithful b₀ s₀ sched)) := by
  obtain ⟨ioEventsToSubmit, hrun⟩ := run_worldAfter h
  exact ⟨s, useKernelPooling, faithful, sched, n, ioEventsToSubmit, _, [], hrun, rfl⟩

theorem quiet_createTimerSqe (p : Ptr) : Quiet (createTimerSqe p) := by
  refine (quiet_modifyOp p _).bind fun _ => (quiet_modifyOp p _).bind fun _ =>
    (quiet_iouConfigAndSubmit p).bind fun rc => ?_
  exact (quiet_ioUringAssertZero rc _).bind fun _ => Quiet.pure _

theorem quiet_createAcceptSqe (p : Ptr) : Quiet (createAcceptSqe cfg p) := by
  refine (quiet_modifyOp p _).bind fun _ => (quiet_modifyOp p _).bind fun _ =>
    (quiet_iouConfigAndSubmit p).bind fun rc => ?_
  exact (quiet_ioUringAssertZero rc _).bind fun _ => Quiet.pure _

theorem quiet_serviceLoopStart : Quiet (serviceLoopStart cfg) := by
  refine (quiet_createAcceptSqe _).bind fun _ => Quiet.ite ?_ (Quiet.pure _)
  exact (quiet_createTimerSqe _).bind fun _ => Quiet.pure _

theorem journaled_of_reachable {b₀ : ServerBench} {s₀ : Samples}
    (h : BenchReachable cfg b₀ s₀ w) : Booked (Journaled cfg b₀ s₀) w := by
  obtain ⟨s, useKernelPooling, faithful, sched, n, k, w₀, acts, hrun, rfl⟩ := h
  have hstart : Triple (fun w => On (Inv cfg (initiallyHeld cfg) [] []) w ∧
      Booked (Journaled cfg b₀ s₀) w) (serviceLoopStart cfg)
        fun _ w => On (Inv cfg [] [] []) w ∧ Booked (Journaled cfg b₀ s₀) w := by
    refine (((triple_serviceLoopStart rides_trivial).and
      (quiet_serviceLoopStart (Journaled cfg b₀ s₀))).pre ?_).post ?_
    · exact fun w h => ⟨⟨h.1.1, h.1.2, trivial⟩, h.2⟩
    · exact fun _ w h => ⟨⟨h.1.1, h.1.2.1⟩, h.2⟩
  have hturn : ∀ n, Triple (fun w => On (Inv cfg [] [] []) w ∧ Booked (Journaled cfg b₀ s₀) w)
      (serviceLoopTurn cfg n)
        fun _ w => On (Inv cfg [] [] []) w ∧ Booked (Journaled cfg b₀ s₀) w := by
    intro n
    have hbooks : Triple _ (serviceLoopTurn cfg n) fun _ => Booked (Journaled cfg b₀ s₀) :=
      booked_serviceLoopTurn n
    refine (((triple_serviceLoopTurn rides_trivial n).and hbooks).pre ?_).post ?_
    · exact fun w h => ⟨⟨h.1.1, h.1.2, trivial⟩, h⟩
    · exact fun _ w h => ⟨⟨h.1.1, h.1.2.1⟩, h.2⟩
  have hloop : Triple (fun w => On (Inv cfg (initiallyHeld cfg) [] []) w ∧
      Booked (Journaled cfg b₀ s₀) w) (serviceLoop cfg n)
        fun _ w => On (Inv cfg [] [] []) w ∧ Booked (Journaled cfg b₀ s₀) w :=
    hstart.bind fun k => Triple.turns (I := fun _ w => On (Inv cfg [] [] []) w ∧
      Booked (Journaled cfg b₀ s₀) w) hturn n k
  have hinitial : Booked (Journaled cfg b₀ s₀)
      (benchWorld cfg s useKernelPooling faithful b₀ s₀ sched) := by
    constructor
    · intro q hq
      cases hq
    · exact ⟨_, .start, rfl, rfl, rfl, rfl⟩
  refine foldl_act (P := Booked (Journaled cfg b₀ s₀)) (fun w a h => (sameBooks_act w a).booked h)
    acts ?_
  exact (hloop (benchWorld cfg s useKernelPooling faithful b₀ s₀ sched)
    ⟨⟨wellFormed_iouCreate s useKernelPooling,
    inv_initialWorld s useKernelPooling faithful sched⟩, hinitial⟩ k w₀ hrun).2

def measuredConfig : Config :=
  { smallServerConfig with ioUringRingSize := 4 }

def measuredSetup : RingSetup measuredConfig where
  sqBits := 2
  cqBits := 3
  sqStart := 0xffffffff
  cqStart := 7
  sqFlags := 0
  array := fun _ => 0
  sqes := fun _ => {}
  cqes := fun _ => {}
  sqBits_le := smallSetup.sqBits_le
  cqBits_le := smallSetup.cqBits_le
  ringSize_pos := smallSetup.ringSize_pos
  ringSize_le := smallSetup.ringSize_le

/-- A client connected, the warm-up ended, and its message was sent back. -/
def measuredWorld : World :=
  worldAfter measuredConfig 7 (benchWorld measuredConfig measuredSetup false true
    (sbCreate 4 fun _ => 0) {} (idle 13 ++
      { enter := .consumed 2
        afterEnter := [.network .connect, .accept 0 5, .expire 0, .network (.bytes 0 [1, 2])] } ::
      (idle 3 ++ { ptr := 10 } :: { ptr := 11 } :: (idle 17 ++
        { enter := .consumed 2, afterEnter := [.deliver 0 2] } :: (idle 11 ++
        { enter := .consumed 1, afterEnter := [.transmit 1 2, .sent 1] } :: idle 11)))))

theorem reachable_measuredWorld :
    BenchReachable measuredConfig (sbCreate 4 fun _ => 0) {} measuredWorld :=
  benchReachable_worldAfter (by decide +kernel)

/-- The bench of a run counts every accept that was handled; it counts the CQEs
handled while it measures, which it does from the CQE of the timer on until there
is no room for a latency, and it stores a latency for each message whose send was
handled, as long as there is room. -/
theorem uring_bench_accounts {c : Int32} {junk : Nat → UInt8} {s₀ : Samples} (hc : 0 ≤ c)
    (hbench : cfg.doServerSideBenchmarking = true)
    (h : BenchReachable cfg (sbCreate c junk) s₀ w) :
    w.bench.clientNo = Int32.ofNat (w.handled.countP fun q => q.request.sqe.opcode = .accept) ∧
      CountsRequests (manner cfg) c.toInt.toNat (List.replicate w.handled.length 1)
          (w.handled.map served) w.bench ∧
        (cfg.measuresLatency = true → (values w.bench.eventLatency).length =
          min c.toInt.toNat ((warmedUp (w.handled.map served)).countP Served.timed)) := by
  obtain ⟨-, t, hjournal, hb, -, hbatches, haccepts⟩ := journaled_of_reachable h
  have haccounted := hjournal.accounted hc hbench
  have hint : ∀ b ∈ t.batches, b < 2 ^ 31 := fun b hb =>
    Nat.lt_of_lt_of_le (hjournal.batch_lt rfl b hb) (show 2 ≤ 2 ^ 31 by decide)
  have hrequests := hjournal.countsRequests hc hbench hint
  rw [hb, hbatches] at hrequests
  refine ⟨?_, hrequests, ?_⟩
  · have hclients := haccounted.clients
    have hall : t.accepts.countP (manner cfg).counts = t.accepts.length :=
      List.countP_eq_length.mpr fun _ _ => rfl
    rw [hb, hall, haccepts] at hclients
    exact hclients
  · have hstored := haccounted.stored
    rw [hb] at hstored
    exact hstored

theorem uring_bench_accounts_measured :
    measuredWorld.bench.clientNo =
        Int32.ofNat (measuredWorld.handled.countP fun q => q.request.sqe.opcode = .accept) ∧
      CountsRequests (manner measuredConfig) (4 : Int32).toInt.toNat
          (List.replicate measuredWorld.handled.length 1) (measuredWorld.handled.map served)
          measuredWorld.bench ∧
        (measuredConfig.measuresLatency = true →
          (values measuredWorld.bench.eventLatency).length =
            min (4 : Int32).toInt.toNat
              ((warmedUp (measuredWorld.handled.map served)).countP Served.timed)) :=
  uring_bench_accounts (by decide) rfl reachable_measuredWorld

end Runs

end EchoServers.UringBench
