import EchoServers.UringSilence

namespace EchoServers.UringEnter

open EchoServers.ServerUtils
open EchoServers.SocketKernel
open EchoServers.StateTriples
open EchoServers.UringMemory
open EchoServers.UringQueues
open EchoServers.UringServer
open EchoServers.UringSilence
open EchoServers.UringSubmission
open EchoServers.Utils

/-- The submission counters of a ring without a kernel thread, and the calls of
`io_uring_enter` so far. -/
structure Queued (calls : List EnterCall) (head tail : UInt32) (w : World) : Prop where
  polling : w.iou.polling = false
  head_eq : w.iou.sqRing.head = head
  tail_eq : w.iou.sqRing.tail = tail
  enters_eq : w.enters = calls

/-- The program publishes nothing and makes no call. -/
def Quiet {α : Type} (x : Program World α) : Prop :=
  ∀ calls head tail, Triple (Queued calls head tail) x fun _ => Queued calls head tail

/-- The program publishes as many SQEs as `count` says of its result. -/
def Publishes {α : Type} (x : Program World α) (count : α → UInt32) : Prop :=
  ∀ calls head tail, Triple (Queued calls head tail) x
    fun a => Queued calls head (tail + count a)

section Rules

variable {α β : Type} {x : Program World α} {f : α → Program World β} {count : β → UInt32}

theorem Quiet.pure (a : α) : Quiet (Pure.pure a) := fun _ _ _ =>
  Triple.pure a fun _ h => h

theorem Quiet.bind (hx : Quiet x) (hf : ∀ a, Quiet (f a)) : Quiet (x >>= f) :=
  fun calls head tail => (hx calls head tail).bind fun a => hf a calls head tail

theorem Quiet.get_bind {g : World → Program World β} (h : ∀ w, Quiet (g w)) :
    Quiet (get >>= g) := fun calls head tail => Triple.get_bind fun w hw =>
  (h w calls head tail).pre fun _ heq => heq ▸ hw

theorem Quiet.modify {g : World → World} (hiou : ∀ w, (g w).iou = w.iou)
    (henters : ∀ w, (g w).enters = w.enters) : Quiet (modify g) := fun _ _ _ =>
  Triple.modify fun w h => by
    obtain ⟨hpolling, hhead, htail, hcalls⟩ := h
    rw [← hiou w] at hpolling hhead htail
    exact ⟨hpolling, hhead, htail, (henters w).trans hcalls⟩

theorem Quiet.exitFailure (text : String) : Quiet (exitFailure text : Program World α) :=
  fun _ _ _ => triple_exitFailure _

theorem Quiet.ite {c : Prop} [Decidable c] {y : Program World α} (hx : Quiet x)
    (hy : Quiet y) : Quiet (if c then x else y) := fun calls head tail =>
  Triple.ite (fun _ => hx calls head tail) fun _ => hy calls head tail

theorem Quiet.whenTrue {c : Prop} [Decidable c] {x : Program World PUnit} (hx : Quiet x) :
    Quiet (whenTrue c x) :=
  Quiet.ite hx (Quiet.pure _)

/-- What a quiet program does in front does not count. -/
theorem Quiet.publishes (hx : Quiet x) (hf : ∀ a, Publishes (f a) count) :
    Publishes (x >>= f) count :=
  fun calls head tail => (hx calls head tail).bind fun a => hf a calls head tail

/-- Counts of consecutive programs add up. -/
theorem Publishes.bind {d : α → UInt32} {g : α → β → UInt32}
    (hx : Publishes x d) (hf : ∀ a, Publishes (f a) (g a))
    (hcount : ∀ a b, count b = d a + g a b) : Publishes (x >>= f) count :=
  fun calls head tail => (hx calls head tail).bind fun a =>
    (hf a calls head _).post fun b w h => by
      rwa [hcount a b, ← UInt32.add_assoc]

theorem Quiet.publishes_zero {x : Program World β} (hx : Quiet x) (hcount : ∀ b, count b = 0) :
    Publishes x count :=
  fun calls head tail => (hx calls head tail).post fun b _ h => by
    rwa [hcount b, UInt32.add_zero]

theorem Publishes.pure {b : β} (hcount : count b = 0) :
    Publishes (Pure.pure b : Program World β) count := fun _ _ _ =>
  Triple.pure b fun _ h => by rwa [hcount, UInt32.add_zero]

theorem Publishes.ite {c : Prop} [Decidable c] {x y : Program World β}
    (hx : Publishes x count) (hy : Publishes y count) :
    Publishes (if c then x else y) count := fun calls head tail =>
  Triple.ite (fun _ => hx calls head tail) fun _ => hy calls head tail

theorem Publishes.exitFailure (text : String) :
    Publishes (exitFailure text : Program World β) count :=
  fun _ _ _ => triple_exitFailure _

end Rules

section Kernel

variable {calls : List EnterCall} {head tail : UInt32} {w w' : World}

/-- Only the submission counters, the setup flags and the calls matter. -/
theorem Queued.congr (h : Queued calls head tail w)
    (hflags : w'.iou.configurationFlags = w.iou.configurationFlags)
    (hhead : w'.iou.sqRing.head = w.iou.sqRing.head)
    (htail : w'.iou.sqRing.tail = w.iou.sqRing.tail) (henters : w'.enters = w.enters) :
    Queued calls head tail w' := by
  refine ⟨?_, hhead.trans h.head_eq, htail.trans h.tail_eq, henters.trans h.enters_eq⟩
  rw [Iou.polling, hflags]
  exact h.polling

theorem queued_onRequest (h : Queued calls head tail w) {i : Nat} {kind : Opcode}
    {f : Request → World} (hf : ∀ r, Queued calls head tail (f r)) :
    Queued calls head tail (w.onRequest i kind f) := by
  unfold World.onRequest
  split
  · split
    · exact hf _
    · exact h
  · exact h

theorem queued_onCompletion (h : Queued calls head tail w) {i : Nat} {kind : Opcode}
    {f : Request → World} (hf : ∀ r, Queued calls head tail (f r)) :
    Queued calls head tail (w.onCompletion i kind f) := by
  unfold World.onCompletion
  split
  · exact queued_onRequest h hf
  · exact h

theorem queued_complete (h : Queued calls head tail w) (i : Nat) (r : Request) (res : Int) :
    Queued calls head tail (w.complete i r res) :=
  h.congr rfl rfl rfl rfl

theorem queued_writeBuf (h : Queued calls head tail w) (a : Addr) (data : List Octet) :
    Queued calls head tail (w.writeBuf a data) := by
  unfold World.writeBuf
  split
  · split <;> exact h.congr rfl rfl rfl rfl
  · exact h.congr rfl rfl rfl rfl

/-- Without a kernel thread only `io_uring_enter` consumes SQEs. -/
theorem queued_act (h : Queued calls head tail w) (a : KernelAct) :
    Queued calls head tail (w.act a) := by
  cases a with
  | network a => exact h.congr rfl rfl rfl rfl
  | consume =>
      rw [World.act, h.polling, if_neg (by simp)]
      exact h
  | needWakeup asleep => exact h.congr rfl rfl rfl rfl
  | accept i fd =>
      refine queued_onCompletion h fun r => ?_
      split
      · refine queued_complete ?_ _ _ _
        exact h.congr rfl rfl rfl rfl
      · exact h
  | deliver i size =>
      refine queued_onCompletion h fun r => ?_
      split
      · exact h
      · dsimp only
        split
        · exact h
        · refine queued_complete (queued_writeBuf ?_ _ _) _ _ _
          exact h.congr rfl rfl rfl rfl
  | eof i =>
      refine queued_onCompletion h fun r => ?_
      split
      · exact h
      · split
        · exact queued_complete h _ _ _
        · exact h
  | scribble i data => exact queued_onRequest h fun r => queued_writeBuf h _ _
  | transmit i size =>
      refine queued_onRequest h fun r => ?_
      split
      · exact h.congr rfl rfl rfl rfl
      · exact h.congr rfl rfl rfl rfl
      · exact h
  | sent i => exact queued_onCompletion h fun r => queued_complete h _ _ _
  | close i =>
      refine queued_onCompletion h fun r => queued_complete ?_ _ _ _
      exact h.congr rfl rfl rfl rfl
  | expire i => exact queued_onCompletion h fun r => queued_complete h _ _ _
  | answer i res =>
      rw [World.act]
      split
      · split
        · exact queued_complete h _ _ _
        · exact h
      · exact h

theorem quiet_yield : Quiet yield := fun _ _ _ =>
  triple_yield_of (fun _ a h => queued_act h a) fun _ _ h => h.congr rfl rfl rfl rfl

end Kernel

section Primitives

theorem frame_queued {calls : List EnterCall} {head tail : UInt32} :
    Frame (Queued calls head tail) := by
  constructor
  · exact fun _ a h => queued_act h a
  · intro w w' h hsame _
    have hiou := hsame.iou
    exact h.congr (by rw [hiou]) (by rw [hiou]) (by rw [hiou]) hsame.enters

theorem quiet_of_silent {α : Type} {x : Program World α} (hx : Silent x) : Quiet x :=
  fun _ _ _ => hx.keeps _ frame_queued

theorem quiet_recordFault (f : Fault) : Quiet (recordFault f) :=
  quiet_of_silent (silent_recordFault f)

theorem quiet_readOp (p : Ptr) : Quiet (readOp p) := quiet_of_silent (silent_readOp p)

theorem quiet_modifyOp (p : Ptr) (f : IouOp → IouOp) : Quiet (modifyOp p f) := by
  refine Quiet.get_bind fun w => ?_
  cases w.ops p with
  | some o => exact Quiet.modify (fun _ => rfl) fun _ => rfl
  | none => exact quiet_recordFault _

theorem quiet_modifyNode (n : Ptr) (f : IouOpMemTrackerNode → IouOpMemTrackerNode) :
    Quiet (modifyNode n f) :=
  quiet_of_silent (silent_modifyNode n f)

theorem quiet_callocOp (cfg : Config) : Quiet (callocOp cfg) :=
  quiet_of_silent (silent_callocOp cfg)

theorem quiet_callocNode : Quiet callocNode := quiet_of_silent silent_callocNode

theorem quiet_memTPushBack (node : Ptr) : Quiet (memTPushBack node) :=
  quiet_of_silent (silent_memTPushBack node)

theorem quiet_modifyBench (f : ServerBenchmark.ServerBench → ServerBenchmark.ServerBench) :
    Quiet (modifyBench f) :=
  quiet_of_silent (silent_modifyBench f)

theorem quiet_nowMonotonic : Quiet nowMonotonic := quiet_of_silent silent_nowMonotonic

theorem quiet_assertNnull (isNull : Bool) (text : String) :
    Quiet (assertNnull isNull text : Program World PUnit) :=
  Quiet.ite (Quiet.exitFailure _) (Quiet.pure _)

theorem quiet_ioUringAssertZero (code : Int) (text : String) :
    Quiet (ioUringAssertZero code text : Program World PUnit) :=
  Quiet.ite (Quiet.exitFailure _) (Quiet.pure _)

theorem quiet_ioUringAssertNonn (code : Int) (text : String) :
    Quiet (ioUringAssertNonn code text : Program World PUnit) :=
  Quiet.ite (Quiet.exitFailure _) (Quiet.pure _)

theorem quiet_ioUringAssert (condition : Bool) (text : String) :
    Quiet (ioUringAssert condition text : Program World PUnit) :=
  Quiet.ite (Quiet.exitFailure _) (Quiet.pure _)

theorem quiet_modifySqe (index : UInt32) (f : Sqe → Sqe) : Quiet (modifySqe index f) :=
  fun _ _ _ => Triple.modify fun _ h => h.congr rfl rfl rfl rfl

end Primitives

section Submission

variable {β : Type} {calls : List EnterCall} {head tail : UInt32}

theorem triple_iouAcquireSqe_tail : Triple (Queued calls head tail) iouAcquireSqe
    fun a w => a.tail = tail ∧ Queued calls head tail w := by
  refine Triple.get_bind fun w hw => ?_
  refine Triple.bind ((quiet_yield calls head tail).pre fun _ heq => heq ▸ hw) fun _ => ?_
  refine Triple.get_bind fun w' hw' => Triple.ite (fun _ => ?_) fun _ => ?_
  · exact Triple.pure _ fun _ heq => ⟨hw.tail_eq, heq ▸ hw'⟩
  · refine Triple.bind ((quiet_yield calls head tail).pre fun _ heq => heq ▸ hw') fun _ => ?_
    exact (quiet_modifySqe _ _ calls head tail).bind fun _ =>
      Triple.pure _ fun _ h => ⟨hw.tail_eq, h⟩

theorem triple_iouSubmitSqe_tail (a : IouAcquiredSqeData) (htail : a.tail = tail) :
    Triple (Queued calls head tail) (iouSubmitSqe a) fun _ => Queued calls head (tail + 1) := by
  refine (quiet_yield calls head tail).bind fun _ => ?_
  refine Triple.bind (Q := fun _ => Queued calls head tail) ?_ fun _ => ?_
  · exact Triple.modify fun _ h => h.congr rfl rfl rfl rfl
  refine (quiet_yield calls head tail).bind fun _ => Triple.modify fun w h => ?_
  exact ⟨h.polling, h.head_eq, by rw [htail], h.enters_eq⟩

theorem publishes_iouConfigAndSubmit (p : Ptr) :
    Publishes (iouConfigAndSubmit p) fun rc => if rc = 0 then 1 else 0 := by
  intro calls head tail
  refine triple_iouAcquireSqe_tail.bind fun a => ?_
  have hquiet : ∀ {rc : Int}, rc ≠ 0 → Triple (Queued calls head tail)
      (pure rc : Program World Int)
      fun rc => Queued calls head (tail + if rc = 0 then 1 else 0) := fun hrc =>
    Triple.pure _ fun _ h => by rwa [if_neg hrc, UInt32.add_zero]
  refine Triple.of_pre fun w hw => ?_
  obtain ⟨htail, hw⟩ := hw
  refine Triple.pre (P := Queued calls head tail) ?_ fun _ heq => heq ▸ hw
  cases a.sqe with
  | none => exact hquiet (by decide)
  | some sqe =>
      refine (quiet_yield calls head tail).bind fun _ =>
        (quiet_modifySqe _ _ calls head tail).bind fun _ =>
        (quiet_yield calls head tail).bind fun _ =>
        (quiet_readOp _ calls head tail).bind fun o => ?_
      cases iouPrepSqe p o with
      | none => exact hquiet (by decide)
      | some prep =>
          refine (quiet_modifySqe _ _ calls head tail).bind fun _ =>
            (triple_iouSubmitSqe_tail a htail).bind fun _ => Triple.pure _ fun _ h => ?_
          simpa using h

/-- A submission whose result is asserted to be 0 publishes one SQE. -/
theorem publishes_submit {rest : Program World β} {count m : β → UInt32}
    (p : Ptr) (text : String) (hrest : Publishes rest m)
    (hcount : ∀ b, count b = 1 + m b) :
    Publishes (do
      let rc ← iouConfigAndSubmit p
      ioUringAssertZero rc text
      rest) count := by
  refine Publishes.bind (publishes_iouConfigAndSubmit p) (g := fun rc b =>
    if rc = 0 then m b else count b) (fun rc => ?_) fun rc b => ?_
  · by_cases hrc : rc = 0
    · simp only [if_pos hrc]
      exact (quiet_ioUringAssertZero _ _).publishes fun _ => hrest
    · intro calls head tail
      refine triple_ioUringAssertZero.bind fun _ => Triple.of_pre fun _ h => ?_
      exact absurd h.2 hrc
  · by_cases hrc : rc = 0 <;> simp [hrc, hcount b]

theorem publishes_submit_pure {count : β → UInt32} (p : Ptr) (text : String) (b : β)
    (hcount : count b = 1) :
    Publishes (do
      let rc ← iouConfigAndSubmit p
      ioUringAssertZero rc text
      return b) count :=
  publishes_submit (m := fun b => count b - 1) p text
    (Publishes.pure (by rw [hcount]; rfl)) fun b => by
      rw [UInt32.add_comm, UInt32.sub_add_cancel]

end Submission

section Handlers

variable (cfg : Config)

theorem publishes_handleNewClient (socket : Fd) :
    Publishes (handleNewClient cfg socket) fun _ => 1 := by
  refine quiet_callocNode.publishes fun tracker =>
    (quiet_assertNnull _ _).publishes fun _ => (quiet_callocOp cfg).publishes fun op =>
    (quiet_assertNnull _ _).publishes fun _ => ?_
  refine (quiet_modifyOp _ _).publishes fun _ => (quiet_modifyOp _ _).publishes fun _ =>
    (quiet_modifyNode _ _).publishes fun _ => (quiet_memTPushBack _).publishes fun _ => ?_
  refine (quiet_modifyOp _ _).publishes fun _ => (quiet_modifyOp _ _).publishes fun _ => ?_
  exact publishes_submit (m := fun _ => 0) op _
    ((Quiet.whenTrue (quiet_modifyBench _)).publishes_zero fun _ => rfl) fun _ => rfl

theorem publishes_prepCloseClientReq (p : Ptr) :
    Publishes (prepCloseClientReq p) Int32.toUInt32 :=
  (quiet_modifyOp _ _).publishes fun _ =>
    publishes_submit_pure p _ _ rfl

theorem quiet_handleClosingClient (p : Ptr) : Quiet (handleClosingClient p) :=
  quiet_of_silent (silent_handleClosingClient p)

theorem publishes_handleCqeAccept (p : Ptr) (result : Int) :
    Publishes (handleCqeAccept cfg p result) Int32.toUInt32 := by
  refine (quiet_ioUringAssertNonn _ _).publishes fun _ => ?_
  refine (publishes_handleNewClient cfg result).bind
    (g := fun _ b => b.toUInt32 - 1) (fun _ => ?_) fun _ b => ?_
  · exact publishes_submit_pure p _ _ rfl
  · rw [UInt32.add_comm, UInt32.sub_add_cancel]

theorem publishes_handleCqeClose (p : Ptr) (result : Int) :
    Publishes (handleCqeClose p result) Int32.toUInt32 :=
  (quiet_ioUringAssertZero _ _).publishes fun _ => (quiet_modifyOp _ _).publishes fun _ =>
    (quiet_handleClosingClient _).publishes fun _ => Publishes.pure rfl

theorem publishes_handleCqeRecv (p : Ptr) (result : Int) :
    Publishes (handleCqeRecv cfg p result) Int32.toUInt32 := by
  refine (quiet_modifyOp _ _).publishes fun _ =>
    (quiet_ioUringAssertNonn _ _).publishes fun _ => ?_
  refine Publishes.ite (publishes_prepCloseClientReq p) ?_
  refine Publishes.ite (Publishes.exitFailure _) (Publishes.ite (Publishes.exitFailure _) ?_)
  refine (Quiet.whenTrue (quiet_nowMonotonic.bind fun _ => quiet_modifyOp _ _)).publishes
    fun _ => (quiet_modifyOp _ _).publishes fun _ => (quiet_modifyOp _ _).publishes fun _ =>
    (quiet_modifyOp _ _).publishes fun _ => ?_
  exact publishes_submit_pure p _ _ rfl

theorem publishes_handleCqeSend (p : Ptr) (result : Int) :
    Publishes (handleCqeSend cfg p result) Int32.toUInt32 := by
  refine (quiet_modifyOp _ _).publishes fun _ =>
    (quiet_ioUringAssertNonn _ _).publishes fun _ =>
    Publishes.ite (Publishes.exitFailure _) ?_
  refine (Quiet.whenTrue ?_).publishes fun _ => (quiet_modifyOp _ _).publishes fun _ =>
    (quiet_modifyOp _ _).publishes fun _ => ?_
  · exact quiet_nowMonotonic.bind fun _ => (quiet_readOp _).bind fun _ =>
      quiet_nowMonotonic.bind fun _ => quiet_modifyBench _
  exact publishes_submit_pure p _ _ rfl

theorem publishes_handleCqeTimer (p : Ptr) (result : Int) :
    Publishes (handleCqeTimer cfg p result) Int32.toUInt32 :=
  (quiet_ioUringAssert _ _).publishes fun _ =>
    (Quiet.whenTrue (quiet_nowMonotonic.bind fun _ => quiet_modifyBench _)).publishes
      fun _ => Publishes.pure rfl

/-- What each handler returns is the number of SQEs it has published. -/
theorem publishes_dispatchCqe (cqe : Cqe) :
    Publishes (dispatchCqe cfg cqe) Int32.toUInt32 := by
  refine (quiet_readOp _).publishes fun o => ?_
  cases o.op with
  | acceptedConnection => exact publishes_handleCqeAccept cfg _ _
  | closeConnection => exact publishes_handleCqeClose _ _
  | recvFromClient => exact publishes_handleCqeRecv cfg _ _
  | sendToClient => exact publishes_handleCqeSend cfg _ _
  | timerExpired => exact publishes_handleCqeTimer cfg _ _
  | other value => exact Publishes.pure rfl

theorem publishes_serviceCqeEvents (cqe : Cqe) :
    Publishes (serviceCqeEvents cfg cqe) Int32.toUInt32 := by
  refine (Quiet.whenTrue (quiet_modifyBench _)).publishes fun _ => ?_
  intro calls head tail
  refine (publishes_dispatchCqe cfg cqe calls head tail).bind fun submitted => ?_
  refine Triple.bind (Q := fun _ => Queued calls head (tail + submitted.toUInt32)) ?_
    fun _ => Triple.pure _ fun _ h => h
  exact Triple.modify fun _ h => h.congr rfl rfl rfl rfl

theorem publishes_createAcceptSqe (p : Ptr) :
    Publishes (createAcceptSqe cfg p) Int32.toUInt32 :=
  (quiet_modifyOp _ _).publishes fun _ => (quiet_modifyOp _ _).publishes fun _ =>
    publishes_submit_pure p _ _ rfl

theorem publishes_createTimerSqe (p : Ptr) :
    Publishes (createTimerSqe p) Int32.toUInt32 :=
  (quiet_modifyOp _ _).publishes fun _ => (quiet_modifyOp _ _).publishes fun _ =>
    publishes_submit_pure p _ _ rfl

end Handlers

section Log

/-- What the last call left in the ring. -/
def leftover (calls : List EnterCall) : UInt32 :=
  match calls.getLast? with
  | some e => e.published - UInt32.ofNat e.consumed
  | none => 0

/-- Between two calls the ring gains exactly what the second one offers. -/
inductive Accounted : List EnterCall → Prop where
  | nil : Accounted []
  | snoc {calls : List EnterCall} {e : EnterCall} (h : Accounted calls)
      (hpublished : e.published = leftover calls + e.toSubmit)
      (hconsumed : e.consumed ≤ e.published.toNat) : Accounted (calls ++ [e])

theorem leftover_append (calls : List EnterCall) (e : EnterCall) :
    leftover (calls ++ [e]) = e.published - UInt32.ofNat e.consumed := by
  simp [leftover]

theorem leftover_eq_zero_iff {calls : List EnterCall} {e : EnterCall}
    (hconsumed : e.consumed ≤ e.published.toNat) :
    leftover (calls ++ [e]) = 0 ↔ e.consumed = e.published.toNat := by
  have hlt := UInt32.toNat_lt e.published
  have hofNat : (UInt32.ofNat e.consumed).toNat = e.consumed := by
    simp only [UInt32.toNat_ofNat']
    exact Nat.mod_eq_of_lt (by omega)
  rw [leftover_append, ← UInt32.toNat_inj, UInt32.toNat_sub, hofNat, UInt32.toNat_zero]
  omega

/-- Every call offers all that is published exactly if every call before the
last one consumes all that it offers. -/
theorem offers_all_iff {calls : List EnterCall} (h : Accounted calls) :
    (∀ e ∈ calls, e.toSubmit = e.published) ↔
      ∀ e ∈ calls.dropLast, e.consumed = e.toSubmit.toNat := by
  induction h with
  | nil => simp
  | @snoc calls e h hpublished hconsumed ih =>
      have hlast : e.toSubmit = e.published ↔ leftover calls = 0 := by
        have hlt := UInt32.toNat_lt (leftover calls)
        have hlt' := UInt32.toNat_lt e.toSubmit
        rw [hpublished, ← UInt32.toNat_inj, ← UInt32.toNat_inj, UInt32.toNat_add,
          UInt32.toNat_zero]
        omega
      rw [List.dropLast_concat, List.forall_mem_append, List.forall_mem_singleton, hlast]
      -- the last call but one decides how the last one fares
      cases h with
      | nil => simp [leftover]
      | @snoc calls d h hpublished' hconsumed' =>
          rw [List.dropLast_concat] at ih
          rw [leftover_eq_zero_iff hconsumed', ih, List.forall_mem_append,
            List.forall_mem_singleton]
          refine and_congr_right fun hall => ?_
          rw [ih.mpr hall d (by simp)]

end Log

section Loop

variable {cfg : Config} {calls : List EnterCall} {head tail : UInt32} {w : World}

/-- The counter of the loop accounts for what was published since the last
call of `io_uring_enter`. -/
def Counted (ioEventsToSubmit : Int32) (w : World) : Prop :=
  ∃ calls head tail, Queued calls head tail w ∧ Accounted calls ∧
    tail - head = leftover calls + ioEventsToSubmit.toUInt32

theorem Publishes.counted {x : Program World Int32} (hx : Publishes x Int32.toUInt32)
    (n : Int32) : Triple (Counted n) x fun submitted => Counted (n + submitted) := by
  refine Triple.of_pre fun w hw => ?_
  obtain ⟨calls, head, tail, hw, hcalls, hcount⟩ := hw
  refine (hx calls head tail).conseq (fun _ heq => heq ▸ hw) fun submitted w' h => ?_
  refine ⟨calls, head, _, h, hcalls, ?_⟩
  rw [Int32.toUInt32_add, ← UInt32.add_assoc, ← hcount]
  simp only [UInt32.sub_eq_add_neg]
  rw [UInt32.add_assoc, UInt32.add_comm submitted.toUInt32, ← UInt32.add_assoc]

theorem queued_consume (h : Queued calls head tail w) (hne : head ≠ tail) :
    Queued calls (head + 1) tail w.consume := by
  obtain ⟨hpolling, rfl, rfl, hcalls⟩ := h
  unfold World.consume
  rw [if_neg hne]
  exact ⟨hpolling, rfl, rfl, hcalls⟩

theorem queued_consumeMany (h : Queued calls head tail w) {k : Nat}
    (hk : k ≤ (tail - head).toNat) :
    Queued calls (head + UInt32.ofNat k) tail (consumeMany w k) := by
  induction k with
  | zero => simpa [consumeMany] using h
  | succ k ih =>
      have hlt := UInt32.toNat_lt (tail - head)
      have hne : head + UInt32.ofNat k ≠ tail := by
        intro heq
        have hofNat : (UInt32.ofNat k).toNat = k := by
          simp only [UInt32.toNat_ofNat']
          exact Nat.mod_eq_of_lt (by omega)
        have hhead := UInt32.toNat_lt head
        have htail := UInt32.toNat_lt tail
        rw [← heq, UInt32.toNat_sub, UInt32.toNat_add, hofNat] at hk
        omega
      have hstep := queued_consume (ih (by omega)) hne
      rwa [UInt32.add_assoc, show UInt32.ofNat k + 1 = UInt32.ofNat (k + 1) from
        (UInt32.ofNat_add k 1).symm] at hstep

theorem queued_acts (h : Queued calls head tail w) (acts : List KernelAct) :
    Queued calls head tail (acts.foldl World.act w) :=
  foldl_act (P := Queued calls head tail) (fun _ a h => queued_act h a) acts h

theorem quiet_iouGetCqe : Quiet iouGetCqe := by
  refine Quiet.get_bind fun _ => quiet_yield.bind fun _ => Quiet.get_bind fun _ =>
    Quiet.ite (Quiet.pure _) ?_
  refine quiet_yield.bind fun _ => Quiet.get_bind fun _ => Quiet.bind (fun calls head tail => ?_)
    fun _ => quiet_yield.bind fun _ => Quiet.bind (fun calls head tail => ?_) fun _ => Quiet.pure _
  · exact Triple.modify fun _ h => h.congr rfl rfl rfl rfl
  · exact Triple.modify fun _ h => h.congr rfl rfl rfl rfl

/-- A call of `io_uring_enter` goes on record, and the counter starts anew. -/
theorem counted_enter {n : Int32} (hw : Queued calls head tail w) (hcalls : Accounted calls)
    (hcount : tail - head = leftover calls + n.toUInt32) {k : Nat}
    (hle : k ≤ (tail - head).toNat) (acts : List KernelAct) :
    Counted 0 (acts.foldl World.act (consumeMany { w with
      enters := w.enters ++ [⟨n.toUInt32, w.iou.sqRing.tail - w.iou.sqRing.head, k⟩] } k)) := by
  obtain ⟨hpolling, rfl, rfl, rfl⟩ := hw
  refine ⟨_, _, _, queued_acts (queued_consumeMany ?_ hle) _,
    Accounted.snoc (e := ⟨n.toUInt32, _, k⟩) hcalls hcount hle, ?_⟩
  · exact ⟨hpolling, rfl, rfl, rfl⟩
  · rw [leftover_append]
    simp only [UInt32.sub_eq_add_neg, UInt32.neg_add]
    rw [← UInt32.add_assoc]
    exact (UInt32.add_zero _).symm

theorem triple_ioUringEnter_counted (n : Int32) :
    Triple (Counted n) (ioUringEnter n.toUInt32) fun _ => Counted 0 := by
  refine Triple.of_pre fun w₀ hw => ?_
  obtain ⟨calls, head, tail, hw₀, hcalls, hcount⟩ := hw
  refine Triple.bind ((quiet_yield calls head tail).pre fun _ heq => heq ▸ hw₀) fun t => ?_
  refine Triple.get_bind fun w hw => ?_
  refine Triple.bind (Q := fun _ => Counted 0) ?_ fun _ => ?_
  · refine Triple.modify ?_
    rintro w' rfl
    have hpublished : w'.iou.sqRing.tail - w'.iou.sqRing.head = tail - head := by
      rw [hw.tail_eq, hw.head_eq]
    cases t.enter with
    | consumed k =>
        have hle : min k (min n.toUInt32.toNat
            (w'.iou.sqRing.tail - w'.iou.sqRing.head).toNat) ≤ (tail - head).toNat := by
          rw [hpublished]
          omega
        exact counted_enter hw hcalls hcount hle _
    | eintr => exact counted_enter hw hcalls hcount (Nat.zero_le _) _
    | error errno => exact counted_enter hw hcalls hcount (Nat.zero_le _) _
  · cases t.enter <;> exact Triple.pure _ fun _ h => h

theorem triple_iouEnterOrWake_counted (n : Int32) :
    Triple (Counted n) (iouEnterOrWake n.toUInt32) fun _ => Counted 0 := by
  refine Triple.get_bind fun w h => Triple.ite (fun _ => ?_) fun hpolling => ?_
  · refine Triple.bind ((triple_ioUringEnter_counted n).pre fun _ heq => heq ▸ h) fun _ => ?_
    exact triple_ioUringAssert.post fun _ _ h => h.1
  · obtain ⟨calls, head, tail, hw, -⟩ := h
    exact absurd hw.polling hpolling

theorem triple_serviceLoopTurn_counted (n : Int32) :
    Triple (Counted n) (serviceLoopTurn cfg n) Counted := by
  refine Triple.bind (Q := fun _ => Counted n) ?_ fun cqe => ?_
  · refine Triple.of_pre fun w hw => ?_
    obtain ⟨calls, head, tail, hw, hrest⟩ := hw
    exact (quiet_iouGetCqe calls head tail).conseq (fun _ heq => heq ▸ hw)
      fun _ _ h => ⟨calls, head, tail, h, hrest⟩
  · cases cqe with
    | none => exact (triple_iouEnterOrWake_counted n).bind fun _ => Triple.pure _ fun _ h => h
    | some cqe =>
        exact ((publishes_serviceCqeEvents cfg cqe).counted n).bind fun _ =>
          Triple.pure _ fun _ h => h

theorem triple_serviceLoopStart_counted :
    Triple (Counted 0) (serviceLoopStart cfg) Counted := by
  refine Triple.bind ((publishes_createAcceptSqe cfg acceptReq).counted 0) fun accepts => ?_
  rw [Int32.zero_add]
  refine Triple.ite (fun _ => ?_) fun _ => Triple.pure _ fun _ h => h
  exact ((publishes_createTimerSqe timerReq).counted accepts).bind fun timers =>
    Triple.pure _ fun _ h => h

theorem counted_initialWorld (s : RingSetup cfg) (faithful : Bool) (sched : List Tick) :
    Counted 0 (initialWorld cfg s false faithful sched) := by
  have hpolling : decide (iouConfigParams false &&& ioringSetupSqpoll ≠ 0) = false := by
    decide
  refine ⟨[], s.sqStart, s.sqStart, ⟨hpolling, rfl, rfl, rfl⟩, Accounted.nil, ?_⟩
  rw [UInt32.sub_self]
  rfl

/-- In every run the counter of the loop accounts for the published SQEs. -/
theorem counted_of_run {s : RingSetup cfg} {faithful : Bool} {sched : List Tick} {n : Nat}
    {k : Int32} (h : serviceLoop cfg n (initialWorld cfg s false faithful sched) = .ok (k, w)) :
    Counted k w :=
  (triple_serviceLoopStart_counted.bind fun k =>
    Triple.turns triple_serviceLoopTurn_counted n k) _ (counted_initialWorld s faithful sched)
    k w h

theorem accounted_of_run {s : RingSetup cfg} {faithful : Bool} {sched : List Tick} {n : Nat}
    {k : Int32} (h : serviceLoop cfg n (initialWorld cfg s false faithful sched) = .ok (k, w)) :
    Accounted w.enters := by
  obtain ⟨calls, head, tail, hw, hcalls, -⟩ := counted_of_run h
  rw [hw.enters_eq]
  exact hcalls

/-- The calls of `io_uring_enter` that a run has made offer all that is
published exactly if the kernel has always consumed all that it was offered. -/
theorem offered_iff_consumed {s : RingSetup cfg} {faithful : Bool} {sched : List Tick}
    {n : Nat} {k : Int32}
    (h : serviceLoop cfg n (initialWorld cfg s false faithful sched) = .ok (k, w)) :
    (∀ e ∈ w.enters, e.toSubmit = e.published) ↔
      ∀ e ∈ w.enters.dropLast, e.consumed = e.toSubmit.toNat :=
  offers_all_iff (accounted_of_run h)

/-- The first call of `io_uring_enter` is interrupted; the second one no longer
offers the accept request. -/
def interrupted : World :=
  worldAfter smallConfig 2 (initialWorld smallConfig smallSetup false true [])

theorem run_interrupted : ∃ k, serviceLoop smallConfig 2
    (initialWorld smallConfig smallSetup false true []) = .ok (k, interrupted) :=
  run_worldAfter (by decide +kernel)

theorem enters_interrupted : interrupted.enters = [⟨1, 1, 0⟩, ⟨0, 1, 0⟩] := by
  decide +kernel

theorem offered_iff_consumed_interrupted :
    (∀ e ∈ interrupted.enters, e.toSubmit = e.published) ↔
      ∀ e ∈ interrupted.enters.dropLast, e.consumed = e.toSubmit.toNat := by
  obtain ⟨k, hrun⟩ := run_interrupted
  exact offered_iff_consumed hrun

theorem not_offered : ¬ ∀ (cfg : Config) (s : RingSetup cfg) (faithful : Bool)
    (sched : List Tick) (n : Nat) (k : Int32) (w : World),
    serviceLoop cfg n (initialWorld cfg s false faithful sched) = .ok (k, w) →
      ∀ e ∈ w.enters, e.toSubmit = e.published := by
  intro h
  obtain ⟨k, hrun⟩ := run_interrupted
  have hoffered := h _ _ _ _ _ _ _ hrun
  rw [enters_interrupted] at hoffered
  exact absurd hoffered (by decide)

end Loop

end EchoServers.UringEnter
