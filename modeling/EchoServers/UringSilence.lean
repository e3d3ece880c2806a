import EchoServers.UringSubmission

namespace EchoServers.UringSilence

open EchoServers.ServerUtils
open EchoServers.SocketKernel
open EchoServers.StateTriples
open EchoServers.UringMemory
open EchoServers.UringQueues
open EchoServers.UringServer
open EchoServers.UringSubmission
open EchoServers.Utils

/-- The exits of the server after a submission that did not succeed. -/
def submissionStops : List Stop :=
  [.exit "iou_config_and_submit(recv_req)", .exit "iou_config_and_submit(close_req)",
    .exit "iou_config_and_submit(accept_req)", .exit "iou_config_and_submit(send_req)",
    .exit "iou_config_and_submit(timer_req)"]

/-- No op is of a kind outside the enumerators. -/
def Named (ops : Ptr → Option IouOp) : Prop :=
  ∀ p o, ops p = some o → ∀ value, o.op ≠ .other value

/-- Nothing but the memory of the server differs. -/
structure SameQueues (w w' : World) : Prop where
  iou : w'.iou = w.iou
  inflight : w'.inflight = w.inflight
  enters : w'.enters = w.enters
  peak : w'.peak = w.peak

/-- A property of the rings, the requests in flight, the calls of
`io_uring_enter` and the kinds of the ops, which no step of the kernel ends. -/
structure Frame (K : World → Prop) : Prop where
  act : ∀ w a, K w → K (w.act a)
  congr : ∀ w w', K w → SameQueues w w' → (Named w.ops → Named w'.ops) → K w'

/-- The program publishes nothing, makes no call of `io_uring_enter` and does
not exit because of a submission. -/
structure Silent {α : Type} (x : Program World α) : Prop where
  keeps : ∀ K, Frame K → Triple K x fun _ => K
  stops : Stops (fun _ => True) x fun e => e ∉ submissionStops

section Rules

variable {α β : Type} {x : Program World α} {f : α → Program World β}

theorem Silent.pure (a : α) : Silent (Pure.pure a) :=
  ⟨fun _ _ => Triple.pure a fun _ h => h, Stops.of_returns (Returns.pure a)⟩

theorem Silent.bind (hx : Silent x) (hf : ∀ a, Silent (f a)) : Silent (x >>= f) := by
  refine ⟨fun K hK => (hx.keeps K hK).bind fun a => (hf a).keeps K hK, ?_⟩
  exact hx.stops.bind (fun _ _ _ _ _ => trivial) fun a => (hf a).stops

theorem Silent.get_bind {g : World → Program World β} (h : ∀ w, Silent (g w)) :
    Silent (get >>= g) := by
  constructor
  · intro K hK
    exact Triple.get_bind fun w hw => ((h w).keeps K hK).pre fun _ heq => heq ▸ hw
  · exact Stops.get_bind fun w _ => (h w).stops.pre fun _ _ => trivial

theorem Silent.modify {g : World → World} (hsame : ∀ w, SameQueues w (g w))
    (hnamed : ∀ w, Named w.ops → Named (g w).ops) : Silent (modify g) :=
  ⟨fun _ hK => Triple.modify fun w h => hK.congr w _ h (hsame w) (hnamed w),
    Stops.of_returns (Returns.modify g)⟩

theorem Silent.exitFailure {text : String} (htext : .exit text ∉ submissionStops) :
    Silent (exitFailure text : Program World α) :=
  ⟨fun _ _ => triple_exitFailure _, Stops.throw htext⟩

theorem Silent.ite {c : Prop} [Decidable c] {y : Program World α} (hx : Silent x)
    (hy : Silent y) : Silent (if c then x else y) :=
  ⟨fun K hK => Triple.ite (fun _ => hx.keeps K hK) fun _ => hy.keeps K hK,
    Stops.ite (fun _ => hx.stops) fun _ => hy.stops⟩

theorem Silent.whenTrue {c : Prop} [Decidable c] {x : Program World PUnit} (hx : Silent x) :
    Silent (whenTrue c x) :=
  Silent.ite hx (Silent.pure _)

theorem Silent.whenNonNull {π : Type} {p : Option π} {x : π → Program World PUnit}
    (hx : ∀ q, Silent (x q)) : Silent (whenNonNull p x) := by
  cases p with
  | none => exact Silent.pure _
  | some q => exact hx q

end Rules

section Primitives

theorem named_update {ops : Ptr → Option IouOp} {p : Ptr} {o : Option IouOp}
    (h : Named ops) (ho : ∀ o', o = some o' → ∀ value, o'.op ≠ .other value) :
    Named (Function.update ops p o) := by
  intro q o' hq
  rcases eq_or_ne q p with rfl | hne
  · rw [Function.update_self] at hq
    exact ho o' hq
  · rw [Function.update_of_ne hne] at hq
    exact h q o' hq

theorem silent_yield : Silent yield := by
  constructor
  · intro K hK
    exact triple_yield_of hK.act fun w sched h => hK.congr w _ h ⟨rfl, rfl, rfl, rfl⟩ fun h => h
  · exact Stops.of_returns (Returns.modifyGet _)

theorem silent_recordFault (f : Fault) : Silent (recordFault f) :=
  Silent.modify (fun _ => ⟨rfl, rfl, rfl, rfl⟩) fun _ h => h

theorem silent_readOp (p : Ptr) : Silent (readOp p) := by
  refine Silent.get_bind fun w => ?_
  cases w.ops p with
  | some o => exact Silent.pure _
  | none => exact (silent_recordFault _).bind fun _ => Silent.pure _

theorem silent_readNode (n : Ptr) : Silent (readNode n) := by
  refine Silent.get_bind fun w => ?_
  cases w.nodes n with
  | some m => exact Silent.pure _
  | none => exact (silent_recordFault _).bind fun _ => Silent.pure _

theorem silent_modifyNode (n : Ptr) (f : IouOpMemTrackerNode → IouOpMemTrackerNode) :
    Silent (modifyNode n f) := by
  refine Silent.get_bind fun w => ?_
  cases w.nodes n with
  | some m => exact Silent.modify (fun _ => ⟨rfl, rfl, rfl, rfl⟩) fun _ h => h
  | none => exact silent_recordFault _

theorem silent_deref (p : Option Ptr) : Silent (deref p) := by
  cases p with
  | some p => exact Silent.pure _
  | none => exact (silent_recordFault _).bind fun _ => Silent.pure _

theorem silent_modifyTracker (f : IouOpMemTracker → IouOpMemTracker) :
    Silent (modifyTracker f) :=
  Silent.modify (fun _ => ⟨rfl, rfl, rfl, rfl⟩) fun _ h => h

theorem silent_callocOp (cfg : Config) : Silent (callocOp cfg) := by
  refine silent_yield.bind fun t => Silent.get_bind fun w => Silent.ite (Silent.pure _) ?_
  refine Silent.bind (Silent.modify ?_ fun w h => ?_) fun _ => Silent.pure _
  · exact fun _ => ⟨rfl, rfl, rfl, rfl⟩
  · apply named_update h
    intro o ho value
    cases ho
    simp

theorem silent_callocNode : Silent callocNode := by
  refine silent_yield.bind fun t => Silent.get_bind fun w => Silent.ite (Silent.pure _) ?_
  refine Silent.bind (Silent.modify ?_ ?_) fun _ => Silent.pure _
  · exact fun _ => ⟨rfl, rfl, rfl, rfl⟩
  · exact fun _ h => h

theorem silent_freeOp (p : Ptr) : Silent (freeOp p) := by
  refine Silent.get_bind fun w => ?_
  cases w.ops p with
  | some o =>
      refine Silent.modify (fun _ => ⟨rfl, rfl, rfl, rfl⟩) fun w h => ?_
      exact named_update h fun o ho => by cases ho
  | none => exact silent_recordFault _

theorem silent_freeNode (n : Ptr) : Silent (freeNode n) := by
  refine Silent.get_bind fun w => ?_
  cases w.nodes n with
  | some m => exact Silent.modify (fun _ => ⟨rfl, rfl, rfl, rfl⟩) fun _ h => h
  | none => exact silent_recordFault _

theorem silent_memTPushBack (node : Ptr) : Silent (memTPushBack node) := by
  refine Silent.get_bind fun w => Silent.ite ?_ ?_
  · exact (silent_modifyTracker _).bind fun _ => silent_modifyNode _ _
  · refine (silent_modifyNode _ _).bind fun _ => (silent_modifyNode _ _).bind fun _ => ?_
    exact (silent_deref _).bind fun _ => (silent_modifyNode _ _).bind fun _ =>
      silent_modifyTracker _

theorem silent_memTRemoveNode (node : Ptr) : Silent (memTRemoveNode node) := by
  refine (silent_readNode _).bind fun _ =>
    (Silent.whenNonNull fun _ => silent_modifyNode _ _).bind fun _ => ?_
  refine (silent_readNode _).bind fun _ =>
    (Silent.whenNonNull fun _ => silent_modifyNode _ _).bind fun _ => ?_
  refine (silent_readNode _).bind fun _ => Silent.get_bind fun _ =>
    (Silent.whenTrue (silent_modifyTracker _)).bind fun _ => Silent.get_bind fun _ => ?_
  exact (Silent.whenTrue (silent_modifyTracker _)).bind fun _ => silent_modifyNode _ _

theorem silent_handleClosingClient (p : Ptr) : Silent (handleClosingClient p) :=
  (silent_readOp _).bind fun _ => (silent_deref _).bind fun _ =>
    (silent_memTRemoveNode _).bind fun _ => (silent_freeNode _).bind fun _ => silent_freeOp _

theorem silent_modifyBench (f : ServerBenchmark.ServerBench → ServerBenchmark.ServerBench) :
    Silent (modifyBench f) :=
  Silent.modify (fun _ => ⟨rfl, rfl, rfl, rfl⟩) fun _ h => h

theorem silent_nowMonotonic : Silent nowMonotonic :=
  silent_yield.bind fun _ => Silent.pure _

/-- A change of an op that keeps or sets its kind. -/
theorem silent_modifyOp (p : Ptr) {f : IouOp → IouOp}
    (hf : ∀ o, (∀ value, o.op ≠ .other value) → ∀ value, (f o).op ≠ .other value) :
    Silent (modifyOp p f) := by
  constructor
  · intro K hK
    refine Triple.get_bind fun w hw => ?_
    cases ho : w.ops p with
    | none =>
        refine ((silent_recordFault _).keeps K hK).pre ?_
        rintro w' rfl
        exact hw
    | some o =>
        refine Triple.modify ?_
        rintro w' rfl
        refine hK.congr w' _ hw ⟨rfl, rfl, rfl, rfl⟩ fun h => named_update h ?_
        intro o' ho'
        cases ho'
        exact hf o (h p o ho)
  · apply Stops.of_returns
    refine Returns.get_bind fun w => ?_
    cases w.ops p with
    | some o => exact Returns.modify _
    | none => exact Returns.modify _

end Primitives

end EchoServers.UringSilence
