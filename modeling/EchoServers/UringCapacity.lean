import EchoServers.UringCompletions
import EchoServers.UringHandlers
import EchoServers.UringSilence

namespace EchoServers.UringCapacity

open EchoServers.RingCounters
open EchoServers.SocketKernel
open EchoServers.StateTriples
open EchoServers.UringFifo
open EchoServers.UringHandlers
open EchoServers.UringInvariant
open EchoServers.UringKernelSteps
open EchoServers.UringMemory
open EchoServers.UringOwnership
open EchoServers.UringQueues
open EchoServers.UringReferences
open EchoServers.UringServer
open EchoServers.UringSilence
open EchoServers.UringSubmission
open EchoServers.UringTracker
open EchoServers.Utils

/-- `n` ops are with the kernel: their SQE is published, their request is in
flight, or their CQE is unreaped.  The ring has a slot for each of them. -/
structure Load (size : UInt32) (n : Nat) (w : World) : Prop where
  wellFormed : WellFormed w.iou
  size_eq : w.iou.ringSize = size
  load : w.iou.pending.length + w.inflight.length + w.iou.unreaped.length = n
  named : Named w.ops
  fits : n ≤ size.toNat
  peak_le : w.peak ≤ size.toNat

section Kernel

variable {size : UInt32} {n : Nat} {w w' : World}

theorem Load.congr (h : Load size n w) (hiou : w'.iou = w.iou)
    (hinflight : w'.inflight.length = w.inflight.length) (hpeak : w'.peak = w.peak)
    (hnamed : Named w.ops → Named w'.ops) : Load size n w' := by
  refine ⟨?_, ?_, ?_, hnamed h.named, h.fits, ?_⟩
  · rw [hiou]
    exact h.wellFormed
  · rw [hiou]
    exact h.size_eq
  · rw [hiou, hinflight]
    exact h.load
  · rw [hpeak]
    exact h.peak_le

theorem load_onRequest (h : Load size n w) {i : Nat} {kind : Opcode} {f : Request → World}
    (hf : ∀ r, w.inflight[i]? = some r → Load size n (f r)) :
    Load size n (w.onRequest i kind f) := by
  unfold World.onRequest
  split
  · rename_i r hr
    split
    · exact hf r hr
    · exact h
  · exact h

theorem load_onCompletion (h : Load size n w) {i : Nat} {kind : Opcode} {f : Request → World}
    (hf : ∀ r, w.iou.cqRing.hasRoom = true → w.inflight[i]? = some r → Load size n (f r)) :
    Load size n (w.onCompletion i kind f) := by
  unfold World.onCompletion
  split
  · rename_i hroom
    exact load_onRequest h fun r => hf r hroom
  · exact h

/-- Completing a request makes one more CQE of one request less. -/
theorem load_complete (h : Load size n w) (hroom : w.iou.cqRing.hasRoom = true) {i : Nat}
    {r : Request} (hr : w.inflight[i]? = some r) (r' : Request) (res : Int) :
    Load size n (w.complete i r' res) := by
  obtain ⟨hi, -⟩ := List.getElem?_eq_some_iff.mp hr
  have hload := h.load
  have hfits := h.fits
  refine ⟨wellFormed_post h.wellFormed hroom _, h.size_eq, ?_, h.named, h.fits, ?_⟩
  · simp only [World.complete]
    rw [unreaped_post h.wellFormed hroom, List.length_append, List.length_eraseIdx, if_pos hi,
      List.length_singleton]
    change w.iou.pending.length + _ + _ = n
    omega
  · exact Nat.max_le.mpr ⟨h.peak_le, by omega⟩

theorem load_writeBuf (h : Load size n w) (a : Addr) (data : List Octet) :
    Load size n (w.writeBuf a data) := by
  unfold World.writeBuf
  split
  · split
    · rename_i o ho
      refine h.congr rfl rfl rfl fun hnamed => named_update hnamed ?_
      intro o' ho'
      cases ho'
      exact hnamed _ o ho
    · exact h.congr rfl rfl rfl fun hnamed => hnamed
  · exact h.congr rfl rfl rfl fun hnamed => hnamed

theorem load_consume (h : Load size n w) : Load size n w.consume := by
  have hload := h.load
  unfold World.consume
  dsimp only
  split
  · exact h
  · rename_i hne
    refine ⟨wellFormed_consume h.wellFormed hne, h.size_eq, ?_, h.named, h.fits, h.peak_le⟩
    rw [pending_consume hne, List.length_cons, Nat.add_assoc _ 1, Nat.add_comm 1] at hload
    rw [List.length_append, List.length_singleton]
    exact hload

/-- Whatever the kernel does, it keeps the ops it has been given. -/
theorem load_act (h : Load size n w) (a : KernelAct) : Load size n (w.act a) := by
  cases a with
  | network a => exact h.congr rfl rfl rfl fun hnamed => hnamed
  | consume =>
      rw [World.act]
      split
      · exact load_consume h
      · exact h
  | needWakeup asleep =>
      refine ⟨?_, h.size_eq, h.load, h.named, h.fits, h.peak_le⟩
      exact RingStep.wellFormed (.flags _) h.wellFormed
  | accept i fd =>
      refine load_onCompletion h fun r hroom hr => ?_
      split
      · refine load_complete (r := r) ?_ ?_ ?_ _ _
        · exact h.congr rfl rfl rfl fun hnamed => hnamed
        · exact hroom
        · exact hr
      · exact h
  | deliver i size =>
      refine load_onCompletion h fun r hroom hr => ?_
      split
      · exact h
      · dsimp only
        split
        · exact h
        · refine load_complete (r := r) (load_writeBuf ?_ _ _) ?_ ?_ _ _
          · exact h.congr rfl rfl rfl fun hnamed => hnamed
          · rw [(writeBuf_iou _ _ _).1]
            exact hroom
          · rw [(writeBuf_iou _ _ _).2]
            exact hr
  | eof i =>
      refine load_onCompletion h fun r hroom hr => ?_
      split
      · exact h
      · split
        · exact load_complete h hroom hr _ _
        · exact h
  | scribble i data => exact load_onRequest h fun r _ => load_writeBuf h _ _
  | transmit i size =>
      refine load_onRequest h fun r _ => ?_
      split
      · refine h.congr rfl ?_ rfl fun hnamed => hnamed
        exact List.length_set
      · exact h.congr rfl rfl rfl fun hnamed => hnamed
      · exact h
  | sent i => exact load_onCompletion h fun r hroom hr => load_complete h hroom hr _ _
  | close i =>
      refine load_onCompletion h fun r hroom hr => load_complete (r := r) ?_ ?_ ?_ _ _
      · exact h.congr rfl rfl rfl fun hnamed => hnamed
      · exact hroom
      · exact hr
  | expire i => exact load_onCompletion h fun r hroom hr => load_complete h hroom hr _ _
  | answer i res =>
      rw [World.act]
      split
      · rename_i hcond
        split
        · rename_i r hr
          exact load_complete h hcond.1 hr _ _
        · exact h
      · exact h

theorem frame_load : Frame (Load size n) := by
  constructor
  · exact fun _ a h => load_act h a
  · intro w w' h hsame hnamed
    exact h.congr hsame.iou (by rw [hsame.inflight]) hsame.peak hnamed

end Kernel

section Submission

variable {size : UInt32} {n : Nat} {w w' : World} {p : Ptr}

theorem Load.pending_le (h : Load size n w) :
    distance w.iou.sqRing.head w.iou.sqRing.tail ≤ n := by
  have hload := h.load
  rw [Iou.pending, entries_length] at hload
  omega

/-- `a` is the slot behind the published SQEs. -/
structure Holding (size : UInt32) (n : Nat) (a : IouAcquiredSqeData) (w : World) : Prop where
  load : Load size n w
  tail_eq : w.iou.sqRing.tail = a.tail
  index_eq : a.index = a.tail &&& w.iou.sqRing.ringMask

theorem Holding.act {a : IouAcquiredSqeData} (h : Holding size n a w) (act : KernelAct) :
    Holding size n a (w.act act) := by
  have hstep := (steps_act h.load.wellFormed act).1
  refine ⟨load_act h.load act, hstep.tail_eq.1.trans h.tail_eq, ?_⟩
  rw [h.index_eq]
  generalize (w.act act).iou = iou' at hstep ⊢
  cases hstep <;> rfl

/-- Nothing but the length of the queue matters while the slot is written. -/
theorem Load.writeSlot (h : Load size n w) (index : UInt32) (s : Sqe) :
    Load size n { w with
      iou := { w.iou with sqes := Function.update w.iou.sqes index s } } := by
  have hwf := h.wellFormed
  refine ⟨⟨hwf.sqMask, hwf.sqBound, hwf.identity, hwf.cqMask, hwf.cqBound⟩, h.size_eq, ?_,
    h.named, h.fits, h.peak_le⟩
  have hload := h.load
  rw [Iou.pending, entries_length] at hload ⊢
  exact hload

theorem Load.writeArray (h : Load size n w) (index : UInt32) :
    Load size n { w with
      iou := { w.iou with
        sqRing := { w.iou.sqRing with
          array := Function.update w.iou.sqRing.array index index } } } := by
  have hwf := h.wellFormed
  refine ⟨⟨hwf.sqMask, hwf.sqBound, fun c hc => ?_, hwf.cqMask, hwf.cqBound⟩, h.size_eq, ?_,
    h.named, h.fits, h.peak_le⟩
  · dsimp only
    rcases eq_or_ne (c &&& w.iou.sqRing.ringMask) index with heq | hne
    · rw [heq, Function.update_self]
    · rw [Function.update_of_ne hne]
      exact hwf.identity c hc
  · have hload := h.load
    rw [Iou.pending, entries_length] at hload ⊢
    exact hload

/-- Storing the tail hands one more op to the kernel. -/
theorem Holding.publish {a : IouAcquiredSqeData} (h : Holding size n a w)
    (hn : n < size.toNat) (harray : w.iou.sqRing.array a.index = a.index) :
    Load size (n + 1) { w with
      iou := { w.iou with sqRing := { w.iou.sqRing with tail := a.tail + 1 } } } := by
  have hle := h.load.pending_le
  have hlt := UInt32.toNat_lt size
  have hroom : distance w.iou.sqRing.head w.iou.sqRing.tail + 1 < 2 ^ 32 := by omega
  have hdist := distance_tail_succ hroom
  have hwf := h.load.wellFormed
  have hload := h.load.load
  have hsize := h.load.size_eq
  have hindex := h.index_eq
  rw [← h.tail_eq] at hindex ⊢
  refine ⟨⟨hwf.sqMask, ?_, fun c hc => ?_, hwf.cqMask, hwf.cqBound⟩, hsize, ?_,
    h.load.named, hn, h.load.peak_le⟩
  · dsimp only
    rw [hsize]
    omega
  · dsimp only at hc ⊢
    rw [hdist, window_succ_last, head_add_distance, List.mem_append,
      List.mem_singleton] at hc
    rcases hc with hc | rfl
    · exact hwf.identity c hc
    · rw [← hindex, harray]
  · rw [Iou.pending, entries_length] at hload ⊢
    change distance w.iou.sqRing.head (w.iou.sqRing.tail + 1) + w.inflight.length +
      w.iou.unreaped.length = n + 1
    omega

theorem load_sched (h : Load size n w) (sched : List Tick) :
    Load size n { w with sched := sched } :=
  h.congr rfl rfl rfl fun h => h

/-- While fewer ops are with the kernel than the ring has slots, one is free. -/
theorem triple_iouAcquireSqe_load (hn : n < size.toNat) :
    Triple (Load size n) iouAcquireSqe fun a w =>
      (∃ index, a.sqe = some index) ∧ Holding size n a w := by
  refine Triple.get_bind fun w₀ h₀ => ?_
  refine Triple.bind (Q := fun _ w => Load size n w ∧
    w.iou.sqRing.tail = w₀.iou.sqRing.tail) ?_ fun _ => Triple.get_bind fun w₁ h₁ => ?_
  · refine (triple_yield_of (fun w a h => ⟨load_act h.1 a, ?_⟩) fun w sched h =>
      ⟨load_sched h.1 sched, h.2⟩).pre ?_
    · rintro w rfl
      exact ⟨h₀, rfl⟩
    · exact (steps_act h.1.wellFormed a).1.tail_eq.1.trans h.2
  obtain ⟨hload, htail⟩ := h₁
  refine Triple.ite (fun hfull => ?_) fun _ => ?_
  · have hle := hload.pending_le
    rw [ge_iff_le, UInt32.le_iff_toNat_le, ← htail, hload.size_eq] at hfull
    unfold distance at hle
    omega
  · let a : IouAcquiredSqeData :=
      { sqe := some (w₀.iou.sqRing.tail &&& w₁.iou.sqRing.ringMask)
        tail := w₀.iou.sqRing.tail
        index := w₀.iou.sqRing.tail &&& w₁.iou.sqRing.ringMask }
    refine Triple.bind (Q := fun _ => Holding size n a) ?_ fun _ => ?_
    · refine (triple_yield_of (fun w act h => h.act act) fun w sched h =>
        ⟨load_sched h.load sched, h.tail_eq, h.index_eq⟩).pre ?_
      rintro w rfl
      exact ⟨hload, htail, rfl⟩
    · refine Triple.bind (Q := fun _ => Holding size n a) ?_ fun _ =>
        Triple.pure _ fun w h => ⟨⟨_, rfl⟩, h⟩
      exact Triple.modify fun w h => ⟨h.load.writeSlot _ _, h.tail_eq, h.index_eq⟩

theorem triple_iouSubmitSqe_load {a : IouAcquiredSqeData} (hn : n < size.toNat) :
    Triple (Holding size n a) (iouSubmitSqe a) fun _ => Load size (n + 1) := by
  refine Triple.bind (Q := fun _ => Holding size n a) ?_ fun _ => ?_
  · exact triple_yield_of (fun w act h => h.act act) fun w sched h =>
      ⟨load_sched h.load sched, h.tail_eq, h.index_eq⟩
  refine Triple.bind (Q := fun _ w => Holding size n a w ∧
    w.iou.sqRing.array a.index = a.index) ?_ fun _ => ?_
  · refine Triple.modify fun w h => ⟨⟨h.load.writeArray _, h.tail_eq, h.index_eq⟩, ?_⟩
    dsimp only
    rw [Function.update_self]
  refine Triple.bind (triple_yield_of (P := fun w => Holding size n a w ∧
    w.iou.sqRing.array a.index = a.index) (fun w act h => ⟨h.1.act act, ?_⟩) fun w sched h =>
      ⟨⟨load_sched h.1.load sched, h.1.tail_eq, h.1.index_eq⟩, h.2⟩) fun _ => ?_
  · have hstep := (steps_act h.1.load.wellFormed act).1
    have harray := h.2
    generalize (w.act act).iou = iou' at hstep ⊢
    cases hstep <;> exact harray
  · exact Triple.modify fun w h => h.1.publish hn h.2

/-- A submission succeeds while fewer ops are with the kernel than the ring has
slots, and never makes the server exit. -/
theorem triple_iouConfigAndSubmit_load (hn : n < size.toNat) :
    Triple (Load size n) (iouConfigAndSubmit p) fun rc w => rc = 0 ∧ Load size (n + 1) w := by
  refine (triple_iouAcquireSqe_load hn).bind fun a => Triple.of_pre fun w₀ h₀ => ?_
  obtain ⟨⟨sqe, hsqe⟩, h₀⟩ := h₀
  rw [hsqe]
  have hyield : Triple (Holding size n a) yield fun _ => Holding size n a :=
    triple_yield_of (fun w act h => h.act act) fun w sched h =>
      ⟨load_sched h.load sched, h.tail_eq, h.index_eq⟩
  have hwrite : ∀ f, Triple (Holding size n a) (modifySqe sqe f) fun _ => Holding size n a :=
    fun f => Triple.modify fun w h => ⟨h.load.writeSlot _ _, h.tail_eq, h.index_eq⟩
  refine Triple.pre (P := Holding size n a) ?_ fun w hw => hw ▸ h₀
  refine hyield.bind fun _ => (hwrite _).bind fun _ => hyield.bind fun _ => ?_
  refine Triple.bind (Q := fun o w => Holding size n a w ∧ ∀ value, o.op ≠ .other value)
    ?_ fun o => Triple.of_pre fun w₁ h₁ => ?_
  · refine Triple.get_bind fun w h => ?_
    cases ho : w.ops p with
    | some o =>
        refine Triple.pure o ?_
        rintro w' rfl
        exact ⟨h, h.load.named p o ho⟩
    | none =>
        refine Triple.bind (Q := fun _ => Holding size n a) ?_ fun _ =>
          Triple.pure _ fun w' h' => ⟨h', by simp⟩
        refine Triple.modify ?_
        rintro w' rfl
        exact ⟨h.load.congr rfl rfl rfl fun h => h, h.tail_eq, h.index_eq⟩
  obtain ⟨h₁, hnamed⟩ := h₁
  refine Triple.pre (P := Holding size n a) ?_ fun w hw => hw ▸ h₁
  cases hprep : iouPrepSqe p o with
  | none =>
      unfold iouPrepSqe at hprep
      split at hprep <;> cases hprep
      rename_i value hop
      exact absurd hop (hnamed value)
  | some prep =>
      exact (hwrite prep).bind fun _ => (triple_iouSubmitSqe_load hn).bind fun _ =>
        Triple.pure _ fun w h => ⟨rfl, h⟩

/-- Started with `n` ops at the kernel, the program does not exit because of a
submission, and all ops it hands over are counted. -/
structure Submits {α : Type} (size : UInt32) (n : Nat) (x : Program World α) : Prop where
  stops : Stops (Load size n) x fun e => e ∉ submissionStops
  loaded : Triple (Load size n) x fun _ w => ∃ m, Load size m w

variable {α β : Type} {x : Program World α} {f : α → Program World β}

/-- What a program does in front does not count as long as it submits nothing. -/
theorem Submits.bind (hstops : Stops (Load size n) x fun e => e ∉ submissionStops)
    (hkeeps : Triple (Load size n) x fun _ => Load size n) (hf : ∀ a, Submits size n (f a)) :
    Submits size n (x >>= f) := by
  constructor
  · exact hstops.bind hkeeps fun a => (hf a).stops
  · exact hkeeps.bind fun a => (hf a).loaded

theorem Submits.after (hx : Silent x) (hf : ∀ a, Submits size n (f a)) :
    Submits size n (x >>= f) :=
  Submits.bind (hx.stops.pre fun _ _ => trivial) (hx.keeps _ frame_load) hf

theorem Submits.get_bind {g : World → Program World β} (h : ∀ w, Submits size n (g w)) :
    Submits size n (get >>= g) := by
  constructor
  · exact Stops.get_bind fun w hw => (h w).stops.pre fun _ heq => heq ▸ hw
  · exact Triple.get_bind fun w hw => (h w).loaded.pre fun _ heq => heq ▸ hw

theorem Submits.of_silent (hx : Silent x) : Submits size n x :=
  ⟨hx.stops.pre fun _ _ => trivial, (hx.keeps _ frame_load).post fun _ _ h => ⟨n, h⟩⟩

theorem Submits.ite {c : Prop} [Decidable c] {y : Program World α} (hx : Submits size n x)
    (hy : Submits size n y) : Submits size n (if c then x else y) :=
  ⟨Stops.ite (fun _ => hx.stops) fun _ => hy.stops,
    Triple.ite (fun _ => hx.loaded) fun _ => hy.loaded⟩

/-- A submission whose result is asserted to be 0. -/
theorem submits_submit {rest : Program World α} (hn : n < size.toNat) (text : String)
    (hrest : Submits size (n + 1) rest) :
    Submits size n (do
      let rc ← iouConfigAndSubmit p
      ioUringAssertZero rc text
      rest) := by
  have hassert : (ioUringAssertZero 0 text : Program World PUnit) = pure ⟨⟩ := if_neg (by simp)
  constructor
  · refine (Stops.of_returns (returns_iouConfigAndSubmit p)).bind
      (triple_iouConfigAndSubmit_load hn) fun rc => Stops.of_pre fun w h => ?_
    obtain ⟨rfl, h⟩ := h
    refine Stops.pre (P := Load size (n + 1)) ?_ fun _ heq => heq ▸ h
    rw [hassert]
    exact (Stops.of_returns (Returns.pure _)).bind (Triple.pure _ fun _ h => h)
      fun _ => hrest.stops
  · refine (triple_iouConfigAndSubmit_load hn).bind fun rc => Triple.of_pre fun w h => ?_
    obtain ⟨rfl, h⟩ := h
    refine Triple.pre (P := Load size (n + 1)) ?_ fun _ heq => heq ▸ h
    rw [hassert]
    exact Triple.bind (Triple.pure _ fun _ h => h) fun _ => hrest.loaded

theorem submits_submit_pure (hn : n < size.toNat) (text : String) (a : α) :
    Submits size n (do
      let rc ← iouConfigAndSubmit p
      ioUringAssertZero rc text
      return a) :=
  submits_submit hn text (Submits.of_silent (Silent.pure a))

end Submission

section Handlers

variable {cfg : Config} {size : UInt32} {n : Nat}

theorem silent_assertNnull {text : String} (htext : .exit text ∉ submissionStops)
    (isNull : Bool) : Silent (assertNnull isNull text : Program World PUnit) :=
  Silent.ite (Silent.exitFailure htext) (Silent.pure _)

theorem silent_ioUringAssertZero {text : String} (htext : .exit text ∉ submissionStops)
    (code : Int) : Silent (ioUringAssertZero code text : Program World PUnit) :=
  Silent.ite (Silent.exitFailure htext) (Silent.pure _)

theorem silent_ioUringAssertNonn {text : String} (htext : .exit text ∉ submissionStops)
    (code : Int) : Silent (ioUringAssertNonn code text : Program World PUnit) :=
  Silent.ite (Silent.exitFailure htext) (Silent.pure _)

theorem silent_ioUringAssert {text : String} (htext : .exit text ∉ submissionStops)
    (condition : Bool) : Silent (ioUringAssert condition text : Program World PUnit) :=
  Silent.ite (Silent.exitFailure htext) (Silent.pure _)

/-- An op that is given a kind of its own. -/
theorem silent_setKind (p : Ptr) {kind : IoOperationTypes} (hkind : ∀ value, kind ≠ .other value) :
    Silent (modifyOp p fun o => { o with op := kind }) :=
  silent_modifyOp p fun _ _ => hkind

/-- A change of the other members of an op. -/
theorem silent_setInfo (p : Ptr) {f : IouOp → IouOp} (hf : ∀ o, (f o).op = o.op) :
    Silent (modifyOp p f) :=
  silent_modifyOp p fun o ho => hf o ▸ ho

theorem submits_handleNewClient (hn : n < size.toNat) {next : PUnit → Program World Int32}
    (hnext : ∀ a, Submits size (n + 1) (next a)) (socket : Fd) :
    Submits size n (handleNewClient cfg socket >>= next) := by
  unfold handleNewClient
  simp only [bind_assoc]
  refine Submits.after silent_callocNode fun tracker => ?_
  refine Submits.after (silent_assertNnull (by decide) _) fun _ => ?_
  refine Submits.after (silent_callocOp cfg) fun op => ?_
  refine Submits.after (silent_assertNnull (by decide) _) fun _ => ?_
  refine Submits.after (silent_setInfo _ (by intro _; rfl)) fun _ => ?_
  refine Submits.after (silent_setInfo _ (by intro _; rfl)) fun _ => ?_
  refine Submits.after (silent_modifyNode _ _) fun _ => ?_
  refine Submits.after (silent_memTPushBack _) fun _ => ?_
  refine Submits.after (silent_setKind _ (by simp)) fun _ => ?_
  refine Submits.after (silent_setInfo _ (by intro _; rfl)) fun _ => ?_
  apply submits_submit hn
  exact Submits.after (Silent.whenTrue (silent_modifyBench _)) hnext

/-- The handler that submits twice, for the new client and for itself. -/
theorem submits_handleCqeAccept (p : Ptr) (result : Int)
    (hn : 0 ≤ result → n + 1 < size.toNat) : Submits size n (handleCqeAccept cfg p result) := by
  have hassert : Silent (ioUringAssertNonn result "CQE accept") :=
    silent_ioUringAssertNonn (by decide) result
  have hpost : Triple (Load size n) (ioUringAssertNonn result "CQE accept")
      fun _ w => Load size n w ∧ 0 ≤ result := triple_ioUringAssertNonn
  have hrest : 0 ≤ result → Submits size n (do
      handleNewClient cfg result
      let rc ← iouConfigAndSubmit p
      ioUringAssertZero rc "iou_config_and_submit(accept_req)"
      return (2 : Int32)) := fun hres =>
    submits_handleNewClient (by have := hn hres; omega)
      (fun _ => submits_submit_pure (hn hres) _ _) result
  constructor
  · refine (hassert.stops.pre fun _ _ => trivial).bind hpost fun _ => Stops.of_pre fun w h => ?_
    exact (hrest h.2).stops.pre fun _ heq => heq ▸ h.1
  · refine hpost.bind fun _ => Triple.of_pre fun w h => ?_
    exact (hrest h.2).loaded.pre fun _ heq => heq ▸ h.1

theorem submits_prepCloseClientReq (hn : n < size.toNat) (p : Ptr) :
    Submits size n (prepCloseClientReq p) := by
  refine Submits.after (silent_setKind _ (by simp)) fun _ => ?_
  exact submits_submit_pure hn _ _

theorem silent_handleCqeClose (p : Ptr) (result : Int) : Silent (handleCqeClose p result) := by
  refine (silent_ioUringAssertZero (by decide) _).bind fun _ => ?_
  refine (silent_setInfo _ (by intro _; rfl)).bind fun _ => ?_
  exact (silent_handleClosingClient _).bind fun _ => Silent.pure _

theorem submits_handleCqeRecv (hn : n < size.toNat) (p : Ptr) (result : Int) :
    Submits size n (handleCqeRecv cfg p result) := by
  refine Submits.after (silent_setInfo _ (by intro _; rfl)) fun _ => ?_
  refine Submits.after (silent_ioUringAssertNonn (by decide) _) fun _ => ?_
  refine Submits.ite (submits_prepCloseClientReq hn p) ?_
  refine Submits.ite (Submits.of_silent (Silent.exitFailure (by decide))) ?_
  refine Submits.ite (Submits.of_silent (Silent.exitFailure (by decide))) ?_
  refine Submits.after (Silent.whenTrue (silent_nowMonotonic.bind fun _ => ?_)) fun _ => ?_
  · exact silent_setInfo _ (by intro _; rfl)
  refine Submits.after (silent_setKind _ (by simp)) fun _ => ?_
  refine Submits.after (silent_setInfo _ (by intro _; rfl)) fun _ => ?_
  refine Submits.after (silent_setInfo _ (by intro _; rfl)) fun _ => ?_
  exact submits_submit_pure hn _ _

theorem submits_handleCqeSend (hn : n < size.toNat) (p : Ptr) (result : Int) :
    Submits size n (handleCqeSend cfg p result) := by
  refine Submits.after (silent_setInfo _ (by intro _; rfl)) fun _ => ?_
  refine Submits.after (silent_ioUringAssertNonn (by decide) _) fun _ => ?_
  refine Submits.ite (Submits.of_silent (Silent.exitFailure (by decide))) ?_
  refine Submits.after (Silent.whenTrue (silent_nowMonotonic.bind fun _ => ?_)) fun _ => ?_
  · exact (silent_readOp _).bind fun _ => silent_nowMonotonic.bind fun _ =>
      silent_modifyBench _
  refine Submits.after (silent_setKind _ (by simp)) fun _ => ?_
  refine Submits.after (silent_setInfo _ (by intro _; rfl)) fun _ => ?_
  exact submits_submit_pure hn _ _

theorem silent_handleCqeTimer (p : Ptr) (result : Int) :
    Silent (handleCqeTimer cfg p result) := by
  refine (silent_ioUringAssert (by decide) _).bind fun _ => ?_
  refine (Silent.whenTrue (silent_nowMonotonic.bind fun _ => ?_)).bind fun _ => Silent.pure _
  exact silent_modifyBench _

/-- The op tells whether a CQE is that of the accept request. -/
theorem submits_dispatchCqe {w : World} {c : Cqe} (hload : Load size n w)
    (htaken : On (Taken cfg c) w) (hn : n < size.toNat)
    (haccept : c.userData = acceptReq → 0 ≤ c.res → n + 1 < size.toNat) :
    (∀ e, dispatchCqe cfg c w = .error e → e ∉ submissionStops) ∧
      ∀ a t, dispatchCqe cfg c w = .ok (a, t) → ∃ m, Load size m t := by
  obtain ⟨-, huser, hfits, -⟩ := htaken
  obtain ⟨o, ho, -⟩ := id hfits
  rw [ho] at hfits
  have hok := hfits.opOk
  rw [← huser] at hok
  have hread : readOp c.userData w = .ok (o, w) := by
    refine (bind_run (t := w) rfl).trans ?_
    rw [show w.ops c.userData = some o from ho]
    rfl
  have hfrom : ∀ {x : Program World Int32}, Submits size n x →
      (∀ e, x w = .error e → e ∉ submissionStops) ∧
        ∀ a t, x w = .ok (a, t) → ∃ m, Load size m t :=
    fun h => ⟨h.stops w hload, h.loaded w hload⟩
  unfold dispatchCqe
  rw [bind_run hread]
  rcases hok with ⟨hp, hop⟩ | ⟨hp, hop⟩ | ⟨-, -, hclient⟩
  · rw [hop]
    exact hfrom (submits_handleCqeAccept _ _ (haccept hp))
  · rw [hop]
    exact hfrom (Submits.of_silent (silent_handleCqeTimer _ _))
  · rcases hclient with ⟨hop, -⟩ | ⟨hop, -⟩ | ⟨hop, -⟩
    · rw [hop]
      exact hfrom (submits_handleCqeRecv hn _ _)
    · rw [hop]
      exact hfrom (submits_handleCqeSend hn _ _)
    · rw [hop]
      exact hfrom (Submits.of_silent (silent_handleCqeClose _ _))

end Handlers

section Loop

variable {cfg : Config} {size : UInt32} {n : Nat} {w w' : World}

theorem Load.advance {c : Cqe} {rest : List Cqe} (h : Load size n w)
    (hunreaped : w.iou.unreaped = c :: rest) :
    n = (n - 1) + 1 ∧ Load size (n - 1) { w with
      iou := { w.iou with
        cqRing := { w.iou.cqRing with head := w.iou.cqRing.head + 1 } } } := by
  obtain ⟨hwf, hrelease⟩ := unreaped_release h.wellFormed hunreaped
  have hload := h.load
  rw [hunreaped, List.length_cons] at hload
  have hfits := h.fits
  refine ⟨by omega, hwf, h.size_eq, ?_, h.named, by omega, h.peak_le⟩
  dsimp only
  rw [hrelease]
  change w.iou.pending.length + _ + _ = _
  omega

/-- Taking a CQE off the ring leaves one op less with the kernel. -/
theorem triple_iouGetCqe_load : Triple (Load size n) iouGetCqe fun r w =>
    match r with
    | none => Load size n w
    | some _ => n = (n - 1) + 1 ∧ Load size (n - 1) w := by
  have hyield : ∀ (head : UInt32) (nonempty : Prop), Triple
      (fun w => Load size n w ∧ w.iou.cqRing.head = head ∧ (nonempty → w.iou.unreaped ≠ []))
      yield fun _ w => Load size n w ∧ w.iou.cqRing.head = head ∧
        (nonempty → w.iou.unreaped ≠ []) := by
    intro head nonempty
    refine triple_yield_of (fun w a h => ?_) fun w sched h => ⟨load_sched h.1 sched, h.2⟩
    obtain ⟨hhead, hpre⟩ := unreaped_ringStep h.1.wellFormed (steps_act h.1.wellFormed a).1
    refine ⟨load_act h.1 a, hhead.trans h.2.1, fun hnonempty hnil => ?_⟩
    rw [hnil] at hpre
    exact h.2.2 hnonempty (List.prefix_nil.mp hpre)
  refine Triple.get_bind fun w₀ h₀ => ?_
  refine Triple.bind ((hyield w₀.iou.cqRing.head False).pre ?_) fun _ => ?_
  · rintro w rfl
    exact ⟨h₀, rfl, fun h => h.elim⟩
  refine Triple.get_bind fun w₁ h₁ => Triple.ite (fun _ => ?_) fun hne => ?_
  · exact Triple.pure _ fun w heq => heq ▸ h₁.1
  · refine Triple.bind ((hyield w₀.iou.cqRing.head True).pre ?_) fun _ => ?_
    · rintro w rfl
      refine ⟨h₁.1, h₁.2.1, fun _ hnil => hne ?_⟩
      exact h₁.2.1.symm.trans (entries_eq_nil_iff.mp hnil)
    refine Triple.get_bind fun w₂ h₂ => ?_
    apply Triple.modify_bind
    refine Triple.bind ((hyield w₀.iou.cqRing.head True).pre ?_) fun _ => ?_
    · rintro w rfl
      exact ⟨h₂.1.congr rfl rfl rfl fun h => h, h₂.2⟩
    refine Triple.bind (Q := fun _ w => n = (n - 1) + 1 ∧ Load size (n - 1) w) ?_
      fun _ => Triple.pure _ fun _ h => h
    refine Triple.modify fun w h => ?_
    obtain ⟨hload, hhead, hnonempty⟩ := h
    cases hunreaped : w.iou.unreaped with
    | nil => exact absurd hunreaped (hnonempty trivial)
    | cons c rest =>
        have hadvance := hload.advance hunreaped
        rw [hhead] at hadvance
        exact hadvance

/-- The number of ops in use: those of the tracked connections, the accept op,
and the timer op until its CQE is handled. -/
def InUse (cfg : Config) (w : World) (k : Nat) : Prop :=
  ∃ ns, Tracks w.toServer ns ∧ k = ns.length + (roots cfg w.handled).length

/-- The ring has a slot for every op in use, and for one more when the next CQE
is that of an accepted connection. -/
structure FitsRing (cfg : Config) (w : World) : Prop where
  inUse : ∀ k, InUse cfg w k → k ≤ cfg.ioUringRingSize.toNat
  accepted : ∀ k c w', InUse cfg w k → iouGetCqe w = .ok (some c, w') →
    c.userData = acceptReq → 0 ≤ c.res → k + 1 ≤ cfg.ioUringRingSize.toNat

/-- At the top of the loop every op in use is with the kernel, once. -/
theorem inUse_of_load (hinv : On (Inv cfg [] [] []) w) (hload : Load size n w) :
    InUse cfg w n := by
  obtain ⟨-, xs, hown, -⟩ := hinv
  have hbalance := hown.balance.length_eq
  have hn := hload.load
  simp only [List.append_nil, List.length_map, List.length_append, references] at hbalance
  have hpending : (view w).pending.length = w.iou.pending.length := rfl
  have hinflight : (view w).inflight.length = w.inflight.length := rfl
  have hunreaped : (view w).unreaped.length = w.iou.unreaped.length := rfl
  refine ⟨xs.map Prod.fst, hown.tracker, ?_⟩
  rw [List.length_map, ← hn, ← hpending, ← hinflight, ← hunreaped]
  change (view w).pending.length + _ = (roots cfg (view w).handled).length + _ at hbalance
  change _ = xs.length + (roots cfg (view w).handled).length
  omega

theorem load_consumeMany (h : Load size n w) (k : Nat) : Load size n (consumeMany w k) := by
  induction k with
  | zero => exact h
  | succ k ih => exact load_consume ih

theorem silent_ioUringWakeup : Silent ioUringWakeup := by
  refine silent_yield.bind fun t => ?_
  cases t.enter <;> exact Silent.pure _

theorem triple_ioUringEnter_load (toSubmit : UInt32) :
    Triple (Load size n) (ioUringEnter toSubmit) fun _ => Load size n := by
  refine (silent_yield.keeps _ frame_load).bind fun t => Triple.get_bind fun w h => ?_
  refine Triple.bind (Q := fun _ => Load size n) ?_ fun _ => ?_
  · refine Triple.modify ?_
    rintro w' rfl
    refine foldl_act (P := Load size n) (fun _ a h => load_act h a) _ (load_consumeMany ?_ _)
    exact h.congr rfl rfl rfl fun h => h
  · cases t.enter <;> exact Triple.pure _ fun _ h => h

theorem returns_ioUringEnter (toSubmit : UInt32) : Returns (ioUringEnter toSubmit) := by
  refine returns_yield.bind fun t => Returns.get_bind fun w => (Returns.modify _).bind fun _ => ?_
  cases t.enter <;> exact Returns.pure _

/-- Entering the kernel moves ops on, and stops the server for no other reason
than the result of the call itself. -/
theorem submits_iouEnterOrWake (toSubmit : UInt32) :
    Submits size n (iouEnterOrWake toSubmit) := by
  refine Submits.get_bind fun w => Submits.ite ?_ ?_
  · refine Submits.bind (Stops.of_returns (returns_ioUringEnter _))
      (triple_ioUringEnter_load _) fun rc => ?_
    exact Submits.of_silent (silent_ioUringAssert (by decide) _)
  · refine Submits.after silent_yield fun _ => Submits.get_bind fun w => Submits.ite ?_ ?_
    · exact Submits.after silent_ioUringWakeup fun rc =>
        Submits.of_silent (silent_ioUringAssert (by decide) _)
    · exact Submits.of_silent (Silent.pure _)

/-- A program does not exit because of a submission, or ends with `Q`. -/
def Ends {α : Type} (r : Except Stop (α × World)) (Q : α → World → Prop) : Prop :=
  (∀ e, r = .error e → e ∉ submissionStops) ∧ ∀ a t, r = .ok (a, t) → Q a t

theorem Submits.ends {α : Type} {x : Program World α} (h : Submits size n x)
    (hload : Load size n w) : Ends (x w) fun _ t => ∃ m, Load size m t :=
  ⟨h.stops w hload, h.loaded w hload⟩

theorem Ends.of_returns {α : Type} {x : Program World α} {P : World → Prop}
    {Q : α → World → Prop} (hx : Returns x) (hpost : Triple P x Q) (h : P w) :
    Ends (x w) Q :=
  ⟨Stops.of_returns hx w h, hpost w h⟩

theorem Ends.bind {α β : Type} {x : Program World α} {f : α → Program World β}
    {Q : α → World → Prop} {R : β → World → Prop} (hx : Ends (x w) Q)
    (hf : ∀ a t, Q a t → Ends (f a t) R) : Ends ((x >>= f) w) R := by
  have hstops : Stops (fun t => t = w) (x >>= f) fun e => e ∉ submissionStops := by
    refine Stops.bind (Q := Q) ?_ ?_ fun a t ht => (hf a t ht).1
    · rintro t rfl
      exact hx.1
    · rintro t rfl
      exact hx.2
  have hloaded : Triple (fun t => t = w) (x >>= f) R := by
    refine Triple.bind (Q := Q) ?_ fun a t ht => (hf a t ht).2
    rintro t rfl
    exact hx.2
  exact ⟨hstops w rfl, hloaded w rfl⟩

theorem Ends.pure {α : Type} {a : α} {Q : α → World → Prop} (h : Q a w) :
    Ends ((Pure.pure a : Program World α) w) Q := by
  constructor
  · intro e hrun
    cases hrun
  · intro b t hrun
    cases hrun
    exact h

theorem ends_serviceCqeEvents {c : Cqe} (hload : Load size n w) (htaken : On (Taken cfg c) w)
    (hn : n < size.toNat) (haccept : c.userData = acceptReq → 0 ≤ c.res → n + 1 < size.toNat) :
    Ends (serviceCqeEvents cfg c w) fun _ t => ∃ m, Load size m t := by
  have hcount : Ends (whenTrue (cfg.doServerSideBenchmarking = true)
      (modifyBench fun b => ServerBenchmark.sbRequestsPerformed b 1) w)
      fun _ t => Load size n t ∧ On (Taken cfg c) t := by
    refine Ends.of_returns (P := fun t => Load size n t ∧ On (Taken cfg c) t) ?_ ?_
      ⟨hload, htaken⟩
    · exact Returns.ite (Returns.modify _) (Returns.pure _)
    · refine Triple.ite (fun _ => ?_) fun _ => Triple.pure _ fun _ h => h
      refine Triple.modify fun t h => ⟨?_, h.2⟩
      exact h.1.congr rfl rfl rfl fun h => h
  refine hcount.bind fun _ t ht => ?_
  refine Ends.bind (submits_dispatchCqe ht.1 ht.2 hn haccept) fun submitted u hu => ?_
  refine Ends.bind (Q := fun _ t => ∃ m, Load size m t) ?_ fun _ _ h => Ends.pure h
  obtain ⟨m, hu⟩ := hu
  refine Ends.of_returns (Returns.modify _) (Triple.modify ?_) hu
  intro v hv
  exact ⟨m, hv.congr rfl rfl rfl fun h => h⟩

/-- A turn of the loop submits as many ops as it may while they fit the ring. -/
theorem ends_serviceLoopTurn (hinv : On (Inv cfg [] [] []) w)
    (hload : Load cfg.ioUringRingSize n w) (hfits : FitsRing cfg w) (k : Int32) :
    Ends (serviceLoopTurn cfg k w) fun _ t => ∃ m, Load cfg.ioUringRingSize m t := by
  have hget : Ends (iouGetCqe w) fun r t => iouGetCqe w = .ok (r, t) := by
    refine Ends.of_returns (P := fun v => v = w) UringCompletions.returns_iouGetCqe ?_ rfl
    rintro v rfl r t hrun
    exact hrun
  refine hget.bind fun r t hrun => ?_
  have hloaded := triple_iouGetCqe_load w hload r t hrun
  cases r with
  | none => exact (submits_iouEnterOrWake _).ends hloaded |>.bind fun _ _ h => Ends.pure h
  | some c =>
      obtain ⟨hn, hloaded⟩ := hloaded
      have hinUse := inUse_of_load hinv hload
      have hle := hload.fits
      refine (ends_serviceCqeEvents hloaded (triple_iouGetCqe_taken w hinv _ t hrun)
        (by omega) ?_).bind
        fun _ _ h => Ends.pure h
      intro huser hres
      have := hfits.accepted n c t hinUse hrun huser hres
      omega

/-- The accept op, and the timer op with benchmarking. -/
theorem submits_serviceLoopStart (hsize : (roots cfg []).length ≤ size.toNat) :
    Submits size 0 (serviceLoopStart cfg) := by
  unfold serviceLoopStart createAcceptSqe
  simp only [bind_assoc, pure_bind]
  refine Submits.after (silent_setKind _ (by simp)) fun _ => ?_
  refine Submits.after (silent_setInfo _ (by intro _; rfl)) fun _ => ?_
  rw [roots, List.length_cons] at hsize
  refine submits_submit (by omega) _ ?_
  split
  · rename_i hbench
    simp only [hbench, List.map_nil, List.not_mem_nil, not_false_eq_true, and_self, if_true,
      List.length_singleton] at hsize
    unfold createTimerSqe
    simp only [bind_assoc, pure_bind]
    refine Submits.after (silent_setKind _ (by simp)) fun _ => ?_
    refine Submits.after (silent_setInfo _ (by intro _; rfl)) fun _ => ?_
    exact submits_submit_pure (by omega) _ _
  · exact Submits.of_silent (Silent.pure _)

/-- The ops in use fit the ring in the state `w₀` before the loop and at every
top of the loop up to the `n`-th. -/
def StaysWithin (cfg : Config) (n : Nat) (w₀ : World) : Prop :=
  (∀ k, InUse cfg w₀ k → k ≤ cfg.ioUringRingSize.toNat) ∧
    ∀ i ≤ n, ∀ events w, serviceLoop cfg i w₀ = .ok (events, w) → FitsRing cfg w

theorem inUse_initialWorld (s : RingSetup cfg) (useKernelPooling faithful : Bool)
    (sched : List Tick) :
    InUse cfg (initialWorld cfg s useKernelPooling faithful sched) (roots cfg []).length :=
  ⟨[], .empty _ _, by simp [initialWorld]⟩

theorem load_initialWorld (s : RingSetup cfg) (useKernelPooling faithful : Bool)
    (sched : List Tick) :
    Load cfg.ioUringRingSize 0 (initialWorld cfg s useKernelPooling faithful sched) := by
  refine ⟨wellFormed_iouCreate s useKernelPooling, rfl, ?_, ?_, Nat.zero_le _, Nat.zero_le _⟩
  · have hpending := pending_iouCreate s useKernelPooling
    have hunreaped := unreaped_iouCreate s useKernelPooling
    simp only [initialWorld, hpending, hunreaped, List.length_nil]
  · intro p o ho value
    simp only [initialWorld] at ho
    rcases eq_or_ne p timerReq with rfl | hne
    · rw [Function.update_self] at ho
      cases ho
      simp
    · rw [Function.update_of_ne hne] at ho
      rcases eq_or_ne p acceptReq with rfl | hne'
      · rw [Function.update_self] at ho
        cases ho
        simp
      · rw [Function.update_of_ne hne'] at ho
        cases ho

/-- As long as the ops in use fit the ring, the counts fit it, turn after turn. -/
theorem ends_serviceLoop (s : RingSetup cfg) (useKernelPooling faithful : Bool)
    (sched : List Tick) (n : Nat)
    (hwithin : StaysWithin cfg n (initialWorld cfg s useKernelPooling faithful sched)) :
    Ends (serviceLoop cfg n (initialWorld cfg s useKernelPooling faithful sched))
      fun _ t => ∃ m, Load cfg.ioUringRingSize m t := by
  obtain ⟨hstart, htops⟩ := hwithin
  induction n with
  | zero =>
      refine Ends.bind (Submits.ends (submits_serviceLoopStart ?_) (load_initialWorld _ _ _ _))
        fun _ _ h => Ends.pure h
      exact hstart _ (inUse_initialWorld s useKernelPooling faithful sched)
  | succ n ih =>
      have hn := ih fun i hi => htops i (by omega)
      have hsplit : serviceLoop cfg (n + 1) = serviceLoop cfg n >>= serviceLoopTurn cfg := by
        simp only [serviceLoop, turns, bind_assoc]
      rw [hsplit]
      have hget : Ends (serviceLoop cfg n (initialWorld cfg s useKernelPooling faithful sched))
          fun events t => (∃ m, Load cfg.ioUringRingSize m t) ∧
            serviceLoop cfg n (initialWorld cfg s useKernelPooling faithful sched) =
              .ok (events, t) :=
        ⟨hn.1, fun events t hrun => ⟨hn.2 events t hrun, hrun⟩⟩
      refine hget.bind fun events t ht => ?_
      obtain ⟨⟨m, hload⟩, hrun⟩ := ht
      have hreachable : Reachable cfg t :=
        ⟨s, useKernelPooling, faithful, sched, n, events, t, [], hrun, rfl⟩
      exact ends_serviceLoopTurn (on_inv_of_reachable hreachable) hload
        (htops n (by omega) events t hrun) events

/-- While the ops in use fit the ring, no submission fails, and there are never
more CQEs unreaped than the ring has slots. -/
theorem submission_never_full (s : RingSetup cfg) (useKernelPooling faithful : Bool)
    (sched : List Tick) (n : Nat)
    (hwithin : StaysWithin cfg n (initialWorld cfg s useKernelPooling faithful sched)) :
    (∀ e, serviceLoop cfg n (initialWorld cfg s useKernelPooling faithful sched) = .error e →
      e ∉ submissionStops) ∧
    ∀ events w (acts : List KernelAct), serviceLoop cfg n
        (initialWorld cfg s useKernelPooling faithful sched) = .ok (events, w) →
      (acts.foldl World.act w).peak ≤ cfg.ioUringRingSize.toNat ∧
        (acts.foldl World.act w).iou.unreaped.length ≤ cfg.ioUringRingSize.toNat := by
  have hends := ends_serviceLoop s useKernelPooling faithful sched n hwithin
  refine ⟨hends.1, fun events w acts hrun => ?_⟩
  obtain ⟨m, hload⟩ := hends.2 events w hrun
  have hafter := foldl_act (P := Load cfg.ioUringRingSize m) (fun _ a h => load_act h a) acts hload
  have hle := hafter.fits
  have hcount := hafter.load
  exact ⟨hafter.peak_le, by omega⟩

end Loop

section OneClient

/-- One client connects and sends a message while the kernel lets CQEs pile up. -/
def oneClient : World :=
  initialWorld smallConfig smallSetup false true
    (idle 7 ++
      { enter := .consumed 1
        afterEnter := [.network .connect, .accept 0 5, .network (.bytes 0 [1, 2])] } ::
      (idle 3 ++ { ptr := 10 } :: { ptr := 11 } :: (idle 13 ++
        { enter := .consumed 2, afterEnter := [.deliver 0 2] } :: idle 9)))

/-- A tracker with at most one node. -/
def AtMostOne (w : World) : Prop :=
  w.memAllocsTracker.head = none ∨
    (w.memAllocsTracker.head = some 10 ∧ nextOf w.toServer 10 = none)

theorem fitsRing_of_atMostOne {w : World} (h : AtMostOne w) : FitsRing smallConfig w := by
  have hle : ∀ k, InUse smallConfig w k → k ≤ 2 := by
    rintro k ⟨ns, htracks, rfl⟩
    have hroots : (roots smallConfig w.handled).length = 1 := by simp [roots, smallConfig]
    have hns : ns.length ≤ 1 := by
      rcases h with hhead | ⟨hhead, hnext⟩
      · have hforward := htracks.forward
        rw [hhead] at hforward
        have hnil : ns = [] := hforward.unique rfl
        simp [hnil]
      · have hforward := htracks.forward
        rw [hhead] at hforward
        have hone : ns = [10] := hforward.unique ⟨rfl, hnext⟩
        simp [hone]
    omega
  refine ⟨fun k hk => ?_, fun k c w' hk _ _ _ => ?_⟩
  · exact (hle k hk).trans (by decide)
  · exact (Nat.succ_le_succ (hle k hk)).trans (by decide)

theorem atMostOne_oneClient : ∀ i ≤ 5, AtMostOne (worldAfter smallConfig i oneClient) := by
  unfold AtMostOne
  decide +kernel

theorem staysWithin_oneClient : StaysWithin smallConfig 5 oneClient := by
  refine ⟨(fitsRing_of_atMostOne (.inl rfl)).inUse, fun i hi events w hrun => ?_⟩
  have hw : w = worldAfter smallConfig i oneClient := by
    rw [worldAfter, hrun]
  rw [hw]
  exact fitsRing_of_atMostOne (atMostOne_oneClient i hi)

theorem submission_never_full_oneClient :
    (worldAfter smallConfig 5 oneClient).peak = 1 ∧
      (∀ e, serviceLoop smallConfig 5 oneClient = .error e → e ∉ submissionStops) ∧
      ∀ events w (acts : List KernelAct), serviceLoop smallConfig 5 oneClient =
          .ok (events, w) →
        (acts.foldl World.act w).peak ≤ smallConfig.ioUringRingSize.toNat ∧
          (acts.foldl World.act w).iou.unreaped.length ≤
            smallConfig.ioUringRingSize.toNat :=
  ⟨by decide +kernel,
    submission_never_full smallSetup false true _ 5 staysWithin_oneClient⟩

end OneClient

end EchoServers.UringCapacity
