import EchoServers.BoundedFifos
import EchoServers.UringReferences

namespace EchoServers.UringFifo

open EchoServers.BoundedFifos
open EchoServers.RingCounters
open EchoServers.ServerUtils
open EchoServers.SocketKernel
open EchoServers.StateTriples
open EchoServers.UringKernelSteps
open EchoServers.UringMemory
open EchoServers.UringQueues
open EchoServers.UringReferences
open EchoServers.UringServer
open EchoServers.UringSubmission
open EchoServers.Utils

/-- A `struct iou_op`: the length of its buffer is fixed at compile time. -/
structure SizedOp (cfg : Config) where
  op : IouOp
  size : op.infoCon.buf.length = cfg.defaultServerBufferSize

/-- The SQE that an op determines. -/
def sqeOf (p : Ptr) (o : IouOp) : Option Sqe :=
  (iouPrepSqe p o).map fun prep => prep { userData := p }

/-- The state in which a call that starts in `w` loads the head of the ring. -/
def atHeadLoad (w : World) : World :=
  match w.sched with
  | [] => w
  | t :: ts => t.acts.foldl World.act { w with sched := ts }

/-- One call of `iou_config_and_submit`: what it was called with, what it
returned, how many SQEs were unconsumed when it loaded the head, and the
unconsumed SQEs around it. -/
structure Submission (cfg : Config) where
  op : Ptr
  contents : SizedOp cfg
  result : Int
  unconsumed : Nat
  before : List Sqe
  after : List Sqe

def Submission.accepted {cfg : Config} (s : Submission cfg) : Option Sqe :=
  if s.result = 0 then sqeOf s.op s.contents.op else none

/-- The caller fills in the op at `p` and submits it. -/
def submitOp {cfg : Config} (p : Ptr) (o : SizedOp cfg) : Program World (Submission cfg) := do
  modify fun w => { w with ops := Function.update w.ops p (some o.op) }
  let w ← get
  let result ← iouConfigAndSubmit p
  let w' ← get
  return {
    op := p
    contents := o
    result := result
    unconsumed := (atHeadLoad w).iou.pending.length
    before := w.iou.pending
    after := w'.iou.pending }

/-- What can happen to a ring: a call, during which the kernel may take any
steps, or the consumption of SQEs between two calls. -/
inductive RingEvent (cfg : Config) where
  | submit (p : Ptr) (o : SizedOp cfg)
  | consume (k : Nat)

def ringRun {cfg : Config} : List (RingEvent cfg) → Program World (List (Submission cfg))
  | [] => return []
  | .submit p o :: rest => do
      let s ← submitOp p o
      return s :: (← ringRun rest)
  | .consume k :: rest => do
      modify fun w => consumeMany w k
      ringRun rest

/-- What a caller can rely on. -/
structure Submission.Correct {cfg : Config} (s : Submission cfg) : Prop where
  busy : s.result = -ebusy ↔ s.unconsumed = cfg.ioUringRingSize.toNat
  effect : (s.result = 0 ∧ ∃ sqe kept, sqeOf s.op s.contents.op = some sqe ∧
      kept <:+ s.before ∧ s.after = kept ++ [sqe]) ∨
    ((s.result = -ebusy ∨ s.result = -einval ∧ sqeOf s.op s.contents.op = none) ∧
      s.after <:+ s.before)

section Invariant

variable {cfg : Config} {pushed : List Sqe} {v v' : View}

/-- The rings as a bounded queue into which `pushed` was put, and what keeps the
requests that are in flight from reaching outside their own buffers. -/
structure Sound (cfg : Config) (pushed : List Sqe) (v : View) : Prop where
  run : Fifo.Run cfg.ioUringRingSize.toNat pushed ⟨v.consumed, v.pending⟩
  ringSize : v.ringSize = cfg.ioUringRingSize
  inflight : ∀ r ∈ v.inflight, r.sqe ∈ v.consumed
  transfers : ∀ s ∈ pushed, s.opcode = .recv ∨ s.opcode = .send →
    ∃ p, s.addr = .conBuf p ∧ (v.ops p).isSome
  bound : ∀ s ∈ pushed, s.opcode = .recv → s.len.toNat ≤ cfg.defaultServerBufferSize

/-- What the kernel leaves of an op: all but the bytes in its buffer. -/
def Kept (cfg : Config) (p : Ptr) (o : IouOp) (v : View) : Prop :=
  ∃ buf, v.ops p = some (setBuf o buf) ∧ buf.length = cfg.defaultServerBufferSize

/-- The op at `p` is about to be submitted, and of `before` some SQEs have been
consumed. -/
def Submitting (cfg : Config) (pushed : List Sqe) (before : List Sqe) (p : Ptr)
    (o : SizedOp cfg) (v : View) : Prop :=
  Sound cfg pushed v ∧ v.pending <:+ before ∧ Kept cfg p o.op v

/-- The same after the SQE of the op has been published. -/
def Submitted (cfg : Config) (pushed : List Sqe) (before : List Sqe) (sqe : Sqe)
    (v : View) : Prop :=
  Sound cfg (pushed ++ [sqe]) v ∧ ∃ kept, kept <:+ before ∧ v.pending = kept ++ [sqe]

theorem Sound.mem (h : Sound cfg pushed v) {r : Request} (hr : r ∈ v.inflight) :
    r.sqe ∈ pushed :=
  h.run.taken_subset (h.inflight r hr)

theorem Sound.congr (h : Sound cfg pushed v) (hringSize : v'.ringSize = v.ringSize)
    (hpending : v'.pending = v.pending) (hconsumed : v'.consumed = v.consumed)
    (hinflight : ∀ r ∈ v'.inflight, ∃ r' ∈ v.inflight, r'.sqe = r.sqe)
    (hops : ∀ p, (v.ops p).isSome → (v'.ops p).isSome) : Sound cfg pushed v' := by
  refine ⟨?_, hringSize.trans h.ringSize, fun r hr => ?_, fun s hs hkind => ?_, h.bound⟩
  · rw [hconsumed, hpending]
    exact h.run
  · obtain ⟨r', hr', heq⟩ := hinflight r hr
    rw [hconsumed, ← heq]
    exact h.inflight r' hr'
  · obtain ⟨p, hp, hlive⟩ := h.transfers s hs hkind
    exact ⟨p, hp, hops p hlive⟩

theorem Sound.complete (h : Sound cfg pushed v) {before after : List Request}
    {r r' : Request} (hinflight : v.inflight = before ++ r :: after) (res : Int)
    (hringSize : v'.ringSize = v.ringSize) (hpending : v'.pending = v.pending)
    (hconsumed : v'.consumed = v.consumed)
    (hops : ∀ p, (v.ops p).isSome → (v'.ops p).isSome) :
    Sound cfg pushed (v'.complete before after r' res) := by
  refine h.congr hringSize hpending hconsumed (fun q hq => ⟨q, ?_, rfl⟩) hops
  rw [hinflight]
  simp only [View.complete, List.mem_append, List.mem_cons] at hq ⊢
  tauto

theorem isSome_withOp {p : Ptr} {o : IouOp} (q : Ptr) (h : (v.ops q).isSome) :
    ((v.withOp p (some o)).ops q).isSome := by
  rcases eq_or_ne q p with rfl | hne
  · simp [View.withOp]
  · simpa [View.withOp, hne] using h

theorem length_overwrite {buf data : List Octet} {n : Nat} (hbuf : buf.length = n)
    (hdata : data.length ≤ n) : (overwrite buf data).length = n := by
  rw [overwrite, List.length_append, List.length_drop]
  omega

/-- The op being submitted keeps all but the bytes in its buffer. -/
theorem setBuf_withOp {p q : Ptr} {o o' : IouOp} {buf data : List Octet}
    (hp : v.ops p = some (setBuf o buf)) (hbuf : buf.length = cfg.defaultServerBufferSize)
    (hq : v.ops q = some o') (hdata : data.length ≤ cfg.defaultServerBufferSize) :
    ∃ buf', (v.withOp q (some (setBuf o' (overwrite o'.infoCon.buf data)))).ops p =
      some (setBuf o buf') ∧ buf'.length = cfg.defaultServerBufferSize := by
  rcases eq_or_ne p q with rfl | hne
  · cases hp.symm.trans hq
    exact ⟨overwrite buf data, by simp [View.withOp, setBuf], length_overwrite hbuf hdata⟩
  · exact ⟨buf, by simpa [View.withOp, hne] using hp, hbuf⟩

/-- The kernel only takes SQEs off the queue and writes into buffers. -/
theorem Sound.step (h : Sound cfg pushed v) (hstep : KernelStep v v') :
    Sound cfg pushed v' ∧ v'.pending <:+ v.pending ∧
      ∀ p o, Kept cfg p o v → Kept cfg p o v' := by
  have hlive : ∀ q, (v.ops q).isSome → (v.ops q).isSome := fun _ hq => hq
  have hkept : ∀ p o, Kept cfg p o v → Kept cfg p o v := fun _ _ hp => hp
  have hsuffix := List.suffix_refl v.pending
  cases hstep with
  | network a => exact ⟨h.congr rfl rfl rfl (fun r hr => ⟨r, hr, rfl⟩) hlive, hsuffix, hkept⟩
  | consume s rest hpending =>
      have hrun := h.run
      rw [hpending] at hrun ⊢
      refine ⟨⟨hrun.take, h.ringSize, fun r hr => ?_, h.transfers, h.bound⟩,
        List.suffix_cons s rest, hkept⟩
      simp only [List.mem_append, List.mem_singleton] at hr ⊢
      rcases hr with hr | rfl
      · exact .inl (h.inflight r hr)
      · exact .inr rfl
  | accept before after r hinflight hkind fd c backlog hbacklog hfd hfree =>
      exact ⟨h.complete hinflight _ rfl rfl rfl hlive, hsuffix, hkept⟩
  | deliver before after r hinflight hkind c hconn data rest hunread hdata hlen q haddr o hq =>
      have hmem := h.mem (r := r) (by simp [hinflight])
      have hdata' := hlen.trans (h.bound _ hmem hkind)
      refine ⟨h.complete hinflight _ rfl rfl rfl isSome_withOp, hsuffix, ?_⟩
      rintro p o' ⟨buf, hp, hbuf⟩
      exact setBuf_withOp hp hbuf hq hdata'
  | eof before after r hinflight hkind c hconn hunread heos =>
      exact ⟨h.complete hinflight _ rfl rfl rfl hlive, hsuffix, hkept⟩
  | scribble r hmem hkind data hlen q haddr o hq =>
      have hdata' := hlen.trans (h.bound _ (h.mem hmem) hkind)
      refine ⟨h.congr rfl rfl rfl (fun r hr => ⟨r, hr, rfl⟩) isSome_withOp, hsuffix, ?_⟩
      rintro p o' ⟨buf, hp, hbuf⟩
      exact setBuf_withOp hp hbuf hq hdata'
  | transmit before after r hinflight hkind c hconn q haddr o hq data hdata =>
      refine ⟨h.congr rfl rfl rfl (fun r' hr' => ?_) hlive, hsuffix, hkept⟩
      rw [hinflight]
      simp only [List.mem_append, List.mem_cons] at hr' ⊢
      rcases hr' with hr' | rfl | hr'
      · exact ⟨r', .inl hr', rfl⟩
      · exact ⟨r, .inr (.inl rfl), rfl⟩
      · exact ⟨r', .inr (.inr hr'), rfl⟩
  | sent before after r hinflight hkind =>
      exact ⟨h.complete hinflight _ rfl rfl rfl hlive, hsuffix, hkept⟩
  | close before after r hinflight hkind f hopen =>
      exact ⟨h.complete hinflight _ rfl rfl rfl hlive, hsuffix, hkept⟩
  | answer before after r hinflight res hres =>
      exact ⟨h.complete hinflight _ rfl rfl rfl hlive, hsuffix, hkept⟩
  | stray r hmem hkind hstray =>
      obtain ⟨q, haddr, hq⟩ := h.transfers _ (h.mem hmem) hkind
      rw [hstray q haddr] at hq
      cases hq

theorem stable_sound : Stable (Sound cfg pushed) := fun _ _ hstep h => (h.step hstep).1

theorem stable_submitting {before : List Sqe} {p : Ptr} {o : SizedOp cfg} :
    Stable (Submitting cfg pushed before p o) := by
  rintro v v' hstep ⟨h, hbefore, hkept⟩
  obtain ⟨h', hsuffix, hkept'⟩ := h.step hstep
  exact ⟨h', hsuffix.trans hbefore, hkept' _ _ hkept⟩

/-- An SQE made from an op reaches no further than the op's own buffer. -/
theorem sqeOf_bounds {p : Ptr} {o : SizedOp cfg} {s : Sqe} (hs : sqeOf p o.op = some s) :
    (s.opcode = .recv ∨ s.opcode = .send → s.addr = .conBuf p) ∧
      (s.opcode = .recv → s.len.toNat ≤ cfg.defaultServerBufferSize) := by
  have hlen : (UInt32.ofNat o.op.infoCon.buf.length).toNat ≤ cfg.defaultServerBufferSize := by
    rw [UInt32.toNat_ofNat', o.size]
    exact Nat.mod_le _ _
  unfold sqeOf iouPrepSqe at hs
  split at hs <;> simp only [Option.map_some, Option.map_none, Option.some.injEq,
    reduceCtorEq] at hs <;> subst hs
  case h_3 => exact ⟨fun _ => rfl, fun _ => hlen⟩
  case h_4 => exact ⟨fun _ => rfl, fun h => absurd h (by simp [iouPrepSendSqe])⟩
  all_goals simp [iouPrepAcceptSqe, iouPrepCloseSqe, iouPrepTimerSqe]

/-- Publishing the SQE of the op. -/
theorem Submitting.publish {before : List Sqe} {p : Ptr} {o : SizedOp cfg} {s : Sqe}
    (h : Submitting cfg pushed before p o v) (hroom : v.pending.length < v.ringSize.toNat)
    (hs : sqeOf p o.op = some s) :
    Submitted cfg pushed before s { v with pending := v.pending ++ [s] } := by
  obtain ⟨h, hbefore, buf, hop, hbuf⟩ := h
  have hbounds := sqeOf_bounds hs
  rw [h.ringSize] at hroom
  refine ⟨⟨h.run.push s hroom, h.ringSize, h.inflight, fun s' hs' hkind => ?_,
    fun s' hs' hkind => ?_⟩, v.pending, hbefore, rfl⟩
  · rcases List.mem_append.mp hs' with hs' | hs'
    · exact h.transfers s' hs' hkind
    · obtain rfl := List.mem_singleton.mp hs'
      exact ⟨p, hbounds.1 hkind, Option.isSome_iff_exists.mpr ⟨_, hop⟩⟩
  · rcases List.mem_append.mp hs' with hs' | hs'
    · exact h.bound s' hs' hkind
    · obtain rfl := List.mem_singleton.mp hs'
      exact hbounds.2 hkind

end Invariant

section Call

variable {cfg : Config} {pushed before : List Sqe} {p : Ptr} {o : SizedOp cfg}

/-- What a call does to the queue, by its result. -/
theorem triple_iouConfigAndSubmit_fifo :
    Triple (On (Submitting cfg pushed before p o)) (iouConfigAndSubmit p) fun rc w =>
      (rc = 0 ∧ ∃ s, sqeOf p o.op = some s ∧ On (Submitted cfg pushed before s) w) ∨
      ((rc = -ebusy ∨ rc = -einval ∧ sqeOf p o.op = none) ∧
        On (Submitting cfg pushed before p o) w) := by
  have hprep : ∀ v o', Submitting cfg pushed before p o v → v.ops p = some o' →
      iouPrepSqe p o' = iouPrepSqe p o.op := by
    rintro v o' ⟨-, -, buf, hop, hbuf⟩ ho'
    cases hop.symm.trans ho'
    exact iouPrepSqe_setBuf (hbuf.trans o.size.symm) p
  refine (triple_iouConfigAndSubmit (C := fun s => sqeOf p o.op = some s)
    (J := fun v => ∃ s, sqeOf p o.op = some s ∧ Submitted cfg pushed before s v)
    stable_submitting (fun v h => ?_) (fun v o' prep h ho' hprep' => ?_)
    fun v s h hroom hs => ⟨s, hs, h.publish hroom hs⟩).post fun rc w h => ?_
  · obtain ⟨-, -, buf, hop, -⟩ := h
    exact ⟨_, hop⟩
  · rw [sqeOf, ← hprep v o' h ho', hprep']
    rfl
  · rcases h with ⟨hrc, hwf, s, hs, h⟩ | ⟨hrc, h, -⟩ | ⟨hrc, h, o', ho', hnone⟩
    · exact .inl ⟨hrc, s, hs, hwf, h⟩
    · exact .inr ⟨.inl hrc, h⟩
    · refine .inr ⟨.inr ⟨hrc, ?_⟩, h⟩
      rw [sqeOf, ← hprep _ o' h.2 ho', hnone]
      rfl

theorem yield_run (w : World) : ∃ t, yield w = .ok (t, atHeadLoad w) := by
  unfold atHeadLoad
  cases hsched : w.sched with
  | nil => exact ⟨{}, by simp [yield, modifyGet, MonadStateOf.modifyGet, StateT.modifyGet, hsched,
      pure, Except.pure]⟩
  | cons t ts => exact ⟨t, by simp [yield, modifyGet, MonadStateOf.modifyGet, StateT.modifyGet,
      hsched, pure, Except.pure]⟩

variable {w w' : World} {a : IouAcquiredSqeData} {rc : Int}

/-- Whether a slot is acquired is decided by the head that the call loads. -/
theorem acquired_none_iff (h : iouAcquireSqe w = .ok (a, w')) :
    a.sqe = none ↔
      (atHeadLoad w).iou.ringSize ≤ w.iou.sqRing.tail - (atHeadLoad w).iou.sqRing.head := by
  obtain ⟨t, hyield⟩ := yield_run w
  unfold iouAcquireSqe at h
  rw [bind_run (show (get : Program World World) w = .ok (w, w) from rfl), bind_run hyield,
    bind_run (show (get : Program World World) (atHeadLoad w) = .ok (_, atHeadLoad w) from rfl)]
    at h
  split at h
  · rename_i hfull
    cases h
    exact ⟨fun _ => hfull, fun _ => rfl⟩
  · rename_i hroom
    obtain ⟨-, w₁, -, h⟩ := bind_eq_ok h
    obtain ⟨-, w₂, -, h⟩ := bind_eq_ok h
    cases h
    exact ⟨fun h => absurd h (by simp), fun h => absurd h hroom⟩

theorem result_eq_ebusy_iff (h : iouConfigAndSubmit p w = .ok (rc, w')) :
    rc = -ebusy ↔
      (atHeadLoad w).iou.ringSize ≤ w.iou.sqRing.tail - (atHeadLoad w).iou.sqRing.head := by
  obtain ⟨a, w₁, hacquire, h⟩ := bind_eq_ok h
  rw [← acquired_none_iff hacquire]
  cases hsqe : a.sqe with
  | none =>
      rw [hsqe] at h
      cases h
      exact ⟨fun _ => rfl, fun _ => rfl⟩
  | some sqe =>
      rw [hsqe] at h
      obtain ⟨-, w₂, -, h⟩ := bind_eq_ok h
      obtain ⟨-, w₃, -, h⟩ := bind_eq_ok h
      obtain ⟨-, w₄, -, h⟩ := bind_eq_ok h
      obtain ⟨o', w₅, -, h⟩ := bind_eq_ok h
      refine iff_of_false ?_ (by simp)
      cases hprep : iouPrepSqe p o' with
      | none =>
          rw [hprep] at h
          cases h
          decide
      | some prep =>
          rw [hprep] at h
          obtain ⟨-, w₆, -, h⟩ := bind_eq_ok h
          obtain ⟨-, w₇, -, h⟩ := bind_eq_ok h
          cases h
          decide

/-- The kernel's turn leaves the tail and the size of the ring alone. -/
theorem atHeadLoad_ring (hwf : WellFormed w.iou) :
    WellFormed (atHeadLoad w).iou ∧ (atHeadLoad w).iou.sqRing.tail = w.iou.sqRing.tail ∧
      (atHeadLoad w).iou.ringSize = w.iou.ringSize := by
  have hact : ∀ (w₁ : World) (a : KernelAct),
      (WellFormed w₁.iou ∧ w₁.iou.sqRing.tail = w.iou.sqRing.tail ∧
        w₁.iou.ringSize = w.iou.ringSize) →
      WellFormed (w₁.act a).iou ∧ (w₁.act a).iou.sqRing.tail = w.iou.sqRing.tail ∧
        (w₁.act a).iou.ringSize = w.iou.ringSize := by
    rintro w₁ a ⟨hwf₁, htail, hsize⟩
    have hstep := (steps_act hwf₁ a).1
    exact ⟨hstep.wellFormed hwf₁, hstep.tail_eq.1.trans htail, hstep.tail_eq.2.trans hsize⟩
  obtain ⟨t, hyield⟩ := yield_run w
  exact triple_yield_of (P := fun w₁ => WellFormed w₁.iou ∧
    w₁.iou.sqRing.tail = w.iou.sqRing.tail ∧ w₁.iou.ringSize = w.iou.ringSize) hact
    (fun _ _ h => h) w ⟨hwf, rfl, rfl⟩ t _ hyield

/-- A call is turned away exactly if the ring is full when it loads the head. -/
theorem busy_iff (hwf : WellFormed w.iou) (h : iouConfigAndSubmit p w = .ok (rc, w')) :
    rc = -ebusy ↔ (atHeadLoad w).iou.pending.length = w.iou.ringSize.toNat := by
  obtain ⟨hwf', htail, hsize⟩ := atHeadLoad_ring hwf
  have hbound := hwf'.sqBound
  rw [result_eq_ebusy_iff h, ← htail, UInt32.le_iff_toNat_le, hsize]
  rw [hsize] at hbound
  rw [Iou.pending, entries_length]
  simp only [distance] at hbound ⊢
  omega

/-- The specification of a call, for the caller and for the queue. -/
theorem triple_submitOp : Triple (On (Sound cfg pushed)) (submitOp p o) fun s =>
    On fun v => Sound cfg (pushed ++ s.accepted.toList) v ∧ s.Correct := by
  refine Triple.bind (Q := fun _ => On fun v => Sound cfg pushed v ∧ v.ops p = some o.op)
    ?_ fun _ => Triple.get_bind fun w h => ?_
  · refine Triple.modify fun w ⟨hwf, h⟩ => ⟨hwf, h.congr rfl rfl rfl (fun r hr => ⟨r, hr, rfl⟩)
      (isSome_withOp (p := p) (o := o.op)), ?_⟩
    simp [view]
  · obtain ⟨hwf, h, hop⟩ := h
    have hbefore : Submitting cfg pushed w.iou.pending p o (view w) :=
      ⟨h, List.suffix_refl _, o.op.infoCon.buf, hop, o.size⟩
    intro w₁ hw₁ s w₂ hrun
    subst hw₁
    obtain ⟨rc, w₃, hcall, hrun⟩ := bind_eq_ok hrun
    cases hrun
    have hbusy := busy_iff hwf hcall
    rw [show w₁.iou.ringSize = cfg.ioUringRingSize from h.ringSize] at hbusy
    rcases triple_iouConfigAndSubmit_fifo w₁ ⟨hwf, hbefore⟩ rc w₂ hcall with
      ⟨rfl, sqe, hsqe, hwf', hsound, kept, hkept, hafter⟩ | ⟨hrc, hwf', hsound, hafter, -⟩
    · have haccepted : (⟨p, o, 0, (atHeadLoad w₁).iou.pending.length, w₁.iou.pending,
        w₂.iou.pending⟩ : Submission cfg).accepted = some sqe := by
        rw [Submission.accepted, if_pos rfl, hsqe]
      refine ⟨hwf', ?_, hbusy, .inl ⟨rfl, sqe, kept, hsqe, hkept, hafter⟩⟩
      rw [haccepted]
      exact hsound
    · have hne : rc ≠ 0 := by
        rintro rfl
        rcases hrc with hrc | ⟨hrc, -⟩ <;> exact absurd hrc (by decide)
      refine ⟨hwf', ?_, hbusy, .inr ⟨hrc, hafter⟩⟩
      rw [Submission.accepted, if_neg hne, Option.toList_none, List.append_nil]
      exact hsound

end Call

section Run

variable {cfg : Config}

theorem triple_ringRun (pushed : List Sqe) (events : List (RingEvent cfg)) :
    Triple (On (Sound cfg pushed)) (ringRun events) fun calls =>
      On fun v => Sound cfg (pushed ++ calls.filterMap Submission.accepted) v ∧
        ∀ s ∈ calls, s.Correct := by
  induction events generalizing pushed with
  | nil =>
      refine Triple.pure _ fun w h => ?_
      simpa using h
  | cons event rest ih =>
      cases event with
      | submit p o =>
          refine triple_submitOp.bind fun s => Triple.of_pre fun w hw => ?_
          obtain ⟨hwf, h, hs⟩ := hw
          have htail := ih (pushed ++ s.accepted.toList)
          refine (htail.pre ?_).bind fun calls => Triple.pure _ fun w' h' => ?_
          · rintro w' rfl
            exact ⟨hwf, h⟩
          · obtain ⟨hwf', h', hcalls⟩ := h'
            refine ⟨hwf', ?_, List.forall_mem_cons.mpr ⟨hs, hcalls⟩⟩
            rw [List.append_assoc] at h'
            cases haccepted : s.accepted with
            | none => simpa [haccepted] using h'
            | some sqe => simpa [haccepted] using h'
      | consume k =>
          refine Triple.bind (Triple.modify fun w h => ?_) fun _ => ih pushed
          exact on_consumeMany stable_sound h k

theorem returns_yield : Returns yield := Returns.modifyGet _

theorem returns_iouAcquireSqe : Returns iouAcquireSqe := by
  refine Returns.get_bind fun w => returns_yield.bind fun _ => Returns.get_bind fun w' => ?_
  refine Returns.ite (Returns.pure _) (returns_yield.bind fun _ => ?_)
  exact (Returns.modify _).bind fun _ => Returns.pure _

theorem returns_readOp (p : Ptr) : Returns (readOp p) := by
  refine Returns.get_bind fun w => ?_
  cases w.ops p with
  | some o => exact Returns.pure _
  | none => exact (Returns.modify _).bind fun _ => Returns.pure _

theorem returns_iouSubmitSqe (a : IouAcquiredSqeData) : Returns (iouSubmitSqe a) :=
  returns_yield.bind fun _ => (Returns.modify _).bind fun _ =>
    returns_yield.bind fun _ => Returns.modify _

theorem returns_iouConfigAndSubmit (p : Ptr) : Returns (iouConfigAndSubmit p) := by
  refine returns_iouAcquireSqe.bind fun a => ?_
  cases a.sqe with
  | none => exact Returns.pure _
  | some sqe =>
      refine returns_yield.bind fun _ => (Returns.modify _).bind fun _ =>
        returns_yield.bind fun _ => (returns_readOp p).bind fun o => ?_
      cases iouPrepSqe p o with
      | none => exact Returns.pure _
      | some prep =>
          exact (Returns.modify _).bind fun _ => (returns_iouSubmitSqe _).bind fun _ =>
            Returns.pure _

theorem returns_ringRun (events : List (RingEvent cfg)) : Returns (ringRun events) := by
  induction events with
  | nil => exact Returns.pure _
  | cons event rest ih =>
      cases event with
      | submit p o =>
          refine Returns.bind ?_ fun s => ih.bind fun calls => Returns.pure _
          refine (Returns.modify _).bind fun _ => Returns.get_bind fun _ => ?_
          exact (returns_iouConfigAndSubmit p).bind fun _ => Returns.get_bind fun _ =>
            Returns.pure _
      | consume k => exact (Returns.modify _).bind fun _ => ih

theorem sound_initialWorld (s : RingSetup cfg) (useKernelPooling faithful : Bool)
    (sched : List Tick) :
    On (Sound cfg []) (initialWorld cfg s useKernelPooling faithful sched) := by
  have hpending : (view (initialWorld cfg s useKernelPooling faithful sched)).pending = [] :=
    pending_iouCreate s useKernelPooling
  refine ⟨wellFormed_iouCreate s useKernelPooling, ?_, rfl, ?_, ?_, ?_⟩
  · rw [hpending]
    exact .empty
  · simp [view, initialWorld]
  · simp
  · simp

/-- The submission ring, whatever its size, its mask, the starting value of its
counters and the contents of its slots, is a bounded queue under any calls and
any steps of the kernel: what has been consumed, followed by what is pending,
is what was accepted, in this order. -/
theorem ring_refines_fifo (s : RingSetup cfg) (useKernelPooling faithful : Bool)
    (sched : List Tick) (events : List (RingEvent cfg)) :
    ∃ calls w, ringRun events (initialWorld cfg s useKernelPooling faithful sched) =
        .ok (calls, w) ∧
      Fifo.Run cfg.ioUringRingSize.toNat (calls.filterMap Submission.accepted)
        ⟨w.consumed, w.iou.pending⟩ ∧
      w.consumed ++ w.iou.pending = calls.filterMap Submission.accepted ∧
      w.iou.pending.length ≤ cfg.ioUringRingSize.toNat ∧ ∀ c ∈ calls, c.Correct := by
  obtain ⟨calls, w, hrun⟩ := returns_ringRun events
    (initialWorld cfg s useKernelPooling faithful sched)
  obtain ⟨-, hsound, hcorrect⟩ := triple_ringRun [] events _
    (sound_initialWorld s useKernelPooling faithful sched) calls w hrun
  have hqueue := hsound.run
  rw [List.nil_append] at hqueue
  exact ⟨calls, w, hrun, hqueue, hqueue.conservation, hqueue.length_le, hcorrect⟩

end Run

end EchoServers.UringFifo
