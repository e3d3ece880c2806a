import EchoServers.UringFifo

namespace EchoServers.UringCompletions

open EchoServers.BoundedFifos
open EchoServers.RingCounters
open EchoServers.SocketKernel
open EchoServers.StateTriples
open EchoServers.UringFifo
open EchoServers.UringKernelSteps
open EchoServers.UringMemory
open EchoServers.UringQueues
open EchoServers.UringServer
open EchoServers.Utils

/-- One call of `iou_get_cqe`: what it returned, the caller's `cqe_out` before
and after it, the unreaped CQEs when it loaded the tail, and the head of the
ring around it. -/
structure Reaping where
  result : Option Cqe
  cqeOut : Cqe
  cqeOut' : Cqe
  unreaped : List Cqe
  head : UInt32
  head' : UInt32

/-- The caller passes a `cqe_out` that holds anything. -/
def reap (cqeOut : Cqe) : Program World Reaping := do
  modify fun w => { w with cqeStorage := cqeOut }
  let w ← get
  let result ← iouGetCqe
  let w' ← get
  return {
    result := result
    cqeOut := cqeOut
    cqeOut' := w'.cqeStorage
    -- the tail is loaded after the first turn of the kernel
    unreaped := (atHeadLoad w).iou.unreaped
    head := w.iou.cqRing.head
    head' := w'.iou.cqRing.head }

/-- What can happen to the completion ring: a call, during which the kernel may
take any steps, or steps of the kernel between two calls. -/
inductive CqEvent where
  | getCqe (cqeOut : Cqe)
  | kernel (acts : List KernelAct)

def cqRun : List CqEvent → Program World (List Reaping)
  | [] => return []
  | .getCqe cqeOut :: rest => do
      let r ← reap cqeOut
      return r :: (← cqRun rest)
  | .kernel acts :: rest => do
      modify fun w => acts.foldl World.act w
      cqRun rest

/-- What a caller can rely on. -/
structure Reaping.Correct (r : Reaping) : Prop where
  null : r.result = none ↔ r.unreaped = []
  untouched : r.result = none → r.cqeOut' = r.cqeOut ∧ r.head' = r.head
  filled : ∀ c, r.result = some c → r.cqeOut' = c ∧ r.head' = r.head + 1

section Steps

variable {w w' : World} {k : Nat}

/-- A step of the kernel leaves the completion ring alone or posts one CQE, for
which there is room. -/
inductive CqStep (w w' : World) : Prop where
  | same (hring : w'.iou.cqRing = w.iou.cqRing) (hposted : w'.posted = w.posted)
      (hstorage : w'.cqeStorage = w.cqeStorage)
  | post (c : Cqe) (hroom : w.iou.cqRing.hasRoom = true)
      (hring : w'.iou.cqRing = w.iou.cqRing.post c) (hposted : w'.posted = w.posted ++ [c])
      (hstorage : w'.cqeStorage = w.cqeStorage)

theorem CqStep.refl (w : World) : CqStep w w := .same rfl rfl rfl

theorem cqStep_onRequest {i : Nat} {kind : Opcode} {f : Request → World}
    (h : ∀ r, CqStep w (f r)) : CqStep w (w.onRequest i kind f) := by
  unfold World.onRequest
  split
  · split
    · exact h _
    · exact .refl w
  · exact .refl w

theorem cqStep_onCompletion {i : Nat} {kind : Opcode} {f : Request → World}
    (h : w.iou.cqRing.hasRoom = true → ∀ r, CqStep w (f r)) :
    CqStep w (w.onCompletion i kind f) := by
  unfold World.onCompletion
  split
  · rename_i hroom
    exact cqStep_onRequest (h hroom)
  · exact .refl w

/-- Completing a request after changes outside the completion ring. -/
theorem cqStep_complete (hroom : w.iou.cqRing.hasRoom = true)
    (hring : w'.iou.cqRing = w.iou.cqRing) (hposted : w'.posted = w.posted)
    (hstorage : w'.cqeStorage = w.cqeStorage) (i : Nat) (r : Request) (res : Int) :
    CqStep w (w'.complete i r res) := by
  apply CqStep.post { userData := r.sqe.userData, res := res, request := r } hroom
  · rw [← hring]
    rfl
  · rw [← hposted]
    rfl
  · exact hstorage

theorem writeBuf_posted (w : World) (a : Addr) (data : List Octet) :
    (w.writeBuf a data).posted = w.posted := by
  unfold World.writeBuf
  split
  · split <;> rfl
  · rfl

theorem writeBuf_cqeStorage (w : World) (a : Addr) (data : List Octet) :
    (w.writeBuf a data).cqeStorage = w.cqeStorage := by
  unfold World.writeBuf
  split
  · split <;> rfl
  · rfl

theorem cqStep_act (w : World) (a : KernelAct) : CqStep w (w.act a) := by
  cases a with
  | network a => exact .same rfl rfl rfl
  | needWakeup asleep => exact .same rfl rfl rfl
  | consume =>
      simp only [World.act]
      split
      · unfold World.consume
        dsimp only
        split
        · exact .refl w
        · exact .same rfl rfl rfl
      · exact .refl w
  | accept i fd =>
      apply cqStep_onCompletion
      intro hroom r
      rcases w.kernel.accept4 fd with ⟨answer, kernel⟩
      cases answer with
      | ok client =>
          apply cqStep_complete hroom
          · rfl
          · rfl
          · rfl
      | error e => exact .refl w
  | deliver i size =>
      apply cqStep_onCompletion
      intro hroom r
      cases r.conn with
      | none => exact .refl w
      | some c =>
          dsimp only
          split
          · exact .refl w
          · apply cqStep_complete hroom
            · rw [(writeBuf_iou _ _ _).1]
            · rw [writeBuf_posted]
            · rw [writeBuf_cqeStorage]
  | eof i =>
      apply cqStep_onCompletion
      intro hroom r
      cases r.conn with
      | none => exact .refl w
      | some c =>
          dsimp only
          split
          · exact cqStep_complete hroom rfl rfl rfl i r 0
          · exact .refl w
  | scribble i data =>
      apply cqStep_onRequest
      intro r
      apply CqStep.same
      · rw [(writeBuf_iou _ _ _).1]
      · exact writeBuf_posted _ _ _
      · exact writeBuf_cqeStorage _ _ _
  | transmit i size =>
      apply cqStep_onRequest
      intro r
      cases r.conn with
      | none => exact .refl w
      | some c =>
          cases w.readBuf r.sqe.addr with
          | none => exact .same rfl rfl rfl
          | some buf => exact .same rfl rfl rfl
  | sent i => exact cqStep_onCompletion fun hroom r => cqStep_complete hroom rfl rfl rfl i r _
  | close i =>
      apply cqStep_onCompletion
      intro hroom r
      apply cqStep_complete hroom
      · rfl
      · rfl
      · rfl
  | expire i => exact cqStep_onCompletion fun hroom r => cqStep_complete hroom rfl rfl rfl i r _
  | answer i res =>
      simp only [World.act]
      split
      · rename_i h
        split
        · exact cqStep_complete h.1 rfl rfl rfl i _ res
        · exact .refl w
      · exact .refl w

end Steps

section Invariant

variable {w w' : World} {k : Nat} {taken new : List Cqe}

/-- The completion ring as a bounded queue out of which `taken` was reaped. -/
structure Reaped (k : Nat) (taken : List Cqe) (w : World) : Prop where
  mask : IsMask w.iou.cqRing.ringMask k
  run : Fifo.Run (2 ^ k) w.posted ⟨taken, w.iou.unreaped⟩

/-- `w'` is `w` after the kernel has posted the CQEs `new`. -/
structure Posts (w : World) (new : List Cqe) (w' : World) : Prop where
  head : w'.iou.cqRing.head = w.iou.cqRing.head
  storage : w'.cqeStorage = w.cqeStorage
  unreaped : w'.iou.unreaped = w.iou.unreaped ++ new

theorem Reaped.step (h : Reaped k taken w) (hstep : CqStep w w') :
    Reaped k taken w' ∧ ∃ new, Posts w new w' := by
  cases hstep with
  | same hring hposted hstorage =>
      have hunreaped : w'.iou.unreaped = w.iou.unreaped := by
        unfold Iou.unreaped Iou.cqeAt
        rw [hring]
      refine ⟨⟨?_, ?_⟩, [], ?_, hstorage, ?_⟩
      · rw [hring]
        exact h.mask
      · rw [hposted, hunreaped]
        exact h.run
      · rw [hring]
      · rw [hunreaped, List.append_nil]
  | post c hroom hring hposted hstorage =>
      have hunreaped : w'.iou.unreaped = w.iou.unreaped ++ [c] := by
        rw [← unreaped_post_of_mask h.mask hroom c]
        unfold Iou.unreaped Iou.cqeAt
        rw [hring]
      have hlength : w.iou.unreaped.length < 2 ^ k := by
        have hdist := of_decide_eq_true hroom
        have hmask := mask_lt h.mask
        rw [Iou.unreaped, entries_length]
        omega
      refine ⟨⟨?_, ?_⟩, [c], ?_, hstorage, hunreaped⟩
      · rw [hring]
        exact h.mask
      · rw [hposted, hunreaped]
        exact h.run.push c hlength
      · rw [hring]
        rfl

theorem Reaped.acts (h : Reaped k taken w) (acts : List KernelAct) :
    Reaped k taken (acts.foldl World.act w) ∧ ∃ new, Posts w new (acts.foldl World.act w) := by
  induction acts generalizing w with
  | nil => exact ⟨h, [], rfl, rfl, (List.append_nil _).symm⟩
  | cons a acts ih =>
      obtain ⟨h₁, new₁, hposts₁⟩ := h.step (cqStep_act w a)
      obtain ⟨h₂, new₂, hposts₂⟩ := ih h₁
      refine ⟨h₂, new₁ ++ new₂, hposts₂.head.trans hposts₁.head,
        hposts₂.storage.trans hposts₁.storage, ?_⟩
      rw [List.foldl_cons, hposts₂.unreaped, hposts₁.unreaped, List.append_assoc]

theorem Reaped.yield (h : Reaped k taken w) :
    Reaped k taken (atHeadLoad w) ∧ ∃ new, Posts w new (atHeadLoad w) := by
  unfold atHeadLoad
  cases w.sched with
  | nil => exact ⟨h, [], rfl, rfl, (List.append_nil _).symm⟩
  | cons t ts =>
      have hsched : Reaped k taken { w with sched := ts } := ⟨h.mask, h.run⟩
      obtain ⟨h', new, hhead, hstorage, hunreaped⟩ := hsched.acts t.acts
      exact ⟨h', new, hhead, hstorage, hunreaped⟩

/-- The oldest unreaped CQE is the one in the slot of the head. -/
theorem unreaped_eq_cons (hne : w.iou.cqRing.head ≠ w.iou.cqRing.tail) :
    w.iou.unreaped = w.iou.cqeAt w.iou.cqRing.head ::
      Iou.unreaped { w.iou with
        cqRing := { w.iou.cqRing with head := w.iou.cqRing.head + 1 } } :=
  entries_pop hne

theorem unreaped_eq_nil_iff : w.iou.unreaped = [] ↔ w.iou.cqRing.head = w.iou.cqRing.tail :=
  entries_eq_nil_iff

/-- Moving the head past its slot takes the oldest unreaped CQE. -/
theorem Reaped.advance {c : Cqe} {rest : List Cqe} (h : Reaped k taken w)
    (hunreaped : w.iou.unreaped = c :: rest) :
    Reaped k (taken ++ [c])
      { w with iou := { w.iou with
        cqRing := { w.iou.cqRing with head := w.iou.cqRing.head + 1 } } } := by
  have hne : w.iou.cqRing.head ≠ w.iou.cqRing.tail := by
    intro heq
    rw [unreaped_eq_nil_iff.mpr heq] at hunreaped
    cases hunreaped
  have hpop := unreaped_eq_cons hne
  rw [hunreaped] at hpop
  obtain ⟨-, hrest⟩ := List.cons.inj hpop
  have hrun := h.run
  rw [hunreaped, hrest] at hrun
  exact ⟨h.mask, hrun.take⟩

end Invariant

section Call

variable {w w' : World} {k : Nat} {taken : List Cqe} {r : Reaping}

/-- The specification of a call, for its caller and for the ring. -/
theorem iouGetCqe_spec {result : Option Cqe} (h : Reaped k taken w)
    (hcall : iouGetCqe w = .ok (result, w')) :
    Reaping.Correct ⟨result, w.cqeStorage, w'.cqeStorage, (atHeadLoad w).iou.unreaped,
      w.iou.cqRing.head, w'.iou.cqRing.head⟩ ∧ Reaped k (taken ++ result.toList) w' := by
  obtain ⟨h₁, new₁, hposts₁⟩ := h.yield
  obtain ⟨t₁, hyield₁⟩ := yield_run w
  unfold iouGetCqe at hcall
  rw [bind_run (show (get : Program World World) w = .ok (w, w) from rfl), bind_run hyield₁,
    bind_run (show (get : Program World World) (atHeadLoad w) = .ok (_, atHeadLoad w) from rfl)]
    at hcall
  have hempty : w.iou.cqRing.head = (atHeadLoad w).iou.cqRing.tail ↔
      (atHeadLoad w).iou.unreaped = [] := by
    rw [unreaped_eq_nil_iff, hposts₁.head]
  split at hcall
  · rename_i heq
    cases hcall
    refine ⟨⟨⟨fun _ => hempty.mp heq, fun _ => rfl⟩,
      fun _ => ⟨hposts₁.storage, hposts₁.head⟩, ?_⟩, ?_⟩
    · intro c hc
      cases hc
    · rw [Option.toList_none, List.append_nil]
      exact h₁
  · rename_i hne
    obtain ⟨h₂, new₂, hposts₂⟩ := h₁.yield
    obtain ⟨t₂, hyield₂⟩ := yield_run (atHeadLoad w)
    rw [bind_run hyield₂, bind_run (show (get : Program World World)
      (atHeadLoad (atHeadLoad w)) = .ok (_, atHeadLoad (atHeadLoad w)) from rfl)] at hcall
    -- the CQE is copied out before the head is moved
    obtain ⟨copied, hcopy⟩ : ∃ copied, copied =
        (atHeadLoad (atHeadLoad w)).iou.cqeAt w.iou.cqRing.head := ⟨_, rfl⟩
    rw [← hcopy] at hcall
    have hstored : Reaped k taken { atHeadLoad (atHeadLoad w) with cqeStorage := copied } :=
      ⟨h₂.mask, h₂.run⟩
    obtain ⟨h₃, new₃, hposts₃⟩ := hstored.yield
    obtain ⟨t₃, hyield₃⟩ := yield_run { atHeadLoad (atHeadLoad w) with cqeStorage := copied }
    rw [bind_run (show (modify _ : Program World PUnit) (atHeadLoad (atHeadLoad w)) =
      .ok (⟨⟩, { atHeadLoad (atHeadLoad w) with cqeStorage := copied }) from rfl),
      bind_run hyield₃] at hcall
    cases hcall
    have hhead₂ := hposts₂.head.trans hposts₁.head
    have hhead₃ := hposts₃.head.trans hhead₂
    have hunreaped := unreaped_eq_cons (w := atHeadLoad w) (by rwa [hposts₁.head])
    -- what the kernel posts meanwhile goes behind the CQE at the head
    have hunreaped₂ := hposts₂.unreaped
    rw [hunreaped, List.cons_append] at hunreaped₂
    have hcopied : copied = (atHeadLoad w).iou.cqeAt (atHeadLoad w).iou.cqRing.head := by
      have hne₂ : (atHeadLoad (atHeadLoad w)).iou.cqRing.head ≠
          (atHeadLoad (atHeadLoad w)).iou.cqRing.tail := by
        intro heq
        rw [unreaped_eq_nil_iff.mpr heq] at hunreaped₂
        cases hunreaped₂
      rw [unreaped_eq_cons hne₂, hhead₂] at hunreaped₂
      exact hcopy.trans (List.cons.inj hunreaped₂).1
    refine ⟨⟨?_, ?_, ?_⟩, ?_⟩
    · exact ⟨fun hnone => absurd hnone (by simp), fun hnil => absurd (hempty.mpr hnil) hne⟩
    · intro hnone
      cases hnone
    · intro c hc
      cases hc
      exact ⟨hposts₃.storage, rfl⟩
    · have hunreaped₃ : (atHeadLoad { atHeadLoad (atHeadLoad w) with
          cqeStorage := copied }).iou.unreaped =
            (atHeadLoad (atHeadLoad w)).iou.unreaped ++ new₃ := hposts₃.unreaped
      rw [hunreaped₂, List.cons_append, ← hcopied] at hunreaped₃
      have hadvance := h₃.advance hunreaped₃
      rw [hhead₃] at hadvance
      exact hadvance

theorem reap_spec (h : Reaped k taken w) (cqeOut : Cqe) (hrun : reap cqeOut w = .ok (r, w')) :
    r.Correct ∧ Reaped k (taken ++ r.result.toList) w' := by
  have hpassed : Reaped k taken { w with cqeStorage := cqeOut } := ⟨h.mask, h.run⟩
  unfold reap at hrun
  rw [bind_run (show (modify _ : Program World PUnit) w =
      .ok (⟨⟩, { w with cqeStorage := cqeOut }) from rfl),
    bind_run (show (get : Program World World) { w with cqeStorage := cqeOut } =
      .ok (_, { w with cqeStorage := cqeOut }) from rfl)] at hrun
  obtain ⟨result, w₀, hcall, hrun⟩ := bind_eq_ok hrun
  cases hrun
  exact iouGetCqe_spec hpassed hcall

theorem cqRun_spec (events : List CqEvent) (h : Reaped k taken w) {calls : List Reaping}
    (hrun : cqRun events w = .ok (calls, w')) :
    Reaped k (taken ++ calls.filterMap Reaping.result) w' ∧ ∀ r ∈ calls, r.Correct := by
  induction events generalizing w taken calls with
  | nil =>
      cases hrun
      simpa using h
  | cons event rest ih =>
      cases event with
      | getCqe cqeOut =>
          obtain ⟨r, w₁, hreap, hrun⟩ := bind_eq_ok hrun
          obtain ⟨calls', w₂, hrest, hrun⟩ := bind_eq_ok hrun
          cases hrun
          obtain ⟨hcorrect, h₁⟩ := reap_spec h cqeOut hreap
          obtain ⟨h₂, hcalls⟩ := ih h₁ hrest
          refine ⟨?_, List.forall_mem_cons.mpr ⟨hcorrect, hcalls⟩⟩
          rw [List.append_assoc] at h₂
          cases hresult : r.result with
          | none => simpa [hresult] using h₂
          | some c => simpa [hresult] using h₂
      | kernel acts => exact ih (h.acts acts).1 hrun

end Call

section Refinement

variable {w₀ : World} {k : Nat}

theorem returns_iouGetCqe : Returns iouGetCqe := by
  refine Returns.get_bind fun w => returns_yield.bind fun _ => Returns.get_bind fun w₁ => ?_
  refine Returns.ite (Returns.pure _) (returns_yield.bind fun _ => Returns.get_bind fun w₂ => ?_)
  exact (Returns.modify _).bind fun _ => returns_yield.bind fun _ =>
    (Returns.modify _).bind fun _ => Returns.pure _

theorem returns_cqRun (events : List CqEvent) : Returns (cqRun events) := by
  induction events with
  | nil => exact Returns.pure _
  | cons event rest ih =>
      cases event with
      | getCqe cqeOut =>
          refine Returns.bind ?_ fun r => ih.bind fun calls => Returns.pure _
          exact (Returns.modify _).bind fun _ => Returns.get_bind fun w =>
            returns_iouGetCqe.bind fun result => Returns.get_bind fun w' => Returns.pure _
      | kernel acts => exact (Returns.modify _).bind fun _ => ih

/-- The completion ring, whatever its size, the starting value of its counters
and the contents of its slots, is a bounded queue under any calls and any steps
of the kernel: what the calls returned, followed by what is unreaped, is what
was posted, in this order. -/
theorem cq_refines_fifo (hk : k ≤ 31)
    (hmask : w₀.iou.cqRing.ringMask = UInt32.ofNat (2 ^ k - 1))
    (hempty : w₀.iou.cqRing.head = w₀.iou.cqRing.tail) (hposted : w₀.posted = [])
    (events : List CqEvent) :
    ∃ calls w, cqRun events w₀ = .ok (calls, w) ∧
      Fifo.Run (2 ^ k) w.posted ⟨calls.filterMap Reaping.result, w.iou.unreaped⟩ ∧
      w.posted = calls.filterMap Reaping.result ++ w.iou.unreaped ∧
      ∀ r ∈ calls, r.Correct := by
  have hreaped : Reaped k [] w₀ := by
    refine ⟨hmask ▸ isMask_ofNat hk, ?_⟩
    rw [hposted, unreaped_eq_nil_iff.mpr hempty]
    exact .empty
  obtain ⟨calls, w, hrun⟩ := returns_cqRun events w₀
  obtain ⟨h, hcorrect⟩ := cqRun_spec events hreaped hrun
  rw [List.nil_append] at h
  exact ⟨calls, w, hrun, h.run, h.run.conservation.symm, hcorrect⟩

/-- A ring of eight CQEs whose counters are about to wrap, with requests in
flight that the kernel answers before and during a call. -/
theorem cq_refines_fifo_wrapping :
    ∃ calls w, cqRun [.kernel [.answer 0 5, .answer 0 6], .getCqe {}, .getCqe {}, .getCqe {}]
        { initialWorld smallConfig smallSetup false false [] with
          inflight := [{ sqe := { userData := 8 } }, { sqe := { userData := 9 } }]
          iou := { iouCreate smallConfig smallSetup false with
            cqRing :=
              { head := 0xffffffff
                tail := 0xffffffff
                ringMask := 7
                cqes := fun _ => {} } } } = .ok (calls, w) ∧
      Fifo.Run (2 ^ 3) w.posted ⟨calls.filterMap Reaping.result, w.iou.unreaped⟩ ∧
      w.posted = calls.filterMap Reaping.result ++ w.iou.unreaped ∧
      ∀ r ∈ calls, r.Correct :=
  cq_refines_fifo (by decide) rfl rfl rfl _

end Refinement

end EchoServers.UringCompletions
