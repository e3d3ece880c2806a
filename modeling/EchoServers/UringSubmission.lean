import EchoServers.UringKernelSteps

namespace EchoServers.UringSubmission

open EchoServers.RingCounters
open EchoServers.SocketKernel
open EchoServers.StateTriples
open EchoServers.UringKernelSteps
open EchoServers.UringMemory
open EchoServers.UringQueues
open EchoServers.UringServer
open EchoServers.Utils

/-- An assertion about the queues, in a state whose rings are in order. -/
def On (I : View → Prop) (w : World) : Prop :=
  WellFormed w.iou ∧ I (view w)

/-- An assertion that no step of the kernel invalidates. -/
def Stable (I : View → Prop) : Prop :=
  ∀ ⦃v v' : View⦄, KernelStep v v' → I v → I v'

section Interference

variable {I : View → Prop}

theorem on_steps (hI : Stable I) {w w' : World} (hsteps : Steps w w') (h : On I w) :
    On I w' := by
  refine ⟨hsteps.1.wellFormed h.1, ?_⟩
  rcases hsteps.2 with heq | hstep
  · rw [heq]
    exact h.2
  · exact hI hstep h.2

theorem on_act (hI : Stable I) {w : World} (h : On I w) (a : KernelAct) :
    On I (w.act a) :=
  on_steps hI (steps_act h.1 a) h

/-- A property of worlds that the acts of the kernel keep survives its turn. -/
theorem foldl_act {P : World → Prop} (hact : ∀ w a, P w → P (w.act a))
    (acts : List KernelAct) {w : World} (h : P w) : P (acts.foldl World.act w) := by
  induction acts generalizing w with
  | nil => exact h
  | cons a acts ih => exact ih (hact w a h)

theorem triple_yield_of {P : World → Prop} (hact : ∀ w a, P w → P (w.act a))
    (hsched : ∀ w sched, P w → P { w with sched := sched }) :
    Triple P yield fun _ => P := by
  refine Triple.modifyGet fun w h => ?_
  cases hs : w.sched with
  | nil => exact h
  | cons t ts => exact foldl_act hact t.acts (hsched w ts h)

theorem triple_yield (hI : Stable I) : Triple (On I) yield fun _ => On I :=
  triple_yield_of (fun _ a h => on_act hI h a) fun _ _ h => h

/-- The kernel's turn when the server also knows something about the memory of
the rings. -/
theorem triple_yield_and (hI : Stable I) {K : Iou → Prop}
    (hK : ∀ iou iou', WellFormed iou → RingStep iou iou' → K iou → K iou') :
    Triple (fun w => On I w ∧ K w.iou) yield fun _ w => On I w ∧ K w.iou :=
  triple_yield_of
    (fun _ a h => ⟨on_act hI h.1 a, hK _ _ h.1.1 (steps_act h.1.1 a).1 h.2⟩)
    fun _ _ h => h

end Interference

section Acquisition

/-- The server holds the slot behind the published ones; `slot` is what it has
written there. -/
structure Acquired (tail index : UInt32) (slot : Sqe) (iou : Iou) : Prop where
  tail_eq : iou.sqRing.tail = tail
  index_eq : index = tail &&& iou.sqRing.ringMask
  room : distance iou.sqRing.head tail < iou.ringSize.toNat
  slot_eq : iou.sqes index = slot

variable {tail index : UInt32} {slot : Sqe} {iou iou' : Iou}

theorem Acquired.ringStep (h : Acquired tail index slot iou) (hstep : RingStep iou iou') :
    Acquired tail index slot iou' := by
  cases hstep with
  | same => exact h
  | flags f => exact ⟨h.1, h.2, h.3, h.4⟩
  | post c hroom => exact ⟨h.1, h.2, h.3, h.4⟩
  | consume hne =>
      refine ⟨h.1, h.2, ?_, h.4⟩
      have hdist := distance_head_succ hne
      have hroom := h.room
      rw [h.tail_eq] at hdist
      dsimp only
      omega

/-- The acquired slot is none of the published ones. -/
theorem Acquired.ne_index (h : Acquired tail index slot iou) (hwf : WellFormed iou)
    {c : UInt32} (hc : c ∈ window iou.sqRing.head
      (distance iou.sqRing.head iou.sqRing.tail)) :
    c &&& iou.sqRing.ringMask ≠ index := by
  obtain ⟨k, hmask, hsize⟩ := hwf.sqMask
  have hroom := h.room
  rw [h.tail_eq] at hc
  have hne := slot_ne_of_mem_window hmask (by omega) hc
  rwa [head_add_distance, ← h.index_eq] at hne

theorem Acquired.pending_writeSqe (h : Acquired tail index slot iou)
    (hwf : WellFormed iou) (s : Sqe) :
    Iou.pending { iou with sqes := Function.update iou.sqes index s } = iou.pending := by
  refine entries_congr fun c hc => ?_
  have hne := h.ne_index hwf hc
  simp only [Iou.sqeAt]
  rw [hwf.identity c hc, Function.update_of_ne hne]

theorem Acquired.writeSqe (h : Acquired tail index slot iou) (s : Sqe) :
    Acquired tail index s { iou with sqes := Function.update iou.sqes index s } :=
  ⟨h.1, h.2, h.3, by simp⟩

theorem Acquired.pending_writeArray (h : Acquired tail index slot iou)
    (hwf : WellFormed iou) :
    Iou.pending { iou with
      sqRing := { iou.sqRing with
        array := Function.update iou.sqRing.array index index } } = iou.pending := by
  refine entries_congr fun c hc => ?_
  simp only [Iou.sqeAt]
  rw [Function.update_of_ne (h.ne_index hwf hc)]

theorem Acquired.wellFormed_writeArray (h : Acquired tail index slot iou)
    (hwf : WellFormed iou) :
    WellFormed { iou with
      sqRing := { iou.sqRing with
        array := Function.update iou.sqRing.array index index } } := by
  refine ⟨hwf.sqMask, hwf.sqBound, fun c hc => ?_, hwf.cqMask, hwf.cqBound⟩
  dsimp only
  rw [Function.update_of_ne (h.ne_index hwf hc)]
  exact hwf.identity c hc

/-- Storing the new tail publishes the acquired slot behind the others. -/
theorem Acquired.publish (h : Acquired tail index slot iou) (hwf : WellFormed iou)
    (harray : iou.sqRing.array index = index) :
    WellFormed { iou with sqRing := { iou.sqRing with tail := tail + 1 } } ∧
      Iou.pending { iou with sqRing := { iou.sqRing with tail := tail + 1 } } =
        iou.pending ++ [slot] := by
  have htail := h.tail_eq
  subst htail
  have hsize := UInt32.toNat_lt iou.ringSize
  have hroom := h.room
  have hdist : distance iou.sqRing.head (iou.sqRing.tail + 1) =
      distance iou.sqRing.head iou.sqRing.tail + 1 := distance_tail_succ (by omega)
  constructor
  · refine ⟨hwf.sqMask, by dsimp only; omega, fun c hc => ?_, hwf.cqMask, hwf.cqBound⟩
    dsimp only at hc ⊢
    rw [hdist, window_succ_last, head_add_distance, List.mem_append,
      List.mem_singleton] at hc
    rcases hc with hc | rfl
    · exact hwf.identity c hc
    · rw [← h.index_eq, harray]
  · rw [Iou.pending, entries_push (by dsimp only; omega)]
    congr 1
    simp only [Iou.sqeAt]
    rw [← h.index_eq, harray, h.slot_eq]

end Acquisition

section Submission

variable {I J : View → Prop} {p : Ptr}

/-- Writing the acquired slot is invisible in the queues. -/
theorem triple_modifySqe {tail index : UInt32} {s : Sqe} (f : Sqe → Sqe) :
    Triple (fun w => On I w ∧ Acquired tail index s w.iou) (modifySqe index f)
      fun _ w => On I w ∧ Acquired tail index (f s) w.iou := by
  refine Triple.modify fun w hw => ?_
  obtain ⟨⟨hwf, hI⟩, hacq⟩ := hw
  have hslot := hacq.slot_eq
  subst hslot
  refine ⟨⟨⟨hwf.1, hwf.2, hwf.3, hwf.4, hwf.5⟩, ?_⟩, hacq.writeSqe _⟩
  simp only [view, hacq.pending_writeSqe hwf]
  exact hI

theorem triple_iouAcquireSqe (hI : Stable I) :
    Triple (On I) iouAcquireSqe fun a w => On I w ∧
      match a.sqe with
      | none => (view w).ringSize.toNat ≤ (view w).pending.length
      | some index => index = a.index ∧ Acquired a.tail a.index {} w.iou := by
  refine Triple.get_bind fun w₀ h₀ => ?_
  refine Triple.bind (Q := fun _ w => On I w ∧
    w.iou.sqRing.tail = w₀.iou.sqRing.tail) ?_ fun _ => ?_
  · refine (triple_yield_and hI (K := fun iou =>
      iou.sqRing.tail = w₀.iou.sqRing.tail) ?_).pre ?_
    · rintro iou iou' - (_ | _ | _ | _) h <;> exact h
    · rintro w rfl
      exact ⟨h₀, rfl⟩
  refine Triple.get_bind fun w h => ?_
  obtain ⟨hon, htail⟩ := h
  refine Triple.ite (fun hfull => ?_) fun hroom => ?_
  · refine Triple.pure _ ?_
    rintro w rfl
    refine ⟨hon, ?_⟩
    rw [← htail, ge_iff_le, UInt32.le_iff_toNat_le] at hfull
    simpa [view, Iou.pending, entries_length, distance] using hfull
  · refine Triple.bind (Q := fun _ w' => On I w' ∧ ∃ slot, Acquired w₀.iou.sqRing.tail
      (w₀.iou.sqRing.tail &&& w.iou.sqRing.ringMask) slot w'.iou) ?_ fun _ => ?_
    · refine (triple_yield_and hI (K := fun iou => ∃ slot, Acquired w₀.iou.sqRing.tail
        (w₀.iou.sqRing.tail &&& w.iou.sqRing.ringMask) slot iou) ?_).pre ?_
      · rintro iou iou' - hstep ⟨slot, h⟩
        exact ⟨slot, h.ringStep hstep⟩
      · rintro w' rfl
        refine ⟨hon, _, htail, rfl, ?_, rfl⟩
        rw [ge_iff_le, UInt32.le_iff_toNat_le, not_le] at hroom
        exact hroom
    · refine Triple.of_pre fun w₁ h₁ => ?_
      obtain ⟨hon₁, slot, hacq⟩ := h₁
      refine Triple.bind ((triple_modifySqe (I := I) (s := slot) fun _ => {}).pre ?_)
        fun _ => Triple.pure _ fun w' h' => ⟨h'.1, rfl, h'.2⟩
      rintro w' rfl
      exact ⟨hon₁, hacq⟩

theorem triple_iouSubmitSqe (hI : Stable I) {a : IouAcquiredSqeData} {slot : Sqe}
    (hpublish : ∀ v, I v → v.pending.length < v.ringSize.toNat →
      J { v with pending := v.pending ++ [slot] }) :
    Triple (fun w => On I w ∧ Acquired a.tail a.index slot w.iou) (iouSubmitSqe a)
      fun _ => On J := by
  refine Triple.bind (triple_yield_and hI fun _ _ _ hstep h => h.ringStep hstep)
    fun _ => ?_
  refine Triple.bind (Q := fun _ w => On I w ∧ Acquired a.tail a.index slot w.iou ∧
    w.iou.sqRing.array a.index = a.index) ?_ fun _ => ?_
  · refine Triple.modify fun w hw => ?_
    obtain ⟨⟨hwf, hv⟩, hacq⟩ := hw
    refine ⟨⟨hacq.wellFormed_writeArray hwf, ?_⟩, ⟨hacq.1, hacq.2, hacq.3, hacq.4⟩,
      by simp⟩
    simp only [view, hacq.pending_writeArray hwf]
    exact hv
  refine Triple.bind (triple_yield_and hI (K := fun iou =>
    Acquired a.tail a.index slot iou ∧ iou.sqRing.array a.index = a.index) ?_)
    fun _ => ?_
  · rintro iou iou' - hstep ⟨hacq, harray⟩
    refine ⟨hacq.ringStep hstep, ?_⟩
    cases hstep <;> exact harray
  · refine Triple.modify fun w hw => ?_
    obtain ⟨⟨hwf, hv⟩, hacq, harray⟩ := hw
    obtain ⟨hwf', hpending⟩ := hacq.publish hwf harray
    refine ⟨hwf', ?_⟩
    have hroom := hacq.room
    rw [← hacq.tail_eq] at hroom
    simp only [view, hpending]
    refine hpublish _ hv ?_
    simpa [view, Iou.pending, entries_length] using hroom

theorem triple_readOp {K : World → Prop} {Q : IouOp → World → Prop}
    (h : ∀ w, K w → ∃ o, w.ops p = some o ∧ Q o w) :
    Triple K (readOp p) Q := by
  refine Triple.get_bind fun w hw => ?_
  obtain ⟨o, hop, hQ⟩ := h w hw
  rw [hop]
  exact Triple.pure _ fun _ hw' => hw' ▸ hQ

/-- The one specification of `iou_config_and_submit`.  While it runs the kernel
may take any steps; a call that returns 0 appends one SQE, made from the op
alone, to the published ones, and any other call leaves them as they are.  The
SQE is described by `C`. -/
theorem triple_iouConfigAndSubmit {C : Sqe → Prop} (hI : Stable I)
    (hlive : ∀ v, I v → ∃ o, v.ops p = some o)
    (hsqe : ∀ v o prep, I v → v.ops p = some o → iouPrepSqe p o = some prep →
      C (prep { userData := p }))
    (hpublish : ∀ v s, I v → v.pending.length < v.ringSize.toNat → C s →
      J { v with pending := v.pending ++ [s] }) :
    Triple (On I) (iouConfigAndSubmit p) fun rc w =>
      (rc = 0 ∧ On J w) ∨
      (rc = -ebusy ∧ On I w ∧ (view w).ringSize.toNat ≤ (view w).pending.length) ∨
      (rc = -einval ∧ On I w ∧ ∃ o, w.ops p = some o ∧ iouPrepSqe p o = none) := by
  refine Triple.bind (triple_iouAcquireSqe hI) fun a => ?_
  obtain ⟨sqe, tail, index⟩ := a
  cases sqe with
  | none => exact Triple.pure _ fun w h => .inr (.inl ⟨rfl, h.1, h.2⟩)
  | some sqe =>
      refine Triple.of_pre fun w₀ h₀ => ?_
      obtain ⟨hon₀, rfl, hacq₀⟩ := h₀
      refine Triple.bind (Q := fun _ w => On I w ∧ Acquired tail sqe {} w.iou) ?_
        fun _ => ?_
      · refine (triple_yield_and hI fun _ _ _ hstep h => h.ringStep hstep).pre ?_
        rintro w rfl
        exact ⟨hon₀, hacq₀⟩
      refine Triple.bind (triple_modifySqe _) fun _ => ?_
      refine Triple.bind (triple_yield_and hI fun _ _ _ hstep h => h.ringStep hstep)
        fun _ => ?_
      refine Triple.bind (Q := fun o w => w.ops p = some o ∧ On I w ∧
        Acquired tail sqe { userData := p } w.iou) ?_ fun o => ?_
      · refine triple_readOp fun w h => ?_
        obtain ⟨o, ho⟩ := hlive _ h.1.2
        exact ⟨o, ho, ho, h⟩
      cases hprep : iouPrepSqe p o with
      | none =>
          exact Triple.pure _ fun w h => .inr (.inr ⟨rfl, h.2.1, o, h.1, hprep⟩)
      | some prep =>
          refine Triple.of_pre fun w₁ h₁ => ?_
          obtain ⟨hop, hon₁, hacq₁⟩ := h₁
          have hC : C (prep { userData := p }) := hsqe _ o prep hon₁.2 hop hprep
          refine Triple.bind (Q := fun _ w => On I w ∧
            Acquired tail sqe (prep { userData := p }) w.iou) ?_ fun _ => ?_
          · refine (triple_modifySqe prep).pre ?_
            rintro w rfl
            exact ⟨hon₁, hacq₁⟩
          exact Triple.bind (triple_iouSubmitSqe (a := ⟨some sqe, tail, sqe⟩) hI
            fun v hv hroom => hpublish v _ hv hroom hC)
            fun _ => Triple.pure _ fun w h => .inl ⟨rfl, h⟩

end Submission

section Completion

variable {I : View → Prop} {J : Cqe → View → Prop}

/-- The kernel only appends to the unreaped CQEs; the head is the server's. -/
theorem unreaped_ringStep {iou iou' : Iou} (hwf : WellFormed iou)
    (hstep : RingStep iou iou') :
    iou'.cqRing.head = iou.cqRing.head ∧ iou.unreaped <+: iou'.unreaped := by
  cases hstep with
  | same => exact ⟨rfl, List.prefix_refl _⟩
  | flags f => exact ⟨rfl, List.prefix_refl _⟩
  | post c hroom => exact ⟨rfl, by rw [unreaped_post hwf hroom]; exact List.prefix_append _ _⟩
  | consume hne => exact ⟨rfl, List.prefix_refl _⟩

/-- Storing the new head releases the oldest unreaped CQE. -/
theorem unreaped_release {iou : Iou} {c : Cqe} {rest : List Cqe} (hwf : WellFormed iou)
    (hunreaped : iou.unreaped = c :: rest) :
    WellFormed { iou with cqRing := { iou.cqRing with head := iou.cqRing.head + 1 } } ∧
      Iou.unreaped { iou with
        cqRing := { iou.cqRing with head := iou.cqRing.head + 1 } } = rest := by
  have hne : iou.cqRing.head ≠ iou.cqRing.tail := by
    intro heq
    rw [Iou.unreaped, entries_eq_nil_iff.mpr heq] at hunreaped
    cases hunreaped
  have hdist := distance_head_succ hne
  have hbound := hwf.cqBound
  refine ⟨⟨hwf.sqMask, hwf.sqBound, hwf.identity, hwf.cqMask, by dsimp only; omega⟩, ?_⟩
  rw [Iou.unreaped, entries_pop hne] at hunreaped
  exact (List.cons.inj hunreaped).2

/-- The one specification of `iou_get_cqe`: it returns the oldest unreaped CQE
as it was posted, or finds none. -/
theorem triple_iouGetCqe (hI : Stable I)
    (hreap : ∀ v c rest, I v → v.unreaped = c :: rest → J c { v with unreaped := rest }) :
    Triple (On I) iouGetCqe fun r w =>
      match r with
      | none => On I w ∧ (view w).unreaped = []
      | some c => On (J c) w := by
  refine Triple.get_bind fun w₀ h₀ => ?_
  refine Triple.bind (Q := fun _ w => On I w ∧
    w.iou.cqRing.head = w₀.iou.cqRing.head) ?_ fun _ => ?_
  · refine (triple_yield_and hI (K := fun iou =>
      iou.cqRing.head = w₀.iou.cqRing.head) ?_).pre ?_
    · intro iou iou' hwf hstep h
      exact (unreaped_ringStep hwf hstep).1.trans h
    · rintro w rfl
      exact ⟨h₀, rfl⟩
  refine Triple.get_bind fun w h => ?_
  obtain ⟨hon, hhead⟩ := h
  refine Triple.ite (fun hempty => ?_) fun hne => ?_
  · refine Triple.pure _ ?_
    rintro w rfl
    exact ⟨hon, entries_eq_nil_iff.mpr (hhead.trans hempty)⟩
  · have hcons : w.iou.unreaped ≠ [] := by
      intro hnil
      exact hne (hhead.symm.trans (entries_eq_nil_iff.mp hnil))
    refine Triple.bind (Q := fun _ w' => On I w' ∧
      w'.iou.cqRing.head = w₀.iou.cqRing.head ∧ w'.iou.unreaped ≠ []) ?_ fun _ => ?_
    · refine (triple_yield_and hI (K := fun iou =>
        iou.cqRing.head = w₀.iou.cqRing.head ∧ iou.unreaped ≠ []) ?_).pre ?_
      · rintro iou iou' hwf hstep ⟨h, hnil⟩
        obtain ⟨hhead', hpre⟩ := unreaped_ringStep hwf hstep
        exact ⟨hhead'.trans h, fun hnil' => hnil (List.prefix_nil.mp (hnil' ▸ hpre))⟩
      · rintro w' rfl
        exact ⟨hon, hhead, hcons⟩
    refine Triple.get_bind fun w₁ h₁ => ?_
    obtain ⟨hon₁, hhead₁, hcons₁⟩ := h₁
    have hne₁ : w₁.iou.cqRing.head ≠ w₁.iou.cqRing.tail :=
      fun heq => hcons₁ (entries_eq_nil_iff.mpr heq)
    have hfirst₁ : w₁.iou.unreaped.head? = some (w₁.iou.cqeAt w₀.iou.cqRing.head) := by
      rw [← hhead₁, Iou.unreaped, entries_pop hne₁]
      rfl
    apply Triple.modify_bind
    refine Triple.bind (Q := fun _ w' => On I w' ∧
      w'.iou.cqRing.head = w₀.iou.cqRing.head ∧
        w'.iou.unreaped.head? = some (w₁.iou.cqeAt w₀.iou.cqRing.head)) ?_ fun _ => ?_
    · refine (triple_yield_and hI (K := fun iou =>
        iou.cqRing.head = w₀.iou.cqRing.head ∧
          iou.unreaped.head? = some (w₁.iou.cqeAt w₀.iou.cqRing.head)) ?_).pre ?_
      · rintro iou iou' hwf hstep ⟨h, hfirst⟩
        obtain ⟨hhead', posted, hposted⟩ := unreaped_ringStep hwf hstep
        refine ⟨hhead'.trans h, ?_⟩
        rw [← hposted, List.head?_append, hfirst]
        rfl
      · rintro w' rfl
        exact ⟨hon₁, hhead₁, hfirst₁⟩
    refine Triple.bind (Triple.modify fun w' hw => ?_)
      fun _ => Triple.pure _ fun _ h => h
    obtain ⟨⟨hwf, hv⟩, hhead', hfirst⟩ := hw
    obtain ⟨rest, hrest⟩ := List.head?_eq_some_iff.mp hfirst
    obtain ⟨hwf', hrelease⟩ := unreaped_release hwf hrest
    rw [hhead'] at hwf' hrelease
    refine ⟨hwf', ?_⟩
    simp only [view, hrelease]
    exact hreap _ _ _ hv hrest

end Completion

section Enter

variable {I : View → Prop}

theorem on_consumeMany (hI : Stable I) {w : World} (h : On I w) (k : Nat) :
    On I (consumeMany w k) := by
  induction k with
  | zero => exact h
  | succ k ih => exact on_steps hI (steps_consume _) ih

theorem triple_ioUringEnter (hI : Stable I) (toSubmit : UInt32) :
    Triple (On I) (ioUringEnter toSubmit) fun _ => On I := by
  refine Triple.bind (triple_yield hI) fun t => ?_
  refine Triple.get_bind fun w h => ?_
  refine Triple.bind (Q := fun _ => On I) ?_ fun _ => ?_
  · refine Triple.modify ?_
    rintro w' rfl
    refine foldl_act (P := On I) (fun _ a h => on_act hI h a) _ (on_consumeMany hI ?_ _)
    exact h
  · cases t.enter <;> exact Triple.pure _ fun _ h => h

theorem triple_ioUringWakeup (hI : Stable I) :
    Triple (On I) ioUringWakeup fun _ => On I := by
  refine Triple.bind (triple_yield hI) fun t => ?_
  cases t.enter <;> exact Triple.pure _ fun _ h => h

theorem triple_iouEnterOrWake (hI : Stable I) (toSubmit : UInt32) :
    Triple (On I) (iouEnterOrWake toSubmit) fun _ => On I := by
  refine Triple.get_bind fun w h => ?_
  refine Triple.ite (fun _ => ?_) fun _ => ?_
  · refine Triple.bind ((triple_ioUringEnter hI toSubmit).pre ?_) fun _ =>
      triple_ioUringAssert.post fun _ _ h => h.1
    rintro w' rfl
    exact h
  · refine Triple.bind ((triple_yield hI).pre ?_) fun _ => Triple.get_bind fun w' h' => ?_
    · rintro w' rfl
      exact h
    refine Triple.ite (fun _ => ?_) fun _ => Triple.pure _ fun _ h => h ▸ h'
    refine Triple.bind ((triple_ioUringWakeup hI).pre ?_) fun _ =>
      triple_ioUringAssert.post fun _ _ h => h.1
    rintro w'' rfl
    exact h'

end Enter

end EchoServers.UringSubmission
