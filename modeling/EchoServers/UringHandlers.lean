import EchoServers.UringClients
import EchoServers.UringTracker

namespace EchoServers.UringHandlers

open EchoServers.LinkedChains
open EchoServers.ServerBenchmark
open EchoServers.SocketKernel
open EchoServers.StateTriples
open EchoServers.UringClients
open EchoServers.UringInvariant
open EchoServers.UringKernelSteps
open EchoServers.UringMemory
open EchoServers.UringOwnership
open EchoServers.UringQueues
open EchoServers.UringReferences
open EchoServers.UringServer
open EchoServers.UringStreams
open EchoServers.UringSubmission
open EchoServers.UringTracker
open EchoServers.Utils

section Riders

/-- Nothing but the memory of the server differs. -/
structure SameTraffic (v v' : View) : Prop where
  kernel : v'.kernel = v.kernel
  pending : v'.pending = v.pending
  inflight : v'.inflight = v.inflight
  unreaped : v'.unreaped = v.unreaped
  handled : v'.handled = v.handled
  faithful : v'.faithful = v.faithful

theorem sameTraffic_withOp {v : View} (p : Ptr) (o : Option IouOp) :
    SameTraffic v (v.withOp p o) := by
  constructor <;> rfl

/-- A law that rides along with the invariant.  The server is at work on the CQEs in
`now` and done with those in `cur`; when `L` holds of a descriptor, the server may
submit a request to close it. -/
structure Rides (cfg : Config) (J : List Cqe → List Cqe → View → Prop) (L : Fd → View → Prop) :
    Prop where
  same : ∀ {cur now v v'}, SameTraffic v v' → J cur now v → J cur now v'
  sameClosing : ∀ {fd v v'}, SameTraffic v v' → L fd v → L fd v'
  step : ∀ {held cur spare v v'}, Inv cfg held cur spare v → KernelStep v v' →
    J cur cur v → J cur cur v'
  stepClosing : ∀ {held cur spare fd v v'}, Inv cfg held cur spare v → fd ∈ claims held →
    KernelStep v v' → L fd v → L fd v'
  publish : ∀ {cur v s}, J cur cur v → (s.opcode = .close → L s.fd v) →
    J cur cur { v with pending := v.pending ++ [s] }
  reap : ∀ {v q rest}, J [] [] v → v.unreaped = q :: rest →
    J [] [q] { v with unreaped := rest }
  count : ∀ {q o v}, Reaped cfg q o v →
    (q.request.sqe.opcode = .send → (cfg.defaultBufferSize.toNat : Int) ≤ q.res) →
    J [] [q] v → J [q] [q] v
  ended : ∀ {q o v}, Reaped cfg q o v → q.request.sqe.opcode = .recv →
    o.infoCon.buf.length = cfg.defaultServerBufferSize → 0 ≤ q.res →
    UInt32.ofNat q.res.toNat = 0 → J [] [q] v → L q.request.sqe.fd v
  finish : ∀ {q v}, J [q] [q] v → J [] [] { v with handled := v.handled ++ [q] }

variable {cfg : Config} {J : List Cqe → List Cqe → View → Prop} {L : Fd → View → Prop}

theorem rides_trivial : Rides cfg (fun _ _ _ => True) fun _ _ => True := by
  constructor <;> intros <;> trivial

theorem Rides.stable (hrides : Rides cfg J L) {K : View → Prop} {cur : List Cqe}
    (hstable : Stable K) (hK : ∀ v, K v → ∃ held spare, Inv cfg held cur spare v) :
    Stable fun v => K v ∧ J cur cur v := by
  rintro v v' hstep ⟨hv, hJ⟩
  obtain ⟨held, spare, hinv⟩ := hK v hv
  exact ⟨hstable hstep hv, hrides.step hinv hstep hJ⟩

end Riders

section Rules

variable {cfg : Config} {held : List Reference} {cur now : List Cqe} {r : Reference}
  {c : Cqe} {o : IouOp} {I : View → Prop} {p : Ptr} {α : Type} {R : α → World → Prop}
  {J : List Cqe → List Cqe → View → Prop} {L : Fd → View → Prop}

theorem triple_fix {w : World} {x : Program World α} (hwf : WellFormed w.iou)
    (h : Triple (On fun v => v = view w) x R) : Triple (fun w' => w' = w) x R := by
  refine h.pre ?_
  rintro w' rfl
  exact ⟨hwf, rfl⟩

theorem triple_modifyBench (f : ServerBench → ServerBench) :
    Triple (On I) (modifyBench f) fun _ => On I :=
  Triple.modify fun _ h => h

theorem triple_nowMonotonic (hI : Stable I) : Triple (On I) nowMonotonic fun _ => On I :=
  Triple.bind (triple_yield hI) fun _ => Triple.pure _ fun _ h => h

theorem triple_modifyOp_of {J : View → Prop} (f : IouOp → IouOp)
    (h : ∀ v, I v → ∃ o, v.ops p = some o ∧ J (v.withOp p (some (f o)))) :
    Triple (On I) (modifyOp p f) fun _ => On J := by
  refine Triple.of_pre fun w hw => ?_
  obtain ⟨o, ho, hJ⟩ := h _ hw.2
  refine ((triple_modifyOp f ho).pre ?_).post fun _ w' hw' => ⟨hw'.1, hw'.2 ▸ hJ⟩
  rintro w' rfl
  exact ⟨hw.1, rfl⟩

/-- A change of the op the server works on. -/
theorem triple_modifyWorking (hrides : Rides cfg J L) (hp : r.op = p) (f : IouOp → IouOp)
    (htracker : (f o).memTracker = o.memTracker)
    (hbuf : (f o).infoCon.buf = o.infoCon.buf) :
    Triple (On fun v => Working cfg r cur o v ∧ J cur now v) (modifyOp p f) fun _ =>
      On fun v => Working cfg r cur (f o) v ∧ J cur now v := by
  subst hp
  refine triple_modifyOp_of f fun v h => ⟨o, h.1.2, h.1.withOp htracker hbuf, ?_⟩
  exact hrides.same (sameTraffic_withOp _ _) h.2

theorem triple_readWorking (hp : r.op = p) :
    Triple (On fun v => Working cfg r cur o v ∧ J cur now v) (readOp p) fun _ =>
      On fun v => Working cfg r cur o v ∧ J cur now v := by
  subst hp
  exact triple_readOp fun w h => ⟨o, h.2.1.2, h⟩

theorem triple_modifyReaped (hrides : Rides cfg J L) (hp : c.request.sqe.userData = p)
    (f : IouOp → IouOp) (htracker : (f o).memTracker = o.memTracker)
    (hbuf : (f o).infoCon.buf = o.infoCon.buf) :
    Triple (On fun v => Reaped cfg c o v ∧ J cur now v) (modifyOp p f) fun _ =>
      On fun v => Reaped cfg c (f o) v ∧ J cur now v := by
  subst hp
  refine triple_modifyOp_of f fun v h => ⟨o, h.1.1.2, h.1.withOp htracker hbuf, ?_⟩
  exact hrides.same (sameTraffic_withOp _ _) h.2

/-- Submitting a held op; the server goes on only if that worked. -/
theorem triple_submit_of {l : List Reference} {Q : Reference → Option IouOp → Prop}
    (hrides : Rides cfg J L) (hp : r.op = p) (hres : r.res = none)
    (hQ : ∀ o, Q r o → Fits cfg r.sqe o) (text : String) {next : Program World α}
    (hnext : Triple (On fun v =>
      (Inv cfg l cur [] v ∧ ∀ r' ∈ l, Q r' (v.ops r'.op)) ∧ J cur cur v) next R) :
    Triple (On fun v =>
      (Inv cfg (r :: l) cur [] v ∧ ∀ r' ∈ r :: l, Q r' (v.ops r'.op)) ∧
        J cur cur v ∧ (r.sqe.opcode = .close → L r.sqe.fd v))
      (iouConfigAndSubmit p >>= fun rc => ioUringAssertZero rc text >>= fun _ => next) R := by
  subst hp
  refine Triple.bind (triple_iouConfigAndSubmit (C := fun s => s = r.sqe)
    (J := fun v => (Inv cfg l cur [] v ∧ ∀ r' ∈ l, Q r' (v.ops r'.op)) ∧ J cur cur v)
    (fun v v' hstep h => ?_) (fun v h => ?_) (fun v o prep h ho hprep => ?_)
    fun v s h _ hs => ?_) fun rc => Triple.bind triple_ioUringAssertZero fun _ =>
      hnext.pre fun w h => ?_
  · obtain ⟨hinv, hJ, hL⟩ := h
    refine ⟨stable_inv_and Q hstep hinv, hrides.step hinv.1 hstep hJ, fun hclose => ?_⟩
    refine hrides.stepClosing hinv.1 (mem_claims List.mem_cons_self ?_) hstep (hL hclose)
    simp [claim, hclose, hres]
  · obtain ⟨o, ho, -⟩ := hQ _ (h.1.2 r (by simp))
    exact ⟨o, ho⟩
  · have hfits := hQ _ (h.1.2 r (by simp))
    rw [ho] at hfits
    exact (hfits.sqe_eq hprep).symm
  · rw [hs]
    exact ⟨⟨h.1.1.publish hres (hQ _ (h.1.2 r (by simp))),
      fun r' hr' => h.1.2 r' (by simp [hr'])⟩, hrides.publish h.2.1 h.2.2⟩
  · rcases h with ⟨h | h | h, hrc⟩
    · exact h.2
    · exact absurd (h.1.symm.trans hrc) (by decide)
    · exact absurd (h.1.symm.trans hrc) (by decide)

theorem triple_submit {l : List Reference} (hrides : Rides cfg J L) (hp : r.op = p)
    (hres : r.res = none) (text : String) {next : Program World α}
    (hnext : Triple (On fun v => Ready cfg l cur v ∧ J cur cur v) next R) :
    Triple (On fun v => Ready cfg (r :: l) cur v ∧ J cur cur v ∧
      (r.sqe.opcode = .close → L r.sqe.fd v))
      (iouConfigAndSubmit p >>= fun rc => ioUringAssertZero rc text >>= fun _ => next) R :=
  triple_submit_of (Q := fun r o => Fits cfg r.sqe o) hrides hp hres (fun _ h => h) text hnext

/-- Every op but the two on the stack is that of a client. -/
theorem inv_client {spare : List Ptr} {v : View} (h : Inv cfg held cur spare v)
    (hp : p ≠ acceptReq ∧ p ≠ timerReq) (ho : v.ops p = some o) :
    o.infoCon.buf.length = cfg.defaultServerBufferSize := by
  obtain ⟨xs, hown, -⟩ := h
  obtain ⟨x, hx, rfl⟩ : ∃ x ∈ xs, x.2 = p := by
    simpa [hp.1, hp.2] using (hown.opsLive p).mp (by rw [ho]; rfl)
  obtain ⟨o', ho', -, hbuf⟩ := (hown.clients x hx).op
  cases ho.symm.trans ho'
  exact hbuf

end Rules

section Transfers

variable {cfg : Config} {c : Cqe} {o : IouOp} {p : Ptr} {J : List Cqe → List Cqe → View → Prop}
  {L : Fd → View → Prop}

/-- A client op whose request the kernel has completed. -/
structure ClientCqe (cfg : Config) (c : Cqe) (o : IouOp) (p : Ptr) : Prop where
  op : c.request.sqe.userData = p
  user : c.userData = p
  ne : p ≠ acceptReq ∧ p ≠ timerReq
  fd : o.infoCon.fd = c.request.sqe.fd
  buf : o.infoCon.buf.length = cfg.defaultServerBufferSize

theorem triple_handleCqeSend (hrides : Rides cfg J L) (hc : ClientCqe cfg c o p)
    (hkind : c.request.sqe.opcode = .send) :
    Triple (On fun v => Reaped cfg c o v ∧ J [] [c] v) (handleCqeSend cfg p c.res) fun _ =>
      On fun v => Inv cfg [] [c] [] v ∧ J [c] [c] v := by
  have hop := hc.op
  subst hop
  refine Triple.bind (triple_modifyReaped hrides rfl _ rfl rfl) fun _ => ?_
  refine Triple.bind triple_ioUringAssertNonn fun _ => ?_
  refine Triple.ite (fun _ => triple_exitFailure _) fun hlen => ?_
  have hres : (cfg.defaultBufferSize.toNat : Int) ≤ c.res.toNat := by
    rw [UInt32.lt_iff_toNat_lt, UInt32.toNat_ofNat'] at hlen
    omega
  have hstable : Stable fun v => Working cfg ⟨recvSqe cfg c.request.sqe.userData
      c.request.sqe.fd, none⟩ [c] { o with infoCon := { o.infoCon with busy := 0 } } v ∧
        J [c] [c] v := hrides.stable stable_working fun v h => ⟨_, _, h.1⟩
  refine Triple.pre (P := On fun v => Working cfg ⟨recvSqe cfg c.request.sqe.userData
    c.request.sqe.fd, none⟩ [c] { o with infoCon := { o.infoCon with busy := 0 } } v ∧
      J [c] [c] v) ?_ fun w h => ⟨h.1.1, working_recv h.1.2.1 (hc.user ▸ hc.ne.2) hkind (by omega),
        hrides.count h.1.2.1 (fun _ => by omega) h.1.2.2⟩
  refine Triple.bind (Q := fun _ => On fun v => Working cfg ⟨recvSqe cfg c.request.sqe.userData
    c.request.sqe.fd, none⟩ [c] { o with infoCon := { o.infoCon with busy := 0 } } v ∧
      J [c] [c] v) ?_ fun _ => ?_
  · refine triple_whenTrue (fun _ => ?_) fun w h _ => h
    refine Triple.bind (triple_nowMonotonic hstable) fun _ => ?_
    refine Triple.bind (triple_readWorking rfl) fun _ => ?_
    exact Triple.bind (triple_nowMonotonic hstable) fun _ => triple_modifyBench _
  refine Triple.bind (triple_modifyWorking hrides rfl _ rfl rfl) fun _ => ?_
  refine Triple.bind (triple_modifyWorking hrides rfl _ rfl rfl) fun _ => ?_
  refine Triple.pre (triple_submit (r := ⟨recvSqe cfg c.request.sqe.userData
    c.request.sqe.fd, none⟩) hrides rfl rfl _ (Triple.pure _ fun w h => ⟨h.1, h.2.1.1, h.2.2⟩))
    fun w h => ⟨h.1, h.2.1.ready ?_, h.2.2, by simp [recvSqe]⟩
  exact fits_recv hc.ne rfl rfl hc.fd hc.buf

theorem triple_prepCloseClientReq (hrides : Rides cfg J L) (hc : ClientCqe cfg c o p)
    (hbusy : o.infoCon.busy = 0) :
    Triple (On fun v => Working cfg ⟨closeSqe p c.request.sqe.fd, none⟩ [c] o v ∧
      J [c] [c] v ∧ L c.request.sqe.fd v) (prepCloseClientReq p) fun _ =>
        On fun v => Inv cfg [] [c] [] v ∧ J [c] [c] v := by
  refine Triple.bind (Q := fun _ => On fun v => Working cfg ⟨closeSqe p c.request.sqe.fd, none⟩ [c]
    { o with op := .closeConnection } v ∧ J [c] [c] v ∧ L c.request.sqe.fd v)
    (triple_modifyOp_of _ fun v h => ⟨o, h.1.2, h.1.withOp rfl rfl, ?_⟩) fun _ => ?_
  · exact ⟨hrides.same (sameTraffic_withOp _ _) h.2.1,
      hrides.sameClosing (sameTraffic_withOp _ _) h.2.2⟩
  refine Triple.pre (triple_submit (r := ⟨closeSqe p c.request.sqe.fd, none⟩) hrides rfl rfl _
    (Triple.pure _ fun w h => ⟨h.1, h.2.1.1, h.2.2⟩))
    fun w h => ⟨h.1, h.2.1.ready ?_, h.2.2.1, fun _ => h.2.2.2⟩
  refine fits_close hc.ne rfl ?_ hc.fd
  simp [hbusy]

theorem triple_handleCqeRecv (hrides : Rides cfg J L) (hc : ClientCqe cfg c o p)
    (hkind : c.request.sqe.opcode = .recv) :
    Triple (On fun v => Reaped cfg c o v ∧ J [] [c] v) (handleCqeRecv cfg p c.res) fun _ =>
      On fun v => Inv cfg [] [c] [] v ∧ J [c] [c] v := by
  have hop := hc.op
  subst hop
  have hne : c.userData ≠ timerReq := hc.user ▸ hc.ne.2
  have hsend : c.request.sqe.opcode ≠ .send := by simp [hkind]
  refine Triple.bind (triple_modifyReaped hrides rfl _ rfl rfl) fun _ => ?_
  refine Triple.bind triple_ioUringAssertNonn fun _ => ?_
  refine Triple.ite (fun hzero => ?_) fun _ => Triple.ite (fun _ => triple_exitFailure _)
    fun hle => Triple.ite (fun _ => triple_exitFailure _) fun hge => ?_
  · refine Triple.pre (triple_prepCloseClientReq hrides (o := { o with
      infoCon := { o.infoCon with busy := 0 } }) ⟨rfl, hc.user, hc.ne, hc.fd, hc.buf⟩
      rfl) fun w h => ?_
    obtain ⟨⟨hwf, hreaped, hJ⟩, hnonneg⟩ := h
    exact ⟨hwf, working_close hreaped hne hkind hc.buf hnonneg hzero,
      hrides.count hreaped (fun h => absurd h hsend) hJ,
      hrides.ended hreaped hkind hc.buf hnonneg hzero hJ⟩
  have hres : UInt32.ofNat c.res.toNat = cfg.defaultBufferSize := by
    rw [gt_iff_lt, UInt32.lt_iff_toNat_lt] at hle
    rw [UInt32.lt_iff_toNat_lt] at hge
    rw [← UInt32.toNat_inj]
    omega
  refine Triple.pre (P := On fun v => Working cfg ⟨sendSqe cfg c.request.sqe.userData
    c.request.sqe.fd, none⟩ [c] { o with infoCon := { o.infoCon with busy := 0 } } v ∧
      J [c] [c] v) ?_ fun w h => ⟨h.1.1, working_send h.1.2.1 hne hkind hc.buf h.2 hres,
        hrides.count h.1.2.1 (fun h => absurd h hsend) h.1.2.2⟩
  refine Triple.bind (Q := fun _ w => ∃ t, On (fun v => Working cfg ⟨sendSqe cfg
    c.request.sqe.userData c.request.sqe.fd, none⟩ [c] { o with
      infoCon := { o.infoCon with busy := 0, benchStartSend := t } } v ∧ J [c] [c] v) w)
    ?_ fun _ => ?_
  · refine triple_whenTrue (fun _ => ?_) fun w h _ => ⟨_, h⟩
    refine Triple.bind (triple_nowMonotonic
      (hrides.stable stable_working fun v h => ⟨_, _, h.1⟩)) fun now => ?_
    exact Triple.post (triple_modifyWorking hrides rfl _ rfl rfl) fun _ w h => ⟨now, h⟩
  refine Triple.exists_pre fun t => ?_
  refine Triple.bind (triple_modifyWorking hrides rfl _ rfl rfl) fun _ => ?_
  refine Triple.bind (triple_modifyWorking hrides rfl _ rfl rfl) fun _ => ?_
  refine Triple.bind (triple_modifyWorking hrides rfl _ rfl rfl) fun _ => ?_
  refine Triple.pre (triple_submit (r := ⟨sendSqe cfg c.request.sqe.userData
    c.request.sqe.fd, none⟩) hrides rfl rfl _ (Triple.pure _ fun w h => ⟨h.1, h.2.1.1, h.2.2⟩))
    fun w h => ⟨h.1, h.2.1.ready ?_, h.2.2, by simp [sendSqe]⟩
  exact fits_send hc.ne rfl rfl hc.fd hres

end Transfers

section Clients

variable {cfg : Config} {c : Cqe} {o : IouOp} {p : Ptr} {J : List Cqe → List Cqe → View → Prop}
  {L : Fd → View → Prop}

/-- Taking the op off the tracker and freeing both. -/
theorem triple_handleClosingClient {r : Reference} {cur : List Cqe} (hrides : Rides cfg J L)
    (hop : r.op = p) (hp : p ≠ acceptReq ∧ p ≠ timerReq) (hkind : r.sqe.opcode = .close)
    (hres : r.res = some 0) :
    Triple (On fun v => Working cfg r cur o v ∧ J cur cur v) (handleClosingClient p) fun _ =>
      On fun v => Inv cfg [] cur [] v ∧ J cur cur v := by
  subst hop
  refine Triple.of_pre fun w hw => ?_
  obtain ⟨hwf, ⟨⟨xs, hown, hecho⟩, ho⟩, hJ⟩ := hw
  obtain ⟨⟨n, q⟩, hx, rfl⟩ : ∃ x ∈ xs, x.2 = r.op := by
    simpa [hp.1, hp.2] using (hown.opsLive r.op).mp (by rw [ho]; rfl)
  obtain ⟨ys, zs, rfl⟩ := List.append_of_mem hx
  have htracker : o.memTracker = some n := by
    obtain ⟨o', ho', htracker, -⟩ := (hown.clients _ hx).op
    cases ho.symm.trans ho'
    exact htracker
  have hlive : ∀ k ∈ (ys ++ (n, r.op) :: zs).map Prod.fst, ((view w).nodes k).isSome :=
    fun k hk => (hown.nodesLive k).mpr (List.mem_append_left _ hk)
  have hlinked := hown.tracker
  simp only [List.map_append, List.map_cons] at hlinked hlive
  refine triple_fix hwf ?_
  refine Triple.bind (triple_readOp (Q := fun a w' => a = o ∧ On (fun v => v = view w) w')
    fun w' hw' => ⟨o, ?_, rfl, hw'⟩) fun a => ?_
  · exact (congrArg (fun v => v.ops r.op) hw'.2).trans ho
  refine Triple.of_pre fun w₁ hw => ?_
  obtain ⟨ha, hw₁⟩ := hw
  subst ha
  refine Triple.pre ?_ fun w' hw' => hw' ▸ hw₁
  refine Triple.bind (triple_deref htracker) fun k => Triple.of_pre fun w₂ hw => ?_
  obtain ⟨hk, hw₂⟩ := hw
  subst hk
  refine Triple.pre ?_ fun w' hw' => hw' ▸ hw₂
  refine Triple.bind (triple_memTRemoveNode hlinked hlive) fun _ => ?_
  refine Triple.of_pre fun w₃ hw => ?_
  obtain ⟨hwf₃, hrest, hallocated, hlinked₃⟩ := hw
  obtain ⟨m, hm⟩ : ∃ m, (view w₃).nodes k = some m := by
    have hsome := congrArg Option.isSome (hallocated k)
    rw [Option.isSome_map, Option.isSome_map, hlive k (by simp)] at hsome
    exact Option.isSome_iff_exists.mp hsome
  have ho₃ : (view w₃).ops r.op = some a := (congrArg (fun v => v.ops r.op) hrest).trans ho
  refine triple_fix hwf₃ ?_
  refine Triple.bind (triple_freeNode hm) fun _ => ?_
  refine Triple.post (triple_freeOp (by exact ho₃)) fun _ w' h => ⟨h.1, ?_⟩
  rw [h.2]
  have hdrop := inv_dropClient (Function.update (view w₃).nodes k none)
    (view w₃).memAllocsTracker hown hecho (fun j => ?_) ?_
    ((view w).freedOps ++ [r.op]) ((view w).freedNodes ++ [k]) hkind hres
  · rw [hrest]
    exact ⟨hdrop, hrides.same (v := view w) ⟨rfl, rfl, rfl, rfl, rfl, rfl⟩ hJ⟩
  · rcases eq_or_ne j k with rfl | hne
    · simp
    · rw [if_neg hne, Function.update_of_ne hne, hallocated]
  · have hnot : ∀ j ∈ (ys ++ zs).map Prod.fst, j ≠ k := by
      rintro j hj rfl
      have := (List.nodup_cons.mp (List.nodup_middle.mp hlinked.nodup)).1
      rw [List.map_append] at hj
      exact this hj
    rw [← List.map_append] at hlinked₃
    refine hlinked₃.congr (fun j hj => ?_) fun j hj => ?_
    · rw [Function.update_of_ne (hnot j hj)]
      rfl
    · rw [Function.update_of_ne (hnot j hj)]
      rfl

theorem triple_callocNode {I : View → Prop} (hI : Stable I) :
    Triple (On I) callocNode fun n w => n = 0 ∨ On (fun v => ∃ v₀, I v₀ ∧
      v₀.nodes n = none ∧ v = { v₀ with nodes := Function.update v₀.nodes n (some {}) }) w := by
  refine Triple.bind (triple_yield hI) fun t => Triple.get_bind fun w h => ?_
  refine Triple.ite (fun _ => Triple.pure _ fun _ _ => .inl rfl) fun hnot => ?_
  refine Triple.bind (Triple.modify (Q := fun _ w' => On (fun v => ∃ v₀, I v₀ ∧
    v₀.nodes t.ptr = none ∧ v = { v₀ with
      nodes := Function.update v₀.nodes t.ptr (some {}) }) w') ?_) fun _ =>
    Triple.pure _ fun w' h' => .inr h'
  rintro w' rfl
  refine ⟨h.1, view w', h.2, ?_, rfl⟩
  exact Option.not_isSome_iff_eq_none.mp (not_or.mp hnot).2

theorem triple_callocOp {I : View → Prop} (hI : Stable I) :
    Triple (On I) (callocOp cfg) fun p w => p = 0 ∨ On (fun v => ∃ v₀, I v₀ ∧
      v₀.ops p = none ∧ v = v₀.withOp p (some { infoCon :=
        { buf := List.replicate cfg.defaultServerBufferSize {} } })) w := by
  refine Triple.bind (triple_yield hI) fun t => Triple.get_bind fun w h => ?_
  refine Triple.ite (fun _ => Triple.pure _ fun _ _ => .inl rfl) fun hnot => ?_
  refine Triple.bind (Triple.modify (Q := fun _ w' => On (fun v => ∃ v₀, I v₀ ∧
    v₀.ops t.ptr = none ∧ v = v₀.withOp t.ptr (some { infoCon :=
      { buf := List.replicate cfg.defaultServerBufferSize {} } })) w') ?_) fun _ =>
    Triple.pure _ fun w' h' => .inr h'
  rintro w' rfl
  refine ⟨h.1, view w', h.2, ?_, rfl⟩
  exact Option.not_isSome_iff_eq_none.mp (not_or.mp hnot).2

/-- A new op that is linked to its tracker node. -/
def clientOp (cfg : Config) (n : Ptr) (fd : Fd) : IouOp :=
  { memTracker := some n
    infoCon := { fd := fd, buf := List.replicate cfg.defaultServerBufferSize {} } }

/-- A new op is linked to its tracker node, and is about to receive. -/
theorem triple_linkClient {r : Reference} {cur : List Cqe} {socket : Fd} {n : Ptr}
    {xs : List (Ptr × Ptr)} {v₀ : View} {α : Type} {R : α → World → Prop}
    (hown : Owned cfg [r] cur [n] xs v₀)
    (hecho : v₀.faithful = true → Echoes cfg [r] cur v₀) (ho : v₀.ops r.op = some o)
    (hp : v₀.ops p = none) (hkind : r.sqe.opcode = .accept) (hres : r.res = some socket)
    (hsocket : 0 ≤ socket) (hfits : Fits cfg r.sqe (some o)) {next : Program World α}
    (hnext : Triple (On fun v => Ready cfg [⟨recvSqe cfg p socket, none⟩, { sqe := r.sqe }] cur v ∧
      SameTraffic v₀ v) next R) :
    Triple (On fun v => v = v₀.withOp p (some { infoCon :=
      { buf := List.replicate cfg.defaultServerBufferSize {} } })) (do
        modifyOp p fun o => { o with infoCon := { o.infoCon with fd := socket } }
        modifyOp p fun o => { o with memTracker := some n }
        modifyNode n fun m => { m with allocatedOp := some p }
        memTPushBack n
        modifyOp p fun o => { o with op := .recvFromClient }
        modifyOp p fun o => { o with infoCon := { o.infoCon with busy := 1 } }
        next) R := by
  obtain ⟨m, hm⟩ := Option.isSome_iff_exists.mp ((hown.nodesLive n).mpr (by simp))
  have hnot : n ∉ xs.map Prod.fst := by
    have hnodup := hown.nodesNodup
    rw [List.nodup_append] at hnodup
    exact fun hmem => hnodup.2.2 n hmem n (by simp) rfl
  have hlive : ∀ k ∈ xs.map Prod.fst, (v₀.nodes k).isSome := fun k hk =>
    (hown.nodesLive k).mpr (List.mem_append_left _ hk)
  refine Triple.bind (triple_modifyOp_withOp _) fun _ => ?_
  refine Triple.bind (triple_modifyOp_withOp _) fun _ => ?_
  refine Triple.bind (triple_modifyNode _ (m := m) (by exact hm)) fun _ => ?_
  refine Triple.bind (triple_memTPushBack (n := n) ?_ (fun k hk => ?_)
    ?_ hnot) fun _ => Triple.of_pre ?_
  · refine hown.tracker.congr (fun k hk => ?_) fun k hk => ?_
    · have hne : k ≠ n := fun h => hnot (h ▸ hk)
      simp only [nextOf, onNode, Option.some.injEq, hne, if_false]
      rfl
    · have hne : k ≠ n := fun h => hnot (h ▸ hk)
      simp only [prevOf, onNode, Option.some.injEq, hne, if_false]
      rfl
  · simp only [onNode]
    split <;> simp [View.withOp, hlive k hk]
  · simp [onNode, View.withOp, hm]
  rintro w₁ ⟨hwf₁, hrest, hallocated, hlinked⟩
  have hview₁ : view w₁ = View.withOp
      { v₀ with nodes := (view w₁).nodes, memAllocsTracker := (view w₁).memAllocsTracker }
      p (some (clientOp cfg n socket)) := hrest
  have hnodes : ∀ k, ((view w₁).nodes k).map IouOpMemTrackerNode.allocatedOp =
      if k = n then some (some p)
      else (v₀.nodes k).map IouOpMemTrackerNode.allocatedOp := by
    intro k
    rw [hallocated, onNode_nodes]
    rcases eq_or_ne k n with rfl | hne
    · simp [View.withOp, hm]
    · simp [View.withOp, hne]
  refine Triple.pre (P := On fun v => v = View.withOp
      { v₀ with nodes := (view w₁).nodes, memAllocsTracker := (view w₁).memAllocsTracker }
      p (some (clientOp cfg n socket))) ?_ ?_
  swap
  · rintro w' rfl
    exact ⟨hwf₁, hview₁⟩
  refine Triple.bind (triple_modifyOp_withOp _) fun _ => ?_
  refine Triple.bind (triple_modifyOp_withOp _) fun _ => hnext.pre fun w' h => ⟨h.1, ?_⟩
  have hp' : p ≠ acceptReq ∧ p ≠ timerReq := by
    constructor <;> rintro rfl
    · have := (hown.opsLive acceptReq).mpr (.inl rfl)
      rw [hp] at this
      cases this
    · have := (hown.opsLive timerReq).mpr (.inr (.inl rfl))
      rw [hp] at this
      cases this
  have hr : r.op ≠ p := by
    rintro rfl
    rw [hp] at ho
    cases ho
  have hinv := inv_addClient (s := recvSqe cfg p socket) (o := { clientOp cfg n socket with
    op := .recvFromClient
    infoCon := { (clientOp cfg n socket).infoCon with busy := 1 } })
    hown hecho hp rfl (by simp [clientOp]) hnodes hlinked rfl rfl hkind hres hsocket
  rw [h.2]
  refine ⟨⟨hinv, fun r' hr' => ?_⟩, rfl, rfl, rfl, rfl, rfl, rfl⟩
  simp only [List.mem_cons, List.not_mem_nil, or_false] at hr'
  rcases hr' with rfl | rfl
  · simp only [View.withOp, Reference.op, recvSqe, Function.update_self]
    exact fits_recv hp' rfl rfl rfl (by simp [clientOp])
  · simp only [View.withOp]
    rw [show Reference.op { sqe := r.sqe } = r.op from rfl, Function.update_of_ne hr, ho]
    exact hfits

/-- The new client waits for its first message, and the accept request can be
made again. -/
theorem triple_handleNewClient {r : Reference} {cur : List Cqe} {socket : Fd}
    (hrides : Rides cfg J L) (hkind : r.sqe.opcode = .accept) (hres : r.res = some socket)
    (hsocket : 0 ≤ socket) (hfits : Fits cfg r.sqe (some o)) :
    Triple (On fun v => Working cfg r cur o v ∧ J cur cur v) (handleNewClient cfg socket) fun _ =>
      On fun v => Ready cfg [{ sqe := r.sqe }] cur v ∧ J cur cur v := by
  refine Triple.bind (triple_callocNode (hrides.stable stable_working fun v h => ⟨_, _, h.1⟩))
    fun n => ?_
  refine Triple.bind triple_assertNnull fun _ => ?_
  refine Triple.pre (P := On fun v =>
    (Inv cfg [r] cur [n] v ∧ v.ops r.op = some o) ∧ J cur cur v) ?_ ?_
  swap
  · rintro w ⟨h | ⟨hwf, v₀, hI, hn, hview⟩, hnonnull⟩
    · simp [h] at hnonnull
    · refine ⟨hwf, ?_⟩
      rw [hview]
      exact ⟨⟨inv_addSpare hI.1.1 hn _, hI.1.2⟩,
        hrides.same (v := v₀) ⟨rfl, rfl, rfl, rfl, rfl, rfl⟩ hI.2⟩
  refine Triple.bind (triple_callocOp (hrides.stable stable_inv_and_op fun v h => ⟨_, _, h.1⟩))
    fun p => ?_
  refine Triple.bind triple_assertNnull fun _ => Triple.of_pre ?_
  rintro w ⟨h | ⟨hwf, v₀, ⟨⟨⟨xs, hown, hecho⟩, ho⟩, hJ⟩, hp, hview⟩, hnonnull⟩
  · simp [h] at hnonnull
  refine triple_fix hwf ?_
  rw [hview]
  refine triple_linkClient hown hecho ho hp hkind hres hsocket hfits ?_
  refine Triple.pre (triple_submit (r := ⟨recvSqe cfg p socket, none⟩) (l := [{ sqe := r.sqe }])
    hrides rfl rfl _ ?_) fun w' h => ⟨h.1, h.2.1, hrides.same h.2.2 hJ, by simp [recvSqe]⟩
  exact triple_whenTrue (fun _ => triple_modifyBench _) fun _ h _ => h

theorem triple_handleCqeClose (hrides : Rides cfg J L) (hc : ClientCqe cfg c o p)
    (hkind : c.request.sqe.opcode = .close) :
    Triple (On fun v => Reaped cfg c o v ∧ J [] [c] v) (handleCqeClose p c.res) fun _ =>
      On fun v => Inv cfg [] [c] [] v ∧ J [c] [c] v := by
  have hop := hc.op
  subst hop
  refine Triple.bind triple_ioUringAssertZero fun _ => ?_
  refine Triple.of_pre fun w hw => ?_
  obtain ⟨h, hres⟩ := hw
  refine Triple.pre (P := On fun v => Working cfg (cqeReference c) [c] o v ∧ J [c] [c] v) ?_
    fun w' hw' => ?_
  · refine Triple.bind (triple_modifyWorking hrides rfl _ rfl rfl) fun _ => ?_
    refine Triple.bind (triple_handleClosingClient hrides rfl hc.ne hkind ?_) fun _ =>
      Triple.pure _ fun _ h => h
    rw [cqeReference, hres]
  · rw [hw']
    exact ⟨h.1, ⟨h.2.1.1.1.count (hc.user ▸ hc.ne.2) (by simp [hkind]) (by simp [hkind]),
      h.2.1.1.2⟩, hrides.count h.2.1 (by simp [hkind]) h.2.2⟩

theorem triple_handleCqeAccept (hrides : Rides cfg J L)
    (huser : c.userData = c.request.sqe.userData)
    (hp : c.userData = acceptReq) (hkind : c.request.sqe.opcode = .accept)
    (hfits : Fits cfg c.request.sqe (some o)) :
    Triple (On fun v => Reaped cfg c o v ∧ J [] [c] v) (handleCqeAccept cfg acceptReq c.res)
      fun _ => On fun v => Inv cfg [] [c] [] v ∧ J [c] [c] v := by
  refine Triple.bind triple_ioUringAssertNonn fun _ => Triple.of_pre fun w hw => ?_
  obtain ⟨h, hres⟩ := hw
  refine Triple.pre (P := On fun v => Working cfg (cqeReference c) [c] o v ∧ J [c] [c] v) ?_ ?_
  · refine Triple.bind (triple_handleNewClient hrides hkind rfl hres hfits) fun _ => ?_
    refine Triple.pre (triple_submit (r := ⟨c.request.sqe, none⟩) (l := []) hrides
      (huser.symm.trans hp) rfl _ (Triple.pure _ fun w h => ⟨h.1, h.2.1.1, h.2.2⟩))
      fun w h => ⟨h.1, h.2.1, h.2.2, fun hclose => ?_⟩
    exact absurd (hkind.symm.trans hclose) (by decide)
  · rintro w' rfl
    exact ⟨h.1, ⟨h.2.1.1.1.count (by simp [hp, acceptReq, timerReq]) (by simp [hkind])
      (by simp [hkind]), h.2.1.1.2⟩, hrides.count h.2.1 (by simp [hkind]) h.2.2⟩

theorem triple_handleCqeTimer (hrides : Rides cfg J L)
    (huser : c.userData = c.request.sqe.userData)
    (hp : c.userData = timerReq) (hkind : c.request.sqe.opcode = .timeout) :
    Triple (On fun v => Reaped cfg c o v ∧ J [] [c] v) (handleCqeTimer cfg timerReq c.res)
      fun _ => On fun v => Inv cfg [] [c] [] v ∧ J [c] [c] v := by
  refine Triple.pre (P := On fun v => Inv cfg [] [c] [] v ∧ J [c] [c] v) ?_ fun w h =>
    ⟨h.1, h.2.1.countTimer huser hp hkind, hrides.count h.2.1 (by simp [hkind]) h.2.2⟩
  refine Triple.bind triple_ioUringAssert fun _ => ?_
  refine Triple.pre (P := On fun v => Inv cfg [] [c] [] v ∧ J [c] [c] v) ?_ fun w h => h.1
  refine Triple.bind (triple_whenTrue (fun _ => ?_) fun w h _ => h) fun _ =>
    Triple.pure _ fun _ h => h
  exact Triple.bind (triple_nowMonotonic (hrides.stable stable_inv fun v h => ⟨_, _, h⟩))
    fun _ => triple_modifyBench _

end Clients

section Loop

variable {cfg : Config} {J : List Cqe → List Cqe → View → Prop} {L : Fd → View → Prop}

/-- What the server knows of a CQE it has just taken off the ring. -/
def Taken (cfg : Config) (c : Cqe) (v : View) : Prop :=
  c.userData = c.request.sqe.userData ∧ Fits cfg c.request.sqe (v.ops c.userData) ∧
    ∃ o, Reaped cfg c o v

/-- The kind of the op selects the handler for the kind of the request. -/
theorem triple_dispatchCqe (hrides : Rides cfg J L) (c : Cqe) :
    Triple (On fun v => Taken cfg c v ∧ J [] [c] v) (dispatchCqe cfg c) fun _ =>
      On fun v => Inv cfg [] [c] [] v ∧ J [c] [c] v := by
  refine Triple.of_pre fun w hw => ?_
  obtain ⟨hwf, ⟨huser, hfits, o, h⟩, hJ⟩ := hw
  have ho : (view w).ops c.userData = some o := by
    rw [huser]
    exact h.1.2
  rw [ho] at hfits
  refine Triple.bind (Q := fun a w' => a = o ∧ On (fun v => Reaped cfg c o v ∧ J [] [c] v) w')
    (triple_readOp fun w' hw' => ⟨o, hw' ▸ ho, rfl, hw' ▸ ⟨hwf, h, hJ⟩⟩) fun a => ?_
  refine Triple.of_pre fun w' hw => ?_
  obtain ⟨ha, hw'⟩ := hw
  subst ha
  have hopcode := hfits.opcode
  have hok := hfits.opOk
  rw [← huser] at hok
  refine Triple.pre (P := On fun v => Reaped cfg c a v ∧ J [] [c] v) ?_ fun w'' hw'' => hw'' ▸ hw'
  rcases hok with ⟨hp, hop⟩ | ⟨hp, hop⟩ | ⟨hne, hne', hclient⟩
  · rw [hop] at hopcode ⊢
    rw [hp]
    exact triple_handleCqeAccept hrides huser hp hopcode hfits
  · rw [hop] at hopcode ⊢
    rw [hp]
    exact triple_handleCqeTimer hrides huser hp hopcode
  · have hbuf := inv_client h.1.1 ⟨hne, hne'⟩ ho
    rcases hclient with ⟨hop, -⟩ | ⟨hop, -⟩ | ⟨hop, -⟩
    · rw [hop] at hopcode ⊢
      have hfd := (hfits.recv hopcode).2.2.1
      exact triple_handleCqeRecv hrides ⟨huser.symm, rfl, ⟨hne, hne'⟩, hfd.symm, hbuf⟩ hopcode
    · rw [hop] at hopcode ⊢
      have hfd := (hfits.send hopcode).2.2.1
      exact triple_handleCqeSend hrides ⟨huser.symm, rfl, ⟨hne, hne'⟩, hfd.symm, hbuf⟩ hopcode
    · rw [hop] at hopcode ⊢
      have hfd := (hfits.close hopcode).2
      exact triple_handleCqeClose hrides ⟨huser.symm, rfl, ⟨hne, hne'⟩, hfd.symm, hbuf⟩ hopcode

theorem triple_serviceCqeEvents (hrides : Rides cfg J L) (c : Cqe) :
    Triple (On fun v => Taken cfg c v ∧ J [] [c] v) (serviceCqeEvents cfg c) fun _ =>
      On fun v => Inv cfg [] [] [] v ∧ J [] [] v := by
  refine Triple.bind (triple_whenTrue (fun _ => triple_modifyBench _) fun _ h _ => h)
    fun _ => ?_
  refine Triple.bind (triple_dispatchCqe hrides c) fun _ => ?_
  refine Triple.bind (Triple.modify (Q := fun _ => On fun v => Inv cfg [] [] [] v ∧ J [] [] v)
    fun w h => ?_) fun _ => Triple.pure _ fun _ h => h
  exact ⟨h.1, h.2.1.finish, hrides.finish h.2.2⟩

/-- What the loop of `service_loop` finds out when it looks for a CQE. -/
theorem triple_iouGetCqe_and (hrides : Rides cfg J L) :
    Triple (On fun v => Inv cfg [] [] [] v ∧ J [] [] v) iouGetCqe fun r w =>
      match r with
      | none => On (fun v => Inv cfg [] [] [] v ∧ J [] [] v) w
      | some c => On (fun v => Taken cfg c v ∧ J [] [c] v) w := by
  refine (triple_iouGetCqe (J := fun c v => Taken cfg c v ∧ J [] [c] v)
    (hrides.stable stable_inv fun v h => ⟨_, _, h⟩) fun v c rest h hc => ?_).post ?_
  · obtain ⟨huser, hfits, o, hreaped⟩ := h.1.reap hc
    exact ⟨⟨huser, hfits, o, hreaped⟩, hrides.reap h.2 hc⟩
  · intro r w h
    cases r with
    | none => exact h.1
    | some c => exact h

theorem triple_iouGetCqe_taken :
    Triple (On (Inv cfg [] [] [])) iouGetCqe fun r w =>
      match r with
      | none => On (Inv cfg [] [] []) w
      | some c => On (Taken cfg c) w := by
  refine (triple_iouGetCqe_and rides_trivial).conseq (fun w h => ⟨h.1, h.2, trivial⟩) ?_
  intro r w h
  cases r with
  | none => exact ⟨h.1, h.2.1⟩
  | some c => exact ⟨h.1, h.2.1⟩

/-- One turn of the loop keeps the invariant. -/
theorem triple_serviceLoopTurn (hrides : Rides cfg J L) (n : Int32) :
    Triple (On fun v => Inv cfg [] [] [] v ∧ J [] [] v) (serviceLoopTurn cfg n) fun _ =>
      On fun v => Inv cfg [] [] [] v ∧ J [] [] v := by
  refine (triple_iouGetCqe_and hrides).bind fun r => ?_
  cases r with
  | none =>
      exact (triple_iouEnterOrWake (hrides.stable stable_inv fun v h => ⟨_, _, h⟩) _).bind
        fun _ => Triple.pure _ fun _ h => h
  | some c =>
      exact (triple_serviceCqeEvents hrides c).bind fun _ => Triple.pure _ fun _ h => h

/-- The references the server starts with: its two ops, before they are
submitted for the first time. -/
def initiallyHeld (cfg : Config) : List Reference :=
  { sqe := acceptSqe cfg } ::
    if cfg.doServerSideBenchmarking = true then [{ sqe := timerSqe }] else []

theorem triple_createTimerSqe (hrides : Rides cfg J L) :
    Triple (On fun v => Inv cfg [{ sqe := timerSqe }] [] [] v ∧ J [] [] v) (createTimerSqe timerReq)
      fun _ => On fun v => Inv cfg [] [] [] v ∧ J [] [] v := by
  refine Triple.of_pre fun w h => ?_
  obtain ⟨xs, hown, -⟩ := h.2.1
  obtain ⟨o, ho⟩ := Option.isSome_iff_exists.mp ((hown.opsLive timerReq).mpr (.inr (.inl rfl)))
  refine Triple.pre (P := On fun v => Working cfg { sqe := timerSqe } [] o v ∧ J [] [] v) ?_ ?_
  · refine Triple.bind (triple_modifyWorking hrides rfl _ rfl rfl) fun _ => ?_
    refine Triple.bind (triple_modifyWorking hrides rfl _ rfl rfl) fun _ => ?_
    refine Triple.pre (triple_submit (r := ⟨timerSqe, none⟩) hrides rfl rfl _
      (Triple.pure _ fun w h => ⟨h.1, h.2.1.1, h.2.2⟩))
      fun w h => ⟨h.1, h.2.1.ready ?_, h.2.2, by simp [timerSqe]⟩
    exact fits_timer rfl
  · rintro w' rfl
    exact ⟨h.1, ⟨h.2.1, ho⟩, h.2.2⟩

theorem triple_createAcceptSqe {held : List Reference} (hrides : Rides cfg J L) :
    Triple (On fun v => Inv cfg ({ sqe := acceptSqe cfg } :: held) [] [] v ∧ J [] [] v)
      (createAcceptSqe cfg acceptReq) fun _ => On fun v => Inv cfg held [] [] v ∧ J [] [] v := by
  refine Triple.bind (Q := fun _ => On (fun v => (Inv cfg ({ sqe := acceptSqe cfg } :: held)
    [] [] v ∧ J [] [] v) ∧ ∃ o, v.ops acceptReq = some o ∧ o.op = .acceptedConnection))
    (triple_modifyOp_of _ fun v h => ?_) fun _ => ?_
  · obtain ⟨xs, hown, -⟩ := id h.1
    obtain ⟨o, ho⟩ := Option.isSome_iff_exists.mp ((hown.opsLive acceptReq).mpr (.inl rfl))
    refine ⟨o, ho, ⟨?_, hrides.same (sameTraffic_withOp _ _) h.2⟩,
      { o with op := .acceptedConnection }, ?_, rfl⟩
    · exact h.1.withOp (r := { sqe := acceptSqe cfg }) (by simp) ho rfl rfl
    · simp [View.withOp]
  refine Triple.bind (Q := fun _ => On (fun v => (Inv cfg ({ sqe := acceptSqe cfg } :: held)
    [] [] v ∧ ∀ r ∈ { sqe := acceptSqe cfg } :: held, r = { sqe := acceptSqe cfg } →
      Fits cfg r.sqe (v.ops r.op)) ∧ J [] [] v)) (triple_modifyOp_of _ fun v h => ?_) fun _ => ?_
  · obtain ⟨⟨hinv, hJ⟩, o, ho, hop⟩ := h
    refine ⟨o, ho, ⟨?_, ?_⟩, hrides.same (sameTraffic_withOp _ _) hJ⟩
    · exact hinv.withOp (r := { sqe := acceptSqe cfg }) (by simp) ho rfl rfl
    · rintro r - rfl
      simp only [View.withOp, Reference.op, acceptSqe, Function.update_self]
      exact fits_accept hop rfl
  · refine Triple.pre (triple_submit_of (r := { sqe := acceptSqe cfg }) (l := held)
      (Q := fun r o => r = { sqe := acceptSqe cfg } → Fits cfg r.sqe o) hrides rfl rfl
      (fun o h => h rfl) _ (Triple.pure _ fun w h => ⟨h.1, h.2.1.1, h.2.2⟩))
      fun w h => ⟨h.1, h.2.1, h.2.2, by simp [acceptSqe]⟩

theorem triple_serviceLoopStart (hrides : Rides cfg J L) :
    Triple (On fun v => Inv cfg (initiallyHeld cfg) [] [] v ∧ J [] [] v) (serviceLoopStart cfg)
      fun _ => On fun v => Inv cfg [] [] [] v ∧ J [] [] v := by
  refine Triple.bind (triple_createAcceptSqe hrides) fun _ => ?_
  refine Triple.ite (fun hbench => ?_) fun hbench => ?_
  · rw [if_pos hbench]
    exact Triple.bind (triple_createTimerSqe hrides) fun _ => Triple.pure _ fun _ h => h
  · rw [if_neg hbench]
    exact Triple.pure _ fun _ h => h

theorem consistent_initial (cfg : Config) :
    Kernel.Consistent
      { files := Function.update (fun _ => none) cfg.listeningSocket (some .listening) } := by
  have hnone : ∀ fd c, Function.update (fun _ => none) cfg.listeningSocket
      (some File.listening) fd ≠ some (.socket c) := by
    intro fd c
    rcases eq_or_ne fd cfg.listeningSocket with rfl | hne
    · simp
    · simp [hne]
  exact ⟨fun fd _ c h => absurd h (hnone fd c), fun fd c h => absurd h (hnone fd c),
    by simp, by simp, by simp, by simp⟩

theorem inv_initialWorld (s : RingSetup cfg) (useKernelPooling faithful : Bool)
    (sched : List Tick) :
    Inv cfg (initiallyHeld cfg) [] []
      (view (initialWorld cfg s useKernelPooling faithful sched)) := by
  have hpending : (view (initialWorld cfg s useKernelPooling faithful sched)).pending = [] :=
    pending_iouCreate s useKernelPooling
  have hunreaped : (view (initialWorld cfg s useKernelPooling faithful sched)).unreaped = [] :=
    unreaped_iouCreate s useKernelPooling
  have hrefs : references (view (initialWorld cfg s useKernelPooling faithful sched)) = [] := by
    rw [references, hpending, hunreaped]
    rfl
  have hops : (initiallyHeld cfg).map Reference.op = roots cfg [] := by
    simp only [initiallyHeld, roots]
    split <;> simp_all [Reference.op, acceptSqe, timerSqe]
  have hclaims : claims (initiallyHeld cfg) = [] := by
    simp only [initiallyHeld]
    split <;> simp [claims, claim, acceptSqe, timerSqe]
  have hnone : ∀ fd c, (initialWorld cfg s useKernelPooling faithful sched).kernel.files fd ≠
      some (.socket c) := by
    intro fd c
    simp only [initialWorld]
    rcases eq_or_ne fd cfg.listeningSocket with rfl | hne
    · simp
    · simp [hne]
  refine ⟨[], ⟨.empty _ _, by simp, fun p => ?_, by simp [view, initialWorld], by simp,
    ?_, ?_, by simp [hrefs], by simp [hunreaped], rfl⟩, fun _ =>
    ⟨consistent_initial cfg, ?_, fun fd => ?_, ?_, ?_, by simp [view, initialWorld],
      by simp [hunreaped], ?_, by simp [view, initialWorld]⟩⟩
  · simp only [view, initialWorld]
    rcases eq_or_ne p timerReq with rfl | hne
    · simp
    · rcases eq_or_ne p acceptReq with rfl | hne'
      · simp [hne]
      · simp [hne, hne']
  · rw [hrefs, List.nil_append, hops]
    simp [view, initialWorld]
  · rw [List.map_nil, List.append_nil, List.append_nil, roots]
    split <;> simp [acceptReq, timerReq]
  · rw [hrefs, List.nil_append, hclaims]
    exact List.nodup_nil
  · rw [hrefs, List.nil_append, hclaims]
    refine ⟨fun h => absurd h List.not_mem_nil, ?_⟩
    rintro ⟨c, hc⟩
    exact absurd hc (hnone fd c)
  · intro r _ fd c _ hc
    exact absurd hc (hnone fd c)
  · intro c _
    rfl
  · intro c x hx
    cases hx

/-- What rides along with the invariant through the loop. -/
theorem rides_of_run {w₀ w : World} {n : Nat} {k : Int32} (hrides : Rides cfg J L)
    (hstart : On (fun v => Inv cfg (initiallyHeld cfg) [] [] v ∧ J [] [] v) w₀)
    (hrun : serviceLoop cfg n w₀ = .ok (k, w)) :
    On (fun v => Inv cfg [] [] [] v ∧ J [] [] v) w := by
  have hloop : Triple (On fun v => Inv cfg (initiallyHeld cfg) [] [] v ∧ J [] [] v)
      (serviceLoop cfg n) fun _ => On fun v => Inv cfg [] [] [] v ∧ J [] [] v :=
    Triple.bind (triple_serviceLoopStart hrides) fun k =>
      Triple.turns (I := fun _ => On fun v => Inv cfg [] [] [] v ∧ J [] [] v)
        (triple_serviceLoopTurn hrides) n k
  exact hloop w₀ hstart k w hrun

/-- What rides along with the invariant holds in every state the server can be in
at the top of its loop, if it holds at the start. -/
theorem rides_of_reachable {w : World} (hrides : Rides cfg J L)
    (hinitial : ∀ (s : RingSetup cfg) (useKernelPooling faithful : Bool) (sched : List Tick),
      J [] [] (view (initialWorld cfg s useKernelPooling faithful sched)))
    (h : Reachable cfg w) : On (fun v => Inv cfg [] [] [] v ∧ J [] [] v) w := by
  obtain ⟨s, useKernelPooling, faithful, sched, n, k, w₀, acts, hrun, rfl⟩ := h
  refine foldl_act (P := On fun v => Inv cfg [] [] [] v ∧ J [] [] v)
    (fun _ a h => on_act (hrides.stable stable_inv fun v h => ⟨_, _, h⟩) h a) acts ?_
  exact rides_of_run hrides ⟨wellFormed_iouCreate s useKernelPooling,
    inv_initialWorld s useKernelPooling faithful sched,
    hinitial s useKernelPooling faithful sched⟩ hrun

/-- The invariant holds in every state the server can be in at the top of its
loop. -/
theorem on_inv_of_reachable {w : World} (h : Reachable cfg w) : On (Inv cfg [] [] []) w := by
  have hrides := rides_of_reachable rides_trivial (fun _ _ _ _ => trivial) h
  exact ⟨hrides.1, hrides.2.1⟩

end Loop

end EchoServers.UringHandlers
