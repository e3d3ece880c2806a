import EchoServers.UringStreams

namespace EchoServers.UringInvariant

open EchoServers.LinkedChains
open EchoServers.SocketKernel
open EchoServers.UringKernelSteps
open EchoServers.UringMemory
open EchoServers.UringOwnership
open EchoServers.UringQueues
open EchoServers.UringReferences
open EchoServers.UringServer
open EchoServers.UringStreams
open EchoServers.UringSubmission

/-- The invariant of the server.  `held` are the references it holds while it
handles a CQE, `cur` that CQE once its effect is counted, and `spare` the nodes
it has allocated and not linked yet; all three are empty at the top of the loop. -/
def Inv (cfg : Config) (held : List Reference) (cur : List Cqe) (spare : List Ptr)
    (v : View) : Prop :=
  ∃ xs, Owned cfg held cur spare xs v ∧ (v.faithful = true → Echoes cfg held cur v)

/-- The invariant, with all held ops ready to be submitted. -/
def Ready (cfg : Config) (held : List Reference) (cur : List Cqe) (v : View) : Prop :=
  Inv cfg held cur [] v ∧ ∀ r ∈ held, Fits cfg r.sqe (v.ops r.op)

/-- The invariant while the server works on the op of one held reference. -/
def Working (cfg : Config) (r : Reference) (cur : List Cqe) (o : IouOp) (v : View) : Prop :=
  Inv cfg [r] cur [] v ∧ v.ops r.op = some o

/-- The invariant when the server has just taken the CQE `c` off the ring. -/
def Reaped (cfg : Config) (c : Cqe) (o : IouOp) (v : View) : Prop :=
  Working cfg (cqeReference c) [] o v ∧ (v.faithful = true → CompletionOk cfg v c)

section Stability

variable {cfg : Config} {held : List Reference} {cur : List Cqe} {spare : List Ptr}

theorem stable_inv_and (Q : Reference → Option IouOp → Prop) :
    Stable fun v => Inv cfg held cur spare v ∧ ∀ r ∈ held, Q r (v.ops r.op) := by
  rintro v v' hstep ⟨⟨xs, hown, hecho⟩, hQ⟩
  obtain ⟨hown', hfaithful, hheld⟩ := hown.step hstep
  refine ⟨⟨xs, hown', fun h => ?_⟩, fun r hr => ?_⟩
  · rw [hfaithful] at h
    exact (hecho h).step hown h hstep
  · rw [hheld r hr]
    exact hQ r hr

theorem stable_inv : Stable (Inv cfg held cur spare) := fun _ _ hstep h =>
  (stable_inv_and (fun _ _ => True) hstep ⟨h, fun _ _ => trivial⟩).1

theorem stable_inv_and_op {r : Reference} {o : IouOp} :
    Stable fun v => Inv cfg [r] cur spare v ∧ v.ops r.op = some o := by
  have h : Stable fun v => Inv cfg [r] cur spare v ∧ ∀ r' ∈ [r], v.ops r'.op = some o :=
    stable_inv_and fun _ o' => o' = some o
  simp only [List.mem_singleton, forall_eq] at h
  exact h

theorem stable_working {r : Reference} {o : IouOp} : Stable (Working cfg r cur o) :=
  stable_inv_and_op

end Stability

section Submission

variable {cfg : Config} {held : List Reference} {cur : List Cqe} {v : View}

theorem claims_publish (v : View) (held : List Reference) (s : Sqe) :
    (references { v with pending := v.pending ++ [s] } ++ held).Perm
      (references v ++ { sqe := s } :: held) :=
  ((references_publish s).append_right held).trans List.perm_middle.symm

/-- Publishing the SQE of a held op hands its reference over to the kernel. -/
theorem Inv.publish {r : Reference} (h : Inv cfg (r :: held) cur [] v)
    (hres : r.res = none) (hfits : Fits cfg r.sqe (v.ops r.op)) :
    Inv cfg held cur [] { v with pending := v.pending ++ [r.sqe] } := by
  obtain ⟨sqe, res⟩ := r
  obtain rfl : res = none := hres
  obtain ⟨xs, hown, hecho⟩ := h
  refine ⟨xs, ⟨hown.tracker, hown.clients, hown.opsLive, hown.nodesLive, hown.nodesNodup,
    ?_, hown.opsNodup, fun r' hr' => ?_, hown.userData, hown.clean⟩, fun hfaithful => ?_⟩
  · exact ((claims_publish v _ sqe).map _).trans hown.balance
  · rcases List.mem_cons.mp ((references_publish sqe).subset hr') with rfl | hr'
    · exact hfits
    · exact hown.fits r' hr'
  · have h := hecho hfaithful
    have hperm := claims_perm (claims_publish v held sqe)
    refine ⟨h.kernel, hperm.nodup_iff.mpr h.claimsNodup, fun fd => ?_,
      fun r' hr' fd c hfd hc => ?_, h.idle,
      fun q hq => (h.requests q hq).congr rfl fun _ => rfl,
      fun q hq => (h.completions q hq).congr rfl rfl, h.received, h.transmitted⟩
    · rw [hperm.mem_iff]
      exact h.claimsOpen fd
    · exact h.ahead r' ((claims_publish v held sqe).subset hr') fd c hfd hc

/-- Taking the oldest CQE off the ring. -/
theorem Inv.reap {c : Cqe} {rest : List Cqe} (h : Inv cfg [] [] [] v)
    (hunreaped : v.unreaped = c :: rest) :
    c.userData = c.request.sqe.userData ∧ Fits cfg c.request.sqe (v.ops c.userData) ∧
      ∃ o, Reaped cfg c o { v with unreaped := rest } := by
  obtain ⟨xs, hown, hecho⟩ := h
  have hmem : c ∈ v.unreaped := by simp [hunreaped]
  have huser := hown.userData c hmem
  have hfits : Fits cfg c.request.sqe (v.ops c.userData) := by
    rw [huser]
    exact hown.fits _ (mem_references_unreaped hmem)
  have hperm : (references { v with unreaped := rest } ++ [cqeReference c]).Perm
      (references v ++ []) := by
    refine List.Perm.trans ?_ ((references_reap hunreaped).symm.trans (by simp))
    exact List.perm_append_comm
  obtain ⟨o, ho, -⟩ := id hfits
  refine ⟨huser, hfits, o, ⟨⟨xs, ⟨hown.tracker, hown.clients, hown.opsLive, hown.nodesLive,
    hown.nodesNodup, (hperm.map _).trans hown.balance, hown.opsNodup, fun r hr => ?_,
    fun q hq => ?_, hown.clean⟩, fun hfaithful => ?_⟩, ?_⟩, fun hfaithful => ?_⟩
  · exact hown.fits r ((references_reap hunreaped).symm.subset (List.mem_cons_of_mem _ hr))
  · exact hown.userData q (by simp only [hunreaped, List.mem_cons]; exact .inr hq)
  · have h := hecho hfaithful
    refine ⟨h.kernel, (claims_perm hperm).nodup_iff.mpr h.claimsNodup, fun fd => ?_,
      fun r hr fd c' hfd hc => h.ahead r (hperm.subset hr) fd c' hfd hc, h.idle,
      fun r hr => (h.requests r hr).congr rfl fun _ => rfl,
      fun q hq => (h.completions q ?_).congr rfl rfl, h.received, h.transmitted⟩
    · rw [(claims_perm hperm).mem_iff]
      exact h.claimsOpen fd
    · rw [hunreaped]
      exact List.mem_cons_of_mem _ hq
  · simp only [cqeReference, Reference.op, ← huser]
    exact ho
  · exact ((hecho hfaithful).completions c hmem).congr rfl rfl

/-- The record that a CQE has been handled. -/
theorem Inv.finish {c : Cqe} (h : Inv cfg [] [c] [] v) :
    Inv cfg [] [] [] { v with handled := v.handled ++ [c] } := by
  obtain ⟨xs, hown, hecho⟩ := h
  refine ⟨xs, ⟨hown.tracker, fun x hx => (hown.clients x hx).rebuffered rfl (.inl rfl),
    hown.opsLive, hown.nodesLive, hown.nodesNodup, ?_, ?_, hown.fits, hown.userData,
    hown.clean⟩, fun hfaithful => ?_⟩
  · have hbalance := hown.balance
    simp only [List.append_nil] at hbalance ⊢
    exact hbalance
  · have hnodup := hown.opsNodup
    simp only [List.append_nil]
    exact hnodup
  · have h := hecho hfaithful
    refine ⟨h.kernel, h.claimsNodup, h.claimsOpen, ?_, ?_,
      fun r hr => (h.requests r hr).congr rfl fun _ => rfl,
      fun q hq => (h.completions q hq).congr rfl rfl, ?_, h.transmitted⟩
    · have hahead := h.ahead
      simp only [List.append_nil] at hahead ⊢
      exact hahead
    · simp only [List.append_nil]
      exact h.idle
    · simp only [List.append_nil]
      exact h.received

end Submission

section Work

variable {cfg : Config} {held : List Reference} {cur : List Cqe} {spare : List Ptr}
  {v : View} {c : Cqe} {o o' : IouOp}

/-- The server may change a held op in everything but its buffer and its link to
the tracker. -/
theorem Inv.withOp (h : Inv cfg held cur spare v) {r : Reference} (hr : r ∈ held)
    (ho : v.ops r.op = some o) (htracker : o'.memTracker = o.memTracker)
    (hbuf : o'.infoCon.buf = o.infoCon.buf) :
    Inv cfg held cur spare (v.withOp r.op (some o')) := by
  obtain ⟨xs, hown, hecho⟩ := h
  have hother : ∀ p, p ≠ r.op → (v.withOp r.op (some o')).ops p = v.ops p :=
    fun p hne => by simp [View.withOp, hne]
  have hself : (v.withOp r.op (some o')).ops r.op = some o' := by simp [View.withOp]
  have hbuffer : ∀ p, buffer ((v.withOp r.op (some o')).ops p) = buffer (v.ops p) := by
    intro p
    rcases eq_or_ne p r.op with rfl | hne
    · simp only [hself, ho, buffer, hbuf]
    · rw [hother p hne]
  refine ⟨xs, ⟨hown.tracker, fun x hx => ?_, fun p => ?_, hown.nodesLive, hown.nodesNodup,
    hown.balance, hown.opsNodup, fun r' hr' => ?_, hown.userData, hown.clean⟩,
    fun hfaithful => ?_⟩
  · have hx' := hown.clients x hx
    refine ⟨hx'.node, ?_, hx'.ne_acceptReq, hx'.ne_timerReq⟩
    obtain ⟨o₁, ho₁, hnode, hlen⟩ := hx'.op
    rcases eq_or_ne x.2 r.op with heq | hne
    · rw [heq, ho] at ho₁
      cases ho₁
      exact ⟨o', by rw [heq]; exact hself, htracker.trans hnode, hbuf ▸ hlen⟩
    · exact ⟨o₁, (hother _ hne).trans ho₁, hnode, hlen⟩
  · rw [← hown.opsLive]
    rcases eq_or_ne p r.op with rfl | hne
    · rw [hself, ho]
      rfl
    · rw [hother p hne]
  · rw [hother _ (hown.held_ne hr' hr).symm]
    exact hown.fits r' hr'
  · have h := hecho hfaithful
    exact h.frame h.kernel rfl rfl (List.Perm.refl _) (fun _ _ _ => hbuffer _)
      (fun r hr => (h.requests r hr).congr rfl fun _ => hbuffer _)
      (fun q hq => (h.completions q hq).congr rfl (hbuffer _)) h.transmitted

theorem Working.withOp {r : Reference} (h : Working cfg r cur o v)
    (htracker : o'.memTracker = o.memTracker) (hbuf : o'.infoCon.buf = o.infoCon.buf) :
    Working cfg r cur o' (v.withOp r.op (some o')) :=
  ⟨h.1.withOp (List.mem_singleton_self r) h.2 htracker hbuf, by simp [View.withOp]⟩

theorem Reaped.withOp (h : Reaped cfg c o v) (htracker : o'.memTracker = o.memTracker)
    (hbuf : o'.infoCon.buf = o.infoCon.buf) :
    Reaped cfg c o' (v.withOp c.request.sqe.userData (some o')) := by
  refine ⟨Working.withOp h.1 htracker hbuf, fun hfaithful => (h.2 hfaithful).congr rfl ?_⟩
  have ho : v.ops c.request.sqe.userData = some o := h.1.2
  simp only [View.withOp, Function.update_self, ho, buffer, hbuf]

theorem Working.ready {r : Reference} (h : Working cfg r cur o v)
    (hfits : Fits cfg r.sqe (some o)) : Ready cfg [r] cur v := by
  refine ⟨h.1, fun r' hr' => ?_⟩
  rw [List.mem_singleton.mp hr', h.2]
  exact hfits

end Work

section Counting

variable {cfg : Config} {held : List Reference} {spare : List Ptr} {v : View} {c : Cqe}
  {o : IouOp} {kind : Opcode} {log : List Cqe} {conn : ConnId}

theorem stream_append (kind : Opcode) (log : List Cqe) (c : Cqe) (conn : ConnId) :
    stream kind (log ++ [c]) conn = stream kind log conn ++
      if c.request.sqe.opcode = kind ∧ c.request.conn = some conn then c.request.moved
      else [] := by
  simp [stream]

theorem stream_append_of_ne (h : c.request.sqe.opcode ≠ kind ∨ c.request.conn ≠ some conn) :
    stream kind (log ++ [c]) conn = stream kind log conn := by
  rw [stream_append, if_neg (by tauto), List.append_nil]

theorem roots_append (h : c.userData ≠ timerReq) :
    roots cfg (log ++ [c]) = roots cfg log := by
  simp [roots, h.symm]

/-- The invariant depends on the handled CQEs only through the data they moved
and through whether the timer is among them. -/
theorem Inv.count (h : Inv cfg held [] spare v) (hne : c.userData ≠ timerReq)
    (hrecv : c.request.sqe.opcode ≠ .recv) (hsend : c.request.sqe.opcode ≠ .send) :
    Inv cfg held [c] spare v := by
  obtain ⟨xs, hown, hecho⟩ := h
  have hroots : roots cfg (v.handled ++ [c]) = roots cfg (v.handled ++ []) := by
    rw [roots_append hne, List.append_nil]
  have hstreams : ∀ conn, stream .recv (v.handled ++ [c]) conn =
        stream .recv (v.handled ++ []) conn ∧
      stream .send (v.handled ++ [c]) conn = stream .send (v.handled ++ []) conn :=
    fun conn => ⟨by rw [stream_append_of_ne (.inl hrecv), List.append_nil],
      by rw [stream_append_of_ne (.inl hsend), List.append_nil]⟩
  refine ⟨xs, ⟨hown.tracker, hown.clients, hown.opsLive, hown.nodesLive, hown.nodesNodup,
    hroots ▸ hown.balance, hroots ▸ hown.opsNodup, hown.fits, hown.userData, hown.clean⟩,
    fun hfaithful => ?_⟩
  have h := hecho hfaithful
  refine ⟨h.kernel, h.claimsNodup, h.claimsOpen, fun r hr fd conn hfd hconn => ?_,
    fun conn hidle => ?_, h.requests, h.completions, fun conn => ?_, h.transmitted⟩
  · rw [(hstreams conn).1, (hstreams conn).2]
    exact h.ahead r hr fd conn hfd hconn
  · rw [(hstreams conn).1, (hstreams conn).2]
    exact h.idle conn hidle
  · rw [(hstreams conn).1]
    exact h.received conn

/-- Handling the CQE of the timer retires its op. -/
theorem Reaped.countTimer (h : Reaped cfg c o v)
    (huser : c.userData = c.request.sqe.userData) (htimer : c.userData = timerReq)
    (hkind : c.request.sqe.opcode = .timeout) : Inv cfg [] [c] [] v := by
  obtain ⟨⟨⟨xs, hown, hecho⟩, -⟩, -⟩ := h
  have hop : (cqeReference c).op = timerReq := huser.symm.trans htimer
  have hnot : timerReq ∉ xs.map Prod.snd := by
    rintro hmem
    obtain ⟨x, hx, heq⟩ := List.mem_map.mp hmem
    exact (hown.clients x hx).ne_timerReq heq
  have hroots : roots cfg (v.handled ++ []) = [acceptReq, timerReq] := by
    have hmem : timerReq ∈ roots cfg (v.handled ++ []) ++ xs.map Prod.snd :=
      hown.balance.subset (by simp [hop])
    rw [List.mem_append, or_iff_left hnot, roots, List.mem_cons,
      or_iff_right (by decide)] at hmem
    split at hmem
    · rename_i hcond
      rw [roots, if_pos hcond]
    · simp at hmem
  have hroots' : roots cfg (v.handled ++ [c]) = [acceptReq] := by
    rw [roots, if_neg (by simp [htimer])]
  have hbalance := hown.balance
  have hnodup := hown.opsNodup
  rw [hroots] at hbalance hnodup
  refine ⟨xs, ⟨hown.tracker, hown.clients, hown.opsLive, hown.nodesLive, hown.nodesNodup,
    ?_, ?_, hown.fits, hown.userData, hown.clean⟩, fun hfaithful => ?_⟩
  · rw [hroots']
    rw [List.map_append, List.map_singleton, hop] at hbalance
    rw [List.append_nil]
    have hleft := List.perm_append_comm.symm.trans hbalance
    exact (hleft.trans (List.Perm.swap _ _ _)).cons_inv
  · rw [hroots']
    simp only [List.cons_append, List.nil_append, List.nodup_cons, List.mem_cons] at hnodup ⊢
    tauto
  · have h := hecho hfaithful
    have hclaim : claim (cqeReference c) = none := by simp [claim, cqeReference, hkind]
    have hclaims : claims (references v ++ []) =
        claims (references v ++ [cqeReference c]) := by
      simp [claims, hclaim]
    have hstreams : ∀ k conn, k ≠ .timeout → stream k (v.handled ++ [c]) conn =
        stream k (v.handled ++ []) conn := fun k conn hk => by
      rw [stream_append_of_ne (.inl (hkind ▸ hk.symm)), List.append_nil]
    refine ⟨h.kernel, hclaims ▸ h.claimsNodup, hclaims ▸ h.claimsOpen,
      fun r hr fd conn hfd hconn => ?_, fun conn hidle => ?_, h.requests, h.completions,
      fun conn => ?_, h.transmitted⟩
    · rw [hstreams _ _ (by decide), hstreams _ _ (by decide)]
      exact h.ahead r (List.mem_append_left _ (by simpa using hr)) fd conn hfd hconn
    · rw [hstreams _ _ (by decide), hstreams _ _ (by decide)]
      exact h.idle conn hidle
    · rw [hstreams _ _ (by decide)]
      exact h.received conn

/-- The op of a completed transfer is put to its next use. -/
theorem Reaped.turn (h : Reaped cfg c o v) (hne : c.userData ≠ timerReq)
    (htransfer : c.request.sqe.opcode = .recv ∨ c.request.sqe.opcode = .send)
    {r : Reference} (hop : r.op = c.request.sqe.userData)
    (hclaim : claim r = some c.request.sqe.fd)
    (hstream : v.faithful = true → CompletionOk cfg v c → ∀ conn,
      c.request.conn = some conn →
      stream .recv v.handled conn = stream .send v.handled conn ++ lag cfg v (cqeReference c) →
        stream .recv (v.handled ++ [c]) conn =
          stream .send (v.handled ++ [c]) conn ++ lag cfg v r)
    (hnonneg : 0 ≤ c.res) :
    Working cfg r [c] o v := by
  obtain ⟨⟨⟨xs, hown, hecho⟩, ho⟩, hcompletion⟩ := h
  have hroots : roots cfg (v.handled ++ [c]) = roots cfg (v.handled ++ []) := by
    rw [roots_append hne, List.append_nil]
  have hops : (references v ++ [r]).map Reference.op =
      (references v ++ [cqeReference c]).map Reference.op := by
    simp only [List.map_append, List.map_cons, List.map_nil, hop]
    rfl
  refine ⟨⟨xs, ⟨hown.tracker, hown.clients, hown.opsLive, hown.nodesLive, hown.nodesNodup,
    hops ▸ hroots ▸ hown.balance, hroots ▸ hown.opsNodup, hown.fits, hown.userData,
    hown.clean⟩, fun hfaithful => ?_⟩, hop ▸ ho⟩
  have h := hecho hfaithful
  have hok := hcompletion hfaithful
  obtain ⟨conn, hconn, hfd⟩ := hok.conn htransfer
  have hclaim' : claim (cqeReference c) = some c.request.sqe.fd :=
    claim_transfer htransfer _
  have hclaims : claims (references v ++ [r]) = claims (references v ++ [cqeReference c]) := by
    simp only [claims, List.filterMap_append, List.filterMap_cons, hclaim, hclaim']
  have hself : cqeReference c ∈ references v ++ [cqeReference c] := by simp
  -- the other connections do not notice
  have hother : ∀ k conn', conn' ≠ conn → stream k (v.handled ++ [c]) conn' =
      stream k (v.handled ++ []) conn' := fun k conn' hne' => by
    rw [stream_append_of_ne (.inr (by rw [hconn]; simpa using hne'.symm)), List.append_nil]
  refine ⟨h.kernel, hclaims ▸ h.claimsNodup, hclaims ▸ h.claimsOpen,
    fun r' hr' fd conn' hfd' hconn' => ?_, fun conn' hidle => ?_, h.requests, h.completions,
    fun conn' => ?_, h.transmitted⟩
  · have hnodup := h.claimsNodup
    rcases List.mem_append.mp hr' with hr' | hr'
    · have hmem : r' ∈ references v ++ [cqeReference c] := List.mem_append_left _ hr'
      have hne' : conn' ≠ conn := by
        rintro rfl
        obtain rfl := h.kernel.unique _ _ _ hconn' hfd
        obtain rfl := eq_of_claim_eq hnodup hmem hself hfd' hclaim'
        exact hown.held_ne hr' (List.mem_singleton_self _) rfl
      rw [hother _ _ hne', hother _ _ hne']
      exact h.ahead r' hmem fd conn' hfd' hconn'
    · rw [List.mem_singleton.mp hr'] at hfd' ⊢
      cases hclaim.symm.trans hfd'
      cases hfd.symm.trans hconn'
      have hahead := h.ahead _ hself _ _ hclaim' hfd
      rw [List.append_nil] at hahead
      exact hstream hfaithful hok conn hconn hahead
  · have hne' : conn' ≠ conn := by
      rintro rfl
      exact hidle _ hfd
    rw [hother _ _ hne', hother _ _ hne']
    exact h.idle conn' hidle
  · intro x hx
    rw [stream_append, List.mem_append] at hx
    rcases hx with hx | hx
    · exact h.received conn' x (by rwa [List.append_nil])
    · split at hx
      · rename_i hcond
        exact ((hok.recv hcond.1 hnonneg).2.1 x hx).trans hcond.2
      · cases hx

end Counting

end EchoServers.UringInvariant
