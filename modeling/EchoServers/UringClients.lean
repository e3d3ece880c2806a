import EchoServers.UringInvariant

namespace EchoServers.UringClients

open EchoServers.LinkedChains
open EchoServers.ServerUtils
open EchoServers.SocketKernel
open EchoServers.UringInvariant
open EchoServers.UringKernelSteps
open EchoServers.UringMemory
open EchoServers.UringOwnership
open EchoServers.UringQueues
open EchoServers.UringReferences
open EchoServers.UringServer
open EchoServers.UringStreams

section Sqes

variable (cfg : Config) (p : Ptr) (fd : Fd)

def acceptSqe : Sqe :=
  { opcode := .accept
    fd := cfg.listeningSocket
    offAddr2 := .acceptAddrlen acceptReq
    addr := .acceptAddr acceptReq
    opFlags := sockNonblock
    userData := acceptReq }

def timerSqe : Sqe :=
  { opcode := .timeout, addr := .timer timerReq, len := 1, userData := timerReq }

def recvSqe : Sqe :=
  { opcode := .recv
    fd := fd
    addr := .conBuf p
    len := UInt32.ofNat cfg.defaultServerBufferSize
    userData := p }

def sendSqe : Sqe :=
  { opcode := .send
    fd := fd
    addr := .conBuf p
    len := cfg.defaultBufferSize
    userData := p }

def closeSqe : Sqe := { opcode := .close, fd := fd, userData := p }

variable {cfg p fd} {o : IouOp}

theorem fits_accept (hop : o.op = .acceptedConnection)
    (hfd : o.infoAccept.fd = cfg.listeningSocket) : Fits cfg (acceptSqe cfg) (some o) := by
  refine ⟨o, rfl, .inl ⟨rfl, hop⟩, iouPrepAcceptSqe acceptReq o.infoAccept, ?_, ?_⟩
  · simp [iouPrepSqe, hop, acceptSqe]
  · simp [iouPrepAcceptSqe, acceptSqe, hfd]

theorem fits_timer (hop : o.op = .timerExpired) : Fits cfg timerSqe (some o) := by
  refine ⟨o, rfl, .inr (.inl ⟨rfl, hop⟩), iouPrepTimerSqe timerReq, ?_, rfl⟩
  simp [iouPrepSqe, hop, timerSqe]

variable (hp : p ≠ acceptReq ∧ p ≠ timerReq)
include hp

theorem fits_recv (hop : o.op = .recvFromClient) (hbusy : o.infoCon.busy = 1)
    (hfd : o.infoCon.fd = fd) (hlen : o.infoCon.buf.length = cfg.defaultServerBufferSize) :
    Fits cfg (recvSqe cfg p fd) (some o) := by
  refine ⟨o, rfl, .inr (.inr ⟨hp.1, hp.2, .inl ⟨hop, hbusy⟩⟩), iouPrepRecvSqe p o.infoCon,
    ?_, ?_⟩
  · simp [iouPrepSqe, hop, recvSqe]
  · simp [iouPrepRecvSqe, recvSqe, hfd, hlen]

theorem fits_send (hop : o.op = .sendToClient) (hbusy : o.infoCon.busy = 1)
    (hfd : o.infoCon.fd = fd) (hlen : o.infoCon.bufSendLen = cfg.defaultBufferSize) :
    Fits cfg (sendSqe cfg p fd) (some o) := by
  refine ⟨o, rfl, .inr (.inr ⟨hp.1, hp.2, .inr (.inl ⟨hop, hbusy, hlen⟩)⟩),
    iouPrepSendSqe p o.infoCon, ?_, ?_⟩
  · simp [iouPrepSqe, hop, sendSqe]
  · simp [iouPrepSendSqe, sendSqe, hfd, hlen]

theorem fits_close (hop : o.op = .closeConnection) (hbusy : o.infoCon.busy ≠ 1)
    (hfd : o.infoCon.fd = fd) : Fits cfg (closeSqe p fd) (some o) := by
  refine ⟨o, rfl, .inr (.inr ⟨hp.1, hp.2, .inr (.inr ⟨hop, hbusy⟩)⟩),
    iouPrepCloseSqe o.infoCon, ?_, ?_⟩
  · simp [iouPrepSqe, hop]
  · simp [iouPrepCloseSqe, closeSqe, hfd]

end Sqes

section Turns

variable {cfg : Config} {v : View} {c : Cqe} {o : IouOp}

/-- What a receive has moved is the number the handler sees. -/
theorem moved_length (h : Reaped cfg c o v) (hfaithful : v.faithful = true)
    (hkind : c.request.sqe.opcode = .recv) (hnonneg : 0 ≤ c.res)
    (hbuf : o.infoCon.buf.length = cfg.defaultServerBufferSize) :
    c.request.moved.length = (UInt32.ofNat c.res.toNat).toNat ∧
      c.request.moved <+: buffer (v.ops c.request.sqe.userData) := by
  obtain ⟨hres, -, hpre⟩ := (h.2 hfaithful).recv hkind hnonneg
  refine ⟨?_, hpre⟩
  have hlen := hpre.length_le
  have ho : v.ops c.request.sqe.userData = some o := h.1.2
  have hlt := cfg.buffer_lt
  rw [ho, buffer, hbuf, ServerConfig.defaultServerBufferSize] at hlen
  rw [hres, Int.toNat_natCast, UInt32.toNat_ofNat', Nat.mod_eq_of_lt]
  omega

/-- A received message is what the send is going to transmit. -/
theorem working_send (h : Reaped cfg c o v) (hne : c.userData ≠ timerReq)
    (hkind : c.request.sqe.opcode = .recv)
    (hbuf : o.infoCon.buf.length = cfg.defaultServerBufferSize) (hnonneg : 0 ≤ c.res)
    (hres : UInt32.ofNat c.res.toNat = cfg.defaultBufferSize) :
    Working cfg { sqe := sendSqe cfg c.request.sqe.userData c.request.sqe.fd } [c] o v := by
  refine h.turn hne (.inl hkind) rfl rfl (fun hfaithful _ conn hconn hahead => ?_) hnonneg
  obtain ⟨hlen, hpre⟩ := moved_length h hfaithful hkind hnonneg hbuf
  have hmessage : c.request.moved = message cfg (v.ops c.request.sqe.userData) := by
    rw [message, List.prefix_iff_eq_take.mp hpre, hlen, hres]
  rw [lag_of_ne (by simp [cqeReference, hkind]), List.append_nil] at hahead
  rw [stream_append, if_pos ⟨hkind, hconn⟩, stream_append_of_ne (.inl (by simp [hkind])),
    hahead, hmessage]
  rfl

/-- The end of the stream moves no bytes. -/
theorem working_close (h : Reaped cfg c o v) (hne : c.userData ≠ timerReq)
    (hkind : c.request.sqe.opcode = .recv)
    (hbuf : o.infoCon.buf.length = cfg.defaultServerBufferSize) (hnonneg : 0 ≤ c.res)
    (hres : UInt32.ofNat c.res.toNat = 0) :
    Working cfg { sqe := closeSqe c.request.sqe.userData c.request.sqe.fd } [c] o v := by
  refine h.turn hne (.inl hkind) rfl (by simp [claim, closeSqe])
    (fun hfaithful _ conn hconn hahead => ?_) hnonneg
  obtain ⟨hlen, -⟩ := moved_length h hfaithful hkind hnonneg hbuf
  have hnil : c.request.moved = [] := List.eq_nil_of_length_eq_zero (by rw [hlen, hres]; rfl)
  rw [lag_of_ne (by simp [cqeReference, hkind]), List.append_nil] at hahead
  rw [stream_append, if_pos ⟨hkind, hconn⟩, stream_append_of_ne (.inl (by simp [hkind])),
    hnil, lag_of_ne (by simp [closeSqe]), List.append_nil, List.append_nil, hahead]

/-- A send that reports at least a message has transmitted the message. -/
theorem working_recv (h : Reaped cfg c o v) (hne : c.userData ≠ timerReq)
    (hkind : c.request.sqe.opcode = .send)
    (hres : (cfg.defaultBufferSize.toNat : Int) ≤ c.res) :
    Working cfg { sqe := recvSqe cfg c.request.sqe.userData c.request.sqe.fd } [c] o v := by
  refine h.turn hne (.inr hkind) rfl rfl (fun _ hok conn hconn hahead => ?_) (by omega)
  obtain ⟨hpre, hmoved⟩ := hok.send hkind
  have hlen := hmoved (by omega)
  have hmessage : c.request.moved = message cfg (v.ops c.request.sqe.userData) := by
    refine hpre.eq_of_length (Nat.le_antisymm hpre.length_le ?_)
    have := List.length_take_le cfg.defaultBufferSize.toNat
      (buffer (v.ops c.request.sqe.userData))
    rw [message]
    omega
  have hlag : lag cfg v (cqeReference c) = c.request.moved := by
    rw [hmessage]
    exact if_pos hkind
  rw [hlag] at hahead
  rw [stream_append_of_ne (.inl (by simp [hkind])), stream_append, if_pos ⟨hkind, hconn⟩,
    lag_of_ne (by simp [recvSqe]), List.append_nil, hahead]

end Turns

section Tracking

variable {cfg : Config} {held : List Reference} {cur : List Cqe} {v : View}
  {xs : List (Ptr × Ptr)} {r : Reference} {p n : Ptr} {o : IouOp}
  {nodes : Ptr → Option IouOpMemTrackerNode} {tracker : IouOpMemTracker}

theorem owned_addClient (h : Owned cfg [r] cur [n] xs v) (hp : v.ops p = none)
    (hnode : o.memTracker = some n)
    (hbuf : o.infoCon.buf.length = cfg.defaultServerBufferSize)
    (hnodes : ∀ m, (nodes m).map IouOpMemTrackerNode.allocatedOp =
      if m = n then some (some p) else (v.nodes m).map IouOpMemTrackerNode.allocatedOp)
    (hlinked : DoublyLinked (fun m => (nodes m).bind fun k => k.next)
      (fun m => (nodes m).bind fun k => k.prev) tracker.head tracker.tail
      (xs.map Prod.fst ++ [n])) {s : Sqe} (hs : s.userData = p) :
    Owned cfg [{ sqe := s }, { sqe := r.sqe }] cur [] (xs ++ [(n, p)])
      { v with
        ops := Function.update v.ops p (some o)
        nodes := nodes
        memAllocsTracker := tracker } := by
  have hne : ∀ q, (v.ops q).isSome → q ≠ p := by
    rintro q hq rfl
    rw [hp] at hq
    cases hq
  have hlive : ∀ q, q ∈ roots cfg (v.handled ++ cur) ++ xs.map Prod.snd → q ≠ p :=
    fun q hq => hne q (h.live hq)
  have hfst : (xs ++ [(n, p)]).map Prod.fst = xs.map Prod.fst ++ [n] := by simp
  have hsnd : (xs ++ [(n, p)]).map Prod.snd = xs.map Prod.snd ++ [p] := by simp
  refine ⟨hfst ▸ hlinked, fun x hx => ?_, fun q => ?_, fun m => ?_, ?_, ?_, ?_,
    fun r' hr' => ?_, h.userData, h.clean⟩
  · rcases List.mem_append.mp hx with hx | hx
    · have hclient := h.clients x hx
      have hx1 : x.1 ≠ n := by
        rintro heq
        have hnodup := h.nodesNodup
        rw [List.nodup_append] at hnodup
        exact hnodup.2.2 _ (List.mem_map_of_mem hx) _ (List.mem_singleton_self n) heq
      have hx2 : x.2 ≠ p := hlive _ (List.mem_append_right _ (List.mem_map_of_mem hx))
      refine ⟨?_, ?_, hclient.ne_acceptReq, hclient.ne_timerReq⟩
      · obtain ⟨m, hm, hallocated⟩ := hclient.node
        have hmap := hnodes x.1
        rw [if_neg hx1, hm, Option.map_some, hallocated, Option.map_eq_some_iff] at hmap
        exact hmap
      · obtain ⟨o₁, ho₁, hrest⟩ := hclient.op
        exact ⟨o₁, (Function.update_of_ne hx2 _ _).trans ho₁, hrest⟩
    · rw [List.mem_singleton.mp hx]
      refine ⟨?_, ⟨o, Function.update_self .., hnode, hbuf⟩, ?_, ?_⟩
      · have hmap := hnodes n
        rw [if_pos rfl, Option.map_eq_some_iff] at hmap
        exact hmap
      · exact (hne _ ((h.opsLive acceptReq).mpr (.inl rfl))).symm
      · exact (hne _ ((h.opsLive timerReq).mpr (.inr (.inl rfl)))).symm
  · rw [hsnd, List.mem_append, List.mem_singleton]
    rcases eq_or_ne q p with rfl | hqp
    · simp
    · simp only [Function.update_of_ne hqp, h.opsLive, hqp, or_false]
  · have hmap := congrArg Option.isSome (hnodes m)
    rw [Option.isSome_map] at hmap
    rw [hmap, hfst, List.append_nil, ← h.nodesLive]
    rcases eq_or_ne m n with rfl | hmn
    · simp [h.nodesLive]
    · simp [hmn]
  · rw [hfst, List.append_nil]
    exact h.nodesNodup
  · have hperm := h.balance
    rw [List.map_append] at hperm
    rw [hsnd, ← List.append_assoc, List.map_append]
    refine List.Perm.trans ?_ (hperm.append_right [p])
    simp only [List.map_cons, List.map_nil, Reference.op, hs, List.append_assoc,
      List.cons_append, List.nil_append]
    exact (List.Perm.swap _ _ _).append_left _
  · rw [hsnd, ← List.append_assoc, List.nodup_append]
    refine ⟨h.opsNodup, by simp, fun q hq q' hq' => ?_⟩
    rw [List.mem_singleton.mp hq']
    exact hlive q hq
  · have hfits := h.fits r' hr'
    obtain ⟨o', ho', -⟩ := id hfits
    have hr'p : r'.op ≠ p := hne _ (by rw [ho']; rfl)
    simp only [Function.update_of_ne hr'p]
    exact hfits

theorem owned_dropClient {ys zs : List (Ptr × Ptr)}
    (h : Owned cfg [r] cur [] (ys ++ (n, r.op) :: zs) v)
    (hnodes : ∀ m, (nodes m).map IouOpMemTrackerNode.allocatedOp =
      if m = n then none else (v.nodes m).map IouOpMemTrackerNode.allocatedOp)
    (hlinked : DoublyLinked (fun m => (nodes m).bind fun k => k.next)
      (fun m => (nodes m).bind fun k => k.prev) tracker.head tracker.tail
      ((ys ++ zs).map Prod.fst)) (freedOps freedNodes : List Ptr) :
    Owned cfg [] cur [] (ys ++ zs)
      { v with
        ops := Function.update v.ops r.op none
        nodes := nodes
        memAllocsTracker := tracker
        freedOps := freedOps
        freedNodes := freedNodes } := by
  have hperm : (ys ++ (n, r.op) :: zs).Perm ((n, r.op) :: (ys ++ zs)) := List.perm_middle
  have hnodesNodup : (n :: (ys ++ zs).map Prod.fst).Nodup := by
    have hnodup := h.nodesNodup
    rw [List.append_nil] at hnodup
    exact (hperm.map Prod.fst).nodup_iff.mp hnodup
  have hsnd : (roots cfg (v.handled ++ cur) ++ (ys ++ (n, r.op) :: zs).map Prod.snd).Perm
      (r.op :: (roots cfg (v.handled ++ cur) ++ (ys ++ zs).map Prod.snd)) :=
    ((hperm.map Prod.snd).append_left _).trans List.perm_middle
  have hopsNodup := hsnd.nodup_iff.mp h.opsNodup
  have hop : ∀ x ∈ ys ++ zs, x.1 ≠ n ∧ x.2 ≠ r.op := by
    intro x hx
    constructor
    · rintro rfl
      exact (List.nodup_cons.mp hnodesNodup).1 (List.mem_map_of_mem hx)
    · intro heq
      refine (List.nodup_cons.mp hopsNodup).1 (List.mem_append_right _ ?_)
      rw [← heq]
      exact List.mem_map_of_mem hx
  have hself := h.clients (n, r.op) (by simp)
  refine ⟨hlinked, fun x hx => ?_, fun q => ?_, fun m => ?_, ?_, ?_,
    (List.nodup_cons.mp hopsNodup).2, fun r' hr' => ?_, h.userData, h.clean⟩
  · have hclient := h.clients x (hperm.symm.subset (List.mem_cons_of_mem _ hx))
    obtain ⟨hx1, hx2⟩ := hop x hx
    refine ⟨?_, ?_, hclient.ne_acceptReq, hclient.ne_timerReq⟩
    · obtain ⟨m, hm, hallocated⟩ := hclient.node
      have hmap := hnodes x.1
      rw [if_neg hx1, hm, Option.map_some, hallocated, Option.map_eq_some_iff] at hmap
      exact hmap
    · obtain ⟨o₁, ho₁, hrest⟩ := hclient.op
      exact ⟨o₁, (Function.update_of_ne hx2 _ _).trans ho₁, hrest⟩
  · have hlive := h.opsLive q
    rw [(hperm.map Prod.snd).mem_iff, List.map_cons, List.mem_cons] at hlive
    rcases eq_or_ne q r.op with rfl | hq
    · have hnot : r.op ∉ (ys ++ zs).map Prod.snd := fun hmem =>
        (List.nodup_cons.mp hopsNodup).1 (List.mem_append_right _ hmem)
      simp only [Function.update_self, Option.isSome_none, Bool.false_eq_true, false_iff]
      rintro (heq | heq | hmem)
      · exact hself.ne_acceptReq heq
      · exact hself.ne_timerReq heq
      · exact hnot hmem
    · simp only [Function.update_of_ne hq, hlive, hq, false_or]
  · have hmap := congrArg Option.isSome (hnodes m)
    rw [Option.isSome_map] at hmap
    have hlive := h.nodesLive m
    rw [List.append_nil, (hperm.map Prod.fst).mem_iff, List.map_cons, List.mem_cons] at hlive
    rw [hmap, List.append_nil]
    rcases eq_or_ne m n with rfl | hm
    · simp only [if_pos, Option.isSome_none, Bool.false_eq_true, false_iff]
      exact (List.nodup_cons.mp hnodesNodup).1
    · rw [if_neg hm, Option.isSome_map, hlive, or_iff_right hm]
  · rw [List.append_nil]
    exact (List.nodup_cons.mp hnodesNodup).2
  · have hbalance := h.balance.trans hsnd
    rw [List.map_append, List.map_singleton] at hbalance
    rw [List.append_nil]
    exact (List.perm_append_comm.symm.trans hbalance).cons_inv
  · have hne : r'.op ≠ r.op := (h.held_ne hr' (List.mem_singleton_self r)).symm
    simp only [Function.update_of_ne hne]
    exact h.fits r' hr'

/-- The law does not depend on how the server holds a claim. -/
theorem echoes_reheld {held' : List Reference} {v' : View} (h : Echoes cfg held cur v)
    (hkernel : v'.kernel = v.kernel) (hhandled : v'.handled = v.handled)
    (hpending : v'.pending = v.pending) (hinflight : v'.inflight = v.inflight)
    (hunreaped : v'.unreaped = v.unreaped) (hclaims : claims held' = claims held)
    (hlag : ∀ r' ∈ held', lag cfg v' r' = []) (hlag' : ∀ r ∈ held, lag cfg v r = [])
    (hops : ∀ r ∈ references v, v'.ops r.op = v.ops r.op) :
    Echoes cfg held' cur v' := by
  have hrefs : references v' = references v := by
    simp only [references, hpending, hinflight, hunreaped]
  have hall : claims (references v' ++ held') = claims (references v ++ held) := by
    rw [hrefs]
    simp only [claims, List.filterMap_append] at hclaims ⊢
    rw [hclaims]
  refine ⟨hkernel ▸ h.kernel, hall ▸ h.claimsNodup, fun fd => ?_, fun r' hr' fd c hfd hc => ?_,
    ?_, fun r hr => ?_, fun q hq => ?_, hhandled ▸ h.received, hkernel ▸ h.transmitted⟩
  · rw [hall, hkernel]
    exact h.claimsOpen fd
  · rw [hkernel] at hc
    rw [hhandled]
    rw [hrefs] at hr'
    rcases List.mem_append.mp hr' with hr' | hr'
    · have hsame : lag cfg v' r' = lag cfg v r' := by rw [lag, lag, hops r' hr']
      rw [hsame]
      exact h.ahead r' (List.mem_append_left _ hr') fd c hfd hc
    · have hmem : fd ∈ claims held := hclaims ▸ mem_claims hr' hfd
      obtain ⟨r, hr, hrfd⟩ := List.mem_filterMap.mp hmem
      have hahead := h.ahead r (List.mem_append_right _ hr) fd c hrfd hc
      rw [hlag r' hr', ← hlag' r hr]
      exact hahead
  · rw [hkernel, hhandled]
    exact h.idle
  · rw [hinflight] at hr
    refine (h.requests r hr).congr (by rw [hkernel]) fun _ => congrArg buffer ?_
    exact hops _ (mem_references_inflight hr)
  · rw [hunreaped] at hq
    refine (h.completions q hq).congr (by rw [hkernel]) (congrArg buffer ?_)
    exact hops _ (mem_references_unreaped hq)

/-- A new tracker node, not linked yet. -/
theorem inv_addSpare (h : Inv cfg held cur [] v) (hn : v.nodes n = none)
    (m : IouOpMemTrackerNode) :
    Inv cfg held cur [n] { v with nodes := Function.update v.nodes n (some m) } := by
  obtain ⟨xs, hown, hecho⟩ := h
  have hlive : ∀ k ∈ xs.map Prod.fst, k ≠ n := by
    rintro k hk rfl
    have := (hown.nodesLive k).mpr (List.mem_append_left _ hk)
    rw [hn] at this
    cases this
  refine ⟨xs, ⟨?_, fun x hx => ?_, hown.opsLive, fun k => ?_, ?_, hown.balance,
    hown.opsNodup, hown.fits, hown.userData, hown.clean⟩, fun hfaithful => ?_⟩
  · refine hown.tracker.congr (fun k hk => ?_) fun k hk => ?_
    · simp only [nextOf, Function.update_of_ne (hlive k hk)]
    · simp only [prevOf, Function.update_of_ne (hlive k hk)]
  · have hx' := hown.clients x hx
    refine ⟨?_, hx'.op, hx'.ne_acceptReq, hx'.ne_timerReq⟩
    simp only [Function.update_of_ne (hlive _ (List.mem_map_of_mem hx))]
    exact hx'.node
  · have hk := hown.nodesLive k
    rw [List.append_nil] at hk
    rw [List.mem_append, List.mem_singleton, ← hk]
    rcases eq_or_ne k n with rfl | hne
    · simp
    · simp only [Function.update_of_ne hne, hne, or_false]
  · have hnodup := hown.nodesNodup
    rw [List.append_nil] at hnodup
    refine List.nodup_append.mpr ⟨hnodup, by simp, fun k hk k' hk' => ?_⟩
    rw [List.mem_singleton.mp hk']
    exact hlive k hk
  · have h := hecho hfaithful
    exact h.frame h.kernel rfl rfl (List.Perm.refl _) (fun _ _ _ => rfl)
      (fun r hr => (h.requests r hr).congr rfl fun _ => rfl)
      (fun q hq => (h.completions q hq).congr rfl rfl) h.transmitted

/-- The new client holds the socket that the accept request handed out. -/
theorem inv_addClient {s : Sqe} (hown : Owned cfg [r] cur [n] xs v)
    (hecho : v.faithful = true → Echoes cfg [r] cur v) (hp : v.ops p = none)
    (hnode : o.memTracker = some n)
    (hbuf : o.infoCon.buf.length = cfg.defaultServerBufferSize)
    (hnodes : ∀ m, (nodes m).map IouOpMemTrackerNode.allocatedOp =
      if m = n then some (some p) else (v.nodes m).map IouOpMemTrackerNode.allocatedOp)
    (hlinked : DoublyLinked (fun m => (nodes m).bind fun k => k.next)
      (fun m => (nodes m).bind fun k => k.prev) tracker.head tracker.tail
      (xs.map Prod.fst ++ [n]))
    (hs : s.userData = p) (hrecv : s.opcode = .recv) (hkind : r.sqe.opcode = .accept)
    (hres : r.res = some s.fd) (hfd : 0 ≤ s.fd) :
    Inv cfg [{ sqe := s }, { sqe := r.sqe }] cur []
      { v with
        ops := Function.update v.ops p (some o)
        nodes := nodes
        memAllocsTracker := tracker } := by
  refine ⟨_, owned_addClient hown hp hnode hbuf hnodes hlinked hs, fun hfaithful => ?_⟩
  refine echoes_reheld (hecho hfaithful) rfl rfl rfl rfl rfl ?_ ?_ ?_ fun r' hr' => ?_
  · have hclient : claim { sqe := s } = some s.fd := claim_transfer (.inl hrecv) none
    have haccept : claim { sqe := r.sqe } = none := by simp [claim, hkind]
    have hclaim : claim r = some s.fd := by simp [claim, hkind, hres, hfd]
    simp [claims, hclient, haccept, hclaim]
  · intro r' hr'
    simp only [List.mem_cons, List.not_mem_nil, or_false] at hr'
    rcases hr' with rfl | rfl
    · exact lag_of_ne (by simp [hrecv])
    · exact lag_of_ne (by simp [hkind])
  · intro r' hr'
    rw [List.mem_singleton.mp hr']
    exact lag_of_ne (by simp [hkind])
  · obtain ⟨o', ho', -⟩ := hown.fits r' hr'
    have hne : r'.op ≠ p := by
      rintro rfl
      rw [hp] at ho'
      cases ho'
    simp only [Function.update_of_ne hne]

/-- A client whose socket is closed leaves without a claim. -/
theorem inv_dropClient {ys zs : List (Ptr × Ptr)}
    (nodes : Ptr → Option IouOpMemTrackerNode) (tracker : IouOpMemTracker)
    (hown : Owned cfg [r] cur [] (ys ++ (n, r.op) :: zs) v)
    (hecho : v.faithful = true → Echoes cfg [r] cur v)
    (hnodes : ∀ m, (nodes m).map IouOpMemTrackerNode.allocatedOp =
      if m = n then none else (v.nodes m).map IouOpMemTrackerNode.allocatedOp)
    (hlinked : DoublyLinked (fun m => (nodes m).bind fun k => k.next)
      (fun m => (nodes m).bind fun k => k.prev) tracker.head tracker.tail
      ((ys ++ zs).map Prod.fst)) (freedOps freedNodes : List Ptr)
    (hkind : r.sqe.opcode = .close) (hres : r.res = some 0) :
    Inv cfg [] cur []
      { v with
        ops := Function.update v.ops r.op none
        nodes := nodes
        memAllocsTracker := tracker
        freedOps := freedOps
        freedNodes := freedNodes } := by
  refine ⟨_, owned_dropClient hown hnodes hlinked freedOps freedNodes, fun hfaithful => ?_⟩
  refine echoes_reheld (hecho hfaithful) rfl rfl rfl rfl rfl ?_ (by simp) ?_ fun r' hr' => ?_
  · have hclaim : claim r = none := by simp [claim, hkind, hres]
    simp [claims, hclaim]
  · intro r' hr'
    rw [List.mem_singleton.mp hr']
    exact lag_of_ne (by simp [hkind])
  · have hne : r'.op ≠ r.op := (hown.held_ne hr' (List.mem_singleton_self r)).symm
    simp only [Function.update_of_ne hne]

end Tracking

end EchoServers.UringClients
