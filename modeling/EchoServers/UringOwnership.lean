import EchoServers.UringReferences

namespace EchoServers.UringOwnership

open EchoServers.LinkedChains
open EchoServers.ServerUtils
open EchoServers.SocketKernel
open EchoServers.UringKernelSteps
open EchoServers.UringMemory
open EchoServers.UringReferences
open EchoServers.UringServer

/-- The ops on the stack of `service_loop` that are in use after the CQEs in
`log` have been handled. -/
def roots (cfg : Config) (log : List Cqe) : List Ptr :=
  acceptReq :: if cfg.doServerSideBenchmarking = true ∧ timerReq ∉ log.map Cqe.userData
    then [timerReq] else []

def nextOf (s : Server) (n : Ptr) : Option Ptr := (s.nodes n).bind fun m => m.next

def prevOf (s : Server) (n : Ptr) : Option Ptr := (s.nodes n).bind fun m => m.prev

/-- A tracker node and the op it tracks, linked to each other. -/
structure Client (cfg : Config) (s : Server) (x : Ptr × Ptr) : Prop where
  node : ∃ m, s.nodes x.1 = some m ∧ m.allocatedOp = some x.2
  op : ∃ o, s.ops x.2 = some o ∧ o.memTracker = some x.1 ∧
    o.infoCon.buf.length = cfg.defaultServerBufferSize
  ne_acceptReq : x.2 ≠ acceptReq
  ne_timerReq : x.2 ≠ timerReq

/-- The tracked ops are `xs`, in the order of the tracker.  The server itself
holds the references `held` and the nodes `spare` that are not tracked yet, and
is done with the CQEs `cur` except for recording that. -/
structure Owned (cfg : Config) (held : List Reference) (cur : List Cqe)
    (spare : List Ptr) (xs : List (Ptr × Ptr)) (v : View) : Prop where
  tracker : DoublyLinked (nextOf v.toServer) (prevOf v.toServer) v.memAllocsTracker.head
    v.memAllocsTracker.tail (xs.map Prod.fst)
  clients : ∀ x ∈ xs, Client cfg v.toServer x
  opsLive : ∀ p, (v.ops p).isSome ↔ p = acceptReq ∨ p = timerReq ∨ p ∈ xs.map Prod.snd
  nodesLive : ∀ n, (v.nodes n).isSome ↔ n ∈ xs.map Prod.fst ++ spare
  nodesNodup : (xs.map Prod.fst ++ spare).Nodup
  balance : ((references v ++ held).map Reference.op).Perm
    (roots cfg (v.handled ++ cur) ++ xs.map Prod.snd)
  opsNodup : (roots cfg (v.handled ++ cur) ++ xs.map Prod.snd).Nodup
  fits : ∀ r ∈ references v, Fits cfg r.sqe (v.ops r.op)
  userData : ∀ c ∈ v.unreaped, c.userData = c.request.sqe.userData
  clean : v.faults = []

/-- At most the bytes in its buffer have changed. -/
def Rebuffered (o o' : Option IouOp) : Prop :=
  o' = o ∨ ∃ x buf, o = some x ∧ o' = some (setBuf x buf) ∧
    buf.length = x.infoCon.buf.length

section Frame

variable {cfg : Config} {held : List Reference} {cur : List Cqe} {spare : List Ptr}
  {xs : List (Ptr × Ptr)} {v v' : View}

theorem Rebuffered.isSome {o o' : Option IouOp} (h : Rebuffered o o') :
    o'.isSome = o.isSome := by
  rcases h with rfl | ⟨x, buf, rfl, rfl, -⟩ <;> rfl

theorem Rebuffered.fits {o o' : Option IouOp} {s : Sqe} (h : Rebuffered o o')
    (hfits : Fits cfg s o) : Fits cfg s o' := by
  rcases h with rfl | ⟨x, buf, rfl, rfl, hlen⟩
  · exact hfits
  · exact hfits.setBuf hlen

theorem Client.rebuffered {s s' : Server} {x : Ptr × Ptr} (h : Client cfg s x)
    (hnodes : s'.nodes = s.nodes) (hops : Rebuffered (s.ops x.2) (s'.ops x.2)) :
    Client cfg s' x := by
  refine ⟨hnodes ▸ h.node, ?_, h.ne_acceptReq, h.ne_timerReq⟩
  obtain ⟨o, ho, htracker, hbuf⟩ := h.op
  rcases hops with heq | ⟨y, buf, hy, heq, hlen⟩
  · exact ⟨o, heq.trans ho, htracker, hbuf⟩
  · cases ho.symm.trans hy
    exact ⟨_, heq, htracker, hlen.trans hbuf⟩

/-- What the server owns does not change as long as the kernel only moves
references on and writes into buffers. -/
theorem Owned.frame (h : Owned cfg held cur spare xs v) (hnodes : v'.nodes = v.nodes)
    (htracker : v'.memAllocsTracker = v.memAllocsTracker)
    (hhandled : v'.handled = v.handled) (hfaults : v'.faults = v.faults)
    (hops : ∀ p, Rebuffered (v.ops p) (v'.ops p))
    (hrefs : ((references v').map Reference.sqe).Perm
      ((references v).map Reference.sqe))
    (hunreaped : ∀ c ∈ v'.unreaped, c.userData = c.request.sqe.userData) :
    Owned cfg held cur spare xs v' := by
  have hperm : ((references v').map Reference.op).Perm
      ((references v).map Reference.op) := by
    have hops := hrefs.map Sqe.userData
    rw [List.map_map, List.map_map] at hops
    exact hops
  have hnext : nextOf v'.toServer = nextOf v.toServer := by
    funext n
    rw [nextOf, nextOf, hnodes]
  have hprev : prevOf v'.toServer = prevOf v.toServer := by
    funext n
    rw [prevOf, prevOf, hnodes]
  refine ⟨?_, fun x hx => (h.clients x hx).rebuffered hnodes (hops _), fun p => ?_,
    hnodes ▸ h.nodesLive, h.nodesNodup, ?_, hhandled ▸ h.opsNodup, fun r hr => ?_,
    hunreaped, hfaults ▸ h.clean⟩
  · rw [hnext, hprev, htracker]
    exact h.tracker
  · rw [(hops p).isSome]
    exact h.opsLive p
  · rw [List.map_append, hhandled]
    refine (hperm.append_right _).trans ?_
    rw [← List.map_append]
    exact h.balance
  · have hmem := hrefs.subset (List.mem_map_of_mem hr)
    obtain ⟨r', hr', hsqe⟩ := List.mem_map.mp hmem
    have hfits := h.fits r' hr'
    rw [Reference.op, hsqe] at hfits
    exact (hops _).fits hfits

theorem Owned.live (h : Owned cfg held cur spare xs v) {q : Ptr}
    (hq : q ∈ roots cfg (v.handled ++ cur) ++ xs.map Prod.snd) : (v.ops q).isSome := by
  rw [h.opsLive]
  rcases List.mem_append.mp hq with hq | hq
  · rw [roots, List.mem_cons] at hq
    rcases hq with rfl | hq
    · exact .inl rfl
    · split at hq
      · exact .inr (.inl (List.mem_singleton.mp hq))
      · cases hq
  · exact .inr (.inr hq)

/-- An op the server holds is none of those the kernel works on. -/
theorem Owned.held_ne (h : Owned cfg held cur spare xs v) {r r' : Reference}
    (hr : r ∈ references v) (hr' : r' ∈ held) : r'.op ≠ r.op := by
  have hnodup := h.balance.nodup_iff.mpr h.opsNodup
  rw [List.map_append, List.nodup_append] at hnodup
  exact fun heq => hnodup.2.2 _ (List.mem_map_of_mem hr) _ (List.mem_map_of_mem hr') heq.symm

/-- Two references to one op are the same reference. -/
theorem Owned.eq_of_op_eq (h : Owned cfg held cur spare xs v) {r r' : Reference}
    (hr : r ∈ references v) (hr' : r' ∈ references v) (hop : r.op = r'.op) : r = r' := by
  have hnodup := h.balance.nodup_iff.mpr h.opsNodup
  rw [List.map_append] at hnodup
  exact List.inj_on_of_nodup_map (List.Nodup.of_append_left hnodup) hr hr' hop

/-- A request to receive or to send works on the buffer of its own op. -/
theorem Owned.request_addr (h : Owned cfg held cur spare xs v) {r : Request}
    (hr : r ∈ v.inflight) (hkind : r.sqe.opcode = .recv ∨ r.sqe.opcode = .send) :
    r.sqe.addr = .conBuf r.sqe.userData ∧ ∃ o, v.ops r.sqe.userData = some o := by
  have hfits : Fits cfg r.sqe (v.ops r.sqe.userData) :=
    h.fits _ (mem_references_inflight hr)
  obtain ⟨o, ho, -⟩ := id hfits
  rw [ho] at hfits
  rcases hkind with hkind | hkind
  · exact ⟨(hfits.recv hkind).2.1, o, ho⟩
  · exact ⟨(hfits.send hkind).2.1, o, ho⟩

/-- A request that transfers data belongs to a client. -/
theorem Owned.request_len (h : Owned cfg held cur spare xs v) {r : Request} {o : IouOp}
    (hr : r ∈ v.inflight) (hkind : r.sqe.opcode = .recv)
    (ho : v.ops r.sqe.userData = some o) :
    r.sqe.len.toNat = o.infoCon.buf.length := by
  have hfits : Fits cfg r.sqe (v.ops r.sqe.userData) :=
    h.fits _ (mem_references_inflight hr)
  rw [ho] at hfits
  obtain ⟨hop, -, -, hlen⟩ := hfits.recv hkind
  have hlive := (h.opsLive r.sqe.userData).mp (by rw [ho]; rfl)
  have hok := hfits.opOk
  simp only [OpOk, hop, reduceCtorEq, and_false, false_or] at hok
  obtain ⟨x, hx, heq⟩ : ∃ x ∈ xs, x.2 = r.sqe.userData := by
    simpa [hok.1, hok.2.1] using hlive
  obtain ⟨o', ho', -, hbuf⟩ := (h.clients x hx).op
  rw [heq, ho] at ho'
  cases ho'
  have hlt := cfg.buffer_lt
  rw [hlen, hbuf, UInt32.toNat_ofNat', Nat.mod_eq_of_lt]
  rw [ServerConfig.defaultServerBufferSize]
  omega

end Frame

section Steps

variable {cfg : Config} {held : List Reference} {cur : List Cqe} {spare : List Ptr}
  {xs : List (Ptr × Ptr)} {v v' : View}

theorem rebuffered_withOp {p : Ptr} {o : IouOp} (hop : v.ops p = some o)
    {data : List Octet} (hlen : data.length ≤ o.infoCon.buf.length) (q : Ptr) :
    Rebuffered (v.ops q)
      ((v.withOp p (some (setBuf o (overwrite o.infoCon.buf data)))).ops q) := by
  rcases eq_or_ne q p with rfl | hne
  · refine .inr ⟨o, overwrite o.infoCon.buf data, hop, by simp [View.withOp], ?_⟩
    simp only [overwrite, List.length_append, List.length_drop]
    omega
  · exact .inl (by simp [View.withOp, hne])

/-- Completing a request moves its reference on to the unreaped CQEs. -/
theorem Owned.complete (h : Owned cfg held cur spare xs v) {before after : List Request}
    {r q : Request} {u : View} (hinflight : v.inflight = before ++ r :: after)
    (hsqe : q.sqe = r.sqe) (res : Int) (hpending : u.pending = v.pending)
    (hunreaped : u.unreaped = v.unreaped) (hnodes : u.nodes = v.nodes)
    (htracker : u.memAllocsTracker = v.memAllocsTracker)
    (hhandled : u.handled = v.handled) (hfaults : u.faults = v.faults)
    (hops : ∀ p, Rebuffered (v.ops p) (u.ops p)) :
    Owned cfg held cur spare xs (u.complete before after q res) := by
  obtain ⟨rest, hrefs, hrefs'⟩ := references_complete hinflight hpending hunreaped hsqe res
  refine h.frame hnodes htracker hhandled hfaults hops ?_ fun c hc => ?_
  · exact (hrefs'.map _).trans (hrefs.map Reference.sqe).symm
  · simp only [View.complete, hunreaped, List.mem_append, List.mem_singleton] at hc
    rcases hc with hc | rfl
    · exact h.userData c hc
    · rfl

/-- No step of the kernel changes what the server owns. -/
theorem Owned.step (h : Owned cfg held cur spare xs v) (hstep : KernelStep v v') :
    Owned cfg held cur spare xs v' ∧ v'.faithful = v.faithful ∧
      ∀ r ∈ held, v'.ops r.op = v.ops r.op := by
  have hsame : ∀ p, Rebuffered (v.ops p) (v.ops p) := fun p => .inl rfl
  cases hstep with
  | network a =>
      exact ⟨h.frame rfl rfl rfl rfl hsame (List.Perm.refl _) h.userData, rfl, fun _ _ => rfl⟩
  | consume s rest hpending =>
      refine ⟨h.frame rfl rfl rfl rfl hsame ?_ h.userData, rfl, fun _ _ => rfl⟩
      exact (references_consume hpending _).map _
  | accept before after r hinflight hkind fd c backlog hbacklog hfd hfree =>
      exact ⟨h.complete hinflight rfl _ rfl rfl rfl rfl rfl rfl hsame, rfl, fun _ _ => rfl⟩
  | deliver before after r hinflight hkind c hconn data rest hunread hdata hlen p haddr o hop =>
      have hmem : r ∈ v.inflight := by simp [hinflight]
      have haddr' := (h.request_addr hmem (.inl hkind)).1
      obtain rfl : p = r.sqe.userData := by
        rw [haddr] at haddr'
        exact Addr.conBuf.inj haddr'
      rw [h.request_len hmem hkind hop] at hlen
      refine ⟨h.complete (q := { r with moved := data }) (u := View.withOp
        { v with
          kernel := v.kernel.updateConn c fun con => { con with unread := rest } } _ _)
        hinflight rfl _ rfl rfl rfl rfl rfl rfl (rebuffered_withOp hop hlen),
        rfl, fun r' hr' => ?_⟩
      have hne : r'.op ≠ r.sqe.userData := h.held_ne (mem_references_inflight hmem) hr'
      simp [View.complete, View.withOp, hne]
  | eof before after r hinflight hkind c hconn hunread heos =>
      exact ⟨h.complete hinflight rfl _ rfl rfl rfl rfl rfl rfl hsame, rfl, fun _ _ => rfl⟩
  | scribble r hmem hkind data hlen p haddr o hop =>
      have haddr' := (h.request_addr hmem (.inl hkind)).1
      obtain rfl : p = r.sqe.userData := by
        rw [haddr] at haddr'
        exact Addr.conBuf.inj haddr'
      rw [h.request_len hmem hkind hop] at hlen
      refine ⟨h.frame rfl rfl rfl rfl (rebuffered_withOp hop hlen) (List.Perm.refl _)
        h.userData, rfl, fun r' hr' => ?_⟩
      have hne : r'.op ≠ r.sqe.userData := h.held_ne (mem_references_inflight hmem) hr'
      simp [View.withOp, hne]
  | transmit before after r hinflight hkind c hconn p haddr o hop data hdata =>
      refine ⟨h.frame rfl rfl rfl rfl hsame ?_ h.userData, rfl, fun _ _ => rfl⟩
      simp [references, hinflight]
  | sent before after r hinflight hkind =>
      exact ⟨h.complete hinflight rfl _ rfl rfl rfl rfl rfl rfl hsame, rfl, fun _ _ => rfl⟩
  | close before after r hinflight hkind f hopen =>
      exact ⟨h.complete hinflight rfl _ rfl rfl rfl rfl rfl rfl hsame, rfl, fun _ _ => rfl⟩
  | answer before after r hinflight res hres =>
      exact ⟨h.complete hinflight rfl _ rfl rfl rfl rfl rfl rfl hsame, rfl, fun _ _ => rfl⟩
  | stray r hmem hkind hstray =>
      obtain ⟨haddr, o, ho⟩ := h.request_addr hmem hkind
      rw [hstray _ haddr] at ho
      cases ho

end Steps

end EchoServers.UringOwnership
