import EchoServers.UringHandlers

namespace EchoServers.UringGuarantees

open EchoServers.LinkedChains
open EchoServers.ServerUtils
open EchoServers.SocketKernel
open EchoServers.UringHandlers
open EchoServers.UringInvariant
open EchoServers.UringKernelSteps
open EchoServers.UringMemory
open EchoServers.UringOwnership
open EchoServers.UringReferences
open EchoServers.UringServer
open EchoServers.UringStreams
open EchoServers.Utils

/-- The tracker nodes reachable from the head, each with its op. -/
structure Tracked (s : Server) (xs : List (Ptr × Ptr)) : Prop where
  chain : Visits (nextOf s) s.memAllocsTracker.head (xs.map Prod.fst)
  allocatedOp : ∀ x ∈ xs, ∃ m, s.nodes x.1 = some m ∧ m.allocatedOp = some x.2

/-- The ops referred to by the SQEs published and not consumed, the requests in
flight and the CQEs not reaped, with the kind of each request. -/
def outstanding (w : World) : List (Ptr × Opcode) :=
  w.iou.pending.map (fun s => (s.userData, s.opcode)) ++
    (w.inflight.map (fun r => (r.sqe.userData, r.sqe.opcode)) ++
      w.iou.unreaped.map fun c => (c.userData, c.request.sqe.opcode))

section Ownership

variable {cfg : Config} {w : World} {xs ys : List (Ptr × Ptr)}

theorem outstanding_eq (h : Owned cfg [] [] [] xs (view w)) :
    outstanding w = (references (view w)).map fun r => (r.op, r.sqe.opcode) := by
  simp only [outstanding, references, view, List.map_append, List.map_map]
  congr 2
  refine List.map_congr_left fun c hc => ?_
  simp [cqeReference, Reference.op, h.userData c hc]

/-- In every reachable state, each op in use is referred to exactly once, by a
request of the kind its `op` field names, and nothing else is referred to; a
client is marked busy exactly while it receives or sends; and no memory has been
misused. -/
theorem referenced_once (h : Reachable cfg w) :
    ∃ xs, Tracked w.toServer xs ∧
      ((outstanding w).map Prod.fst).Perm (roots cfg w.handled ++ xs.map Prod.snd) ∧
      ((outstanding w).map Prod.fst).Nodup ∧
      (∀ x ∈ outstanding w, ∃ o, w.ops x.1 = some o ∧ x.2 = requestOf o.op ∧
        (x.1 ∈ xs.map Prod.snd →
          (o.infoCon.busy = 1 ↔ x.2 = .recv ∨ x.2 = .send))) ∧
      w.faults = [] := by
  obtain ⟨-, xs, hown, -⟩ := on_inv_of_reachable h
  have hops : (outstanding w).map Prod.fst = (references (view w)).map Reference.op := by
    rw [outstanding_eq hown, List.map_map]
    rfl
  have hbalance := hown.balance
  have hnodup := hown.opsNodup
  rw [List.append_nil, List.append_nil] at hbalance
  rw [List.append_nil] at hnodup
  refine ⟨xs, ⟨hown.tracker.forward, fun x hx => (hown.clients x hx).node⟩, hops ▸ hbalance,
    hops ▸ hbalance.nodup_iff.mpr hnodup, fun x hx => ?_, hown.clean⟩
  rw [outstanding_eq hown] at hx
  obtain ⟨r, hr, rfl⟩ := List.mem_map.mp hx
  have hfits := hown.fits r hr
  obtain ⟨o, ho, -⟩ := id hfits
  rw [ho] at hfits
  refine ⟨o, ho, hfits.opcode, fun hmem => ?_⟩
  obtain ⟨x, hx, hxr⟩ := List.mem_map.mp hmem
  have hok := hfits.opOk
  have hne : r.sqe.userData ≠ acceptReq := fun heq =>
    (hown.clients x hx).ne_acceptReq (hxr.trans heq)
  have hne' : r.sqe.userData ≠ timerReq := fun heq =>
    (hown.clients x hx).ne_timerReq (hxr.trans heq)
  rw [hfits.opcode]
  rcases hok with ⟨heq, -⟩ | ⟨heq, -⟩ | ⟨-, -, hclient⟩
  · exact absurd heq hne
  · exact absurd heq hne'
  · rcases hclient with ⟨hop, hbusy⟩ | ⟨hop, hbusy, -⟩ | ⟨hop, hbusy⟩ <;>
      simp [hop, hbusy, requestOf]

/-- One client connects, sends a message of two bytes, and is about to get it
back: its op is out for a send while the next accept is pending. -/
def oneEcho : World :=
  worldAfter smallConfig 4 (initialWorld smallConfig smallSetup false true
    (idle 7 ++
      { enter := .consumed 1
        afterEnter := [.network .connect, .accept 0 5, .network (.bytes 0 [1, 2])] } ::
      (idle 3 ++ { ptr := 10 } :: { ptr := 11 } :: (idle 13 ++
        { enter := .consumed 2, afterEnter := [.deliver 0 2] } :: idle 9))))

theorem reachable_oneEcho : Reachable smallConfig oneEcho :=
  reachable_worldAfter (by decide +kernel)

theorem referenced_once_oneEcho :
    outstanding oneEcho = [(11, .send), (1, .accept)] ∧
      ∃ xs, Tracked oneEcho.toServer xs ∧
        ((outstanding oneEcho).map Prod.fst).Perm
          (roots smallConfig oneEcho.handled ++ xs.map Prod.snd) ∧
        ((outstanding oneEcho).map Prod.fst).Nodup ∧
        (∀ x ∈ outstanding oneEcho, ∃ o, oneEcho.ops x.1 = some o ∧ x.2 = requestOf o.op ∧
          (x.1 ∈ xs.map Prod.snd →
            (o.infoCon.busy = 1 ↔ x.2 = .recv ∨ x.2 = .send))) ∧
        oneEcho.faults = [] :=
  ⟨by decide +kernel, referenced_once reachable_oneEcho⟩

end Ownership

section Echo

variable {cfg : Config} {w : World}

/-- A send op holds a whole message. -/
theorem length_message {v : View} (h : Inv cfg [] [] [] v) {r : Reference}
    (hr : r ∈ references v) (hkind : r.sqe.opcode = .send) :
    (message cfg (v.ops r.op)).length = cfg.defaultBufferSize.toNat := by
  obtain ⟨xs, hown, -⟩ := id h
  have hfits := hown.fits r hr
  obtain ⟨o, ho, -⟩ := id hfits
  rw [ho] at hfits
  have hop := (hfits.send hkind).1
  have hok := hfits.opOk
  simp only [OpOk, hop, reduceCtorEq, and_false, false_or] at hok
  have hbuf := inv_client h ⟨hok.1, hok.2.1⟩ ho
  rw [message, ho, buffer, List.length_take, hbuf, ServerConfig.defaultServerBufferSize]
  omega

/-- What a connection has received is what it was sent back, or one message
more; and it is sent back nothing that was received elsewhere. -/
theorem echo_of_reachable (h : Reachable cfg w) (hfaithful : w.faithful = true)
    (c : ConnId) :
    stream .send w.handled c <+: stream .recv w.handled c ∧
      (stream .recv w.handled c = stream .send w.handled c ∨
        ∃ message, message.length = cfg.defaultBufferSize.toNat ∧
          stream .recv w.handled c = stream .send w.handled c ++ message) ∧
      (∀ x ∈ stream .recv w.handled c, x.origin = some c) ∧
      ∀ x ∈ (w.kernel.conns c).transmitted, x.origin = some c := by
  have hinv := (on_inv_of_reachable h).2
  obtain ⟨xs, hown, hecho⟩ := id hinv
  have hechoes := hecho hfaithful
  have hahead : stream .recv w.handled c = stream .send w.handled c ∨
      ∃ message, message.length = cfg.defaultBufferSize.toNat ∧
        stream .recv w.handled c = stream .send w.handled c ++ message := by
    by_cases hopen : ∃ fd, w.kernel.files fd = some (.socket c)
    · obtain ⟨fd, hfd⟩ := hopen
      obtain ⟨r, hr, hclaim⟩ := List.mem_filterMap.mp ((hechoes.claimsOpen fd).mpr ⟨c, hfd⟩)
      have hlaw := hechoes.ahead r hr fd c hclaim hfd
      rw [List.append_nil] at hlaw hr
      by_cases hkind : r.sqe.opcode = .send
      · rw [lag, if_pos hkind] at hlaw
        exact .inr ⟨_, length_message hinv hr hkind, hlaw⟩
      · rw [lag_of_ne hkind, List.append_nil] at hlaw
        exact .inl hlaw
    · have hidle := hechoes.idle c (not_exists.mp hopen)
      rw [List.append_nil] at hidle
      exact .inl hidle
  have hreceived := hechoes.received c
  rw [List.append_nil] at hreceived
  refine ⟨?_, hahead, hreceived, hechoes.transmitted c⟩
  rcases hahead with heq | ⟨message, -, heq⟩
  · exact ⟨[], by rw [List.append_nil, heq]⟩
  · exact ⟨message, heq.symm⟩

theorem echo_of_reachable_oneEcho :
    stream .recv oneEcho.handled 0 = tag 0 [1, 2] ∧
      stream .send oneEcho.handled 0 <+: stream .recv oneEcho.handled 0 ∧
      (stream .recv oneEcho.handled 0 = stream .send oneEcho.handled 0 ∨
        ∃ message, message.length = smallConfig.defaultBufferSize.toNat ∧
          stream .recv oneEcho.handled 0 = stream .send oneEcho.handled 0 ++ message) ∧
      (∀ x ∈ stream .recv oneEcho.handled 0, x.origin = some 0) ∧
      ∀ x ∈ (oneEcho.kernel.conns 0).transmitted, x.origin = some 0 :=
  ⟨by decide +kernel, echo_of_reachable reachable_oneEcho (by decide +kernel) 0⟩

end Echo

end EchoServers.UringGuarantees
