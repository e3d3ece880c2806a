import EchoServers.LinkedChains
import EchoServers.UringSubmission
import Mathlib.Data.List.Perm.Basic

namespace EchoServers.UringReferences

open EchoServers.LinkedChains
open EchoServers.SocketKernel
open EchoServers.UringKernelSteps
open EchoServers.UringMemory
open EchoServers.UringQueues
open EchoServers.UringServer
open EchoServers.UringSubmission

/-- What refers to an op outside the memory of the server: an SQE, together
with the result once its request has been completed. -/
structure Reference where
  sqe : Sqe
  res : Option Int := none
  deriving DecidableEq

def Reference.op (r : Reference) : Ptr := r.sqe.userData

def cqeReference (c : Cqe) : Reference := { sqe := c.request.sqe, res := some c.res }

/-- The SQEs published and not consumed, the requests in flight, and the CQEs
not reaped. -/
def references (v : View) : List Reference :=
  v.pending.map (fun s => { sqe := s }) ++
    (v.inflight.map (fun r => { sqe := r.sqe }) ++ v.unreaped.map cqeReference)

section References

variable {v v' : View}

theorem references_publish (s : Sqe) :
    (references { v with pending := v.pending ++ [s] }).Perm
      ({ sqe := s } :: references v) := by
  simp only [references, List.map_append, List.map_cons, List.map_nil,
    List.append_assoc, List.cons_append, List.nil_append]
  exact List.perm_middle

theorem references_consume {s : Sqe} {rest : List Sqe} (hpending : v.pending = s :: rest)
    (conn : Option ConnId) :
    (references { v with
      pending := rest
      inflight := v.inflight ++ [{ sqe := s, conn := conn }] }).Perm (references v) := by
  simp only [references, hpending, List.map_append, List.map_cons, List.map_nil,
    List.append_assoc, List.cons_append, List.nil_append]
  rw [← List.append_assoc]
  refine List.perm_middle.trans ?_
  simp

theorem references_complete {before after : List Request} {r r' : Request} {u : View}
    (hinflight : v.inflight = before ++ r :: after) (hpending : u.pending = v.pending)
    (hunreaped : u.unreaped = v.unreaped) (hsqe : r'.sqe = r.sqe) (res : Int) :
    ∃ rest, (references v).Perm ({ sqe := r.sqe } :: rest) ∧
      (references (u.complete before after r' res)).Perm
        ({ sqe := r.sqe, res := some res } :: rest) := by
  refine ⟨v.pending.map (fun s => { sqe := s }) ++
    ((before ++ after).map (fun r => { sqe := r.sqe }) ++ v.unreaped.map cqeReference), ?_, ?_⟩
  · simp only [references, hinflight, List.map_append, List.map_cons, List.append_assoc,
      List.cons_append]
    rw [← List.append_assoc]
    refine List.perm_middle.trans ?_
    simp
  · simp only [references, View.complete, hpending, hunreaped, List.map_append,
      List.map_cons, List.map_nil, cqeReference, hsqe]
    rw [← List.append_assoc, ← List.append_assoc]
    refine List.perm_append_comm.trans ?_
    simp

theorem references_reap {c : Cqe} {rest : List Cqe} (hunreaped : v.unreaped = c :: rest) :
    (references v).Perm (cqeReference c :: references { v with unreaped := rest }) := by
  simp only [references, hunreaped, List.map_cons]
  rw [← List.append_assoc, ← List.append_assoc]
  exact List.perm_middle

theorem mem_references_inflight {r : Request} (hmem : r ∈ v.inflight) :
    ({ sqe := r.sqe } : Reference) ∈ references v := by
  simp only [references, List.mem_append, List.mem_map]
  exact .inr (.inl ⟨r, hmem, rfl⟩)

end References

/-- How an op for which a request is outstanding looks. -/
def OpOk (cfg : Config) (p : Ptr) (o : IouOp) : Prop :=
  (p = acceptReq ∧ o.op = .acceptedConnection) ∨
    (p = timerReq ∧ o.op = .timerExpired) ∨
    (p ≠ acceptReq ∧ p ≠ timerReq ∧
      ((o.op = .recvFromClient ∧ o.infoCon.busy = 1) ∨
        (o.op = .sendToClient ∧ o.infoCon.busy = 1 ∧
          o.infoCon.bufSendLen = cfg.defaultBufferSize) ∨
        (o.op = .closeConnection ∧ o.infoCon.busy ≠ 1)))

/-- The SQE is the one that `iou_config_and_submit` makes from the op now. -/
def Fits (cfg : Config) (s : Sqe) (o : Option IouOp) : Prop :=
  ∃ o', o = some o' ∧ OpOk cfg s.userData o' ∧
    ∃ prep, iouPrepSqe s.userData o' = some prep ∧ prep { userData := s.userData } = s

/-- The opcode for a kind of operation. -/
def requestOf : IoOperationTypes → Opcode
  | .acceptedConnection => .accept
  | .closeConnection => .close
  | .recvFromClient => .recv
  | .sendToClient => .send
  | .timerExpired => .timeout
  | .other _ => .nop

section Sqes

variable {cfg : Config} {s : Sqe} {o o' : IouOp} {p : Ptr} {prep : Sqe → Sqe}

theorem opcode_of_prep (h : iouPrepSqe p o = some prep) (s : Sqe) :
    (prep s).opcode = requestOf o.op := by
  unfold iouPrepSqe at h
  split at h <;> simp_all [requestOf] <;> subst h <;> rfl

theorem Fits.opcode (h : Fits cfg s (some o)) : s.opcode = requestOf o.op := by
  obtain ⟨o', ho, -, prep, hprep, hs⟩ := h
  cases ho
  rw [← hs]
  exact opcode_of_prep hprep _

theorem Fits.opOk (h : Fits cfg s (some o)) : OpOk cfg s.userData o := by
  obtain ⟨o', ho, hok, -⟩ := h
  cases ho
  exact hok

/-- An SQE that fits its op is the one made from it. -/
theorem Fits.sqe_eq (h : Fits cfg s (some o)) (hprep : iouPrepSqe s.userData o = some prep) :
    s = prep { userData := s.userData } := by
  obtain ⟨o', ho, -, prep', hprep', hs⟩ := h
  cases ho
  cases hprep.symm.trans hprep'
  exact hs.symm

theorem Fits.recv (h : Fits cfg s (some o)) (hs : s.opcode = .recv) :
    o.op = .recvFromClient ∧ s.addr = .conBuf s.userData ∧ s.fd = o.infoCon.fd ∧
      s.len = UInt32.ofNat o.infoCon.buf.length := by
  have hop : o.op = .recvFromClient := by
    have := h.opcode.symm.trans hs
    cases hkind : o.op <;> simp_all [requestOf]
  have heq := h.sqe_eq (show iouPrepSqe s.userData o = some (iouPrepRecvSqe s.userData o.infoCon) by
    simp [iouPrepSqe, hop])
  refine ⟨hop, ?_, ?_, ?_⟩ <;> rw [heq] <;> rfl

theorem Fits.send (h : Fits cfg s (some o)) (hs : s.opcode = .send) :
    o.op = .sendToClient ∧ s.addr = .conBuf s.userData ∧ s.fd = o.infoCon.fd ∧
      s.len = cfg.defaultBufferSize := by
  have hop : o.op = .sendToClient := by
    have := h.opcode.symm.trans hs
    cases hkind : o.op <;> simp_all [requestOf]
  have hlen : o.infoCon.bufSendLen = cfg.defaultBufferSize := by
    have hok := h.opOk
    simp [OpOk, hop] at hok
    exact hok.2.2.2
  have heq := h.sqe_eq (show iouPrepSqe s.userData o = some (iouPrepSendSqe s.userData o.infoCon) by
    simp [iouPrepSqe, hop])
  refine ⟨hop, ?_, ?_, ?_⟩ <;> rw [heq]
  · rfl
  · rfl
  · exact hlen

theorem Fits.close (h : Fits cfg s (some o)) (hs : s.opcode = .close) :
    o.op = .closeConnection ∧ s.fd = o.infoCon.fd := by
  have hop : o.op = .closeConnection := by
    have := h.opcode.symm.trans hs
    cases hkind : o.op <;> simp_all [requestOf]
  have heq := h.sqe_eq (show iouPrepSqe s.userData o = some (iouPrepCloseSqe o.infoCon) by
    simp [iouPrepSqe, hop])
  exact ⟨hop, by rw [heq]; rfl⟩

/-- Exchanging the bytes in the buffer does not matter to the SQE. -/
theorem iouPrepSqe_setBuf {buf : List Octet} (hlen : buf.length = o.infoCon.buf.length)
    (p : Ptr) : iouPrepSqe p (setBuf o buf) = iouPrepSqe p o := by
  cases hkind : o.op <;> simp only [iouPrepSqe, setBuf, hkind]
  case recvFromClient =>
    refine congrArg some (funext fun s => ?_)
    simp only [iouPrepRecvSqe, hlen]
  all_goals rfl

theorem Fits.setBuf (h : Fits cfg s (some o)) {buf : List Octet}
    (hlen : buf.length = o.infoCon.buf.length) : Fits cfg s (some (setBuf o buf)) := by
  obtain ⟨o', ho, hok, prep, hprep, hs⟩ := h
  cases ho
  exact ⟨_, rfl, hok, prep, (iouPrepSqe_setBuf hlen _).trans hprep, hs⟩

end Sqes

end EchoServers.UringReferences
