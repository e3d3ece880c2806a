import EchoServers.UringGuarantees
import EchoServers.UringTraffic

/-!
What the io_uring server does, read from the CQEs that the kernel posts, is what
the abstract service does.
-/

namespace EchoServers.UringEchoes

open EchoServers.EchoService
open EchoServers.EchoTraffic
open EchoServers.ServerUtils
open EchoServers.SocketKernel
open EchoServers.UringClients
open EchoServers.UringGuarantees
open EchoServers.UringHandlers
open EchoServers.UringInvariant
open EchoServers.UringKernelSteps
open EchoServers.UringMemory
open EchoServers.UringOwnership
open EchoServers.UringReferences
open EchoServers.UringServer
open EchoServers.UringStreams
open EchoServers.UringTraffic
open EchoServers.Utils

/-- The law of the traffic, as long as the results are those of what was done. -/
def Carried (cfg : Config) (cur now : List Cqe) (v : View) : Prop :=
  v.faithful = true → Carries cfg cur now v

/-- The descriptor is that of a connection with nothing left to be read. -/
def Closing (fd : Fd) (v : View) : Prop :=
  v.faithful = true → ∀ c, v.kernel.files fd = some (.socket c) → Drained (v.kernel.conns c)

section Riding

variable {cfg : Config} {held : List Reference} {cur now : List Cqe} {spare : List Ptr}
  {v v' : View} {fd : Fd} {q : Cqe} {o : IouOp}

theorem carried_same (hsame : SameTraffic v v') (h : Carried cfg cur now v) :
    Carried cfg cur now v' := by
  intro hfaithful
  rw [hsame.faithful] at hfaithful
  exact (h hfaithful).congr hsame.kernel hsame.pending hsame.inflight hsame.unreaped hsame.handled

theorem closing_same (hsame : SameTraffic v v') (h : Closing fd v) : Closing fd v' := by
  intro hfaithful
  rw [hsame.faithful] at hfaithful
  rw [hsame.kernel]
  exact h hfaithful

theorem carried_step (hinv : Inv cfg held cur spare v) (hstep : KernelStep v v')
    (h : Carried cfg cur cur v) : Carried cfg cur cur v' := by
  intro hfaithful
  obtain ⟨xs, hown, hecho⟩ := hinv
  rw [(hown.step hstep).2.1] at hfaithful
  exact (h hfaithful).step hown (hecho hfaithful) hfaithful hstep

/-- The kernel neither reuses the descriptor nor lets anything more arrive. -/
theorem closing_step (hinv : Inv cfg held cur spare v) (hclaim : fd ∈ claims held)
    (hstep : KernelStep v v') (h : Closing fd v) : Closing fd v' := by
  intro hfaithful c hfile
  obtain ⟨xs, hown, hecho⟩ := hinv
  rw [(hown.step hstep).2.1] at hfaithful
  rw [files_step hown (hecho hfaithful) hstep hclaim] at hfile
  exact drained_step hown hstep (h hfaithful c hfile)

/-- A send that reports at least a message was that of a message. -/
theorem carried_count (hreaped : Reaped cfg q o v)
    (hsend : q.request.sqe.opcode = .send → (cfg.defaultBufferSize.toNat : Int) ≤ q.res)
    (h : Carried cfg [] [q] v) : Carried cfg [q] [q] v := by
  intro hfaithful
  refine (h hfaithful).count fun hkind => ?_
  obtain ⟨hmoved, hres⟩ := (hreaped.2 hfaithful).send hkind
  have hsize := hsend hkind
  have hlength := hres (by omega)
  have hmax := hmoved.length_le.trans (List.length_take_le _ _)
  apply decide_eq_true
  constructor
  · exact hkind
  · omega

/-- A receive that moves no bytes has found the end of the stream. -/
theorem closing_ended (hreaped : Reaped cfg q o v) (hkind : q.request.sqe.opcode = .recv)
    (hbuf : o.infoCon.buf.length = cfg.defaultServerBufferSize) (hnonneg : 0 ≤ q.res)
    (hzero : UInt32.ofNat q.res.toNat = 0) (h : Carried cfg [] [q] v) :
    Closing q.request.sqe.fd v := by
  intro hfaithful c hfile
  obtain ⟨hlength, -⟩ := moved_length hreaped hfaithful hkind hnonneg hbuf
  have hok := hreaped.2 hfaithful
  have hres := (hok.recv hkind hnonneg).1
  rw [hlength, hzero] at hres
  obtain ⟨c', hconn, hfile'⟩ := hok.conn (.inl hkind)
  rw [hfile'] at hfile
  cases hfile
  exact (h hfaithful).ended q (by simp [completed]) hkind hres c hconn

theorem rides_carried (cfg : Config) : Rides cfg (Carried cfg) Closing where
  same := carried_same
  sameClosing := closing_same
  step := carried_step
  stepClosing := closing_step
  publish h hclose hfaithful := (h hfaithful).publish fun hkind => hclose hkind hfaithful
  reap h hunreaped hfaithful := (h hfaithful).reap hunreaped
  count := carried_count
  ended := closing_ended
  finish h hfaithful := (h hfaithful).finish

/-- At the start nothing has happened. -/
theorem carried_initialWorld (s : RingSetup cfg) (useKernelPooling faithful : Bool)
    (sched : List Tick) :
    Carried cfg [] [] (view (initialWorld cfg s useKernelPooling faithful sched)) := by
  intro _
  have hpending : (view (initialWorld cfg s useKernelPooling faithful sched)).pending = [] :=
    pending_iouCreate s useKernelPooling
  have hunreaped : (view (initialWorld cfg s useKernelPooling faithful sched)).unreaped = [] :=
    unreaped_iouCreate s useKernelPooling
  have hcompleted :
      completed [] (view (initialWorld cfg s useKernelPooling faithful sched)) = [] := by
    rw [completed, hunreaped]
    rfl
  have hsubmitted : submitted (view (initialWorld cfg s useKernelPooling faithful sched)) = [] := by
    rw [submitted, hpending]
    rfl
  constructor
  · intro c
    rw [hcompleted]
    rfl
  · intro q hq
    cases hq
  · intro q hq
    rw [hcompleted] at hq
    cases hq
  · intro s' hs'
    rw [hsubmitted] at hs'
    cases hs'
  · intro c
    rw [hcompleted]
    rfl
  · rw [hcompleted]
    exact ⟨emptyHands, traced_start⟩

end Riding

section Underway

variable {cfg : Config} {v : View} {c : ConnId}

/-- The law for a connection whose op is out. -/
theorem ahead_of_mem (h : Echoes cfg [] [] v) {r : Reference} (hr : r ∈ references v) {fd : Fd}
    (hclaim : claim r = some fd) (hfile : v.kernel.files fd = some (.socket c)) :
    stream .recv v.handled c = stream .send v.handled c ++ lag cfg v r := by
  have hahead := h.ahead r (by simpa using hr) fd c hclaim hfile
  rw [List.append_nil] at hahead
  exact hahead

theorem length_lag_le (r : Reference) : (lag cfg v r).length ≤ cfg.defaultBufferSize.toNat := by
  rw [lag]
  split
  · exact List.length_take_le _ _
  · exact Nat.zero_le _

/-- A connection is at most one message behind. -/
theorem ahead_bounded (h : Echoes cfg [] [] v) (c : ConnId) :
    ∃ message, message.length ≤ cfg.defaultBufferSize.toNat ∧
      stream .recv v.handled c = stream .send v.handled c ++ message := by
  by_cases hopen : ∃ fd, v.kernel.files fd = some (.socket c)
  · obtain ⟨fd, hfd⟩ := hopen
    obtain ⟨r, hr, hclaim⟩ := List.mem_filterMap.mp ((h.claimsOpen fd).mpr ⟨c, hfd⟩)
    rw [List.append_nil] at hr
    exact ⟨_, length_lag_le r, ahead_of_mem h hr hclaim hfd⟩
  · have hidle := h.idle c (not_exists.mp hopen)
    rw [List.append_nil] at hidle
    exact ⟨[], Nat.zero_le _, by rw [hidle, List.append_nil]⟩

/-- What was transmitted and not reported is a part of the message that the
connection is behind; when it is the whole of it, nothing else is on its way. -/
theorem message_underway (h : Echoes cfg [] [] v) (c : ConnId) :
    ∃ message part, message.length ≤ cfg.defaultBufferSize.toNat ∧
      stream .recv v.handled c = stream .send v.handled c ++ message ∧
      stream .send v.unreaped c ++ underway v.inflight c <+: message ∧
      stream .send v.unreaped c ++ underway v.inflight c = answered cfg v.unreaped c ++ part := by
  by_cases hinflight : ∃ r ∈ v.inflight, r.sqe.opcode = .send ∧ r.conn = some c
  · obtain ⟨r, hr, hkind, hconn⟩ := hinflight
    have hok := h.requests r hr
    obtain ⟨c', hconn', hfile⟩ := hok.conn (.inr hkind)
    rw [hconn] at hconn'
    cases hconn'
    have hclaim : claim { sqe := r.sqe } = some r.sqe.fd := claim_transfer (.inr hkind) none
    have hlaw := ahead_of_mem h (mem_references_inflight hr) hclaim hfile
    obtain ⟨before, after, hsplit⟩ := List.append_of_mem hr
    obtain ⟨hothers, hunreaped⟩ := alone h hsplit hclaim hfile
    have hbefore : underway before c = [] :=
      underway_eq_nil fun r' hr' hsend => hothers r' (List.mem_append_left _ hr') (.inr hsend)
    have hafter : underway after c = [] :=
      underway_eq_nil fun r' hr' hsend => hothers r' (List.mem_append_right _ hr') (.inr hsend)
    have hsent : stream .send v.unreaped c = [] :=
      stream_eq_nil fun q hq hsend => hunreaped q hq (.inr hsend)
    have hanswered : answered cfg v.unreaped c = [] :=
      stream_eq_nil fun q hq hsend => hunreaped q (List.mem_of_mem_filter hq) (.inr hsend)
    have hmoved : underway v.inflight c = r.moved := by
      rw [hsplit, underway_append, underway_cons, hbefore, hafter, if_pos ⟨hkind, hconn⟩,
        List.nil_append, List.append_nil]
    refine ⟨_, r.moved, length_lag_le _, hlaw, ?_, ?_⟩
    · rw [hsent, hmoved, List.nil_append, lag, if_pos hkind]
      exact hok.send hkind
    · rw [hsent, hmoved, hanswered]
  have hunderway : underway v.inflight c = [] :=
    underway_eq_nil fun r hr hkind hconn => hinflight ⟨r, hr, hkind, hconn⟩
  by_cases hunreaped : ∃ q ∈ v.unreaped, q.request.sqe.opcode = .send ∧ q.request.conn = some c
  · obtain ⟨q, hq, hkind, hconn⟩ := hunreaped
    have hok := h.completions q hq
    obtain ⟨c', hconn', hfile⟩ := hok.conn (.inr hkind)
    rw [hconn] at hconn'
    cases hconn'
    have hclaim : claim (cqeReference q) = some q.request.sqe.fd := claim_transfer (.inr hkind) _
    have hlaw := ahead_of_mem h (mem_references_unreaped hq) hclaim hfile
    obtain ⟨early, late, hsplit⟩ := List.append_of_mem hq
    obtain ⟨-, hothers⟩ := alone_unreaped h hsplit (.inr hkind) hfile
    have hnil : ∀ l : List Cqe, (∀ q' ∈ l, q' ∈ early ++ late) → stream .send l c = [] :=
      fun l hl => stream_eq_nil fun q' hq' hsend => hothers q' (hl q' hq') (.inr hsend)
    have hone : ∀ l : List Cqe, stream .send (q :: l) c = q.request.moved ++ stream .send l c := by
      intro l
      rw [stream, List.flatMap_cons, if_pos ⟨hkind, hconn⟩]
      rfl
    have hearly : stream .send early c = [] := hnil _ fun _ hq' => List.mem_append_left _ hq'
    have hlate : stream .send late c = [] := hnil _ fun _ hq' => List.mem_append_right _ hq'
    have hmoved : stream .send v.unreaped c = q.request.moved := by
      rw [hsplit, stream_append_log, hone, hearly, hlate, List.nil_append, List.append_nil]
    refine ⟨_, if isReply cfg q then [] else q.request.moved, length_lag_le _, hlaw, ?_, ?_⟩
    · rw [hunderway, List.append_nil, hmoved, lag, if_pos (show (cqeReference q).sqe.opcode = _ from
        hkind)]
      exact (hok.send hkind).1
    · have hearly' : answered cfg early c = [] :=
        hnil _ fun _ hq' => List.mem_append_left _ (List.mem_of_mem_filter hq')
      have hlate' : stream .send (late.filter (isReply cfg)) c = [] :=
        hnil _ fun _ hq' => List.mem_append_right _ (List.mem_of_mem_filter hq')
      rw [hunderway, List.append_nil, hmoved, hsplit, answered_append_log, hearly', answered]
      by_cases hreply : isReply cfg q = true
      · rw [List.filter_cons_of_pos hreply, hone, hlate', if_pos hreply, List.append_nil,
          List.append_nil, List.nil_append]
      · rw [List.filter_cons_of_neg hreply, hlate', if_neg hreply, List.nil_append,
          List.nil_append]
  · have hsent : stream .send v.unreaped c = [] :=
      stream_eq_nil fun q hq hkind hconn => hunreaped ⟨q, hq, hkind, hconn⟩
    have hanswered : answered cfg v.unreaped c = [] := stream_eq_nil fun q hq hkind hconn =>
      hunreaped ⟨q, List.mem_of_mem_filter hq, hkind, hconn⟩
    obtain ⟨message, hlength, hlaw⟩ := ahead_bounded h c
    refine ⟨message, [], hlength, hlaw, ?_, ?_⟩
    · rw [hsent, hunderway]
      exact List.nil_prefix
    · rw [hsent, hunderway, hanswered]

end Underway

section Guarantees

variable {cfg : Config} {w : World}

/-- The CQEs reported in a run so far. -/
def reported (w : World) : List Cqe :=
  w.handled ++ w.iou.unreaped

theorem completed_view : completed [] (view w) = reported w := by
  rw [completed, List.append_nil]
  rfl

theorem carries_of_reachable (h : Reachable cfg w) (hfaithful : w.faithful = true) :
    Echoes cfg [] [] (view w) ∧ Carries cfg [] [] (view w) := by
  obtain ⟨-, hinv, hcarried⟩ := rides_of_reachable (rides_carried cfg) carried_initialWorld h
  obtain ⟨xs, -, hecho⟩ := hinv
  exact ⟨hecho hfaithful, hcarried hfaithful⟩

/-- One client connected, got its message back, finished and was closed. -/
def closedEcho : World :=
  worldAfter smallConfig 10 (initialWorld smallConfig smallSetup false true
    (idle 7 ++
      { enter := .consumed 1
        afterEnter := [.network .connect, .accept 0 5, .network (.bytes 0 [1, 2])] } ::
      (idle 3 ++ { ptr := 10 } :: { ptr := 11 } :: (idle 13 ++
        { enter := .consumed 2, afterEnter := [.deliver 0 2] } :: (idle 10 ++
        { enter := .consumed 1
          afterEnter := [.network (.eos 0), .transmit 1 1, .transmit 1 1, .sent 1] } ::
        (idle 10 ++ { enter := .consumed 1, afterEnter := [.eof 1] } ::
        (idle 10 ++ { enter := .consumed 1, afterEnter := [.close 1] } :: idle 3)))))))

theorem reachable_closedEcho : Reachable smallConfig closedEcho :=
  reachable_worldAfter (by decide +kernel)

theorem faithful_closedEcho : closedEcho.faithful = true := by
  decide +kernel

/-- A run of the server is one of the abstract service that closes a connection at
its end with nothing left to send back.  A message counts as sent back when the
request to send it is completed; the service holds what the completed requests
have received and not sent back. -/
theorem uring_refines_echoService (h : Reachable cfg w) (hfaithful : w.faithful = true) :
    ∃ hands trace s, Runs cfg.defaultBufferSize.toNat Exhausted trace s ∧
      Shows (settled cfg (reported w) w.kernel) hands s ∧
      (∀ c, stream .recv (reported w) c = answered cfg (reported w) c ++ hands c) ∧
      messages trace = replies cfg (reported w) ∧
      closings trace = w.kernel.closes.filterMap socketOf := by
  obtain ⟨-, hcarries⟩ := carries_of_reachable h hfaithful
  obtain ⟨hands, htraced⟩ := hcarries.traced
  rw [completed_view] at htraced
  obtain ⟨trace, s, hruns, hshows, hmessages, hclosings⟩ := htraced.trace
  refine ⟨hands, trace, s, hruns, hshows, fun c => ?_, hmessages, hclosings⟩
  have hconserved := htraced.conserved c
  have hreceived := hcarries.received c
  rw [completed_view] at hreceived
  change (w.kernel.conns c).sent =
    answered cfg (reported w) c ++ (hands c ++ (w.kernel.conns c).unread)
    at hconserved
  change (w.kernel.conns c).sent = _ ++ (w.kernel.conns c).unread at hreceived
  rw [hreceived, ← List.append_assoc] at hconserved
  exact List.append_cancel_right hconserved

theorem uring_refines_echoService_closedEcho :
    ∃ hands trace s, Runs smallConfig.defaultBufferSize.toNat Exhausted trace s ∧
      Shows (settled smallConfig (reported closedEcho) closedEcho.kernel) hands s ∧
      (∀ c, stream .recv (reported closedEcho) c =
        answered smallConfig (reported closedEcho) c ++ hands c) ∧
      messages trace = replies smallConfig (reported closedEcho) ∧
      closings trace = closedEcho.kernel.closes.filterMap socketOf :=
  uring_refines_echoService reachable_closedEcho faithful_closedEcho

/-- Messages of the same length are sent. -/
theorem dvd_answered {log : List Cqe} {size : Nat}
    (h : ∀ message ∈ replies cfg log, message.length = size) (c : ConnId) :
    size ∣ (answered cfg log c).length := by
  rw [answered, stream, List.length_flatMap]
  apply List.dvd_sum
  intro length hlength
  obtain ⟨q, hq, rfl⟩ := List.mem_map.mp hlength
  split_ifs
  · exact dvd_of_eq (h _ (List.mem_map_of_mem hq)).symm
  · exact dvd_zero _

/-- What is transmitted on a connection are the messages whose requests are
completed, and a part of the next one; it follows what was sent.  The server has
seen all of these completions but for one message. -/
theorem transmitted_of_reachable (h : Reachable cfg w) (hfaithful : w.faithful = true)
    (c : ConnId) :
    (w.kernel.conns c).transmitted <+: (w.kernel.conns c).sent ∧
      ∀ log ∈ [reported w, w.handled], ∃ part,
        (w.kernel.conns c).transmitted = answered cfg log c ++ part ∧
          part.length ≤ cfg.defaultBufferSize.toNat := by
  obtain ⟨hecho, hcarries⟩ := carries_of_reachable h hfaithful
  obtain ⟨message, part, hlength, hlaw, hpre, hpart⟩ := message_underway hecho c
  have htransmitted := hcarries.transmitted c
  have hreceived := hcarries.received c
  rw [completed_view, reported, stream_append_log] at htransmitted hreceived
  have hwhole : answered cfg w.handled c = stream .send w.handled c :=
    answered_eq fun q hq => hcarries.whole q (List.mem_append_left _ hq)
  change (w.kernel.conns c).transmitted = _ ++ underway w.inflight c at htransmitted
  change stream .send w.iou.unreaped c ++ underway w.inflight c = _ at hpart
  change stream .send w.iou.unreaped c ++ underway w.inflight c <+: _ at hpre
  change stream .recv w.handled c = _ at hlaw
  change (w.kernel.conns c).sent = _ at hreceived
  have hle := hpre.length_le
  refine ⟨?_, fun log hlog => ?_⟩
  · rw [htransmitted, hreceived, hlaw, List.append_assoc, List.append_assoc, List.append_assoc]
    exact (List.prefix_append_right_inj _).mpr (hpre.trans (List.prefix_append _ _))
  · rw [List.mem_cons, List.mem_singleton] at hlog
    rcases hlog with rfl | rfl
    · refine ⟨part, ?_, ?_⟩
      · rw [htransmitted, List.append_assoc, hpart, reported, answered_append_log, hwhole,
          List.append_assoc]
        rfl
      · rw [hpart, List.length_append] at hle
        omega
    · refine ⟨stream .send w.iou.unreaped c ++ underway w.inflight c, ?_, hle.trans hlength⟩
      rw [htransmitted, List.append_assoc, hwhole]

theorem length_of_mem_replies (h : Reachable cfg w) (hfaithful : w.faithful = true)
    {message : List Octet} (hmessage : message ∈ replies cfg (reported w)) :
    message.length = cfg.defaultBufferSize.toNat := by
  obtain ⟨hands, htraced⟩ := (carries_of_reachable h hfaithful).2.traced
  obtain ⟨trace, s, hruns, -, hmessages, -⟩ := htraced.trace
  rw [completed_view] at hmessages
  rw [← hmessages] at hmessage
  exact hruns.length_of_mem_messages hmessage

/-- A connection is closed when everything that was sent on it has been answered. -/
theorem answered_of_closed (h : Reachable cfg w) (hfaithful : w.faithful = true) {c : ConnId}
    (hclosed : c ∈ w.kernel.closes.filterMap socketOf) :
    answered cfg (reported w) c = (w.kernel.conns c).sent := by
  obtain ⟨hands, htraced⟩ := (carries_of_reachable h hfaithful).2.traced
  rw [completed_view] at htraced
  exact htraced.exhausted (fun _ hmay => hmay) hclosed

/-- The bytes of each connection go back in order and to their sender only, in
whole messages but for the one that is on its way or that the server has not seen
reported; a connection is closed once at most, when its peer has finished and all
that was sent on it has gone back. -/
theorem uring_answers_all (h : Reachable cfg w) (hfaithful : w.faithful = true) :
    (∀ c, (w.kernel.conns c).transmitted <+: (w.kernel.conns c).sent ∧
      ∀ log ∈ [reported w, w.handled], ∃ part,
        (w.kernel.conns c).transmitted = answered cfg log c ++ part ∧
          cfg.defaultBufferSize.toNat ∣ (answered cfg log c).length ∧
            part.length ≤ cfg.defaultBufferSize.toNat) ∧
      (w.kernel.closes.filterMap socketOf).Nodup ∧
        ∀ fd c, (fd, .socket c) ∈ w.kernel.closes → (w.kernel.conns c).eos = true ∧
          (w.kernel.conns c).transmitted = (w.kernel.conns c).sent := by
  obtain ⟨-, hcarries⟩ := carries_of_reachable h hfaithful
  obtain ⟨hands, htraced⟩ := hcarries.traced
  rw [completed_view] at htraced
  refine ⟨fun c => ?_, htraced.nodup_closes, fun fd c hclosed => ?_⟩
  · obtain ⟨hpre, hparts⟩ := transmitted_of_reachable h hfaithful c
    refine ⟨hpre, fun log hlog => ?_⟩
    obtain ⟨part, hpart, hlength⟩ := hparts log hlog
    refine ⟨part, hpart, dvd_answered (fun message hmessage => ?_) c, hlength⟩
    apply length_of_mem_replies h hfaithful
    rw [List.mem_cons, List.mem_singleton] at hlog
    rcases hlog with rfl | rfl
    · exact hmessage
    · rw [reported, replies, List.filter_append, List.map_append]
      exact List.mem_append_left _ hmessage
  · have hclosings := mem_closings hclosed
    refine ⟨htraced.finished (fun _ hmay => hmay.2) hclosings, ?_⟩
    obtain ⟨hpre, hparts⟩ := transmitted_of_reachable h hfaithful c
    obtain ⟨part, hpart, -⟩ := hparts (reported w) List.mem_cons_self
    refine hpre.eq_of_length_le ?_
    rw [hpart, answered_of_closed h hfaithful hclosings, List.length_append]
    exact Nat.le_add_right _ _

theorem uring_answers_all_closedEcho :
    (∀ c, (closedEcho.kernel.conns c).transmitted <+: (closedEcho.kernel.conns c).sent ∧
      ∀ log ∈ [reported closedEcho, closedEcho.handled], ∃ part,
        (closedEcho.kernel.conns c).transmitted = answered smallConfig log c ++ part ∧
          smallConfig.defaultBufferSize.toNat ∣ (answered smallConfig log c).length ∧
            part.length ≤ smallConfig.defaultBufferSize.toNat) ∧
      (closedEcho.kernel.closes.filterMap socketOf).Nodup ∧
        ∀ fd c, (fd, .socket c) ∈ closedEcho.kernel.closes →
          (closedEcho.kernel.conns c).eos = true ∧
            (closedEcho.kernel.conns c).transmitted = (closedEcho.kernel.conns c).sent :=
  uring_answers_all reachable_closedEcho faithful_closedEcho

end Guarantees

end EchoServers.UringEchoes
