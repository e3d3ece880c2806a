import EchoServers.EchoTraffic
import EchoServers.UringInvariant

/-!
The completed requests of the io_uring server, read as a run of the abstract
service.
-/

namespace EchoServers.UringTraffic

open EchoServers.EchoService
open EchoServers.EchoTraffic
open EchoServers.ServerUtils
open EchoServers.SocketKernel
open EchoServers.UringInvariant
open EchoServers.UringKernelSteps
open EchoServers.UringMemory
open EchoServers.UringOwnership
open EchoServers.UringReferences
open EchoServers.UringServer
open EchoServers.UringStreams

/-- The CQE of a request that sent a whole message. -/
def isReply (cfg : Config) (q : Cqe) : Bool :=
  decide (q.request.sqe.opcode = .send ∧ q.res = cfg.defaultBufferSize.toNat)

/-- The messages that were sent back, in the order of their completion. -/
def replies (cfg : Config) (log : List Cqe) : List (List Octet) :=
  (log.filter (isReply cfg)).map fun q => q.request.moved

/-- What was sent back on a connection, without a message that is not complete. -/
def answered (cfg : Config) (log : List Cqe) (c : ConnId) : List Octet :=
  stream .send (log.filter (isReply cfg)) c

/-- The kernel, as if a message were transmitted at once when it is complete. -/
def settled (cfg : Config) (log : List Cqe) (k : Kernel) : Kernel :=
  { k with conns := fun c => { k.conns c with transmitted := answered cfg log c } }

/-- What the requests in flight have transmitted on a connection. -/
def underway (inflight : List Request) (c : ConnId) : List Octet :=
  inflight.flatMap fun r =>
    if r.sqe.opcode = .send ∧ r.conn = some c then r.moved else []

/-- The SQEs of the requests that are not completed. -/
def submitted (v : View) : List Sqe :=
  v.pending ++ v.inflight.map Request.sqe

/-- The CQEs posted so far, when the server works on those in `now`. -/
def completed (now : List Cqe) (v : View) : List Cqe :=
  v.handled ++ now ++ v.unreaped

/-- The service may close a connection whose peer has finished once everything
has been sent back. -/
def Exhausted (x : Stream Octet) : Prop :=
  x.pending = [] ∧ x.ended = true

/-- What the completed requests tell.  The server works on the CQEs in `now`,
and is done with those in `cur` except for recording that. -/
structure Carries (cfg : Config) (cur now : List Cqe) (v : View) : Prop where
  received : ∀ c, (v.kernel.conns c).sent =
    stream .recv (completed now v) c ++ (v.kernel.conns c).unread
  whole : ∀ q ∈ v.handled ++ cur, q.request.sqe.opcode = .send → isReply cfg q = true
  ended : ∀ q ∈ completed now v, q.request.sqe.opcode = .recv → q.res = 0 →
    ∀ c, q.request.conn = some c → Drained (v.kernel.conns c)
  closing : ∀ s ∈ submitted v, s.opcode = .close → ∀ c,
    v.kernel.files s.fd = some (.socket c) → Drained (v.kernel.conns c)
  transmitted : ∀ c, (v.kernel.conns c).transmitted =
    stream .send (completed now v) c ++ underway v.inflight c
  traced : ∃ held, Traced cfg.defaultBufferSize.toNat Exhausted held
    (settled cfg (completed now v) v.kernel) (replies cfg (completed now v))

section Logs

variable {cfg : Config} {kind : Opcode} {log log' : List Cqe} {q : Cqe} {c : ConnId}
  {k : Kernel} {inflight inflight' : List Request} {r : Request}

theorem stream_append_log : stream kind (log ++ log') c = stream kind log c ++ stream kind log' c :=
  List.flatMap_append

/-- No request of the kind has been completed on the connection. -/
theorem stream_eq_nil (h : ∀ q ∈ log, q.request.sqe.opcode = kind → q.request.conn ≠ some c) :
    stream kind log c = [] := by
  apply List.flatMap_eq_nil_iff.mpr
  intro q hq
  rw [if_neg]
  rintro ⟨hkind, hconn⟩
  exact h q hq hkind hconn

theorem underway_append : underway (inflight ++ inflight') c =
    underway inflight c ++ underway inflight' c :=
  List.flatMap_append

theorem underway_cons : underway (r :: inflight) c =
    (if r.sqe.opcode = .send ∧ r.conn = some c then r.moved else []) ++ underway inflight c :=
  List.flatMap_cons

theorem underway_eq_nil
    (h : ∀ r ∈ inflight, r.sqe.opcode = .send → r.conn ≠ some c) : underway inflight c = [] := by
  apply List.flatMap_eq_nil_iff.mpr
  intro r hr
  rw [if_neg]
  rintro ⟨hkind, hconn⟩
  exact h r hr hkind hconn

theorem answered_append_log :
    answered cfg (log ++ log') c = answered cfg log c ++ answered cfg log' c := by
  rw [answered, List.filter_append, stream_append_log]
  rfl

/-- Where every send was that of a whole message. -/
theorem answered_eq (h : ∀ q ∈ log, q.request.sqe.opcode = .send → isReply cfg q = true) :
    answered cfg log c = stream .send log c := by
  induction log with
  | nil => rfl
  | cons q log ih =>
      have hrest := ih fun q' hq' => h q' (List.mem_cons_of_mem _ hq')
      rw [answered] at hrest ⊢
      by_cases hq : isReply cfg q = true
      · rw [List.filter_cons_of_pos hq]
        simp only [stream, List.flatMap_cons] at hrest ⊢
        rw [hrest]
      · have hkind : q.request.sqe.opcode ≠ .send := fun hsend =>
          hq (h q List.mem_cons_self hsend)
        rw [List.filter_cons_of_neg hq, hrest]
        simp [stream, hkind]

theorem replies_append (hq : isReply cfg q = true) :
    replies cfg (log ++ [q]) = replies cfg log ++ [q.request.moved] := by
  rw [replies, List.filter_append, List.filter_cons_of_pos hq, List.map_append]
  rfl

theorem replies_append_of_not (hq : isReply cfg q = false) :
    replies cfg (log ++ [q]) = replies cfg log := by
  rw [replies, List.filter_append, List.filter_cons_of_neg (by rw [hq]; exact Bool.false_ne_true),
    List.filter_nil, List.append_nil]
  rfl

theorem answered_append_of_not (hq : isReply cfg q = false) :
    answered cfg (log ++ [q]) = answered cfg log := by
  funext c
  rw [answered, List.filter_append,
    List.filter_cons_of_neg (by rw [hq]; exact Bool.false_ne_true), List.filter_nil,
    List.append_nil]
  rfl

theorem settled_append_of_not (hq : isReply cfg q = false) :
    settled cfg (log ++ [q]) k = settled cfg log k := by
  rw [settled, answered_append_of_not hq]
  rfl

/-- The completion of a message is the moment at which it counts as transmitted. -/
theorem settled_append (hq : isReply cfg q = true) (hconn : q.request.conn = some c) :
    settled cfg (log ++ [q]) k = (settled cfg log k).updateConn c fun con =>
      { con with transmitted := con.transmitted ++ q.request.moved } := by
  have hsend : q.request.sqe.opcode = .send := (of_decide_eq_true hq).1
  have hanswered : ∀ c', answered cfg (log ++ [q]) c' =
      answered cfg log c' ++ if c' = c then q.request.moved else [] := by
    intro c'
    rw [answered_append_log, answered, answered, List.filter_cons_of_pos hq, List.filter_nil]
    congr 1
    rcases eq_or_ne c' c with rfl | hne
    · simp [stream, hsend, hconn]
    · simp [stream, hconn, hne, hne.symm]
  simp only [settled, Kernel.updateConn, hanswered]
  congr 1
  funext c'
  rcases eq_or_ne c' c with rfl | hne
  · simp
  · simp [hne]

theorem settled_updateConn (c : ConnId) {f : Conn → Conn}
    (hf : ∀ con x, ({ f con with transmitted := x } : Conn) = f { con with transmitted := x }) :
    settled cfg log (k.updateConn c f) = (settled cfg log k).updateConn c f := by
  simp only [settled, Kernel.updateConn]
  congr 1
  funext c'
  rcases eq_or_ne c' c with rfl | hne
  · rw [Function.update_self, Function.update_self, hf]
  · rw [Function.update_of_ne hne, Function.update_of_ne hne]

theorem settled_arrive (a : Arrival) :
    settled cfg log (k.arrive a) = (settled cfg log k).arrive a := by
  have hraise : ∀ (k' : Kernel) (f : File),
      settled cfg log (k'.raise f) = (settled cfg log k').raise f := fun _ _ => rfl
  cases a with
  | connect | vanish | expire => rfl
  | bytes c data =>
      simp only [Kernel.arrive]
      rw [show ((settled cfg log k).conns c).eos = (k.conns c).eos from rfl,
        show (settled cfg log k).connected = k.connected from rfl]
      split_ifs
      · rw [hraise, settled_updateConn c fun con x => rfl]
      · rfl
  | eos c =>
      simp only [Kernel.arrive]
      rw [show (settled cfg log k).connected = k.connected from rfl]
      split_ifs
      · rw [hraise, settled_updateConn c fun con x => rfl]
      · rfl
  | fail c err hup =>
      simp only [Kernel.arrive]
      rw [show (settled cfg log k).connected = k.connected from rfl]
      split_ifs
      · rw [hraise, settled_updateConn c fun con x => rfl]
      · rfl

theorem settled_close (fd : Fd) :
    settled cfg log (k.close fd).2 = ((settled cfg log k).close fd).2 := by
  unfold Kernel.close
  rw [show (settled cfg log k).files = k.files from rfl]
  cases k.files fd with
  | none => rfl
  | some f => rfl

end Logs

section Alone

variable {cfg : Config} {held : List Reference} {cur : List Cqe} {v : View}
  {before after : List Request} {r : Request} {c : ConnId}

theorem references_split (hinflight : v.inflight = before ++ r :: after) :
    (references v).Perm
      ({ sqe := r.sqe } :: references { v with inflight := before ++ after }) := by
  simp only [references, hinflight, List.map_append, List.map_cons, List.append_assoc,
    List.cons_append]
  rw [← List.append_assoc]
  refine List.perm_middle.trans ?_
  simp

theorem references_split_unreaped {early late : List Cqe} {q : Cqe}
    (hunreaped : v.unreaped = early ++ q :: late) :
    (references v).Perm
      (cqeReference q :: references { v with unreaped := early ++ late }) := by
  simp only [references, hunreaped, List.map_append, List.map_cons]
  rw [← List.append_assoc, ← List.append_assoc, ← List.append_assoc, ← List.append_assoc]
  exact List.perm_middle

/-- One reference accounts for a connection, the rest do not claim it. -/
theorem unclaimed_of_perm (h : Echoes cfg held cur v) {r₀ : Reference} {rest : List Reference}
    (hperm : (references v).Perm (r₀ :: rest)) {fd : Fd} (hclaim : claim r₀ = some fd)
    (hfile : v.kernel.files fd = some (.socket c)) :
    ∀ r' ∈ rest, ∀ fd', claim r' = some fd' → v.kernel.files fd' ≠ some (.socket c) := by
  intro r' hr' fd' hfd hfile'
  have hnodup := (claims_perm (hperm.append_right held)).nodup_iff.mp h.claimsNodup
  rw [claims, List.cons_append, List.filterMap_cons_some hclaim, List.nodup_cons] at hnodup
  have hsame := h.kernel.unique _ _ _ hfile' hfile
  rw [hsame] at hfd
  exact hnodup.1 (mem_claims (List.mem_append_left _ hr') hfd)

/-- A transfer claims the socket of its connection. -/
theorem conn_ne_of_unclaimed (h : Echoes cfg held cur v) {rest : List Reference}
    (hrest : ∀ r' ∈ rest, ∀ fd, claim r' = some fd → v.kernel.files fd ≠ some (.socket c)) :
    (∀ r' ∈ v.inflight, { sqe := r'.sqe } ∈ rest →
      r'.sqe.opcode = .recv ∨ r'.sqe.opcode = .send → r'.conn ≠ some c) ∧
    ∀ q ∈ v.unreaped, cqeReference q ∈ rest →
      q.request.sqe.opcode = .recv ∨ q.request.sqe.opcode = .send → q.request.conn ≠ some c := by
  constructor
  · intro r' hr' hmem hkind hconn
    obtain ⟨c', hconn', hfile'⟩ := (h.requests r' hr').conn hkind
    rw [hconn] at hconn'
    cases hconn'
    exact hrest _ hmem _ (claim_transfer hkind none) hfile'
  · intro q hq hmem hkind hconn
    obtain ⟨c', hconn', hfile'⟩ := (h.completions q hq).conn hkind
    rw [hconn] at hconn'
    cases hconn'
    exact hrest _ hmem _ (claim_transfer hkind _) hfile'

/-- Nothing else that is outstanding moves bytes of the connection of a request. -/
theorem alone (h : Echoes cfg held cur v) (hinflight : v.inflight = before ++ r :: after)
    (hclaim : claim { sqe := r.sqe } = some r.sqe.fd)
    (hfile : v.kernel.files r.sqe.fd = some (.socket c)) :
    (∀ r' ∈ before ++ after, r'.sqe.opcode = .recv ∨ r'.sqe.opcode = .send →
      r'.conn ≠ some c) ∧
    ∀ q ∈ v.unreaped, q.request.sqe.opcode = .recv ∨ q.request.sqe.opcode = .send →
      q.request.conn ≠ some c := by
  obtain ⟨hrequests, hcompletions⟩ :=
    conn_ne_of_unclaimed h (unclaimed_of_perm h (references_split hinflight) hclaim hfile)
  constructor
  · intro r' hr'
    refine hrequests r' ?_ (mem_references_inflight hr')
    rw [hinflight, List.mem_append, List.mem_cons]
    rw [List.mem_append] at hr'
    tauto
  · intro q hq
    exact hcompletions q hq (mem_references_unreaped hq)

/-- Nor does anything else when a request of the connection has been completed. -/
theorem alone_unreaped (h : Echoes cfg held cur v) {early late : List Cqe} {q : Cqe}
    (hunreaped : v.unreaped = early ++ q :: late)
    (hkind : q.request.sqe.opcode = .recv ∨ q.request.sqe.opcode = .send)
    (hfile : v.kernel.files q.request.sqe.fd = some (.socket c)) :
    (∀ r ∈ v.inflight, r.sqe.opcode = .recv ∨ r.sqe.opcode = .send → r.conn ≠ some c) ∧
    ∀ q' ∈ early ++ late, q'.request.sqe.opcode = .recv ∨ q'.request.sqe.opcode = .send →
      q'.request.conn ≠ some c := by
  obtain ⟨hrequests, hcompletions⟩ := conn_ne_of_unclaimed h
    (unclaimed_of_perm h (references_split_unreaped hunreaped) (claim_transfer hkind _) hfile)
  constructor
  · intro r hr
    exact hrequests r hr (mem_references_inflight hr)
  · intro q' hq'
    refine hcompletions q' ?_ (mem_references_unreaped hq')
    rw [hunreaped, List.mem_append, List.mem_cons]
    rw [List.mem_append] at hq'
    tauto

end Alone

section Steps

variable {cfg : Config} {held : List Reference} {cur : List Cqe} {spare : List Ptr}
  {xs : List (Ptr × Ptr)} {v v' u : View} {before after : List Request} {r q : Request}
  {c : ConnId} {res : Int}

/-- What a connection has received was sent back, except for the message that a
request of it is about to send. -/
theorem Carries.received_eq (h : Carries cfg cur cur v) (hecho : Echoes cfg held cur v)
    (hinflight : v.inflight = before ++ r :: after)
    (hclaim : claim { sqe := r.sqe } = some r.sqe.fd)
    (hfile : v.kernel.files r.sqe.fd = some (.socket c)) :
    stream .recv (completed cur v) c =
      answered cfg (completed cur v) c ++ lag cfg v { sqe := r.sqe } ∧
    stream .send (completed cur v) c = answered cfg (completed cur v) c := by
  obtain ⟨-, hunreaped⟩ := alone hecho hinflight hclaim hfile
  have hmem : ({ sqe := r.sqe } : Reference) ∈ references v ++ held :=
    List.mem_append_left _ (mem_references_inflight (by simp [hinflight]))
  have hahead := hecho.ahead _ hmem _ _ hclaim hfile
  have hrecv : stream .recv v.unreaped c = [] :=
    stream_eq_nil fun q hq hkind => hunreaped q hq (.inl hkind)
  have hsend : stream .send v.unreaped c = [] :=
    stream_eq_nil fun q hq hkind => hunreaped q hq (.inr hkind)
  have hanswered : answered cfg v.unreaped c = [] :=
    stream_eq_nil fun q hq hkind => hunreaped q (List.mem_of_mem_filter hq) (.inr hkind)
  have hwhole : answered cfg (v.handled ++ cur) c = stream .send (v.handled ++ cur) c :=
    answered_eq h.whole
  have hreceived : stream .recv (completed cur v) c = stream .recv (v.handled ++ cur) c := by
    rw [completed, stream_append_log, hrecv, List.append_nil]
  have hsent : stream .send (completed cur v) c = stream .send (v.handled ++ cur) c := by
    rw [completed, stream_append_log, hsend, List.append_nil]
  have hback : answered cfg (completed cur v) c = stream .send (v.handled ++ cur) c := by
    rw [completed, answered_append_log, hanswered, hwhole, List.append_nil]
  rw [hreceived, hsent, hback]
  exact ⟨hahead, rfl⟩

/-- The server has that message in its hands. -/
theorem Carries.held_eq (h : Carries cfg cur cur v) (hecho : Echoes cfg held cur v)
    (hinflight : v.inflight = before ++ r :: after)
    (hclaim : claim { sqe := r.sqe } = some r.sqe.fd)
    (hfile : v.kernel.files r.sqe.fd = some (.socket c)) {hands : Hands}
    (htraced : Traced cfg.defaultBufferSize.toNat Exhausted hands
      (settled cfg (completed cur v) v.kernel) (replies cfg (completed cur v))) :
    hands c = lag cfg v { sqe := r.sqe } := by
  have hconserved : (v.kernel.conns c).sent = answered cfg (completed cur v) c ++
      (hands c ++ (v.kernel.conns c).unread) := htraced.conserved c
  rw [h.received c, (h.received_eq hecho hinflight hclaim hfile).1, List.append_assoc] at hconserved
  exact (List.append_cancel_right (List.append_cancel_left hconserved)).symm

theorem completed_complete (hunreaped : u.unreaped = v.unreaped)
    (hhandled : u.handled = v.handled) :
    completed cur (u.complete before after q res) =
      completed cur v ++ [{ userData := q.sqe.userData, res := res, request := q }] := by
  simp only [completed, View.complete, hunreaped, hhandled, List.append_assoc]

/-- What the kernel has to do for the law when it completes a request. -/
theorem Carries.complete (h : Carries cfg cur cur v) (hinflight : v.inflight = before ++ r :: after)
    (hpending : u.pending = v.pending) (hunreaped : u.unreaped = v.unreaped)
    (hhandled : u.handled = v.handled)
    (hfiles : ∀ s ∈ submitted v, s.opcode = .close → ∀ c,
      u.kernel.files s.fd = some (.socket c) → v.kernel.files s.fd = some (.socket c))
    (hdrained : ∀ c, Drained (v.kernel.conns c) → Drained (u.kernel.conns c))
    (hreceived : ∀ c, (u.kernel.conns c).sent = stream .recv (completed cur v) c ++
      (if q.sqe.opcode = .recv ∧ q.conn = some c then q.moved else []) ++
        (u.kernel.conns c).unread)
    (hended : q.sqe.opcode = .recv → res = 0 → ∀ c, q.conn = some c → Drained (u.kernel.conns c))
    (htransmitted : ∀ c, (u.kernel.conns c).transmitted = stream .send (completed cur v) c ++
      (if q.sqe.opcode = .send ∧ q.conn = some c then q.moved else []) ++
        underway (before ++ after) c)
    (htraced : ∃ held, Traced cfg.defaultBufferSize.toNat Exhausted held
      (settled cfg (completed cur v ++
        [{ userData := q.sqe.userData, res := res, request := q }]) u.kernel)
      (replies cfg (completed cur v ++
        [{ userData := q.sqe.userData, res := res, request := q }]))) :
    Carries cfg cur cur (u.complete before after q res) := by
  have hcompleted : completed cur (u.complete before after q res) = completed cur v ++
      [{ userData := q.sqe.userData, res := res, request := q }] :=
    completed_complete hunreaped hhandled
  constructor
  · intro c
    rw [hcompleted, stream_append]
    exact hreceived c
  · change ∀ q ∈ u.handled ++ cur, _
    rw [hhandled]
    exact h.whole
  · rw [hcompleted]
    intro q' hq' hkind hres c hconn
    rw [List.mem_append, List.mem_singleton] at hq'
    rcases hq' with hq' | rfl
    · exact hdrained c (h.ended q' hq' hkind hres c hconn)
    · exact hended hkind hres c hconn
  · intro s hs hkind c hfile
    have hmem : s ∈ submitted v := by
      simp only [submitted, View.complete, hpending, hinflight, List.map_append, List.map_cons,
        List.mem_append, List.mem_cons] at hs ⊢
      tauto
    exact hdrained c (h.closing s hmem hkind c (hfiles s hmem hkind c hfile))
  · intro c
    rw [hcompleted, stream_append]
    exact htransmitted c
  · rw [hcompleted]
    exact htraced

theorem received_of_nil (h : Carries cfg cur cur v) (hmoved : q.sqe.opcode = .recv → q.moved = [])
    (c : ConnId) : (v.kernel.conns c).sent = stream .recv (completed cur v) c ++
      (if q.sqe.opcode = .recv ∧ q.conn = some c then q.moved else []) ++
        (v.kernel.conns c).unread := by
  have hnil : (if q.sqe.opcode = .recv ∧ q.conn = some c then q.moved else []) = [] := by
    split_ifs with hcond
    · exact hmoved hcond.1
    · rfl
  rw [hnil, List.append_nil]
  exact h.received c

/-- What has been transmitted, with the part of one request apart. -/
theorem transmitted_split (h : Carries cfg cur cur v) (hecho : Echoes cfg held cur v)
    (hinflight : v.inflight = before ++ r :: after) (c : ConnId) :
    (v.kernel.conns c).transmitted = stream .send (completed cur v) c ++
      (if r.sqe.opcode = .send ∧ r.conn = some c then r.moved else []) ++
        underway (before ++ after) c := by
  rw [h.transmitted c, hinflight, underway_append, underway_cons, underway_append]
  split_ifs with hcond
  · obtain ⟨hkind, hconn⟩ := hcond
    obtain ⟨c', hconn', hfile⟩ := (hecho.requests r (by simp [hinflight])).conn (.inr hkind)
    rw [hconn] at hconn'
    cases hconn'
    obtain ⟨hothers, -⟩ := alone hecho hinflight (claim_transfer (.inr hkind) none) hfile
    have hbefore : underway before c = [] :=
      underway_eq_nil fun r' hr' hsend => hothers r' (List.mem_append_left _ hr') (.inr hsend)
    have hafter : underway after c = [] :=
      underway_eq_nil fun r' hr' hsend => hothers r' (List.mem_append_right _ hr') (.inr hsend)
    rw [hbefore, hafter, List.nil_append, List.append_nil]
    exact (List.append_nil _).symm
  · rw [List.nil_append, List.append_nil]

theorem isReply_eq_false (h : q.sqe.opcode ≠ .send ∨ res ≠ cfg.defaultBufferSize.toNat) :
    isReply cfg { userData := q.sqe.userData, res := res, request := q } = false := by
  apply decide_eq_false
  rintro ⟨hkind, hres⟩
  exact h.elim (fun hne => hne hkind) fun hne => hne hres

/-- The completion of a request that moved nothing to the peer. -/
theorem traced_silent
    (hreply : isReply cfg { userData := q.sqe.userData, res := res, request := q } =
      false) {k : Kernel}
    (h : ∃ held, Traced cfg.defaultBufferSize.toNat Exhausted held
      (settled cfg (completed cur v) k) (replies cfg (completed cur v))) :
    ∃ held, Traced cfg.defaultBufferSize.toNat Exhausted held
      (settled cfg (completed cur v ++
        [{ userData := q.sqe.userData, res := res, request := q }]) k)
      (replies cfg (completed cur v ++
        [{ userData := q.sqe.userData, res := res, request := q }])) := by
  rw [settled_append_of_not hreply, replies_append_of_not hreply]
  exact h

/-- What is read of another connection does not matter to a drained one. -/
theorem drained_deliver {k : Kernel} {data rest : List Octet} {c' : ConnId}
    (hunread : (k.conns c).unread = data ++ rest) (hdata : data ≠ [])
    (h : Drained (k.conns c')) :
    Drained ((k.updateConn c fun con => { con with unread := rest }).conns c') := by
  rcases eq_or_ne c' c with rfl | hne
  · rw [Drained, hunread] at h
    exact absurd (List.append_eq_nil_iff.mp h.1).1 hdata
  · rw [updateConn_conns_of_ne _ hne]
    exact h

theorem drained_transmit {k : Kernel} {data : List Octet} {c' : ConnId}
    (h : Drained (k.conns c')) :
    Drained ((k.updateConn c fun con =>
      { con with transmitted := con.transmitted ++ data }).conns c') := by
  rcases eq_or_ne c' c with rfl | hne
  · rw [updateConn_conns_self]
    exact h
  · rw [updateConn_conns_of_ne _ hne]
    exact h

theorem drained_arrive {k : Kernel} (a : Arrival) (h : Drained (k.conns c)) :
    Drained ((k.arrive a).conns c) :=
  (lasting_drained (S := fun _ => False) c).arrive k a h

/-- Nothing arrives any more on a connection that was drained. -/
theorem drained_step (hown : Owned cfg held cur spare xs v) (hstep : KernelStep v v')
    (h : Drained (v.kernel.conns c)) : Drained (v'.kernel.conns c) := by
  cases hstep with
  | network a => exact drained_arrive a h
  | deliver before after r hinflight hkind c' hconn data rest hunread hdata hlen p haddr o hop =>
      exact drained_deliver hunread hdata h
  | transmit before after r hinflight hkind c' hconn p haddr o hop data hdata =>
      exact drained_transmit h
  | close before after r hinflight hkind f hopen =>
      simp only [View.complete]
      rw [close_conns]
      exact h
  | stray r hmem hkind hstray =>
      obtain ⟨haddr, o, ho⟩ := hown.request_addr hmem hkind
      rw [hstray _ haddr] at ho
      cases ho
  | consume | accept | eof | scribble | sent | answer => exact h

/-- The kernel leaves the descriptors alone that the server has a claim to. -/
theorem files_step (hown : Owned cfg held cur spare xs v) (hecho : Echoes cfg held cur v)
    (hstep : KernelStep v v') {fd : Fd} (hr : fd ∈ claims held) :
    v'.kernel.files fd = v.kernel.files fd := by
  have hclaims : claims (references v ++ held) = claims (references v) ++ claims held :=
    List.filterMap_append
  obtain ⟨c, hopen⟩ := (hecho.claimsOpen fd).mp (hclaims ▸ List.mem_append_right _ hr)
  cases hstep with
  | network a => exact congrFun (arrive_files a) fd
  | accept before after r hinflight hkind fd' c' backlog hbacklog hfd hfree =>
      have hne : fd ≠ fd' := by
        rintro rfl
        rw [hfree] at hopen
        cases hopen
      exact Function.update_of_ne hne ..
  | close before after r hinflight hkind f hopen' =>
      have hne : fd ≠ r.sqe.fd := by
        rintro rfl
        have hnodup := hecho.claimsNodup
        rw [hclaims, List.nodup_append] at hnodup
        refine hnodup.2.2 r.sqe.fd (mem_claims (mem_references_inflight (r := r) ?_) ?_) _ hr rfl
        · simp [hinflight]
        · simp [claim, hkind]
      simp only [View.complete]
      rw [close_files]
      exact Function.update_of_ne hne ..
  | stray r hmem hkind hstray =>
      obtain ⟨haddr, o, ho⟩ := hown.request_addr hmem hkind
      rw [hstray _ haddr] at ho
      cases ho
  | consume | deliver | eof | scribble | transmit | sent | answer => rfl

theorem Carries.network (h : Carries cfg cur cur v) (a : Arrival) :
    Carries cfg cur cur { v with kernel := v.kernel.arrive a } := by
  have hfiles : (v.kernel.arrive a).files = v.kernel.files := arrive_files a
  constructor
  · intro c
    have hlasting : Lasting (fun _ => False) fun conns =>
        (conns c).sent = stream .recv (completed cur v) c ++ (conns c).unread := by
      refine lasting_of_flag (P := fun con =>
        con.sent = stream .recv (completed cur v) c ++ con.unread) c (fun con data _ hcon => ?_)
        (fun _ hcon => hcon) (fun _ _ _ hcon => hcon) (fun _ _ hread => hread.elim)
        fun _ _ hcon => hcon
      change con.sent ++ data = _ ++ (con.unread ++ data)
      rw [hcon, List.append_assoc]
    exact hlasting.arrive v.kernel a (h.received c)
  · exact h.whole
  · intro q hq hkind hres c hconn
    exact drained_arrive a (h.ended q hq hkind hres c hconn)
  · intro s hs hkind c hfile
    dsimp only at hfile
    rw [hfiles] at hfile
    exact drained_arrive a (h.closing s hs hkind c hfile)
  · intro c
    dsimp only
    rw [arrive_transmitted]
    exact h.transmitted c
  · obtain ⟨held, htraced⟩ := h.traced
    refine ⟨held, ?_⟩
    change Traced _ _ _ (settled cfg (completed cur v) (v.kernel.arrive a)) _
    rw [settled_arrive]
    exact htraced.arrive a

theorem Carries.consume (h : Carries cfg cur cur v) {s : Sqe} {rest : List Sqe}
    (hpending : v.pending = s :: rest) (conn : Option ConnId) (consumed : List Sqe) :
    Carries cfg cur cur
      { v with
        pending := rest
        inflight := v.inflight ++ [{ sqe := s, conn := conn }]
        consumed := consumed } := by
  refine ⟨h.received, h.whole, h.ended, fun s' hs' => ?_, fun c => ?_, h.traced⟩
  · refine h.closing s' ?_
    simp only [submitted, hpending, List.map_append, List.map_cons, List.map_nil,
      List.mem_append, List.mem_cons, List.not_mem_nil, or_false] at hs' ⊢
    tauto
  · dsimp only
    rw [underway_append, underway_cons]
    have hnil : (if s.opcode = .send ∧ conn = some c then ([] : List Octet) else []) = [] :=
      ite_self _
    rw [hnil]
    change _ = _ ++ (_ ++ [])
    rw [List.append_nil]
    exact h.transmitted c

theorem Carries.accept (h : Carries cfg cur cur v) (hecho : Echoes cfg held cur v)
    (hinflight : v.inflight = before ++ r :: after) (hkind : r.sqe.opcode = .accept) {fd : Fd}
    {backlog : List ConnId} (hbacklog : v.kernel.backlog = c :: backlog)
    (hfree : v.kernel.files fd = none) :
    Carries cfg cur cur ({ v with
      kernel := { v.kernel with
        files := Function.update v.kernel.files fd (some (.socket c))
        backlog := backlog } }.complete before after r fd) := by
  have hnot : ∀ kind, kind ≠ .accept → r.sqe.opcode ≠ kind := fun kind hne heq =>
    hne (heq.symm.trans hkind)
  refine h.complete hinflight rfl rfl rfl (fun s hs hclose c' hfile => ?_) (fun _ hc => hc)
    (received_of_nil (v := v) h fun hrecv => absurd hrecv (hnot _ (by decide)))
    (fun hrecv => absurd hrecv (hnot _ (by decide)))
    (transmitted_split (v := v) h hecho hinflight)
    (traced_silent (isReply_eq_false (.inl (hnot _ (by decide)))) ?_)
  · -- the descriptor of a request to close is open, so the new one is another
    have hmem : ({ sqe := s } : Reference) ∈ references v ++ held := by
      simp only [submitted, references, List.mem_append, List.mem_map] at hs ⊢
      rcases hs with hs | ⟨r', hr', rfl⟩
      · exact .inl (.inl ⟨s, hs, rfl⟩)
      · exact .inl (.inr (.inl ⟨r', hr', rfl⟩))
    have hclaim : claim { sqe := s } = some s.fd := by simp [claim, hclose]
    obtain ⟨c₀, hopen⟩ := (hecho.claimsOpen s.fd).mp (mem_claims hmem hclaim)
    have hne : s.fd ≠ fd := by
      rintro heq
      rw [heq, hfree] at hopen
      cases hopen
    dsimp only at hfile
    rw [Function.update_of_ne hne] at hfile
    exact hfile
  · obtain ⟨hands, htraced⟩ := h.traced
    exact ⟨hands, htraced.accept hbacklog hfree⟩

theorem Carries.deliver (h : Carries cfg cur cur v) (hecho : Echoes cfg held cur v)
    (hinflight : v.inflight = before ++ r :: after) (hkind : r.sqe.opcode = .recv)
    (hconn : r.conn = some c) {data rest : List Octet}
    (hunread : (v.kernel.conns c).unread = data ++ rest) (hdata : data ≠ [])
    (p : Ptr) (o : Option IouOp) :
    Carries cfg cur cur
      (({ v with
        kernel := v.kernel.updateConn c fun con =>
          { con with unread := rest } }.withOp p o).complete before after
        { r with moved := data } data.length) := by
  have hother : ∀ {c'}, c' ≠ c → (v.kernel.updateConn c fun con =>
      { con with unread := rest }).conns c' = v.kernel.conns c' :=
    fun hne => updateConn_conns_of_ne _ hne
  have hsend : r.sqe.opcode ≠ .send := by
    rw [hkind]
    decide
  refine h.complete (u := View.withOp { v with
    kernel := v.kernel.updateConn c fun con => { con with unread := rest } } p o)
    hinflight rfl rfl rfl (fun _ _ _ _ hfile => hfile)
    (fun _ hc' => drained_deliver hunread hdata hc') (fun c' => ?_) (fun _ hres => ?_)
    (fun c' => ?_)
    (traced_silent (q := { r with moved := data }) (isReply_eq_false (.inl hsend)) ?_)
  · have hreceived := h.received c'
    rcases eq_or_ne c' c with rfl | hne
    · rw [hunread, ← List.append_assoc] at hreceived
      simpa [View.withOp, hkind, hconn] using hreceived
    · have hnot : ¬ (r.sqe.opcode = .recv ∧ r.conn = some c') := by
        rw [hconn]
        rintro ⟨-, heq⟩
        exact hne (Option.some.inj heq).symm
      simp only [View.withOp, hother hne, if_neg hnot, List.append_nil]
      exact hreceived
  · have hlength : data.length = 0 := by omega
    exact absurd (List.eq_nil_of_length_eq_zero hlength) hdata
  · have hsplit := transmitted_split h hecho hinflight c'
    have hsame : ((v.kernel.updateConn c fun con =>
        { con with unread := rest }).conns c').transmitted =
          (v.kernel.conns c').transmitted := by
      rcases eq_or_ne c' c with rfl | hne
      · rw [updateConn_conns_self]
      · rw [hother hne]
    rw [if_neg fun hcond => hsend hcond.1] at hsplit ⊢
    exact hsame.trans hsplit
  · obtain ⟨hands, htraced⟩ := h.traced
    have hsettled : settled cfg (completed cur v)
        (v.kernel.updateConn c fun con => { con with unread := rest }) =
          (settled cfg (completed cur v) v.kernel).updateConn c fun con =>
            { con with unread := con.unread.drop data.length } := by
      rw [settled_updateConn c fun _ _ => rfl]
      simp only [Kernel.updateConn]
      rw [show ((settled cfg (completed cur v) v.kernel).conns c).unread =
        (v.kernel.conns c).unread from rfl, hunread, List.drop_left]
    have htake := htraced.take (c := c) (n := data.length) rfl
    rw [← hsettled] at htake
    exact ⟨_, htake⟩

/-- The end of a stream moves no bytes, and says that there are none left. -/
theorem Carries.eof (h : Carries cfg cur cur v) (hecho : Echoes cfg held cur v)
    (hinflight : v.inflight = before ++ r :: after) (hkind : r.sqe.opcode = .recv)
    (hconn : r.conn = some c) (hunread : (v.kernel.conns c).unread = [])
    (heos : (v.kernel.conns c).eos = true) :
    Carries cfg cur cur (v.complete before after r 0) := by
  have hmoved := (hecho.requests r (by simp [hinflight])).recv hkind
  have hsend : r.sqe.opcode ≠ .send := by
    rw [hkind]
    decide
  refine h.complete hinflight rfl rfl rfl (fun _ _ _ _ hfile => hfile) (fun _ hc => hc)
    (received_of_nil h fun _ => hmoved) (fun _ _ c' hconn' => ?_)
    (transmitted_split h hecho hinflight)
    (traced_silent (isReply_eq_false (.inl hsend)) h.traced)
  rw [hconn] at hconn'
  cases hconn'
  exact ⟨hunread, heos⟩

/-- A part of a message goes out. -/
theorem Carries.transmit (h : Carries cfg cur cur v) (hecho : Echoes cfg held cur v)
    (hinflight : v.inflight = before ++ r :: after) (hkind : r.sqe.opcode = .send)
    (hconn : r.conn = some c) (data : List Octet) :
    Carries cfg cur cur
      { v with
        kernel := v.kernel.updateConn c fun con =>
          { con with transmitted := con.transmitted ++ data }
        inflight := before ++ { r with moved := r.moved ++ data } :: after } := by
  have hother : ∀ {c'}, c' ≠ c → (v.kernel.updateConn c fun con =>
      { con with transmitted := con.transmitted ++ data }).conns c' = v.kernel.conns c' :=
    fun hne => updateConn_conns_of_ne _ hne
  constructor
  · intro c'
    have hreceived := h.received c'
    rcases eq_or_ne c' c with rfl | hne
    · dsimp only
      rw [updateConn_conns_self]
      exact hreceived
    · dsimp only
      rw [hother hne]
      exact hreceived
  · exact h.whole
  · intro q hq hrecv hres c' hconn'
    exact drained_transmit (h.ended q hq hrecv hres c' hconn')
  · intro s hs hclose c' hfile
    refine drained_transmit (h.closing s ?_ hclose c' hfile)
    simp only [submitted, hinflight, List.map_append, List.map_cons, List.mem_append,
      List.mem_cons] at hs ⊢
    tauto
  · intro c'
    have hsplit := transmitted_split h hecho hinflight c'
    dsimp only
    rw [underway_append, underway_cons]
    rcases eq_or_ne c' c with rfl | hne
    · obtain ⟨c'', hconn'', hfile⟩ := (hecho.requests r (by simp [hinflight])).conn (.inr hkind)
      rw [hconn] at hconn''
      cases hconn''
      obtain ⟨hothers, -⟩ := alone hecho hinflight (claim_transfer (.inr hkind) none) hfile
      have hnil : ∀ l, (∀ r' ∈ l, r' ∈ before ++ after) → underway l c' = [] := fun l hl =>
        underway_eq_nil fun r' hr' hsend => hothers r' (hl r' hr') (.inr hsend)
      rw [hnil _ fun _ hr' => hr', if_pos ⟨hkind, hconn⟩, List.append_nil] at hsplit
      rw [hnil before fun _ hr' => List.mem_append_left _ hr',
        hnil after fun _ hr' => List.mem_append_right _ hr', updateConn_conns_self,
        if_pos ⟨hkind, hconn⟩]
      change _ ++ data = stream .send (completed cur v) c' ++ ([] ++ (r.moved ++ data ++ []))
      rw [hsplit, List.nil_append, List.append_nil, List.append_assoc]
    · have hnot : ¬ (r.sqe.opcode = .send ∧ r.conn = some c') := by
        rw [hconn]
        rintro ⟨-, heq⟩
        exact hne (Option.some.inj heq).symm
      rw [if_neg hnot, List.append_nil, underway_append] at hsplit
      rw [hother hne, if_neg hnot, List.nil_append]
      exact hsplit
  · obtain ⟨hands, htraced⟩ := h.traced
    refine ⟨hands, ?_⟩
    change Traced _ _ _ (settled cfg (completed cur v) (v.kernel.updateConn c fun con =>
      { con with transmitted := con.transmitted ++ data })) _
    have hsame : settled cfg (completed cur v) (v.kernel.updateConn c fun con =>
        { con with transmitted := con.transmitted ++ data }) =
          settled cfg (completed cur v) v.kernel := by
      simp only [settled, Kernel.updateConn]
      congr 1
      funext c'
      rcases eq_or_ne c' c with rfl | hne
      · rw [Function.update_self]
      · rw [Function.update_of_ne hne]
    rw [hsame]
    exact htraced

/-- A send is completed; if it has moved the whole message, this was sent back. -/
theorem Carries.sent (h : Carries cfg cur cur v) (hecho : Echoes cfg held cur v)
    (hinflight : v.inflight = before ++ r :: after) (hkind : r.sqe.opcode = .send) :
    Carries cfg cur cur (v.complete before after r r.moved.length) := by
  have hmem : r ∈ v.inflight := by simp [hinflight]
  obtain ⟨c, hconn, hfile⟩ := (hecho.requests r hmem).conn (.inr hkind)
  have hclaim : claim { sqe := r.sqe } = some r.sqe.fd := claim_transfer (.inr hkind) none
  have hrecv : r.sqe.opcode ≠ .recv := by
    rw [hkind]
    decide
  refine h.complete hinflight rfl rfl rfl (fun _ _ _ _ hfile => hfile) (fun _ hc => hc)
    (received_of_nil h fun hkind' => absurd hkind' hrecv) (fun hkind' => absurd hkind' hrecv)
    (transmitted_split h hecho hinflight) ?_
  by_cases hlength : r.moved.length = cfg.defaultBufferSize.toNat
  · have hreply : isReply cfg { userData := r.sqe.userData, res := r.moved.length, request := r } =
        true := by
      apply decide_eq_true
      exact ⟨hkind, by rw [hlength]⟩
    obtain ⟨hands, htraced⟩ := h.traced
    have hmessage : hands c = r.moved := by
      rw [h.held_eq hecho hinflight hclaim hfile htraced, lag, if_pos hkind]
      refine ((hecho.requests r hmem).send hkind).eq_of_length_le ?_ |>.symm
      rw [hlength]
      exact List.length_take_le _ _
    have hhands : Function.update (Function.update hands c []) c r.moved = hands := by
      rw [Function.update_idem, ← hmessage, Function.update_eq_self]
    rw [← hhands] at htraced
    have hecho' := htraced.echo hlength (Function.update_self ..) hfile
    refine ⟨Function.update hands c [], ?_⟩
    rw [settled_append hreply hconn, replies_append hreply]
    exact hecho'
  · refine traced_silent (isReply_eq_false (.inr ?_)) h.traced
    exact fun hres => hlength (Int.ofNat_inj.mp hres)

/-- A client socket is closed when all that was sent on it has been sent back. -/
theorem Carries.close (h : Carries cfg cur cur v) (hecho : Echoes cfg held cur v)
    (hinflight : v.inflight = before ++ r :: after) (hkind : r.sqe.opcode = .close) :
    Carries cfg cur cur
      ({ v with kernel := (v.kernel.close r.sqe.fd).2 }.complete before after r 0) := by
  have hclaim : claim { sqe := r.sqe } = some r.sqe.fd := by simp [claim, hkind]
  have hnot : ∀ kind, kind ≠ .close → r.sqe.opcode ≠ kind := fun kind hne heq =>
    hne (heq.symm.trans hkind)
  have hconns : (v.kernel.close r.sqe.fd).2.conns = v.kernel.conns := close_conns
  have hreceived := received_of_nil (q := r) h fun hrecv => absurd hrecv (hnot _ (by decide))
  have htransmitted := transmitted_split h hecho hinflight
  refine h.complete hinflight rfl rfl rfl (fun s _ _ c hfile => ?_) (fun c hc => ?_) (fun c => ?_)
    (fun hrecv => absurd hrecv (hnot _ (by decide))) (fun c => ?_)
    (traced_silent (isReply_eq_false (.inl (hnot _ (by decide)))) ?_)
  · have hfile' : (v.kernel.close r.sqe.fd).2.files s.fd = some (.socket c) := hfile
    rw [close_files] at hfile'
    rcases eq_or_ne s.fd r.sqe.fd with heq | hne
    · rw [heq, Function.update_self] at hfile'
      cases hfile'
    · rw [Function.update_of_ne hne] at hfile'
      exact hfile'
  · dsimp only
    rw [hconns]
    exact hc
  · dsimp only
    rw [hconns]
    exact hreceived c
  · dsimp only
    rw [hconns]
    exact htransmitted c
  · obtain ⟨hands, htraced⟩ := h.traced
    refine ⟨hands, ?_⟩
    change Traced _ _ _ (settled cfg (completed cur v) (v.kernel.close r.sqe.fd).2) _
    rw [settled_close]
    apply htraced.close
    intro c hfile
    have hsubmitted : r.sqe ∈ submitted v := by simp [submitted, hinflight]
    obtain ⟨hunread, heos⟩ := h.closing _ hsubmitted hkind c hfile
    have hheld := h.held_eq hecho hinflight hclaim hfile htraced
    rw [lag_of_ne (hnot _ (by decide))] at hheld
    refine ⟨?_, heos⟩
    change hands c ++ (v.kernel.conns c).unread = []
    rw [hheld, hunread, List.append_nil]

/-- A request fails. -/
theorem Carries.answer (h : Carries cfg cur cur v) (hecho : Echoes cfg held cur v)
    (hinflight : v.inflight = before ++ r :: after) (hres : res < 0) :
    Carries cfg cur cur (v.complete before after r res) := by
  have hmoved := (hecho.requests r (by simp [hinflight])).recv
  refine h.complete hinflight rfl rfl rfl (fun _ _ _ _ hfile => hfile) (fun _ hc => hc)
    (received_of_nil h hmoved) (fun _ hzero => ?_) (transmitted_split h hecho hinflight)
    (traced_silent (isReply_eq_false (.inr ?_)) h.traced)
  · omega
  · have := Int.natCast_nonneg cfg.defaultBufferSize.toNat
    omega

/-- No step of the kernel breaks the law. -/
theorem Carries.step (h : Carries cfg cur cur v) (hown : Owned cfg held cur spare xs v)
    (hecho : Echoes cfg held cur v) (hfaithful : v.faithful = true) (hstep : KernelStep v v') :
    Carries cfg cur cur v' := by
  cases hstep with
  | network a => exact h.network a
  | consume s rest hpending => exact h.consume hpending _ _
  | accept before after r hinflight hkind fd c backlog hbacklog hfd hfree =>
      exact h.accept hecho hinflight hkind hbacklog hfree
  | deliver before after r hinflight hkind c hconn data rest hunread hdata hlen p haddr o hop =>
      exact h.deliver hecho hinflight hkind hconn hunread hdata p _
  | eof before after r hinflight hkind c hconn hunread heos =>
      exact h.eof hecho hinflight hkind hconn hunread heos
  | scribble r hmem hkind data hlen p haddr o hop =>
      exact ⟨h.received, h.whole, h.ended, h.closing, h.transmitted, h.traced⟩
  | transmit before after r hinflight hkind c hconn p haddr o hop data hdata =>
      exact h.transmit hecho hinflight hkind hconn data
  | sent before after r hinflight hkind => exact h.sent hecho hinflight hkind
  | close before after r hinflight hkind f hopen => exact h.close hecho hinflight hkind
  | answer before after r hinflight res hres => exact h.answer hecho hinflight (hres hfaithful)
  | stray r hmem hkind hstray =>
      obtain ⟨haddr, o, ho⟩ := hown.request_addr hmem hkind
      rw [hstray _ haddr] at ho
      cases ho

end Steps

section Server

variable {cfg : Config} {cur now : List Cqe} {v v' : View} {q : Cqe} {rest : List Cqe} {s : Sqe}

theorem Carries.congr (h : Carries cfg cur now v) (hkernel : v'.kernel = v.kernel)
    (hpending : v'.pending = v.pending) (hinflight : v'.inflight = v.inflight)
    (hunreaped : v'.unreaped = v.unreaped) (hhandled : v'.handled = v.handled) :
    Carries cfg cur now v' := by
  have hcompleted : completed now v' = completed now v := by
    rw [completed, completed, hhandled, hunreaped]
  have hsubmitted : submitted v' = submitted v := by
    rw [submitted, submitted, hpending, hinflight]
  constructor
  · rw [hkernel, hcompleted]
    exact h.received
  · rw [hhandled]
    exact h.whole
  · rw [hkernel, hcompleted]
    exact h.ended
  · rw [hkernel, hsubmitted]
    exact h.closing
  · rw [hkernel, hcompleted, hinflight]
    exact h.transmitted
  · rw [hkernel, hcompleted]
    exact h.traced

/-- A close may be submitted when nothing is left to be sent back. -/
theorem Carries.publish (h : Carries cfg cur now v)
    (hclose : s.opcode = .close → ∀ c, v.kernel.files s.fd = some (.socket c) →
      Drained (v.kernel.conns c)) :
    Carries cfg cur now { v with pending := v.pending ++ [s] } := by
  refine ⟨h.received, h.whole, h.ended, fun s' hs' hkind c hfile => ?_, h.transmitted, h.traced⟩
  simp only [submitted, List.mem_append, List.mem_singleton] at hs'
  rcases hs' with (hs' | rfl) | hs'
  · exact h.closing s' (List.mem_append_left _ hs') hkind c hfile
  · exact hclose hkind c hfile
  · exact h.closing s' (List.mem_append_right _ hs') hkind c hfile

/-- Taking the oldest CQE off the ring. -/
theorem Carries.reap (h : Carries cfg [] [] v) (hunreaped : v.unreaped = q :: rest) :
    Carries cfg [] [q] { v with unreaped := rest } := by
  have hcompleted : completed [q] { v with unreaped := rest } = completed [] v := by
    simp only [completed, hunreaped, List.append_nil, List.append_assoc, List.singleton_append]
  refine ⟨?_, h.whole, ?_, h.closing, ?_, ?_⟩
  · rw [hcompleted]
    exact h.received
  · rw [hcompleted]
    exact h.ended
  · rw [hcompleted]
    exact h.transmitted
  · rw [hcompleted]
    exact h.traced

/-- The effect of a CQE is counted. -/
theorem Carries.count (h : Carries cfg [] [q] v)
    (hwhole : q.request.sqe.opcode = .send → isReply cfg q = true) : Carries cfg [q] [q] v := by
  refine ⟨h.received, fun q' hq' => ?_, h.ended, h.closing, h.transmitted, h.traced⟩
  rw [List.mem_append, List.mem_singleton] at hq'
  rcases hq' with hq' | rfl
  · exact h.whole q' (List.mem_append_left _ hq')
  · exact hwhole

/-- The record that a CQE has been handled. -/
theorem Carries.finish (h : Carries cfg [q] [q] v) :
    Carries cfg [] [] { v with handled := v.handled ++ [q] } := by
  have hcompleted : completed [] { v with handled := v.handled ++ [q] } = completed [q] v := by
    simp only [completed, List.append_nil]
  have hwhole := h.whole
  refine ⟨?_, ?_, ?_, h.closing, ?_, ?_⟩
  · rw [hcompleted]
    exact h.received
  · rw [List.append_nil]
    exact hwhole
  · rw [hcompleted]
    exact h.ended
  · rw [hcompleted]
    exact h.transmitted
  · rw [hcompleted]
    exact h.traced

end Server

end EchoServers.UringTraffic
