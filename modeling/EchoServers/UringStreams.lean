import EchoServers.UringOwnership

namespace EchoServers.UringStreams

open EchoServers.ServerUtils
open EchoServers.SocketKernel
open EchoServers.UringKernelSteps
open EchoServers.UringMemory
open EchoServers.UringOwnership
open EchoServers.UringReferences
open EchoServers.UringServer

/-- The bytes that the handled requests of one kind have moved on a connection,
in the order of their completion. -/
def stream (kind : Opcode) (log : List Cqe) (c : ConnId) : List Octet :=
  log.flatMap fun q =>
    if q.request.sqe.opcode = kind ∧ q.request.conn = some c then q.request.moved else []

/-- The descriptor of a client socket that somebody still has to close because
of a reference. -/
def claim (r : Reference) : Option Fd :=
  match r.sqe.opcode with
  | .accept => r.res.filter fun res => decide (0 ≤ res)
  | .recv | .send => some r.sqe.fd
  | .close => if r.res = some 0 then none else some r.sqe.fd
  | .nop | .timeout => none

def claims (rs : List Reference) : List Fd := rs.filterMap claim

def buffer (o : Option IouOp) : List Octet :=
  match o with
  | some o => o.infoCon.buf
  | none => []

/-- The message in the buffer of an op. -/
def message (cfg : Config) (o : Option IouOp) : List Octet :=
  (buffer o).take cfg.defaultBufferSize.toNat

/-- What the connection of a reference has received and not sent back. -/
def lag (cfg : Config) (v : View) (r : Reference) : List Octet :=
  if r.sqe.opcode = .send then message cfg (v.ops r.op) else []

/-- What is known of a request in flight. -/
structure RequestOk (cfg : Config) (v : View) (r : Request) : Prop where
  conn : r.sqe.opcode = .recv ∨ r.sqe.opcode = .send →
    ∃ c, r.conn = some c ∧ v.kernel.files r.sqe.fd = some (.socket c)
  recv : r.sqe.opcode = .recv → r.moved = []
  send : r.sqe.opcode = .send → r.moved <+: message cfg (v.ops r.sqe.userData)

/-- What is known of a CQE that is not reaped. -/
structure CompletionOk (cfg : Config) (v : View) (q : Cqe) : Prop where
  conn : q.request.sqe.opcode = .recv ∨ q.request.sqe.opcode = .send →
    ∃ c, q.request.conn = some c ∧ v.kernel.files q.request.sqe.fd = some (.socket c)
  recv : q.request.sqe.opcode = .recv → 0 ≤ q.res →
    q.res = q.request.moved.length ∧ (∀ x ∈ q.request.moved, x.origin = q.request.conn) ∧
      q.request.moved <+: buffer (v.ops q.request.sqe.userData)
  send : q.request.sqe.opcode = .send →
    q.request.moved <+: message cfg (v.ops q.request.sqe.userData) ∧
      (0 ≤ q.res → q.res = q.request.moved.length)

/-- The open client sockets are the ones somebody is going to close, and each
connection has sent back what it has received, except for the message that its
op is about to send. -/
structure Echoes (cfg : Config) (held : List Reference) (cur : List Cqe) (v : View) :
    Prop where
  kernel : v.kernel.Consistent
  claimsNodup : (claims (references v ++ held)).Nodup
  claimsOpen : ∀ fd, fd ∈ claims (references v ++ held) ↔
    ∃ c, v.kernel.files fd = some (.socket c)
  ahead : ∀ r ∈ references v ++ held, ∀ fd c, claim r = some fd →
    v.kernel.files fd = some (.socket c) →
      stream .recv (v.handled ++ cur) c =
        stream .send (v.handled ++ cur) c ++ lag cfg v r
  idle : ∀ c, (∀ fd, v.kernel.files fd ≠ some (.socket c)) →
    stream .recv (v.handled ++ cur) c = stream .send (v.handled ++ cur) c
  requests : ∀ r ∈ v.inflight, RequestOk cfg v r
  completions : ∀ q ∈ v.unreaped, CompletionOk cfg v q
  received : ∀ c, ∀ x ∈ stream .recv (v.handled ++ cur) c, x.origin = some c
  transmitted : ∀ c, ∀ x ∈ (v.kernel.conns c).transmitted, x.origin = some c

theorem lag_of_ne {cfg : Config} {v : View} {r : Reference} (h : r.sqe.opcode ≠ .send) :
    lag cfg v r = [] :=
  if_neg h

section Claims

variable {rs rs' : List Reference} {r r' : Reference} {fd : Fd}

theorem claims_perm (h : rs.Perm rs') : (claims rs).Perm (claims rs') :=
  h.filterMap _

theorem mem_claims (hmem : r ∈ rs) (hclaim : claim r = some fd) : fd ∈ claims rs :=
  List.mem_filterMap.mpr ⟨r, hmem, hclaim⟩

/-- Distinct references claim distinct descriptors. -/
theorem eq_of_claim_eq (hnodup : (claims rs).Nodup) (hr : r ∈ rs) (hr' : r' ∈ rs)
    (hclaim : claim r = some fd) (hclaim' : claim r' = some fd) : r = r' := by
  by_contra hne
  obtain ⟨l₁, l₂, rfl⟩ := List.append_of_mem hr
  have hrest : r' ∈ l₁ ++ l₂ := by
    simp only [List.mem_append, List.mem_cons] at hr' ⊢
    rcases hr' with h | rfl | h
    · exact .inl h
    · exact absurd rfl hne
    · exact .inr h
  have hperm : (claims (l₁ ++ r :: l₂)).Perm (fd :: claims (l₁ ++ l₂)) := by
    have h := claims_perm (show (l₁ ++ r :: l₂).Perm (r :: (l₁ ++ l₂)) from List.perm_middle)
    rwa [claims, claims, List.filterMap_cons_some hclaim] at h
  rw [hperm.nodup_iff, List.nodup_cons] at hnodup
  exact hnodup.1 (mem_claims hrest hclaim')

theorem claim_transfer {s : Sqe} (hs : s.opcode = .recv ∨ s.opcode = .send)
    (res : Option Int) : claim { sqe := s, res := res } = some s.fd := by
  rcases hs with hs | hs <;> simp [claim, hs]

/-- Only a request that succeeds opens or closes a client socket. -/
theorem claim_complete {s : Sqe} {res : Int}
    (h : s.opcode = .recv ∨ s.opcode = .send ∨ res < 0) :
    claim { sqe := s, res := some res } = claim { sqe := s } := by
  unfold claim
  rcases h with h | h | h
  · simp [h]
  · simp [h]
  · have hne : res ≠ 0 := by omega
    cases s.opcode <;> simp [Option.filter, hne, h]

end Claims

section Frame

variable {cfg : Config} {held : List Reference} {cur : List Cqe} {v v' : View}

theorem RequestOk.congr {r : Request} (h : RequestOk cfg v r)
    (hfiles : v'.kernel.files r.sqe.fd = v.kernel.files r.sqe.fd)
    (hops : r.sqe.opcode = .send →
      buffer (v'.ops r.sqe.userData) = buffer (v.ops r.sqe.userData)) :
    RequestOk cfg v' r := by
  refine ⟨?_, h.recv, fun hkind => ?_⟩
  · rw [hfiles]
    exact h.conn
  · rw [message, hops hkind]
    exact h.send hkind

theorem CompletionOk.congr {q : Cqe} (h : CompletionOk cfg v q)
    (hfiles : v'.kernel.files q.request.sqe.fd = v.kernel.files q.request.sqe.fd)
    (hops : buffer (v'.ops q.request.sqe.userData) =
      buffer (v.ops q.request.sqe.userData)) :
    CompletionOk cfg v' q := by
  refine ⟨?_, ?_, ?_⟩
  · rw [hfiles]
    exact h.conn
  · rw [hops]
    exact h.recv
  · rw [message, hops]
    exact h.send

/-- Steps that neither open nor close a client socket. -/
theorem Echoes.frame (h : Echoes cfg held cur v) (hkernel : v'.kernel.Consistent)
    (hfiles : v'.kernel.files = v.kernel.files) (hhandled : v'.handled = v.handled)
    (hrefs : ((references v').map fun r => (r.sqe, claim r)).Perm
      ((references v).map fun r => (r.sqe, claim r)))
    (hops : ∀ r ∈ references v ++ held, r.sqe.opcode = .send →
      buffer (v'.ops r.op) = buffer (v.ops r.op))
    (hrequests : ∀ r ∈ v'.inflight, RequestOk cfg v' r)
    (hcompletions : ∀ q ∈ v'.unreaped, CompletionOk cfg v' q)
    (htransmitted : ∀ c, ∀ x ∈ (v'.kernel.conns c).transmitted, x.origin = some c) :
    Echoes cfg held cur v' := by
  have hclaims : (claims (references v' ++ held)).Perm (claims (references v ++ held)) := by
    have hperm := hrefs.filterMap Prod.snd
    rw [List.filterMap_map, List.filterMap_map] at hperm
    rw [claims, claims, List.filterMap_append, List.filterMap_append]
    exact hperm.append_right _
  refine ⟨hkernel, hclaims.nodup_iff.mpr h.claimsNodup, fun fd => ?_, fun r hr fd c hfd hc => ?_,
    ?_, hrequests, hcompletions, hhandled ▸ h.received, htransmitted⟩
  · rw [hclaims.mem_iff, hfiles]
    exact h.claimsOpen fd
  · obtain ⟨r', hr', hsqe, hclaim⟩ : ∃ r' ∈ references v ++ held, r'.sqe = r.sqe ∧
        claim r' = claim r := by
      rcases List.mem_append.mp hr with hr | hr
      · have hmem := hrefs.subset (List.mem_map_of_mem hr)
        obtain ⟨r', hr', heq⟩ := List.mem_map.mp hmem
        exact ⟨r', List.mem_append_left _ hr', (Prod.mk.inj heq).1, (Prod.mk.inj heq).2⟩
      · exact ⟨r, List.mem_append_right _ hr, rfl, rfl⟩
    have hlag : lag cfg v' r = lag cfg v r' := by
      unfold lag
      rw [Reference.op, ← hsqe]
      split
      · rename_i hkind
        rw [message, ← Reference.op, hops r' hr' hkind]
        rfl
      · rfl
    rw [hfiles] at hc
    rw [hhandled, hlag]
    exact h.ahead r' hr' fd c (hclaim.trans hfd) hc
  · rw [hfiles, hhandled]
    exact h.idle

end Frame

section Steps

variable {cfg : Config} {held : List Reference} {cur : List Cqe} {spare : List Ptr}
  {xs : List (Ptr × Ptr)} {v v' : View}

theorem mem_references_unreaped {q : Cqe} (hmem : q ∈ v.unreaped) :
    cqeReference q ∈ references v := by
  simp only [references, List.mem_append, List.mem_map]
  exact .inr (.inr ⟨q, hmem, rfl⟩)

/-- The buffer that a request to receive may write belongs to no other
reference. -/
theorem op_ne_of_recv (hown : Owned cfg held cur spare xs v) {r : Request}
    (hmem : r ∈ v.inflight) {r' : Reference} (hr' : r' ∈ references v ++ held)
    (hne : r'.sqe.opcode ≠ r.sqe.opcode ∨ r'.res ≠ none) :
    r'.op ≠ r.sqe.userData := by
  rcases List.mem_append.mp hr' with hr' | hr'
  · intro hop
    obtain rfl := hown.eq_of_op_eq hr' (mem_references_inflight hmem) hop
    rcases hne with hne | hne <;> exact hne rfl
  · exact hown.held_ne (mem_references_inflight hmem) hr'

/-- The kernel completes a request and leaves the open sockets as they are. -/
theorem Echoes.complete (h : Echoes cfg held cur v) (hown : Owned cfg held cur spare xs v)
    {before after : List Request} {r q : Request} {u : View}
    (hinflight : v.inflight = before ++ r :: after) (hsqe : q.sqe = r.sqe) {res : Int}
    (hquiet : r.sqe.opcode = .recv ∨ r.sqe.opcode = .send ∨ res < 0)
    (hpending : u.pending = v.pending) (hunreaped : u.unreaped = v.unreaped)
    (hhandled : u.handled = v.handled) (hkernel : u.kernel.Consistent)
    (hfiles : u.kernel.files = v.kernel.files)
    (hops : ∀ p, (r.sqe.opcode = .recv → p ≠ r.sqe.userData) → u.ops p = v.ops p)
    (hnew : CompletionOk cfg u { userData := q.sqe.userData, res := res, request := q })
    (htransmitted : ∀ c, ∀ x ∈ (u.kernel.conns c).transmitted, x.origin = some c) :
    Echoes cfg held cur (u.complete before after q res) := by
  have hmem : r ∈ v.inflight := by simp [hinflight]
  have hsend : ∀ r' ∈ references v ++ held, r'.sqe.opcode = .send →
      u.ops r'.op = v.ops r'.op := fun r' hr' hkind =>
    hops _ fun hrecv => op_ne_of_recv hown hmem hr' (.inl (by simp [hkind, hrecv]))
  refine h.frame hkernel hfiles hhandled ?_
    (fun r' hr' hkind => congrArg buffer (hsend r' hr' hkind)) (fun r₂ hr₂ => ?_)
    (fun d hd => ?_) htransmitted
  · obtain ⟨rest, hrefs, hrefs'⟩ := references_complete hinflight hpending hunreaped hsqe res
    refine (hrefs'.map _).trans (List.Perm.trans ?_ (hrefs.map _).symm)
    rw [List.map_cons, List.map_cons, claim_complete hquiet]
  · have hr₂' : r₂ ∈ v.inflight := by
      simp only [View.complete, List.mem_append] at hr₂
      rw [hinflight, List.mem_append, List.mem_cons]
      tauto
    refine (h.requests r₂ hr₂').congr (congrFun hfiles _) fun hkind => congrArg buffer ?_
    exact hsend _ (List.mem_append_left _ (mem_references_inflight hr₂')) hkind
  · simp only [View.complete, hunreaped, List.mem_append, List.mem_singleton] at hd
    rcases hd with hd | rfl
    · refine (h.completions d hd).congr (congrFun hfiles _)
        (congrArg buffer (hops _ fun _ => ?_))
      exact op_ne_of_recv hown hmem (List.mem_append_left _ (mem_references_unreaped hd))
        (.inr (by simp [cqeReference]))
    · exact hnew.congr rfl rfl

/-- The kernel makes a client socket of the oldest waiting connection. -/
theorem Echoes.accept (h : Echoes cfg held cur v) {before after : List Request}
    {r : Request} (hinflight : v.inflight = before ++ r :: after)
    (hkind : r.sqe.opcode = .accept) {fd : Fd} {c : ConnId} {backlog : List ConnId}
    (hbacklog : v.kernel.backlog = c :: backlog) (hfd : 0 ≤ fd)
    (hfree : v.kernel.files fd = none) :
    Echoes cfg held cur ({ v with
      kernel := { v.kernel with
        files := Function.update v.kernel.files fd (some (.socket c))
        backlog := backlog } }.complete before after r fd) := by
  obtain ⟨rest, hrefs, hrefs'⟩ := references_complete (u := { v with
    kernel := { v.kernel with
      files := Function.update v.kernel.files fd (some (.socket c))
      backlog := backlog } }) hinflight rfl rfl rfl fd
  have hclaims := claims_perm (hrefs.append_right held)
  have hclaims' := claims_perm (hrefs'.append_right held)
  have hnone : claim { sqe := r.sqe } = none := by simp [claim, hkind]
  have hsome : claim { sqe := r.sqe, res := some fd } = some fd := by
    simp [claim, hkind, hfd]
  rw [claims, claims, List.cons_append, List.filterMap_cons_none hnone] at hclaims
  rw [claims, claims, List.cons_append, List.filterMap_cons_some hsome] at hclaims'
  have hidle := (h.kernel.waiting c (by simp [hbacklog])).2
  have hother : ∀ fd', (∃ c', v.kernel.files fd' = some (.socket c')) → fd' ≠ fd := by
    rintro fd' ⟨c', hc'⟩ rfl
    rw [hfree] at hc'
    cases hc'
  have hopen : ∀ fd', fd' ∈ (rest ++ held).filterMap claim ↔
      ∃ c', v.kernel.files fd' = some (.socket c') := by
    intro fd'
    rw [← hclaims.mem_iff]
    exact h.claimsOpen fd'
  refine ⟨h.kernel.accept hbacklog fd hfree, ?_, fun fd' => ?_, fun r' hr' fd' c' hfd' hc' => ?_,
    fun c' hc' => ?_, fun r' hr' => ?_, fun q hq => ?_, h.received, h.transmitted⟩
  · refine hclaims'.nodup_iff.mpr (List.nodup_cons.mpr
      ⟨fun hmem => hother fd ((hopen fd).mp hmem) rfl, hclaims.nodup_iff.mp h.claimsNodup⟩)
  · refine (hclaims'.mem_iff).trans ?_
    rw [List.mem_cons, hopen]
    simp only [View.complete]
    rcases eq_or_ne fd' fd with rfl | hne
    · simp
    · simp [hne]
  · simp only [View.complete] at hc'
    have hmem : r' ∈ ({ sqe := r.sqe, res := some fd } : Reference) :: (rest ++ held) :=
      (hrefs'.append_right held).subset hr'
    rcases List.mem_cons.mp hmem with rfl | hmem
    · cases hsome.symm.trans hfd'
      simp only [Function.update_self, Option.some.injEq, File.socket.injEq] at hc'
      subst hc'
      rw [lag_of_ne (by simp [hkind]), List.append_nil]
      exact h.idle c hidle
    · have hne := hother fd' ((hopen fd').mp (mem_claims hmem hfd'))
      rw [Function.update_of_ne hne] at hc'
      exact h.ahead r' ((hrefs.append_right held).symm.subset
        (List.mem_cons_of_mem _ hmem)) fd' c' hfd' hc'
  · refine h.idle c' fun fd' hfd' => ?_
    refine hc' fd' ?_
    simp only [View.complete]
    rw [Function.update_of_ne (hother fd' ⟨c', hfd'⟩)]
    exact hfd'
  · have hr'' : r' ∈ v.inflight := by
      simp only [View.complete, List.mem_append] at hr'
      rw [hinflight, List.mem_append, List.mem_cons]
      tauto
    have hok := h.requests r' hr''
    refine ⟨fun htransfer => ?_, hok.recv, hok.send⟩
    obtain ⟨c', hconn, hc'⟩ := hok.conn htransfer
    refine ⟨c', hconn, ?_⟩
    simp only [View.complete]
    rw [Function.update_of_ne (hother _ ⟨c', hc'⟩)]
    exact hc'
  · simp only [View.complete, List.mem_append, List.mem_singleton] at hq
    rcases hq with hq | rfl
    · have hok := h.completions q hq
      refine ⟨fun htransfer => ?_, hok.recv, hok.send⟩
      obtain ⟨c', hconn, hc'⟩ := hok.conn htransfer
      refine ⟨c', hconn, ?_⟩
      simp only [View.complete]
      rw [Function.update_of_ne (hother _ ⟨c', hc'⟩)]
      exact hc'
    · exact ⟨by simp [hkind], by simp [hkind], by simp [hkind]⟩

/-- The kernel closes a client socket for its op. -/
theorem Echoes.close (h : Echoes cfg held cur v) {before after : List Request}
    {r : Request} (hinflight : v.inflight = before ++ r :: after)
    (hkind : r.sqe.opcode = .close) :
    Echoes cfg held cur
      ({ v with kernel := (v.kernel.close r.sqe.fd).2 }.complete before after r 0) := by
  obtain ⟨rest, hrefs, hrefs'⟩ := references_complete (u := { v with
    kernel := (v.kernel.close r.sqe.fd).2 }) hinflight rfl rfl rfl 0
  have hclaims := claims_perm (hrefs.append_right held)
  have hclaims' := claims_perm (hrefs'.append_right held)
  have hsome : claim { sqe := r.sqe } = some r.sqe.fd := by simp [claim, hkind]
  have hnone : claim { sqe := r.sqe, res := some 0 } = none := by simp [claim, hkind]
  rw [claims, claims, List.cons_append, List.filterMap_cons_some hsome] at hclaims
  rw [claims, claims, List.cons_append, List.filterMap_cons_none hnone] at hclaims'
  have hnodup := hclaims.nodup_iff.mp h.claimsNodup
  have hself : ({ sqe := r.sqe } : Reference) ∈ references v ++ held :=
    List.mem_append_left _ (mem_references_inflight (by simp [hinflight]))
  obtain ⟨c, hc⟩ := (h.claimsOpen _).mp (mem_claims hself hsome)
  -- any other claim is on a descriptor that stays open
  have hother : ∀ r' ∈ references v ++ held, ∀ fd', claim r' = some fd' →
      r'.sqe.opcode ≠ .close → fd' ≠ r.sqe.fd := by
    rintro r' hr' fd' hfd' hne rfl
    obtain rfl := eq_of_claim_eq h.claimsNodup hr' hself hfd' hsome
    exact hne hkind
  have hfiles : ∀ fd', fd' ≠ r.sqe.fd →
      (v.kernel.close r.sqe.fd).2.files fd' = v.kernel.files fd' := by
    intro fd' hne
    rw [close_files, Function.update_of_ne hne]
  refine ⟨h.kernel.close _, hclaims'.nodup_iff.mpr (List.nodup_cons.mp hnodup).2,
    fun fd' => ?_, fun r' hr' fd' c' hfd' hc' => ?_,
    fun c' hc' => ?_, fun r' hr' => ?_, fun q hq => ?_, h.received, ?_⟩
  · refine hclaims'.mem_iff.trans ?_
    have hopen := h.claimsOpen fd'
    rw [claims, hclaims.mem_iff, List.mem_cons] at hopen
    simp only [View.complete]
    rcases eq_or_ne fd' r.sqe.fd with rfl | hne
    · have hnot := (List.nodup_cons.mp hnodup).1
      rw [close_files, Function.update_self]
      simp only [hnot, reduceCtorEq, exists_false]
    · rw [hfiles fd' hne, ← hopen]
      simp [hne]
  · simp only [View.complete] at hc'
    have hmem : r' ∈ ({ sqe := r.sqe, res := some 0 } : Reference) :: (rest ++ held) :=
      (hrefs'.append_right held).subset hr'
    rcases List.mem_cons.mp hmem with rfl | hmem
    · cases hnone.symm.trans hfd'
    · have hne : fd' ≠ r.sqe.fd := by
        rintro rfl
        exact (List.nodup_cons.mp hnodup).1 (mem_claims hmem hfd')
      rw [hfiles fd' hne] at hc'
      exact h.ahead r' ((hrefs.append_right held).symm.subset
        (List.mem_cons_of_mem _ hmem)) fd' c' hfd' hc'
  · rcases eq_or_ne c' c with rfl | hne
    · have hahead := h.ahead _ hself _ _ hsome hc
      rw [lag_of_ne (by simp [hkind]), List.append_nil] at hahead
      exact hahead
    · refine h.idle c' fun fd' hfd' => ?_
      refine hc' fd' ?_
      simp only [View.complete]
      rw [hfiles]
      · exact hfd'
      · rintro rfl
        rw [hc] at hfd'
        exact hne (File.socket.inj (Option.some.inj hfd')).symm
  · have hr'' : r' ∈ v.inflight := by
      simp only [View.complete, List.mem_append] at hr'
      rw [hinflight, List.mem_append, List.mem_cons]
      tauto
    have hok := h.requests r' hr''
    refine ⟨fun htransfer => ?_, hok.recv, hok.send⟩
    have hne := hother _ (List.mem_append_left _ (mem_references_inflight hr'')) _
      (claim_transfer htransfer none) (by rcases htransfer with hk | hk <;> simp [hk])
    simp only [View.complete]
    rw [hfiles _ hne]
    exact hok.conn htransfer
  · simp only [View.complete, List.mem_append, List.mem_singleton] at hq
    rcases hq with hq | rfl
    · have hok := h.completions q hq
      refine ⟨fun htransfer => ?_, hok.recv, hok.send⟩
      have hne := hother _ (List.mem_append_left _ (mem_references_unreaped hq)) _
        (claim_transfer htransfer _)
        (by rcases htransfer with hk | hk <;> simp [cqeReference, hk])
      simp only [View.complete]
      rw [hfiles _ hne]
      exact hok.conn htransfer
    · exact ⟨by simp [hkind], by simp [hkind], by simp [hkind]⟩
  · simp only [View.complete]
    rw [close_conns]
    exact h.transmitted

/-- No step of the kernel breaks the law, as long as its results are faithful. -/
theorem Echoes.step (h : Echoes cfg held cur v) (hown : Owned cfg held cur spare xs v)
    (hfaithful : v.faithful = true) (hstep : KernelStep v v') : Echoes cfg held cur v' := by
  cases hstep with
  | network a =>
      have hfiles : (v.kernel.arrive a).files = v.kernel.files := arrive_files a
      refine h.frame (h.kernel.arrive a) hfiles rfl (List.Perm.refl _) (fun _ _ _ => rfl)
        (fun r hr => (h.requests r hr).congr (congrFun hfiles _) fun _ => rfl)
        (fun q hq => (h.completions q hq).congr (congrFun hfiles _) rfl) fun c => ?_
      rw [arrive_transmitted]
      exact h.transmitted c
  | consume s rest hpending =>
      refine h.frame h.kernel rfl rfl ((references_consume hpending _).map _)
        (fun _ _ _ => rfl) (fun r hr => ?_)
        (fun q hq => (h.completions q hq).congr rfl rfl) h.transmitted
      rcases List.mem_append.mp hr with hr | hr
      · exact (h.requests r hr).congr rfl fun _ => rfl
      · rw [List.mem_singleton.mp hr]
        have hmem : ({ sqe := s } : Reference) ∈ references v ++ held := by
          simp [references, hpending]
        refine ⟨fun htransfer => ?_, fun _ => rfl, fun _ => List.nil_prefix⟩
        obtain ⟨c, hc⟩ := (h.claimsOpen s.fd).mp
          (mem_claims hmem (claim_transfer htransfer none))
        exact ⟨c, by simp [connOf, hc], hc⟩
  | accept before after r hinflight hkind fd c backlog hbacklog hfd hfree =>
      exact h.accept hinflight hkind hbacklog hfd hfree
  | deliver before after r hinflight hkind c hconn data rest hunread hdata hlen p haddr o hop =>
      have hmem : r ∈ v.inflight := by simp [hinflight]
      have haddr' := (hown.request_addr hmem (.inl hkind)).1
      obtain rfl : p = r.sqe.userData := by
        rw [haddr] at haddr'
        exact Addr.conBuf.inj haddr'
      have hkernel : (v.kernel.updateConn c fun con =>
          { con with unread := rest }).Consistent := by
        refine h.kernel.updateConn fun x hx => ?_
        rw [hunread]
        exact List.mem_append_right _ hx
      refine h.complete hown (q := { r with moved := data }) (u := View.withOp
        { v with
          kernel := v.kernel.updateConn c fun con => { con with unread := rest } } _ _)
        hinflight rfl (.inl hkind) rfl rfl rfl hkernel rfl (fun q hq => ?_) ?_ fun c' => ?_
      · simp [View.withOp, hq hkind]
      · refine ⟨fun _ => (h.requests r hmem).conn (.inl hkind), fun _ _ => ⟨rfl, ?_, ?_⟩,
          fun hsend => ?_⟩
        · intro x hx
          rw [hconn]
          exact h.kernel.origin c x (by rw [hunread]; exact List.mem_append_left _ hx)
        · simp [View.withOp, buffer, setBuf, overwrite]
        · dsimp only at hsend
          rw [hkind] at hsend
          cases hsend
      · rcases eq_or_ne c' c with rfl | hne
        · simpa [View.withOp] using h.transmitted c'
        · simpa [View.withOp, updateConn_conns_of_ne _ hne] using h.transmitted c'
  | eof before after r hinflight hkind c hconn hunread heos =>
      have hmem : r ∈ v.inflight := by simp [hinflight]
      have hok := h.requests r hmem
      refine h.complete hown hinflight rfl (.inl hkind) rfl rfl rfl h.kernel rfl
        (fun _ _ => rfl) ⟨hok.conn, fun _ _ => ?_, fun hsend => ?_⟩ h.transmitted
      · dsimp only
        rw [hok.recv hkind]
        exact ⟨rfl, by simp, List.nil_prefix⟩
      · dsimp only at hsend
        rw [hkind] at hsend
        cases hsend
  | scribble r hmem hkind data hlen p haddr o hop =>
      have haddr' := (hown.request_addr hmem (.inl hkind)).1
      obtain rfl : p = r.sqe.userData := by
        rw [haddr] at haddr'
        exact Addr.conBuf.inj haddr'
      have hops : ∀ r' ∈ references v ++ held,
          (r'.sqe.opcode ≠ r.sqe.opcode ∨ r'.res ≠ none) →
            (v.withOp r.sqe.userData
              (some (setBuf o (overwrite o.infoCon.buf data)))).ops r'.op = v.ops r'.op := by
        intro r' hr' hne
        have hop' := op_ne_of_recv hown hmem hr' hne
        simp [View.withOp, hop']
      refine h.frame h.kernel rfl rfl (List.Perm.refl _)
        (fun r' hr' hsend => congrArg buffer (hops r' hr' (.inl (by simp [hsend, hkind]))))
        (fun r' hr' => (h.requests r' hr').congr rfl fun hsend => congrArg buffer ?_)
        (fun q hq => (h.completions q hq).congr rfl (congrArg buffer ?_)) h.transmitted
      · exact hops _ (List.mem_append_left _ (mem_references_inflight hr'))
          (.inl (by simp [hsend, hkind]))
      · exact hops _ (List.mem_append_left _ (mem_references_unreaped hq))
          (.inr (by simp [cqeReference]))
  | transmit before after r hinflight hkind c hconn p haddr o hop data hdata =>
      have hmem : r ∈ v.inflight := by simp [hinflight]
      obtain ⟨haddr', -⟩ := hown.request_addr hmem (.inr hkind)
      obtain rfl : p = r.sqe.userData := by
        rw [haddr] at haddr'
        exact Addr.conBuf.inj haddr'
      have hok := h.requests r hmem
      have hfits := hown.fits _ (mem_references_inflight hmem)
      simp only [Reference.op, hop] at hfits
      have hlen := (hfits.send hkind).2.2.2
      have hmessage : r.moved ++ data <+: message cfg (v.ops r.sqe.userData) := by
        have hmoved := hok.send hkind
        rw [hop] at hmoved ⊢
        simp only [message, buffer] at hmoved ⊢
        rw [hlen] at hdata
        obtain ⟨rest, hrest⟩ := hmoved
        rw [← hrest, List.drop_left] at hdata
        rw [← hrest]
        exact (List.prefix_append_right_inj _).mpr hdata
      have hkernel : (v.kernel.updateConn c fun con =>
          { con with transmitted := con.transmitted ++ data }).Consistent :=
        h.kernel.updateConn (List.Subset.refl _)
      refine h.frame hkernel rfl rfl ?_ (fun _ _ _ => rfl) (fun r' hr' => ?_)
        (fun q hq => (h.completions q hq).congr rfl rfl) fun c' => ?_
      · simp [references, hinflight]
      · simp only [List.mem_append, List.mem_cons] at hr'
        rcases hr' with hr' | rfl | hr'
        · exact (h.requests r' (by simp [hinflight, hr'])).congr rfl fun _ => rfl
        · refine ⟨hok.conn, fun hrecv => ?_, fun _ => hmessage⟩
          dsimp only at hrecv
          rw [hkind] at hrecv
          cases hrecv
        · exact (h.requests r' (by simp [hinflight, hr'])).congr rfl fun _ => rfl
      · rcases eq_or_ne c' c with rfl | hne
        · intro x hx
          simp only [updateConn_conns_self, List.mem_append] at hx
          rcases hx with hx | hx
          · exact h.transmitted c' x hx
          · obtain ⟨c, hconn', hfd⟩ := hok.conn (.inr hkind)
            cases hconn.symm.trans hconn'
            have hahead := h.ahead _ (List.mem_append_left _ (mem_references_inflight hmem))
              _ _ (claim_transfer (.inr hkind) none) hfd
            refine h.received c' x ?_
            rw [hahead, List.mem_append]
            refine .inr ?_
            rw [lag, if_pos hkind]
            exact hmessage.subset (List.mem_append_right _ hx)
        · rw [updateConn_conns_of_ne _ hne]
          exact h.transmitted c'
  | sent before after r hinflight hkind =>
      have hmem : r ∈ v.inflight := by simp [hinflight]
      have hok := h.requests r hmem
      refine h.complete hown hinflight rfl (.inr (.inl hkind)) rfl rfl rfl h.kernel rfl
        (fun _ _ => rfl) ⟨hok.conn, fun hrecv => ?_, fun _ => ⟨hok.send hkind, fun _ => rfl⟩⟩
        h.transmitted
      dsimp only at hrecv
      rw [hkind] at hrecv
      cases hrecv
  | close before after r hinflight hkind f hopen => exact h.close hinflight hkind
  | answer before after r hinflight res hres =>
      have hneg := hres hfaithful
      have hok := h.requests r (by simp [hinflight])
      exact h.complete hown hinflight rfl (.inr (.inr hneg)) rfl rfl rfl h.kernel rfl
        (fun _ _ => rfl) ⟨hok.conn, fun _ hnonneg => absurd hnonneg (by dsimp only; omega),
          fun hsend => ⟨hok.send hsend, fun hnonneg => absurd hnonneg (by dsimp only; omega)⟩⟩
        h.transmitted
  | stray r hmem hkind hstray =>
      obtain ⟨haddr, o, ho⟩ := hown.request_addr hmem hkind
      rw [hstray _ haddr] at ho
      cases ho

end Steps

end EchoServers.UringStreams
