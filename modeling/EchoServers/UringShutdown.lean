import EchoServers.UringGuarantees

namespace EchoServers.UringShutdown

open EchoServers.LinkedChains
open EchoServers.SocketKernel
open EchoServers.StateTriples
open EchoServers.UringGuarantees
open EchoServers.UringHandlers
open EchoServers.UringInvariant
open EchoServers.UringKernelSteps
open EchoServers.UringMemory
open EchoServers.UringOwnership
open EchoServers.UringQueues
open EchoServers.UringReferences
open EchoServers.UringServer
open EchoServers.UringStreams
open EchoServers.Utils

/-- The sockets of completed accepts whose CQE is not reaped. -/
def acceptedUnreaped (w : World) : List Fd :=
  w.iou.unreaped.filterMap fun c =>
    if c.request.sqe.opcode = .accept ∧ 0 ≤ c.res then some c.res else none

/-- The descriptors of completed close requests whose CQE is not reaped. -/
def closedUnreaped (w : World) : List Fd :=
  w.iou.unreaped.filterMap fun c =>
    if c.request.sqe.opcode = .close ∧ c.res = 0 then some c.request.sqe.fd else none

/-- The cleanup runs to its end, closes exactly the open client sockets, each
once, and frees exactly what is tracked, each op and node once. -/
def Graceful (w : World) : Prop :=
  ∃ (fuel : Nat) (w' : World) (closed : List (Fd × File)),
    doServiceLoopCleanup fuel w = .ok (⟨⟩, w') ∧
      w'.kernel.closes = w.kernel.closes ++ closed ∧
      (closed.map Prod.fst).Nodup ∧
      (∀ fd, fd ∈ closed.map Prod.fst ↔ ∃ c, w.kernel.files fd = some (.socket c)) ∧
      (∃ xs, Tracked w.toServer xs ∧
        w'.freedOps = w.freedOps ++ xs.map Prod.snd ∧
        w'.freedNodes = w.freedNodes ++ xs.map Prod.fst) ∧
      w'.faults = []

section Walk

variable {w w' : World} {fuel : Nat} {start : Option Ptr} {xs : List (Ptr × Ptr)}

/-- The descriptor in the op behind a tracker node. -/
def trackedFd (s : Server) (x : Ptr × Ptr) : Fd :=
  match s.ops x.2 with
  | some o => o.infoCon.fd
  | none => 0

/-- The state after the walk has been at one node. -/
def release (w : World) (x : Ptr × Ptr) : World :=
  { w with
    kernel := (w.kernel.close (trackedFd w.toServer x)).2
    ops := Function.update w.ops x.2 none
    nodes := Function.update w.nodes x.1 none
    freedOps := w.freedOps ++ [x.2]
    freedNodes := w.freedNodes ++ [x.1] }

/-- What the walk relies on at the nodes still in front of it. -/
structure Walkable (s : Server) (start : Option Ptr) (xs : List (Ptr × Ptr)) : Prop where
  chain : Visits (nextOf s) start (xs.map Prod.fst)
  allocatedOp : ∀ x ∈ xs, ∃ m, s.nodes x.1 = some m ∧ m.allocatedOp = some x.2
  live : ∀ x ∈ xs, (s.ops x.2).isSome
  nodesNodup : (xs.map Prod.fst).Nodup
  opsNodup : (xs.map Prod.snd).Nodup

section Runs

variable {p n : Ptr} {m : IouOpMemTrackerNode} {o : IouOp}

theorem readOp_run (h : w.ops p = some o) : readOp p w = .ok (o, w) := by
  unfold readOp
  refine (bind_run (show (get : Program World World) w = .ok (w, w) from rfl)).trans ?_
  rw [h]
  rfl

theorem closeFd_run (fd : Fd) :
    closeFd fd w = .ok ((w.kernel.close fd).1, { w with kernel := (w.kernel.close fd).2 }) :=
  rfl

theorem freeOp_run (h : w.ops p = some o) : freeOp p w = .ok (⟨⟩, { w with
    ops := Function.update w.ops p none
    freedOps := w.freedOps ++ [p] }) := by
  unfold freeOp
  refine (bind_run (show (get : Program World World) w = .ok (w, w) from rfl)).trans ?_
  rw [h]
  rfl

theorem freeNode_run (h : w.nodes n = some m) : freeNode n w = .ok (⟨⟩, { w with
    nodes := Function.update w.nodes n none
    freedNodes := w.freedNodes ++ [n] }) := by
  unfold freeNode
  refine (bind_run (show (get : Program World World) w = .ok (w, w) from rfl)).trans ?_
  rw [h]
  rfl

end Runs

/-- One turn of the walk. -/
theorem closeTracked_cons {x : Ptr × Ptr} {m : IouOpMemTrackerNode} {o : IouOp}
    (hnode : w.nodes x.1 = some m) (hallocated : m.allocatedOp = some x.2)
    (hop : w.ops x.2 = some o) :
    closeTracked (fuel + 1) (some x.1) w =
      if (w.kernel.close (trackedFd w.toServer x)).1 ≠ 0 then
        .error (.exit "close(client_socket)")
      else closeTracked fuel m.next (release w x) := by
  have hfd : trackedFd w.toServer x = o.infoCon.fd := by rw [trackedFd, hop]
  rw [closeTracked, bind_run (UringTracker.readNode_run hnode), hallocated, hfd]
  rw [bind_run (show deref (some x.2) w = .ok (x.2, w) from rfl), bind_run (readOp_run hop)]
  rw [bind_run (closeFd_run _), assertZero]
  split
  · rfl
  · rw [bind_run (show (pure ⟨⟩ : Program World PUnit) _ = .ok _ from rfl), release, hfd]
    refine (bind_run (freeOp_run (o := o) ?_)).trans
      (bind_run (freeNode_run (m := m) ?_))
    · exact hop
    · exact hnode

/-- Going on behind the first node. -/
theorem Walkable.rest {x : Ptr × Ptr} {m : IouOpMemTrackerNode}
    (h : Walkable w.toServer start (x :: xs)) (hnode : w.nodes x.1 = some m) :
    Walkable (release w x).toServer m.next xs := by
  have hnodes := List.nodup_cons.mp h.nodesNodup
  have hops := List.nodup_cons.mp h.opsNodup
  have hne : ∀ y ∈ xs, y.1 ≠ x.1 := fun y hy heq => hnodes.1 (heq ▸ List.mem_map_of_mem hy)
  have hne' : ∀ y ∈ xs, y.2 ≠ x.2 := fun y hy heq => hops.1 (heq ▸ List.mem_map_of_mem hy)
  refine ⟨?_, fun y hy => ?_, fun y hy => ?_, hnodes.2, hops.2⟩
  · have hchain : Visits (nextOf w.toServer) m.next (xs.map Prod.fst) := by
      have htail := h.chain.2
      rwa [nextOf, hnode] at htail
    refine hchain.congr fun n hn => ?_
    obtain ⟨y, hy, rfl⟩ := List.mem_map.mp hn
    simp [nextOf, release, hne y hy]
  · simp only [release, Function.update_of_ne (hne y hy)]
    exact h.allocatedOp y (List.mem_cons_of_mem _ hy)
  · simp only [release, Function.update_of_ne (hne' y hy)]
    exact h.live y (List.mem_cons_of_mem _ hy)

theorem trackedFd_release {x : Ptr × Ptr} (h : ((x :: xs).map Prod.snd).Nodup) :
    xs.map (trackedFd (release w x).toServer) = xs.map (trackedFd w.toServer) := by
  refine List.map_congr_left fun y hy => ?_
  have hne : y.2 ≠ x.2 := fun heq =>
    (List.nodup_cons.mp h).1 (heq ▸ List.mem_map_of_mem hy)
  simp [trackedFd, release, hne]

/-- A walk that comes to its end has closed the descriptor of every tracked op
and freed every op and node. -/
theorem closed_of_walk (h : Walkable w.toServer start xs)
    (hrun : closeTracked fuel start w = .ok (⟨⟩, w')) :
    (∃ closed, w'.kernel.closes = w.kernel.closes ++ closed ∧
      closed.map Prod.fst = xs.map (trackedFd w.toServer)) ∧
      w'.freedOps = w.freedOps ++ xs.map Prod.snd ∧
      w'.freedNodes = w.freedNodes ++ xs.map Prod.fst ∧ w'.faults = w.faults := by
  induction xs generalizing fuel start w with
  | nil =>
      obtain rfl : start = none := h.chain
      cases fuel <;> cases hrun <;> exact ⟨⟨[], by simp⟩, by simp⟩
  | cons x xs ih =>
      obtain ⟨m, hnode, hallocated⟩ := h.allocatedOp x (by simp)
      obtain ⟨o, hop⟩ := Option.isSome_iff_exists.mp (h.live x (by simp))
      obtain rfl : start = some x.1 := h.chain.1
      cases fuel with
      | zero => cases hrun
      | succ fuel =>
          rw [closeTracked_cons hnode hallocated hop] at hrun
          split at hrun
          · cases hrun
          · rename_i hclosed
            obtain ⟨⟨closed, hcloses, hfst⟩, hops, hnodes, hfaults⟩ := ih (h.rest hnode) hrun
            rw [trackedFd_release h.opsNodup] at hfst
            obtain ⟨f, hf⟩ : ∃ f, (release w x).kernel.closes =
                w.kernel.closes ++ [(trackedFd w.toServer x, f)] := by
              simp only [release, Kernel.close] at hclosed ⊢
              cases hfile : w.kernel.files (trackedFd w.toServer x) with
              | none => simp [hfile] at hclosed
              | some f => exact ⟨f, rfl⟩
            refine ⟨⟨(trackedFd w.toServer x, f) :: closed, ?_, ?_⟩, ?_, ?_, hfaults⟩
            · rw [hcloses, hf, List.append_assoc]
              rfl
            · rw [List.map_cons, hfst, List.map_cons]
            · rw [hops]
              simp [release]
            · rw [hnodes]
              simp [release]

/-- A walk over ops with distinct open descriptors comes to its end. -/
theorem walk_of_open (h : Walkable w.toServer start xs)
    (hnodup : (xs.map (trackedFd w.toServer)).Nodup)
    (hopen : ∀ fd ∈ xs.map (trackedFd w.toServer), (w.kernel.files fd).isSome) :
    ∃ w', closeTracked xs.length start w = .ok (⟨⟩, w') := by
  induction xs generalizing start w with
  | nil =>
      obtain rfl : start = none := h.chain
      exact ⟨w, rfl⟩
  | cons x xs ih =>
      obtain ⟨m, hnode, hallocated⟩ := h.allocatedOp x (by simp)
      obtain ⟨o, hop⟩ := Option.isSome_iff_exists.mp (h.live x (by simp))
      obtain rfl : start = some x.1 := h.chain.1
      obtain ⟨f, hf⟩ := Option.isSome_iff_exists.mp (hopen (trackedFd w.toServer x) (by simp))
      have hclosed : (w.kernel.close (trackedFd w.toServer x)).1 = 0 := by
        rw [Kernel.close, hf]
      rw [List.length_cons, closeTracked_cons hnode hallocated hop, if_neg (by simp [hclosed])]
      rw [List.map_cons, List.nodup_cons] at hnodup
      refine ih (h.rest hnode) ?_ fun fd hfd => ?_
      · rw [trackedFd_release h.opsNodup]
        exact hnodup.2
      · rw [trackedFd_release h.opsNodup] at hfd
        have hne : fd ≠ trackedFd w.toServer x := fun heq => hnodup.1 (heq ▸ hfd)
        simp only [release, close_files, Function.update_of_ne hne]
        exact hopen fd (List.mem_cons_of_mem _ hfd)

end Walk

section Accounts

/-- Selecting by either of two exclusive tests. -/
theorem filterMap_or_perm {α β : Type} {f g h : α → Option β} {l : List α}
    (hor : ∀ a ∈ l, h a = (f a).or (g a)) (hdisjoint : ∀ a ∈ l, f a = none ∨ g a = none) :
    (l.filterMap h).Perm (l.filterMap f ++ l.filterMap g) := by
  induction l with
  | nil => exact List.Perm.refl _
  | cons a l ih =>
      have htail := ih (fun b hb => hor b (List.mem_cons_of_mem _ hb))
        fun b hb => hdisjoint b (List.mem_cons_of_mem _ hb)
      have hhead := hor a (by simp)
      rcases hdisjoint a (by simp) with hnone | hnone <;> rw [hnone] at hhead
      · cases hg : g a with
        | none =>
            rw [hg] at hhead
            simpa [List.filterMap_cons, hhead, hnone, hg] using htail
        | some b =>
            rw [hg] at hhead
            simp only [List.filterMap_cons, hhead, hnone, hg, Option.or_some]
            exact (htail.cons b).trans List.perm_middle.symm
      · cases hf : f a with
        | none =>
            rw [hf] at hhead
            simpa [List.filterMap_cons, hhead, hnone, hf] using htail
        | some b =>
            rw [hf] at hhead
            simpa [List.filterMap_cons, hhead, hnone, hf] using htail.cons b

/-- The socket a reference belongs to as long as it has not been closed. -/
def serving (r : Reference) : Option Fd :=
  match r.sqe.opcode with
  | .recv | .send => some r.sqe.fd
  | .close => if r.res = some 0 then none else some r.sqe.fd
  | .nop | .timeout | .accept => none

def accepted (r : Reference) : Option Fd :=
  match r.sqe.opcode with
  | .accept => r.res.filter fun res => decide (0 ≤ res)
  | _ => none

def closed (r : Reference) : Option Fd :=
  match r.sqe.opcode with
  | .close => if r.res = some 0 then some r.sqe.fd else none
  | _ => none

variable {cfg : Config} {w : World} {xs : List (Ptr × Ptr)}

/-- Every open socket is being served or has just been accepted. -/
theorem claims_split (rs : List Reference) :
    (claims rs).Perm (rs.filterMap serving ++ rs.filterMap accepted) := by
  refine filterMap_or_perm (fun r _ => ?_) fun r _ => ?_ <;>
    unfold serving accepted <;> cases hkind : r.sqe.opcode <;> simp [claim, hkind]

theorem filterMap_accepted : (references (view w)).filterMap accepted = acceptedUnreaped w := by
  have hnone : ∀ s : Sqe, accepted { sqe := s } = none := by
    intro s
    cases hkind : s.opcode <;> simp [accepted, hkind]
  simp only [references, view, List.filterMap_append, List.filterMap_map, Function.comp_def,
    hnone, List.filterMap_none, List.nil_append, acceptedUnreaped]
  refine List.filterMap_congr fun c _ => ?_
  cases hkind : c.request.sqe.opcode <;> simp [accepted, cqeReference, hkind, Option.filter]

theorem filterMap_closed : (references (view w)).filterMap closed = closedUnreaped w := by
  have hnone : ∀ s : Sqe, closed { sqe := s } = none := by
    intro s
    cases hkind : s.opcode <;> simp [closed, hkind]
  simp only [references, view, List.filterMap_append, List.filterMap_map, Function.comp_def,
    hnone, List.filterMap_none, List.nil_append, closedUnreaped]
  refine List.filterMap_congr fun c _ => ?_
  cases hkind : c.request.sqe.opcode <;> simp [closed, cqeReference, hkind]

/-- The descriptor in the op of a reference. -/
theorem opFd_eq {r : Reference} {o : IouOp} (h : Fits cfg r.sqe (some o)) :
    (if r.op = acceptReq ∨ r.op = timerReq then none else some o.infoCon.fd) =
      (serving r).or (closed r) := by
  have hkind := h.opcode
  rcases h.opOk with ⟨hp, hop⟩ | ⟨hp, hop⟩ | ⟨hne, hne', hop⟩
  · rw [hop] at hkind
    rw [if_pos (.inl hp)]
    simp [serving, closed, hkind, requestOf]
  · rw [hop] at hkind
    rw [if_pos (.inr hp)]
    simp [serving, closed, hkind, requestOf]
  · rw [if_neg (by rintro (hp | hp) <;> contradiction)]
    rcases hop with ⟨hop, -⟩ | ⟨hop, -⟩ | ⟨hop, -⟩ <;> rw [hop] at hkind
    · simp [serving, hkind, requestOf, (h.recv hkind).2.2.1]
    · simp [serving, hkind, requestOf, (h.send hkind).2.2.1]
    · by_cases hres : r.res = some 0 <;>
        simp [serving, closed, hkind, requestOf, (h.close hkind).2, hres]

/-- Every tracked op is being served or its socket has just been closed. -/
theorem tracked_split (h : Owned cfg [] [] [] xs (view w)) :
    (xs.map (trackedFd w.toServer)).Perm
      ((references (view w)).filterMap serving ++ closedUnreaped w) := by
  have hbalance := h.balance
  rw [List.append_nil, List.append_nil] at hbalance
  have hfds := hbalance.filterMap fun p =>
    if p = acceptReq ∨ p = timerReq then none else (w.ops p).map fun o => o.infoCon.fd
  have hroots : (roots cfg w.handled).filterMap (fun p =>
      if p = acceptReq ∨ p = timerReq then none else (w.ops p).map fun o => o.infoCon.fd) =
      [] := by
    refine List.filterMap_eq_nil_iff.mpr fun p hp => if_pos ?_
    simp only [roots, List.mem_cons] at hp
    split at hp <;> simp_all
  have hxs : (xs.map Prod.snd).filterMap (fun p =>
      if p = acceptReq ∨ p = timerReq then none else (w.ops p).map fun o => o.infoCon.fd) =
      xs.map (trackedFd w.toServer) := by
    rw [List.filterMap_map, ← List.filterMap_eq_map]
    refine List.filterMap_congr fun x hx => ?_
    obtain ⟨o, ho, -⟩ := (h.clients x hx).op
    have ho' : w.ops x.2 = some o := ho
    have hne := (h.clients x hx).ne_acceptReq
    have hne' := (h.clients x hx).ne_timerReq
    simp [trackedFd, hne, hne', ho']
  rw [List.filterMap_append, show (view w).handled = w.handled from rfl, hroots, hxs,
    List.nil_append, List.filterMap_map] at hfds
  refine hfds.symm.trans ?_
  rw [← filterMap_closed]
  refine filterMap_or_perm (fun r hr => ?_) fun r _ => ?_
  · have hfits := h.fits r hr
    obtain ⟨o, ho, -⟩ := id hfits
    rw [ho] at hfits
    have ho' : w.ops r.op = some o := ho
    rw [← opFd_eq hfits, Function.comp_apply, ho']
    rfl
  · cases hkind : r.sqe.opcode <;> simp [serving, closed, hkind]
    by_cases hres : r.res = some 0 <;> simp [hres]

end Accounts

section Shutdown

variable {cfg : Config} {w w' : World} {xs : List (Ptr × Ptr)} {fuel : Nat}

/-- The state after `iou_free`. -/
def ringsFreed (w : World) : World :=
  { w with
    inflight := []
    iou := { w.iou with
      ringSize := 0
      sqRing := { w.iou.sqRing with head := 0, tail := 0 }
      cqRing := { w.iou.cqRing with head := 0, tail := 0 } } }

theorem walkable_ringsFreed (h : Owned cfg [] [] [] xs (view w)) :
    Walkable (ringsFreed w).toServer w.memAllocsTracker.head xs := by
  have hnodes := h.nodesNodup
  rw [List.append_nil] at hnodes
  refine ⟨h.tracker.forward, fun x hx => (h.clients x hx).node, fun x hx => ?_, hnodes,
    (List.nodup_append.mp h.opsNodup).2.1⟩
  obtain ⟨o, ho, -⟩ := (h.clients x hx).op
  exact Option.isSome_iff_exists.mpr ⟨o, ho⟩

/-- The cleanup is the walk over the tracker, after the rings are gone. -/
theorem cleanup_run : doServiceLoopCleanup fuel w = .ok (⟨⟩, w') ↔
    ∃ w₁, closeTracked fuel w.memAllocsTracker.head (ringsFreed w) = .ok (⟨⟩, w₁) ∧
      w' = { w₁ with memAllocsTracker := {} } := by
  have hrun : doServiceLoopCleanup fuel w =
      (closeTracked fuel w.memAllocsTracker.head >>= fun _ => modifyTracker fun _ => {})
        (ringsFreed w) := by
    rw [doServiceLoopCleanup]
    refine (bind_run (show (get : Program World World) w = .ok (w, w) from rfl)).trans ?_
    exact bind_run (show iouFree w = .ok (⟨⟩, ringsFreed w) from rfl)
  rw [hrun]
  constructor
  · intro h
    obtain ⟨⟨⟩, w₁, hwalk, hend⟩ := bind_eq_ok h
    cases hend
    exact ⟨w₁, hwalk, rfl⟩
  · rintro ⟨w₁, hwalk, rfl⟩
    rw [bind_run hwalk]
    rfl

/-- The cleanup is graceful exactly if as many sockets were closed as accepted
without the server having seen it, and they have the same descriptors. -/
theorem graceful_iff_of_inv (h : Inv cfg [] [] [] (view w)) (hfaithful : w.faithful = true) :
    Graceful w ↔ (closedUnreaped w).Perm (acceptedUnreaped w) := by
  obtain ⟨xs, hown, hecho⟩ := h
  have hechoes := hecho hfaithful
  have hnodup := hechoes.claimsNodup
  have hopen := hechoes.claimsOpen
  rw [List.append_nil] at hnodup hopen
  have hclaims := claims_split (references (view w))
  rw [filterMap_accepted] at hclaims
  have htracked := tracked_split hown
  have hsame : (xs.map (trackedFd w.toServer)).Perm (claims (references (view w))) ↔
      (closedUnreaped w).Perm (acceptedUnreaped w) := by
    constructor
    · exact fun hperm => (List.perm_append_left_iff _).mp
        (htracked.symm.trans (hperm.trans hclaims))
    · exact fun hperm => htracked.trans ((hperm.append_left _).trans hclaims.symm)
  rw [← hsame]
  have hwalkable : Walkable (ringsFreed w).toServer w.memAllocsTracker.head xs :=
    walkable_ringsFreed hown
  constructor
  · rintro ⟨fuel, w', closes, hrun, hcloses, hclosesNodup, hclosesOpen, -⟩
    obtain ⟨w₁, hwalk, rfl⟩ := cleanup_run.mp hrun
    obtain ⟨⟨closes', hcloses', hfst⟩, -⟩ := closed_of_walk hwalkable hwalk
    obtain rfl : closes = closes' := List.append_cancel_left (hcloses.symm.trans hcloses')
    have heq : xs.map (trackedFd w.toServer) = closes.map Prod.fst := hfst.symm
    rw [heq]
    refine (List.perm_ext_iff_of_nodup hclosesNodup hnodup).mpr fun fd => ?_
    rw [hclosesOpen, hopen]
    rfl
  · intro hperm
    obtain ⟨w₁, hwalk⟩ := walk_of_open hwalkable (hperm.nodup_iff.mpr hnodup) fun fd hfd => by
      obtain ⟨c, hc⟩ := (hopen fd).mp (hperm.subset hfd)
      exact Option.isSome_iff_exists.mpr ⟨_, hc⟩
    obtain ⟨⟨closes, hcloses, hfst⟩, hops, hnodes, hfaults⟩ := closed_of_walk hwalkable hwalk
    have hsplit : closes.map Prod.fst = xs.map (trackedFd w.toServer) := hfst
    refine ⟨_, _, closes, cleanup_run.mpr ⟨w₁, hwalk, rfl⟩, hcloses, ?_, fun fd => ?_,
      ⟨xs, ⟨hown.tracker.forward, fun x hx => (hown.clients x hx).node⟩, hops, hnodes⟩,
      hfaults.trans hown.clean⟩
    · rw [hsplit]
      exact hperm.nodup_iff.mpr hnodup
    · rw [hsplit, hperm.mem_iff, hopen]
      rfl

/-- In every reachable state, whatever has been executed and not reaped. -/
theorem graceful_iff (h : Reachable cfg w) (hfaithful : w.faithful = true) :
    Graceful w ↔ (closedUnreaped w).Perm (acceptedUnreaped w) :=
  graceful_iff_of_inv (on_inv_of_reachable h).2 hfaithful

/-- The kernel thread takes the accept request and completes it for a first
client; the server has not seen the CQE when its loop ends. -/
def acceptUnseen : World :=
  worldAfter smallConfig 1 (initialWorld smallConfig smallSetup true true
    (idle 7 ++ [{ acts := [.consume, .network .connect, .accept 0 5] }]))

theorem reachable_acceptUnseen : Reachable smallConfig acceptUnseen :=
  reachable_worldAfter (by decide +kernel)

theorem graceful_iff_acceptUnseen : acceptedUnreaped acceptUnseen = [5] ∧
    (Graceful acceptUnseen ↔
      (closedUnreaped acceptUnseen).Perm (acceptedUnreaped acceptUnseen)) :=
  ⟨by decide +kernel, graceful_iff reachable_acceptUnseen (by decide +kernel)⟩

/-- The socket of the accept that was not seen is never closed. -/
theorem not_graceful : ¬ ∀ (cfg : Config) (w : World),
    Reachable cfg w → w.faithful = true → Graceful w := by
  intro h
  have hgraceful := h smallConfig acceptUnseen reachable_acceptUnseen (by decide +kernel)
  rw [graceful_iff_of_inv (on_inv_of_reachable reachable_acceptUnseen).2 (by decide +kernel)]
    at hgraceful
  have hlength := hgraceful.length_eq
  have hclosed : (closedUnreaped acceptUnseen).length = 0 := by decide +kernel
  have haccepted : (acceptedUnreaped acceptUnseen).length = 1 := by decide +kernel
  omega

end Shutdown

end EchoServers.UringShutdown
