import EchoServers.UringTracker

namespace EchoServers.UringTrackerRuns

open EchoServers.LinkedChains
open EchoServers.SocketKernel
open EchoServers.StateTriples
open EchoServers.UringMemory
open EchoServers.UringOwnership
open EchoServers.UringServer
open EchoServers.UringTracker
open EchoServers.Utils

/-- A call on the tracker list. -/
inductive TrackerCall where
  | pushBack (node : Ptr)
  | removeNode (node : Ptr)
  deriving DecidableEq, Repr

def TrackerCall.run : TrackerCall → Program World PUnit
  | .pushBack node => memTPushBack node
  | .removeNode node => memTRemoveNode node

def runCalls : List TrackerCall → Program World PUnit
  | [] => return ⟨⟩
  | call :: calls => do
      call.run
      runCalls calls

/-- `mem_t_create`. -/
def memTCreate : IouOpMemTracker where
  head := none
  tail := none

/-- The sequence a tracker list stands for, and the nodes that were removed
from it and not pushed again. -/
structure Contents where
  listed : List Ptr := []
  removed : List Ptr := []
  deriving DecidableEq, Repr

/-- A node is pushed while it is not listed and removed while it is. -/
def Contents.step (c : Contents) : TrackerCall → Option Contents
  | .pushBack node =>
      if node ∈ c.listed then none
      else some
        { listed := c.listed ++ [node]
          removed := c.removed.filter fun n => n ≠ node }
  | .removeNode node =>
      if node ∈ c.listed then some
        { listed := c.listed.erase node
          removed := node :: c.removed }
      else none

def Contents.steps (c : Contents) : List TrackerCall → Option Contents
  | [] => some c
  | call :: calls => (c.step call).bind fun c' => c'.steps calls

section Invariant

variable {w₀ w : World} {c c' : Contents} {n : Ptr}

/-- `w` is `w₀` with its nodes linked to the sequence `c`. -/
structure Linked (w₀ w : World) (c : Contents) : Prop where
  tracks : Tracks w.toServer c.listed
  live : ∀ n ∈ c.listed, (w.nodes n).isSome
  removed : ∀ n ∈ c.removed, n ∉ c.listed ∧
    ∃ m, w.nodes n = some m ∧ m.next = none ∧ m.prev = none
  allocatedOps : ∀ n, (w.nodes n).map IouOpMemTrackerNode.allocatedOp =
    (w₀.nodes n).map IouOpMemTrackerNode.allocatedOp
  rest : w = relink w₀ w.nodes w.memAllocsTracker

theorem Linked.isSome_iff (h : Linked w₀ w c) (n : Ptr) :
    (w.nodes n).isSome = (w₀.nodes n).isSome := by
  have hn := congrArg Option.isSome (h.allocatedOps n)
  rwa [Option.isSome_map, Option.isSome_map] at hn

theorem Linked.relink_eq (h : Linked w₀ w c) (nodes : Ptr → Option IouOpMemTrackerNode)
    (t : IouOpMemTracker) : relink w nodes t = relink w₀ nodes t := by
  have hrest := congrArg (fun v => relink v nodes t) h.rest
  exact hrest

/-- The node at the end of a list that is not empty. -/
theorem Linked.tail_live (h : Linked w₀ w c) (hhead : w.memAllocsTracker.head ≠ none) :
    ∃ k, w.memAllocsTracker.tail = some k ∧ k ∈ c.listed := by
  have hne : c.listed ≠ [] := by
    intro hnil
    apply hhead
    rw [h.tracks.head_eq, hnil]
    rfl
  obtain ⟨k, hk⟩ := Option.isSome_iff_exists.mp (List.getLast?_isSome.mpr hne)
  exact ⟨k, h.tracks.tail_eq.trans hk, List.mem_of_getLast? hk⟩

/-- Only the pushed node and the old last node are written. -/
theorem pushedBack_nodes_of_ne {k : Ptr} (hkn : k ≠ n)
    (hktail : w.memAllocsTracker.tail ≠ some k ∨ w.memAllocsTracker.head = none) :
    (pushedBack w n).nodes k = w.nodes k := by
  have hne : some k ≠ some n := fun h => hkn (Option.some.inj h)
  unfold pushedBack
  split
  · exact mapNode_of_ne _ hne
  · rename_i hhead
    have hktail := (hktail.resolve_right hhead).symm
    refine (mapNode_of_ne _ hktail).trans ?_
    exact (mapNode_of_ne _ hne).trans (mapNode_of_ne _ hne)

theorem Linked.pushBack (h : Linked w₀ w c) (hn : (w₀.nodes n).isSome)
    (hnot : n ∉ c.listed) :
    memTPushBack n w = .ok (⟨⟩, pushedBack w n) ∧
      Linked w₀ (pushedBack w n)
        { listed := c.listed ++ [n], removed := c.removed.filter fun k => k ≠ n } := by
  have hlive : (w.nodes n).isSome := (h.isSome_iff n).trans hn
  have hsome : ∀ k, ((pushedBack w n).nodes k).isSome = (w.nodes k).isSome := by
    intro k
    have hk := congrArg Option.isSome (map_allocatedOp_pushedBack (w := w) (n := n) k)
    rwa [Option.isSome_map, Option.isSome_map] at hk
  constructor
  · apply memTPushBack_run hlive
    intro hhead
    obtain ⟨k, hk, hmem⟩ := h.tail_live hhead
    exact ⟨k, hk, h.live k hmem⟩
  · constructor
    · exact tracks_pushedBack h.tracks h.live hlive hnot
    · intro k hk
      rw [hsome]
      rcases List.mem_append.mp hk with hk | hk
      · exact h.live k hk
      · exact List.mem_singleton.mp hk ▸ hlive
    · intro k hk
      obtain ⟨hk, hkn⟩ := List.mem_filter.mp hk
      have hkn : k ≠ n := of_decide_eq_true hkn
      obtain ⟨hlisted, m, hm, hlinks⟩ := h.removed k hk
      refine ⟨by simp [hlisted, hkn], m, ?_, hlinks⟩
      rw [pushedBack_nodes_of_ne hkn, hm]
      by_cases hhead : w.memAllocsTracker.head = none
      · exact .inr hhead
      · left
        intro htail
        obtain ⟨j, hj, hmem⟩ := h.tail_live hhead
        cases hj.symm.trans htail
        exact hlisted hmem
    · intro k
      exact (map_allocatedOp_pushedBack k).trans (h.allocatedOps k)
    · rw [pushedBack_eq]
      exact h.relink_eq _ _

/-- Only the removed node and its neighbours, which are listed, are written. -/
theorem removedNode_nodes {m : IouOpMemTrackerNode} {ys zs : List Ptr}
    (hlinked : Tracks w.toServer (ys ++ n :: zs)) (hm : w.nodes n = some m) :
    (removedNode w n m).nodes n = some { m with next := none, prev := none } ∧
      ∀ k, k ∉ ys ++ n :: zs → (removedNode w n m).nodes k = w.nodes k := by
  obtain ⟨hnext, hprev⟩ := links_eq hlinked hm
  have hnodup := hlinked.nodup
  rw [List.nodup_append, List.nodup_cons] at hnodup
  have hnnext : some n ≠ m.next := by
    rw [hnext]
    intro h
    exact hnodup.2.1.1 (List.mem_of_head? h.symm)
  have hnprev : some n ≠ m.prev := by
    rw [hprev]
    intro h
    exact hnodup.2.2 n (List.mem_of_getLast? h.symm) n (by simp) rfl
  constructor
  · simp [removedNode, relink, mapNode, hnnext, hnprev, hm]
  · intro k hk
    simp only [List.mem_append, List.mem_cons, not_or] at hk
    refine (mapNode_of_ne _ ?_).trans ((mapNode_of_ne _ ?_).trans (mapNode_of_ne _ ?_))
    · intro h
      exact hk.2.1 (Option.some.inj h)
    · rw [hprev]
      intro h
      exact hk.1 (List.mem_of_getLast? h.symm)
    · rw [hnext]
      intro h
      exact hk.2.2 (List.mem_of_head? h.symm)

theorem Linked.removeNode (h : Linked w₀ w c) (hn : n ∈ c.listed) :
    ∃ w', memTRemoveNode n w = .ok (⟨⟩, w') ∧
      Linked w₀ w' { listed := c.listed.erase n, removed := n :: c.removed } := by
  obtain ⟨m, hm⟩ := Option.isSome_iff_exists.mp (h.live n hn)
  obtain ⟨ys, zs, hlisted⟩ := List.append_of_mem hn
  have htracks := h.tracks
  have hlive := h.live
  rw [hlisted] at htracks hlive
  have hnot : n ∉ ys := by
    have hnodup := htracks.nodup
    rw [List.nodup_append] at hnodup
    exact fun hmem => hnodup.2.2 n hmem n (by simp) rfl
  have herase : c.listed.erase n = ys ++ zs := by
    rw [hlisted, List.erase_append_right _ hnot, List.erase_cons_head]
  obtain ⟨hnode, hothers⟩ := removedNode_nodes htracks hm
  have hsome : ∀ k, ((removedNode w n m).nodes k).isSome = (w.nodes k).isSome := by
    intro k
    have hk := congrArg Option.isSome (map_allocatedOp_removedNode (w := w) (n := n) (m := m) k)
    rwa [Option.isSome_map, Option.isSome_map] at hk
  have hself : n ∉ ys ++ zs :=
    (List.nodup_cons.mp (List.nodup_middle.mp htracks.nodup)).1
  refine ⟨removedNode w n m, memTRemoveNode_run_of_tracks htracks hlive hm, ?_⟩
  rw [herase]
  constructor
  · exact tracks_removedNode htracks hlive hm
  · intro k hk
    rw [hsome]
    apply hlive
    simp only [List.mem_append, List.mem_cons] at hk ⊢
    tauto
  · intro k hk
    rcases List.mem_cons.mp hk with rfl | hk
    · exact ⟨hself, _, hnode, rfl, rfl⟩
    · obtain ⟨hk, m', hm', hlinks⟩ := h.removed k hk
      rw [hlisted] at hk
      refine ⟨?_, m', (hothers k hk).trans hm', hlinks⟩
      simp only [List.mem_append, List.mem_cons, not_or] at hk ⊢
      exact ⟨hk.1, hk.2.2⟩
  · intro k
    exact (map_allocatedOp_removedNode k).trans (h.allocatedOps k)
  · exact h.relink_eq _ _

/-- A call that is allowed keeps the list linked to the sequence. -/
theorem Linked.step (h : Linked w₀ w c) {call : TrackerCall} (hstep : c.step call = some c')
    (hnodes : ∀ n, call = .pushBack n → (w₀.nodes n).isSome) :
    ∃ w', call.run w = .ok (⟨⟩, w') ∧ Linked w₀ w' c' := by
  cases call with
  | pushBack n =>
      by_cases hn : n ∈ c.listed
      · rw [Contents.step, if_pos hn] at hstep
        cases hstep
      · rw [Contents.step, if_neg hn] at hstep
        cases hstep
        exact ⟨_, h.pushBack (hnodes n rfl) hn⟩
  | removeNode n =>
      by_cases hn : n ∈ c.listed
      · rw [Contents.step, if_pos hn] at hstep
        cases hstep
        exact h.removeNode hn
      · rw [Contents.step, if_neg hn] at hstep
        cases hstep

theorem Linked.steps {calls : List TrackerCall} (h : Linked w₀ w c)
    (hsteps : c.steps calls = some c')
    (hnodes : ∀ n, .pushBack n ∈ calls → (w₀.nodes n).isSome) :
    ∃ w', runCalls calls w = .ok (⟨⟩, w') ∧ Linked w₀ w' c' := by
  induction calls generalizing w c with
  | nil =>
      cases hsteps
      exact ⟨w, rfl, h⟩
  | cons call calls ih =>
      obtain ⟨c₁, hc₁, hrest⟩ := Option.bind_eq_some_iff.mp hsteps
      obtain ⟨w₁, hrun, h₁⟩ := h.step hc₁ fun n hn => hnodes n (by simp [hn])
      obtain ⟨w', hruns, h'⟩ := ih h₁ hrest fun n hn => hnodes n (by simp [hn])
      exact ⟨w', (bind_run hrun).trans hruns, h'⟩

/-- A node without links, outside the list, is removed without any effect. -/
theorem Linked.removeNode_again (h : Linked w₀ w c) (hn : n ∈ c.removed) :
    memTRemoveNode n w = .ok (⟨⟩, w) := by
  obtain ⟨hnot, m, hm, hnext, hprev⟩ := h.removed n hn
  have hhead : w.memAllocsTracker.head ≠ some n := by
    rw [h.tracks.head_eq]
    intro heq
    exact hnot (List.mem_of_head? heq)
  have htail : w.memAllocsTracker.tail ≠ some n := by
    rw [h.tracks.tail_eq]
    intro heq
    exact hnot (List.mem_of_getLast? heq)
  have hsame : removedNode w n m = w := by
    have hnodes : (removedNode w n m).nodes = w.nodes := by
      funext k
      rcases eq_or_ne k n with rfl | hne
      · cases m
        simp only at hnext hprev
        simp [removedNode, relink, mapNode, hnext, hprev, hm]
      · simp [removedNode, relink, mapNode, hnext, hprev, hne]
    have htracker : (removedNode w n m).memAllocsTracker = w.memAllocsTracker := by
      simp [removedNode, relink, hhead, htail]
    calc removedNode w n m
        = relink w (removedNode w n m).nodes (removedNode w n m).memAllocsTracker := rfl
      _ = w := by
        rw [hnodes, htracker]
        rfl
  refine (memTRemoveNode_run hm ?_ ?_ ?_).trans (by rw [hsame])
  · simp [hnext]
  · simp [hprev]
  · simp [hnext, hprev]

end Invariant

section Refinement

variable {w₀ w : World} {c : Contents}

/-- What the list of `w` shows of the sequence `c`. -/
structure Refines (w₀ w : World) (c : Contents) : Prop where
  forward : Visits (nextOf w.toServer) w.memAllocsTracker.head c.listed
  backward : Visits (prevOf w.toServer) w.memAllocsTracker.tail c.listed.reverse
  nodup : c.listed.Nodup
  head_none : w.memAllocsTracker.head = none ↔ c.listed = []
  tail_none : w.memAllocsTracker.tail = none ↔ c.listed = []
  unlinked : ∀ n ∈ c.removed, ∃ m, w.nodes n = some m ∧ m.next = none ∧ m.prev = none
  unreferenced : ∀ n ∈ c.removed, ∀ k ∈ c.listed,
    nextOf w.toServer k ≠ some n ∧ prevOf w.toServer k ≠ some n
  removedAgain : ∀ n ∈ c.removed, memTRemoveNode n w = .ok (⟨⟩, w)
  allocatedOps : ∀ n, (w.nodes n).map IouOpMemTrackerNode.allocatedOp =
    (w₀.nodes n).map IouOpMemTrackerNode.allocatedOp
  rest : w = relink w₀ w.nodes w.memAllocsTracker

theorem Linked.refines (h : Linked w₀ w c) : Refines w₀ w c := by
  refine ⟨h.tracks.forward, h.tracks.backward, h.tracks.nodup, ?_, ?_, ?_, ?_,
    fun n hn => h.removeNode_again hn, h.allocatedOps, h.rest⟩
  · rw [h.tracks.head_eq]
    exact List.head?_eq_none_iff
  · rw [h.tracks.tail_eq]
    exact List.getLast?_eq_none_iff
  · intro n hn
    exact (h.removed n hn).2
  · intro n hn k hk
    have hnot := (h.removed n hn).1
    obtain ⟨ys, zs, hlisted⟩ := List.append_of_mem hk
    have htracks : DoublyLinked (nextOf w.toServer) (prevOf w.toServer) _ _
      (ys ++ k :: zs) := hlisted ▸ h.tracks
    rw [htracks.next_eq, htracks.prev_eq]
    constructor
    · intro heq
      exact hnot (by simp [hlisted, List.mem_of_head? heq])
    · intro heq
      exact hnot (by simp [hlisted, List.mem_of_getLast? heq])

/-- Any allowed calls on the empty tracker leave the list of the nodes that
were pushed and not removed. -/
theorem tracker_refines_sequence {calls : List TrackerCall}
    (hempty : w₀.memAllocsTracker = memTCreate)
    (hnodes : ∀ n, .pushBack n ∈ calls → (w₀.nodes n).isSome)
    (hcalls : Contents.steps {} calls = some c) :
    ∃ w, runCalls calls w₀ = .ok (⟨⟩, w) ∧ Refines w₀ w c := by
  have hlinked : Linked w₀ w₀ {} := by
    refine ⟨?_, by simp, by simp, fun _ => rfl, rfl⟩
    unfold Tracks
    rw [hempty]
    exact DoublyLinked.empty _ _
  obtain ⟨w, hrun, h⟩ := hlinked.steps hcalls hnodes
  exact ⟨w, hrun, h.refines⟩

/-- Three nodes of which the middle one is removed. -/
theorem tracker_refines_sequence_middle :
    ∃ w, runCalls [.pushBack 7, .pushBack 8, .pushBack 9, .removeNode 8]
        { initialWorld smallConfig smallSetup false true [] with nodes := fun _ => some {} } =
          .ok (⟨⟩, w) ∧
      Refines
        { initialWorld smallConfig smallSetup false true [] with nodes := fun _ => some {} }
        w { listed := [7, 9], removed := [8] } :=
  tracker_refines_sequence rfl (fun _ _ => rfl) (by decide)

end Refinement

end EchoServers.UringTrackerRuns
