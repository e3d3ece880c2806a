import EchoServers.UringOwnership

namespace EchoServers.UringTracker

open EchoServers.LinkedChains
open EchoServers.SocketKernel
open EchoServers.StateTriples
open EchoServers.UringKernelSteps
open EchoServers.UringMemory
open EchoServers.UringOwnership
open EchoServers.UringQueues
open EchoServers.UringServer
open EchoServers.UringSubmission
open EchoServers.Utils

section Memory

variable {v : View} {p n : Ptr} {o : IouOp} {m : IouOpMemTrackerNode}

/-- The node behind a pointer, if the pointer is not null, is changed. -/
def onNode (v : View) (p : Option Ptr) (f : IouOpMemTrackerNode → IouOpMemTrackerNode) :
    View :=
  { v with nodes := fun m => if some m = p then (v.nodes m).map f else v.nodes m }

theorem triple_modifyOp (f : IouOp → IouOp) (ho : v.ops p = some o) :
    Triple (On fun v' => v' = v) (modifyOp p f) fun _ =>
      On fun v' => v' = v.withOp p (some (f o)) := by
  refine Triple.get_bind fun w hw => ?_
  obtain ⟨hwf, hview⟩ := hw
  subst hview
  have ho' : w.ops p = some o := ho
  rw [ho']
  refine Triple.modify ?_
  rintro w' rfl
  exact ⟨hwf, rfl⟩

theorem triple_modifyOp_withOp (f : IouOp → IouOp) :
    Triple (On fun v' => v' = v.withOp p (some o)) (modifyOp p f) fun _ =>
      On fun v' => v' = v.withOp p (some (f o)) := by
  refine Triple.post (triple_modifyOp (o := o) f (by simp [View.withOp])) fun _ w h =>
    ⟨h.1, h.2.trans ?_⟩
  simp [View.withOp]

theorem triple_modifyNode (f : IouOpMemTrackerNode → IouOpMemTrackerNode)
    (hn : v.nodes n = some m) :
    Triple (On fun v' => v' = v) (modifyNode n f) fun _ =>
      On fun v' => v' = onNode v (some n) f := by
  refine Triple.get_bind fun w hw => ?_
  obtain ⟨hwf, hview⟩ := hw
  subst hview
  have hn' : w.nodes n = some m := hn
  rw [hn']
  refine Triple.modify ?_
  rintro w' rfl
  refine ⟨hwf, ?_⟩
  have hnodes : Function.update w'.nodes n (some (f m)) =
      fun k => if some k = some n then (w'.nodes k).map f else w'.nodes k := by
    funext k
    rcases eq_or_ne k n with rfl | hne
    · simp [hn']
    · simp [hne]
  simp only [view, onNode, hnodes]

theorem triple_freeOp (ho : v.ops p = some o) :
    Triple (On fun v' => v' = v) (freeOp p) fun _ => On fun v' => v' =
      { v with ops := Function.update v.ops p none, freedOps := v.freedOps ++ [p] } := by
  refine Triple.get_bind fun w hw => ?_
  obtain ⟨hwf, hview⟩ := hw
  subst hview
  have ho' : w.ops p = some o := ho
  rw [ho']
  refine Triple.modify ?_
  rintro w' rfl
  exact ⟨hwf, rfl⟩

theorem triple_freeNode (hn : v.nodes n = some m) :
    Triple (On fun v' => v' = v) (freeNode n) fun _ => On fun v' => v' =
      { v with
        nodes := Function.update v.nodes n none
        freedNodes := v.freedNodes ++ [n] } := by
  refine Triple.get_bind fun w hw => ?_
  obtain ⟨hwf, hview⟩ := hw
  subst hview
  have hn' : w.nodes n = some m := hn
  rw [hn']
  refine Triple.modify ?_
  rintro w' rfl
  exact ⟨hwf, rfl⟩

end Memory

section Tracker

variable {v v' : View} {ns ys zs : List Ptr} {n : Ptr}

/-- The same nodes for the same ops, linked differently. -/
structure Relinked (v v' : View) (ns : List Ptr) : Prop where
  rest : v' = { v with nodes := v'.nodes, memAllocsTracker := v'.memAllocsTracker }
  allocatedOps : ∀ m, (v'.nodes m).map IouOpMemTrackerNode.allocatedOp =
    (v.nodes m).map IouOpMemTrackerNode.allocatedOp
  linked : DoublyLinked (nextOf v'.toServer) (prevOf v'.toServer) v'.memAllocsTracker.head
    v'.memAllocsTracker.tail ns

theorem onNode_nodes (p : Option Ptr) (f : IouOpMemTrackerNode → IouOpMemTrackerNode)
    (k : Ptr) :
    (onNode v p f).nodes k = if some k = p then (v.nodes k).map f else v.nodes k :=
  rfl

section Runs

variable {w : World} {m : IouOpMemTrackerNode}

/-- The node behind a pointer, if the pointer is not null, is changed. -/
def mapNode (nodes : Ptr → Option IouOpMemTrackerNode) (p : Option Ptr)
    (f : IouOpMemTrackerNode → IouOpMemTrackerNode) : Ptr → Option IouOpMemTrackerNode :=
  fun k => if some k = p then (nodes k).map f else nodes k

theorem mapNode_of_ne {nodes : Ptr → Option IouOpMemTrackerNode} {p : Option Ptr} {k : Ptr}
    (f : IouOpMemTrackerNode → IouOpMemTrackerNode) (hne : some k ≠ p) :
    mapNode nodes p f k = nodes k :=
  if_neg hne

theorem map_mapNode {nodes : Ptr → Option IouOpMemTrackerNode} {β : Type}
    {g : IouOpMemTrackerNode → β} {f : IouOpMemTrackerNode → IouOpMemTrackerNode}
    (p : Option Ptr) (h : ∀ m, g (f m) = g m) (k : Ptr) :
    (mapNode nodes p f k).map g = (nodes k).map g := by
  unfold mapNode
  split
  · rw [Option.map_map]
    exact congrArg (Option.map · (nodes k)) (funext h)
  · rfl

theorem isSome_mapNode {nodes : Ptr → Option IouOpMemTrackerNode} (p : Option Ptr)
    (f : IouOpMemTrackerNode → IouOpMemTrackerNode) (k : Ptr) :
    (mapNode nodes p f k).isSome = (nodes k).isSome := by
  unfold mapNode
  split
  · rw [Option.isSome_map]
  · rfl

/-- The same world with other nodes and other ends of the list. -/
def relink (w : World) (nodes : Ptr → Option IouOpMemTrackerNode) (t : IouOpMemTracker) :
    World :=
  { w with nodes := nodes, memAllocsTracker := t }

theorem modifyNode_run (f : IouOpMemTrackerNode → IouOpMemTrackerNode)
    (hn : (w.nodes n).isSome) :
    modifyNode n f w =
      .ok (⟨⟩, relink w (mapNode w.nodes (some n) f) w.memAllocsTracker) := by
  obtain ⟨m, hm⟩ := Option.isSome_iff_exists.mp hn
  have hnodes : mapNode w.nodes (some n) f = Function.update w.nodes n (some (f m)) := by
    funext k
    rcases eq_or_ne k n with rfl | hne
    · simp [mapNode, hm]
    · simp [mapNode, hne]
  rw [hnodes]
  refine (bind_run (t := w) rfl).trans ?_
  rw [hm]
  rfl

theorem readNode_run (hm : w.nodes n = some m) : readNode n w = .ok (m, w) := by
  refine (bind_run (t := w) rfl).trans ?_
  rw [hm]
  rfl

/-- A test of the pointer in front of the access makes it safe. -/
theorem whenNonNull_run {p : Option Ptr} (f : IouOpMemTrackerNode → IouOpMemTrackerNode)
    (hlive : ∀ k, p = some k → (w.nodes k).isSome) :
    whenNonNull p (fun k => modifyNode k f) w =
      .ok (⟨⟩, relink w (mapNode w.nodes p f) w.memAllocsTracker) := by
  cases p with
  | none =>
      have hnodes : mapNode w.nodes none f = w.nodes := by
        funext k
        exact mapNode_of_ne f (by simp)
      rw [hnodes]
      rfl
  | some k => exact modifyNode_run f (hlive k rfl)

theorem whenTrue_run {c : Prop} [Decidable c] (f : IouOpMemTracker → IouOpMemTracker) :
    whenTrue c (modifyTracker f) w =
      .ok (⟨⟩, relink w w.nodes (if c then f w.memAllocsTracker else w.memAllocsTracker)) := by
  unfold whenTrue
  split <;> rfl

/-- What `mem_t_push_back` leaves behind. -/
def pushedBack (w : World) (n : Ptr) : World :=
  if w.memAllocsTracker.head = none then
    relink w (mapNode w.nodes (some n) fun k => { k with next := none, prev := none })
      { head := some n, tail := some n }
  else
    relink w
      (mapNode (mapNode (mapNode w.nodes (some n) fun k =>
        { k with prev := w.memAllocsTracker.tail }) (some n) fun k =>
        { k with next := none }) w.memAllocsTracker.tail fun k => { k with next := some n })
      { w.memAllocsTracker with tail := some n }

theorem memTPushBack_run (hn : (w.nodes n).isSome)
    (htail : w.memAllocsTracker.head ≠ none →
      ∃ k, w.memAllocsTracker.tail = some k ∧ (w.nodes k).isSome) :
    memTPushBack n w = .ok (⟨⟩, pushedBack w n) := by
  refine (bind_run (t := w) rfl).trans ?_
  unfold pushedBack
  by_cases hempty : w.memAllocsTracker.head = none
  · rw [if_pos hempty, if_pos hempty]
    refine (bind_run (t := relink w w.nodes { head := some n, tail := some n }) rfl).trans ?_
    exact modifyNode_run _ hn
  · rw [if_neg hempty, if_neg hempty]
    obtain ⟨k, hk, hlive⟩ := htail hempty
    refine (bind_run (modifyNode_run _ hn)).trans ?_
    refine (bind_run (modifyNode_run _ ?_)).trans ?_
    · exact (isSome_mapNode _ _ n).trans hn
    rw [hk]
    refine (bind_run (t := _) rfl).trans ?_
    refine (bind_run (modifyNode_run _ ?_)).trans rfl
    exact ((isSome_mapNode _ _ k).trans (isSome_mapNode _ _ k)).trans hlive

/-- What `mem_t_remove_node` leaves behind. -/
def removedNode (w : World) (n : Ptr) (m : IouOpMemTrackerNode) : World :=
  relink w
    (mapNode (mapNode (mapNode w.nodes m.next fun k => { k with prev := m.prev })
      m.prev fun k => { k with next := m.next }) (some n) fun k =>
      { k with next := none, prev := none })
    { head := if w.memAllocsTracker.head = some n then m.next else w.memAllocsTracker.head
      tail := if w.memAllocsTracker.tail = some n then m.prev else w.memAllocsTracker.tail }

theorem memTRemoveNode_run (hm : w.nodes n = some m) (hnext : some n ≠ m.next)
    (hprev : some n ≠ m.prev)
    (hlive : ∀ k, m.next = some k ∨ m.prev = some k → (w.nodes k).isSome) :
    memTRemoveNode n w = .ok (⟨⟩, removedNode w n m) := by
  refine (bind_run (readNode_run hm)).trans ?_
  refine (bind_run (whenNonNull_run _ fun k hk => hlive k (.inl hk))).trans ?_
  refine (bind_run (readNode_run ((mapNode_of_ne _ hnext).trans hm))).trans ?_
  refine (bind_run (whenNonNull_run _ fun k hk =>
    (isSome_mapNode _ _ k).trans (hlive k (.inr hk)))).trans ?_
  refine (bind_run (readNode_run
    ((mapNode_of_ne _ hprev).trans ((mapNode_of_ne _ hnext).trans hm)))).trans ?_
  refine (bind_run (t := _) rfl).trans ?_
  refine (bind_run (whenTrue_run _)).trans ?_
  refine (bind_run (t := _) rfl).trans ?_
  refine (bind_run (whenTrue_run _)).trans ?_
  refine (modifyNode_run _ ?_).trans ?_
  · refine (isSome_mapNode _ _ n).trans ((isSome_mapNode _ _ n).trans ?_)
    rw [hm]
    rfl
  · unfold removedNode relink
    by_cases hhead : w.memAllocsTracker.head = some n <;>
      by_cases htail : w.memAllocsTracker.tail = some n <;>
      simp [hhead, htail]

end Runs

theorem triple_deref {p : Option Ptr} {k : Ptr} (hp : p = some k) :
    Triple (On fun v' => v' = v) (deref p) fun a w => a = k ∧ On (fun v' => v' = v) w := by
  subst hp
  exact Triple.pure _ fun w h => ⟨rfl, h⟩

section Links

variable {w : World} {m : IouOpMemTrackerNode}

/-- The nodes `ns` are linked, in their order, from the head of the tracker to
its tail. -/
def Tracks (s : Server) (ns : List Ptr) : Prop :=
  DoublyLinked (nextOf s) (prevOf s) s.memAllocsTracker.head s.memAllocsTracker.tail ns

theorem tracks_pushedBack (hlinked : Tracks w.toServer ns)
    (hlive : ∀ k ∈ ns, (w.nodes k).isSome) (hn : (w.nodes n).isSome) (hnot : n ∉ ns) :
    Tracks (pushedBack w n).toServer (ns ++ [n]) := by
  obtain ⟨m, hm⟩ := Option.isSome_iff_exists.mp hn
  by_cases hempty : w.memAllocsTracker.head = none
  · obtain rfl : ns = [] := by
      have hhead := hlinked.head_eq
      rw [hempty] at hhead
      exact List.head?_eq_none_iff.mp hhead.symm
    unfold pushedBack
    rw [if_pos hempty]
    refine ⟨by simp, ?_, ?_⟩
    · simp [Visits, relink, mapNode, nextOf, hm]
    · simp [Visits, relink, mapNode, prevOf, hm]
  · obtain ⟨a, ha⟩ : ∃ a, ns.getLast? = some a := by
      cases hlast : ns.getLast? with
      | none =>
          obtain rfl := List.getLast?_eq_none_iff.mp hlast
          exact absurd hlinked.head_eq hempty
      | some a => exact ⟨a, rfl⟩
    have htail := hlinked.tail_eq.trans ha
    have hamem : a ∈ ns := List.mem_of_getLast? ha
    have han : a ≠ n := fun h => hnot (h ▸ hamem)
    have hne : ∀ z ∈ ns, z ≠ n := fun z hz h => hnot (h ▸ hz)
    obtain ⟨ma, hma⟩ := Option.isSome_iff_exists.mp (hlive a hamem)
    have hpush := hlinked.pushBack (nextOf (pushedBack w n).toServer)
      (prevOf (pushedBack w n).toServer) hnot (fun z hz => ?_) ?_ (fun z hz => ?_) ?_
    · rw [if_neg hempty] at hpush
      unfold pushedBack at hpush ⊢
      rw [if_neg hempty] at hpush ⊢
      exact hpush
    all_goals
      unfold pushedBack
      rw [if_neg hempty]
    · rcases eq_or_ne z a with rfl | hza
      · simp [nextOf, relink, mapNode, han, hma, htail]
      · simp [nextOf, relink, mapNode, hne z hz, hza, htail]
    · simp [nextOf, relink, mapNode, han.symm, hm, htail]
    · rcases eq_or_ne z a with rfl | hza
      · simp [prevOf, relink, mapNode, han, hma, htail]
      · simp [prevOf, relink, mapNode, hne z hz, hza, htail]
    · simp [prevOf, relink, mapNode, han.symm, hm, htail]

/-- The two links of a tracked node. -/
theorem links_eq (hlinked : Tracks w.toServer (ys ++ n :: zs)) (hm : w.nodes n = some m) :
    m.next = zs.head? ∧ m.prev = ys.getLast? := by
  constructor
  · have hnext := hlinked.next_eq
    simpa [nextOf, hm] using hnext
  · have hprev := hlinked.prev_eq
    simpa [prevOf, hm] using hprev

theorem memTRemoveNode_run_of_tracks (hlinked : Tracks w.toServer (ys ++ n :: zs))
    (hlive : ∀ k ∈ ys ++ n :: zs, (w.nodes k).isSome) (hm : w.nodes n = some m) :
    memTRemoveNode n w = .ok (⟨⟩, removedNode w n m) := by
  obtain ⟨hmnext, hmprev⟩ := links_eq hlinked hm
  have hnodup := hlinked.nodup
  rw [List.nodup_append, List.nodup_cons] at hnodup
  refine memTRemoveNode_run hm ?_ ?_ ?_
  · rw [hmnext]
    intro h
    exact hnodup.2.1.1 (List.mem_of_head? h.symm)
  · rw [hmprev]
    intro h
    exact hnodup.2.2 n (List.mem_of_getLast? h.symm) n (by simp) rfl
  · intro k hk
    rw [hmnext, hmprev] at hk
    rcases hk with hk | hk
    · exact hlive k (by simp [List.mem_of_head? hk])
    · exact hlive k (by simp [List.mem_of_getLast? hk])

theorem tracks_removedNode (hlinked : Tracks w.toServer (ys ++ n :: zs))
    (hlive : ∀ k ∈ ys ++ n :: zs, (w.nodes k).isSome) (hm : w.nodes n = some m) :
    Tracks (removedNode w n m).toServer (ys ++ zs) := by
  have hne : ∀ z ∈ ys ++ zs, z ≠ n := by
    rintro z hz rfl
    exact (List.nodup_cons.mp (List.nodup_middle.mp hlinked.nodup)).1 hz
  have hlive' : ∀ z ∈ ys ++ zs, ∃ k, w.nodes z = some k := fun z hz =>
    Option.isSome_iff_exists.mp (hlive z (by
      simp only [List.mem_append, List.mem_cons] at hz ⊢
      tauto))
  have hnext : nextOf w.toServer n = m.next := by simp [nextOf, hm]
  have hprev : prevOf w.toServer n = m.prev := by simp [prevOf, hm]
  have hunlink := hlinked.unlink (nextOf (removedNode w n m).toServer)
    (prevOf (removedNode w n m).toServer) (fun z hz => ?_) fun z hz => ?_
  · rw [hnext, hprev] at hunlink
    exact hunlink
  · obtain ⟨k, hk⟩ := hlive' z hz
    rw [hnext, hprev]
    simp only [nextOf, removedNode, relink, mapNode, Option.some.injEq, hne z hz, if_false, hk]
    split <;> split <;> rfl
  · obtain ⟨k, hk⟩ := hlive' z hz
    rw [hnext, hprev]
    simp only [prevOf, removedNode, relink, mapNode, Option.some.injEq, hne z hz, if_false, hk]
    split <;> split <;> rfl

theorem map_allocatedOp_pushedBack (k : Ptr) :
    ((pushedBack w n).nodes k).map IouOpMemTrackerNode.allocatedOp =
      (w.nodes k).map IouOpMemTrackerNode.allocatedOp := by
  unfold pushedBack
  split
  · exact map_mapNode _ (by intro _; rfl) k
  · refine (map_mapNode _ (by intro _; rfl) k).trans ?_
    refine (map_mapNode _ (by intro _; rfl) k).trans ?_
    exact map_mapNode _ (by intro _; rfl) k

theorem map_allocatedOp_removedNode (k : Ptr) :
    ((removedNode w n m).nodes k).map IouOpMemTrackerNode.allocatedOp =
      (w.nodes k).map IouOpMemTrackerNode.allocatedOp := by
  refine (map_mapNode _ (by intro _; rfl) k).trans ?_
  refine (map_mapNode _ (by intro _; rfl) k).trans ?_
  exact map_mapNode _ (by intro _; rfl) k

theorem pushedBack_eq (w : World) (n : Ptr) :
    pushedBack w n = relink w (pushedBack w n).nodes (pushedBack w n).memAllocsTracker := by
  unfold pushedBack
  split <;> rfl

end Links

/-- A run that only relinks nodes, seen from the queues. -/
theorem triple_relink {x : Program World PUnit}
    {f : World → World} (hrun : ∀ w, view w = v → x w = .ok (⟨⟩, f w))
    (heq : ∀ w, f w = relink w (f w).nodes (f w).memAllocsTracker)
    (hallocated : ∀ w, view w = v → ∀ k, ((f w).nodes k).map IouOpMemTrackerNode.allocatedOp =
      (w.nodes k).map IouOpMemTrackerNode.allocatedOp)
    (hlinked : ∀ w, view w = v → Tracks (f w).toServer ns) :
    Triple (On fun v' => v' = v) x fun _ => On fun v' => Relinked v v' ns := by
  intro w hw a t h
  obtain ⟨hwf, hview⟩ := hw
  have hrun := (hrun w hview).symm.trans h
  cases hrun
  refine ⟨?_, ?_, fun k => ?_, hlinked w hview⟩
  · rw [heq]
    exact hwf
  · rw [heq, ← hview]
    rfl
  · rw [← hview]
    exact hallocated w hview k

theorem triple_memTPushBack (hlinked : DoublyLinked (nextOf v.toServer) (prevOf v.toServer)
      v.memAllocsTracker.head v.memAllocsTracker.tail ns)
    (hlive : ∀ k ∈ ns, (v.nodes k).isSome) (hn : (v.nodes n).isSome) (hnot : n ∉ ns) :
    Triple (On fun v' => v' = v) (memTPushBack n) fun _ =>
      On fun v' => Relinked v v' (ns ++ [n]) := by
  refine triple_relink (f := fun w => pushedBack w n) ?_ (fun w => pushedBack_eq w n)
    (fun w _ => map_allocatedOp_pushedBack) ?_
  · rintro w rfl
    refine memTPushBack_run hn fun hhead => ?_
    have hne : ns ≠ [] := by
      rintro rfl
      exact hhead hlinked.head_eq
    obtain ⟨k, hk⟩ := Option.isSome_iff_exists.mp (List.getLast?_isSome.mpr hne)
    exact ⟨k, hlinked.tail_eq.trans hk, hlive k (List.mem_of_getLast? hk)⟩
  · rintro w rfl
    exact tracks_pushedBack hlinked hlive hn hnot

theorem triple_memTRemoveNode (hlinked : DoublyLinked (nextOf v.toServer) (prevOf v.toServer)
      v.memAllocsTracker.head v.memAllocsTracker.tail (ys ++ n :: zs))
    (hlive : ∀ k ∈ ys ++ n :: zs, (v.nodes k).isSome) :
    Triple (On fun v' => v' = v) (memTRemoveNode n) fun _ =>
      On fun v' => Relinked v v' (ys ++ zs) := by
  obtain ⟨m, hm⟩ := Option.isSome_iff_exists.mp (hlive n (by simp))
  refine triple_relink (f := fun w => removedNode w n m) ?_ (fun w => rfl)
    (fun w _ => map_allocatedOp_removedNode) ?_
  · rintro w rfl
    exact memTRemoveNode_run_of_tracks hlinked hlive hm
  · rintro w rfl
    exact tracks_removedNode hlinked hlive hm

end Tracker

end EchoServers.UringTracker
