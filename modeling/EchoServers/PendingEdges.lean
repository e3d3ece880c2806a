import EchoServers.SocketKernel

/-!
Edge-triggered notification: what waits at a registered descriptor has a
pending edge, or an event of the batch that is being serviced stands for it.
-/

namespace EchoServers.PendingEdges

open EchoServers.SocketKernel

/-- What can wait at a descriptor. -/
inductive Cause where
  | connection
  | data
  | finish

def Cause.Pending (k : Kernel) : File → Cause → Prop
  | .listening, .connection => k.backlog ≠ []
  | .socket c, .data => (k.conns c).unread ≠ []
  | .socket c, .finish => (k.conns c).eos = true
  | _, _ => False

/-- An event shows the cause. -/
def Cause.seen (r : Readiness) : Cause → Bool
  | .connection => r.readable
  | .data => r.readable
  | .finish => r.rdhup

/-- The cause will come to the server's notice. -/
def Covered (evs : List EpollEvent) (k : Kernel) (fd : Fd) (cause : Cause) : Prop :=
  k.edges fd = true ∨ ∃ ev ∈ evs, ev.fd = fd ∧ cause.seen ev.events = true

/-- While the events `evs` are left to be serviced, nothing that waits at a
registered descriptor is overlooked. -/
structure Alert (evs : List EpollEvent) (k : Kernel) : Prop where
  closed : ∀ fd, k.files fd = none → k.interest fd = none
  covered : ∀ fd f cause, k.files fd = some f → k.interest fd ≠ none →
    Cause.Pending k f cause → Covered evs k fd cause

section Lemmas

variable {k k' : Kernel} {evs : List EpollEvent} {ev : EpollEvent} {fd fd' : Fd} {f f' : File}
  {cause : Cause} {c : ConnId} {g : Conn → Conn}

/-- What is pending at a file is among what can be seen of it. -/
theorem seen_of_pending (h : cause.Pending k f) : cause.seen (k.readiness f) = true := by
  cases f with
  | listening =>
      cases cause with
      | connection =>
          have hbacklog : k.backlog ≠ [] := h
          simp [Cause.seen, Kernel.readiness, hbacklog]
      | data => exact h.elim
      | finish => exact h.elim
  | socket c =>
      cases cause with
      | connection => exact h.elim
      | data =>
          have hunread : (k.conns c).unread ≠ [] := h
          simp [Cause.seen, Kernel.readiness, hunread]
      | finish => exact h
  | timer => cases cause <;> exact h.elim
  | epoll => cases cause <;> exact h.elim

/-- Only the backlog and the unread bytes and ends of streams matter. -/
theorem pending_mono (h : Cause.Pending k' f cause)
    (hbacklog : f = .listening → k'.backlog ≠ [] → k.backlog ≠ [])
    (hunread : ∀ c, f = .socket c → (k'.conns c).unread ≠ [] → (k.conns c).unread ≠ [])
    (heos : ∀ c, f = .socket c → (k'.conns c).eos = true → (k.conns c).eos = true) :
    Cause.Pending k f cause := by
  cases f with
  | listening =>
      cases cause with
      | connection => exact hbacklog rfl h
      | data => exact h
      | finish => exact h
  | socket c =>
      cases cause with
      | connection => exact h
      | data => exact hunread c rfl h
      | finish => exact heos c rfl h
  | timer => cases cause <;> exact h
  | epoll => cases cause <;> exact h

theorem any_of_seen {r : Readiness} (h : cause.seen r = true) : r.any = true := by
  cases cause with
  | connection => simp [Readiness.any, show r.readable = true from h]
  | data => simp [Readiness.any, show r.readable = true from h]
  | finish => simp [Readiness.any, show r.rdhup = true from h]

theorem edges_raise_of_edges (h : k.edges fd = true) : (k.raise f).edges fd = true := by
  simp [Kernel.raise, h]

theorem edges_raise_of_file (hfile : k.files fd = some f) (hinterest : k.interest fd ≠ none) :
    (k.raise f).edges fd = true := by
  simp [Kernel.raise, hfile, Option.isSome_iff_ne_none.mpr hinterest]

theorem Covered.raise (h : Covered evs k fd cause) (f : File) :
    Covered evs (k.raise f) fd cause :=
  h.imp_left edges_raise_of_edges

/-- Only what waits at the file `f`, whose edges are raised, can be new. -/
theorem Alert.raised (h : Alert evs k) (hfiles : k'.files = k.files)
    (hinterest : k'.interest = k.interest) (hedges : k'.edges = k.edges)
    (hpending : ∀ f' cause, f' ≠ f → Cause.Pending k' f' cause → Cause.Pending k f' cause) :
    Alert evs (k'.raise f) := by
  constructor
  · intro fd hfile
    rw [raise_files, hfiles] at hfile
    rw [raise_interest, hinterest]
    exact h.closed fd hfile
  · intro fd f' cause hfile hregistered hcause
    rcases eq_or_ne f' f with rfl | hne
    · exact .inl (edges_raise_of_file hfile hregistered)
    · rw [raise_files, hfiles] at hfile
      rw [raise_interest, hinterest] at hregistered
      have hcovered := h.covered fd f' cause hfile hregistered (hpending f' cause hne hcause)
      rw [Covered, ← hedges] at hcovered
      exact Covered.raise hcovered f

/-- Nothing new waits anywhere. -/
theorem Alert.calm (h : Alert evs k) (hfiles : k'.files = k.files)
    (hinterest : k'.interest = k.interest) (hedges : k'.edges = k.edges)
    (hpending : ∀ f cause, Cause.Pending k' f cause → Cause.Pending k f cause) : Alert evs k' := by
  constructor
  · rw [hfiles, hinterest]
    exact h.closed
  · intro fd f cause hfile hregistered hcause
    rw [hfiles] at hfile
    rw [hinterest] at hregistered
    have hcovered := h.covered fd f cause hfile hregistered (hpending f cause hcause)
    rw [Covered, ← hedges] at hcovered
    exact hcovered

/-- What happens to one connection shows at its own sockets only. -/
theorem pending_updateConn (h : Cause.Pending (k.updateConn c g) f cause)
    (hunread : f = .socket c → (g (k.conns c)).unread ≠ [] → (k.conns c).unread ≠ [])
    (heos : f = .socket c → (g (k.conns c)).eos = true → (k.conns c).eos = true) :
    Cause.Pending k f cause := by
  apply pending_mono h
  · intro _ hbacklog
    exact hbacklog
  · intro c' hfile hafter
    rcases eq_or_ne c' c with rfl | hne
    · rw [updateConn_conns_self] at hafter
      exact hunread hfile hafter
    · rwa [updateConn_conns_of_ne _ hne] at hafter
  · intro c' hfile hafter
    rcases eq_or_ne c' c with rfl | hne
    · rw [updateConn_conns_self] at hafter
      exact heos hfile hafter
    · rwa [updateConn_conns_of_ne _ hne] at hafter

theorem Alert.updateConn_raise (h : Alert evs k) (c : ConnId) (g : Conn → Conn) :
    Alert evs ((k.updateConn c g).raise (.socket c)) := by
  apply Alert.raised h
  · rfl
  · rfl
  · rfl
  · intro f cause hne hcause
    exact pending_updateConn hcause (fun hfile => absurd hfile hne) fun hfile => absurd hfile hne

/-- A connection with less to read. -/
theorem Alert.updateConn (h : Alert evs k)
    (hunread : (g (k.conns c)).unread ≠ [] → (k.conns c).unread ≠ [])
    (heos : (g (k.conns c)).eos = (k.conns c).eos) : Alert evs (k.updateConn c g) := by
  apply h.calm
  · rfl
  · rfl
  · rfl
  · intro f cause hcause
    exact pending_updateConn hcause (fun _ => hunread) fun _ hafter => heos ▸ hafter

/-- Whatever arrives makes an edge pending. -/
theorem Alert.arrive (h : Alert evs k) (a : Arrival) : Alert evs (k.arrive a) := by
  cases a with
  | connect =>
      apply Alert.raised h
      · rfl
      · rfl
      · rfl
      · intro f cause hne hcause
        exact pending_mono hcause (fun hfile => absurd hfile hne) (fun _ _ => id) fun _ _ => id
  | vanish =>
      apply h.calm
      · rfl
      · rfl
      · rfl
      · intro f cause hcause
        apply pending_mono hcause
        · intro _ htail hnil
          apply htail
          change k.backlog.tail = []
          rw [hnil]
          rfl
        · exact fun _ _ => id
        · exact fun _ _ => id
  | expire =>
      apply Alert.raised h
      · rfl
      · rfl
      · rfl
      · intro f cause _ hcause
        exact pending_mono hcause (fun _ => id) (fun _ _ => id) fun _ _ => id
  | bytes c data | eos c | fail c err hup =>
      simp only [Kernel.arrive]
      split
      · exact h.updateConn_raise c _
      · exact h

/-- One descriptor changes, and nothing new waits at the others. -/
theorem Alert.changed (h : Alert evs k) (fd : Fd) {evs' : List EpollEvent}
    (hfiles : ∀ fd', fd' ≠ fd → k'.files fd' = k.files fd')
    (hinterest : ∀ fd', fd' ≠ fd → k'.interest fd' = k.interest fd')
    (hedges : ∀ fd', fd' ≠ fd → k'.edges fd' = k.edges fd')
    (hevs : ∀ ev ∈ evs, ev.fd ≠ fd → ev ∈ evs')
    (hpending : ∀ f cause, Cause.Pending k' f cause → Cause.Pending k f cause)
    (hclosed : k'.files fd = none → k'.interest fd = none)
    (hcovered : ∀ f cause, k'.files fd = some f → k'.interest fd ≠ none →
      Cause.Pending k' f cause → Covered evs' k' fd cause) : Alert evs' k' := by
  constructor
  · intro fd' hfile
    rcases eq_or_ne fd' fd with rfl | hne
    · exact hclosed hfile
    · rw [hfiles fd' hne] at hfile
      rw [hinterest fd' hne]
      exact h.closed fd' hfile
  · intro fd' f cause hfile hregistered hcause
    rcases eq_or_ne fd' fd with rfl | hne
    · exact hcovered f cause hfile hregistered hcause
    · rw [hfiles fd' hne] at hfile
      rw [hinterest fd' hne] at hregistered
      rcases h.covered fd' f cause hfile hregistered (hpending f cause hcause) with
        hedge | ⟨ev, hmem, rfl, hseen⟩
      · exact .inl ((hedges fd' hne).trans hedge)
      · exact .inr ⟨ev, hevs ev hmem hne, rfl, hseen⟩

/-- A new descriptor is not registered. -/
theorem Alert.opened (h : Alert evs k) (hfree : k.files fd = none) (f : File) :
    Alert evs { k with files := Function.update k.files fd (some f) } := by
  have hnone := h.closed fd hfree
  apply h.changed fd
  · intro fd' hne
    exact Function.update_of_ne hne _ _
  · exact fun _ _ => rfl
  · exact fun _ _ => rfl
  · exact fun _ hmem _ => hmem
  · exact fun _ _ hcause => pending_mono hcause (fun _ => id) (fun _ _ => id) fun _ _ => id
  · exact fun _ => hnone
  · exact fun _ _ _ hregistered _ => absurd hnone hregistered

/-- When a connection is accepted, the backlog gets shorter. -/
theorem Alert.accept (h : Alert evs k) (hfree : k.files fd = none) {rest : List ConnId}
    (hbacklog : k.backlog = c :: rest) :
    Alert evs { k with
      files := Function.update k.files fd (some (.socket c))
      backlog := rest } := by
  apply (h.opened hfree (.socket c)).calm
  · rfl
  · rfl
  · rfl
  · intro f cause hcause
    apply pending_mono hcause
    · intro _ _
      change k.backlog ≠ []
      rw [hbacklog]
      exact List.cons_ne_nil _ _
    · exact fun _ _ => id
    · exact fun _ _ => id

/-- A file that is ready already when it is registered makes an edge pending. -/
theorem Alert.epollAdd (h : Alert evs k) (fd : Fd) (data : Ptr) :
    Alert evs (k.epollAdd fd data).2 := by
  unfold Kernel.epollAdd
  cases hfd : k.files fd with
  | none => exact h
  | some f₀ =>
      dsimp only
      split
      · exact h
      have hpending : ∀ f cause, Cause.Pending { k with
          interest := Function.update k.interest fd (some data)
          edges := Function.update k.edges fd (k.readiness f₀).any } f cause →
          Cause.Pending k f cause := fun _ _ hcause =>
        pending_mono hcause (fun _ => id) (fun _ _ => id) fun _ _ => id
      apply h.changed fd
      · exact fun _ _ => rfl
      · intro fd' hne
        exact Function.update_of_ne hne _ _
      · intro fd' hne
        exact Function.update_of_ne hne _ _
      · exact fun _ hmem _ => hmem
      · exact hpending
      · intro hnone
        have hclosed : k.files fd = none := hnone
        rw [hfd] at hclosed
        cases hclosed
      · intro f cause hfile _ hcause
        have hopen : k.files fd = some f := hfile
        rw [hfd] at hopen
        obtain rfl := Option.some.inj hopen
        left
        have hseen := seen_of_pending (hpending _ _ hcause)
        exact (Function.update_self ..).trans (any_of_seen hseen)

/-- The events of a closed descriptor are not needed any more. -/
theorem Alert.close (h : Alert (ev :: evs) k) {f₀ : File} (hopen : k.files ev.fd = some f₀) :
    Alert evs (k.close ev.fd).2 := by
  rw [Kernel.close, hopen]
  apply h.changed ev.fd
  · intro fd' hne
    exact Function.update_of_ne hne _ _
  · intro fd' hne
    exact Function.update_of_ne hne _ _
  · intro fd' hne
    exact Function.update_of_ne hne _ _
  · intro ev' hmem hne
    rcases List.mem_cons.mp hmem with rfl | hmem
    · exact absurd rfl hne
    · exact hmem
  · exact fun _ _ hcause => pending_mono hcause (fun _ => id) (fun _ _ => id) fun _ _ => id
  · exact fun _ => Function.update_self ..
  · exact fun _ _ _ hregistered _ => absurd (Function.update_self ..) hregistered

/-- The edges that are cleared are in the batch, with what is pending there. -/
theorem Alert.wait (h : Alert [] k) (maxEvents : Nat) (chosen : List Fd) :
    Alert (k.epollWait maxEvents chosen).1 (k.epollWait maxEvents chosen).2 := by
  refine ⟨h.closed, fun fd f cause hfile hregistered hcause => ?_⟩
  have hbefore : Cause.Pending k f cause :=
    pending_mono hcause (fun _ => id) (fun _ _ => id) fun _ _ => id
  have hedge : k.edges fd = true := by
    rcases h.covered fd f cause hfile hregistered hbefore with hedge | ⟨ev, hmem, -⟩
    · exact hedge
    · cases hmem
  by_cases hdelivered : fd ∈ (chosen.dedup.filter k.edges).take maxEvents
  · obtain ⟨data, hdata⟩ := Option.ne_none_iff_exists'.mp hregistered
    have hinterest : k.interest fd = some data := hdata
    have hopen : k.files fd = some f := hfile
    have hevent : k.epollEvent fd =
        some { events := k.readiness f, data := data, fd := fd, object := f } := by
      rw [Kernel.epollEvent, hopen, hinterest]
    exact .inr ⟨_, List.mem_filterMap.mpr ⟨fd, hdelivered, hevent⟩, rfl, seen_of_pending hbefore⟩
  · left
    change (k.edges fd && !List.contains _ fd) = true
    rw [hedge, Bool.true_and, Bool.not_eq_true', List.contains_eq_mem, decide_eq_false_iff_not]
    exact hdelivered

/-- An event is done with when nothing of what it shows is pending any more. -/
theorem Alert.handled (h : Alert (ev :: evs) k)
    (hdone : ∀ f cause, k.files ev.fd = some f → cause.seen ev.events = true →
      ¬ Cause.Pending k f cause) : Alert evs k := by
  refine ⟨h.closed, fun fd f cause hfile hregistered hcause => ?_⟩
  rcases h.covered fd f cause hfile hregistered hcause with hedge | ⟨ev', hmem, rfl, hseen⟩
  · exact .inl hedge
  · rcases List.mem_cons.mp hmem with rfl | hmem
    · exact absurd hcause (hdone f cause hfile hseen)
    · exact .inr ⟨ev', hmem, rfl, hseen⟩

/-- Between batches what waits has a pending edge. -/
theorem Alert.edge (h : Alert [] k) (cause : Cause) (hfile : k.files fd = some f)
    (hregistered : k.interest fd ≠ none) (hcause : Cause.Pending k f cause) :
    k.edges fd = true := by
  rcases h.covered fd f cause hfile hregistered hcause with hedge | ⟨ev, hmem, -⟩
  · exact hedge
  · cases hmem

end Lemmas

end EchoServers.PendingEdges
