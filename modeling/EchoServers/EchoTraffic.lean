import EchoServers.EchoService
import EchoServers.HostLedger

/-!
The kernel of a running server, read as a state of the abstract service.
-/

namespace EchoServers.EchoTraffic

open EchoServers.EchoService
open EchoServers.HostLedger
open EchoServers.ServerBenchmark
open EchoServers.ServerUtils
open EchoServers.SocketKernel
open EchoServers.StateTriples
open EchoServers.Utils

/-- The stream of a connection, when the server has the bytes `held` in its hands. -/
def streamOf (con : Conn) (held : List Octet) : Stream Octet where
  received := con.sent
  echoed := con.transmitted
  pending := held ++ con.unread
  ended := con.eos
  failed := con.err || con.hup

/-- The bytes that the server has read and not sent back, by connection. -/
abbrev Hands := ConnId → List Octet

def emptyHands : Hands := fun _ => []

/-- The connection behind a file that was closed. -/
def socketOf : Fd × File → Option ConnId
  | (_, .socket c) => some c
  | _ => none

/-- The state `s` is what the kernel shows of the service. -/
structure Shows (k : Kernel) (held : Hands) (s : Service ConnId Octet) : Prop where
  unborn : ∀ c, s.phase c = .unborn ↔ k.connected ≤ c
  waiting : ∀ c, s.phase c = .waiting ↔ c ∈ k.backlog
  served : ∀ c, s.phase c = .served ↔ ∃ fd, k.files fd = some (.socket c)
  stream : ∀ c, s.stream c = streamOf (k.conns c) (held c)

section Shows

variable {k k' : Kernel} {held held' : Hands} {s : Service ConnId Octet} {c : ConnId}

theorem Shows.congr (h : Shows k held s) (hfiles : k'.files = k.files)
    (hconns : k'.conns = k.conns) (hbacklog : k'.backlog = k.backlog)
    (hconnected : k'.connected = k.connected) : Shows k' held s := by
  obtain ⟨hunborn, hwaiting, hserved, hstream⟩ := h
  constructor
  · rw [hconnected]
    exact hunborn
  · rw [hbacklog]
    exact hwaiting
  · rw [hfiles]
    exact hserved
  · rw [hconns]
    exact hstream

theorem Shows.raise (h : Shows k held s) (f : File) : Shows (k.raise f) held s :=
  h.congr rfl rfl rfl rfl

/-- A change of one connection, and of what the server has of it in its hands. -/
theorem Shows.updateConn (h : Shows k held s) {f : Stream Octet → Stream Octet}
    {g : Conn → Conn}
    (hchange : f (streamOf (k.conns c) (held c)) = streamOf (g (k.conns c)) (held' c))
    (hheld : ∀ c', c' ≠ c → held' c' = held c') :
    Shows (k.updateConn c g) held' (s.change c f) := by
  refine ⟨h.unborn, h.waiting, h.served, fun c' => ?_⟩
  rcases eq_or_ne c' c with rfl | hne
  · rw [change_stream_self, updateConn_conns_self, h.stream]
    exact hchange
  · rw [change_stream_of_ne hne, updateConn_conns_of_ne _ hne, hheld c' hne]
    exact h.stream c'

theorem Shows.phase_ne_unborn (h : Shows k held s) (hc : c < k.connected) :
    s.phase c ≠ .unborn := by
  intro hphase
  exact absurd ((h.unborn c).mp hphase) (Nat.not_le.mpr hc)

theorem Shows.connect (h : Shows k held s) (hconsistent : k.Consistent) :
    Shows { k with backlog := k.backlog ++ [k.connected], connected := k.connected + 1 } held
      (s.move k.connected .waiting) := by
  have hnew : ∀ c, c = k.connected → (∀ fd, k.files fd ≠ some (.socket c)) := by
    rintro c rfl fd hfd
    exact absurd (hconsistent.known fd _ hfd) (Nat.lt_irrefl _)
  refine ⟨fun c => ?_, fun c => ?_, fun c => ?_, h.stream⟩
  · rcases eq_or_ne c k.connected with rfl | hne
    · rw [move_phase_self]
      simp
    · rw [move_phase_of_ne hne, h.unborn]
      exact ⟨fun hle => Nat.lt_of_le_of_ne hle hne.symm, Nat.le_of_succ_le⟩
  · rcases eq_or_ne c k.connected with rfl | hne
    · rw [move_phase_self]
      simp
    · rw [move_phase_of_ne hne, h.waiting, List.mem_append, List.mem_singleton]
      exact ⟨.inl, fun hc => hc.resolve_right hne⟩
  · rcases eq_or_ne c k.connected with rfl | hne
    · rw [move_phase_self]
      refine ⟨nofun, ?_⟩
      rintro ⟨fd, hfd⟩
      exact absurd hfd (hnew _ rfl fd)
    · rw [move_phase_of_ne hne]
      exact h.served c

/-- The oldest waiting connection leaves the backlog. -/
theorem Shows.leave (h : Shows k held s) (hconsistent : k.Consistent) {rest : List ConnId}
    (hbacklog : k.backlog = c :: rest) {files : Fd → Option File} {p : Phase}
    (hp : p ≠ .unborn ∧ p ≠ .waiting)
    (hserved : p = .served ↔ ∃ fd, files fd = some (.socket c))
    (hfiles : ∀ c', c' ≠ c →
      ((∃ fd, files fd = some (.socket c')) ↔ ∃ fd, k.files fd = some (.socket c'))) :
    Shows { k with files := files, backlog := rest } held (s.move c p) := by
  have hwaiting := hconsistent.waiting c (hbacklog ▸ List.mem_cons_self)
  have hnodup := hconsistent.backlogNodup
  rw [hbacklog] at hnodup
  refine ⟨fun c' => ?_, fun c' => ?_, fun c' => ?_, h.stream⟩
  · rcases eq_or_ne c' c with rfl | hne
    · rw [move_phase_self]
      exact ⟨fun hphase => absurd hphase hp.1, fun hle => absurd hwaiting.1 (Nat.not_lt.mpr hle)⟩
    · rw [move_phase_of_ne hne]
      exact h.unborn c'
  · rcases eq_or_ne c' c with rfl | hne
    · rw [move_phase_self]
      exact ⟨fun hphase => absurd hphase hp.2,
        fun hmem => absurd hmem (List.nodup_cons.mp hnodup).1⟩
    · rw [move_phase_of_ne hne, h.waiting, hbacklog, List.mem_cons]
      exact ⟨fun hc' => hc'.resolve_left hne, .inr⟩
  · rcases eq_or_ne c' c with rfl | hne
    · rw [move_phase_self]
      exact hserved
    · rw [move_phase_of_ne hne, h.served]
      exact (hfiles c' hne).symm

/-- A file that is no socket was opened under a free number. -/
theorem Shows.opened (h : Shows k held s) {fd : Fd} (hfree : k.files fd = none) {f : File}
    (hf : ∀ c, f ≠ .socket c) {k' : Kernel}
    (hfiles : k'.files = Function.update k.files fd (some f)) (hconns : k'.conns = k.conns)
    (hbacklog : k'.backlog = k.backlog) (hconnected : k'.connected = k.connected) :
    Shows k' held s := by
  obtain ⟨hunborn, hwaiting, hserved, hstream⟩ := h
  constructor
  · rw [hconnected]
    exact hunborn
  · rw [hbacklog]
    exact hwaiting
  · intro c
    rw [hserved, hfiles]
    refine exists_congr fun fd' => ?_
    rcases eq_or_ne fd' fd with rfl | hne
    · rw [Function.update_self, hfree]
      refine ⟨nofun, fun hsome => absurd (Option.some.inj hsome) (hf c)⟩
    · rw [Function.update_of_ne hne]
  · rw [hconns]
    exact hstream

/-- The descriptor of a connection was closed. -/
theorem Shows.close (h : Shows k held s) (hconsistent : k.Consistent) {fd : Fd}
    (hfile : k.files fd = some (.socket c)) : Shows (k.close fd).2 held (s.move c .gone) := by
  have hbacklog : (k.close fd).2.backlog = k.backlog := by simp only [Kernel.close, hfile]
  have hconnected : (k.close fd).2.connected = k.connected := by simp only [Kernel.close, hfile]
  have hfiles : (k.close fd).2.files = Function.update k.files fd none := close_files
  refine Shows.congr (k := { k with files := Function.update k.files fd none }) ?_ hfiles
    close_conns hbacklog hconnected
  refine ⟨fun c' => ?_, fun c' => ?_, fun c' => ?_, h.stream⟩
  · rcases eq_or_ne c' c with rfl | hne
    · rw [move_phase_self]
      exact ⟨fun hgone => (by cases hgone),
        fun hle => absurd (hconsistent.known fd _ hfile) (Nat.not_lt.mpr hle)⟩
    · rw [move_phase_of_ne hne]
      exact h.unborn c'
  · rcases eq_or_ne c' c with rfl | hne
    · rw [move_phase_self]
      refine ⟨fun hgone => (by cases hgone), fun hmem => ?_⟩
      exact absurd hfile ((hconsistent.waiting c' hmem).2 fd)
    · rw [move_phase_of_ne hne]
      exact h.waiting c'
  · rcases eq_or_ne c' c with rfl | hne
    · rw [move_phase_self]
      refine ⟨fun hgone => (by cases hgone), ?_⟩
      rintro ⟨fd', hfd'⟩
      dsimp only at hfd'
      rcases eq_or_ne fd' fd with rfl | hne'
      · simp at hfd'
      · rw [Function.update_of_ne hne'] at hfd'
        exact absurd (hconsistent.unique fd' fd c' hfd' hfile) hne'
    · rw [move_phase_of_ne hne, h.served]
      refine exists_congr fun fd' => ?_
      dsimp only
      rcases eq_or_ne fd' fd with rfl | hne'
      · rw [Function.update_self, hfile]
        refine ⟨fun heq => ?_, fun hnone => by cases hnone⟩
        exact absurd (File.socket.inj (Option.some.inj heq)).symm hne
      · rw [Function.update_of_ne hne']

end Shows

/-- Some trace of the abstract service leads to what the kernel shows, with the
echoes and the closes that there were. -/
structure Traced (size : Nat) (mayClose : Stream Octet → Prop) (held : Hands) (k : Kernel)
    (echoed : List (List Octet)) : Prop where
  consistent : k.Consistent
  trace : ∃ trace s, Runs size mayClose trace s ∧ Shows k held s ∧ messages trace = echoed ∧
    closings trace = k.closes.filterMap socketOf

section Traced

variable {size : Nat} {mayClose : Stream Octet → Prop} {held held' : Hands} {k k' : Kernel}
  {echoed : List (List Octet)} {c : ConnId} {fd : Fd}

theorem traced_start {ls : Fd} :
    Traced size mayClose emptyHands
      { files := Function.update (fun _ => none) ls (some .listening) } [] := by
  have hfiles : ∀ fd c,
      Function.update (fun _ => none) ls (some File.listening) fd ≠ some (.socket c) := by
    intro fd c hfd
    rcases eq_or_ne fd ls with rfl | hne
    · rw [Function.update_self] at hfd
      cases hfd
    · rw [Function.update_of_ne hne] at hfd
      cases hfd
  constructor
  · exact ⟨fun fd _ c hfd => absurd hfd (hfiles fd c), fun fd c hfd => absurd hfd (hfiles fd c),
      fun c hc => absurd hc List.not_mem_nil, List.nodup_nil,
      fun c x hx => absurd hx List.not_mem_nil, fun c hc => absurd hc (Nat.not_lt_zero c)⟩
  · refine ⟨[], {}, .start, ⟨fun c => by simp, fun c => by simp, fun c => ?_, fun c => rfl⟩,
      rfl, rfl⟩
    refine ⟨nofun, ?_⟩
    rintro ⟨fd, hfd⟩
    exact absurd hfd (hfiles fd c)

/-- Registrations and pending edges do not matter. -/
theorem Traced.congr (h : Traced size mayClose held k echoed) (hfiles : k'.files = k.files)
    (hconns : k'.conns = k.conns) (hbacklog : k'.backlog = k.backlog)
    (hconnected : k'.connected = k.connected) (hvanished : k'.vanished = k.vanished)
    (hcloses : k'.closes = k.closes) : Traced size mayClose held k' echoed := by
  obtain ⟨hconsistent, trace, s, hruns, hshows, hechoed, hclosed⟩ := h
  constructor
  · apply hconsistent.congr hfiles hbacklog hconnected hvanished hcloses
    intro c
    rw [hconns]
    exact List.Subset.refl _
  · refine ⟨trace, s, hruns, hshows.congr hfiles hconns hbacklog hconnected, hechoed, ?_⟩
    rw [hcloses]
    exact hclosed

theorem epollAdd_conns (data : Ptr) : (k.epollAdd fd data).2.conns = k.conns := by
  unfold Kernel.epollAdd
  split
  · rfl
  · split_ifs <;> rfl

theorem Traced.epollAdd (h : Traced size mayClose held k echoed) (fd : Fd) (data : Ptr) :
    Traced size mayClose held (k.epollAdd fd data).2 echoed := by
  unfold Kernel.epollAdd
  split
  · exact h
  · split_ifs
    · exact h
    · exact h.congr rfl rfl rfl rfl rfl rfl

/-- One action of the service or of its environment. -/
theorem Traced.act (h : Traced size mayClose held k echoed) (hconsistent : k'.Consistent)
    {a : Action ConnId Octet} (hechoes : messages [a] = [])
    (hcloses : k'.closes.filterMap socketOf = k.closes.filterMap socketOf ++ closings [a])
    (hstep : ∀ s, Shows k held s → ∃ s', Step size mayClose s a s' ∧ Shows k' held s') :
    Traced size mayClose held k' echoed := by
  obtain ⟨-, trace, s, hruns, hshows, hechoed, hclosed⟩ := h
  obtain ⟨s', hact, hshows'⟩ := hstep s hshows
  refine ⟨hconsistent, trace ++ [a], s', hruns.step hact, hshows', ?_, ?_⟩
  · rw [messages_append, hechoes, List.append_nil]
    exact hechoed
  · rw [closings_append, hcloses, hclosed]

theorem Traced.arrive (h : Traced size mayClose held k echoed) (a : Arrival) :
    Traced size mayClose held (k.arrive a) echoed := by
  have hconsistent := h.consistent.arrive a
  have hcloses := arrive_closes (k := k) a
  cases a with
  | connect =>
      refine h.act hconsistent (a := .connect k.connected) rfl ?_ fun s hshows => ?_
      · rw [hcloses]
        exact (List.append_nil _).symm
      · refine ⟨_, .connect ((hshows.unborn _).mpr (Nat.le_refl _)), ?_⟩
        exact (hshows.connect h.consistent).congr rfl rfl rfl rfl
  | vanish =>
      cases hbacklog : k.backlog with
      | nil =>
          have hsame : (k.arrive .vanish).vanished = k.vanished := by
            simp only [Kernel.arrive, hbacklog, List.head?_nil, Option.toList_none, List.append_nil]
          exact h.congr rfl rfl (by simp [Kernel.arrive, hbacklog]) rfl hsame rfl
      | cons c rest =>
          refine h.act hconsistent (a := .vanish c) rfl ?_ fun s hshows => ?_
          · rw [hcloses]
            exact (List.append_nil _).symm
          · have hwaiting : c ∈ k.backlog := hbacklog ▸ List.mem_cons_self
            refine ⟨_, .vanish ((hshows.waiting c).mpr hwaiting), ?_⟩
            have hnot := (h.consistent.waiting c hwaiting).2
            have hserved : Phase.gone = .served ↔ ∃ fd, k.files fd = some (.socket c) := by
              constructor
              · intro hgone
                cases hgone
              · rintro ⟨fd, hfd⟩
                exact absurd hfd (hnot fd)
            refine (hshows.leave h.consistent hbacklog (by simp) hserved
              fun _ _ => Iff.rfl).congr rfl rfl ?_ rfl
            simp [Kernel.arrive, hbacklog]
  | expire => exact h.congr rfl rfl rfl rfl rfl rfl
  | bytes c data =>
      simp only [Kernel.arrive] at hconsistent hcloses ⊢
      split_ifs at hconsistent hcloses ⊢ with hbytes
      · refine h.act hconsistent (a := .receive c (tag c data)) rfl ?_ fun s hshows => ?_
        · exact (List.append_nil _).symm
        · refine ⟨_, .receive _ (hshows.phase_ne_unborn hbytes.1) ?_, ?_⟩
          · rw [hshows.stream c]
            exact hbytes.2
          · refine Shows.raise (hshows.updateConn ?_ fun _ _ => rfl) _
            simp only [streamOf, List.append_assoc]
      · exact h
  | eos c =>
      simp only [Kernel.arrive] at hconsistent hcloses ⊢
      split_ifs at hconsistent hcloses ⊢ with hconnected
      · refine h.act hconsistent (a := .finish c) rfl ?_ fun s hshows => ?_
        · exact (List.append_nil _).symm
        · refine ⟨_, .finish (hshows.phase_ne_unborn hconnected), ?_⟩
          exact Shows.raise (hshows.updateConn rfl fun _ _ => rfl) _
      · exact h
  | fail c err hup =>
      simp only [Kernel.arrive] at hconsistent hcloses ⊢
      split_ifs at hconsistent hcloses ⊢ with hconnected
      · cases hfailed : err || hup with
        | true =>
            refine h.act hconsistent (a := .fail c) rfl ?_ fun s hshows => ?_
            · exact (List.append_nil _).symm
            · refine ⟨_, .fail (hshows.phase_ne_unborn hconnected), ?_⟩
              refine Shows.raise (hshows.updateConn ?_ fun _ _ => rfl) _
              cases err with
              | true => simp [streamOf]
              | false => simp [streamOf, show hup = true from hfailed]
        | false =>
            rw [Bool.or_eq_false_iff] at hfailed
            refine h.congr rfl ?_ rfl rfl rfl rfl
            funext c'
            rw [raise_conns]
            rcases eq_or_ne c' c with rfl | hne
            · simp [hfailed]
            · rw [updateConn_conns_of_ne _ hne]
      · exact h

/-- The server accepts the oldest waiting connection. -/
theorem Traced.accept (h : Traced size mayClose held k echoed) {rest : List ConnId}
    (hbacklog : k.backlog = c :: rest) (hfree : k.files fd = none) :
    Traced size mayClose held { k with
      files := Function.update k.files fd (some (.socket c))
      backlog := rest } echoed := by
  have hwaiting : c ∈ k.backlog := hbacklog ▸ List.mem_cons_self
  refine h.act (h.consistent.accept hbacklog fd hfree) (a := .accept c) rfl ?_ fun s hshows => ?_
  · exact (List.append_nil _).symm
  · refine ⟨_, .accept ((hshows.waiting c).mpr hwaiting), ?_⟩
    apply hshows.leave h.consistent hbacklog (by simp)
    · exact ⟨fun _ => ⟨fd, Function.update_self ..⟩, fun _ => rfl⟩
    · intro c' hne
      refine exists_congr fun fd' => ?_
      rcases eq_or_ne fd' fd with rfl | hne'
      · rw [Function.update_self, hfree]
        refine ⟨fun heq => ?_, fun hnone => by cases hnone⟩
        exact absurd (File.socket.inj (Option.some.inj heq)).symm hne
      · rw [Function.update_of_ne hne']

/-- A file that is no socket was opened. -/
theorem Traced.opened (h : Traced size mayClose held k echoed) (hfree : k.files fd = none)
    {f : File} (hf : ∀ c, f ≠ .socket c)
    (hfiles : k'.files = Function.update k.files fd (some f)) (hconns : k'.conns = k.conns)
    (hbacklog : k'.backlog = k.backlog) (hconnected : k'.connected = k.connected)
    (hvanished : k'.vanished = k.vanished) (hcloses : k'.closes = k.closes) :
    Traced size mayClose held k' echoed := by
  obtain ⟨hconsistent, trace, s, hruns, hshows, hechoed, hclosed⟩ := h
  have hsockets : ∀ fd' c, k'.files fd' = some (.socket c) → k.files fd' = some (.socket c) := by
    intro fd' c hfd'
    rw [hfiles] at hfd'
    rcases eq_or_ne fd' fd with rfl | hne
    · rw [Function.update_self] at hfd'
      exact absurd (Option.some.inj hfd') (hf c)
    · rwa [Function.update_of_ne hne] at hfd'
  constructor
  · obtain ⟨hunique, hknown, hwaiting, hnodup, horigin, hplace⟩ := hconsistent
    constructor
    · intro fd₁ fd₂ c h₁ h₂
      exact hunique fd₁ fd₂ c (hsockets _ _ h₁) (hsockets _ _ h₂)
    · rw [hconnected]
      exact fun fd₁ c h₁ => hknown fd₁ c (hsockets _ _ h₁)
    · rw [hbacklog, hconnected]
      exact fun c hc => ⟨(hwaiting c hc).1, fun fd₁ h₁ => (hwaiting c hc).2 fd₁ (hsockets _ _ h₁)⟩
    · rw [hbacklog]
      exact hnodup
    · rw [hconns]
      exact horigin
    · rw [hbacklog, hconnected, hvanished, hcloses]
      intro c hc
      refine (hplace c hc).imp_right fun hor => hor.imp_left ?_
      rintro ⟨fd', hfd'⟩
      have hne : fd' ≠ fd := by
        rintro rfl
        rw [hfree] at hfd'
        cases hfd'
      exact ⟨fd', by rw [hfiles, Function.update_of_ne hne, hfd']⟩
  · refine ⟨trace, s, hruns, hshows.opened hfree hf hfiles hconns hbacklog hconnected, hechoed, ?_⟩
    rw [hcloses]
    exact hclosed

/-- The first unread bytes of a connection go to the hands of the server. -/
theorem Traced.take (h : Traced size mayClose held k echoed) {n : Nat}
    (hheld : held' = Function.update held c (held c ++ (k.conns c).unread.take n)) :
    Traced size mayClose held' (k.updateConn c fun con =>
      { con with unread := con.unread.drop n }) echoed := by
  obtain ⟨hconsistent, trace, s, hruns, hshows, hechoed, hclosed⟩ := h
  refine ⟨hconsistent.updateConn (List.drop_subset _ _), trace, s, hruns, ?_, hechoed, hclosed⟩
  have hsame : s.change c id = s := by
    unfold Service.change
    rw [id, Function.update_eq_self]
  rw [← hsame]
  apply hshows.updateConn
  · rw [hheld, Function.update_self]
    simp only [streamOf, id, List.append_assoc, List.take_append_drop]
  · intro c' hne
    rw [hheld, Function.update_of_ne hne]

/-- A message in the hands of the server is sent back. -/
theorem Traced.echo {data : List Octet}
    (h : Traced size mayClose (Function.update held c data) k echoed)
    (hlength : data.length = size) (hnone : held c = []) (hfile : k.files fd = some (.socket c)) :
    Traced size mayClose held (k.updateConn c fun con =>
      { con with transmitted := con.transmitted ++ data }) (echoed ++ [data]) := by
  obtain ⟨hconsistent, trace, s, hruns, hshows, hechoed, hclosed⟩ := h
  have hstream := hshows.stream c
  rw [Function.update_self] at hstream
  have hpending : (s.stream c).pending = data ++ (k.conns c).unread := by
    rw [hstream]
    rfl
  refine ⟨hconsistent.updateConn (List.Subset.refl _), trace ++ [.echo c data], _,
    hruns.step (.echo ((hshows.served c).mpr ⟨fd, hfile⟩) hlength hpending), ?_, ?_, ?_⟩
  · apply hshows.updateConn
    · rw [Function.update_self, hnone]
      rfl
    · intro c' hne
      rw [Function.update_of_ne hne]
  · rw [messages_append, hechoed]
    rfl
  · rw [closings_append, hclosed]
    exact List.append_nil _

/-- A descriptor is closed; if it is that of a connection, this may be closed. -/
theorem Traced.close (h : Traced size mayClose held k echoed)
    (hmay : ∀ c, k.files fd = some (.socket c) → mayClose (streamOf (k.conns c) (held c))) :
    Traced size mayClose held (k.close fd).2 echoed := by
  have hconsistent := h.consistent.close fd
  cases hfile : k.files fd with
  | none =>
      have hsame : (k.close fd).2 = k := by simp only [Kernel.close, hfile]
      rw [hsame]
      exact h
  | some f =>
      have hcloses : (k.close fd).2.closes = k.closes ++ [(fd, f)] := by
        simp only [Kernel.close, hfile]
      by_cases hsocket : ∃ c, f = .socket c
      · obtain ⟨c, rfl⟩ := hsocket
        refine h.act hconsistent (a := .close c) rfl ?_ fun s hshows => ?_
        · rw [hcloses, List.filterMap_append]
          rfl
        · refine ⟨_, .close ((hshows.served c).mpr ⟨fd, hfile⟩) ?_, hshows.close h.consistent hfile⟩
          rw [hshows.stream c]
          exact hmay c hfile
      · obtain ⟨-, trace, s, hruns, hshows, hechoed, hclosed⟩ := h
        have hfiles : (k.close fd).2.files = Function.update k.files fd none := close_files
        have hbacklog : (k.close fd).2.backlog = k.backlog := by simp only [Kernel.close, hfile]
        have hconnected : (k.close fd).2.connected = k.connected := by
          simp only [Kernel.close, hfile]
        refine ⟨hconsistent, trace, s, hruns, ⟨?_, ?_, fun c => ?_, ?_⟩, hechoed, ?_⟩
        · rw [hconnected]
          exact hshows.unborn
        · rw [hbacklog]
          exact hshows.waiting
        · rw [hshows.served, hfiles]
          refine exists_congr fun fd' => ?_
          rcases eq_or_ne fd' fd with rfl | hne
          · rw [Function.update_self, hfile]
            refine ⟨fun heq => ?_, fun hnone => by cases hnone⟩
            exact absurd ⟨c, Option.some.inj heq⟩ hsocket
          · rw [Function.update_of_ne hne]
        · rw [close_conns]
          exact hshows.stream
        · rw [hcloses, List.filterMap_append, ← hclosed]
          have hnone : socketOf (fd, f) = none := by
            cases f with
            | socket c => exact absurd ⟨c, rfl⟩ hsocket
            | listening | timer | epoll => rfl
          rw [List.filterMap_cons, hnone]
          exact (List.append_nil _).symm

end Traced

section Outside

variable {ρ κ α β τ : Type} {view : α → τ}

/-- What can be seen of a server from the outside, with its benchmark and a
`view` of its variables. -/
def outside (view : α → τ) (w : HostWorld ρ κ α) :
    Kernel × ServerBench × List Echo × List Fd × List Nat × Samples × τ :=
  (w.kernel, w.bench, w.echoes, w.accepts, w.batches, w.samples, view w.app)

/-- The program works on the memory of the server only. -/
abbrev KeepsOutside (view : α → τ) (x : Program (HostWorld ρ κ α) β) : Prop :=
  Preserves (outside view) (fun _ => True) x

theorem keepsOutside_hostFault (f : Fault) :
    KeepsOutside view (hostFault f : Program (HostWorld ρ κ α) PUnit) :=
  Preserves.modify fun _ => rfl

theorem keepsOutside_whenTrue {c : Prop} [Decidable c] {x : Program (HostWorld ρ κ α) PUnit}
    (hx : KeepsOutside view x) : KeepsOutside view (whenTrue c x) :=
  Preserves.ite hx (Preserves.pure _)

theorem keepsOutside_whenNonNull {π : Type} {q : Option π}
    {x : π → Program (HostWorld ρ κ α) PUnit} (hx : ∀ r, KeepsOutside view (x r)) :
    KeepsOutside view (whenNonNull q x) := by
  cases q with
  | none => exact Preserves.pure _
  | some r => exact hx r

theorem keepsOutside_exitFailure (text : String) :
    KeepsOutside view (exitFailure text : Program (HostWorld ρ κ α) β) :=
  Preserves.throw trivial

theorem keepsOutside_assertZero (code : Int) (text : String) :
    KeepsOutside view (assertZero code text : Program (HostWorld ρ κ α) PUnit) :=
  Preserves.ite (keepsOutside_exitFailure text) (Preserves.pure _)

theorem keepsOutside_assertNnull (isNull : Bool) (text : String) :
    KeepsOutside view (assertNnull isNull text : Program (HostWorld ρ κ α) PUnit) :=
  Preserves.ite (keepsOutside_exitFailure text) (Preserves.pure _)

theorem keepsOutside_freeCon (p : Ptr) :
    KeepsOutside view (freeCon p : Program (HostWorld ρ κ α) PUnit) := by
  apply Preserves.get_bind
  intro w
  cases w.cons p with
  | some con => exact Preserves.modify fun _ => rfl
  | none => exact keepsOutside_hostFault _

theorem keepsOutside_modifyCon (p : Ptr) (f : κ → κ) :
    KeepsOutside view (modifyCon p f : Program (HostWorld ρ κ α) PUnit) := by
  apply Preserves.get_bind
  intro w
  cases w.cons p with
  | some con => exact Preserves.modify fun _ => rfl
  | none => exact keepsOutside_hostFault _

end Outside

/-- What is true of the connections stays true whatever happens to them, while
only those with `S` are read. -/
structure Lasting (S : ConnId → Prop) (L : (ConnId → Conn) → Prop) : Prop where
  arrive : ∀ (k : Kernel) (a : Arrival), L k.conns → L (k.arrive a).conns
  read : ∀ (k : Kernel) (c : ConnId) (n : Nat), S c → L k.conns →
    L (k.updateConn c fun con => { con with unread := con.unread.drop n }).conns
  write : ∀ (k : Kernel) (c : ConnId) (data : List Octet), L k.conns →
    L (k.updateConn c fun con => { con with transmitted := con.transmitted ++ data }).conns

section Lasting

variable {S : ConnId → Prop} {L : (ConnId → Conn) → Prop}

theorem lasting_true : Lasting S fun _ => True :=
  ⟨fun _ _ _ => trivial, fun _ _ _ _ _ => trivial, fun _ _ _ _ => trivial⟩

theorem lasting_forall {ι : Sort*} {L : ι → (ConnId → Conn) → Prop} (h : ∀ i, Lasting S (L i)) :
    Lasting S fun conns => ∀ i, L i conns :=
  ⟨fun k a hk i => (h i).arrive k a (hk i), fun k c n hc hk i => (h i).read k c n hc (hk i),
    fun k c data hk i => (h i).write k c data (hk i)⟩

theorem lasting_and {L L' : (ConnId → Conn) → Prop} (h : Lasting S L) (h' : Lasting S L') :
    Lasting S fun conns => L conns ∧ L' conns :=
  ⟨fun k a hk => ⟨h.arrive k a hk.1, h'.arrive k a hk.2⟩,
    fun k c n hc hk => ⟨h.read k c n hc hk.1, h'.read k c n hc hk.2⟩,
    fun k c data hk => ⟨h.write k c data hk.1, h'.write k c data hk.2⟩⟩

theorem Lasting.mono {S' : ConnId → Prop} (h : Lasting S L) (hsub : ∀ c, S' c → S c) :
    Lasting S' L :=
  ⟨h.arrive, fun k c n hc hk => h.read k c n (hsub c hc) hk, h.write⟩

theorem arrive_conns_of_ne {k : Kernel} {c : ConnId} (a : Arrival)
    (hbytes : ∀ data, a ≠ .bytes c data) (heos : a ≠ .eos c)
    (hfail : ∀ err hup, a ≠ .fail c err hup) : (k.arrive a).conns c = k.conns c := by
  cases a with
  | connect | vanish | expire => rfl
  | bytes c' data =>
      have hne : c ≠ c' := by
        rintro rfl
        exact hbytes data rfl
      simp only [Kernel.arrive]
      split_ifs
      · rw [raise_conns, updateConn_conns_of_ne _ hne]
      · rfl
  | eos c' =>
      have hne : c ≠ c' := by
        rintro rfl
        exact heos rfl
      simp only [Kernel.arrive]
      split_ifs
      · rw [raise_conns, updateConn_conns_of_ne _ hne]
      · rfl
  | fail c' err hup =>
      have hne : c ≠ c' := by
        rintro rfl
        exact hfail err hup rfl
      simp only [Kernel.arrive]
      split_ifs
      · rw [raise_conns, updateConn_conns_of_ne _ hne]
      · rfl

/-- A flag that is set is never cleared. -/
theorem lasting_of_flag (c : ConnId) {P : Conn → Prop}
    (hbytes : ∀ (con : Conn) (data : List Octet), con.eos = false → P con →
      P { con with unread := con.unread ++ data, sent := con.sent ++ data })
    (heos : ∀ con : Conn, P con → P { con with eos := true })
    (hfail : ∀ (con : Conn) (err hup : Bool), P con →
      P { con with err := con.err || err, hup := con.hup || hup })
    (hread : ∀ (con : Conn) (n : Nat), S c → P con → P { con with unread := con.unread.drop n })
    (hwrite : ∀ (con : Conn) (data : List Octet), P con →
      P { con with transmitted := con.transmitted ++ data }) :
    Lasting S fun conns => P (conns c) := by
  constructor
  · intro k a h
    by_cases hself : (∃ data, a = .bytes c data) ∨ a = .eos c ∨ ∃ err hup, a = .fail c err hup
    · rcases hself with ⟨data, rfl⟩ | rfl | ⟨err, hup, rfl⟩
      · simp only [Kernel.arrive]
        split_ifs with hopen
        · rw [raise_conns, updateConn_conns_self]
          exact hbytes _ _ hopen.2 h
        · exact h
      · simp only [Kernel.arrive]
        split_ifs
        · rw [raise_conns, updateConn_conns_self]
          exact heos _ h
        · exact h
      · simp only [Kernel.arrive]
        split_ifs
        · rw [raise_conns, updateConn_conns_self]
          exact hfail _ _ _ h
        · exact h
    · rw [not_or, not_or, not_exists, not_exists] at hself
      obtain ⟨hnbytes, hneos, hnfail⟩ := hself
      rw [arrive_conns_of_ne a hnbytes hneos fun err hup heq => hnfail err ⟨hup, heq⟩]
      exact h
  · intro k c' n hc h
    rcases eq_or_ne c c' with rfl | hne
    · rw [updateConn_conns_self]
      exact hread _ n hc h
    · rw [updateConn_conns_of_ne _ hne]
      exact h
  · intro k c' data h
    rcases eq_or_ne c c' with rfl | hne
    · rw [updateConn_conns_self]
      exact hwrite _ data h
    · rw [updateConn_conns_of_ne _ hne]
      exact h

theorem lasting_eos (c : ConnId) : Lasting S fun conns => (conns c).eos = true :=
  lasting_of_flag (P := fun con => con.eos = true) c (fun _ _ _ h => h) (fun _ _ => rfl)
    (fun _ _ _ h => h) (fun _ _ _ h => h) fun _ _ h => h

theorem lasting_failed (c : ConnId) :
    Lasting S fun conns => ((conns c).err || (conns c).hup) = true := by
  refine lasting_of_flag (P := fun con => (con.err || con.hup) = true) c (fun _ _ _ h => h)
    (fun _ h => h) (fun con err hup h => ?_) (fun _ _ _ h => h) fun _ _ h => h
  change (con.err || err || (con.hup || hup)) = true
  rw [Bool.or_eq_true] at h
  rcases h with h | h <;> simp [h]

/-- Bytes that wait on a connection go on waiting until they are read. -/
theorem lasting_unread {c : ConnId} (hc : ¬ S c) :
    Lasting S fun conns => (conns c).unread ≠ [] := by
  refine lasting_of_flag (P := fun con => con.unread ≠ []) c ?_ (fun _ h => h) (fun _ _ _ h => h)
    (fun _ _ hread _ => absurd hread hc) fun _ _ h => h
  intro con data _ h hnil
  exact h (List.append_eq_nil_iff.mp hnil).1

/-- Nothing that was sent is left to be read. -/
def Drained (con : Conn) : Prop :=
  con.unread = [] ∧ con.eos = true

theorem lasting_drained (c : ConnId) : Lasting S fun conns => Drained (conns c) := by
  refine lasting_of_flag (P := Drained) c ?_ (fun con h => ⟨h.1, rfl⟩) (fun con err hup h => h)
    (fun con n _ h => ⟨?_, h.2⟩) fun con data h => h
  · intro con data hopen h
    rw [h.2] at hopen
    cases hopen
  · change con.unread.drop n = []
    rw [h.1, List.drop_nil]

/-- The bytes that were sent on a connection carry its number. -/
def Own (conns : ConnId → Conn) : Prop :=
  ∀ c, ∀ x ∈ (conns c).sent, x.origin = some c

theorem own_change {k : Kernel} {c : ConnId} {f : Conn → Conn} (h : Own k.conns)
    (hf : ∀ x ∈ (f (k.conns c)).sent, x.origin = some c) : Own (k.updateConn c f).conns := by
  intro c' x hx
  rcases eq_or_ne c' c with rfl | hne
  · rw [updateConn_conns_self] at hx
    exact hf x hx
  · rw [updateConn_conns_of_ne _ hne] at hx
    exact h c' x hx

theorem lasting_own : Lasting S Own := by
  constructor
  · intro k a h
    cases a with
    | connect | vanish | expire => exact h
    | bytes c data =>
        simp only [Kernel.arrive]
        split_ifs
        · rw [raise_conns]
          refine own_change (c := c) h fun x hx => ?_
          rcases List.mem_append.mp hx with hx | hx
          · exact h c x hx
          · obtain ⟨value, -, rfl⟩ := List.mem_map.mp hx
            rfl
        · exact h
    | eos c | fail c err hup =>
        simp only [Kernel.arrive]
        split_ifs
        · rw [raise_conns]
          exact own_change (c := c) h (h c)
        · exact h
  · intro k c n _ h
    exact own_change h (h c)
  · intro k c data h
    exact own_change h (h c)

end Lasting

section Streams

variable {size : Nat} {mayClose : Stream Octet → Prop} {held : Hands} {k : Kernel}
  {echoed : List (List Octet)} {c : ConnId}

/-- The streams of a connection: what was sent is what was transmitted with what
is unread, whole messages were transmitted, and every byte is the connection's own. -/
structure Echoing (size : Nat) (k : Kernel) (c : ConnId) : Prop where
  whole : (k.conns c).sent = (k.conns c).transmitted ++ (k.conns c).unread
  messages : size ∣ (k.conns c).transmitted.length
  own : ∀ x ∈ (k.conns c).transmitted, x.origin = some c

/-- What was sent has been transmitted, or is held, or is unread. -/
theorem Traced.conserved (h : Traced size mayClose held k echoed) (c : ConnId) :
    (k.conns c).sent = (k.conns c).transmitted ++ (held c ++ (k.conns c).unread) := by
  obtain ⟨-, trace, s, hruns, hshows, -, -⟩ := h
  have hconserved := hruns.conserved c
  rw [hshows.stream c] at hconserved
  exact hconserved

/-- What was transmitted consists of whole messages. -/
theorem Traced.dvd_transmitted (h : Traced size mayClose held k echoed) (c : ConnId) :
    size ∣ (k.conns c).transmitted.length := by
  obtain ⟨-, trace, s, hruns, hshows, -, -⟩ := h
  have hdvd := hruns.dvd_echoed c
  rw [hshows.stream c] at hdvd
  exact hdvd

theorem Traced.echoing (h : Traced size mayClose emptyHands k echoed) (hown : Own k.conns)
    (c : ConnId) : Echoing size k c := by
  have hwhole : (k.conns c).sent = (k.conns c).transmitted ++ (k.conns c).unread := h.conserved c
  refine ⟨hwhole, h.dvd_transmitted c, fun x hx => hown c x ?_⟩
  rw [hwhole]
  exact List.mem_append_left _ hx

/-- All bytes of the message were received on the connection `c`. -/
def ReceivedOn (c : ConnId) (message : List Octet) : Prop :=
  ∀ x ∈ message, x.origin = some c

instance (c : ConnId) (message : List Octet) : Decidable (ReceivedOn c message) :=
  inferInstanceAs (Decidable (∀ x ∈ message, x.origin = some c))

/-- What was transmitted on a connection are the messages received on it, in
order. -/
theorem Traced.transmitted_eq (h : Traced size mayClose emptyHands k echoed) (hown : Own k.conns)
    (hsize : 0 < size) (c : ConnId) :
    (k.conns c).transmitted = (echoed.filter fun message => ReceivedOn c message).flatten := by
  obtain ⟨-, trace, s, hruns, hshows, hechoed, -⟩ := h
  have howner : ∀ c, ∀ x ∈ (s.stream c).received, x.origin = some c := by
    intro c x hx
    rw [hshows.stream c] at hx
    exact hown c x hx
  have htransmitted := hruns.echoed_eq c
  rw [hshows.stream c, hruns.messagesOn_eq hsize howner, hechoed] at htransmitted
  exact htransmitted

/-- No connection is closed twice. -/
theorem Traced.nodup_closes (h : Traced size mayClose held k echoed) :
    (k.closes.filterMap socketOf).Nodup := by
  obtain ⟨-, trace, s, hruns, -, -, hclosed⟩ := h
  rw [← hclosed]
  exact hruns.lived.closedOnce

theorem mem_closings {fd : Fd} {closes : List (Fd × File)} (h : (fd, .socket c) ∈ closes) :
    c ∈ closes.filterMap socketOf :=
  List.mem_filterMap.mpr ⟨_, h, rfl⟩

/-- A connection that was closed is behind no descriptor. -/
theorem Traced.files_ne (h : Traced size mayClose held k echoed)
    (hc : c ∈ k.closes.filterMap socketOf) (fd : Fd) : k.files fd ≠ some (.socket c) := by
  obtain ⟨-, trace, s, hruns, hshows, -, hclosed⟩ := h
  rw [← hclosed] at hc
  intro hfile
  have hserved := (hshows.served c).mpr ⟨fd, hfile⟩
  rw [(hruns.lived.closed c hc).1] at hserved
  cases hserved

/-- The peer of a connection that was closed has finished. -/
theorem Traced.finished (h : Traced size mayClose held k echoed)
    (hmay : ∀ x, mayClose x → x.ended = true) (hc : c ∈ k.closes.filterMap socketOf) :
    (k.conns c).eos = true := by
  obtain ⟨-, trace, s, hruns, hshows, -, hclosed⟩ := h
  rw [← hclosed] at hc
  have hended := hruns.of_mem_closings hmay (fun _ _ hx _ => hx) (fun _ _ => rfl) (fun _ hx => hx)
    c hc
  rw [hshows.stream c] at hended
  exact hended

/-- A connection that may only be closed at its end was closed when all that was sent
on it had been transmitted. -/
theorem Traced.exhausted (h : Traced size mayClose held k echoed)
    (hmay : ∀ x, mayClose x → x.pending = [] ∧ x.ended = true)
    (hc : c ∈ k.closes.filterMap socketOf) : (k.conns c).transmitted = (k.conns c).sent := by
  obtain ⟨-, trace, s, hruns, hshows, -, hclosed⟩ := h
  rw [← hclosed] at hc
  have hechoed := hruns.echoed_of_exhausted hmay c hc
  rw [hshows.stream c] at hechoed
  exact hechoed

/-- All that was sent on a connection that was closed has been transmitted,
unless it failed. -/
theorem Traced.answered (h : Traced size mayClose emptyHands k echoed)
    (hmay : ∀ x, mayClose x → x.failed = true ∨ x.pending = [] ∧ x.ended = true)
    (hc : c ∈ k.closes.filterMap socketOf) (herr : (k.conns c).err = false)
    (hhup : (k.conns c).hup = false) : (k.conns c).transmitted = (k.conns c).sent := by
  obtain ⟨-, trace, s, hruns, hshows, -, hclosed⟩ := h
  rw [← hclosed] at hc
  have hechoed := hruns.echoed_of_closed hmay c hc
  rw [hshows.stream c] at hechoed
  refine hechoed.resolve_left fun hfailed => ?_
  change ((k.conns c).err || (k.conns c).hup) = true at hfailed
  rw [herr, hhup] at hfailed
  cases hfailed

end Streams

section Calls

variable {ρ κ α β : Type} {size : Nat} {mayClose : Stream Octet → Prop} {held : Hands}
  {S : ConnId → Prop} {L : (ConnId → Conn) → Prop} {τ : Type} {view : α → τ}

/-- Some trace of the abstract service leads to the state of the server, and `L`
is true of the connections. -/
structure Traffic (size : Nat) (mayClose : Stream Octet → Prop) (L : (ConnId → Conn) → Prop)
    (held : Hands) (w : HostWorld ρ κ α) : Prop where
  traced : Traced size mayClose held w.kernel (w.echoes.map Echo.message)
  known : L w.kernel.conns

theorem stable_traffic (hL : Lasting S L) :
    Stable (Traffic size mayClose L held : HostWorld ρ κ α → Prop) := by
  constructor
  · intro w a h
    exact ⟨h.traced.arrive a, hL.arrive _ a h.known⟩
  · intro w s h
    exact ⟨h.traced, h.known⟩

theorem Traffic.congr {w w' : HostWorld ρ κ α} (h : Traffic size mayClose L held w)
    (hsame : outside view w' = outside view w) : Traffic size mayClose L held w' := by
  have hkernel : w'.kernel = w.kernel := congrArg Prod.fst hsame
  have hechoes : w'.echoes = w.echoes := congrArg (fun v => v.2.2.1) hsame
  constructor
  · rw [hkernel, hechoes]
    exact h.traced
  · rw [hkernel]
    exact h.known

theorem triple_keepsOutside {x : Program (HostWorld ρ κ α) β} (hx : KeepsOutside view x) :
    Triple (Traffic size mayClose L held) x fun _ => Traffic size mayClose L held := by
  intro w hw a w' hrun
  exact hw.congr (hx.keeps (fun v => v = outside view w) w rfl a w' hrun)

theorem traffic_modifyHostBench (f : ServerBench → ServerBench) :
    Triple (Traffic size mayClose L held)
      (modifyHostBench f : Program (HostWorld ρ κ α) PUnit) fun _ =>
      Traffic size mayClose L held :=
  Triple.modify fun _ h => ⟨h.traced, h.known⟩

/-- The connection with the descriptor `fd` is drained, if there is one. -/
def DrainedAt (fd : Fd) (w : HostWorld ρ κ α) : Prop :=
  ∀ c, w.kernel.files fd = some (.socket c) → Drained (w.kernel.conns c)

/-- The file `f` is behind the descriptor. -/
def Behind (fd : Fd) (f : File) (w : HostWorld ρ κ α) : Prop :=
  w.kernel.files fd = some f

theorem stable_behind {fd : Fd} {f : File} :
    Stable (Behind fd f : HostWorld ρ κ α → Prop) := by
  constructor
  · intro w a h
    rw [Behind, HostWorld.arrive, arrive_files]
    exact h
  · intro w s h
    exact h

theorem stable_and {P Q : HostWorld ρ κ α → Prop} (hP : Stable P) (hQ : Stable Q) :
    Stable fun w => P w ∧ Q w :=
  ⟨fun w a h => ⟨hP.arrive w a h.1, hQ.arrive w a h.2⟩,
    fun w s h => ⟨hP.sched w s h.1, hQ.sched w s h.2⟩⟩

/-- The server has bytes of a connection in its hands, or knows `Z` when it has
none although there is `room`. -/
def InHand (size : Nat) (mayClose : Stream Octet → Prop) (L : (ConnId → Conn) → Prop) (Z : Prop)
    (fd : Fd) (room : Nat) (data : List Octet) (w : HostWorld ρ κ α) : Prop :=
  data.length ≤ room ∧ ∃ c, w.kernel.files fd = some (.socket c) ∧
    Traffic size mayClose L (Function.update emptyHands c data) w ∧
      (0 < room → data = [] → Z ∧ Drained (w.kernel.conns c))

theorem stable_inHand (hL : Lasting S L) {Z : Prop} {fd : Fd} {room : Nat} {data : List Octet} :
    Stable (InHand size mayClose L Z fd room data : HostWorld ρ κ α → Prop) := by
  constructor
  · rintro w a ⟨hroom, c, hfile, htraffic, hdrained⟩
    refine ⟨hroom, c, ?_, (stable_traffic hL).arrive w a htraffic, fun hpos hnil => ?_⟩
    · rw [HostWorld.arrive, arrive_files]
      exact hfile
    · obtain ⟨hz, hdrained⟩ := hdrained hpos hnil
      exact ⟨hz, (lasting_drained (S := S) c).arrive w.kernel a hdrained⟩
  · rintro w s ⟨hroom, c, hfile, htraffic, hdrained⟩
    exact ⟨hroom, c, hfile, ⟨htraffic.traced, htraffic.known⟩, hdrained⟩

variable [Inhabited ρ]

/-- What is closed may be closed. -/
theorem traffic_hostClose {P : HostWorld ρ κ α → Prop} (h : Stable P) {fd : Fd}
    (hP : ∀ w, P w → Traffic size mayClose L held w ∧ ∀ c,
      w.kernel.files fd = some (.socket c) → mayClose (streamOf (w.kernel.conns c) (held c))) :
    Triple P (hostClose fd : Program (HostWorld ρ κ α) Int) fun _ =>
      Traffic size mayClose L held := by
  refine (triple_hostClose h fd).post ?_
  rintro rc w' ⟨w, hw, -, rfl⟩
  obtain ⟨htraffic, hmay⟩ := hP w hw
  constructor
  · exact htraffic.traced.close hmay
  · rw [close_conns]
    exact htraffic.known

theorem traffic_acceptClient (hL : Lasting S L) (ls : Fd) :
    Triple (Traffic size mayClose L held)
      (acceptClient ls : Program (HostWorld ρ κ α) Fd) fun _ => Traffic size mayClose L held := by
  refine (triple_acceptClient (stable_traffic hL) ls).post ?_
  rintro fd w' ⟨w, hw, ⟨-, -, rfl⟩ | ⟨c, rest, hbacklog, -, hfree, rfl⟩⟩
  · exact ⟨hw.traced, hw.known⟩
  · exact ⟨hw.traced.accept hbacklog hfree, hw.known⟩

theorem traffic_allocCon (hL : Lasting S L) (init : κ) :
    Triple (Traffic size mayClose L held)
      (allocCon init : Program (HostWorld ρ κ α) Ptr) fun _ => Traffic size mayClose L held := by
  refine (triple_allocCon (stable_traffic hL) init).post ?_
  rintro p w' ⟨w, hw, ⟨-, rfl⟩ | ⟨-, -, rfl⟩⟩
  · exact hw
  · exact ⟨hw.traced, hw.known⟩

theorem traffic_createWarmupTimer (hL : Lasting S L) :
    Triple (Traffic size mayClose L held)
      (createWarmupTimer : Program (HostWorld ρ κ α) Fd) fun _ =>
      Traffic size mayClose L held := by
  refine triple_createWarmupTimer (stable_traffic hL) ?_ fun _ => stable_traffic hL
  intro w fd hw _ hfree
  exact ⟨hw.traced.opened hfree (fun c heq => by cases heq) rfl rfl rfl rfl rfl rfl, hw.known⟩

/-- A whole message of a connection with `S` is read and echoed, or the end of
its stream is read; then `Z` is known. -/
theorem traffic_readNEcho {P : HostWorld ρ κ α → Prop} (h : Stable P) (hL : Lasting S L)
    (cfg : ServerConfig) (fd : Fd) (buf : List Octet) {Z : Prop}
    (hP : ∀ w, P w → Traffic cfg.defaultBufferSize.toNat mayClose L emptyHands w ∧
      ∀ c, w.kernel.files fd = some (.socket c) →
        S c ∧ ((w.kernel.conns c).unread = [] → Z)) :
    Triple P (readNEcho cfg fd buf : Program (HostWorld ρ κ α) (Int × List Octet)) fun r w =>
      Traffic cfg.defaultBufferSize.toNat mayClose L emptyHands w ∧ r.2.length = buf.length ∧
        (r.1 = 0 → 0 < buf.length → Z ∧ DrainedAt fd w) := by
  refine (triple_readNEcho (R := InHand cfg.defaultBufferSize.toNat mayClose L Z fd buf.length)
    h cfg fd buf ?_ fun data => stable_inHand hL).post ?_
  · rintro w c data hw hfile rfl heos
    obtain ⟨htraffic, hknown⟩ := hP w hw
    obtain ⟨hc, hz⟩ := hknown c hfile
    refine ⟨List.length_take_le _ _, c, hfile,
      ⟨htraffic.traced.take rfl, hL.read _ c _ hc htraffic.known⟩, fun hpos hnil => ?_⟩
    have hunread : (w.kernel.conns c).unread = [] := by
      rcases List.take_eq_nil_iff.mp hnil with hzero | hunread
      · exact absurd hpos (by rw [hzero]; exact Nat.lt_irrefl 0)
      · exact hunread
    rw [Drained, updateConn_conns_self]
    exact ⟨hz hunread, by rw [hunread, List.drop_nil], heos hunread⟩
  · rintro r w' (⟨rfl, -, c, hfile, htraffic, hdrained⟩ |
      ⟨w, c, data, ⟨hroom, c', hfile', htraffic, -⟩, hlength, hfile, rfl, rfl⟩)
    · have hempty : Function.update emptyHands c [] = emptyHands := Function.update_eq_self ..
      rw [hempty] at htraffic
      refine ⟨htraffic, rfl, fun _ hpos => ⟨(hdrained hpos rfl).1, fun c' hfile' => ?_⟩⟩
      obtain rfl := File.socket.inj (Option.some.inj (hfile.symm.trans hfile'))
      exact (hdrained hpos rfl).2
    · obtain rfl := File.socket.inj (Option.some.inj (hfile.symm.trans hfile'))
      refine ⟨⟨?_, hL.write _ c data htraffic.known⟩, ?_, fun hzero => ?_⟩
      · have hechoed := htraffic.traced.echo hlength rfl hfile
        rw [List.map_append]
        exact hechoed
      · rw [overwrite, List.length_append, List.length_drop]
        omega
      · have hpos := cfg.buffer_pos
        have hnone : cfg.defaultBufferSize.toNat = 0 := Int.ofNat.inj hzero
        omega

end Calls

end EchoServers.EchoTraffic
