import EchoServers.EpollEffects

namespace EchoServers.EpollRegistry

open EchoServers.EpollEffects
open EchoServers.EpollList
open EchoServers.EpollServer
open EchoServers.HostLedger
open EchoServers.ServerBenchmark
open EchoServers.ServerUtils
open EchoServers.SocketKernel
open EchoServers.StateTriples
open EchoServers.Utils

/-- The interest list stands for the open files and the connection structures. -/
structure Registry (cfg : ServerConfig) (files : Fd → Option File) (interest : Fd → Option Ptr)
    (clients : Ptr → Option (Fd × Option File)) (epollFd tfd : Fd) : Prop where
  nonneg : ∀ fd, files fd ≠ none → 0 ≤ fd
  listening : files cfg.listeningSocket = some .listening
  heard : interest cfg.listeningSocket = some lfdHolder
  polled : files epollFd = some .epoll
  timer : tfd = -1 ∨ (files tfd = some .timer ∧ interest tfd = some tfdHolder)
  client : ∀ p fd object, clients p = some (fd, object) →
    3 ≤ p ∧ (∃ c, object = some (.socket c)) ∧ files fd = object ∧ interest fd = some p
  owned : ∀ fd c, files fd = some (.socket c) → ∃ p, clients p = some (fd, some (.socket c))
  registered : ∀ fd p, interest fd = some p →
    (fd = cfg.listeningSocket ∧ p = lfdHolder) ∨ (tfd ≠ -1 ∧ fd = tfd ∧ p = tfdHolder) ∨
      ∃ object, clients p = some (fd, object)

section Registry

variable {cfg : ServerConfig} {files : Fd → Option File} {interest : Fd → Option Ptr}
  {clients : Ptr → Option (Fd × Option File)} {epollFd tfd fd fd' : Fd} {p : Ptr} {c : ConnId}
  {f f' : File}

theorem ne_of_files (hfree : files fd = none) (hfile : files fd' = some f) : fd' ≠ fd := by
  rintro rfl
  rw [hfile] at hfree
  cases hfree

theorem ne_of_files_ne (hfile : files fd = some f) (hfile' : files fd' = some f')
    (hne : f' ≠ f) : fd' ≠ fd := by
  rintro rfl
  rw [hfile] at hfile'
  exact hne (Option.some.inj hfile').symm

theorem Registry.addClient (h : Registry cfg files interest clients epollFd tfd) (hfd : 0 ≤ fd)
    (hfree : files fd = none) (hp : 3 ≤ p) (hnew : clients p = none) (c : ConnId) :
    Registry cfg (Function.update files fd (some (.socket c)))
      (Function.update interest fd (some p))
      (Function.update clients p (some (fd, some (.socket c)))) epollFd tfd := by
  constructor
  · intro fd' hopen
    rcases eq_or_ne fd' fd with rfl | hne
    · exact hfd
    · rw [Function.update_of_ne hne] at hopen
      exact h.nonneg fd' hopen
  · rw [Function.update_of_ne (ne_of_files hfree h.listening)]
    exact h.listening
  · rw [Function.update_of_ne (ne_of_files hfree h.listening)]
    exact h.heard
  · rw [Function.update_of_ne (ne_of_files hfree h.polled)]
    exact h.polled
  · refine h.timer.imp_right fun htimer => ?_
    have hne := ne_of_files hfree htimer.1
    rw [Function.update_of_ne hne, Function.update_of_ne hne]
    exact htimer
  · intro p' fd' object hcon
    rcases eq_or_ne p' p with rfl | hne
    · rw [Function.update_self] at hcon
      obtain ⟨rfl, rfl⟩ := hcon
      exact ⟨hp, ⟨c, rfl⟩, Function.update_self .., Function.update_self ..⟩
    · rw [Function.update_of_ne hne] at hcon
      obtain ⟨hp', ⟨c', rfl⟩, hfile, hinterest⟩ := h.client p' fd' object hcon
      have hne' := ne_of_files hfree hfile
      rw [Function.update_of_ne hne', Function.update_of_ne hne']
      exact ⟨hp', ⟨c', rfl⟩, hfile, hinterest⟩
  · intro fd' c' hfile
    rcases eq_or_ne fd' fd with rfl | hne
    · rw [Function.update_self] at hfile
      obtain rfl := File.socket.inj (Option.some.inj hfile)
      exact ⟨p, Function.update_self ..⟩
    · rw [Function.update_of_ne hne] at hfile
      obtain ⟨p', hcon⟩ := h.owned fd' c' hfile
      have hne' : p' ≠ p := by
        rintro rfl
        rw [hnew] at hcon
        cases hcon
      exact ⟨p', by rw [Function.update_of_ne hne', hcon]⟩
  · intro fd' p' hinterest
    rcases eq_or_ne fd' fd with rfl | hne
    · rw [Function.update_self] at hinterest
      obtain rfl := Option.some.inj hinterest
      exact .inr (.inr ⟨_, Function.update_self ..⟩)
    · rw [Function.update_of_ne hne] at hinterest
      refine (h.registered fd' p' hinterest).imp_right (Or.imp_right ?_)
      rintro ⟨object, hcon⟩
      have hne' : p' ≠ p := by
        rintro rfl
        rw [hnew] at hcon
        cases hcon
      exact ⟨object, by rw [Function.update_of_ne hne', hcon]⟩

/-- Another file than those of the server itself is closed. -/
theorem Registry.ls_ne (h : Registry cfg files interest clients epollFd tfd)
    (hfile : files fd = some f) (hne : f ≠ .listening) : cfg.listeningSocket ≠ fd :=
  ne_of_files_ne hfile h.listening hne.symm

theorem Registry.removeClient (h : Registry cfg files interest clients epollFd tfd)
    (hcon : clients p = some (fd, some (.socket c))) :
    Registry cfg (Function.update files fd none) (Function.update interest fd none)
      (Function.update clients p none) epollFd tfd := by
  obtain ⟨-, -, hfile, hinterest⟩ := h.client p fd _ hcon
  have hls : cfg.listeningSocket ≠ fd := h.ls_ne hfile (by simp)
  -- the structure at `p` is the only one with this descriptor
  have hother : ∀ p' fd' object, p' ≠ p → clients p' = some (fd', object) → fd' ≠ fd := by
    rintro p' fd' object hne hcon' rfl
    obtain ⟨-, -, -, hinterest'⟩ := h.client p' fd' object hcon'
    rw [hinterest] at hinterest'
    exact hne (Option.some.inj hinterest').symm
  constructor
  · intro fd' hopen
    rcases eq_or_ne fd' fd with rfl | hne
    · exact absurd (Function.update_self ..) hopen
    · rw [Function.update_of_ne hne] at hopen
      exact h.nonneg fd' hopen
  · rw [Function.update_of_ne hls]
    exact h.listening
  · rw [Function.update_of_ne hls]
    exact h.heard
  · rw [Function.update_of_ne (ne_of_files_ne hfile h.polled (by simp))]
    exact h.polled
  · refine h.timer.imp_right fun htimer => ?_
    have hne := ne_of_files_ne hfile htimer.1 (by simp)
    rw [Function.update_of_ne hne, Function.update_of_ne hne]
    exact htimer
  · intro p' fd' object hcon'
    rcases eq_or_ne p' p with rfl | hne
    · rw [Function.update_self] at hcon'
      cases hcon'
    · rw [Function.update_of_ne hne] at hcon'
      have hfd := hother p' fd' object hne hcon'
      rw [Function.update_of_ne hfd, Function.update_of_ne hfd]
      exact h.client p' fd' object hcon'
  · intro fd' c' hfile'
    rcases eq_or_ne fd' fd with rfl | hne
    · rw [Function.update_self] at hfile'
      cases hfile'
    · rw [Function.update_of_ne hne] at hfile'
      obtain ⟨p', hcon'⟩ := h.owned fd' c' hfile'
      have hne' : p' ≠ p := by
        rintro rfl
        rw [hcon] at hcon'
        exact hne (congrArg Prod.fst (Option.some.inj hcon')).symm
      exact ⟨p', by rw [Function.update_of_ne hne', hcon']⟩
  · intro fd' p' hinterest'
    rcases eq_or_ne fd' fd with rfl | hne
    · rw [Function.update_self] at hinterest'
      cases hinterest'
    · rw [Function.update_of_ne hne] at hinterest'
      refine (h.registered fd' p' hinterest').imp_right (Or.imp_right ?_)
      rintro ⟨object, hcon'⟩
      have hne' : p' ≠ p := by
        rintro rfl
        rw [hcon] at hcon'
        exact hne (congrArg Prod.fst (Option.some.inj hcon')).symm
      exact ⟨object, by rw [Function.update_of_ne hne', hcon']⟩

theorem Registry.removeTimer (h : Registry cfg files interest clients epollFd tfd)
    (hfile : files tfd = some .timer) :
    Registry cfg (Function.update files tfd none) (Function.update interest tfd none) clients
      epollFd (-1) := by
  have hls : cfg.listeningSocket ≠ tfd := h.ls_ne hfile (by simp)
  constructor
  · intro fd' hopen
    rcases eq_or_ne fd' tfd with rfl | hne
    · exact absurd (Function.update_self ..) hopen
    · rw [Function.update_of_ne hne] at hopen
      exact h.nonneg fd' hopen
  · rw [Function.update_of_ne hls]
    exact h.listening
  · rw [Function.update_of_ne hls]
    exact h.heard
  · rw [Function.update_of_ne (ne_of_files_ne hfile h.polled (by simp))]
    exact h.polled
  · exact .inl rfl
  · intro p' fd' object hcon
    obtain ⟨hp', ⟨c', rfl⟩, hfile', hinterest⟩ := h.client p' fd' object hcon
    have hne := ne_of_files_ne hfile hfile' (by simp)
    rw [Function.update_of_ne hne, Function.update_of_ne hne]
    exact ⟨hp', ⟨c', rfl⟩, hfile', hinterest⟩
  · intro fd' c' hfile'
    rcases eq_or_ne fd' tfd with rfl | hne
    · rw [Function.update_self] at hfile'
      cases hfile'
    · rw [Function.update_of_ne hne] at hfile'
      exact h.owned fd' c' hfile'
  · intro fd' p' hinterest
    rcases eq_or_ne fd' tfd with rfl | hne
    · rw [Function.update_self] at hinterest
      cases hinterest
    · rw [Function.update_of_ne hne] at hinterest
      rcases h.registered fd' p' hinterest with hlistening | ⟨-, hfd, -⟩ | hcon
      · exact .inl hlistening
      · exact absurd hfd hne
      · exact .inr (.inr hcon)

theorem Registry.addTimer (h : Registry cfg files interest clients epollFd (-1)) (hfd : 0 ≤ fd)
    (hfree : files fd = none) :
    Registry cfg (Function.update files fd (some .timer))
      (Function.update interest fd (some tfdHolder)) clients epollFd fd := by
  constructor
  · intro fd' hopen
    rcases eq_or_ne fd' fd with rfl | hne
    · exact hfd
    · rw [Function.update_of_ne hne] at hopen
      exact h.nonneg fd' hopen
  · rw [Function.update_of_ne (ne_of_files hfree h.listening)]
    exact h.listening
  · rw [Function.update_of_ne (ne_of_files hfree h.listening)]
    exact h.heard
  · rw [Function.update_of_ne (ne_of_files hfree h.polled)]
    exact h.polled
  · exact .inr ⟨Function.update_self .., Function.update_self ..⟩
  · intro p' fd' object hcon
    obtain ⟨hp', ⟨c', rfl⟩, hfile, hinterest⟩ := h.client p' fd' object hcon
    have hne := ne_of_files hfree hfile
    rw [Function.update_of_ne hne, Function.update_of_ne hne]
    exact ⟨hp', ⟨c', rfl⟩, hfile, hinterest⟩
  · intro fd' c' hfile
    rcases eq_or_ne fd' fd with rfl | hne
    · rw [Function.update_self] at hfile
      cases hfile
    · rw [Function.update_of_ne hne] at hfile
      exact h.owned fd' c' hfile
  · intro fd' p' hinterest
    rcases eq_or_ne fd' fd with rfl | hne
    · rw [Function.update_self] at hinterest
      exact .inr (.inl ⟨ne_of_fd_nonneg hfd, rfl, (Option.some.inj hinterest).symm⟩)
    · rw [Function.update_of_ne hne] at hinterest
      rcases h.registered fd' p' hinterest with hlistening | ⟨hne', -⟩ | hcon
      · exact .inl hlistening
      · exact absurd rfl hne'
      · exact .inr (.inr hcon)

/-- Only the listening socket is registered. -/
theorem registry_listening (he : 0 ≤ epollFd) (hne : cfg.listeningSocket ≠ epollFd) :
    Registry cfg
      (Function.update (Function.update (fun _ => none) cfg.listeningSocket (some .listening))
        epollFd (some .epoll))
      (Function.update (fun _ => none) cfg.listeningSocket (some lfdHolder)) (fun _ => none)
      epollFd (-1) := by
  constructor
  · intro fd hopen
    rcases eq_or_ne fd epollFd with rfl | hfd
    · exact he
    · rw [Function.update_of_ne hfd] at hopen
      rcases eq_or_ne fd cfg.listeningSocket with rfl | hls
      · exact cfg.listeningSocket_nonneg
      · rw [Function.update_of_ne hls] at hopen
        exact absurd rfl hopen
  · rw [Function.update_of_ne hne, Function.update_self]
  · exact Function.update_self ..
  · exact Function.update_self ..
  · exact .inl rfl
  · intro p fd object hcon
    cases hcon
  · intro fd c hfile
    rcases eq_or_ne fd epollFd with rfl | hfd
    · rw [Function.update_self] at hfile
      cases hfile
    · rw [Function.update_of_ne hfd] at hfile
      rcases eq_or_ne fd cfg.listeningSocket with rfl | hls
      · rw [Function.update_self] at hfile
        cases hfile
      · rw [Function.update_of_ne hls] at hfile
        cases hfile
  · intro fd p hinterest
    rcases eq_or_ne fd cfg.listeningSocket with rfl | hls
    · rw [Function.update_self] at hinterest
      exact .inl ⟨rfl, (Option.some.inj hinterest).symm⟩
    · rw [Function.update_of_ne hls] at hinterest
      cases hinterest

end Registry

end EchoServers.EpollRegistry
