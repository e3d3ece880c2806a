import EchoServers.EpollRegistry

namespace EchoServers.EpollRuns

open EchoServers.EpollEffects
open EchoServers.EpollList
open EchoServers.EpollRegistry
open EchoServers.EpollServer
open EchoServers.HostLedger
open EchoServers.ServerBenchmark
open EchoServers.ServerUtils
open EchoServers.SocketKernel
open EchoServers.StateTriples
open EchoServers.Utils

/-- What holds of the ledger whenever the server looks at an event. -/
structure Orderly (cfg : ServerConfig) (l : EpollLedger) : Prop where
  registry : Registry cfg l.files l.interest (clients l) l.app.epollFd l.app.tfd
  expired : l.app.tfd ≠ -1 → ∀ d ∈ l.app.dispatched, d.branch ≠ .timer

/-- The events of a batch that were not serviced yet are still about the files
they were delivered for. -/
structure Remaining (l : EpollLedger) (evs : List EpollEvent) : Prop where
  distinct : (evs.map EpollEvent.fd).Nodup
  registered : ∀ ev ∈ evs, l.interest ev.fd = some ev.data
  behind : ∀ ev ∈ evs, l.files ev.fd = some ev.object

section Remaining

variable {cfg : ServerConfig} {l l' : EpollLedger} {ev : EpollEvent} {evs : List EpollEvent}
  {fd : Fd} {p : Ptr} {f : File} {c : ConnId}

theorem Remaining.tail (h : Remaining l (ev :: evs)) : Remaining l evs :=
  ⟨(List.nodup_cons.mp h.distinct).2,
    fun ev' hev' => h.registered ev' (List.mem_cons_of_mem _ hev'),
    fun ev' hev' => h.behind ev' (List.mem_cons_of_mem _ hev')⟩

/-- Other descriptors than those of the events do not matter. -/
theorem Remaining.congr (h : Remaining l evs)
    (hinterest : ∀ ev ∈ evs, l'.interest ev.fd = l.interest ev.fd)
    (hfiles : ∀ ev ∈ evs, l'.files ev.fd = l.files ev.fd) : Remaining l' evs :=
  ⟨h.distinct, fun ev hev => (hinterest ev hev).trans (h.registered ev hev),
    fun ev hev => (hfiles ev hev).trans (h.behind ev hev)⟩

/-- What an event is about: its object is the one that its data stands for. -/
inductive Due (cfg : ServerConfig) (l : EpollLedger) (ev : EpollEvent) : Prop where
  | listening (hfd : ev.fd = cfg.listeningSocket) (hdata : ev.data = lfdHolder)
      (hobject : ev.object = .listening)
  | timer (hopen : l.app.tfd ≠ -1) (hfd : ev.fd = l.app.tfd) (hdata : ev.data = tfdHolder)
      (hobject : ev.object = .timer)
  | client (c : ConnId) (hdata : 3 ≤ ev.data) (hobject : ev.object = .socket c)
      (hcon : clients l ev.data = some (ev.fd, some (.socket c)))

theorem Orderly.due (h : Orderly cfg l) (hremaining : Remaining l (ev :: evs)) :
    Due cfg l ev := by
  have hinterest := hremaining.registered ev List.mem_cons_self
  have hfile := hremaining.behind ev List.mem_cons_self
  rcases h.registry.registered ev.fd ev.data hinterest with
    ⟨hfd, hdata⟩ | ⟨hopen, hfd, hdata⟩ | ⟨object, hcon⟩
  · rw [hfd, h.registry.listening] at hfile
    exact .listening hfd hdata (Option.some.inj hfile).symm
  · rw [hfd, (h.registry.timer.resolve_left hopen).1] at hfile
    exact .timer hopen hfd hdata (Option.some.inj hfile).symm
  · obtain ⟨hdata, ⟨c, rfl⟩, hbehind, -⟩ := h.registry.client _ _ _ hcon
    rw [hbehind] at hfile
    exact .client c hdata (Option.some.inj hfile).symm hcon

theorem Due.pointed (h : Due cfg l ev) : Pointed l ev.data := by
  cases h with
  | listening _ hdata _ => exact .inl hdata
  | timer _ _ hdata _ => exact .inr (.inl hdata)
  | client c _ _ hcon =>
      refine .inr (.inr fun hnone => ?_)
      rw [clients, hnone] at hcon
      cases hcon

/-- The structure of a client in memory. -/
theorem exists_con {w : EpollWorld} {p : Ptr} {fd : Fd} {object : Option File}
    (hcon : clients (ledger epollShape w) p = some (fd, object)) :
    ∃ con, w.cons p = some con ∧ con.fd = fd ∧ con.object = object := by
  obtain ⟨con', hlive, hcore⟩ := Option.map_eq_some_iff.mp hcon
  obtain ⟨con, hcon, rfl⟩ := Option.map_eq_some_iff.mp hlive
  exact ⟨con, hcon, congrArg Prod.fst hcore, congrArg Prod.snd hcore⟩

theorem core_of_clients (hcon : clients l p = some (fd, some f)) :
    (conAt l p).fd = fd ∧ (conAt l p).object = some f := by
  obtain ⟨con, hlive, hcore⟩ := Option.map_eq_some_iff.mp hcon
  have hat : conAt l p = con := by
    rw [conAt, hlive]
    rfl
  rw [hat]
  exact ⟨congrArg Prod.fst hcore, congrArg Prod.snd hcore⟩

/-- The holders on the stack are not on the heap. -/
theorem ne_holders (hp : 3 ≤ p) : p ≠ lfdHolder ∧ p ≠ tfdHolder := by
  constructor
  · rintro rfl
    exact absurd hp (by decide)
  · rintro rfl
    exact absurd hp (by decide)

/-- The descriptor that is compared is the one the event is about. -/
theorem Due.eventFd_eq (h : Due cfg l ev) : eventFd cfg l ev.data = ev.fd := by
  unfold eventFd
  cases h with
  | listening hfd hdata _ => rw [if_pos hdata, hfd]
  | timer _ hfd hdata _ =>
      rw [if_neg (by rw [hdata]; decide), if_pos hdata, hfd]
  | client c hdata _ hcon =>
      obtain ⟨hlfd, htfd⟩ := ne_holders hdata
      rw [if_neg hlfd, if_neg htfd]
      exact (core_of_clients hcon).1

end Remaining

section Branches

variable {cfg : ServerConfig} {l l' : EpollLedger} {ev : EpollEvent} {evs : List EpollEvent}

/-- The branch that the comparisons of `service_events` choose. -/
def branchTaken (cfg : ServerConfig) (l : EpollLedger) (ev : EpollEvent) : Branch :=
  if eventFd cfg l ev.data = cfg.listeningSocket then .newClient
  else if eventFd cfg l ev.data = l.app.tfd then .timer
  else .client

/-- The body of the loop of `service_events` in each of its branches. -/
def handle (cfg : ServerConfig) (ev : EpollEvent) : Branch → Program EpollWorld PUnit
  | .newClient => do
      record .newClient ev
      epollHandleNewClients cfg cfg.listeningSocket
  | .timer => do
      record .timer ev
      timerExpired cfg
  | .client => do
      record .client ev
      handleClientEvent cfg ev

/-- The timer and the clients have other descriptors than the listening socket
and each other. -/
theorem branchTaken_eq (h : Orderly cfg l) (hremaining : Remaining l (ev :: evs)) :
    branchTaken cfg l ev = branchFor ev.object := by
  have hdue := h.due hremaining
  have hfile := hremaining.behind ev List.mem_cons_self
  unfold branchTaken
  rw [hdue.eventFd_eq]
  cases hdue with
  | listening hfd hdata hobject => rw [if_pos hfd, hobject, branchFor]
  | timer hopen hfd hdata hobject =>
      rw [hobject] at hfile
      rw [if_neg (h.registry.ls_ne hfile (by simp)).symm, if_pos hfd, hobject, branchFor]
  | client c hdata hobject hcon =>
      rw [hobject] at hfile
      have htimer : ev.fd ≠ l.app.tfd := by
        intro heq
        rcases h.registry.timer with hnone | ⟨htfd, -⟩
        · have hnonneg := h.registry.nonneg ev.fd (by simp [hfile])
          rw [heq, hnone] at hnonneg
          exact absurd hnonneg (by decide)
        · exact ne_of_files_ne hfile htfd (by simp) heq.symm
      rw [if_neg (h.registry.ls_ne hfile (by simp)).symm, if_neg htimer, hobject, branchFor]

theorem run_readFd {w : EpollWorld} {p : Ptr} (hp : Pointed (ledger epollShape w) p) :
    readFd cfg p w = .ok (eventFd cfg (ledger epollShape w) p, w) := by
  unfold readFd eventFd
  by_cases hls : p = lfdHolder
  · rw [if_pos hls, if_pos hls]
    rfl
  · rw [if_neg hls, if_neg hls]
    by_cases htfd : p = tfdHolder
    · rw [if_pos htfd, if_pos htfd]
      rfl
    · rw [if_neg htfd, if_neg htfd]
      have hlive := (hp.resolve_left hls).resolve_left htfd
      obtain ⟨con, hcon, hshape⟩ := Option.map_eq_some_iff.mp (conAt_eq hlive)
      have hget : (get : Program EpollWorld EpollWorld) w = .ok (w, w) := rfl
      have hread : readCon p w = .ok (con, w) := by
        rw [readCon, bind_run hget, hcon]
        rfl
      rw [bind_run hread, ← hshape]
      rfl

/-- The loop body by its branches. -/
theorem serviceEvent_eq {w : EpollWorld} (hp : Pointed (ledger epollShape w) ev.data) :
    serviceEvent cfg ev w = handle cfg ev (branchTaken cfg (ledger epollShape w) ev) w := by
  have happ : (ledger epollShape w).app = w.app := rfl
  unfold serviceEvent branchTaken
  rw [happ]
  rw [bind_run (run_readFd hp)]
  split_ifs with hls htfd
  · rfl
  · rw [bind_run (run_readFd hp)]
    change (if _ = w.app.tfd then _ else _ : Program EpollWorld PUnit) w = _
    rw [if_pos htfd]
    rfl
  · rw [bind_run (run_readFd hp)]
    change (if _ = w.app.tfd then _ else _ : Program EpollWorld PUnit) w = _
    rw [if_neg htfd]
    rfl

end Branches

section Preservation

variable {cfg : ServerConfig} {l l' : EpollLedger} {ev : EpollEvent} {evs : List EpollEvent}
  {fd : Fd} {p : Ptr} {f : File} {c : ConnId}

/-- What is behind the remaining descriptors keeps them apart from a free one. -/
theorem Remaining.fd_ne (h : Remaining l evs) (hfree : l.files fd = none) :
    ∀ ev ∈ evs, ev.fd ≠ fd :=
  fun ev hev => ne_of_files hfree (h.behind ev hev)

/-- Each descriptor has one event. -/
theorem Remaining.fd_ne_head (h : Remaining l (ev :: evs)) : ∀ ev' ∈ evs, ev'.fd ≠ ev.fd := by
  intro ev' hev' heq
  have hdistinct := List.nodup_cons.mp h.distinct
  exact hdistinct.1 (heq ▸ List.mem_map_of_mem hev')

theorem Orderly.relinked (h : Orderly cfg l) (hrelinked : Relinked l l') : Orderly cfg l' := by
  obtain ⟨hregistry, hexpired⟩ := h
  constructor
  · rw [hrelinked.files, hrelinked.interest, hrelinked.clients, hrelinked.epollFd, hrelinked.tfd]
    exact hregistry
  · rw [hrelinked.tfd, hrelinked.dispatched]
    exact hexpired

/-- What a client that joins adds. -/
structure Joins (l l' : EpollLedger) (fd : Fd) (p : Ptr) : Prop where
  files : l'.files = l.files
  interest : l'.interest = Function.update l.interest fd (some p)
  clients : clients l' = Function.update (clients l) p (some (fd, l.files fd))
  closes : l'.closes = l.closes
  freed : l'.freed = l.freed
  accepts : l'.accepts = l.accepts
  faults : l'.faults = l.faults
  epollFd : l'.app.epollFd = l.app.epollFd
  tfd : l'.app.tfd = l.app.tfd
  history : l'.app.history =
    l.app.history ++ [.accepted { ptr := p, object := l.files fd } fd]
  dispatched : l'.app.dispatched = l.app.dispatched

theorem faults_connected (l : EpollLedger) (p : Ptr) : (connected l p).faults = l.faults := by
  unfold connected
  split_ifs
  · rfl
  · rfl

theorem joins_clientJoined (l : EpollLedger) (fd : Fd) (p : Ptr) :
    Joins l (clientJoined l fd p) fd p := by
  have hlive : ((l.stored p { fd := fd, object := l.files fd }).registered fd p).cons p ≠ none := by
    simp [Ledger.registered, Ledger.stored]
  have hrelinked := relinked_connected hlive
  refine ⟨hrelinked.files, hrelinked.interest, ?_, hrelinked.closes, hrelinked.freed,
    hrelinked.accepts, faults_connected _ p, hrelinked.epollFd, hrelinked.tfd,
    congrArg (· ++ [_]) hrelinked.history, hrelinked.dispatched⟩
  refine Eq.trans hrelinked.clients ?_
  funext q
  unfold EpollEffects.clients Ledger.registered Ledger.stored
  rcases eq_or_ne q p with rfl | hne
  · simp [core]
  · simp [hne]

theorem Orderly.joined (h : Orderly cfg l) (hfd : 0 ≤ fd) (hfree : l.files fd = none)
    (hp : 3 ≤ p) (hnew : l.cons p = none) (c : ConnId) :
    Orderly cfg (clientJoined ((l.opened fd (.socket c)).answered fd) fd p) := by
  have hclient : clients l p = none := by
    rw [clients, hnew]
    rfl
  have hregistry := h.registry.addClient hfd hfree hp hclient c
  have hjoins := joins_clientJoined ((l.opened fd (.socket c)).answered fd) fd p
  have hobject : ((l.opened fd (.socket c)).answered fd).files fd = some (.socket c) :=
    Function.update_self ..
  constructor
  · rw [hjoins.files, hjoins.interest, hjoins.clients, hjoins.epollFd, hjoins.tfd, hobject]
    exact hregistry
  · rw [hjoins.tfd, hjoins.dispatched]
    exact h.expired

theorem Remaining.joined (h : Remaining l evs) (hfree : l.files fd = none) (p : Ptr)
    (c : ConnId) : Remaining (clientJoined ((l.opened fd (.socket c)).answered fd) fd p) evs := by
  have hjoins := joins_clientJoined ((l.opened fd (.socket c)).answered fd) fd p
  have hne := h.fd_ne hfree
  apply h.congr
  · intro ev hev
    rw [hjoins.interest]
    exact Function.update_of_ne (hne ev hev) _ _
  · intro ev hev
    rw [hjoins.files]
    exact Function.update_of_ne (hne ev hev) _ _

theorem orderly_accepted (haccepted : Accepted l l') (h : Orderly cfg l)
    (hremaining : Remaining l evs) : Orderly cfg l' ∧ Remaining l' evs := by
  induction haccepted with
  | done l => exact ⟨⟨h.registry, h.expired⟩, hremaining.congr (fun _ _ => rfl) fun _ _ => rfl⟩
  | more l fd c p l' hfd hfree hp hnew hinterest hrest ih =>
      exact ih (h.joined hfd hfree hp hnew c) (hremaining.joined hfree p c)

/-- Any event but that of the timer is recorded. -/
theorem Orderly.recorded (h : Orderly cfg l) {branch : Branch} (hbranch : branch ≠ .timer)
    (ev : EpollEvent) : Orderly cfg (recordedAs l branch ev) := by
  refine ⟨h.registry, fun htfd d hd => ?_⟩
  rcases List.mem_append.mp hd with hd | hd
  · exact h.expired htfd d hd
  · rw [List.mem_singleton.mp hd]
    exact hbranch

theorem Remaining.recorded (h : Remaining l evs) (branch : Branch) (ev : EpollEvent) :
    Remaining (recordedAs l branch ev) evs :=
  h.congr (fun _ _ => rfl) fun _ _ => rfl

theorem Orderly.timerClosed (h : Orderly cfg l) (hopen : l.app.tfd ≠ -1) (ev : EpollEvent)
    (f : File) : Orderly cfg (timerClosed (recordedAs l .timer ev) f) :=
  ⟨h.registry.removeTimer (h.registry.timer.resolve_left hopen).1, fun htfd => absurd rfl htfd⟩

theorem Orderly.clientGone (h : Orderly cfg l)
    (hcon : clients l p = some (fd, some (.socket c))) (f : File) :
    Orderly cfg (clientGone l p f) := by
  have hregistry := h.registry.removeClient hcon
  have hfd := (core_of_clients hcon).1
  have hclients : clients (EpollEffects.clientGone l p f) = Function.update (clients l) p none := by
    funext q
    unfold clients EpollEffects.clientGone Ledger.released
    rcases eq_or_ne q p with rfl | hne
    · simp
    · simp [hne, withHistory, Ledger.withApp, Ledger.closed]
  refine ⟨?_, h.expired⟩
  rw [hclients]
  rw [← hfd] at hregistry
  exact hregistry

/-- An event that is taken for the timer's is about an open descriptor. -/
theorem Orderly.tfd_ne (h : Orderly cfg l) (hfile : l.files l.app.tfd = some f) :
    l.app.tfd ≠ -1 := by
  apply ne_of_fd_nonneg
  apply h.registry.nonneg
  rw [hfile]
  exact Option.some_ne_none _

/-- Servicing an event keeps the ledger in order, and the events behind it
about what they were delivered for. -/
theorem orderly_serviced (h : Orderly cfg l) (hremaining : Remaining l (ev :: evs))
    (hserviced : Serviced cfg l ev l') : Orderly cfg l' ∧ Remaining l' evs := by
  have hdue := h.due hremaining
  have htail := hremaining.tail
  have hne := hremaining.fd_ne_head
  cases hserviced with
  | newClient _ hfd haccepted =>
      exact orderly_accepted haccepted (h.recorded (by simp) ev) (htail.recorded _ ev)
  | timer f hls hfd hfile =>
      rw [hdue.eventFd_eq] at hfd
      refine ⟨h.timerClosed (h.tfd_ne hfile) ev f, htail.congr ?_ ?_⟩
      · intro ev' hev'
        exact Function.update_of_ne (hfd ▸ hne ev' hev') _ _
      · intro ev' hev'
        exact Function.update_of_ne (hfd ▸ hne ev' hev') _ _
  | closed f hls hfd hrdhup hfile =>
      rw [hdue.eventFd_eq] at hls hfd
      cases hdue with
      | listening hfd' _ _ => exact absurd hfd' hls
      | timer _ hfd' _ _ => exact absurd hfd' hfd
      | client c hdata hobject hcon =>
          have hrelinked := relinked_unlinked (recordedAs l .client ev) ev.data
          have hcon' : clients (unlinked (recordedAs l .client ev) ev.data) ev.data =
              some (ev.fd, some (.socket c)) := (congrFun hrelinked.clients _).trans hcon
          have hbranch : Branch.client ≠ .timer := by simp
          have horderly := (h.recorded hbranch ev).relinked hrelinked
          have hclosed := (core_of_clients hcon').1
          refine ⟨horderly.clientGone hcon' f, htail.congr ?_ ?_⟩
          · intro ev' hev'
            have hother :
                ev'.fd ≠ (conAt (unlinked (recordedAs l .client ev) ev.data) ev.data).fd :=
              hclosed.symm ▸ hne ev' hev'
            exact (Function.update_of_ne hother _ _).trans (congrFun hrelinked.interest _)
          · intro ev' hev'
            have hother :
                ev'.fd ≠ (conAt (unlinked (recordedAs l .client ev) ev.data) ev.data).fd :=
              hclosed.symm ▸ hne ev' hev'
            exact (Function.update_of_ne hother _ _).trans (congrFun hrelinked.files _)
  | kept hls hfd => exact ⟨h.recorded (by simp) ev, htail.recorded _ ev⟩

end Preservation

section Runs

variable {cfg : ServerConfig} {l : EpollLedger} {s₀ : Samples} {evs rest : List EpollEvent}
  {J : EpollLedger → Prop}

/-- The server is about to service the events `evs`. -/
def Between (cfg : ServerConfig) (evs : List EpollEvent) (w : EpollWorld) : Prop :=
  Orderly cfg (ledger epollShape w) ∧ Remaining (ledger epollShape w) evs

/-- A property of the ledger that the servicing of an event keeps. -/
def Kept (cfg : ServerConfig) (J : EpollLedger → Prop) : Prop :=
  ∀ l ev evs l', Orderly cfg l → Remaining l (ev :: evs) → Serviced cfg l ev l' → J l → J l'

theorem kept_true : Kept cfg fun _ => True :=
  fun _ _ _ _ _ _ _ _ => trivial

theorem triple_serviceEvent_kept (hkept : Kept cfg J) (ev : EpollEvent) :
    Triple (fun w => Between cfg (ev :: evs) w ∧ J (ledger epollShape w)) (serviceEvent cfg ev)
      fun _ w => Between cfg evs w ∧ J (ledger epollShape w) := by
  refine Triple.of_pre fun w hw => ?_
  obtain ⟨⟨horderly, hremaining⟩, hJ⟩ := hw
  refine ((triple_serviceEvent ev (horderly.due hremaining).pointed).pre ?_).post ?_
  · rintro w' rfl
    exact rfl
  · intro _ w' hserviced
    exact ⟨orderly_serviced horderly hremaining hserviced,
      hkept _ ev evs _ horderly hremaining hserviced hJ⟩

/-- The events of a batch are serviced one after the other. -/
theorem triple_serviceEvents_kept (hkept : Kept cfg J) (evs : List EpollEvent) :
    Triple (fun w => Between cfg (evs ++ rest) w ∧ J (ledger epollShape w))
      (serviceEvents cfg evs) fun _ w => Between cfg rest w ∧ J (ledger epollShape w) := by
  induction evs with
  | nil => exact Triple.pure _ fun w h => h
  | cons ev evs ih => exact (triple_serviceEvent_kept hkept ev).bind fun _ => ih

theorem triple_serviceEvents (evs : List EpollEvent) :
    Triple (Between cfg (evs ++ rest)) (serviceEvents cfg evs) fun _ => Between cfg rest :=
  (triple_serviceEvents_kept kept_true evs).conseq (fun _ h => ⟨h, trivial⟩) fun _ _ h => h.1

theorem booked_epollPwait :
    Triple (Booked epollShape l) epollPwait fun batch w =>
      Remaining l batch.2 ∧ Booked epollShape l w := by
  refine (triple_of_keepsLedger keepsLedger_hostYield).bind fun t =>
    Triple.ite (fun _ => triple_exitFailure _) fun _ => Triple.get_bind fun w hw => ?_
  apply Triple.ite
  · intro _
    apply Triple.pure
    rintro w' rfl
    refine ⟨⟨List.nodup_nil, fun ev hev => ?_, fun ev hev => ?_⟩, hw⟩
    · cases hev
    · cases hev
  · intro _
    apply Triple.modify_bind
    apply Triple.modify_bind
    apply Triple.pure
    rintro w' rfl
    subst hw
    exact ⟨⟨nodup_epollWait _ _, fun ev hev => (mem_epollWait hev).2.1,
      fun ev hev => (mem_epollWait hev).1⟩, rfl⟩

theorem triple_awaitEvents :
    Triple (Booked epollShape l) (awaitEvents cfg) fun evs w =>
      Remaining l evs ∧ Booked epollShape l w := by
  refine booked_epollPwait.bind fun batch => Triple.and_pre fun hremaining => ?_
  refine Triple.bind (Q := fun _ => Booked epollShape l) ?_ fun _ => Triple.pure _ ?_
  · exact triple_whenTrue (fun _ => booked_hostBench _) fun _ hw _ => hw
  · intro w hw
    exact ⟨hremaining, hw⟩

theorem kept_serviceLoopTurn (hkept : Kept cfg J) :
    Triple (fun w => Orderly cfg (ledger epollShape w) ∧ J (ledger epollShape w))
      (serviceLoopTurn cfg) fun _ w =>
      Orderly cfg (ledger epollShape w) ∧ J (ledger epollShape w) := by
  refine triple_of_ledger (Q := fun l => Orderly cfg l ∧ J l) fun l h =>
    triple_awaitEvents.bind fun evs => Triple.and_pre fun hremaining => ?_
  have hserviced : Triple (fun w => Between cfg (evs ++ []) w ∧ J (ledger epollShape w))
      (serviceEvents cfg evs) fun _ w => Between cfg [] w ∧ J (ledger epollShape w) :=
    triple_serviceEvents_kept hkept evs
  rw [List.append_nil] at hserviced
  refine hserviced.conseq ?_ fun _ w hw => ⟨hw.1.1, hw.2⟩
  rintro w rfl
  exact ⟨⟨h.1, hremaining⟩, h.2⟩

theorem booked_createEpoll :
    Triple (Booked epollShape l) createEpoll fun fd w =>
      0 ≤ fd ∧ l.files fd = none ∧ Booked epollShape (l.opened fd .epoll) w := by
  refine (triple_of_keepsLedger keepsLedger_hostYield).bind fun t => Triple.get_bind fun w hw => ?_
  apply Triple.ite
  · intro _
    exact triple_exitFailure _
  · intro hnew
    rw [not_or, not_or, Int.not_lt, Bool.not_eq_true (Option.isSome _),
      Option.isSome_eq_false_iff, Option.isNone_iff_eq_none] at hnew
    apply Triple.modify_bind
    apply Triple.pure
    rintro w' rfl
    subst hw
    exact ⟨hnew.2.1, hnew.2.2, rfl⟩

/-- The ledger in front of `service_loop`, when the samples of the bench are
`s₀`. -/
def initialLedger (cfg : ServerConfig) (s₀ : Samples) : EpollLedger :=
  { ledger epollShape (initialWorld cfg []) with samples := s₀ }

/-- What is registered when the loop is entered. -/
theorem registry_start {epollFd : Fd} (hnonneg : 0 ≤ epollFd)
    (hfree : (initialLedger cfg s₀).files epollFd = none) :
    Registry cfg (Function.update (initialLedger cfg s₀).files epollFd (some .epoll))
      (Function.update (fun _ => none) cfg.listeningSocket (some lfdHolder)) (fun _ => none)
      epollFd (-1) := by
  apply registry_listening hnonneg
  rintro rfl
  exact absurd hfree (by simp [initialLedger, ledger, initialWorld])

theorem booked_epollAdd {fd : Fd} {data : Ptr} {text : String} :
    Triple (Booked epollShape l) (do
      let rc ← epollCtlAdd fd data
      assertZero rc text) fun _ => Booked epollShape (l.registered fd data) :=
  (booked_epollCtlAdd fd data).bind fun _ => booked_assertAdded.post fun _ _ hw => hw.2

/-- The epoll instance is there, and the descriptor of the timer is known. -/
def startedLedger (cfg : ServerConfig) (s₀ : Samples) (epollFd : Fd) : EpollLedger :=
  ((initialLedger cfg s₀).opened epollFd .epoll).withApp
    { (initialLedger cfg s₀).app with epollFd := epollFd }

/-- The ledger when the loop is entered: the files are registered, and nothing
has happened yet. -/
structure Started (cfg : ServerConfig) (l : EpollLedger) : Prop where
  registry : Registry cfg l.files l.interest (clients l) l.app.epollFd l.app.tfd
  cons : ∀ p, l.cons p = none
  closes : l.closes = []
  freed : l.freed = []
  accepts : l.accepts = []
  faults : l.faults = []
  dllHead : l.app.dllHead = none
  dllTail : l.app.dllTail = none
  history : l.app.history = []
  dispatched : l.app.dispatched = []

theorem Started.orderly (h : Started cfg l) : Orderly cfg l := by
  refine ⟨h.registry, fun _ d hd => ?_⟩
  rw [h.dispatched] at hd
  cases hd

theorem started_of_initialLedger :
    Triple (Booked epollShape (initialLedger cfg s₀)) (serviceLoopStart cfg) fun _ w =>
      Started cfg (ledger epollShape w) := by
  refine booked_createEpoll.bind fun epollFd => Triple.and_pre fun hnonneg =>
    Triple.and_pre fun hfree => ?_
  have hregistry := registry_start hnonneg hfree
  refine Triple.bind (Q := fun _ => Booked epollShape (startedLedger cfg s₀ epollFd))
    (booked_epollApp _) fun _ => ?_
  by_cases hbench : cfg.doServerSideBenchmarking = true
  · simp only [whenTrue_of hbench]
    rw [bind_assoc]
    refine booked_createWarmupTimer.bind fun tfd => Triple.and_pre fun htfd =>
      Triple.and_pre fun hnew => ?_
    refine (booked_epollApp _).bind fun _ => booked_epollAdd.bind fun _ => ?_
    refine Triple.get_bind fun w hw => ?_
    have happ : w.app.tfd = tfd := congrArg (fun l' : EpollLedger => l'.app.tfd) hw
    rw [happ]
    refine (triple_of_booked hw booked_epollAdd).post fun _ w' hw' => ?_
    rw [show ledger epollShape w' = _ from hw']
    exact ⟨hregistry.addTimer htfd hnew, fun _ => rfl, rfl, rfl, rfl, rfl, rfl, rfl, rfl, rfl⟩
  · simp only [whenTrue_of_not hbench]
    rw [pure_bind]
    refine booked_epollAdd.bind fun _ => Triple.pure _ fun w hw => ?_
    rw [show ledger epollShape w = _ from hw]
    exact ⟨hregistry, fun _ => rfl, rfl, rfl, rfl, rfl, rfl, rfl, rfl, rfl⟩

/-- What the servicing of events keeps holds in every run, if it holds at first. -/
theorem kept_of_run {w₁ w : EpollWorld} {n : Nat} (hkept : Kept cfg J)
    (hstart : ∀ l, Started cfg l → J l) (hinitial : Booked epollShape (initialLedger cfg s₀) w₁)
    (hrun : serviceLoop cfg n w₁ = .ok (⟨⟩, w)) :
    Orderly cfg (ledger epollShape w) ∧ J (ledger epollShape w) := by
  have hstarted : Triple (Booked epollShape (initialLedger cfg s₀)) (serviceLoopStart cfg)
      fun _ w => Orderly cfg (ledger epollShape w) ∧ J (ledger epollShape w) :=
    started_of_initialLedger.post fun _ w h => ⟨h.orderly, hstart _ h⟩
  exact (hstarted.bind fun _ => Triple.turns (fun _ => kept_serviceLoopTurn hkept) n ⟨⟩)
    w₁ hinitial ⟨⟩ w hrun

theorem kept_of_reachable {w : EpollWorld} (hkept : Kept cfg J)
    (hstart : ∀ l, Started cfg l → J l) (h : Reachable cfg w) :
    Orderly cfg (ledger epollShape w) ∧ J (ledger epollShape w) := by
  obtain ⟨sched, n, w₀, arrivals, hrun, rfl⟩ := h
  have hinitial : Booked epollShape (initialLedger cfg {}) (initialWorld cfg sched) := rfl
  have hfinal := kept_of_run hkept hstart hinitial hrun
  exact (stable_booked _).arrivals (P := Booked epollShape (ledger epollShape w₀)) rfl arrivals ▸
    hfinal

theorem orderly_of_reachable {w : EpollWorld} (h : Reachable cfg w) :
    Orderly cfg (ledger epollShape w) :=
  (kept_of_reachable kept_true (fun _ _ => trivial) h).1

/-- In some run, the loop of `service_events` is about to service the event `ev`
of a batch that the server got in the state `w₁`. -/
def Servicing (cfg : ServerConfig) (w₁ w : EpollWorld) (ev : EpollEvent) : Prop :=
  ∃ (w₀ : EpollWorld) (evs rest : List EpollEvent), Reachable cfg w₀ ∧
    awaitEvents cfg w₀ = .ok (evs ++ ev :: rest, w₁) ∧
      serviceEvents cfg evs w₁ = .ok (⟨⟩, w)

theorem Servicing.between {w₁ w : EpollWorld} {ev : EpollEvent} (h : Servicing cfg w₁ w ev) :
    ∃ rest, Between cfg (ev :: rest) w := by
  obtain ⟨w₀, evs, rest, hreachable, hawait, hserviced⟩ := h
  have horderly := orderly_of_reachable hreachable
  obtain ⟨hremaining, hbooked⟩ := triple_awaitEvents w₀ rfl _ w₁ hawait
  exact ⟨rest, triple_serviceEvents evs w₁ ⟨hbooked.symm ▸ horderly, hbooked.symm ▸ hremaining⟩
    ⟨⟩ w hserviced⟩

end Runs

section Settled

variable {cfg : ServerConfig}

/-- The batch that the server gets at the top of its loop. -/
def batchOf (cfg : ServerConfig) (w₀ : EpollWorld) : List EpollEvent × EpollWorld :=
  settled (awaitEvents cfg) w₀ []

theorem servicing_settled {w₀ : EpollWorld} {evs rest : List EpollEvent} {ev : EpollEvent}
    (hreachable : Reachable cfg w₀) (hawait : (awaitEvents cfg w₀).isOk = true)
    (hbatch : (batchOf cfg w₀).1 = evs ++ ev :: rest)
    (hserviced : (serviceEvents cfg evs (batchOf cfg w₀).2).isOk = true) :
    Servicing cfg (batchOf cfg w₀).2
      (settled (serviceEvents cfg evs) (batchOf cfg w₀).2 ⟨⟩).2 ev :=
  ⟨w₀, evs, rest, hreachable, hbatch ▸ run_settled hawait, run_settled hserviced⟩

theorem reachable_settled {sched : List (HostTick (List Fd))} {n : Nat}
    (h : (serviceLoop cfg n (initialWorld cfg sched)).isOk = true) :
    Reachable cfg (settled (serviceLoop cfg n) (initialWorld cfg sched) ⟨⟩).2 :=
  ⟨sched, n, _, [], run_settled h, rfl⟩

end Settled

end EchoServers.EpollRuns
