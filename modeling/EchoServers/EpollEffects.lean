import EchoServers.EpollList

namespace EchoServers.EpollEffects

open EchoServers.EpollList
open EchoServers.EpollServer
open EchoServers.HostLedger
open EchoServers.ServerBenchmark
open EchoServers.ServerUtils
open EchoServers.SocketKernel
open EchoServers.StateTriples
open EchoServers.Utils

section Effects

/-- The fields of a connection that its links have nothing to do with. -/
def core (con : PdEchoConnection) : Fd × Option File :=
  (con.fd, con.object)

def clients (l : EpollLedger) (p : Ptr) : Option (Fd × Option File) :=
  (l.cons p).map core

def withHistory (l : EpollLedger) (step : ClientStep) : EpollLedger :=
  l.withApp { l.app with history := l.app.history ++ [step] }

/-- A client with the descriptor `fd` has got the structure at `p`. -/
def clientJoined (l : EpollLedger) (fd : Fd) (p : Ptr) : EpollLedger :=
  withHistory
    (connected ((l.stored p { fd := fd, object := l.files fd }).registered fd p) p)
    (.accepted { ptr := p, object := l.files fd } fd)

/-- The structure at `p`, which is in no list any more, and its descriptor. -/
def clientGone (l : EpollLedger) (p : Ptr) (f : File) : EpollLedger :=
  (withHistory (l.closed (conAt l p).fd f) (.closed (linkOf l p))).released p

def timerClosed (l : EpollLedger) (f : File) : EpollLedger :=
  (l.closed l.app.tfd f).withApp { l.app with tfd := -1 }

def recordedAs (l : EpollLedger) (branch : Branch) (ev : EpollEvent) : EpollLedger :=
  l.withApp { l.app with dispatched := l.app.dispatched ++ [⟨branch, ev⟩] }

/-- The clients that `epoll_handle_new_clients` accepts until none is left. -/
inductive Accepted : EpollLedger → EpollLedger → Prop where
  | done (l : EpollLedger) : Accepted l (l.answered (-1))
  | more (l : EpollLedger) (fd : Fd) (c : ConnId) (p : Ptr) (l' : EpollLedger) (hfd : 0 ≤ fd)
      (hfree : l.files fd = none) (hp : 3 ≤ p) (hnew : l.cons p = none)
      (hinterest : l.interest fd = none)
      (hrest : Accepted (clientJoined ((l.opened fd (.socket c)).answered fd) fd p) l') :
      Accepted l l'

/-- The descriptor that the loop of `service_events` compares. -/
def eventFd (cfg : ServerConfig) (l : EpollLedger) (p : Ptr) : Fd :=
  if p = lfdHolder then cfg.listeningSocket
  else if p = tfdHolder then l.app.tfd
  else (conAt l p).fd

/-- What servicing an event does to the ledger. -/
inductive Serviced (cfg : ServerConfig) (l : EpollLedger) (ev : EpollEvent) :
    EpollLedger → Prop where
  | newClient (l' : EpollLedger) (hfd : eventFd cfg l ev.data = cfg.listeningSocket)
      (haccepted : Accepted (recordedAs l .newClient ev) l') : Serviced cfg l ev l'
  | timer (f : File) (hls : eventFd cfg l ev.data ≠ cfg.listeningSocket)
      (hfd : eventFd cfg l ev.data = l.app.tfd) (hfile : l.files l.app.tfd = some f) :
      Serviced cfg l ev (timerClosed (recordedAs l .timer ev) f)
  | closed (f : File) (hls : eventFd cfg l ev.data ≠ cfg.listeningSocket)
      (hfd : eventFd cfg l ev.data ≠ l.app.tfd) (hrdhup : ev.events.rdhup = true)
      (hfile : l.files (conAt l ev.data).fd = some f) :
      Serviced cfg l ev (clientGone (unlinked (recordedAs l .client ev) ev.data) ev.data f)
  | kept (hls : eventFd cfg l ev.data ≠ cfg.listeningSocket)
      (hfd : eventFd cfg l ev.data ≠ l.app.tfd) :
      Serviced cfg l ev (recordedAs l .client ev)

end Effects

section Relinking

variable {l l' l'' : EpollLedger} {p q : Ptr}

/-- Only links and the record of faults differ. -/
structure Relinked (l l' : EpollLedger) : Prop where
  files : l'.files = l.files
  interest : l'.interest = l.interest
  closes : l'.closes = l.closes
  freed : l'.freed = l.freed
  accepts : l'.accepts = l.accepts
  clients : clients l' = clients l
  epollFd : l'.app.epollFd = l.app.epollFd
  tfd : l'.app.tfd = l.app.tfd
  history : l'.app.history = l.app.history
  dispatched : l'.app.dispatched = l.app.dispatched

theorem Relinked.refl (l : EpollLedger) : Relinked l l :=
  ⟨rfl, rfl, rfl, rfl, rfl, rfl, rfl, rfl, rfl, rfl⟩

theorem Relinked.trans (h : Relinked l l') (h' : Relinked l' l'') : Relinked l l'' :=
  ⟨h'.files.trans h.files, h'.interest.trans h.interest, h'.closes.trans h.closes,
    h'.freed.trans h.freed, h'.accepts.trans h.accepts, h'.clients.trans h.clients,
    h'.epollFd.trans h.epollFd, h'.tfd.trans h.tfd, h'.history.trans h.history,
    h'.dispatched.trans h.dispatched⟩

theorem clients_stored {con con' : PdEchoConnection} (hcon : l.cons p = some con)
    (hcore : core con' = core con) : clients (l.stored p con') = clients l := by
  funext q
  unfold clients Ledger.stored
  rcases eq_or_ne q p with rfl | hne
  · simp [hcon, hcore]
  · simp [hne]

theorem relinked_withEnds (head tail : Option Link) : Relinked l (withEnds l head tail) :=
  ⟨rfl, rfl, rfl, rfl, rfl, rfl, rfl, rfl, rfl, rfl⟩

theorem relinked_wroteIf (link : Option Link) {f : PdEchoConnection → PdEchoConnection}
    (hf : ∀ c, core (f c) = core c) : Relinked l (wroteIf l link f) := by
  cases link with
  | none => exact Relinked.refl l
  | some link =>
      unfold wroteIf wroteThrough
      dsimp only
      cases hcon : l.cons link.ptr with
      | none => exact ⟨rfl, rfl, rfl, rfl, rfl, rfl, rfl, rfl, rfl, rfl⟩
      | some con =>
          exact ⟨rfl, rfl, rfl, rfl, rfl, clients_stored hcon (hf con), rfl, rfl, rfl, rfl⟩

theorem relinked_bridged (l : EpollLedger) (p : Ptr) : Relinked l (bridged l p) := by
  have hnext : Relinked l
      (wroteIf l (conAt l p).next fun n => { n with prev := (conAt l p).prev }) :=
    relinked_wroteIf _ fun _ => rfl
  unfold bridged
  generalize wroteIf l (conAt l p).next _ = l₁ at hnext ⊢
  have hprev : Relinked l₁
      (wroteIf l₁ (conAt l₁ p).prev fun q => { q with next := (conAt l₁ p).next }) :=
    relinked_wroteIf _ fun _ => rfl
  exact hnext.trans hprev

theorem relinked_unlinked (l : EpollLedger) (p : Ptr) : Relinked l (unlinked l p) :=
  (relinked_bridged l p).trans (relinked_withEnds _ _)

theorem relinked_connected (hlive : l.cons p ≠ none) : Relinked l (connected l p) := by
  unfold connected
  split_ifs
  · exact relinked_withEnds _ _
  · refine Relinked.trans ?_ (relinked_withEnds _ _)
    exact ⟨rfl, rfl, rfl, rfl, rfl, clients_stored (conAt_eq hlive) rfl, rfl, rfl, rfl, rfl⟩

theorem Relinked.live_iff (h : Relinked l l') (q : Ptr) : l'.cons q = none ↔ l.cons q = none := by
  have hclients := congrFun h.clients q
  unfold EpollEffects.clients at hclients
  rw [← Option.map_eq_none_iff (f := core), hclients, Option.map_eq_none_iff]

theorem clients_eq (hlive : l.cons p ≠ none) : clients l p = some (core (conAt l p)) := by
  rw [clients, conAt_eq hlive]
  rfl

theorem Relinked.core_eq (h : Relinked l l') (hlive : l.cons p ≠ none) :
    core (conAt l' p) = core (conAt l p) := by
  have hlive' : l'.cons p ≠ none := fun hnone => hlive ((h.live_iff p).mp hnone)
  have hclients := congrFun h.clients p
  rw [clients_eq hlive', clients_eq hlive] at hclients
  exact Option.some.inj hclients

end Relinking

section Handlers

variable {cfg : ServerConfig} {l : EpollLedger} {p data : Ptr} {fd : Fd}

/-- The pointers that an event can carry. -/
def Pointed (l : EpollLedger) (p : Ptr) : Prop :=
  p = lfdHolder ∨ p = tfdHolder ∨ l.cons p ≠ none

theorem booked_readFd (hp : Pointed l p) :
    Triple (Booked epollShape l) (readFd cfg p) fun fd w =>
      fd = eventFd cfg l p ∧ Booked epollShape l w := by
  unfold readFd eventFd
  apply Triple.ite
  · intro hls
    rw [if_pos hls]
    exact Triple.pure _ fun w hw => ⟨rfl, hw⟩
  · intro hls
    rw [if_neg hls]
    apply Triple.ite
    · intro htfd
      rw [if_pos htfd]
      refine Triple.get_bind fun w hw => Triple.pure _ ?_
      rintro w' rfl
      exact ⟨congrArg (fun l' : EpollLedger => l'.app.tfd) hw, hw⟩
    · intro htfd
      rw [if_neg htfd]
      have hlive := (hp.resolve_left hls).resolve_left htfd
      refine (booked_readCon (conAt_eq hlive)).bind fun c => Triple.pure _ ?_
      rintro w ⟨hshape, hw⟩
      rw [← hshape]
      exact ⟨rfl, hw⟩

theorem booked_epollCtlAdd (fd : Fd) (data : Ptr) :
    Triple (Booked epollShape l) (epollCtlAdd fd data) fun rc w =>
      (rc = -1 ∧ Booked epollShape l w) ∨
        (rc = 0 ∧ l.interest fd = none ∧ Booked epollShape (l.registered fd data) w) := by
  refine (triple_of_keepsLedger keepsLedger_hostYield).bind fun t => Triple.ite (fun _ => ?_)
    fun _ => Triple.get_bind fun w hw => ?_
  · exact Triple.pure _ fun w hw => .inl ⟨rfl, hw⟩
  · subst hw
    apply Triple.modify_bind
    apply Triple.pure
    rintro w' rfl
    unfold Kernel.epollAdd
    cases hfile : w.kernel.files fd with
    | none => exact .inl ⟨rfl, rfl⟩
    | some f =>
        cases hinterest : w.kernel.interest fd with
        | some q => exact .inl ⟨rfl, by simp [Booked]⟩
        | none => exact .inr ⟨rfl, hinterest, by simp [Booked, ledger, Ledger.registered]⟩

theorem booked_assertAdded {text : String} {rc : Int} :
    Triple (fun w : EpollWorld => (rc = -1 ∧ Booked epollShape l w) ∨
        (rc = 0 ∧ l.interest fd = none ∧ Booked epollShape (l.registered fd data) w))
      (assertZero rc text) fun _ w =>
        l.interest fd = none ∧ Booked epollShape (l.registered fd data) w := by
  refine triple_assertZero.post ?_
  rintro _ w ⟨⟨rfl, -⟩ | ⟨-, hadded⟩, hrc⟩
  · cases hrc
  · exact hadded

theorem stored_stored (con con' : PdEchoConnection) :
    (l.stored p con).stored p con' = l.stored p con' := by
  simp [Ledger.stored]

theorem live_stored (con : PdEchoConnection) : (l.stored p con).cons p = some con :=
  Function.update_self ..

theorem booked_pushHistory (step : ClientStep) :
    Triple (Booked epollShape l)
      (modifyApp fun a => { a with history := a.history ++ [step] }) fun _ =>
      Booked epollShape (withHistory l step) :=
  booked_epollApp _

theorem booked_epollHandleNewClient :
    Triple (Booked epollShape l) (epollHandleNewClient cfg fd) fun _ w =>
      ∃ p, 3 ≤ p ∧ l.cons p = none ∧ l.interest fd = none ∧
        Booked epollShape (clientJoined l fd p) w := by
  refine Triple.get_bind fun w hw => ?_
  have hobject : w.kernel.files fd = l.files fd := congrFun (congrArg Ledger.files hw) fd
  rw [hobject]
  refine (triple_of_booked hw (booked_allocCon _)).bind fun p =>
    booked_assertAllocated.bind fun _ => Triple.and_pre fun hp => Triple.and_pre fun hnew => ?_
  have hset : Triple (Booked epollShape (l.stored p { object := l.files fd }))
      (modifyCon p fun c => { c with fd := fd, bufSize := 0 } : Program EpollWorld PUnit) fun _ =>
        Booked epollShape (l.stored p { fd := fd, object := l.files fd }) := by
    have hlive : (l.stored p { object := l.files fd }).cons p = some { object := l.files fd } :=
      live_stored _
    have hstored : ∀ g : PdEchoConnection → PdEchoConnection,
        (∀ c : PdEchoConnection, epollShape { c with fd := fd, bufSize := 0 } =
          g (epollShape c)) →
        Triple (Booked epollShape (l.stored p { object := l.files fd }))
          (modifyCon p fun c => { c with fd := fd, bufSize := 0 } : Program EpollWorld PUnit)
          fun _ => Booked epollShape
            ((l.stored p { object := l.files fd }).stored p (g { object := l.files fd })) :=
      fun _ hg => booked_modifyCon hg hlive
    have hwrite := hstored (fun c => { c with fd := fd }) fun _ => rfl
    rwa [stored_stored] at hwrite
  refine hset.bind fun _ => (booked_epollCtlAdd fd p).bind fun rc =>
    booked_assertAdded.bind fun _ => Triple.and_pre fun hinterest => ?_
  have hlive : ((l.stored p { fd := fd, object := l.files fd }).registered fd p).cons p ≠ none := by
    simp [Ledger.registered, Ledger.stored]
  refine (booked_dllConnectBack hlive).bind fun _ => (booked_pushHistory _).bind fun _ => ?_
  exact (booked_hostBench _).post fun _ w hw => ⟨p, hp, hnew, hinterest, hw⟩

/-- Each turn of the loop accepts a client, or finds that there is none. -/
theorem triple_epollHandleNewClientsLoop (fuel : Nat) (ls : Fd) :
    Triple (Booked epollShape l) (epollHandleNewClientsLoop cfg ls fuel) fun _ w =>
      Accepted l (ledger epollShape w) := by
  induction fuel generalizing l with
  | zero => exact Triple.throw _
  | succ fuel ih =>
      refine (booked_acceptClient ls).bind fun clientFd => Triple.ite (fun hnone => ?_)
        fun hsome => ?_
      · apply Triple.pure
        rintro w (⟨-, hw⟩ | ⟨hfd, -⟩)
        · rw [show ledger epollShape w = _ from hw]
          exact .done l
        · exact absurd hnone (ne_of_fd_nonneg hfd)
      · refine Triple.or_pre (Triple.and_pre fun hnone => absurd hnone hsome) ?_
        refine Triple.and_pre fun hfd => Triple.and_pre fun hfree => Triple.exists_pre fun c => ?_
        refine booked_epollHandleNewClient.bind fun _ => Triple.exists_pre fun p =>
          Triple.and_pre fun hp => Triple.and_pre fun hnew => Triple.and_pre fun hinterest => ?_
        exact ih.post fun _ w hrest => .more l clientFd c p _ hfd hfree hp hnew hinterest hrest

theorem triple_epollHandleNewClients (ls : Fd) :
    Triple (Booked epollShape l) (epollHandleNewClients cfg ls) fun _ w =>
      Accepted l (ledger epollShape w) :=
  Triple.get_bind fun _ hw => triple_of_booked hw (triple_epollHandleNewClientsLoop _ ls)

theorem booked_closeTimer :
    Triple (Booked epollShape l) closeTimer fun _ w =>
      ∃ f, l.files l.app.tfd = some f ∧ Booked epollShape (timerClosed l f) w := by
  refine Triple.get_bind fun w hw => ?_
  have happ : w.app = l.app := congrArg Ledger.app hw
  rw [happ]
  refine (triple_of_booked hw (booked_hostClose _)).bind fun rc => booked_assertClosed.bind
    fun _ => Triple.exists_pre fun f => Triple.and_pre fun hfile => ?_
  exact (booked_epollApp _).post fun _ w' hw' => ⟨f, hfile, hw'⟩

theorem booked_timerExpired :
    Triple (Booked epollShape l) (timerExpired cfg) fun _ w =>
      ∃ f, l.files l.app.tfd = some f ∧ Booked epollShape (timerClosed l f) w := by
  refine booked_closeTimer.bind fun _ => Triple.exists_pre fun f => Triple.and_pre fun hfile => ?_
  apply triple_whenTrue
  · intro _
    refine (triple_of_keepsLedger keepsLedger_hostNow).bind fun now => ?_
    exact (triple_of_keepsLedger (keepsLedger_modifyHostBench _)).post fun _ w hw =>
      ⟨f, hfile, hw⟩
  · intro w hw _
    exact ⟨f, hfile, hw⟩

/-- The connection is out of the list when its descriptor is closed. -/
theorem booked_closeClient (hlive : l.cons p ≠ none) :
    Triple (Booked epollShape l) (closeClient p) fun _ w =>
      ∃ f, l.files (conAt l p).fd = some f ∧
        Booked epollShape (clientGone (unlinked l p) p f) w := by
  have hrelinked := relinked_unlinked l p
  have hlive' : (unlinked l p).cons p ≠ none := fun hnone =>
    hlive ((hrelinked.live_iff p).mp hnone)
  have hfd : (conAt (unlinked l p) p).fd = (conAt l p).fd :=
    congrArg Prod.fst (hrelinked.core_eq hlive)
  refine (booked_dllRemove hlive).bind fun _ => ?_
  refine (booked_readCon (conAt_eq hlive')).bind fun c => Triple.and_pre fun hshape => ?_
  have hcore : core c = core (conAt (unlinked l p) p) := by
    rw [← hshape]
    rfl
  rw [show c.fd = (conAt (unlinked l p) p).fd from congrArg Prod.fst hcore,
    show c.object = (conAt (unlinked l p) p).object from congrArg Prod.snd hcore]
  refine (booked_hostClose _).bind fun rc => booked_assertClosed.bind fun _ =>
    Triple.exists_pre fun f => Triple.and_pre fun hfile => ?_
  rw [hfd, hrelinked.files] at hfile
  have hlast : (withHistory ((unlinked l p).closed (conAt (unlinked l p) p).fd f)
      (.closed (linkOf (unlinked l p) p))).cons p = some (conAt (unlinked l p) p) :=
    conAt_eq hlive'
  refine (booked_pushHistory _).bind fun _ => ?_
  exact (booked_freeCon hlast).post fun _ w hw => ⟨f, hfile, hw⟩

theorem booked_setBuf (hlive : l.cons p ≠ none) (buf : List Octet) (size : UInt32) :
    Triple (Booked epollShape l)
      (modifyCon p fun c => { c with buf := buf, bufSize := size } : Program EpollWorld PUnit)
      fun _ => Booked epollShape l :=
  booked_modifyCon_same (fun _ => rfl) (conAt_eq hlive)

theorem booked_handleClientData (hlive : l.cons p ≠ none) :
    Triple (Booked epollShape l) (handleClientData cfg p) fun _ => Booked epollShape l := by
  refine (triple_of_keepsLedger (keepsLedger_hostStart cfg)).bind fun start => ?_
  refine (booked_readCon (conAt_eq hlive)).bind fun c => Triple.and_pre fun _ => ?_
  refine (booked_readNEcho cfg _ _).bind fun read => ?_
  refine (booked_setBuf hlive _ _).bind fun _ => ?_
  refine triple_whenTrue (fun _ => ?_) fun _ hw _ => hw
  refine (triple_of_keepsLedger keepsLedger_hostNow).bind fun finish => ?_
  refine (triple_of_keepsLedger keepsLedger_hostNow).bind fun now => ?_
  exact triple_of_keepsLedger (keepsLedger_modifyHostBench _)

theorem triple_serviceEvent (ev : EpollEvent) (hp : Pointed l ev.data) :
    Triple (Booked epollShape l) (serviceEvent cfg ev) fun _ w =>
      Serviced cfg l ev (ledger epollShape w) := by
  refine (booked_readFd hp).bind fun fd => Triple.and_pre ?_
  rintro rfl
  refine Triple.ite (fun hls => ?_) fun hls => ?_
  · refine (booked_epollApp _).bind fun _ => ?_
    exact (triple_epollHandleNewClients _).post fun _ w haccepted => .newClient _ hls haccepted
  · refine (booked_readFd hp).bind fun fd => Triple.and_pre ?_
    rintro rfl
    refine Triple.get_bind fun w hw => ?_
    have happ : w.app = l.app := congrArg Ledger.app hw
    rw [happ]
    refine Triple.ite (fun htfd => ?_) fun htfd => ?_
    · refine (triple_of_booked hw (booked_epollApp _)).bind fun _ => ?_
      refine booked_timerExpired.post fun _ w' hclosed => ?_
      obtain ⟨f, hfile, hw'⟩ := hclosed
      rw [show ledger epollShape w' = _ from hw']
      exact .timer f hls htfd hfile
    · have hlive : l.cons ev.data ≠ none := by
        refine (hp.resolve_left fun hholder => hls ?_).resolve_left fun hholder => htfd ?_
        · rw [eventFd, if_pos hholder]
        · rw [eventFd, hholder]
          rfl
      refine (triple_of_booked hw (booked_epollApp _)).bind fun _ => ?_
      have hkept : Serviced cfg l ev (recordedAs l .client ev) := .kept hls htfd
      refine Triple.ite (fun hrdhup => ?_) fun _ => Triple.ite (fun _ => ?_) fun _ => ?_
      · have hlive' : (recordedAs l .client ev).cons ev.data ≠ none := hlive
        refine (booked_closeClient hlive').post fun _ w' hclosed => ?_
        obtain ⟨f, hfile, hw'⟩ := hclosed
        rw [show ledger epollShape w' = _ from hw']
        exact .closed f hls htfd hrdhup hfile
      · have hlive' : (recordedAs l .client ev).cons ev.data ≠ none := hlive
        refine (booked_handleClientData hlive').post fun _ w' hw' => ?_
        rw [show ledger epollShape w' = _ from hw']
        exact hkept
      · refine Triple.pure _ fun w' hw' => ?_
        rw [show ledger epollShape w' = _ from hw']
        exact hkept

end Handlers

end EchoServers.EpollEffects
