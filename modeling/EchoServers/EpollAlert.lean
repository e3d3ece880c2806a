import EchoServers.EpollListRuns
import EchoServers.EpollRuns
import EchoServers.PendingEdges

namespace EchoServers.EpollAlert

open EchoServers.EpollEffects
open EchoServers.EpollList
open EchoServers.EpollListRuns
open EchoServers.EpollRuns
open EchoServers.EpollServer
open EchoServers.HostLedger
open EchoServers.PendingEdges
open EchoServers.ServerBenchmark
open EchoServers.ServerUtils
open EchoServers.SocketKernel
open EchoServers.StateTriples
open EchoServers.Utils

section Watched

/-- What the alertness of the server depends on: the kernel, and for each
connection its descriptor and the size of its buffer. -/
def watched (w : EpollWorld) : Kernel × (Ptr → Option (Fd × Nat)) :=
  (w.kernel, fun p => (w.cons p).map fun con => (con.fd, con.buf.length))

/-- The calls change nothing of it. -/
abbrev KeepsWatched {β : Type} (x : Program EpollWorld β) : Prop :=
  Preserves watched (fun _ => True) x

/-- Nothing is overlooked while the events `evs` are left, and every buffer has
room for more than a message. -/
structure Watch (cfg : ServerConfig) (evs : List EpollEvent) (w : EpollWorld) : Prop where
  alert : Alert evs w.kernel
  buffers : ∀ p con, w.cons p = some con → con.buf.length = cfg.defaultServerBufferSize

variable {cfg : ServerConfig} {evs : List EpollEvent} {ev : EpollEvent} {w w' : EpollWorld}
  {p : Ptr} {fd : Fd} {β : Type}

theorem Watch.congr (h : Watch cfg evs w) (hsame : watched w' = watched w) :
    Watch cfg evs w' := by
  obtain ⟨hkernel, hcons⟩ := Prod.ext_iff.mp hsame
  constructor
  · have hkernel : w'.kernel = w.kernel := hkernel
    rw [hkernel]
    exact h.alert
  · intro p con hcon
    have hat := congrFun hcons p
    change (w'.cons p).map _ = (w.cons p).map _ at hat
    rw [hcon, Option.map_some] at hat
    obtain ⟨con', hcon', heq⟩ := Option.map_eq_some_iff.mp hat.symm
    have hlength : con'.buf.length = con.buf.length := congrArg Prod.snd heq
    rw [← hlength]
    exact h.buffers p con' hcon'

theorem triple_keepsWatched {x : Program EpollWorld β} (hx : KeepsWatched x) :
    Triple (Watch cfg evs) x fun _ => Watch cfg evs := by
  intro w hw a w' hrun
  exact hw.congr (hx.keeps (fun v => v = watched w) w rfl a w' hrun)

theorem stable_watch : Stable (Watch cfg evs) := by
  constructor
  · intro w a h
    exact ⟨h.alert.arrive a, h.buffers⟩
  · intro w s h
    exact ⟨h.alert, h.buffers⟩

end Watched

section ConnectionList

theorem keepsWatched_hostFault (f : Fault) :
    KeepsWatched (hostFault f : Program EpollWorld PUnit) :=
  Preserves.modify fun _ => rfl

theorem keepsWatched_modifyApp (f : EpollApp → EpollApp) : KeepsWatched (modifyApp f) :=
  Preserves.modify fun _ => rfl

theorem keepsWatched_modifyHostBench (f : ServerBench → ServerBench) :
    KeepsWatched (modifyHostBench f : Program EpollWorld PUnit) :=
  Preserves.modify fun _ => rfl

theorem keepsWatched_readCon (p : Ptr) : KeepsWatched (readCon p) := by
  apply Preserves.get_bind
  intro w
  cases w.cons p with
  | some con => exact Preserves.pure _
  | none => exact (keepsWatched_hostFault _).bind fun _ => Preserves.pure _

theorem keepsWatched_whenTrue {c : Prop} [Decidable c] {x : Program EpollWorld PUnit}
    (hx : KeepsWatched x) : KeepsWatched (whenTrue c x) :=
  Preserves.ite hx (Preserves.pure _)

theorem keepsWatched_whenNonNull {π : Type} {q : Option π} {x : π → Program EpollWorld PUnit}
    (hx : ∀ r, KeepsWatched (x r)) : KeepsWatched (whenNonNull q x) := by
  cases q with
  | none => exact Preserves.pure _
  | some r => exact hx r

/-- A function that writes a field other than the descriptor and the buffer. -/
def Plain (f : PdEchoConnection → PdEchoConnection) : Prop :=
  ∀ con, (f con).fd = con.fd ∧ (f con).buf.length = con.buf.length

theorem plain_next (next : Option Link) : Plain fun c => { c with next := next } :=
  fun _ => ⟨rfl, rfl⟩

theorem plain_prev (prev : Option Link) : Plain fun c => { c with prev := prev } :=
  fun _ => ⟨rfl, rfl⟩

theorem keepsWatched_modifyCon (p : Ptr) {f : PdEchoConnection → PdEchoConnection}
    (hf : Plain f) :
    KeepsWatched (modifyCon p f : Program EpollWorld PUnit) := by
  constructor
  · exact Stops.of_returns (returns_modifyCon p f)
  · intro P
    refine Triple.get_bind fun w hw => ?_
    cases hcon : w.cons p with
    | none =>
        apply Triple.modify
        rintro w' rfl
        exact hw
    | some con =>
        apply Triple.modify
        rintro w' rfl
        have hsame : watched { w' with cons := Function.update w'.cons p (some (f con)) } =
            watched w' := by
          refine Prod.ext_iff.mpr ⟨rfl, ?_⟩
          funext q
          change Option.map _ (Function.update w'.cons p (some (f con)) q) = Option.map _ _
          rcases eq_or_ne q p with rfl | hne
          · rw [Function.update_self, hcon, Option.map_some, Option.map_some, (hf con).1,
              (hf con).2]
          · rw [Function.update_of_ne hne]
        rw [hsame]
        exact hw

theorem keepsWatched_linkTo (p : Ptr) : KeepsWatched (linkTo p) :=
  (keepsWatched_readCon p).bind fun _ => Preserves.pure _

theorem keepsWatched_writeThrough (link : Link) {f : PdEchoConnection → PdEchoConnection}
    (hf : Plain f) :
    KeepsWatched (writeThrough link f) := by
  apply Preserves.get_bind
  intro w
  cases w.cons link.ptr with
  | some con =>
      exact (keepsWatched_whenTrue (keepsWatched_hostFault _)).bind fun _ =>
        keepsWatched_modifyCon _ hf
  | none => exact keepsWatched_hostFault _

theorem keepsWatched_dllConnectBack (p : Ptr) : KeepsWatched (dllConnectBack p) := by
  refine (keepsWatched_linkTo p).bind fun link => Preserves.get_bind fun w => ?_
  apply Preserves.ite
  · exact (keepsWatched_modifyApp _).bind fun _ => keepsWatched_modifyApp _
  · exact (keepsWatched_modifyCon p (plain_prev _)).bind fun _ => keepsWatched_modifyApp _

theorem keepsWatched_dllRemove (p : Ptr) : KeepsWatched (dllRemove p) := by
  refine (keepsWatched_readCon p).bind fun c => ?_
  refine (keepsWatched_whenNonNull fun link =>
    keepsWatched_writeThrough link (plain_prev _)).bind fun _ => ?_
  refine (keepsWatched_readCon p).bind fun c => ?_
  refine (keepsWatched_whenNonNull fun link =>
    keepsWatched_writeThrough link (plain_next _)).bind fun _ => ?_
  refine (keepsWatched_readCon p).bind fun c => ?_
  refine Preserves.get_bind fun w =>
    (keepsWatched_whenTrue (keepsWatched_modifyApp _)).bind fun _ => ?_
  exact Preserves.get_bind fun w => keepsWatched_whenTrue (keepsWatched_modifyApp _)

end ConnectionList

section Handlers

variable {cfg : ServerConfig} {evs : List EpollEvent} {ev : EpollEvent} {p : Ptr} {fd : Fd}

/-- A structure with a buffer of the right size is stored. -/
theorem Watch.stored {w : EpollWorld} (h : Watch cfg evs w) {con : PdEchoConnection}
    (hcon : con.buf.length = cfg.defaultServerBufferSize) :
    Watch cfg evs { w with cons := Function.update w.cons p (some con) } := by
  refine ⟨h.alert, fun q con' hcon' => ?_⟩
  change Function.update w.cons p (some con) q = some con' at hcon'
  rcases eq_or_ne q p with rfl | hne
  · rw [Function.update_self] at hcon'
    obtain rfl := Option.some.inj hcon'
    exact hcon
  · rw [Function.update_of_ne hne] at hcon'
    exact h.buffers q con' hcon'

theorem watch_modifyCon {f : PdEchoConnection → PdEchoConnection}
    (hf : ∀ con, con.buf.length = cfg.defaultServerBufferSize →
      (f con).buf.length = cfg.defaultServerBufferSize) :
    Triple (Watch cfg evs) (modifyCon p f : Program EpollWorld PUnit) fun _ => Watch cfg evs := by
  refine Triple.get_bind fun w hw => ?_
  cases hcon : w.cons p with
  | none =>
      apply Triple.modify
      rintro w' rfl
      exact ⟨hw.alert, hw.buffers⟩
  | some con =>
      apply Triple.modify
      rintro w' rfl
      exact hw.stored (hf con (hw.buffers p con hcon))

theorem watch_allocCon {init : PdEchoConnection}
    (hinit : init.buf.length = cfg.defaultServerBufferSize) :
    Triple (Watch cfg evs) (allocCon init : Program EpollWorld Ptr) fun _ => Watch cfg evs := by
  refine (triple_allocCon stable_watch init).post ?_
  rintro p w' ⟨w, hw, ⟨-, rfl⟩ | ⟨-, -, rfl⟩⟩
  · exact hw
  · exact hw.stored hinit

theorem watch_epollCtlAdd (fd : Fd) (data : Ptr) :
    Triple (Watch cfg evs) (epollCtlAdd fd data) fun _ => Watch cfg evs := by
  refine (triple_hostYield stable_watch).bind fun t => Triple.ite (fun _ => ?_) fun _ => ?_
  · exact Triple.pure _ fun _ hw => hw
  · refine Triple.get_bind fun w hw => ?_
    apply Triple.modify_bind
    apply Triple.pure
    rintro w' rfl
    exact ⟨hw.alert.epollAdd fd data, hw.buffers⟩

theorem watch_epollHandleNewClient (fd : Fd) :
    Triple (Watch cfg evs) (epollHandleNewClient cfg fd) fun _ => Watch cfg evs := by
  refine Triple.get_bind fun w hw => ?_
  refine ((watch_allocCon (by simp)).pre fun _ heq => heq ▸ hw).bind fun p => ?_
  refine triple_assertNnull.bind fun _ => Triple.pre ?_ fun _ h => h.1
  refine Triple.bind (Q := fun _ => Watch cfg evs) (watch_modifyCon ?_) fun _ => ?_
  · exact fun con hlength => hlength
  refine (watch_epollCtlAdd _ _).bind fun rc => triple_assertZero.bind fun _ =>
    Triple.pre ?_ fun _ h => h.1
  refine (triple_keepsWatched (keepsWatched_dllConnectBack p)).bind fun _ => ?_
  refine (triple_keepsWatched (keepsWatched_modifyApp _)).bind fun _ => ?_
  exact triple_keepsWatched (keepsWatched_whenTrue (keepsWatched_modifyHostBench _))

/-- Clients are accepted until none waits. -/
theorem watch_epollHandleNewClientsLoop (ls : Fd) (fuel : Nat) :
    Triple (Watch cfg evs) (epollHandleNewClientsLoop cfg ls fuel) fun _ w =>
      Watch cfg evs w ∧ w.kernel.backlog = [] := by
  induction fuel with
  | zero => exact Triple.throw _
  | succ fuel ih =>
      refine (triple_acceptClient stable_watch ls).bind fun clientFd => ?_
      apply Triple.ite
      · intro hnone
        apply Triple.pure
        rintro w' ⟨w, hw, ⟨-, hbacklog, rfl⟩ | ⟨c, rest, -, hfd, -, rfl⟩⟩
        · exact ⟨⟨hw.alert, hw.buffers⟩, hbacklog⟩
        · exact absurd hnone (ne_of_fd_nonneg hfd)
      · intro hsome
        refine Triple.bind (Q := fun _ => Watch cfg evs) ?_ fun _ => ih
        refine (watch_epollHandleNewClient clientFd).pre ?_
        rintro w' ⟨w, hw, ⟨hnone, -, -⟩ | ⟨c, rest, hbacklog, hfd, hfree, rfl⟩⟩
        · exact absurd hnone hsome
        · exact ⟨hw.alert.accept hfree hbacklog, hw.buffers⟩

theorem watch_epollHandleNewClients (ls : Fd) :
    Triple (Watch cfg evs) (epollHandleNewClients cfg ls) fun _ w =>
      Watch cfg evs w ∧ w.kernel.backlog = [] := by
  refine Triple.get_bind fun w hw => ?_
  exact (watch_epollHandleNewClientsLoop ls _).pre fun _ heq => heq ▸ hw

/-- The event whose descriptor is closed is done with. -/
theorem watch_hostClose (hfd : ev.fd = fd) :
    Triple (Watch cfg (ev :: evs)) (hostClose fd : Program EpollWorld Int) fun rc w =>
      rc = 0 → Watch cfg evs w := by
  refine (triple_hostClose stable_watch fd).post ?_
  rintro rc w' ⟨w, hw, rfl, rfl⟩ hrc
  subst hfd
  cases hfile : w.kernel.files ev.fd with
  | none =>
      rw [Kernel.close, hfile] at hrc
      cases hrc
  | some f => exact ⟨hw.alert.close hfile, hw.buffers⟩

theorem watch_timerExpired {w : EpollWorld} (hw : Watch cfg (ev :: evs) w)
    (hfd : ev.fd = w.app.tfd) :
    Triple (fun w' => w' = w) (timerExpired cfg) fun _ => Watch cfg evs := by
  have hclose : Triple (fun w' => w' = w) closeTimer fun _ => Watch cfg evs := by
    refine Triple.get_bind ?_
    rintro w' rfl
    refine ((watch_hostClose hfd).pre fun _ heq => heq ▸ hw).bind fun rc =>
      triple_assertZero.bind fun _ => ?_
    exact (triple_keepsWatched (keepsWatched_modifyApp _)).pre fun _ h => h.1 h.2
  refine hclose.bind fun _ => ?_
  apply triple_whenTrue
  · intro _
    refine (triple_hostNow stable_watch).bind fun now => ?_
    exact triple_keepsWatched (keepsWatched_modifyHostBench _)
  · exact fun _ hw _ => hw

/-- The structure at `p` is that of a client with the descriptor `fd`. -/
def Seat (p : Ptr) (fd : Fd) (w : EpollWorld) : Prop :=
  ∃ n, (watched w).2 p = some (fd, n)

/-- A client's structure holds the descriptor it was accepted with. -/
theorem seat_of_clients {w : EpollWorld} {p : Ptr} {fd : Fd} {object : Option File}
    (hcon : clients (ledger epollShape w) p = some (fd, object)) : Seat p fd w := by
  obtain ⟨con, hlive, rfl, -⟩ := exists_con hcon
  refine ⟨con.buf.length, ?_⟩
  change (w.cons p).map _ = _
  rw [hlive]
  rfl

theorem triple_seat {β : Type} {x : Program EpollWorld β} (hx : KeepsWatched x) :
    Triple (fun w => Watch cfg evs w ∧ Seat p fd w) x fun _ w => Watch cfg evs w ∧ Seat p fd w :=
  (triple_keepsWatched hx).and (hx.keeps fun v => ∃ n, v.2 p = some (fd, n))

theorem stable_seat : Stable fun w => Watch cfg evs w ∧ Seat p fd w := by
  constructor
  · intro w a h
    exact ⟨stable_watch.arrive w a h.1, h.2⟩
  · intro w s h
    exact ⟨stable_watch.sched w s h.1, h.2⟩

/-- The structure of the client is read. -/
theorem watch_readSeat :
    Triple (fun w => Watch cfg evs w ∧ Seat p fd w) (readCon p) fun con w =>
      con.fd = fd ∧ con.buf.length = cfg.defaultServerBufferSize ∧ Watch cfg evs w := by
  refine Triple.get_bind ?_
  rintro w ⟨hw, n, hseat⟩
  obtain ⟨con, hcon, hview⟩ := Option.map_eq_some_iff.mp hseat
  rw [hcon]
  apply Triple.pure
  rintro w' rfl
  exact ⟨congrArg Prod.fst hview, hw.buffers p con hcon, hw⟩

theorem watch_freeCon : Triple (Watch cfg evs) (freeCon p : Program EpollWorld PUnit)
    fun _ => Watch cfg evs := by
  refine Triple.get_bind fun w hw => ?_
  cases hcon : w.cons p with
  | none =>
      apply Triple.modify
      rintro w' rfl
      exact ⟨hw.alert, hw.buffers⟩
  | some con =>
      apply Triple.modify
      rintro w' rfl
      refine ⟨hw.alert, fun q con' hcon' => ?_⟩
      change Function.update w'.cons p none q = some con' at hcon'
      rcases eq_or_ne q p with rfl | hne
      · rw [Function.update_self] at hcon'
        cases hcon'
      · rw [Function.update_of_ne hne] at hcon'
        exact hw.buffers q con' hcon'

theorem watch_closeClient (hfd : ev.fd = fd) :
    Triple (fun w => Watch cfg (ev :: evs) w ∧ Seat p fd w) (closeClient p) fun _ =>
      Watch cfg evs := by
  refine (triple_seat (keepsWatched_dllRemove p)).bind fun _ => watch_readSeat.bind fun con =>
    Triple.and_pre fun hcon => Triple.and_pre fun _ => ?_
  refine (watch_hostClose (hfd.trans hcon.symm)).bind fun rc => triple_assertZero.bind fun _ => ?_
  refine Triple.bind (Q := fun _ => Watch cfg evs) ?_ fun _ => ?_
  · exact (triple_keepsWatched (keepsWatched_modifyApp _)).pre fun _ h => h.1 h.2
  · exact watch_freeCon

/-- What is read leaves nothing unread, unless there is more than a message. -/
theorem watch_readNEcho {buf : List Octet} (hbuf : buf.length = cfg.defaultServerBufferSize)
    (hrdhup : ev.events.rdhup = false) :
    Triple (Watch cfg (ev :: evs))
      (readNEcho cfg ev.fd buf : Program EpollWorld (Int × List Octet)) fun r w =>
      r.2.length = cfg.defaultServerBufferSize ∧ Watch cfg evs w := by
  have hread : ∀ (w : EpollWorld) c data, Watch cfg (ev :: evs) w →
      w.kernel.files ev.fd = some (.socket c) →
      data = (w.kernel.conns c).unread.take buf.length →
      ((w.kernel.conns c).unread = [] → (w.kernel.conns c).eos = true) →
      data.length ≤ cfg.defaultBufferSize.toNat →
      Watch cfg evs { w with kernel := w.kernel.updateConn c fun con =>
        { con with unread := con.unread.drop buf.length } } := by
    intro w c data hw hfile hdata _ hle
    rw [ServerConfig.defaultServerBufferSize] at hbuf
    have hdrained : (w.kernel.conns c).unread.drop buf.length = [] := by
      rw [hdata, List.length_take] at hle
      apply List.drop_eq_nil_of_le
      omega
    have hread : Alert (ev :: evs) (w.kernel.updateConn c fun con =>
        { con with unread := con.unread.drop buf.length }) := by
      apply hw.alert.updateConn
      · exact fun hne => absurd hdrained hne
      · rfl
    refine ⟨hread.handled fun f cause hfile' hseen hcause => ?_, hw.buffers⟩
    rw [updateConn_files, hfile] at hfile'
    obtain rfl := Option.some.inj hfile'
    cases cause with
    | connection => exact hcause
    | data =>
        change ((w.kernel.updateConn c _).conns c).unread ≠ [] at hcause
        rw [updateConn_conns_self] at hcause
        exact hcause hdrained
    | finish => exact absurd (hrdhup.symm.trans hseen) (by simp)
  refine (triple_readNEcho (R := fun data w => data.length ≤ cfg.defaultBufferSize.toNat →
    Watch cfg evs w) stable_watch cfg ev.fd buf hread fun data => ?_).post ?_
  · constructor
    · intro w a h hle
      exact stable_watch.arrive w a (h hle)
    · intro w s h hle
      exact stable_watch.sched w s (h hle)
  · rintro r w' (⟨rfl, hw⟩ | ⟨w, c, data, hw, hlength, -, rfl, rfl⟩)
    · exact ⟨hbuf, hw (Nat.zero_le _)⟩
    · have hw := hw (le_of_eq hlength)
      have hwritten : Alert evs (w.kernel.updateConn c fun con =>
          { con with transmitted := con.transmitted ++ data }) :=
        hw.alert.updateConn id rfl
      refine ⟨?_, ⟨hwritten, hw.buffers⟩⟩
      rw [ServerConfig.defaultServerBufferSize] at hbuf ⊢
      simp only [overwrite, List.length_append, List.length_drop]
      omega

theorem watch_handleClientData (hfd : ev.fd = fd) (hrdhup : ev.events.rdhup = false) :
    Triple (fun w => Watch cfg (ev :: evs) w ∧ Seat p fd w) (handleClientData cfg p) fun _ =>
      Watch cfg evs := by
  refine (triple_hostStart stable_seat cfg).bind fun start => watch_readSeat.bind fun con =>
    Triple.and_pre fun hcon => Triple.and_pre fun hbuf => ?_
  rw [hcon, ← hfd]
  refine (watch_readNEcho hbuf hrdhup).bind fun read => Triple.and_pre fun hlength => ?_
  refine Triple.bind (Q := fun _ => Watch cfg evs) (watch_modifyCon ?_) fun _ => ?_
  · exact fun _ _ => hlength
  apply triple_whenTrue
  · intro _
    refine (triple_hostNow stable_watch).bind fun finish => ?_
    refine (triple_hostNow stable_watch).bind fun now => ?_
    exact triple_keepsWatched (keepsWatched_modifyHostBench _)
  · exact fun _ hw _ => hw

end Handlers

section Events

variable {cfg : ServerConfig} {evs : List EpollEvent} {ev : EpollEvent}

theorem keepsWatched_record (branch : Branch) (ev : EpollEvent) :
    KeepsWatched (record branch ev) :=
  keepsWatched_modifyApp _

theorem watch_handleClientEvent {fd : Fd} (hfd : ev.fd = fd) :
    Triple (fun w => Watch cfg (ev :: evs) w ∧ Seat ev.data fd w) (handleClientEvent cfg ev)
      fun _ => Watch cfg evs := by
  apply Triple.ite
  · intro _
    exact watch_closeClient hfd
  · intro hrdhup
    rw [Bool.not_eq_true] at hrdhup
    apply Triple.ite
    · intro _
      exact watch_handleClientData hfd hrdhup
    · intro hreadable
      apply Triple.pure
      rintro w ⟨hw, -⟩
      refine ⟨hw.alert.handled fun f cause _ hseen => ?_, hw.buffers⟩
      cases cause with
      | connection => exact absurd hseen hreadable
      | data => exact absurd hseen hreadable
      | finish => exact absurd (hrdhup.symm.trans hseen) (by simp)

/-- When an event has been serviced, what it stood for does not wait any more. -/
theorem watch_serviceEvent :
    Triple (fun w => Between cfg (ev :: evs) w ∧ Watch cfg (ev :: evs) w) (serviceEvent cfg ev)
      fun _ w => Between cfg evs w ∧ Watch cfg evs w := by
  rintro w ⟨hbetween, hw⟩ a t hrun
  have hafter := (triple_serviceEvent_kept kept_true ev w ⟨hbetween, trivial⟩ a t hrun).1
  refine ⟨hafter, ?_⟩
  obtain ⟨horderly, hremaining⟩ := hbetween
  have hdue := horderly.due hremaining
  rw [serviceEvent_eq hdue.pointed, branchTaken_eq horderly hremaining] at hrun
  have hrecorded : ∀ branch, Triple (fun w' => w' = w) (record branch ev)
      fun _ => Watch cfg (ev :: evs) := fun branch =>
    (triple_keepsWatched (keepsWatched_record branch ev)).pre fun _ heq => heq ▸ hw
  cases hdue with
  | listening hfd hdata hobject =>
      rw [hobject] at hrun
      have haccepted := ((hrecorded .newClient).bind fun _ =>
        watch_epollHandleNewClients cfg.listeningSocket) w rfl a t hrun
      refine ⟨haccepted.1.alert.handled fun f cause hfile _ hcause => ?_, haccepted.1.buffers⟩
      have hlistening : t.kernel.files cfg.listeningSocket = some .listening :=
        hafter.1.registry.listening
      rw [hfd, hlistening] at hfile
      obtain rfl := Option.some.inj hfile
      cases cause with
      | connection => exact hcause haccepted.2
      | data => exact hcause
      | finish => exact hcause
  | timer hopen hfd hdata hobject =>
      rw [hobject] at hrun
      have hw' : Watch cfg (ev :: evs) { w with
          app := { w.app with dispatched := w.app.dispatched ++ [⟨.timer, ev⟩] } } :=
        ⟨hw.alert, hw.buffers⟩
      exact Triple.modify_bind (watch_timerExpired hw' hfd) w rfl a t hrun
  | client c hdata hobject hcon =>
      rw [hobject] at hrun
      have hseated : Triple (fun w' => w' = w) (record .client ev) fun _ w =>
          Watch cfg (ev :: evs) w ∧ Seat ev.data ev.fd w :=
        (triple_seat (keepsWatched_record .client ev)).pre
          fun _ heq => heq ▸ ⟨hw, seat_of_clients hcon⟩
      exact (hseated.bind fun _ => watch_handleClientEvent rfl) w rfl a t hrun

theorem watch_serviceEvents (evs : List EpollEvent) :
    Triple (fun w => Between cfg evs w ∧ Watch cfg evs w) (serviceEvents cfg evs) fun _ w =>
      Between cfg [] w ∧ Watch cfg [] w := by
  induction evs with
  | nil => exact Triple.pure _ fun w h => h
  | cons ev evs ih => exact watch_serviceEvent.bind fun _ => ih

end Events

section Runs

variable {cfg : ServerConfig}

theorem watch_awaitEvents :
    Triple (Watch cfg []) (awaitEvents cfg) fun evs => Watch cfg evs := by
  have hwait : Triple (Watch cfg []) epollPwait fun batch => Watch cfg batch.2 := by
    refine (triple_hostYield stable_watch).bind fun t =>
      Triple.ite (fun _ => triple_exitFailure _) fun _ => Triple.get_bind fun w hw => ?_
    apply Triple.ite
    · intro _
      exact Triple.pure _ fun _ heq => heq ▸ hw
    · intro _
      apply Triple.modify_bind
      apply Triple.modify_bind
      apply Triple.pure
      rintro w' rfl
      exact ⟨hw.alert.wait _ _, hw.buffers⟩
  refine hwait.bind fun batch => ?_
  refine Triple.bind (Q := fun _ => Watch cfg batch.2) ?_ fun _ => Triple.pure _ fun _ hw => hw
  apply triple_keepsWatched
  exact keepsWatched_whenTrue (keepsWatched_whenTrue (keepsWatched_modifyHostBench _))

theorem watch_serviceLoopTurn :
    Triple (fun w => Orderly cfg (ledger epollShape w) ∧ Watch cfg [] w) (serviceLoopTurn cfg)
      fun _ w => Orderly cfg (ledger epollShape w) ∧ Watch cfg [] w := by
  have hawait : Triple (fun w => Orderly cfg (ledger epollShape w) ∧ Watch cfg [] w)
      (awaitEvents cfg) fun evs w => Between cfg evs w ∧ Watch cfg evs w := by
    rintro w ⟨horderly, hw⟩ evs w' hrun
    obtain ⟨hremaining, hbooked⟩ := triple_awaitEvents w rfl evs w' hrun
    have hledger : ledger epollShape w' = ledger epollShape w := hbooked
    refine ⟨?_, watch_awaitEvents w hw evs w' hrun⟩
    rw [Between, hledger]
    exact ⟨horderly, hremaining⟩
  exact hawait.bind fun evs => (watch_serviceEvents evs).post fun _ _ h => ⟨h.1.1, h.2⟩

theorem watch_createEpoll : Triple (Watch cfg []) createEpoll fun _ => Watch cfg [] := by
  refine (triple_hostYield stable_watch).bind fun t => Triple.get_bind fun w hw => ?_
  apply Triple.ite
  · intro _
    exact triple_exitFailure _
  · intro hnew
    rw [not_or, not_or, Bool.not_eq_true (Option.isSome _), Option.isSome_eq_false_iff,
      Option.isNone_iff_eq_none] at hnew
    apply Triple.modify_bind
    apply Triple.pure
    rintro w' rfl
    exact ⟨hw.alert.opened hnew.2.2 .epoll, hw.buffers⟩

theorem watch_createWarmupTimer :
    Triple (Watch cfg []) (createWarmupTimer : Program EpollWorld Fd) fun _ => Watch cfg [] := by
  refine triple_createWarmupTimer (R := fun _ => Watch cfg []) stable_watch ?_
    fun _ => stable_watch
  intro w fd hw _ hfree
  refine ⟨(hw.alert.opened hfree .timer).calm rfl rfl rfl fun f cause hcause => ?_, hw.buffers⟩
  exact pending_mono hcause (fun _ => id) (fun _ _ => id) fun _ _ => id

theorem watch_epollAdd (fd : Fd) (data : Ptr) (text : String) :
    Triple (Watch cfg []) (do
      let rc ← epollCtlAdd fd data
      assertZero rc text) fun _ => Watch cfg [] :=
  (watch_epollCtlAdd fd data).bind fun _ => triple_assertZero.post fun _ _ h => h.1

theorem watch_initialWorld (sched : List (HostTick (List Fd))) :
    Watch cfg [] (initialWorld cfg sched) := by
  refine ⟨⟨fun _ _ => rfl, fun _ _ _ _ hregistered _ => absurd rfl hregistered⟩, ?_⟩
  intro p con hcon
  cases hcon

theorem watch_serviceLoopStart_of :
    Triple (Watch cfg []) (serviceLoopStart cfg) fun _ => Watch cfg [] := by
  refine watch_createEpoll.bind fun epollFd => ?_
  refine (triple_keepsWatched (keepsWatched_modifyApp _)).bind fun _ => ?_
  have htimer : Triple (Watch cfg []) (whenTrue cfg.doServerSideBenchmarking do
      let tfd ← createWarmupTimer
      modifyApp fun a => { a with tfd := tfd }) fun _ => Watch cfg [] := by
    apply triple_whenTrue
    · intro _
      exact watch_createWarmupTimer.bind fun tfd => triple_keepsWatched (keepsWatched_modifyApp _)
    · exact fun _ hw _ => hw
  refine htimer.bind fun _ => (watch_epollAdd _ _ _).bind fun _ => ?_
  apply triple_whenTrue
  · intro _
    exact Triple.get_bind fun w hw => (watch_epollAdd _ _ _).pre fun _ heq => heq ▸ hw
  · exact fun _ hw _ => hw

theorem watch_of_reachable {w : EpollWorld} (h : Reachable cfg w) : Watch cfg [] w := by
  obtain ⟨sched, n, w₀, arrivals, hrun, rfl⟩ := h
  have hstart : Triple (fun w => Booked epollShape (initialLedger cfg {}) w ∧ Watch cfg [] w)
      (serviceLoopStart cfg) fun _ w => Orderly cfg (ledger epollShape w) ∧ Watch cfg [] w :=
    (started_of_initialLedger.and watch_serviceLoopStart_of).post fun _ w h => ⟨h.1.orderly, h.2⟩
  have hfinal := (hstart.bind fun _ => Triple.turns (fun _ => watch_serviceLoopTurn) n ⟨⟩)
    (initialWorld cfg sched) ⟨rfl, watch_initialWorld sched⟩ ⟨⟩ w₀ hrun
  exact stable_watch.arrivals hfinal.2 arrivals

/-- Nothing waits without a pending edge: no connection at the listening socket,
and no bytes or end of stream at a client that is registered. -/
structure WakesUp (cfg : ServerConfig) (k : Kernel) : Prop where
  listening : k.backlog ≠ [] → k.edges cfg.listeningSocket = true
  client : ∀ fd c, k.files fd = some (.socket c) → k.interest fd ≠ none →
    (k.conns c).unread ≠ [] ∨ (k.conns c).eos = true → k.edges fd = true

/-- A client that has been accepted has sent a message. -/
def waitingWorld : EpollWorld :=
  (settled (serviceLoop smallServerConfig 1) (initialWorld smallServerConfig
    [{ fd := 4, answer := [] }, { fd := 5, answer := [] }, { answer := [] }, { answer := [] },
      { answer := [] }, { arrivals := [.connect], answer := [3] }, { fd := 6, answer := [] },
      { ptr := 8, answer := [] }, { answer := [] },
      { arrivals := [.bytes 0 [1, 2]], answer := [] }]) ⟨⟩).2

/-- At the top of the loop nothing is overlooked, however the arrivals fall
between the calls of the server. -/
theorem wakesUp_of_reachable {w : EpollWorld} (h : Reachable cfg w) : WakesUp cfg w.kernel := by
  have halert := (watch_of_reachable h).alert
  have hregistry := (orderly_of_reachable h).registry
  constructor
  · intro hbacklog
    have hheard : w.kernel.interest cfg.listeningSocket ≠ none := by
      rw [show w.kernel.interest cfg.listeningSocket = some lfdHolder from hregistry.heard]
      exact Option.some_ne_none _
    exact halert.edge .connection hregistry.listening hheard hbacklog
  · intro fd c hfile hregistered hwaits
    rcases hwaits with hunread | heos
    · exact halert.edge .data hfile hregistered hunread
    · exact halert.edge .finish hfile hregistered heos

theorem wakesUp_waitingWorld : WakesUp smallServerConfig waitingWorld.kernel :=
  wakesUp_of_reachable (reachable_settled (by decide +kernel))

end Runs

end EchoServers.EpollAlert
