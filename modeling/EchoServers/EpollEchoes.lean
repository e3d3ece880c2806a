import EchoServers.BenchJournal
import EchoServers.EchoTraffic
import EchoServers.EpollAlert

namespace EchoServers.EpollEchoes

open EchoServers.BenchJournal
open EchoServers.EchoService
open EchoServers.EchoTraffic
open EchoServers.EpollAlert
open EchoServers.EpollEffects
open EchoServers.EpollList
open EchoServers.EpollRegistry
open EchoServers.EpollRuns
open EchoServers.EpollServer
open EchoServers.HostLedger
open EchoServers.MeasContainer
open EchoServers.ServerBenchmark
open EchoServers.ServerUtils
open EchoServers.SocketKernel
open EchoServers.StateTriples
open EchoServers.Utils

section Memory

/-- Only the memory of the server is changed, and the events serviced are kept. -/
abbrev KeepsServiced {β : Type} (x : Program EpollWorld β) : Prop :=
  KeepsOutside EpollApp.dispatched x

theorem keepsServiced_modifyApp (f : EpollApp → EpollApp)
    (hf : ∀ a, (f a).dispatched = a.dispatched := by intro _; rfl) :
    KeepsServiced (modifyApp f) := by
  apply Preserves.modify
  intro w
  change (_, _, _, _, _, _, (f w.app).dispatched) = _
  rw [hf]
  rfl

theorem keepsServiced_readCon (p : Ptr) : KeepsServiced (readCon p) := by
  apply Preserves.get_bind
  intro w
  cases w.cons p with
  | some con => exact Preserves.pure _
  | none => exact (keepsOutside_hostFault _).bind fun _ => Preserves.pure _

theorem keepsServiced_linkTo (p : Ptr) : KeepsServiced (linkTo p) :=
  (keepsServiced_readCon p).bind fun _ => Preserves.pure _

theorem keepsServiced_writeThrough (link : Link) (f : PdEchoConnection → PdEchoConnection) :
    KeepsServiced (writeThrough link f) := by
  apply Preserves.get_bind
  intro w
  cases w.cons link.ptr with
  | some con =>
      exact (keepsOutside_whenTrue (keepsOutside_hostFault _)).bind fun _ =>
        keepsOutside_modifyCon _ f
  | none => exact keepsOutside_hostFault _

theorem keepsServiced_dllConnectBack (p : Ptr) : KeepsServiced (dllConnectBack p) := by
  refine (keepsServiced_linkTo p).bind fun link => Preserves.get_bind fun w => ?_
  apply Preserves.ite
  · exact (keepsServiced_modifyApp _).bind fun _ => keepsServiced_modifyApp _
  · exact (keepsOutside_modifyCon p _).bind fun _ => keepsServiced_modifyApp _

theorem keepsServiced_dllRemove (p : Ptr) : KeepsServiced (dllRemove p) := by
  refine (keepsServiced_readCon p).bind fun c => ?_
  refine (keepsOutside_whenNonNull fun link => keepsServiced_writeThrough link _).bind fun _ => ?_
  refine (keepsServiced_readCon p).bind fun c => ?_
  refine (keepsOutside_whenNonNull fun link => keepsServiced_writeThrough link _).bind fun _ => ?_
  refine (keepsServiced_readCon p).bind fun c => Preserves.get_bind fun w => ?_
  refine (keepsOutside_whenTrue (keepsServiced_modifyApp _)).bind fun _ => ?_
  exact Preserves.get_bind fun w => keepsOutside_whenTrue (keepsServiced_modifyApp _)

end Memory

/-- The server closes a connection when the peer has shut down its write side. -/
def PeerFinished (x : Stream Octet) : Prop :=
  x.ended = true

/-- The results of `accept_client` that are no clients are not counted, and
`epoll_pwait` stores some events at most. -/
def manner (cfg : ServerConfig) : Manner where
  cfg := cfg
  counts fd := fd ≠ -1
  bound := epollWaitMaxEvents + 1

theorem manner_cfg (cfg : ServerConfig) : (manner cfg).cfg = cfg := rfl

/-- The events serviced are looked at, the files closed are not. -/
def servicedEvents (a : EpollApp) (_closes : List (Fd × File)) : List Dispatch :=
  a.dispatched

/-- Between two calls the server has nothing in its hands, and `N` is true of its
tally and the events that it has serviced. -/
abbrev Flow (cfg : ServerConfig) (L : (ConnId → Conn) → Prop) (N : Tally → List Dispatch → Prop)
    (w : EpollWorld) : Prop :=
  Traffic cfg.defaultBufferSize.toNat PeerFinished L emptyHands w ∧
    Noted servicedEvents N w

section Calls

variable {cfg : ServerConfig} {S : ConnId → Prop} {L L' : (ConnId → Conn) → Prop}
  {N N' : Tally → List Dispatch → Prop} {fd : Fd} {f : File} {w : EpollWorld}

theorem stable_flow (hL : Lasting S L) : Stable (Flow cfg L N) :=
  stable_and (stable_traffic hL) stable_noted

theorem Flow.mono (h : Flow cfg L N w) (hL : ∀ conns, L conns → L' conns) : Flow cfg L' N w :=
  ⟨⟨h.1.traced, hL _ h.1.known⟩, h.2⟩

theorem flow_keepsServiced {β : Type} {x : Program EpollWorld β} (hx : KeepsServiced x) :
    Triple (Flow cfg L N) x fun _ => Flow cfg L N :=
  (triple_keepsOutside hx).and
    (hx.keeps fun v => N ⟨v.2.1, v.2.2.1, v.2.2.2.1, v.2.2.2.2.1, v.2.2.2.2.2.1⟩ v.2.2.2.2.2.2)

theorem flow_modifyHostBench {f : ServerBench → ServerBench}
    (hf : ∀ t x, N t x → N' { t with bench := f t.bench } x) :
    Triple (Flow cfg L N) (modifyHostBench f : Program EpollWorld PUnit) fun _ => Flow cfg L N' :=
  (traffic_modifyHostBench f).and (noted_modifyHostBench hf)

theorem flow_epollCtlAdd (hL : Lasting S L) (fd : Fd) (data : Ptr) :
    Triple (Flow cfg L N) (epollCtlAdd fd data) fun _ => Flow cfg L N := by
  refine (triple_hostYield (stable_flow hL)).bind fun t => Triple.ite (fun _ => ?_) fun _ => ?_
  · exact Triple.pure _ fun _ hw => hw
  · refine Triple.get_bind fun w hw => ?_
    apply Triple.modify_bind
    apply Triple.pure
    rintro w' rfl
    refine ⟨⟨hw.1.traced.epollAdd fd data, ?_⟩, hw.2⟩
    change L (w.kernel.epollAdd fd data).2.conns
    rw [epollAdd_conns]
    exact hw.1.known

/-- The descriptor of the file `f` is closed. -/
theorem flow_hostClose (hL : Lasting S L)
    (hmay : ∀ conns c, L conns → f = .socket c → (conns c).eos = true) :
    Triple (fun w => Flow cfg L N w ∧ Behind fd f w) (hostClose fd) fun _ => Flow cfg L N := by
  have htraffic : Triple (fun w => Flow cfg L N w ∧ Behind fd f w) (hostClose fd)
      fun _ => Traffic cfg.defaultBufferSize.toNat PeerFinished L emptyHands := by
    apply traffic_hostClose (stable_and (stable_flow hL) stable_behind)
    rintro w ⟨⟨htraffic, -⟩, hfile⟩
    refine ⟨htraffic, fun c hsocket => ?_⟩
    exact hmay _ c htraffic.known (Option.some.inj (hfile.symm.trans hsocket))
  exact (htraffic.and (noted_hostClose_of_blind (fun _ _ _ => rfl) fd)).pre fun w h => ⟨h, h.1.2⟩

end Calls

section Handlers

variable {cfg : ServerConfig} {S : ConnId → Prop} {L : (ConnId → Conn) → Prop}
  {N : Tally → List Dispatch → Prop} {p : Ptr} {fd : Fd} {f : File} {c : ConnId}

theorem flow_epollHandleNewClient (hL : Lasting S L) (hfd : fd ≠ -1) :
    Triple (Flow cfg L fun t x => ∃ t₀, N t₀ x ∧ t = { t₀ with accepts := t₀.accepts ++ [fd] })
      (epollHandleNewClient cfg fd) fun _ =>
      Flow cfg L fun t x => ∃ t₀, N t₀ x ∧ t = t₀.accept (manner cfg) fd := by
  have hcounts : (manner cfg).counts fd = true := decide_eq_true hfd
  refine Triple.get_bind fun w hw => ?_
  refine (((traffic_allocCon hL _).and (noted_allocCon _)).pre fun _ heq => heq ▸ hw).bind
    fun p => ?_
  refine (flow_keepsServiced (keepsOutside_assertNnull _ _)).bind fun _ => ?_
  refine (flow_keepsServiced (keepsOutside_modifyCon _ _)).bind fun _ => ?_
  refine (flow_epollCtlAdd hL _ _).bind fun rc => ?_
  refine (flow_keepsServiced (keepsOutside_assertZero _ _)).bind fun _ => ?_
  refine (flow_keepsServiced (keepsServiced_dllConnectBack p)).bind fun _ => ?_
  refine (flow_keepsServiced (keepsServiced_modifyApp _)).bind fun _ => ?_
  apply triple_whenTrue
  · intro hbench
    apply flow_modifyHostBench
    rintro t x ⟨t₀, ht₀, rfl⟩
    refine ⟨t₀, ht₀, ?_⟩
    rw [Tally.accept, hcounts, Bool.and_true, manner_cfg, if_pos hbench]
  · rintro w ⟨htraffic, t₀, ht₀, ht⟩ hbench
    refine ⟨htraffic, t₀, ht₀, ?_⟩
    rw [Tally.accept, hcounts, Bool.and_true, manner_cfg, if_neg hbench]
    exact ht

/-- Each client that is accepted is counted, until there is none left. -/
theorem flow_epollHandleNewClients (hL : Lasting S L)
    (hN : ∀ t x fd, N t x → N (t.accept (manner cfg) fd) x) (ls : Fd) :
    Triple (Flow cfg L N) (epollHandleNewClients cfg ls) fun _ => Flow cfg L N := by
  have hloop : ∀ fuel, Triple (Flow cfg L N) (epollHandleNewClientsLoop cfg ls fuel)
      fun _ => Flow cfg L N := by
    intro fuel
    induction fuel with
    | zero => exact Triple.throw _
    | succ fuel ih =>
        refine ((traffic_acceptClient hL ls).and (noted_acceptClient ls)).bind fun clientFd => ?_
        apply Triple.ite
        · rintro rfl
          apply Triple.pure
          rintro w ⟨htraffic, t₀, ht₀, ht⟩
          have hnone : tally w = t₀.accept (manner cfg) (-1) := by
            rw [ht, Tally.accept, show (manner cfg).counts (-1) = false from rfl, Bool.and_false]
            rfl
          refine ⟨htraffic, ?_⟩
          change N (tally w) _
          rw [hnone]
          exact hN t₀ _ _ ht₀
        · intro hfd
          refine (flow_epollHandleNewClient hL hfd).bind fun _ => ih.pre ?_
          rintro w ⟨htraffic, t₀, ht₀, ht⟩
          refine ⟨htraffic, ?_⟩
          change N (tally w) _
          rw [ht]
          exact hN t₀ _ _ ht₀
  refine Triple.get_bind fun w hw => ?_
  exact (hloop _).pre fun _ heq => heq ▸ hw

theorem flow_closeTimer (hL : Lasting S L) {w : EpollWorld} (hw : Flow cfg L N w)
    (hfile : w.kernel.files w.app.tfd = some .timer) :
    Triple (fun w' => w' = w) closeTimer fun _ => Flow cfg L N := by
  refine Triple.get_bind ?_
  rintro w' rfl
  have hclose : Triple (fun w => Flow cfg L N w ∧ Behind w'.app.tfd .timer w)
      (hostClose w'.app.tfd) fun _ => Flow cfg L N :=
    flow_hostClose hL fun _ c _ heq => by cases heq
  refine Triple.bind (Q := fun _ => Flow cfg L N) (hclose.pre ?_) fun rc => ?_
  · rintro w rfl
    exact ⟨hw, hfile⟩
  · refine (flow_keepsServiced (keepsOutside_assertZero _ _)).bind fun _ => ?_
    exact flow_keepsServiced (keepsServiced_modifyApp _)

theorem flow_timerExpired (hL : Lasting S L) {w : EpollWorld} (hw : Flow cfg L N w)
    (hfile : w.kernel.files w.app.tfd = some .timer) :
    Triple (fun w' => w' = w) (timerExpired cfg) fun _ =>
      Flow cfg L fun t x => ∃ t₀ now, N t₀ x ∧ t = t₀.timer (manner cfg) now := by
  refine (flow_closeTimer hL hw hfile).bind fun _ => ?_
  apply triple_whenTrue
  · intro hbench
    refine (triple_hostNow (stable_flow hL)).bind fun now =>
      flow_modifyHostBench fun t x ht => ⟨t, now, ht, ?_⟩
    rw [Tally.timer, manner_cfg, if_pos hbench]
  · rintro w ⟨htraffic, hnoted⟩ hbench
    refine ⟨htraffic, tally w, {}, hnoted, ?_⟩
    rw [Tally.timer, manner_cfg, if_neg hbench]

/-- The structure of a client whose peer has finished is taken out of the list,
and its descriptor is closed. -/
theorem flow_closeClient (hL : Lasting S L)
    (hmay : ∀ conns c, L conns → f = .socket c → (conns c).eos = true) :
    Triple (fun w => Flow cfg L N w ∧ Seat p fd w ∧ Behind fd f w) (closeClient p) fun _ =>
      Flow cfg L N := by
  have hremove : Triple (fun w => Flow cfg L N w ∧ Seat p fd w ∧ Behind fd f w) (dllRemove p)
      fun _ w => Flow cfg L N w ∧ Seat p fd w ∧ Behind fd f w := by
    refine (flow_keepsServiced (keepsServiced_dllRemove p)).and ?_
    exact (keepsWatched_dllRemove p).keeps fun v =>
      (∃ n, v.2 p = some (fd, n)) ∧ v.1.files fd = some f
  have hread : Triple (fun w => Flow cfg L N w ∧ Seat p fd w ∧ Behind fd f w) (readCon p)
      fun con w => con.fd = fd ∧ Flow cfg L N w ∧ Behind fd f w := by
    refine Triple.get_bind ?_
    rintro w ⟨hflow, ⟨n, hseat⟩, hbehind⟩
    obtain ⟨con, hcon, hview⟩ := Option.map_eq_some_iff.mp hseat
    rw [hcon]
    apply Triple.pure
    rintro w' rfl
    exact ⟨congrArg Prod.fst hview, hflow, hbehind⟩
  refine hremove.bind fun _ => hread.bind fun con => Triple.and_pre fun hcon => ?_
  rw [hcon]
  refine (flow_hostClose hL hmay).bind fun rc => ?_
  refine (flow_keepsServiced (keepsOutside_assertZero _ _)).bind fun _ => ?_
  refine (flow_keepsServiced (keepsServiced_modifyApp _)).bind fun _ => ?_
  exact flow_keepsServiced (keepsOutside_freeCon p)

/-- Bytes wait on the connection `c`, whose structure at `p` has a buffer with
room for more than a message. -/
def Ripe (cfg : ServerConfig) (p : Ptr) (fd : Fd) (c : ConnId) (w : EpollWorld) : Prop :=
  (w.cons p).map (fun con => (con.fd, con.buf.length)) = some (fd, cfg.defaultServerBufferSize) ∧
    w.kernel.files fd = some (.socket c) ∧ (w.kernel.conns c).unread ≠ []

theorem stable_ripe : Stable (Ripe cfg p fd c) := by
  constructor
  · rintro w a ⟨hcon, hfile, hunread⟩
    refine ⟨hcon, ?_, (lasting_unread (S := fun _ => False) id).arrive w.kernel a hunread⟩
    rw [HostWorld.arrive, arrive_files]
    exact hfile
  · intro w s h
    exact h

/-- The bytes that wait are those of a message, which is echoed. -/
theorem flow_handleClientData (hL : Lasting S L) (hS : S c) :
    Triple (fun w => Flow cfg L N w ∧ Ripe cfg p fd c w) (handleClientData cfg p) fun _ =>
      Flow cfg L fun t x => ∃ t₀ message start finish now, N t₀ x ∧ ReceivedOn c message ∧
        t = (t₀.echo fd message).lasted (manner cfg) start finish now := by
  have hstable : Stable fun w : EpollWorld => Flow cfg L N w ∧ Ripe cfg p fd c w :=
    stable_and (stable_flow hL) stable_ripe
  have hcon : Triple (fun w => Flow cfg L N w ∧ Ripe cfg p fd c w) (readCon p) fun con w =>
      (con.fd = fd ∧ con.buf.length = cfg.defaultServerBufferSize) ∧
        Flow cfg L N w ∧ Ripe cfg p fd c w := by
    refine Triple.get_bind ?_
    rintro w ⟨hflow, hripe⟩
    obtain ⟨con, hcon, hview⟩ := Option.map_eq_some_iff.mp hripe.1
    rw [hcon]
    apply Triple.pure
    rintro w' rfl
    exact ⟨⟨congrArg Prod.fst hview, congrArg Prod.snd hview⟩, hflow, hripe⟩
  have hread : ∀ buf : List Octet, 0 < buf.length →
      Triple (fun w => Flow cfg L N w ∧ Ripe cfg p fd c w) (readNEcho cfg fd buf) fun _ =>
        Flow cfg L fun t x => ∃ t₀ message, N t₀ x ∧ ReceivedOn c message ∧
          t = t₀.echo fd message := by
    intro buf hbuf
    have htraffic := traffic_readNEcho hstable hL cfg fd buf (Z := False) fun w hw => by
      refine ⟨hw.1.1, fun c' hfile => ?_⟩
      obtain rfl := File.socket.inj (Option.some.inj (hw.2.2.1.symm.trans hfile))
      exact ⟨hS, hw.2.2.2⟩
    have hnoted := noted_readNEcho hstable cfg fd buf (S := ReceivedOn c) fun w hw => by
      refine ⟨hw.1.2, fun c' hfile x hx => ?_⟩
      obtain rfl := File.socket.inj (Option.some.inj (hw.2.2.1.symm.trans hfile))
      exact hw.1.1.traced.consistent.origin _ x (List.mem_of_mem_take hx)
    refine (htraffic.and hnoted).conseq (fun w h => ⟨h, h⟩) ?_
    rintro r w ⟨⟨htraffic, -, hnone⟩, t₀, ht₀, ⟨hzero, -⟩ | ⟨-, message, hmessage, ht⟩⟩
    · exact (hnone hzero hbuf).1.elim
    · exact ⟨htraffic, t₀, message, ht₀, hmessage, ht⟩
  refine (triple_hostStart hstable cfg).bind fun start => hcon.bind fun con =>
    Triple.and_pre fun hview => ?_
  rw [hview.1]
  refine (hread con.buf ?_).bind fun read => ?_
  · rw [hview.2, ServerConfig.defaultServerBufferSize]
    exact Nat.succ_pos _
  refine (flow_keepsServiced (keepsOutside_modifyCon p _)).bind fun _ => ?_
  have htimes : Triple (Traffic cfg.defaultBufferSize.toNat PeerFinished L emptyHands)
      (whenTrue cfg.measuresLatency do
        let finish ← hostNow
        let now ← hostNow
        modifyHostBench fun b => sbRecordEvent b start finish now : Program EpollWorld PUnit)
      fun _ => Traffic cfg.defaultBufferSize.toNat PeerFinished L emptyHands := by
    refine triple_whenTrue (fun _ => ?_) fun _ hw _ => hw
    refine (triple_hostNow (stable_traffic hL)).bind fun finish => ?_
    exact (triple_hostNow (stable_traffic hL)).bind fun now => traffic_modifyHostBench _
  refine (htimes.and (noted_lasted (manner cfg) start)).post ?_
  rintro _ w ⟨htraffic, t, ⟨t₀, message, ht₀, hmessage, rfl⟩, finish, now, ht⟩
  exact ⟨htraffic, t₀, message, start, finish, now, ht₀, hmessage, ht⟩

end Handlers

section Events

variable {cfg : ServerConfig} {S : ConnId → Prop} {L : (ConnId → Conn) → Prop} {ev : EpollEvent}
  {evs rest : List EpollEvent} {t₀ : Tally} {w : EpollWorld}

/-- The peers of whose end the events report have finished. -/
def Told (evs : List EpollEvent) (conns : ConnId → Conn) : Prop :=
  ∀ ev ∈ evs, ev.events.rdhup = true → ∀ c, ev.object = .socket c → (conns c).eos = true

/-- Bytes wait where the events report them without the end of the peer. -/
def Waiting (evs : List EpollEvent) (conns : ConnId → Conn) : Prop :=
  ∀ ev ∈ evs, ev.events.rdhup = false → ev.events.readable = true → ∀ c, ev.object = .socket c →
    (conns c).unread ≠ []

/-- What is known of the connections while the events `evs` are left. -/
def Known (L : (ConnId → Conn) → Prop) (evs : List EpollEvent) (conns : ConnId → Conn) : Prop :=
  L conns ∧ Told evs conns ∧ Waiting evs conns

theorem Known.tail {conns : ConnId → Conn} (h : Known L (ev :: evs) conns) :
    Known L evs conns :=
  ⟨h.1, fun ev' hev' => h.2.1 ev' (List.mem_cons_of_mem _ hev'),
    fun ev' hev' => h.2.2 ev' (List.mem_cons_of_mem _ hev')⟩

theorem lasting_told (evs : List EpollEvent) : Lasting S (Told evs) :=
  lasting_forall fun _ => lasting_forall fun _ => lasting_forall fun _ => lasting_forall fun c =>
    lasting_forall fun _ => lasting_eos c

/-- What is known lasts as long as no other connection than those with `S` is read. -/
theorem lasting_known (hL : Lasting (fun _ => True) L)
    (hapart : ∀ ev ∈ evs, ∀ c, ev.object = .socket c → ¬ S c) : Lasting S (Known L evs) := by
  refine lasting_and (hL.mono fun _ _ => trivial) (lasting_and (lasting_told evs) ?_)
  exact lasting_forall fun ev => lasting_forall fun hev => lasting_forall fun _ =>
    lasting_forall fun _ => lasting_forall fun c => lasting_forall fun hobject =>
      lasting_unread (hapart ev hev c hobject)

/-- What became of an event. -/
def served (d : Dispatch) : Served :=
  match d.branch with
  | .newClient => .newClient
  | .timer => .timer
  | .client =>
      if d.event.events.rdhup then .other
      else if d.event.events.readable then .message d.event.fd
      else .other

theorem ended_served (d : Dispatch) : (served d).ended = false := by
  unfold served
  cases d.branch with
  | newClient | timer => rfl
  | client =>
      dsimp only
      split_ifs
      all_goals rfl

theorem timer_not_mem {ds : List Dispatch} (h : ∀ d ∈ ds, d.branch ≠ .timer) :
    .timer ∉ ds.map served := by
  intro hmem
  obtain ⟨d, hd, hserved⟩ := List.mem_map.mp hmem
  apply h d hd
  revert hserved
  unfold served
  cases d.branch with
  | newClient => exact nofun
  | timer => exact fun _ => rfl
  | client =>
      dsimp only
      split_ifs
      all_goals exact nofun

/-- The event was answered by the echo of a message of its peer. -/
def Answers (e : Echo) (d : Dispatch) : Prop :=
  e.fd = d.event.fd ∧ ∃ c, d.event.object = .socket c ∧ ReceivedOn c e.message

/-- The events that bring bytes of a peer that goes on sending. -/
def messageEvents (ds : List Dispatch) : List Dispatch :=
  ds.filter fun d => (served d).answered.isSome

/-- The journal of a run in which `n` events are left, and the answers so far. -/
structure Journaled (cfg : ServerConfig) (t₀ : Tally) (n : Nat) (t : Tally)
    (ds : List Dispatch) : Prop where
  journal : Journal (manner cfg) t₀ (ds.map served) n t
  answers : List.Forall₂ Answers t.echoes (messageEvents ds)

/-- The event `d` was recorded, but not serviced yet. -/
def Noting (cfg : ServerConfig) (t₀ : Tally) (n : Nat) (d : Dispatch) (t : Tally)
    (ds : List Dispatch) : Prop :=
  ∃ ds₀, Journaled cfg t₀ (n + 1) t ds₀ ∧ ds = ds₀ ++ [d]

theorem map_served (ds : List Dispatch) (d : Dispatch) :
    (ds ++ [d]).map served = ds.map served ++ [served d] :=
  List.map_append

/-- An event that is not answered. -/
theorem Journaled.unanswered {n n' : Nat} {t t' : Tally} {ds : List Dispatch} {d : Dispatch}
    (h : Journaled cfg t₀ n t ds) (hd : (served d).answered = none) (hsame : t'.echoes = t.echoes)
    (hstep : Journal (manner cfg) t₀ (ds.map served ++ [served d]) n' t') :
    Journaled cfg t₀ n' t' (ds ++ [d]) := by
  constructor
  · rw [map_served]
    exact hstep
  · rw [messageEvents, List.filter_append, List.filter_singleton, hd, hsame]
    rw [Option.isSome_none, Bool.cond_false, List.append_nil]
    exact h.answers

/-- The events of a batch are about different connections. -/
theorem Remaining.apart {l : EpollLedger} (h : Remaining l (ev :: evs)) {k : Kernel}
    (hfiles : k.files = l.files) (hconsistent : k.Consistent) :
    ∀ ev' ∈ evs, ∀ c, ev'.object = .socket c → ¬ ev.object = .socket c := by
  intro ev' hev' c hobject' hobject
  apply h.fd_ne_head ev' hev'
  apply hconsistent.unique (c := c)
  · rw [hfiles, h.behind ev' (List.mem_cons_of_mem _ hev'), hobject']
  · rw [hfiles, h.behind ev List.mem_cons_self, hobject]

theorem flow_handleClientEvent (hL : Lasting (fun _ => True) L) {n : Nat} {c : ConnId}
    (hobject : ev.object = .socket c)
    (hapart : ∀ ev' ∈ evs, ∀ c, ev'.object = .socket c → ¬ ev.object = .socket c) :
    Triple (fun w => Flow cfg (Known L (ev :: evs)) (Noting cfg t₀ n ⟨.client, ev⟩) w ∧
        Watch cfg (ev :: evs) w ∧ Seat ev.data ev.fd w ∧ Behind ev.fd ev.object w)
      (handleClientEvent cfg ev) fun _ => Flow cfg (Known L evs) (Journaled cfg t₀ n) := by
  have hnone : ∀ ev' ∈ ev :: evs, ∀ c, ev'.object = .socket c → ¬ False := fun _ _ _ _ => id
  have hother : ∀ (t : Tally) (ds : List Dispatch), served ⟨.client, ev⟩ = .other →
      Noting cfg t₀ n ⟨.client, ev⟩ t ds → Journaled cfg t₀ n t ds := by
    rintro t ds hserved ⟨ds₀, hjournaled, rfl⟩
    refine hjournaled.unanswered (by rw [hserved]; rfl) rfl ?_
    rw [hserved]
    exact hjournaled.journal.other
  apply Triple.ite
  · intro hrdhup
    have hserved : served ⟨.client, ev⟩ = .other := if_pos hrdhup
    refine (flow_closeClient (f := ev.object) (lasting_known hL hnone) ?_).conseq
      (fun w h => ⟨h.1, h.2.2⟩) fun _ w h => ?_
    · intro conns c hknown hobject
      exact hknown.2.1 ev List.mem_cons_self hrdhup c hobject
    · exact ⟨⟨h.1.traced, h.1.known.tail⟩, hother _ _ hserved h.2⟩
  · intro hrdhup
    apply Triple.ite
    · intro hreadable
      have hserved : served ⟨.client, ev⟩ = .message ev.fd := by
        simp only [served]
        rw [if_neg hrdhup, if_pos hreadable]
      rw [Bool.not_eq_true] at hrdhup
      refine Triple.conseq (P := fun w => Flow cfg (Known L evs) (Noting cfg t₀ n ⟨.client, ev⟩) w ∧
        Ripe cfg ev.data ev.fd c w) (flow_handleClientData (lasting_known hL hapart) hobject) ?_ ?_
      · rintro w ⟨hflow, hwatch, ⟨size, hseat⟩, hbehind⟩
        refine ⟨hflow.mono fun _ => Known.tail, ?_, hbehind.trans (congrArg some hobject), ?_⟩
        · obtain ⟨con, hcon, hview⟩ := Option.map_eq_some_iff.mp hseat
          have hfd : con.fd = ev.fd := congrArg Prod.fst hview
          rw [hcon, Option.map_some, hfd, hwatch.buffers _ con hcon]
        · exact hflow.1.known.2.2 ev List.mem_cons_self hrdhup hreadable c hobject
      · rintro _ w ⟨htraffic, t, message, start, finish, now, ⟨ds₀, hjournaled, hds⟩, hmessage, ht⟩
        refine ⟨htraffic, ?_⟩
        change Journaled cfg t₀ n (tally w) (servicedEvents w.app w.kernel.closes)
        rw [hds, ht]
        constructor
        · rw [map_served, hserved]
          exact hjournaled.journal.message ev.fd message start finish now
        · rw [messageEvents, List.filter_append, List.filter_singleton, hserved]
          exact List.rel_append hjournaled.answers (.cons ⟨rfl, c, hobject, hmessage⟩ .nil)
    · intro hreadable
      have hserved : served ⟨.client, ev⟩ = .other := by
        simp only [served]
        rw [if_neg hrdhup, if_neg hreadable]
      apply Triple.pure
      rintro w ⟨hflow, -⟩
      exact ⟨⟨hflow.1.traced, hflow.1.known.tail⟩, hother _ _ hserved hflow.2⟩

/-- What holds while the events `evs` are left. -/
structure Course (cfg : ServerConfig) (t₀ : Tally) (L : (ConnId → Conn) → Prop)
    (evs : List EpollEvent) (w : EpollWorld) : Prop where
  between : Between cfg evs w
  watch : Watch cfg evs w
  flow : Flow cfg (Known L evs) (Journaled cfg t₀ evs.length) w

theorem course_serviceEvent (hL : Lasting (fun _ => True) L) :
    Triple (Course cfg t₀ L (ev :: evs)) (serviceEvent cfg ev) fun _ => Course cfg t₀ L evs := by
  rintro w ⟨hbetween, hwatch, hw⟩ a t hrun
  obtain ⟨hbetween', hwatch'⟩ := watch_serviceEvent w ⟨hbetween, hwatch⟩ a t hrun
  refine ⟨hbetween', hwatch', ?_⟩
  obtain ⟨horderly, hremaining⟩ := hbetween
  have hdue := horderly.due hremaining
  have hbehind : w.kernel.files ev.fd = some ev.object :=
    hremaining.behind ev List.mem_cons_self
  have hnone : ∀ ev' ∈ ev :: evs, ∀ c, ev'.object = .socket c → ¬ False := fun _ _ _ _ => id
  rw [serviceEvent_eq hdue.pointed, branchTaken_eq horderly hremaining] at hrun
  cases hdue with
  | listening hfd hdata hobject =>
      rw [hobject] at hrun
      have hrecorded : Triple (fun w' => w' = w) (record .newClient ev) fun _ =>
          Flow cfg (Known L (ev :: evs)) (Journaled cfg t₀ evs.length) := by
        apply Triple.modify
        rintro w' rfl
        refine ⟨⟨hw.1.traced, hw.1.known⟩, ?_⟩
        change Journaled cfg t₀ evs.length (tally w') (w'.app.dispatched ++ [⟨.newClient, ev⟩])
        exact hw.2.unanswered rfl rfl hw.2.journal.newClient
      have haccept : ∀ t ds fd, Journaled cfg t₀ evs.length t ds →
          Journaled cfg t₀ evs.length (t.accept (manner cfg) fd) ds :=
        fun t ds fd h => ⟨h.journal.accept fd, h.answers⟩
      have hclients := flow_epollHandleNewClients (lasting_known (S := fun _ => False) hL hnone)
        haccept cfg.listeningSocket
      exact ((hrecorded.bind fun _ => hclients) w rfl a t hrun).mono fun _ => Known.tail
  | timer hopen hfd hdata hobject =>
      rw [hobject] at hrun hbehind
      rw [hfd] at hbehind
      have hw' : Flow cfg (Known L (ev :: evs)) (fun t ds => ∃ ds₀,
          (Journaled cfg t₀ (evs.length + 1) t ds₀ ∧ .timer ∉ ds₀.map served) ∧
            ds = ds₀ ++ [⟨.timer, ev⟩]) { w with
          app := { w.app with dispatched := w.app.dispatched ++ [⟨.timer, ev⟩] } } := by
        refine ⟨⟨hw.1.traced, hw.1.known⟩, w.app.dispatched, ⟨hw.2, ?_⟩, rfl⟩
        exact timer_not_mem (horderly.expired hopen)
      obtain ⟨htraffic, t', now, ⟨ds₀, ⟨hjournaled, hfirst⟩, hds⟩, ht⟩ := Triple.modify_bind
        (flow_timerExpired (lasting_known (S := fun _ => False) hL hnone) hw' hbehind)
          w rfl a t hrun
      refine ⟨⟨htraffic.traced, htraffic.known.tail⟩, ?_⟩
      change Journaled cfg t₀ evs.length (tally t) (servicedEvents t.app t.kernel.closes)
      rw [ht, hds]
      exact hjournaled.unanswered rfl rfl (hjournaled.journal.timer hfirst now)
  | client c hdata hobject hcon =>
      have hbranch : branchFor ev.object = .client := by rw [hobject, branchFor]
      rw [hbranch] at hrun
      have hrecorded : Triple (fun w' => w' = w) (record .client ev) fun _ w =>
          Flow cfg (Known L (ev :: evs)) (Noting cfg t₀ evs.length ⟨.client, ev⟩) w ∧
            Watch cfg (ev :: evs) w ∧ Seat ev.data ev.fd w ∧ Behind ev.fd ev.object w := by
        apply Triple.modify
        rintro w' rfl
        exact ⟨⟨⟨hw.1.traced, hw.1.known⟩, w'.app.dispatched, hw.2, rfl⟩,
          hwatch.congr rfl, seat_of_clients hcon, hbehind⟩
      have hapart := Remaining.apart hremaining (k := w.kernel) rfl hw.1.traced.consistent
      exact (hrecorded.bind fun _ => flow_handleClientEvent hL hobject hapart) w rfl a t hrun

theorem course_serviceEvents (hL : Lasting (fun _ => True) L) (evs : List EpollEvent) :
    Triple (Course cfg t₀ L evs) (serviceEvents cfg evs) fun _ => Course cfg t₀ L [] := by
  induction evs with
  | nil => exact Triple.pure _ fun w h => h
  | cons ev evs ih => exact (course_serviceEvent hL).bind fun _ => ih

end Events

section Runs

variable {cfg : ServerConfig} {S : ConnId → Prop} {L : (ConnId → Conn) → Prop}
  {N : Tally → List Dispatch → Prop} {t₀ : Tally} {b₀ : ServerBench} {s₀ : Samples}
  {w : EpollWorld}

theorem length_epollWait_le (k : Kernel) (maxEvents : Nat) (chosen : List Fd) :
    (k.epollWait maxEvents chosen).1.length ≤ maxEvents :=
  (List.length_filterMap_le ..).trans (List.length_take_le ..)

/-- What is delivered tells the truth about the connections. -/
theorem known_epollWait {k : Kernel} {maxEvents : Nat} {chosen : List Fd} (h : L k.conns) :
    Known L (k.epollWait maxEvents chosen).1 k.conns := by
  refine ⟨h, ?_, ?_⟩
  · intro ev hev hrdhup c hobject
    obtain ⟨-, -, hready⟩ := mem_epollWait hev
    rw [hready, hobject] at hrdhup
    exact hrdhup
  · intro ev hev hrdhup hreadable c hobject hnil
    obtain ⟨-, -, hready⟩ := mem_epollWait hev
    rw [hready, hobject] at hrdhup hreadable
    have heos : (k.conns c).eos = false := hrdhup
    change (!(k.conns c).unread.isEmpty || (k.conns c).eos) = true at hreadable
    rw [hnil, heos] at hreadable
    cases hreadable

/-- A batch is delivered, and counted. -/
theorem flow_awaitEvents (hL : Lasting S L) :
    Triple (Flow cfg L (Journaled cfg t₀ 0)) (awaitEvents cfg) fun evs =>
      Flow cfg (Known L evs) (Journaled cfg t₀ evs.length) := by
  have hwait : Triple (Flow cfg L (Journaled cfg t₀ 0)) epollPwait fun batch w =>
      (batch = (-1, []) ∧ Flow cfg (Known L []) (Journaled cfg t₀ 0) w) ∨
        (batch.1 = Int.ofNat batch.2.length ∧ batch.2.length < (manner cfg).bound) ∧
          Flow cfg (Known L batch.2) (fun t x => ∃ t', Journaled cfg t₀ 0 t' x ∧
            t = t'.fetched batch.2.length) w := by
    refine (triple_hostYield (stable_flow hL)).bind fun t =>
      Triple.ite (fun _ => triple_exitFailure _) fun _ => Triple.get_bind fun w hw => ?_
    apply Triple.ite
    · intro _
      apply Triple.pure
      rintro w' rfl
      refine .inl ⟨rfl, ⟨hw.1.traced, hw.1.known, ?_, ?_⟩, hw.2⟩
      · exact fun ev hev => by cases hev
      · exact fun ev hev => by cases hev
    · intro _
      apply Triple.modify_bind
      apply Triple.modify_bind
      apply Triple.pure
      rintro w' rfl
      exact .inr ⟨⟨rfl, Nat.lt_succ_of_le (length_epollWait_le ..)⟩,
        ⟨hw.1.traced.congr rfl rfl rfl rfl rfl rfl, known_epollWait hw.1.known⟩, tally w, hw.2, rfl⟩
  refine hwait.bind fun batch => Triple.or_pre (Triple.and_pre ?_) (Triple.and_pre ?_)
  · rintro rfl
    exact Triple.pure _ fun w hw => hw
  · rintro ⟨hcount, hbound⟩
    have hnonneg : 0 ≤ Int.ofNat batch.2.length := Int.natCast_nonneg _
    rw [hcount, whenTrue_of hnonneg]
    have hcounted : Triple (Flow cfg (Known L batch.2) fun t x => ∃ t', Journaled cfg t₀ 0 t' x ∧
          t = t'.fetched batch.2.length)
        (whenTrue cfg.doServerSideBenchmarking do
          modifyHostBench fun b => sbRequestsPerformed b (Int32.ofNat batch.2.length) :
          Program EpollWorld PUnit) fun _ => Flow cfg (Known L batch.2) fun t x =>
            ∃ t', Journaled cfg t₀ 0 t' x ∧ t = t'.batch (manner cfg) batch.2.length :=
      (triple_whenTrue (fun _ => traffic_modifyHostBench _) fun _ hw _ => hw).and
        (noted_batch (manner cfg) _)
    refine hcounted.bind fun _ => Triple.pure _ fun w hw => ⟨hw.1, ?_⟩
    obtain ⟨t', ht', ht⟩ := hw.2
    rw [Noted, ht]
    exact ⟨ht'.journal.batch _ hbound, ht'.answers⟩

/-- What holds at the top of the loop. -/
abbrev AtTop (cfg : ServerConfig) (t₀ : Tally) (L : (ConnId → Conn) → Prop)
    (w : EpollWorld) : Prop :=
  (Orderly cfg (ledger epollShape w) ∧ Watch cfg [] w) ∧ Flow cfg L (Journaled cfg t₀ 0) w

theorem atTop_serviceLoopTurn (hL : Lasting (fun _ => True) L) :
    Triple (AtTop cfg t₀ L) (serviceLoopTurn cfg) fun _ => AtTop cfg t₀ L := by
  have hawait : Triple (AtTop cfg t₀ L) (awaitEvents cfg) fun evs => Course cfg t₀ L evs := by
    rintro w ⟨⟨horderly, hwatch⟩, hw⟩ evs w' hrun
    obtain ⟨hremaining, hbooked⟩ := triple_awaitEvents w rfl evs w' hrun
    have hledger : ledger epollShape w' = ledger epollShape w := hbooked
    refine ⟨?_, watch_awaitEvents w hwatch evs w' hrun, flow_awaitEvents hL w hw evs w' hrun⟩
    rw [Between, hledger]
    exact ⟨horderly, hremaining⟩
  refine hawait.bind fun evs => (course_serviceEvents hL evs).post fun _ w h => ?_
  exact ⟨⟨h.between.1, h.watch⟩, h.flow.mono fun _ hknown => hknown.1⟩

theorem flow_createEpoll (hL : Lasting S L) :
    Triple (Flow cfg L N) createEpoll fun _ => Flow cfg L N := by
  refine (triple_hostYield (stable_flow hL)).bind fun t => Triple.get_bind fun w hw => ?_
  apply Triple.ite
  · intro _
    exact triple_exitFailure _
  · intro hnew
    rw [not_or, not_or, Bool.not_eq_true (Option.isSome _), Option.isSome_eq_false_iff,
      Option.isNone_iff_eq_none] at hnew
    apply Triple.modify_bind
    apply Triple.pure
    rintro w' rfl
    exact ⟨⟨hw.1.traced.opened hnew.2.2 (fun c heq => by cases heq) rfl rfl rfl rfl rfl rfl,
      hw.1.known⟩, hw.2⟩

theorem flow_epollAdd (hL : Lasting S L) (fd : Fd) (data : Ptr) (text : String) :
    Triple (Flow cfg L N) (do
      let rc ← epollCtlAdd fd data
      assertZero rc text) fun _ => Flow cfg L N :=
  (flow_epollCtlAdd hL fd data).bind fun _ => flow_keepsServiced (keepsOutside_assertZero _ _)

theorem flow_serviceLoopStart (hL : Lasting S L) :
    Triple (Flow cfg L N) (serviceLoopStart cfg) fun _ => Flow cfg L N := by
  refine (flow_createEpoll hL).bind fun epollFd => ?_
  refine (flow_keepsServiced (keepsServiced_modifyApp _)).bind fun _ => ?_
  have htimer : Triple (Flow cfg L N) (whenTrue cfg.doServerSideBenchmarking do
      let tfd ← createWarmupTimer
      modifyApp fun a => { a with tfd := tfd }) fun _ => Flow cfg L N := by
    apply triple_whenTrue
    · intro _
      refine ((traffic_createWarmupTimer hL).and noted_createWarmupTimer).bind fun tfd => ?_
      exact flow_keepsServiced (keepsServiced_modifyApp _)
    · exact fun _ hw _ => hw
  refine htimer.bind fun _ => (flow_epollAdd hL _ _ _).bind fun _ => ?_
  apply triple_whenTrue
  · intro _
    exact Triple.get_bind fun w hw => (flow_epollAdd hL _ _ _).pre fun _ heq => heq ▸ hw
  · exact fun _ hw _ => hw

/-- The state in which `service_loop` starts when `sb_create` has made the bench
`b₀` with the samples `s₀`. -/
def benchWorld (cfg : ServerConfig) (b₀ : ServerBench) (s₀ : Samples)
    (sched : List (HostTick (List Fd))) : EpollWorld :=
  { initialWorld cfg sched with bench := b₀, samples := s₀ }

/-- `w` is a state of the server with that bench at the top of its loop, in some
run, after any further arrivals. -/
def BenchReachable (cfg : ServerConfig) (b₀ : ServerBench) (s₀ : Samples) (w : EpollWorld) :
    Prop :=
  ∃ (sched : List (HostTick (List Fd))) (n : Nat) (w₀ : EpollWorld) (arrivals : List Arrival),
    serviceLoop cfg n (benchWorld cfg b₀ s₀ sched) = .ok (⟨⟩, w₀) ∧
      w = arrivals.foldl HostWorld.arrive w₀

theorem benchReachable (h : Reachable cfg w) : BenchReachable cfg {} {} w := h

theorem atTop_of_reachable (hL : Lasting (fun _ => True) L) (hinitial : L fun _ => {})
    (h : BenchReachable cfg b₀ s₀ w) : AtTop cfg (.start b₀ s₀) L w := by
  obtain ⟨sched, n, w₀, arrivals, hrun, rfl⟩ := h
  have hstart : Triple (fun w => w = benchWorld cfg b₀ s₀ sched) (serviceLoopStart cfg)
      fun _ => AtTop cfg (.start b₀ s₀) L := by
    have hflow : Flow cfg L (Journaled cfg (.start b₀ s₀) 0) (benchWorld cfg b₀ s₀ sched) :=
      ⟨⟨traced_start, hinitial⟩, .start, .nil⟩
    have hwatch : Watch cfg [] (benchWorld cfg b₀ s₀ sched) :=
      ⟨(watch_initialWorld sched).alert, (watch_initialWorld sched).buffers⟩
    have hbooked : Booked epollShape (initialLedger cfg s₀) (benchWorld cfg b₀ s₀ sched) := rfl
    have hstarted : Triple (Booked epollShape (initialLedger cfg s₀)) (serviceLoopStart cfg)
        fun _ w => Orderly cfg (ledger epollShape w) :=
      started_of_initialLedger.post fun _ w h => h.orderly
    refine ((hstarted.and watch_serviceLoopStart_of).and (flow_serviceLoopStart hL)).pre ?_
    rintro w rfl
    exact ⟨⟨hbooked, hwatch⟩, hflow⟩
  have hfinal := (hstart.bind fun _ => Triple.turns (fun _ => atTop_serviceLoopTurn hL) n ⟨⟩)
    _ rfl ⟨⟩ w₀ hrun
  have hstable : Stable fun w : EpollWorld => Booked epollShape (ledger epollShape w₀) w ∧
      Watch cfg [] w ∧ Flow cfg L (Journaled cfg (.start b₀ s₀) 0) w :=
    stable_and (stable_booked _) (stable_and stable_watch (stable_flow hL))
  obtain ⟨hbooked, hwatch, hflow⟩ := hstable.arrivals ⟨rfl, hfinal.1.2, hfinal.2⟩ arrivals
  exact ⟨⟨hbooked.symm ▸ hfinal.1.1, hwatch⟩, hflow⟩

/-- A client was accepted, sent a message that was echoed, and finished. -/
def finishedWorld : EpollWorld :=
  (settled (serviceLoop smallServerConfig 3) (initialWorld smallServerConfig
    [{ fd := 4, answer := [] }, { fd := 5, answer := [] }, { answer := [] }, { answer := [] },
      { answer := [] }, { arrivals := [.connect], answer := [3] }, { fd := 6, answer := [] },
      { ptr := 8, answer := [] }, { answer := [] },
      { arrivals := [.bytes 0 [1, 2]], answer := [] }, { answer := [6] }, { answer := [] },
      { answer := [] }, { limit := 2, answer := [] }, { answer := [] }, { answer := [] },
      { arrivals := [.eos 0], answer := [6] }, { answer := [] }]) ⟨⟩).2

theorem reachable_finishedWorld : Reachable smallServerConfig finishedWorld :=
  reachable_settled (by decide +kernel)

/-- A run of the server is one of the abstract service that may close a
connection when the peer has finished: the kernel shows its state, and the
echoes and the closes are those of the trace. -/
theorem epoll_refines_echoService (h : Reachable cfg w) :
    ∃ trace s, Runs cfg.defaultBufferSize.toNat PeerFinished trace s ∧
      Shows w.kernel emptyHands s ∧ messages trace = w.echoes.map Echo.message ∧
        closings trace = w.kernel.closes.filterMap socketOf :=
  (atTop_of_reachable lasting_true trivial (benchReachable h)).2.1.traced.trace

theorem epoll_refines_echoService_finished :
    ∃ trace s, Runs smallServerConfig.defaultBufferSize.toNat PeerFinished trace s ∧
      Shows finishedWorld.kernel emptyHands s ∧
      messages trace = finishedWorld.echoes.map Echo.message ∧
        closings trace = finishedWorld.kernel.closes.filterMap socketOf :=
  epoll_refines_echoService reachable_finishedWorld

/-- Whatever arrives, and however it is split among the calls: the bytes of each
connection go back in order, in whole messages and to their sender only, and a
connection is closed once at most, when its peer has finished. -/
theorem epoll_keeps_streams (h : Reachable cfg w) :
    (∀ c, Echoing cfg.defaultBufferSize.toNat w.kernel c) ∧
      (w.kernel.closes.filterMap socketOf).Nodup ∧
        ∀ fd c, (fd, .socket c) ∈ w.kernel.closes → (w.kernel.conns c).eos = true := by
  have hflow := (atTop_of_reachable lasting_own (fun c x hx => by cases hx) (benchReachable h)).2.1
  refine ⟨hflow.traced.echoing hflow.known, hflow.traced.nodup_closes, fun fd c hclosed => ?_⟩
  exact hflow.traced.finished (fun _ hended => hended) (mem_closings hclosed)

theorem epoll_keeps_streams_finished :
    (∀ c, Echoing smallServerConfig.defaultBufferSize.toNat finishedWorld.kernel c) ∧
      (finishedWorld.kernel.closes.filterMap socketOf).Nodup ∧
        ∀ fd c, (fd, .socket c) ∈ finishedWorld.kernel.closes →
          (finishedWorld.kernel.conns c).eos = true :=
  epoll_keeps_streams reachable_finishedWorld

/-- Every event that brings bytes of a peer that goes on sending is answered by
the echo of one message of that peer to it, in the order of the events; what was
transmitted to a peer are its messages, and nothing else is ever sent. -/
theorem epoll_echoes_each_message (h : Reachable cfg w) :
    w.echoes.map Echo.fd = w.app.dispatched.filterMap (fun d => (served d).answered) ∧
      (∀ e ∈ w.echoes, e.message.length = cfg.defaultBufferSize.toNat) ∧
        List.Forall₂ Answers w.echoes (messageEvents w.app.dispatched) ∧
          ∀ c, (w.kernel.conns c).transmitted =
            ((w.echoes.map Echo.message).filter fun message => ReceivedOn c message).flatten := by
  obtain ⟨-, ⟨htraced, hown⟩, hjournaled⟩ :=
    atTop_of_reachable lasting_own (fun c x hx => by cases hx) (benchReachable h)
  refine ⟨?_, ?_, hjournaled.answers, htraced.transmitted_eq hown cfg.buffer_pos⟩
  · have hechoes := hjournaled.journal.echoes
    rw [List.filterMap_map] at hechoes
    exact hechoes
  · obtain ⟨trace, s, hruns, -, hechoed, -⟩ := htraced.trace
    intro e he
    have hmem : e.message ∈ messages trace := by
      rw [hechoed]
      exact List.mem_map_of_mem he
    exact hruns.length_of_mem_messages hmem

theorem epoll_echoes_each_message_finished :
    finishedWorld.echoes.map Echo.fd =
        finishedWorld.app.dispatched.filterMap (fun d => (served d).answered) ∧
      (∀ e ∈ finishedWorld.echoes,
        e.message.length = smallServerConfig.defaultBufferSize.toNat) ∧
        List.Forall₂ Answers finishedWorld.echoes (messageEvents finishedWorld.app.dispatched) ∧
          ∀ c, (finishedWorld.kernel.conns c).transmitted =
            ((finishedWorld.echoes.map Echo.message).filter
              fun message => ReceivedOn c message).flatten :=
  epoll_echoes_each_message reachable_finishedWorld

/-- A client sent a message during the warm-up and another one after it. -/
def measuredWorld : EpollWorld :=
  (settled (serviceLoop smallServerConfig 4)
    (benchWorld smallServerConfig (sbCreate 4 fun _ => 0) {}
      [{ fd := 4, answer := [] }, { fd := 5, answer := [] }, { answer := [] }, { answer := [] },
        { answer := [] }, { arrivals := [.connect], answer := [3] }, { fd := 6, answer := [] },
        { ptr := 8, answer := [] }, { answer := [] }, { answer := [] },
        { arrivals := [.bytes 0 [1, 2]], answer := [6] }, { answer := [] }, { answer := [] },
        { limit := 2, answer := [] }, { answer := [] }, { answer := [] },
        { arrivals := [.expire], answer := [5] }, { answer := [] }, { answer := [] },
        { arrivals := [.bytes 0 [3, 4]], answer := [6] }, { answer := [] }, { answer := [] },
        { limit := 2, answer := [] }, { answer := [], clock := { tvNsec := 7 } },
        { answer := [] }]) ⟨⟩).2

theorem reachable_measuredWorld :
    BenchReachable smallServerConfig (sbCreate 4 fun _ => 0) {} measuredWorld :=
  ⟨_, 4, _, [], run_settled (by decide +kernel), rfl⟩

/-- The bench of a run counts every client; it counts the events of the batches
delivered while it measures, which it does from the end of the warm-up until
there is no room for a latency, and it stores a latency for each message echoed
in that time. -/
theorem epoll_bench_accounts {c : Int32} {junk : Nat → UInt8} (hc : 0 ≤ c)
    (hbench : cfg.doServerSideBenchmarking = true)
    (h : BenchReachable cfg (sbCreate c junk) s₀ w) :
    Accounted (manner cfg) c.toInt.toNat (w.app.dispatched.map served) (tally w) ∧
      CountsRequests (manner cfg) c.toInt.toNat w.batches (w.app.dispatched.map served)
          w.bench ∧
        (cfg.measuresLatency = true → (values w.bench.eventLatency).length =
        min c.toInt.toNat (w.echoes.countP Measured)) := by
  obtain ⟨-, -, hjournal, -⟩ := atTop_of_reachable lasting_true trivial h
  have haccounted : Accounted (manner cfg) c.toInt.toNat (w.app.dispatched.map served) (tally w) :=
    hjournal.accounted hc hbench
  have hint : ∀ b ∈ w.batches, b < 2 ^ 31 := fun b hb =>
    Nat.lt_of_lt_of_le (hjournal.batch_lt rfl b hb) (show 257 ≤ 2 ^ 31 by decide)
  have hrequests := hjournal.countsRequests hc hbench hint
  refine ⟨haccounted, hrequests, fun hmeasures => Nat.le_antisymm ?_ (haccounted.least hmeasures)⟩
  have hmost := haccounted.most
  have hnone : (w.app.dispatched.map served).countP Served.ended = 0 := by
    apply List.countP_eq_zero.mpr
    intro k hk
    obtain ⟨d, -, rfl⟩ := List.mem_map.mp hk
    rw [ended_served]
    exact Bool.false_ne_true
  rw [hnone, Nat.add_zero] at hmost
  exact hmost

theorem epoll_bench_accounts_measured :
    Accounted (manner smallServerConfig) (4 : Int32).toInt.toNat
        (measuredWorld.app.dispatched.map served) (tally measuredWorld) ∧
      CountsRequests (manner smallServerConfig) (4 : Int32).toInt.toNat measuredWorld.batches
          (measuredWorld.app.dispatched.map served) measuredWorld.bench ∧
        (smallServerConfig.measuresLatency = true →
        (values measuredWorld.bench.eventLatency).length =
          min (4 : Int32).toInt.toNat (measuredWorld.echoes.countP Measured)) :=
  epoll_bench_accounts (by decide) rfl reachable_measuredWorld

end Runs

end EchoServers.EpollEchoes
