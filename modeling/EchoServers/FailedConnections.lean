import EchoServers.PollRuns
import EchoServers.UringHandlers

namespace EchoServers.FailedConnections

open EchoServers.HostLedger
open EchoServers.PollRegistry
open EchoServers.PollRuns
open EchoServers.PollServer
open EchoServers.PollServicing
open EchoServers.PollVector
open EchoServers.ServerUtils
open EchoServers.SocketKernel
open EchoServers.StateTriples
open EchoServers.SwapRemoval
open EchoServers.UringHandlers
open EchoServers.UringMemory
open EchoServers.UringQueues
open EchoServers.UringReferences
open EchoServers.UringServer
open EchoServers.UringSubmission
open EchoServers.Utils

/-- How a server learns that a connection has failed: from the report in the
entry that the loop of `service_events` looks at, or from the result of its
request. -/
inductive Failure where
  | polled (w : PollWorld) (i : UInt32)
  | completed (w : World) (cqe : Cqe)

/-- The failure of a client can be learnt so in some run of the server. -/
def Failure.Reported (cfg : Config) : Failure → Prop
  | .polled w i =>
      Scanning cfg.toServerConfig w i ∧
        (w.app.pollfdv.readData i).revents &&& (pollhup ||| pollerr) ≠ 0
  | .completed w cqe =>
      (∃ w₀, UringServer.Reachable cfg w₀ ∧ iouGetCqe w₀ = .ok (some cqe, w)) ∧
        (cqe.request.sqe.opcode = .recv ∨ cqe.request.sqe.opcode = .send) ∧ cqe.res < 0

/-- The client of the slot `i` is closed and released, and the others are left
as they are. -/
structure ClosedAlone (w : PollWorld) (i : UInt32) (w' : PollWorld) : Prop where
  closed : ∃ c, w.kernel.files (w.app.pollfdv.readData i).fd = some (.socket c) ∧
    w'.kernel.files (w.app.pollfdv.readData i).fd = none ∧
    w'.kernel.closes = w.kernel.closes ++ [((w.app.pollfdv.readData i).fd, .socket c)]
  released : ∃ p, w.app.pollfdv.readPd i = some p ∧ w.cons p ≠ none ∧ w'.cons p = none ∧
    w'.freed = w.freed ++ [p]
  entries : w.app.pollfdv.entries.Perm
    (w.app.pollfdv.slot i.toNat :: w'.app.pollfdv.entries)
  others : ∀ e ∈ w'.app.pollfdv.entries,
    w'.kernel.files e.1.fd = w.kernel.files e.1.fd ∧ ∀ p, e.2 = some p → w'.cons p = w.cons p
  faults : w'.faults = w.faults

/-- The closing of the client with the given op has begun, and the others are
left as they are. -/
structure ClosingAlone (w : World) (op : Ptr) (w' : World) : Prop where
  closing : ∀ o, w'.ops op = some o → o.op = .closeConnection
  others : ∀ p, p ≠ op → w'.ops p = w.ops p
  files : ∀ fd, w'.kernel.files fd ≠ w.kernel.files fd →
    ∃ o, w.ops op = some o ∧ fd = o.infoCon.fd

/-- The server goes on without the client. -/
def Failure.Contained (cfg : Config) : Failure → Prop
  | .polled w i =>
      ∃ w', serviceEvent cfg.toServerConfig i w = .ok (true, w') ∧ ClosedAlone w i w'
  | .completed w cqe =>
      ∃ submitted w', serviceCqeEvents cfg cqe w = .ok (submitted, w') ∧
        ClosingAlone w cqe.userData w'

def Failure.IsPolled : Failure → Prop
  | .polled _ _ => True
  | .completed _ _ => False

section Poll

variable {cfg : ServerConfig} {w : PollWorld} {i : UInt32} {p : Ptr} {f : File}
  {l : Ledger PdEchoConnection PollApp} {con : PdEchoConnection}

/-- The ledger without the entry, its file and its client. -/
def withoutClient (l : Ledger PdEchoConnection PollApp) (i : UInt32) (f : File) (p : Ptr) :
    Ledger PdEchoConnection PollApp :=
  ((l.closed (l.app.pollfdv.readData i).fd f).released p).withApp
    { l.app with pollfdv := pollfdvRemoveIndex l.app.pollfdv i }

/-- An open client is closed without fail. -/
theorem meets_closeClient (hfile : l.files (l.app.pollfdv.readData i).fd = some f)
    (hpd : l.app.pollfdv.readPd i = some p) (hlive : l.cons p = some con) :
    Meets (Booked id l) (closeClient i) (fun _ => Booked id (withoutClient l i f p))
      fun _ => False := by
  refine meets_getVector.bind fun v => Meets.and_pre ?_
  rintro rfl
  refine (meets_hostClose hfile).bind fun rc => Meets.and_pre ?_
  rintro rfl
  refine meets_assertZero.bind fun _ => meets_getVector.bind fun v => Meets.and_pre ?_
  rintro rfl
  have hfreed : Meets (Booked id (l.closed (l.app.pollfdv.readData i).fd f))
      (freePd (l.app.pollfdv.readPd i))
      (fun _ => Booked id ((l.closed (l.app.pollfdv.readData i).fd f).released p))
      fun _ => False := by
    rw [hpd]
    exact ⟨Stops.of_returns (returns_freeCon p), booked_freeCon hlive⟩
  refine hfreed.bind fun _ => meets_getVector.bind fun v => Meets.and_pre ?_
  rintro rfl
  refine ⟨Stops.of_returns (Returns.modify _), Triple.modify fun w h => ?_⟩
  change (ledger id w).withApp { (ledger id w).app with
    pollfdv := pollfdvRemoveIndex l.app.pollfdv i } = _
  rw [h]
  rfl

/-- The loop body for a client that has failed. -/
theorem meets_serviceEvent (hbranch : branchTaken cfg l.app i = .client)
    (hrevents : (l.app.pollfdv.readData i).revents &&& (pollhup ||| pollerr) ≠ 0)
    (hfile : l.files (l.app.pollfdv.readData i).fd = some f)
    (hpd : l.app.pollfdv.readPd i = some p) (hlive : l.cons p = some con) :
    Meets (Booked id l) (serviceEvent cfg i)
      (fun removed w => removed = true ∧
        Booked id (withoutClient (l.withApp (recorded l.app .client i (some f))) i f p) w)
      fun _ => False := by
  rw [serviceEvent_eq]
  refine Meets.get_bind fun w hw => ?_
  have happ : w.app = l.app := congrArg Ledger.app hw
  have hobject : w.kernel.files (w.app.pollfdv.readData i).fd = some f := by
    rw [happ, ← hfile]
    exact congrFun (congrArg Ledger.files hw) _
  rw [happ, hbranch]
  have hrecord : Meets (fun w' => w' = w) (record .client i)
      (fun _ => Booked id (l.withApp (recorded l.app .client i (some f)))) fun _ => False := by
    refine ⟨Stops.of_returns (Returns.modify _), Triple.modify ?_⟩
    rintro w' rfl
    rw [← hobject, ← hw]
    rfl
  refine hrecord.bind fun _ => ?_
  have hhandled : Meets (Booked id (l.withApp (recorded l.app .client i (some f))))
      (handleClientEvent cfg i) (fun removed w => removed = true ∧
        Booked id (withoutClient (l.withApp (recorded l.app .client i (some f))) i f p) w)
      fun _ => False := by
    refine meets_getVector.bind fun v => Meets.and_pre ?_
    rintro rfl
    have hclosed : Meets (Booked id (l.withApp (recorded l.app .client i (some f))))
        (closeClient i) (fun _ => Booked id
          (withoutClient (l.withApp (recorded l.app .client i (some f))) i f p))
        fun _ => False := meets_closeClient hfile hpd hlive
    exact Meets.ite (fun _ => hclosed.bind fun _ => Meets.pure true fun _ h => ⟨rfl, h⟩)
      fun hzero => absurd hrevents hzero
  refine hhandled.bind fun removed => Meets.and_pre ?_
  rintro rfl
  exact Meets.pure _ fun _ h => ⟨rfl, h⟩

/-- Only a client reports that its connection has failed. -/
theorem ready_of_failed {l : PollLedger} (h : Orderly cfg l)
    (hi : i.toNat < l.app.pollfdv.size.toNat)
    (hrevents : (l.app.pollfdv.readData i).revents &&& (pollhup ||| pollerr) ≠ 0) :
    branchTaken cfg l.app i = .client ∧ Ready cfg l i .client := by
  have hplain : pollin &&& (pollhup ||| pollerr) = 0 := by decide
  have hne : (l.app.pollfdv.readData i).revents ≠ 0 := by
    intro hzero
    rw [hzero] at hrevents
    exact absurd hrevents (by simp)
  have hreport := (h.reports _ (List.mem_of_getElem? (getElem?_entries hi))).resolve_left hne
  have hclient : ¬ ((l.app.pollfdv.readData i).object = some .listening ∨
      (l.app.pollfdv.readData i).object = some .timer) := by
    intro hobject
    have hpollin : (l.app.pollfdv.readData i).revents = pollin := hreport.2 hobject
    rw [hpollin] at hrevents
    exact hrevents hplain
  have hready := h.ready hi hne
  generalize branchTaken cfg l.app i = branch at hready ⊢
  cases hready with
  | newClient _ hobject _ => exact absurd (.inl hobject) hclient
  | timer _ _ hobject _ => exact absurd (.inr hobject) hclient
  | client c p hfd hobject hpd hlive => exact ⟨rfl, .client c p hfd hobject hpd hlive⟩

/-- In an orderly state the failed client alone is closed. -/
theorem closedAlone_of_orderly (h : Orderly cfg (ledger pollShape w))
    (hi : i.toNat < w.app.pollfdv.size.toNat)
    (hrevents : (w.app.pollfdv.readData i).revents &&& (pollhup ||| pollerr) ≠ 0) :
    ∃ w', serviceEvent cfg i w = .ok (true, w') ∧ ClosedAlone w i w' := by
  obtain ⟨hbranch, hready⟩ := ready_of_failed h hi hrevents
  cases hready with
  | client c p hfd hobject hpd hlive =>
      have hfile : (ledger id w).files ((ledger id w).app.pollfdv.readData i).fd =
          some (.socket c) := (h.behind hi).trans hobject
      obtain ⟨con, hcon, -⟩ := Option.map_eq_some_iff.mp hlive
      have hlive' : (ledger id w).cons p = some con := by
        change (w.cons p).map id = some con
        rw [hcon]
        rfl
      have hmeets := meets_serviceEvent (l := ledger id w) hbranch hrevents hfile hpd hlive'
      obtain ⟨removed, w', hrun, rfl, hbooked⟩ := hmeets.runs (s := w) rfl
      have happ : w'.app.pollfdv = pollfdvRemoveIndex w.app.pollfdv i :=
        congrArg (fun l => l.app.pollfdv) hbooked
      have hfiles : w'.kernel.files =
          Function.update w.kernel.files (w.app.pollfdv.readData i).fd none :=
        congrArg Ledger.files hbooked
      have hcons : ∀ q, w'.cons q = Function.update (ledger id w).cons p none q := by
        intro q
        have hlast := congrFun (congrArg Ledger.cons hbooked) q
        exact (congrFun Option.map_id (w'.cons q)).symm.trans hlast
      have hsame : ∀ q, (ledger id w).cons q = w.cons q := fun q =>
        congrFun Option.map_id (w.cons q)
      have hperm := registrations_removeIndex h.sound hi (ne_of_fd_nonneg hfd)
      have hregistered := h.registered.perm hperm
      refine ⟨w', hrun, ⟨c, hfile, ?_, congrArg Ledger.closes hbooked⟩,
        ⟨p, hpd, ?_, ?_, congrArg Ledger.freed hbooked⟩, ?_, ?_, congrArg Ledger.faults hbooked⟩
      · rw [hfiles]
        exact Function.update_self ..
      · rw [hcon]
        exact Option.some_ne_none _
      · rw [hcons]
        exact Function.update_self ..
      · obtain ⟨-, -, hentries⟩ := pollfdvRemoveIndex_spec h.sound hi (ne_of_fd_nonneg hfd)
        rw [happ]
        have hentries : (pollfdvRemoveIndex w.app.pollfdv i).entries = _ := hentries
        rw [hentries]
        exact perm_cons_swapRemove (getElem?_entries hi)
      · intro e he
        rw [happ] at he
        have hmem : registration e ∈ registrations (pollfdvRemoveIndex w.app.pollfdv i) :=
          List.mem_map_of_mem he
        constructor
        · rw [hfiles]
          exact Function.update_of_ne (hregistered.fd_ne_of_cons hfd _ hmem) _ _
        · rintro q hq
          rw [hcons, ← hsame]
          apply Function.update_of_ne
          rintro rfl
          have hpds := hregistered.pds
          have hfirst : (registration ((ledger pollShape w).app.pollfdv.slot i.toNat)).pd =
              some q := hpd
          rw [List.filterMap_cons_some hfirst, List.nodup_cons] at hpds
          exact hpds.1 (List.mem_filterMap.mpr ⟨_, hmem, hq⟩)

end Poll

section Uring

variable {cfg : Config} {c : Cqe} {res : Int} {op : Ptr}

/-- Nothing comes after the assertion that a negative result fails. -/
theorem triple_ioUringAssertNonn_neg {α : Type} {P : World → Prop} {text : String}
    {f : PUnit → Program World α} (hres : res < 0) :
    Triple P (ioUringAssertNonn res text >>= f) fun _ _ => False := by
  refine triple_ioUringAssertNonn.bind fun _ => Triple.of_pre fun _ h => ?_
  exact absurd hres (Int.not_lt.mpr h.2)

theorem triple_handleCqeRecv_neg (hres : res < 0) :
    Triple (fun _ => True) (handleCqeRecv cfg op res) fun _ _ => False :=
  Triple.bind (Q := fun _ _ => True) (fun _ _ _ _ _ => trivial) fun _ =>
    triple_ioUringAssertNonn_neg hres

theorem triple_handleCqeSend_neg (hres : res < 0) :
    Triple (fun _ => True) (handleCqeSend cfg op res) fun _ _ => False :=
  Triple.bind (Q := fun _ _ => True) (fun _ _ _ _ _ => trivial) fun _ =>
    triple_ioUringAssertNonn_neg hres

/-- The server does not survive a failed request to receive or to send. -/
theorem triple_serviceCqeEvents_failed
    (hopcode : c.request.sqe.opcode = .recv ∨ c.request.sqe.opcode = .send)
    (hres : c.res < 0) :
    Triple (On (Taken cfg c)) (serviceCqeEvents cfg c) fun _ _ => False := by
  refine Triple.bind (triple_whenTrue (fun _ => triple_modifyBench _) fun _ h _ => h)
    fun _ => ?_
  refine Triple.bind (Q := fun _ _ => False) ?_ fun _ => Triple.of_pre fun _ h => h.elim
  have hread : Triple (On (Taken cfg c)) (readOp c.userData) fun o _ =>
      o.op = .recvFromClient ∨ o.op = .sendToClient := by
    apply triple_readOp
    rintro w ⟨-, huser, hfits, o, hreaped⟩
    have ho : w.ops c.userData = some o := by
      rw [huser]
      exact hreaped.1.2
    have hfits : Fits cfg c.request.sqe (w.ops c.userData) := hfits
    rw [ho] at hfits
    exact ⟨o, ho, hopcode.imp (fun h => (hfits.recv h).1) fun h => (hfits.send h).1⟩
  refine hread.bind fun o => Triple.of_pre fun w hop => ?_
  rcases hop with hop | hop
  · rw [hop]
    exact (triple_handleCqeRecv_neg hres).pre fun _ _ => trivial
  · rw [hop]
    exact (triple_handleCqeSend_neg hres).pre fun _ _ => trivial

end Uring

section Containment

variable {cfg : Config} {failure : Failure}

/-- Only the client is lost exactly when it is `poll` that reports the failure;
with io_uring the server exits. -/
theorem contained_iff (h : failure.Reported cfg) : failure.Contained cfg ↔ failure.IsPolled := by
  cases failure with
  | polled w i =>
      obtain ⟨⟨w₁, hscanning⟩, hrevents⟩ := h
      obtain ⟨horderly, hi⟩ := hscanning.orderly
      exact ⟨fun _ => trivial, fun _ => closedAlone_of_orderly horderly hi hrevents⟩
  | completed w cqe =>
      obtain ⟨⟨w₀, hreachable, hget⟩, hopcode, hres⟩ := h
      have htaken := triple_iouGetCqe_taken w₀ (on_inv_of_reachable hreachable) _ w hget
      constructor
      · rintro ⟨submitted, w', hrun, -⟩
        exact triple_serviceCqeEvents_failed hopcode hres w htaken submitted w' hrun
      · intro h
        exact h.elim

end Containment

section Witnesses

/-- Two clients join, and then the connection of the first one is reset. -/
def resetSched : List (HostTick Growth) :=
  [{ answer := {} },
    { arrivals := [.connect], answer := {} }, { fd := 4, answer := {} },
    { ptr := 3, answer := {} }, { answer := {} },
    { arrivals := [.connect], answer := {} }, { fd := 5, answer := {} },
    { ptr := 4, answer := {} }, { answer := {} },
    { arrivals := [.fail 0 true true], answer := {} }]

def resetServer : PollWorld :=
  (settled (PollServer.serviceLoop smallConfig.toServerConfig false false 2)
    (PollServer.initialWorld smallConfig.toServerConfig resetSched) ⟨⟩).2

theorem reachable_resetServer :
    PollServer.Reachable smallConfig.toServerConfig resetServer :=
  reachable_settled (by decide +kernel)

/-- The loop is at the first client. -/
def resetWorld : PollWorld :=
  match turnsOf smallConfig.toServerConfig resetServer 1 with
  | .ok r => r.2
  | .error _ => resetServer

theorem turns_resetWorld :
    turnsOf smallConfig.toServerConfig resetServer 1 = .ok ((1, 0), resetWorld) := by
  have hfirst : (turnsOf smallConfig.toServerConfig resetServer 1).toOption.map Prod.fst =
      some (1, 0) := by decide +kernel
  unfold resetWorld
  generalize turnsOf smallConfig.toServerConfig resetServer 1 = r at hfirst
  cases r with
  | error e => cases hfirst
  | ok r =>
      obtain ⟨first, w⟩ := r
      have hfirst : first = (1, 0) := Option.some.inj hfirst
      rw [hfirst]

theorem reported_resetWorld : (Failure.polled resetWorld 1).Reported smallConfig :=
  ⟨⟨_, scanningFrom_of_turns reachable_resetServer (by decide +kernel) (by decide +kernel)
    turns_resetWorld (by decide +kernel) (by decide +kernel)⟩, by decide +kernel⟩

theorem contained_iff_resetWorld :
    (Failure.polled resetWorld 1).Contained smallConfig ↔
      (Failure.polled resetWorld 1).IsPolled :=
  contained_iff reported_resetWorld

/-- The request to receive of the only client fails with `ECONNRESET`. -/
def resetRing : World :=
  worldAfter smallConfig 3 (UringServer.initialWorld smallConfig smallSetup false true
    (idle 7 ++
      { enter := .consumed 1, afterEnter := [.network .connect, .accept 0 5] } ::
      (idle 3 ++ { ptr := 10 } :: { ptr := 11 } :: (idle 13 ++
        [{ enter := .consumed 2, afterEnter := [.answer 0 (-104)] }]))))

theorem reachable_resetRing : UringServer.Reachable smallConfig resetRing :=
  reachable_worldAfter (by decide +kernel)

/-- What `iou_get_cqe` finds then. -/
def resetCqe : Cqe :=
  (settled iouGetCqe resetRing none).1.getD {}

theorem get_resetCqe :
    iouGetCqe resetRing = .ok (some resetCqe, (settled iouGetCqe resetRing none).2) := by
  have hsome : (settled iouGetCqe resetRing none).1.isSome = true := by decide +kernel
  have hrun : (iouGetCqe resetRing).isOk = true := by decide +kernel
  rw [run_settled (a := none) hrun]
  unfold resetCqe
  generalize settled iouGetCqe resetRing none = r at hsome
  obtain ⟨result, w⟩ := r
  cases result with
  | none => cases hsome
  | some c => rfl

/-- The io_uring server exits when the connection of its client is reset. -/
theorem not_contained :
    ¬ ∀ (cfg : Config) (failure : Failure), failure.Reported cfg → failure.Contained cfg := by
  intro h
  have hopcode : resetCqe.request.sqe.opcode = .recv := by decide +kernel
  have hres : resetCqe.res < 0 := by decide +kernel
  obtain ⟨submitted, w', hrun, -⟩ := h smallConfig (.completed _ resetCqe)
    ⟨⟨resetRing, reachable_resetRing, get_resetCqe⟩, .inl hopcode, hres⟩
  have htaken := triple_iouGetCqe_taken _ (on_inv_of_reachable reachable_resetRing) _ _ get_resetCqe
  exact triple_serviceCqeEvents_failed (.inl hopcode) hres _ htaken submitted w' hrun

end Witnesses

end EchoServers.FailedConnections
