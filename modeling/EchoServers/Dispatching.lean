import EchoServers.EpollRuns
import EchoServers.PollRuns

namespace EchoServers.Dispatching

open EchoServers.EpollEffects
open EchoServers.HostLedger
open EchoServers.PollServicing
open EchoServers.PollVector
open EchoServers.ServerUtils
open EchoServers.SocketKernel
open EchoServers.StateTriples
open EchoServers.Utils

/-- A server is about to service an event of the batch that it got in the state
`w₁`. -/
inductive Moment where
  | polled (w₁ w : PollServer.PollWorld) (i : UInt32)
  | delivered (w₁ w : EpollServer.EpollWorld) (ev : EpollEvent)

def Moment.Reached (cfg : ServerConfig) : Moment → Prop
  | .polled w₁ w i =>
      PollRuns.ScanningFrom cfg w₁ w i ∧ (w.app.pollfdv.readData i).revents ≠ 0
  | .delivered w₁ w ev => EpollRuns.Servicing cfg w₁ w ev

/-- The body of the loop of `service_events` in each of its branches. -/
def handlePolled (cfg : ServerConfig) (a : PollServer.PollApp) (i : UInt32) :
    Branch → Program PollServer.PollWorld Bool
  | .newClient => do
      PollServer.record .newClient i
      PollServer.pollHandleNewClient cfg cfg.listeningSocket
      PollServer.clearRevents a.pollfdv.moves i
      return false
  | .timer => do
      PollServer.record .timer i
      PollServer.timerExpired cfg a.timerFd
      PollServer.setVector (pollfdvRemoveIndex (← PollServer.getVector) i)
      modify fun w => { w with app := { w.app with timerFd := -1 } }
      return true
  | .client => do
      PollServer.record .client i
      let removedClient ← PollServer.handleClientEvent cfg i
      if removedClient then
        return true
      else
        PollServer.clearRevents a.pollfdv.moves i
        return false

/-- The entry is one of the batch, and the file it was registered for is still
behind its descriptor and chooses the branch; a client has its structure. -/
structure PolledSoundly (cfg : ServerConfig) (w₁ w : PollServer.PollWorld) (i : UInt32)
    (f : File) : Prop where
  object : (w.app.pollfdv.readData i).object = some f
  behind : w.kernel.files (w.app.pollfdv.readData i).fd = some f
  delivered : w.app.pollfdv.slot i.toNat ∈ w₁.app.pollfdv.entries
  handled : PollServer.serviceEvent cfg i w =
    handlePolled cfg w.app i (branchFor f) w
  once : f = .timer → ∀ d ∈ w.app.dispatched, d.branch ≠ .timer
  client : ∀ c, f = .socket c → ∃ p, w.app.pollfdv.readPd i = some p ∧ w.cons p ≠ none

/-- The file that the event was delivered for is still behind its descriptor and
chooses the branch; a client has the structure it was accepted with. -/
structure DeliveredSoundly (cfg : ServerConfig) (w : EpollServer.EpollWorld) (ev : EpollEvent) :
    Prop where
  behind : w.kernel.files ev.fd = some ev.object
  handled : EpollServer.serviceEvent cfg ev w =
    EpollRuns.handle cfg ev (branchFor ev.object) w
  once : ev.object = .timer → ∀ d ∈ w.app.dispatched, d.branch ≠ .timer
  client : ∀ c, ev.object = .socket c →
    ∃ con, w.cons ev.data = some con ∧ con.fd = ev.fd ∧ con.object = some (.socket c)

/-- Each event goes to the branch of the object that it was registered for. -/
def Moment.Sound (cfg : ServerConfig) : Moment → Prop
  | .polled w₁ w i => ∃ f, f ≠ .epoll ∧ PolledSoundly cfg w₁ w i f
  | .delivered _ w ev => ev.object ≠ .epoll ∧ DeliveredSoundly cfg w ev

section Soundness

variable {cfg : ServerConfig}

theorem serviceEvent_eq (cfg : ServerConfig) (w : PollServer.PollWorld) (i : UInt32) :
    PollServer.serviceEvent cfg i w =
      handlePolled cfg w.app i (PollRegistry.branchTaken cfg w.app i) w := by
  rw [PollRegistry.serviceEvent_eq]
  change (match PollRegistry.branchTaken cfg w.app i with
    | .newClient => _
    | .timer => _
    | .client => _ : Program PollServer.PollWorld Bool) w = _
  cases PollRegistry.branchTaken cfg w.app i with
  | newClient => rfl
  | timer => rfl
  | client => rfl

theorem polledSoundly {w₁ w : PollServer.PollWorld} {i : UInt32}
    (h : PollRuns.ScanningFrom cfg w₁ w i) (hne : (w.app.pollfdv.readData i).revents ≠ 0) :
    ∃ f, f ≠ .epoll ∧ PolledSoundly cfg w₁ w i f := by
  obtain ⟨horderly, hi⟩ := h.orderly
  have hready := horderly.ready hi hne
  have hbehind := horderly.behind hi
  have hmem := h.mem_batch hne
  have hhandled := serviceEvent_eq cfg w i
  have hfile : ∀ f, (w.app.pollfdv.readData i).object = some f →
      w.kernel.files (w.app.pollfdv.readData i).fd = some f := fun f hobject =>
    Eq.trans hbehind hobject
  generalize hbranch : PollRegistry.branchTaken cfg (ledger PollRegistry.pollShape w).app i =
    branch at hready
  rw [show PollRegistry.branchTaken cfg w.app i = branch from hbranch] at hhandled
  cases hready with
  | newClient hfd hobject hpd =>
      refine ⟨.listening, by simp, hobject, hfile _ hobject, hmem, hhandled, by simp, by simp⟩
  | timer hfd hnonneg hobject hpd =>
      refine ⟨.timer, by simp, hobject, hfile _ hobject, hmem, hhandled, fun _ => ?_, by simp⟩
      exact horderly.expired (ne_of_fd_nonneg hnonneg)
  | client c p hfd hobject hpd hlive =>
      refine ⟨.socket c, by simp, hobject, hfile _ hobject, hmem, hhandled, by simp, ?_⟩
      intro _ _
      refine ⟨p, hpd, fun hnone => ?_⟩
      have hlive : (w.cons p).map PollRegistry.pollShape = some () := hlive
      rw [hnone] at hlive
      cases hlive

theorem deliveredSoundly {w₁ w : EpollServer.EpollWorld} {ev : EpollEvent}
    (h : EpollRuns.Servicing cfg w₁ w ev) : ev.object ≠ .epoll ∧ DeliveredSoundly cfg w ev := by
  obtain ⟨rest, horderly, hremaining⟩ := h.between
  have hdue := horderly.due hremaining
  have hbehind : w.kernel.files ev.fd = some ev.object :=
    hremaining.behind ev List.mem_cons_self
  have hhandled : EpollServer.serviceEvent cfg ev w =
      EpollRuns.handle cfg ev (EpollRuns.branchTaken cfg (ledger EpollList.epollShape w) ev) w :=
    EpollRuns.serviceEvent_eq hdue.pointed
  rw [EpollRuns.branchTaken_eq horderly hremaining] at hhandled
  cases hdue with
  | listening hfd hdata hobject =>
      exact ⟨by simp [hobject], hbehind, hhandled, by simp [hobject], by simp [hobject]⟩
  | timer hopen hfd hdata hobject =>
      exact ⟨by simp [hobject], hbehind, hhandled, fun _ => horderly.expired hopen,
        by simp [hobject]⟩
  | client c hdata hobject hcon =>
      refine ⟨by simp [hobject], hbehind, hhandled, by simp [hobject], ?_⟩
      intro c' hc'
      rw [hobject] at hc'
      cases hc'
      exact EpollRuns.exists_con hcon

/-- A client connects to the poll server. -/
def polledServer : PollServer.PollWorld :=
  (settled (PollServer.serviceLoop smallServerConfig false false 0)
    (PollServer.initialWorld smallServerConfig
      [{ fd := 4, answer := {} }, { answer := {} }, { answer := {} }, { answer := {} },
        { arrivals := [.connect], answer := {} }]) ⟨⟩).2

theorem reached_polledServer :
    (Moment.polled (PollRuns.batchOf smallServerConfig polledServer).2
      (PollRuns.batchOf smallServerConfig polledServer).2 0).Reached smallServerConfig := by
  have hreachable : PollServer.Reachable smallServerConfig polledServer :=
    PollRuns.reachable_settled (by decide +kernel)
  have hturns : PollRuns.turnsOf smallServerConfig polledServer 0 =
      .ok ((0, 0), (PollRuns.batchOf smallServerConfig polledServer).2) := rfl
  exact ⟨PollRuns.scanningFrom_of_turns hreachable (by decide +kernel) (by decide +kernel) hturns
    (by decide +kernel) (by decide +kernel), by decide +kernel⟩

/-- The client with the descriptor 6 sends a message while the timer, which has
the descriptor 5, expires and another client connects. -/
def reuseServer : EpollServer.EpollWorld :=
  (settled (EpollServer.serviceLoop smallServerConfig 1)
    (EpollServer.initialWorld smallServerConfig
      [{ fd := 4, answer := [] }, { fd := 5, answer := [] }, { answer := [] }, { answer := [] },
        { answer := [] }, { arrivals := [.connect], answer := [3] }, { fd := 6, answer := [] },
        { ptr := 8, answer := [] }, { answer := [] }, { answer := [] },
        { arrivals := [.expire, .connect, .bytes 0 [1, 2]], answer := [5, 3, 6] },
        { answer := [] }, { answer := [] }, { fd := 5, answer := [] }, { ptr := 9, answer := [] },
        { answer := [] }, { answer := [] }]) ⟨⟩).2

/-- The descriptor 5 is closed and handed out again by these. -/
def reuseEvents : List EpollEvent :=
  [{ events := { readable := true }, data := EpollServer.tfdHolder, fd := 5, object := .timer },
    { events := { readable := true }, data := EpollServer.lfdHolder, fd := 3,
      object := .listening }]

def reuseWorld : EpollServer.EpollWorld :=
  (settled (EpollServer.serviceEvents smallServerConfig reuseEvents)
    (EpollRuns.batchOf smallServerConfig reuseServer).2 ⟨⟩).2

theorem reached_reuseWorld :
    (Moment.delivered (EpollRuns.batchOf smallServerConfig reuseServer).2 reuseWorld
      { events := { readable := true }, data := 8, fd := 6, object := .socket 0 }).Reached
      smallServerConfig := by
  have hreachable : EpollServer.Reachable smallServerConfig reuseServer :=
    EpollRuns.reachable_settled (by decide +kernel)
  have hbatch : (EpollRuns.batchOf smallServerConfig reuseServer).1 = reuseEvents ++
      { events := { readable := true }, data := 8, fd := 6, object := .socket 0 } :: [] := by
    decide +kernel
  exact EpollRuns.servicing_settled hreachable (by decide +kernel) hbatch (by decide +kernel)

/-- Whatever descriptors `accept4` hands out again, each event of a batch is
handled for the object that it was registered for. -/
theorem dispatch_sound {m : Moment} (h : m.Reached cfg) : m.Sound cfg := by
  cases m with
  | polled w₁ w i => exact polledSoundly h.1 h.2
  | delivered w₁ w ev => exact deliveredSoundly h

theorem dispatch_sound_reused :
    (Moment.polled (PollRuns.batchOf smallServerConfig polledServer).2
      (PollRuns.batchOf smallServerConfig polledServer).2 0).Sound smallServerConfig ∧
    (Moment.delivered (EpollRuns.batchOf smallServerConfig reuseServer).2 reuseWorld
      { events := { readable := true }, data := 8, fd := 6, object := .socket 0 }).Sound
      smallServerConfig :=
  ⟨dispatch_sound reached_polledServer, dispatch_sound reached_reuseWorld⟩

end Soundness

end EchoServers.Dispatching
