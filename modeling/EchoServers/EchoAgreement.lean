import EchoServers.EpollEchoes
import EchoServers.PollEchoes
import EchoServers.UringEchoes

/-!
The messages that the three servers send back on a connection until they close it,
compared with what its client has sent.
-/

namespace EchoServers.EchoAgreement

open EchoServers.EchoTraffic
open EchoServers.EpollEchoes
open EchoServers.EpollServer
open EchoServers.ServerUtils
open EchoServers.SocketKernel
open EchoServers.UringEchoes
open EchoServers.UringMemory
open EchoServers.UringServer
open EchoServers.UringStreams
open EchoServers.UringTraffic
open EchoServers.Utils

/-- The messages have the length `size` each, and are all there is in `bytes`. -/
structure MadeOf {α : Type} (size : Nat) (bytes : List α) (messages : List (List α)) : Prop where
  whole : ∀ message ∈ messages, message.length = size
  flatten_eq : messages.flatten = bytes

section MadeOf

variable {α : Type} {size : Nat} {bytes : List α} {messages messages' : List (List α)}

theorem MadeOf.length_eq (h : MadeOf size bytes messages) :
    bytes.length = size * messages.length := by
  have hlengths : messages.map List.length = List.replicate messages.length size := by
    rw [List.eq_replicate_iff, List.length_map]
    refine ⟨rfl, fun n hn => ?_⟩
    obtain ⟨message, hmessage, rfl⟩ := List.mem_map.mp hn
    exact h.whole message hmessage
  rw [← h.flatten_eq, List.length_flatten, hlengths, List.sum_replicate_nat, Nat.mul_comm]

/-- The bytes tell the messages. -/
theorem MadeOf.unique (h : MadeOf size bytes messages) (h' : MadeOf size bytes messages')
    (hsize : 0 < size) : messages = messages' := by
  have hnumber : messages.length = messages'.length :=
    Nat.eq_of_mul_eq_mul_left hsize (h.length_eq.symm.trans h'.length_eq)
  apply List.eq_iff_flatten_eq.mpr
  refine ⟨h.flatten_eq.trans h'.flatten_eq.symm, List.ext_getElem (by simpa using hnumber) ?_⟩
  intro i hi hi'
  rw [List.length_map] at hi hi'
  rw [List.getElem_map, List.getElem_map, h.whole _ (List.getElem_mem hi),
    h'.whole _ (List.getElem_mem hi')]

end MadeOf

/-- The bytes, without the connection that they came from. -/
def values (data : List Octet) : List UInt8 :=
  data.map Octet.value

/-- What the client of a connection has sent. -/
def sentOn (k : Kernel) (c : ConnId) : List UInt8 :=
  values (k.conns c).sent

/-- The messages sent back on a connection, in order. -/
def messagesOn (c : ConnId) (echoed : List (List Octet)) : List (List UInt8) :=
  (echoed.filter fun message => ReceivedOn c message).map values

/-- The messages that the io_uring server has sent back on a connection, in the
order in which they were completed. -/
def repliesOn (cfg : Config) (c : ConnId) (log : List Cqe) : List (List UInt8) :=
  (log.filter fun q => isReply cfg q && decide (q.request.conn = some c)).map
    fun q => values q.request.moved

/-- The events of a batch that report bytes on the connection, and not that its
client has shut down its write side. -/
def messageEventsOn (c : ConnId) (ds : List Dispatch) : List Dispatch :=
  (messageEvents ds).filter fun d => d.event.object = .socket c

section Host

variable {size : Nat} {mayClose : EchoService.Stream Octet → Prop} {k : Kernel}
  {echoed : List (List Octet)} {es : List Echo} {ds : List Dispatch} {c : ConnId}

/-- What was transmitted are the messages sent back. -/
theorem madeOf_messagesOn (h : Traced size mayClose emptyHands k echoed) (hown : Own k.conns)
    (hsize : 0 < size) (c : ConnId) :
    MadeOf size (values (k.conns c).transmitted) (messagesOn c echoed) := by
  constructor
  · intro message hmessage
    obtain ⟨octets, hoctets, rfl⟩ := List.mem_map.mp hmessage
    obtain ⟨trace, s, hruns, -, hechoed, -⟩ := h.trace
    have hmem : octets ∈ EchoService.messages trace := by
      rw [hechoed]
      exact (List.mem_filter.mp hoctets).1
    rw [values, List.length_map]
    exact hruns.length_of_mem_messages hmem
  · rw [h.transmitted_eq hown hsize c, values, List.map_flatten]
    rfl

/-- Each event that reports bytes was answered by one message on its connection. -/
theorem length_messagesOn (h : List.Forall₂ Answers es (messageEvents ds))
    (hne : ∀ e ∈ es, e.message ≠ []) (c : ConnId) :
    (messagesOn c (es.map Echo.message)).length = (messageEventsOn c ds).length := by
  rw [messagesOn, messageEventsOn, List.length_map]
  generalize messageEvents ds = evs at h
  induction h with
  | nil => rfl
  | @cons e d es evs hanswers h ih =>
      have hrest := ih fun e he => hne e (List.mem_cons_of_mem _ he)
      obtain ⟨-, c', hobject, hreceived⟩ := hanswers
      have hsame : ReceivedOn c e.message ↔ d.event.object = .socket c := by
        obtain ⟨x, hx⟩ := List.exists_mem_of_ne_nil _ (hne e List.mem_cons_self)
        rw [hobject, File.socket.injEq]
        refine ⟨fun hon => ?_, fun heq => heq ▸ hreceived⟩
        exact Option.some.inj ((hreceived x hx).symm.trans (hon x hx))
      rw [List.map_cons, List.filter_cons, List.filter_cons]
      by_cases hon : ReceivedOn c e.message
      · rw [if_pos (decide_eq_true hon), if_pos (decide_eq_true (hsame.mp hon)), List.length_cons,
          List.length_cons, hrest]
      · rw [if_neg (by simpa using hon), if_neg (by simpa using mt hsame.mpr hon), hrest]

end Host

section Servers

variable {cfg : ServerConfig} {e : EpollWorld} {p : PollServer.PollWorld} {u : World} {c : ConnId}

theorem epoll_madeOf_iff (h : EpollServer.Reachable cfg e) (c : ConnId) :
    MadeOf cfg.defaultBufferSize.toNat (sentOn e.kernel c)
        (messagesOn c (e.echoes.map Echo.message)) ↔
      cfg.defaultBufferSize.toNat * (messageEventsOn c e.app.dispatched).length =
        (sentOn e.kernel c).length := by
  obtain ⟨-, ⟨htraced, hown⟩, hjournaled⟩ :=
    EpollEchoes.atTop_of_reachable lasting_own (fun c x hx => by cases hx)
      (EpollEchoes.benchReachable h)
  have hmade := madeOf_messagesOn htraced hown cfg.buffer_pos c
  have hne : ∀ echo ∈ e.echoes, echo.message ≠ [] := by
    intro echo hecho hnil
    obtain ⟨trace, s, hruns, -, hechoed, -⟩ := htraced.trace
    have hmem : echo.message ∈ EchoService.messages trace := by
      rw [hechoed]
      exact List.mem_map_of_mem hecho
    have hlength := hruns.length_of_mem_messages hmem
    have hpos := cfg.buffer_pos
    rw [hnil, List.length_nil] at hlength
    omega
  have hevents : (messagesOn c (e.echoes.map Echo.message)).length =
      (messageEventsOn c e.app.dispatched).length := length_messagesOn hjournaled.answers hne c
  rw [← hevents]
  refine ⟨fun hall => hall.length_eq.symm, fun hlength => ?_⟩
  -- nothing is left unread when as many bytes were transmitted as were sent
  have hwhole : (e.kernel.conns c).sent =
      (e.kernel.conns c).transmitted ++ (e.kernel.conns c).unread := htraced.conserved c
  have hnumber := hmade.length_eq
  rw [values, List.length_map] at hnumber
  rw [sentOn, values, List.length_map, hwhole, List.length_append] at hlength
  have hnone : (e.kernel.conns c).unread = [] := List.eq_nil_of_length_eq_zero (by omega)
  rw [sentOn, hwhole, hnone, List.append_nil]
  exact hmade

theorem poll_madeOf (h : PollServer.Reachable cfg p)
    (hclosed : c ∈ p.kernel.closes.filterMap socketOf) (herr : (p.kernel.conns c).err = false)
    (hhup : (p.kernel.conns c).hup = false) :
    MadeOf cfg.defaultBufferSize.toNat (sentOn p.kernel c)
      (messagesOn c (p.echoes.map Echo.message)) := by
  obtain ⟨-, hflow⟩ := PollEchoes.atTop_of_reachable lasting_own (fun c x hx => by cases hx)
    (PollEchoes.benchReachable h)
  obtain ⟨htraced, hown⟩ := hflow.traffic
  rw [sentOn, ← htraced.answered (fun _ hmay => hmay) hclosed herr hhup]
  exact madeOf_messagesOn htraced hown cfg.buffer_pos c

theorem flatten_repliesOn (cfg : Config) (c : ConnId) (log : List Cqe) :
    (repliesOn cfg c log).flatten = values (answered cfg log c) := by
  rw [repliesOn, answered, stream, values]
  induction log with
  | nil => rfl
  | cons q log ih =>
      rw [List.filter_cons, List.filter_cons]
      cases hreply : isReply cfg q with
      | false => exact ih
      | true =>
          have hsend : q.request.sqe.opcode = .send := (of_decide_eq_true hreply).1
          by_cases hconn : q.request.conn = some c
          · rw [Bool.true_and, if_pos (decide_eq_true hconn), if_pos rfl, List.map_cons,
              List.flatten_cons, List.flatMap_cons, if_pos ⟨hsend, hconn⟩, List.map_append, ih]
            rfl
          · rw [Bool.true_and, if_neg (by simpa using hconn), if_pos rfl, List.flatMap_cons,
              if_neg fun hon => hconn hon.2, List.nil_append]
            exact ih

theorem uring_madeOf {cfg : Config} (h : UringServer.Reachable cfg u)
    (hfaithful : u.faithful = true) (hclosed : c ∈ u.kernel.closes.filterMap socketOf) :
    MadeOf cfg.defaultBufferSize.toNat (sentOn u.kernel c) (repliesOn cfg c (reported u)) := by
  constructor
  · intro message hmessage
    obtain ⟨q, hq, rfl⟩ := List.mem_map.mp hmessage
    obtain ⟨hq, hon⟩ := List.mem_filter.mp hq
    rw [Bool.and_eq_true] at hon
    rw [values, List.length_map]
    apply length_of_mem_replies h hfaithful
    exact List.mem_map_of_mem (List.mem_filter.mpr ⟨hq, hon.1⟩)
  · rw [flatten_repliesOn, answered_of_closed h hfaithful hclosed]
    rfl

end Servers

/-- The servers have sent back the same messages, and these are all that their
clients have sent. -/
structure SameMessages (size : Nat) (bytes : List UInt8)
    (epoll poll uring : List (List UInt8)) : Prop where
  all : MadeOf size bytes epoll
  poll_eq : poll = epoll
  uring_eq : uring = epoll

section Agreement

variable {cfgE cfgP : ServerConfig} {cfgU : Config} {e : EpollWorld} {p : PollServer.PollWorld}
  {u : World}

/-- A client was accepted, and its message was reported together with the end of
its stream. -/
def hangUpWorld : EpollWorld :=
  (Utils.settled (EpollServer.serviceLoop smallServerConfig 2)
    (EpollServer.initialWorld smallServerConfig
      [{ fd := 4, answer := [] }, { fd := 5, answer := [] }, { answer := [] }, { answer := [] },
        { answer := [] }, { arrivals := [.connect], answer := [3] }, { fd := 6, answer := [] },
        { ptr := 8, answer := [] }, { answer := [] }, { answer := [] },
        { arrivals := [.bytes 0 [1, 2], .eos 0], answer := [6] }, { answer := [] }]) ⟨⟩).2

theorem reachable_hangUpWorld : EpollServer.Reachable smallServerConfig hangUpWorld :=
  EpollRuns.reachable_settled (by decide +kernel)

theorem not_same_messages :
    ¬ ∀ (cfgE cfgP : ServerConfig) (cfgU : Config) (e : EpollWorld) (p : PollServer.PollWorld)
      (u : World) (fdE fdP fdU : Fd) (cE cP cU : ConnId),
      cfgP.defaultBufferSize = cfgE.defaultBufferSize →
      cfgU.defaultBufferSize = cfgE.defaultBufferSize →
      EpollServer.Reachable cfgE e → PollServer.Reachable cfgP p →
      UringServer.Reachable cfgU u → u.faithful = true →
      (fdE, .socket cE) ∈ e.kernel.closes → (fdP, .socket cP) ∈ p.kernel.closes →
      (fdU, .socket cU) ∈ u.kernel.closes →
      sentOn p.kernel cP = sentOn e.kernel cE → sentOn u.kernel cU = sentOn e.kernel cE →
      (p.kernel.conns cP).err = false → (p.kernel.conns cP).hup = false →
        SameMessages cfgE.defaultBufferSize.toNat (sentOn e.kernel cE)
          (messagesOn cE (e.echoes.map Echo.message)) (messagesOn cP (p.echoes.map Echo.message))
          (repliesOn cfgU cU (reported u)) := by
  intro hall
  have hsame := hall smallServerConfig smallServerConfig smallConfig hangUpWorld
    PollEchoes.finishedWorld closedEcho 6 6 5 0 0 0 rfl rfl reachable_hangUpWorld
    PollEchoes.reachable_finishedWorld reachable_closedEcho faithful_closedEcho
    (by decide +kernel) (by decide +kernel) (by decide +kernel) (by decide +kernel)
    (by decide +kernel) (by decide +kernel) (by decide +kernel)
  have hdropped : messagesOn 0 (hangUpWorld.echoes.map Echo.message) = [] := by decide +kernel
  have hechoed : messagesOn 0 (PollEchoes.finishedWorld.echoes.map Echo.message) = [[1, 2]] := by
    decide +kernel
  have hpoll := hsame.poll_eq
  rw [hdropped, hechoed] at hpoll
  cases hpoll

/-- The poll server and the io_uring server send back all messages of a client,
and the epoll server does so exactly when each of them came in an event of its own,
in front of the one that reports that the client has shut down its write side. -/
theorem same_messages_iff (hcfgP : cfgP.defaultBufferSize = cfgE.defaultBufferSize)
    (hcfgU : cfgU.defaultBufferSize = cfgE.defaultBufferSize) (he : EpollServer.Reachable cfgE e)
    (hp : PollServer.Reachable cfgP p) (hu : UringServer.Reachable cfgU u)
    (hfaithful : u.faithful = true) {fdP fdU : Fd} {cE cP cU : ConnId}
    (hclosedP : (fdP, .socket cP) ∈ p.kernel.closes)
    (hclosedU : (fdU, .socket cU) ∈ u.kernel.closes)
    (hsentP : sentOn p.kernel cP = sentOn e.kernel cE)
    (hsentU : sentOn u.kernel cU = sentOn e.kernel cE)
    (herr : (p.kernel.conns cP).err = false) (hhup : (p.kernel.conns cP).hup = false) :
    (SameMessages cfgE.defaultBufferSize.toNat (sentOn e.kernel cE)
        (messagesOn cE (e.echoes.map Echo.message)) (messagesOn cP (p.echoes.map Echo.message))
        (repliesOn cfgU cU (reported u)) ↔
      cfgE.defaultBufferSize.toNat * (messageEventsOn cE e.app.dispatched).length =
        (sentOn e.kernel cE).length) ∧
      MadeOf cfgE.defaultBufferSize.toNat (sentOn e.kernel cE)
        (messagesOn cP (p.echoes.map Echo.message)) ∧
      repliesOn cfgU cU (reported u) = messagesOn cP (p.echoes.map Echo.message) := by
  have hpoll := poll_madeOf hp (mem_closings hclosedP) herr hhup
  have huring := uring_madeOf hu hfaithful (mem_closings hclosedU)
  rw [hcfgP, hsentP] at hpoll
  rw [hcfgU, hsentU] at huring
  have heq := huring.unique hpoll cfgE.buffer_pos
  refine ⟨?_, hpoll, heq⟩
  rw [← epoll_madeOf_iff he cE]
  refine ⟨SameMessages.all, fun hall => ⟨hall, ?_, ?_⟩⟩
  · exact hpoll.unique hall cfgE.buffer_pos
  · exact huring.unique hall cfgE.buffer_pos

theorem same_messages_iff_finished :
    (SameMessages smallServerConfig.defaultBufferSize.toNat
        (sentOn EpollEchoes.finishedWorld.kernel 0)
        (messagesOn 0 (EpollEchoes.finishedWorld.echoes.map Echo.message))
        (messagesOn 0 (PollEchoes.finishedWorld.echoes.map Echo.message))
        (repliesOn smallConfig 0 (reported closedEcho)) ↔
      smallServerConfig.defaultBufferSize.toNat *
          (messageEventsOn 0 EpollEchoes.finishedWorld.app.dispatched).length =
        (sentOn EpollEchoes.finishedWorld.kernel 0).length) ∧
      MadeOf smallServerConfig.defaultBufferSize.toNat (sentOn EpollEchoes.finishedWorld.kernel 0)
        (messagesOn 0 (PollEchoes.finishedWorld.echoes.map Echo.message)) ∧
      repliesOn smallConfig 0 (reported closedEcho) =
        messagesOn 0 (PollEchoes.finishedWorld.echoes.map Echo.message) := by
  have hclosedP : (6, .socket 0) ∈ PollEchoes.finishedWorld.kernel.closes := by decide +kernel
  have hclosedU : (5, .socket 0) ∈ closedEcho.kernel.closes := by decide +kernel
  exact @same_messages_iff smallServerConfig smallServerConfig smallConfig
    EpollEchoes.finishedWorld PollEchoes.finishedWorld closedEcho rfl rfl
    EpollEchoes.reachable_finishedWorld PollEchoes.reachable_finishedWorld reachable_closedEcho
    faithful_closedEcho 6 5 0 0 0 hclosedP hclosedU
    (by decide +kernel) (by decide +kernel) (by decide +kernel) (by decide +kernel)

end Agreement

end EchoServers.EchoAgreement
