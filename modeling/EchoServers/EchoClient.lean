import EchoServers.EpollEchoes
import EchoServers.PollEchoes
import EchoServers.UringEchoes

/-!
The client that sends a message and waits for its echo, and what it finds at the
servers.
-/

namespace EchoServers.EchoClient

open EchoServers.EchoService
open EchoServers.EchoTraffic
open EchoServers.ServerUtils
open EchoServers.SocketKernel
open EchoServers.StateTriples
open EchoServers.Utils

/-- How one call of the client is answered. -/
structure NetAnswer where
  errno : Option Nat := none
  /-- How many bytes a `write` takes. -/
  room : Nat := 0
  /-- What a `read` finds. -/
  data : List UInt8 := []

/-- What the client has logged as critical. -/
inductive Complaint where
  | shortWrite (count : Int)
  | lostData (count : Int)
  deriving DecidableEq, Repr

structure Client where
  buffer : List UInt8
  /-- All that was written, and all that was read. -/
  written : List UInt8 := []
  readBack : List UInt8 := []
  complaints : List Complaint := []
  closed : Bool := false
  sched : List NetAnswer := []

section Program

/-- The calls after the last answer fail. -/
def nextCall : Program Client NetAnswer :=
  modifyGet fun c =>
    match c.sched with
    | [] => ({ errno := some 104 }, c)
    | a :: as => (a, { c with sched := as })

def write (data : List UInt8) : Program Client Int := do
  let answer ← nextCall
  if answer.errno.isSome then pure (-1)
  else do
    modify fun c => { c with written := c.written ++ data.take answer.room }
    pure (data.take answer.room).length

/-- The bytes read go to the front of the buffer. -/
def read (size : Nat) : Program Client Int := do
  let answer ← nextCall
  if answer.errno.isSome then pure (-1)
  else do
    let data := answer.data.take size
    modify fun c => { c with
      readBack := c.readBack ++ data
      buffer := data ++ c.buffer.drop data.length }
    pure data.length

def complain (complaint : Complaint) : Program Client PUnit :=
  modify fun c => { c with complaints := c.complaints ++ [complaint] }

def sendMessage : Program Client PUnit := do
  let c ← get
  let rc ← write c.buffer
  assertNonn rc "write"
  whenTrue (rc < c.buffer.length) <| complain (.shortWrite rc)

def recvMessage : Program Client PUnit := do
  let c ← get
  let rc ← read c.buffer.length
  assertNonn rc "read"
  whenTrue (rc ≠ c.buffer.length) <| complain (.lostData rc)

def sendNWait : Program Client PUnit := do
  sendMessage
  recvMessage

/-- `n` turns of the loop, or the one turn of a single shot. -/
def loop (singleShot : Bool) (n : Nat) : Program Client PUnit :=
  if singleShot then sendNWait else turns (fun _ => sendNWait) n ⟨⟩

/-- The client once it is connected; only a single shot comes to the end. -/
def main (singleShot : Bool) (n : Nat) : Program Client PUnit := do
  loop singleShot n
  whenTrue singleShot <| modify fun c => { c with closed := true }

end Program

section Turns

variable {first : List UInt8} {writes reads : Nat}

/-- The client started with `first` in its buffer.  Nothing can be said about the
bytes read but that they are some first part of what comes back, `returned`. -/
structure Kept (first : List UInt8) (writes reads : Nat) (c : Client) : Prop where
  size : c.buffer.length = first.length
  whole : (∀ count, .shortWrite count ∉ c.complaints) →
    c.written.length = writes * first.length
  readBack_le : c.readBack.length ≤ reads * first.length
  echoed : c.complaints = [] → c.readBack.length = reads * first.length ∧
    ∀ returned, c.written <+: returned → c.readBack <+: returned →
      c.buffer = first ∧ c.written = (List.replicate writes first).flatten
  running : c.closed = false

theorem Kept.start {sched : List NetAnswer} :
    Kept first 0 0 { buffer := first, sched := sched } := by
  constructor
  · rfl
  · exact fun _ => (Nat.zero_mul _).symm
  · exact Nat.zero_le _
  · exact fun _ => ⟨(Nat.zero_mul _).symm, fun _ _ _ => ⟨rfl, rfl⟩⟩
  · rfl

theorem flatten_replicate_succ (n : Nat) :
    (List.replicate (n + 1) first).flatten = (List.replicate n first).flatten ++ first := by
  rw [List.replicate_succ', List.flatten_append, List.flatten_singleton]

theorem length_flatten_replicate (n : Nat) :
    (List.replicate n first).flatten.length = n * first.length := by
  induction n with
  | zero => exact (Nat.zero_mul _).symm
  | succ n ih => rw [flatten_replicate_succ, List.length_append, ih, Nat.succ_mul]

/-- The whole buffer was written. -/
theorem Kept.sent {c : Client} (h : Kept first writes reads c) :
    Kept first (writes + 1) reads { c with written := c.written ++ c.buffer } := by
  constructor
  · exact h.size
  · intro hwhole
    change (c.written ++ c.buffer).length = _
    rw [List.length_append, h.whole hwhole, h.size, Nat.succ_mul]
  · exact h.readBack_le
  · intro hquiet
    obtain ⟨hlength, hechoed⟩ := h.echoed hquiet
    refine ⟨hlength, fun returned hwritten hread => ?_⟩
    obtain ⟨hbuffer, heq⟩ := hechoed returned ((List.prefix_append ..).trans hwritten) hread
    refine ⟨hbuffer, ?_⟩
    change c.written ++ c.buffer = _
    rw [hbuffer, heq, flatten_replicate_succ]
  · exact h.running

/-- A part of the buffer was written, which is complained about. -/
theorem Kept.shortSent {c : Client} (h : Kept first writes reads c) (data : List UInt8)
    (count : Int) : Kept first (writes + 1) reads { c with
      written := c.written ++ data, complaints := c.complaints ++ [.shortWrite count] } := by
  constructor
  · exact h.size
  · exact fun hwhole => absurd (List.mem_append_right _ List.mem_cons_self) (hwhole count)
  · exact h.readBack_le
  · exact fun hquiet => absurd hquiet (List.append_ne_nil_of_right_ne_nil _ (List.cons_ne_nil _ _))
  · exact h.running

/-- As much as the buffer holds was read. -/
theorem Kept.received {c : Client} (h : Kept first (reads + 1) reads c) {data : List UInt8}
    (hdata : data.length = c.buffer.length) : Kept first (reads + 1) (reads + 1) { c with
      readBack := c.readBack ++ data, buffer := data ++ c.buffer.drop data.length } := by
  have hall : data ++ c.buffer.drop data.length = data := by
    rw [hdata, List.drop_length, List.append_nil]
  rw [hall]
  constructor
  · exact hdata.trans h.size
  · exact h.whole
  · have hle := h.readBack_le
    change (c.readBack ++ data).length ≤ _
    rw [List.length_append, hdata, h.size, Nat.succ_mul]
    omega
  · intro hquiet
    obtain ⟨hlength, hechoed⟩ := h.echoed hquiet
    have hlength' : (c.readBack ++ data).length = (reads + 1) * first.length := by
      rw [List.length_append, hlength, hdata, h.size, Nat.succ_mul]
    refine ⟨hlength', fun returned hwritten hread => ?_⟩
    obtain ⟨-, heq⟩ := hechoed returned hwritten ((List.prefix_append ..).trans hread)
    refine ⟨?_, heq⟩
    -- Both are first parts of one stream, and of one length.
    have hsame : c.readBack ++ data = c.written := by
      refine (List.prefix_of_prefix_length_le hread hwritten ?_).eq_of_length ?_
      · rw [hlength', heq, length_flatten_replicate]
      · rw [hlength', heq, length_flatten_replicate]
    rw [heq, flatten_replicate_succ] at hsame
    refine (List.append_inj hsame ?_).2
    rw [hlength, length_flatten_replicate]
  · exact h.running

theorem Kept.shortReceived {c : Client} (h : Kept first writes reads c) {data : List UInt8}
    (hdata : data.length ≤ c.buffer.length) (count : Int) : Kept first writes (reads + 1) { c with
      readBack := c.readBack ++ data, buffer := data ++ c.buffer.drop data.length
      complaints := c.complaints ++ [.lostData count] } := by
  constructor
  · change (data ++ c.buffer.drop data.length).length = _
    rw [List.length_append, List.length_drop, ← h.size]
    omega
  · intro hwhole
    exact h.whole fun count hmem => hwhole count (List.mem_append_left _ hmem)
  · have hle := h.readBack_le
    have hsize := h.size
    change (c.readBack ++ data).length ≤ _
    rw [List.length_append, Nat.succ_mul]
    omega
  · exact fun hquiet => absurd hquiet (List.append_ne_nil_of_right_ne_nil _ (List.cons_ne_nil _ _))
  · exact h.running

theorem Kept.answered {c : Client} (h : Kept first writes reads c) (sched : List NetAnswer) :
    Kept first writes reads { c with sched := sched } :=
  ⟨h.size, h.whole, h.readBack_le, h.echoed, h.running⟩

theorem triple_nextCall {c : Client} : Triple (fun c' => c' = c) nextCall fun _ c' =>
    ∃ sched, c' = { c with sched := sched } := by
  apply Triple.modifyGet
  rintro c' rfl
  cases hsched : c'.sched with
  | nil => exact ⟨c'.sched, rfl⟩
  | cons a as => exact ⟨as, rfl⟩

theorem triple_sendMessage :
    Triple (Kept first writes reads) sendMessage fun _ => Kept first (writes + 1) reads := by
  refine Triple.get_bind fun c hc => ?_
  have hwrite : Triple (fun c' => c' = c) (write c.buffer) fun rc c' => rc < 0 ∨
      ∃ room sched, rc = ((c.buffer.take room).length : Int) ∧ c' = { c with
        written := c.written ++ c.buffer.take room, sched := sched } := by
    refine triple_nextCall.bind fun answer => ?_
    refine Triple.ite (fun _ => Triple.pure _ fun _ _ => .inl (by decide)) fun _ => ?_
    refine Triple.exists_pre fun sched => Triple.modify_bind (Triple.pure _ ?_)
    rintro c' rfl
    exact .inr ⟨answer.room, sched, rfl, rfl⟩
  refine hwrite.bind fun rc => triple_assertNonn.bind fun _ => ?_
  apply triple_whenTrue
  · intro hshort
    apply Triple.modify
    rintro c' ⟨hfailed | ⟨room, sched, -, rfl⟩, hnonneg⟩
    · exact absurd hfailed (Int.not_lt.mpr hnonneg)
    · exact (hc.shortSent _ rc).answered sched
  · rintro c' ⟨hfailed | ⟨room, sched, rfl, rfl⟩, hnonneg⟩ hall
    · exact absurd hfailed (Int.not_lt.mpr hnonneg)
    · have htake : c.buffer.take room = c.buffer := by
        rw [List.length_take] at hall
        apply List.take_of_length_le
        omega
      rw [htake]
      exact hc.sent.answered sched

theorem triple_recvMessage : Triple (Kept first (reads + 1) reads) recvMessage fun _ =>
    Kept first (reads + 1) (reads + 1) := by
  refine Triple.get_bind fun c hc => ?_
  have hread : Triple (fun c' => c' = c) (read c.buffer.length) fun rc c' => rc < 0 ∨
      ∃ data : List UInt8, ∃ sched, data.length ≤ c.buffer.length ∧ rc = (data.length : Int) ∧
        c' = { c with
          readBack := c.readBack ++ data
          buffer := data ++ c.buffer.drop data.length
          sched := sched } := by
    refine triple_nextCall.bind fun answer => ?_
    refine Triple.ite (fun _ => Triple.pure _ fun _ _ => .inl (by decide)) fun _ => ?_
    refine Triple.exists_pre fun sched => Triple.modify_bind (Triple.pure _ ?_)
    rintro c' rfl
    exact .inr ⟨_, sched, List.length_take_le .., rfl, rfl⟩
  refine hread.bind fun rc => triple_assertNonn.bind fun _ => ?_
  apply triple_whenTrue
  · intro hlost
    apply Triple.modify
    rintro c' ⟨hfailed | ⟨data, sched, hle, -, rfl⟩, hnonneg⟩
    · exact absurd hfailed (Int.not_lt.mpr hnonneg)
    · exact (hc.shortReceived hle rc).answered sched
  · rintro c' ⟨hfailed | ⟨data, sched, hle, rfl, rfl⟩, hnonneg⟩ hall
    · exact absurd hfailed (Int.not_lt.mpr hnonneg)
    · exact (hc.received (by omega)).answered sched

theorem triple_turns (n : Nat) :
    Triple (Kept first 0 0) (turns (fun _ => sendNWait) n ⟨⟩) fun _ => Kept first n n := by
  induction n with
  | zero => exact Triple.pure _ fun _ h => h
  | succ n ih => exact ih.bind fun _ => triple_sendMessage.bind fun _ => triple_recvMessage

/-- How often the client sends its message. -/
def turnsOf (singleShot : Bool) (n : Nat) : Nat :=
  if singleShot then 1 else n

theorem triple_loop (singleShot : Bool) (n : Nat) :
    Triple (Kept first 0 0) (loop singleShot n) fun _ =>
      Kept first (turnsOf singleShot n) (turnsOf singleShot n) := by
  cases singleShot with
  | false => exact triple_turns n
  | true => exact triple_sendMessage.bind fun _ => triple_recvMessage

/-- Only a single shot closes the connection. -/
theorem triple_main (singleShot : Bool) (n : Nat) :
    Triple (Kept first 0 0) (main singleShot n) fun _ c => ∃ c₀,
      Kept first (turnsOf singleShot n) (turnsOf singleShot n) c₀ ∧
        c = { c₀ with closed := singleShot } := by
  refine (triple_loop singleShot n).bind fun _ => ?_
  cases singleShot with
  | false => exact Triple.pure _ fun c h => ⟨c, h, by rw [← h.running]⟩
  | true => exact Triple.modify fun c h => ⟨c, h, rfl⟩

end Turns

section Servers

/-- A server has come to the top of its loop, and this is the kernel's side. -/
inductive Serves : Kernel → Prop where
  | epoll {cfg : ServerConfig} {w : EpollServer.EpollWorld} (h : EpollServer.Reachable cfg w) :
      Serves w.kernel
  | poll {cfg : ServerConfig} {w : PollServer.PollWorld} (h : PollServer.Reachable cfg w) :
      Serves w.kernel
  | ioUring {cfg : UringServer.Config} {w : UringMemory.World} (h : UringServer.Reachable cfg w)
      (hfaithful : w.faithful = true) : Serves w.kernel

variable {cfg : ServerConfig} {w : EpollServer.EpollWorld} {k : Kernel} {c : ConnId}
  {first : List UInt8} {sched : List NetAnswer} {cl : Client} {n : Nat}
  {singleShot : Bool}

theorem Serves.transmitted (h : Serves k) (c : ConnId) :
    (k.conns c).transmitted <+: (k.conns c).sent := by
  cases h with
  | epoll h =>
      have htraced := (EpollEchoes.atTop_of_reachable lasting_true trivial
        (EpollEchoes.benchReachable h)).2.1.traced
      rw [htraced.conserved c]
      exact List.prefix_append ..
  | poll h =>
      have htraced := (PollEchoes.atTop_of_reachable lasting_true trivial
        (PollEchoes.benchReachable h)).2.traffic.traced
      rw [htraced.conserved c]
      exact List.prefix_append ..
  | ioUring h hfaithful => exact (UringEchoes.transmitted_of_reachable h hfaithful c).1

/-- The client is at the other end of a connection: some of what it has written
has arrived, and it has read some of what was transmitted. -/
structure Connected (cl : Client) (k : Kernel) (c : ConnId) : Prop where
  arrived : (k.conns c).sent.map Octet.value <+: cl.written
  delivered : cl.readBack <+: (k.conns c).transmitted.map Octet.value

/-- Whichever server it is, and however the bytes are split on their way: what the
client reads is what it wrote, in order.  As long as it has nothing to complain
about, each of its messages comes back before the next one is sent, so that they
are all the first one.  A single shot closes the connection behind its one turn. -/
theorem client_reads_back (h : Serves k) (hconnected : Connected cl k c)
    (hrun : main singleShot n { buffer := first, sched := sched } = .ok (⟨⟩, cl)) :
    cl.closed = singleShot ∧ cl.readBack <+: cl.written ∧
      (cl.complaints = [] → cl.readBack = cl.written ∧
        cl.written = (List.replicate (turnsOf singleShot n) first).flatten ∧
          cl.buffer = first) := by
  obtain ⟨c₀, hkept, rfl⟩ := triple_main singleShot n _ Kept.start _ _ hrun
  have hechoed : (k.conns c).transmitted.map Octet.value <+: (k.conns c).sent.map Octet.value :=
    (h.transmitted c).map _
  have hpre : c₀.readBack <+: c₀.written :=
    hconnected.delivered.trans (hechoed.trans hconnected.arrived)
  refine ⟨rfl, hpre, fun hquiet => ?_⟩
  obtain ⟨hlength, hall⟩ := hkept.echoed hquiet
  obtain ⟨hbuffer, hwritten⟩ := hall c₀.written (List.prefix_refl _) hpre
  refine ⟨hpre.eq_of_length ?_, hwritten, hbuffer⟩
  rw [hlength, hwritten, length_flatten_replicate]

/-- A client whose message was echoed. -/
def answeredClient : Client :=
  (settled (main true 0) { buffer := [1, 2], sched := [{ room := 2 }, { data := [1, 2] }] } ⟨⟩).2

theorem client_reads_back_answered :
    answeredClient.closed = true ∧ answeredClient.readBack <+: answeredClient.written ∧
      (answeredClient.complaints = [] → answeredClient.readBack = answeredClient.written ∧
        answeredClient.written = (List.replicate (turnsOf true 0) [1, 2]).flatten ∧
          answeredClient.buffer = [1, 2]) :=
  client_reads_back (c := 0) (.epoll EpollEchoes.reachable_finishedWorld)
    ⟨by decide +kernel, by decide +kernel⟩ (run_settled (by decide +kernel))

/-- The epoll server closes a connection only when its peer has finished. -/
theorem there_of_unfinished (h : EpollServer.Reachable cfg w) (hknown : c < w.kernel.connected)
    (hstays : c ∉ w.kernel.vanished) (hopen : (w.kernel.conns c).eos = false) :
    c ∈ w.kernel.backlog ∨ ∃ fd, w.kernel.files fd = some (.socket c) := by
  have htraced := (EpollEchoes.atTop_of_reachable lasting_true trivial
    (EpollEchoes.benchReachable h)).2.1.traced
  rcases htraced.consistent.whereabouts c hknown with hmem | hfile | hvanished | ⟨fd, hclosed⟩
  · exact .inl hmem
  · exact .inr hfile
  · exact absurd hvanished hstays
  · have hended := htraced.finished (fun _ hended => hended) (mem_closings hclosed)
    rw [hopen] at hended
    cases hended

/-- A client never waits for the epoll server while the server waits for it: when
the client has sent its message and read all that came back, and what it wrote has
arrived, the message lies in the kernel as a whole, and an edge is pending that
wakes the server up.  The connection was not reset before the server has accepted
it, and the client has not shut it down. -/
theorem epoll_serves_waiting (h : EpollServer.Reachable cfg w)
    (hfirst : first.length = cfg.defaultBufferSize.toNat)
    (hrun : (do loop false n; sendMessage) { buffer := first, sched := sched } = .ok (⟨⟩, cl))
    (hwhole : ∀ count, .shortWrite count ∉ cl.complaints)
    (harrived : (w.kernel.conns c).sent.map Octet.value = cl.written)
    (hread : cl.readBack = (w.kernel.conns c).transmitted.map Octet.value)
    (hknown : c < w.kernel.connected) (hstays : c ∉ w.kernel.vanished)
    (hopen : (w.kernel.conns c).eos = false) :
    cfg.defaultBufferSize.toNat ≤ (w.kernel.conns c).unread.length ∧
      (c ∈ w.kernel.backlog ∧ w.kernel.edges cfg.listeningSocket = true ∨
        ∃ fd, w.kernel.files fd = some (.socket c) ∧ w.kernel.edges fd = true) := by
  have hkept : Kept first (n + 1) n cl :=
    ((triple_loop false n).bind fun _ => triple_sendMessage) _ Kept.start _ _ hrun
  have htraced := (EpollEchoes.atTop_of_reachable lasting_true trivial
    (EpollEchoes.benchReachable h)).2.1.traced
  have hunread : cfg.defaultBufferSize.toNat ≤ (w.kernel.conns c).unread.length := by
    have hconserved := congrArg List.length (htraced.conserved c)
    have hwritten := congrArg List.length harrived
    have hreturned := congrArg List.length hread
    have hle := hkept.readBack_le
    rw [hkept.whole hwhole, Nat.succ_mul] at hwritten
    simp only [List.length_map, List.length_append] at hconserved hwritten hreturned
    change _ = _ + (0 + _) at hconserved
    omega
  refine ⟨hunread, ?_⟩
  have halert := (EpollAlert.watch_of_reachable h).alert
  have hregistry := (EpollRuns.orderly_of_reachable h).registry
  rcases there_of_unfinished h hknown hstays hopen with hbacklog | ⟨fd, hfile⟩
  · left
    have hheard : w.kernel.interest cfg.listeningSocket ≠ none := by
      rw [show w.kernel.interest cfg.listeningSocket = some EpollServer.lfdHolder from
        hregistry.heard]
      exact Option.some_ne_none _
    exact ⟨hbacklog, halert.edge .connection hregistry.listening hheard
      (List.ne_nil_of_mem hbacklog)⟩
  · right
    obtain ⟨p, hclient⟩ := hregistry.owned fd c hfile
    obtain ⟨-, -, -, hinterest⟩ := hregistry.client p fd _ hclient
    refine ⟨fd, hfile, halert.edge .data hfile ?_ ?_⟩
    · rw [show w.kernel.interest fd = some p from hinterest]
      exact Option.some_ne_none _
    · intro hnone
      have hpos := cfg.buffer_pos
      have hzero := congrArg List.length hnone
      rw [List.length_nil] at hzero
      omega

/-- A client that has sent its first message. -/
def waitingClient : Client :=
  (settled (do loop false 0; sendMessage) { buffer := [1, 2], sched := [{ room := 2 }] } ⟨⟩).2

theorem run_waitingClient :
    (do loop false 0; sendMessage) { buffer := [1, 2], sched := [{ room := 2 }] } =
      .ok (⟨⟩, waitingClient) :=
  run_settled (by decide +kernel)

theorem reachable_waitingWorld :
    EpollServer.Reachable smallServerConfig EpollAlert.waitingWorld :=
  EpollRuns.reachable_settled (by decide +kernel)

theorem epoll_serves_waiting_sent :
    smallServerConfig.defaultBufferSize.toNat ≤
        (EpollAlert.waitingWorld.kernel.conns 0).unread.length ∧
      (0 ∈ EpollAlert.waitingWorld.kernel.backlog ∧
          EpollAlert.waitingWorld.kernel.edges smallServerConfig.listeningSocket = true ∨
        ∃ fd, EpollAlert.waitingWorld.kernel.files fd = some (.socket 0) ∧
          EpollAlert.waitingWorld.kernel.edges fd = true) :=
  epoll_serves_waiting reachable_waitingWorld rfl run_waitingClient
    (fun _ hmem => absurd hmem List.not_mem_nil) (by decide +kernel) (by decide +kernel)
    (by decide +kernel) (by decide +kernel) (by decide +kernel)

end Servers

end EchoServers.EchoClient
