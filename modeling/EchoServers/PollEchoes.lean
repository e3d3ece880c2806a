import EchoServers.BenchJournal
import EchoServers.EchoTraffic
import EchoServers.PollRuns
import Mathlib.Data.List.Forall2

namespace EchoServers.PollEchoes

open EchoServers.BenchJournal
open EchoServers.EchoService
open EchoServers.EchoTraffic
open EchoServers.HostLedger
open EchoServers.MeasContainer
open EchoServers.PollRegistry
open EchoServers.PollRuns
open EchoServers.PollServer
open EchoServers.PollServicing
open EchoServers.PollVector
open EchoServers.ServerBenchmark
open EchoServers.ServerUtils
open EchoServers.SocketKernel
open EchoServers.StateTriples
open EchoServers.TimeUtils
open EchoServers.Utils

/-- The server closes a connection that has failed, or of which it has read the
end of the stream. -/
def FailedOrDrained (x : Stream Octet) : Prop :=
  x.failed = true ∨ x.pending = [] ∧ x.ended = true

/-- Every buffer has room for more than a message. -/
def Sized (cfg : ServerConfig) (w : PollWorld) : Prop :=
  ∀ p con, w.cons p = some con → con.buf.length = cfg.defaultServerBufferSize

/-- Every result of `accept_client` is counted, and there is an event for each
entry at most. -/
def manner (cfg : ServerConfig) : Manner where
  cfg := cfg
  counts _ := true
  bound := 2 ^ 32

theorem manner_cfg (cfg : ServerConfig) : (manner cfg).cfg = cfg := rfl

/-- The entries that the server has serviced, and the files that it has closed. -/
structure Deeds where
  dispatched : List Dispatch
  closes : List (Fd × File)

def deeds (a : PollApp) (closes : List (Fd × File)) : Deeds where
  dispatched := a.dispatched
  closes := closes

/-- What holds between two calls of the server; `N` is true of its tally and of
what it has done. -/
structure Flow (cfg : ServerConfig) (L : (ConnId → Conn) → Prop)
    (N : Tally → Deeds → Prop) (w : PollWorld) : Prop where
  traffic : Traffic cfg.defaultBufferSize.toNat FailedOrDrained L emptyHands w
  sized : Sized cfg w
  noted : Noted deeds N w

section Calls

variable {cfg : ServerConfig} {S : ConnId → Prop} {L L' : (ConnId → Conn) → Prop}
  {N N' : Tally → Deeds → Prop} {l : PollLedger} {β : Type} {w : PollWorld} {p : Ptr}
  {fd : Fd} {f : File}

theorem stable_sized : Stable (Sized cfg) :=
  ⟨fun _ _ h => h, fun _ _ h => h⟩

theorem stable_flow (hL : Lasting S L) : Stable (Flow cfg L N) :=
  ⟨fun w a h => ⟨(stable_traffic hL).arrive w a h.traffic, h.sized,
      stable_noted.arrive w a h.noted⟩,
    fun w s h => ⟨(stable_traffic hL).sched w s h.traffic, h.sized, h.noted⟩⟩

theorem Flow.mono (h : Flow cfg L N w) (hL : ∀ conns, L conns → L' conns)
    (hN : ∀ t x, N t x → N' t x) : Flow cfg L' N' w :=
  ⟨⟨h.traffic.traced, hL _ h.traffic.known⟩, h.sized, hN _ _ h.noted⟩

theorem Sized.stored (h : Sized cfg w) {con : PdEchoConnection}
    (hcon : con.buf.length = cfg.defaultServerBufferSize) :
    Sized cfg { w with cons := Function.update w.cons p (some con) } := by
  intro q con' hq
  change Function.update w.cons p (some con) q = some con' at hq
  rcases eq_or_ne q p with rfl | hne
  · rw [Function.update_self] at hq
    obtain rfl := Option.some.inj hq
    exact hcon
  · rw [Function.update_of_ne hne] at hq
    exact h q con' hq

/-- Faults and the bookkeeping of the server leave the rest as it is. -/
theorem Flow.faulty (h : Flow cfg L N w) (faults : List Fault) :
    Flow cfg L N { w with faults := faults } :=
  ⟨⟨h.traffic.traced, h.traffic.known⟩, h.sized, h.noted⟩

theorem flow_allocCon (hL : Lasting S L) {init : PdEchoConnection}
    (hinit : init.buf.length = cfg.defaultServerBufferSize) :
    Triple (Flow cfg L N) (allocCon init : Program PollWorld Ptr) fun _ => Flow cfg L N := by
  refine (triple_allocCon (stable_flow hL) init).post ?_
  rintro p w' ⟨w, hw, ⟨-, rfl⟩ | ⟨-, -, rfl⟩⟩
  · exact hw
  · exact ⟨⟨hw.traffic.traced, hw.traffic.known⟩, hw.sized.stored hinit, hw.noted⟩

theorem flow_modifyCon (p : Ptr) {f : PdEchoConnection → PdEchoConnection}
    (hf : ∀ con, con.buf.length = cfg.defaultServerBufferSize →
      (f con).buf.length = cfg.defaultServerBufferSize) :
    Triple (Flow cfg L N) (modifyCon p f : Program PollWorld PUnit) fun _ => Flow cfg L N := by
  refine Triple.get_bind fun w hw => ?_
  cases hcon : w.cons p with
  | none =>
      apply Triple.modify
      rintro w' rfl
      exact hw.faulty _
  | some con =>
      apply Triple.modify
      rintro w' rfl
      exact ⟨⟨hw.traffic.traced, hw.traffic.known⟩, hw.sized.stored (hf con (hw.sized p con hcon)),
        hw.noted⟩

theorem flow_freeCon (p : Ptr) :
    Triple (Flow cfg L N) (freeCon p : Program PollWorld PUnit) fun _ => Flow cfg L N := by
  refine Triple.get_bind fun w hw => ?_
  cases hcon : w.cons p with
  | none =>
      apply Triple.modify
      rintro w' rfl
      exact hw.faulty _
  | some con =>
      apply Triple.modify
      rintro w' rfl
      refine ⟨⟨hw.traffic.traced, hw.traffic.known⟩, fun q con' hq => ?_, hw.noted⟩
      change Function.update w'.cons p none q = some con' at hq
      rcases eq_or_ne q p with rfl | hne
      · rw [Function.update_self] at hq
        cases hq
      · rw [Function.update_of_ne hne] at hq
        exact hw.sized q con' hq

/-- The variables of the server are written. -/
theorem flow_modifyApp {f : PollWorld → PollApp}
    (hf : ∀ w cs, N (tally w) (deeds w.app cs) → N' (tally w) (deeds (f w) cs)) :
    Triple (Flow cfg L N) (modify fun w => { w with app := f w } : Program PollWorld PUnit)
      fun _ => Flow cfg L N' :=
  Triple.modify fun w hw => ⟨⟨hw.traffic.traced, hw.traffic.known⟩, hw.sized, hf w _ hw.noted⟩

theorem flow_modifyHostBench {f : ServerBench → ServerBench}
    (hf : ∀ t x, N t x → N' { t with bench := f t.bench } x) :
    Triple (Flow cfg L N) (modifyHostBench f : Program PollWorld PUnit) fun _ => Flow cfg L N' :=
  Triple.modify fun _ hw =>
    ⟨⟨hw.traffic.traced, hw.traffic.known⟩, hw.sized, hf _ _ hw.noted⟩

theorem flow_assertZero (code : Int) (text : String) :
    Triple (Flow cfg L N) (assertZero code text : Program PollWorld PUnit)
      fun _ => Flow cfg L N :=
  triple_assertZero.post fun _ _ h => h.1

theorem flow_acceptClient (hL : Lasting S L) (ls : Fd) :
    Triple (Flow cfg L N) (acceptClient ls : Program PollWorld Fd) fun fd =>
      Flow cfg L fun t x => ∃ t₀, N t₀ x ∧ t = { t₀ with accepts := t₀.accepts ++ [fd] } := by
  have hsized : Triple (Sized cfg) (acceptClient ls : Program PollWorld Fd)
      fun _ => Sized cfg := by
    refine (triple_acceptClient stable_sized ls).post ?_
    rintro fd w' ⟨w, hw, ⟨-, -, rfl⟩ | ⟨c, rest, -, -, -, rfl⟩⟩
    · exact hw
    · exact hw
  exact (((traffic_acceptClient hL ls).and hsized).and (noted_acceptClient ls)).conseq
    (fun w h => ⟨⟨h.traffic, h.sized⟩, h.noted⟩) fun _ w h => ⟨h.1.1, h.1.2, h.2⟩

/-- If there is a connection behind the descriptor, it may be closed. -/
def Closable (fd : Fd) (w : PollWorld) : Prop :=
  ∀ c, w.kernel.files fd = some (.socket c) →
    ((w.kernel.conns c).err || (w.kernel.conns c).hup) = true ∨ Drained (w.kernel.conns c)

theorem stable_closable (fd : Fd) : Stable (Closable fd) := by
  constructor
  · intro w a h c hfile
    rw [HostWorld.arrive, arrive_files] at hfile
    exact (h c hfile).imp ((lasting_failed (S := fun _ => False) c).arrive w.kernel a)
      ((lasting_drained (S := fun _ => False) c).arrive w.kernel a)
  · intro w s h
    exact h

/-- The file `f` was closed in addition. -/
def Closing (fd : Fd) (f : File) (N : Tally → Deeds → Prop) (t : Tally) (x : Deeds) : Prop :=
  ∃ cs, N t { x with closes := cs } ∧ x.closes = cs ++ [(fd, f)]

theorem flow_hostClose (hL : Lasting S L) (fd : Fd) (f : File) :
    Triple (fun w => Flow cfg L N w ∧ Closable fd w ∧ Behind fd f w)
      (hostClose fd : Program PollWorld Int) fun _ => Flow cfg L (Closing fd f N) := by
  have hstable : Stable fun w : PollWorld => Flow cfg L N w ∧ Closable fd w ∧ Behind fd f w :=
    stable_and (stable_flow hL) (stable_and (stable_closable fd) stable_behind)
  have htraffic : Triple (fun w => Flow cfg L N w ∧ Closable fd w ∧ Behind fd f w)
      (hostClose fd : Program PollWorld Int) fun _ =>
      Traffic cfg.defaultBufferSize.toNat FailedOrDrained L emptyHands := by
    refine traffic_hostClose hstable ?_
    rintro w ⟨hflow, hclosable, -⟩
    exact ⟨hflow.traffic, fun c hfile => hclosable c hfile⟩
  have hsized : Triple (fun w => Flow cfg L N w ∧ Closable fd w ∧ Behind fd f w)
      (hostClose fd : Program PollWorld Int) fun _ => Sized cfg := by
    refine (triple_hostClose hstable fd).post ?_
    rintro rc w' ⟨w, hw, -, rfl⟩
    exact hw.1.sized
  exact ((htraffic.and hsized).and (noted_hostClose fd)).conseq
    (fun w h => ⟨⟨h, h⟩, h.1.noted, h.2.2⟩) fun _ w h => ⟨h.1.1, h.1.2, h.2⟩

/-- A message is echoed, or the end of the stream is read. -/
theorem flow_readNEcho (hL : Lasting (fun _ => True) L) (fd : Fd) {buf : List Octet}
    (hbuf : buf.length = cfg.defaultServerBufferSize) :
    Triple (Flow cfg L N) (readNEcho cfg fd buf : Program PollWorld (Int × List Octet)) fun r w =>
      r.2.length = cfg.defaultServerBufferSize ∧
        Flow cfg L (fun t x => ∃ t₀, N t₀ x ∧
          (r.1 = 0 ∧ t = t₀ ∨ r.1 ≠ 0 ∧ ∃ message, t = t₀.echo fd message)) w ∧
          (r.1 = 0 → Closable fd w) := by
  have hsized : Triple (Sized cfg)
      (readNEcho cfg fd buf : Program PollWorld (Int × List Octet)) fun _ => Sized cfg := by
    refine (triple_readNEcho (R := fun _ => Sized cfg) stable_sized cfg fd buf
      (fun w c data hw _ _ _ => hw) fun _ => stable_sized).post ?_
    rintro r w' (⟨-, hw⟩ | ⟨w, c, data, hw, -, -, -, rfl⟩)
    · exact hw
    · exact hw
  have hstable : Stable (Flow cfg L N) := stable_flow hL
  have htraffic := traffic_readNEcho hstable hL cfg fd buf
    (Z := True) fun w hw => ⟨hw.traffic, fun _ _ => ⟨trivial, fun _ => trivial⟩⟩
  have hnoted := noted_readNEcho hstable cfg fd buf (S := fun _ => True) fun w hw =>
    ⟨hw.noted, fun _ _ => trivial⟩
  refine ((htraffic.and hsized).and hnoted).conseq (fun w h => ⟨⟨h, h.sized⟩, h⟩) ?_
  rintro r w ⟨⟨⟨htraffic, hlength, hdrained⟩, hsized⟩, t₀, ht₀, hread⟩
  refine ⟨hlength.trans hbuf, ⟨htraffic, hsized, t₀, ht₀, ?_⟩, fun hzero c hfile => .inr ?_⟩
  · exact hread.imp_right fun ⟨hne, message, _, ht⟩ => ⟨hne, message, ht⟩
  refine (hdrained hzero ?_).2 c hfile
  rw [hbuf, ServerConfig.defaultServerBufferSize]
  exact Nat.succ_pos _

end Calls

section Handlers

variable {cfg : ServerConfig} {L : (ConnId → Conn) → Prop} {N : Tally → Deeds → Prop}
  {l : PollLedger} {i : UInt32} {p : Ptr} {f : File} {P : PollWorld → Prop}

/-- The vector is the one of the ledger. -/
theorem flow_getVector :
    Triple (fun w => P w ∧ Booked pollShape l w) getVector fun v w =>
      v = l.app.pollfdv ∧ P w ∧ Booked pollShape l w := by
  refine Triple.get_bind ?_
  rintro w ⟨hP, hbooked⟩
  apply Triple.pure
  rintro w' rfl
  exact ⟨congrArg (fun l' : PollLedger => l'.app.pollfdv) hbooked, hP, hbooked⟩

theorem flow_setVector (v : PollfdVector) :
    Triple (Flow cfg L N) (setVector v) fun _ => Flow cfg L N :=
  flow_modifyApp fun _ _ h => h

theorem flow_pollAddFd (hL : Lasting (fun _ => True) L) (fd : Fd) (pollEvents : UInt16)
    (privateData : Option Ptr) :
    Triple (Flow cfg L N) (pollAddFd fd pollEvents privateData) fun _ => Flow cfg L N := by
  refine (triple_hostYield (stable_flow hL)).bind fun t => Triple.get_bind fun w hw => ?_
  refine Triple.get_bind fun w' heq => ?_
  rw [heq]
  cases pollfdvAdd w.app.pollfdv
      { fd := fd, events := pollEvents, revents := 0, object := w.kernel.files fd }
      privateData t.answer with
  | error e => exact Triple.throw _
  | ok v => exact (flow_setVector v).pre fun _ heq => heq ▸ hw

theorem flow_pollHandleNewClient (hL : Lasting (fun _ => True) L)
    (hN : ∀ t x fd, N t x → N (t.accept (manner cfg) fd) x) (ls : Fd) :
    Triple (Flow cfg L N) (pollHandleNewClient cfg ls) fun _ => Flow cfg L N := by
  refine (flow_acceptClient hL ls).bind fun clientFd => ?_
  refine (flow_allocCon hL (by simp)).bind fun con => ?_
  refine triple_assertNnull.bind fun _ => Triple.pre ?_ fun _ h => h.1
  refine (flow_modifyCon con ?_).bind fun _ => ?_
  · exact fun _ hlength => hlength
  refine (flow_pollAddFd hL clientFd pollin (some con)).bind fun _ => ?_
  apply triple_whenTrue
  · intro hbench
    apply flow_modifyHostBench
    rintro t x ⟨t₀, ht₀, rfl⟩
    have hnext := hN t₀ x clientFd ht₀
    rw [Tally.accept, manner_cfg, hbench] at hnext
    exact hnext
  · intro w hw hbench
    obtain ⟨t₀, ht₀, ht⟩ := hw.noted
    have hnext := hN t₀ _ clientFd ht₀
    rw [Bool.not_eq_true] at hbench
    rw [Tally.accept, manner_cfg, hbench] at hnext
    refine ⟨hw.traffic, hw.sized, ?_⟩
    rw [Noted, ht]
    exact hnext

/-- The client in the slot `i` has failed or is drained. -/
theorem flow_closeClient (hL : Lasting (fun _ => True) L) (l : PollLedger) (i : UInt32)
    (hfile : l.files (l.app.pollfdv.readData i).fd = some f) :
    Triple (fun w => (Flow cfg L N w ∧ Closable (l.app.pollfdv.readData i).fd w) ∧
        Booked pollShape l w) (closeClient i) fun _ =>
      Flow cfg L (Closing (l.app.pollfdv.readData i).fd f N) := by
  refine flow_getVector.bind fun v => Triple.and_pre ?_
  rintro rfl
  refine ((flow_hostClose hL _ f).pre fun w hw => ⟨hw.1.1, hw.1.2, ?_⟩).bind fun rc => ?_
  · exact (congrFun (congrArg Ledger.files hw.2) _).trans hfile
  refine (flow_assertZero rc _).bind fun _ => triple_getVector.bind fun v => ?_
  refine Triple.bind (Q := fun _ => Flow cfg L (Closing (l.app.pollfdv.readData i).fd f N)) ?_
    fun _ => ?_
  · refine Triple.pre ?_ fun w hw => hw.1
    cases v.readPd i with
    | none => exact Triple.pure _ fun _ hw => hw
    | some p => exact flow_freeCon p
  · exact triple_getVector.bind fun v => (flow_setVector _).pre fun w hw => hw.1

/-- The buffer of a live connection has the size that it was made with. -/
theorem flow_readBuf (hlive : l.cons p = some ()) :
    Triple (fun w => Flow cfg L N w ∧ Booked pollShape l w) (readBuf (some p)) fun buf w =>
      buf.length = cfg.defaultServerBufferSize ∧ Flow cfg L N w ∧ Booked pollShape l w := by
  refine Triple.get_bind ?_
  rintro w ⟨hflow, hbooked⟩
  have hcon : (w.cons p).map pollShape = some () := by
    rw [← hlive, ← hbooked]
    rfl
  obtain ⟨con, hcon, -⟩ := Option.map_eq_some_iff.mp hcon
  rw [hcon]
  apply Triple.pure
  rintro w' rfl
  exact ⟨hflow.sized p con hcon, hflow, hbooked⟩

/-- What has become of the events of a client whose descriptor is `fd`, and of the
files closed so far. -/
inductive Data (cfg : ServerConfig) (fd : Fd) (f : File) (t : Tally) (cs : List (Fd × File)) :
    Tally → List (Fd × File) → Prop where
  | message (message : List Octet) (start finish now : Timespec) :
      Data cfg fd f t cs ((t.echo fd message).lasted (manner cfg) start finish now) cs
  | ending (start finish now : Timespec) :
      Data cfg fd f t cs (t.lasted (manner cfg) start finish now) (cs ++ [(fd, f)])

/-- The read has brought `r` bytes: a message was echoed, unless there were none. -/
def Answered (fd : Fd) (r : Int) (N : Tally → Deeds → Prop) (t : Tally) (x : Deeds) : Prop :=
  ∃ t₀, N t₀ x ∧ (r = 0 ∧ t = t₀ ∨ r ≠ 0 ∧ ∃ message, t = t₀.echo fd message)

/-- The servicing that began at `start` has come to its end. -/
def Lasted (cfg : ServerConfig) (start : Timespec) (N : Tally → Deeds → Prop) (t : Tally)
    (x : Deeds) : Prop :=
  ∃ t₀, N t₀ x ∧ ∃ finish now, t = t₀.lasted (manner cfg) start finish now

theorem data_of_ended {fd : Fd} {start : Timespec} {t : Tally} {x : Deeds}
    (h : Closing fd f (Lasted cfg start (Answered fd 0 N)) t x) :
    ∃ t₀ cs, N t₀ { x with closes := cs } ∧ Data cfg fd f t₀ cs t x.closes := by
  obtain ⟨cs, ⟨t₁, ⟨t₀, ht₀, ⟨-, rfl⟩ | ⟨hne, -⟩⟩, finish, now, rfl⟩, hcloses⟩ := h
  · refine ⟨t₁, cs, ht₀, ?_⟩
    rw [hcloses]
    exact .ending start finish now
  · exact absurd rfl hne

theorem data_of_answered {fd : Fd} {r : Int} {start : Timespec} {t : Tally} {x : Deeds}
    (hne : r ≠ 0) (h : Lasted cfg start (Answered fd r N) t x) :
    ∃ t₀ cs, N t₀ { x with closes := cs } ∧ Data cfg fd f t₀ cs t x.closes := by
  obtain ⟨t₁, ⟨t₀, ht₀, ⟨hzero, -⟩ | ⟨-, message, rfl⟩⟩, finish, now, rfl⟩ := h
  · exact absurd hzero hne
  · exact ⟨t₀, x.closes, ht₀, .message message start finish now⟩

theorem flow_handleClientData (hL : Lasting (fun _ => True) L)
    (hpd : l.app.pollfdv.readPd i = some p) (hlive : l.cons p = some ())
    (hfile : l.files (l.app.pollfdv.readData i).fd = some f) :
    Triple (fun w => Flow cfg L N w ∧ Booked pollShape l w) (handleClientData cfg i) fun _ =>
      Flow cfg L fun t x => ∃ t₀ cs, N t₀ { x with closes := cs } ∧
        Data cfg (l.app.pollfdv.readData i).fd f t₀ cs t x.closes := by
  have hstable : Stable fun w : PollWorld => Flow cfg L N w ∧ Booked pollShape l w :=
    stable_and (stable_flow hL) (stable_booked l)
  refine (triple_hostStart hstable cfg).bind fun start => ?_
  refine flow_getVector.bind fun v => Triple.and_pre ?_
  rintro rfl
  rw [hpd]
  refine (flow_readBuf hlive).bind fun buf => Triple.and_pre fun hbuf => ?_
  refine flow_getVector.bind fun v => Triple.and_pre ?_
  rintro rfl
  have hread : Triple (fun w => Flow cfg L N w ∧ Booked pollShape l w)
      (readNEcho cfg (l.app.pollfdv.readData i).fd buf) fun r w =>
      r.2.length = cfg.defaultServerBufferSize ∧
        ((Flow cfg L (Answered (l.app.pollfdv.readData i).fd r.1 N) w ∧
          (r.1 = 0 → Closable (l.app.pollfdv.readData i).fd w)) ∧ Booked pollShape l w) :=
    ((flow_readNEcho hL _ hbuf).and (booked_readNEcho cfg _ buf)).post
      fun r w h => ⟨h.1.1, h.1.2, h.2⟩
  refine hread.bind fun read => Triple.and_pre fun hlength => ?_
  generalize hfd : (l.app.pollfdv.readData i).fd = fd at hfile ⊢
  have hclosable : Stable fun w : PollWorld => read.1 = 0 → Closable fd w :=
    ⟨fun w a h hzero => (stable_closable _).arrive w a (h hzero),
      fun w s h hzero => (stable_closable _).sched w s (h hzero)⟩
  have hafter : Stable fun w : PollWorld =>
      (Flow cfg L (Answered fd read.1 N) w ∧ (read.1 = 0 → Closable fd w)) ∧
        Booked pollShape l w := stable_and (stable_and (stable_flow hL) hclosable) (stable_booked l)
  refine Triple.bind (Q := fun _ w =>
    (Flow cfg L (Answered fd read.1 N) w ∧ (read.1 = 0 → Closable fd w)) ∧
      Booked pollShape l w) ?_ fun _ => ?_
  · have hwritten : Triple (Flow cfg L (Answered fd read.1 N))
        (modifyCon p fun c => { c with buf := read.2 } : Program PollWorld PUnit)
        fun _ => Flow cfg L (Answered fd read.1 N) := flow_modifyCon p fun _ _ => hlength
    have hkept : KeepsOutside PollApp.dispatched
        (modifyCon p fun c => { c with buf := read.2 } : Program PollWorld PUnit) :=
      keepsOutside_modifyCon p _
    have hclosable := hkept.keeps fun v =>
      read.1 = 0 → ∀ c, v.1.files fd = some (.socket c) →
        ((v.1.conns c).err || (v.1.conns c).hup) = true ∨ Drained (v.1.conns c)
    exact (hwritten.and hclosable).and (booked_modifyCon_same (fun _ => rfl) hlive)
  refine Triple.bind (Q := fun _ w =>
    (Flow cfg L (Lasted cfg start (Answered fd read.1 N)) w ∧ (read.1 = 0 → Closable fd w)) ∧
        Booked pollShape l w) ?_ fun _ => ?_
  · apply triple_whenTrue
    · intro hmeasures
      refine (triple_hostNow hafter).bind fun finish => (triple_hostNow hafter).bind fun now => ?_
      apply Triple.modify
      rintro w ⟨⟨hflow, hclosable⟩, hbooked⟩
      refine ⟨⟨⟨⟨hflow.traffic.traced, hflow.traffic.known⟩, hflow.sized, tally w, hflow.noted,
        finish, now, ?_⟩, hclosable⟩, hbooked⟩
      rw [Tally.lasted, manner_cfg, if_pos hmeasures]
      rfl
    · rintro w ⟨⟨hflow, hclosable⟩, hbooked⟩ hnot
      refine ⟨⟨⟨hflow.traffic, hflow.sized, tally w, hflow.noted, {}, {}, ?_⟩, hclosable⟩, hbooked⟩
      rw [Tally.lasted, manner_cfg, if_neg hnot]
  · apply Triple.ite
    · intro hzero
      subst hfd
      have hended : ∀ t x, Closing (l.app.pollfdv.readData i).fd f
            (Lasted cfg start (Answered (l.app.pollfdv.readData i).fd read.1 N)) t x →
          ∃ t₀ cs, N t₀ { x with closes := cs } ∧
            Data cfg (l.app.pollfdv.readData i).fd f t₀ cs t x.closes := by
        rw [hzero]
        exact fun _ _ h => data_of_ended h
      refine ((flow_closeClient hL l i hfile).pre ?_).bind fun _ => Triple.pure _ fun _ hw =>
        hw.mono (fun _ h => h) hended
      rintro w ⟨⟨hflow, hclosable⟩, hbooked⟩
      exact ⟨⟨hflow, hclosable hzero⟩, hbooked⟩
    · intro hne
      exact Triple.pure _ fun w hw =>
        hw.1.1.mono (fun _ h => h) fun t x h => data_of_answered hne h

end Handlers

section Journal

variable {cfg : ServerConfig} {t₀ : Tally} {n : Nat} {t t' : Tally} {ds : List Dispatch}
  {ks : List Served} {cs cs' : List (Fd × File)} {x : Deeds} {d : Dispatch} {k : Served}

/-- What can become of an entry of its branch and with its reports. -/
inductive Fits (d : Dispatch) : Served → Prop where
  | newClient (hbranch : d.branch = .newClient) : Fits d .newClient
  | timer (hbranch : d.branch = .timer) : Fits d .timer
  | message (hbranch : d.branch = .client)
      (hfailed : d.entry.1.revents &&& (pollhup ||| pollerr) = 0)
      (hreadable : d.entry.1.revents &&& pollin ≠ 0) : Fits d (.message d.entry.1.fd)
  | ending (hbranch : d.branch = .client)
      (hfailed : d.entry.1.revents &&& (pollhup ||| pollerr) = 0)
      (hreadable : d.entry.1.revents &&& pollin ≠ 0) : Fits d (.ending d.entry.1.fd)
  | other (hbranch : d.branch = .client)
      (hunread : d.entry.1.revents &&& (pollhup ||| pollerr) ≠ 0 ∨
        d.entry.1.revents &&& pollin = 0) : Fits d .other

/-- The file that is closed when `k` has become of the entry. -/
def closing (d : Dispatch) : Served → Option (Fd × File)
  | .newClient | .message _ => none
  | .timer | .ending _ => d.object.map fun f => (d.entry.1.fd, f)
  | .other =>
      if d.entry.1.revents &&& (pollhup ||| pollerr) ≠ 0 then
        d.object.map fun f => (d.entry.1.fd, f)
      else none

/-- The files closed for the entries serviced, in order. -/
def closingsOf (ds : List Dispatch) (ks : List Served) : List (Fd × File) :=
  (List.zipWith closing ds ks).filterMap id

theorem closingsOf_append (h : List.Forall₂ Fits ds ks) (d : Dispatch) (k : Served) :
    closingsOf (ds ++ [d]) (ks ++ [k]) = closingsOf ds ks ++ (closing d k).toList := by
  unfold closingsOf
  rw [List.zipWith_append h.length_eq, List.filterMap_append]
  cases hclosing : closing d k with
  | none => simp [hclosing]
  | some x => simp [hclosing]

/-- The journal of a run in which `n` events of the batch are left. -/
def Journaled (cfg : ServerConfig) (t₀ : Tally) (n : Nat) (t : Tally) (x : Deeds) : Prop :=
  ∃ ks, List.Forall₂ Fits x.dispatched ks ∧ x.closes = closingsOf x.dispatched ks ∧
    Journal (manner cfg) t₀ ks n t

/-- The entry `d` was recorded, but not serviced yet. -/
def Noting (cfg : ServerConfig) (t₀ : Tally) (n : Nat) (d : Dispatch) (t : Tally)
    (x : Deeds) : Prop :=
  ∃ ds, Journaled cfg t₀ (n + 1) t { x with dispatched := ds } ∧ x.dispatched = ds ++ [d]

theorem Noting.serviced (h : Noting cfg t₀ n d t { x with closes := cs }) (hfits : Fits d k)
    (hcloses : x.closes = cs ++ (closing d k).toList)
    (hstep : ∀ ks, Journal (manner cfg) t₀ ks (n + 1) t →
      Journal (manner cfg) t₀ (ks ++ [k]) n t') : Journaled cfg t₀ n t' x := by
  obtain ⟨ds, ⟨ks, hall, hcs, hjournal⟩, hdispatched⟩ := h
  refine ⟨ks ++ [k], ?_, ?_, hstep ks hjournal⟩
  · rw [show x.dispatched = _ from hdispatched]
    exact List.rel_append hall (.cons hfits .nil)
  · rw [show x.dispatched = _ from hdispatched, closingsOf_append hall, hcloses,
      show cs = _ from hcs]

theorem Noting.data {f : File} (h : Noting cfg t₀ n d t { x with closes := cs })
    (hbranch : d.branch = .client) (hobject : d.object = some f)
    (hfailed : d.entry.1.revents &&& (pollhup ||| pollerr) = 0)
    (hreadable : d.entry.1.revents &&& pollin ≠ 0)
    (hdata : Data cfg d.entry.1.fd f t cs t' cs') (hcs : x.closes = cs') :
    Journaled cfg t₀ n t' x := by
  cases hdata with
  | message message start finish now =>
      refine h.serviced (.message hbranch hfailed hreadable) ?_ fun ks hjournal =>
        hjournal.message _ message start finish now
      rw [hcs]
      exact (List.append_nil _).symm
  | ending start finish now =>
      refine h.serviced (.ending hbranch hfailed hreadable) ?_ fun ks hjournal =>
        hjournal.ending _ start finish now
      rw [hcs, closing, hobject]
      rfl

/-- A client whose entry reports a failure is closed. -/
theorem Noting.failed {f : File} (h : Closing d.entry.1.fd f (Noting cfg t₀ n d) t x)
    (hbranch : d.branch = .client) (hobject : d.object = some f)
    (hfailed : d.entry.1.revents &&& (pollhup ||| pollerr) ≠ 0) : Journaled cfg t₀ n t x := by
  obtain ⟨cs, hnoting, hcloses⟩ := h
  refine hnoting.serviced (.other hbranch (.inl hfailed)) ?_ fun _ hjournal => hjournal.other
  rw [hcloses, closing, if_pos hfailed, hobject]
  rfl

/-- Nothing was closed. -/
theorem Noting.kept (h : Noting cfg t₀ n d t x) (hfits : Fits d k) (hnone : closing d k = none)
    (hstep : ∀ ks, Journal (manner cfg) t₀ ks (n + 1) t →
      Journal (manner cfg) t₀ (ks ++ [k]) n t') : Journaled cfg t₀ n t' x := by
  have hkept : Noting cfg t₀ n d t { x with closes := x.closes } := h
  refine hkept.serviced hfits ?_ hstep
  rw [hnone]
  exact (List.append_nil _).symm

theorem timer_of_fits (h : List.Forall₂ Fits ds ks) (hmem : .timer ∈ ks) :
    ∃ d ∈ ds, d.branch = .timer := by
  induction h with
  | nil => cases hmem
  | @cons d k ds ks hfits hall ih =>
      rcases List.mem_cons.mp hmem with rfl | hmem
      · cases hfits with
        | timer hbranch => exact ⟨d, List.mem_cons_self, hbranch⟩
      · obtain ⟨d', hd', hbranch⟩ := ih hmem
        exact ⟨d', List.mem_cons_of_mem _ hd', hbranch⟩

/-- The timer has expired and was closed, for the first time. -/
theorem Noting.expired {ds₀ : List Dispatch} {fd : Fd} (hfresh : ∀ d ∈ ds₀, d.branch ≠ .timer)
    (hbranch : d.branch = .timer) (hfd : d.entry.1.fd = fd) (hobject : d.object = some .timer)
    (h : Closing fd .timer
      (fun t x => Noting cfg t₀ n d t x ∧ x.dispatched = ds₀ ++ [d]) t x) (now : Timespec) :
    Journaled cfg t₀ n (t.timer (manner cfg) now) x := by
  obtain ⟨cs, ⟨⟨ds, ⟨ks, hall, hcs, hjournal⟩, hds⟩, hdispatched⟩, hcloses⟩ := h
  obtain rfl : ds = ds₀ := List.append_cancel_right (hds.symm.trans hdispatched)
  have hnone : .timer ∉ ks := by
    intro hmem
    obtain ⟨d', hd', hbranch'⟩ := timer_of_fits hall hmem
    exact hfresh d' hd' hbranch'
  have hclosing : closing d .timer = some (fd, .timer) := by
    rw [closing, hobject, hfd]
    rfl
  refine ⟨ks ++ [.timer], ?_, ?_, hjournal.timer hnone now⟩
  · rw [show x.dispatched = _ from hds]
    exact List.rel_append hall (.cons (.timer hbranch) .nil)
  · rw [show x.dispatched = _ from hds, closingsOf_append hall, hclosing, hcloses,
      show cs = _ from hcs]
    rfl

end Journal

section Events

variable {cfg : ServerConfig} {S : ConnId → Prop} {L : (ConnId → Conn) → Prop}
  {N : Tally → Deeds → Prop} {t₀ : Tally} {n : Nat} {l : PollLedger} {i : UInt32}
  {es : List Entry} {p : Ptr}

/-- The connections whose failure the entries report have failed. -/
def Told (es : List Entry) (conns : ConnId → Conn) : Prop :=
  ∀ e ∈ es, e.1.revents &&& (pollhup ||| pollerr) ≠ 0 → ∀ c, e.1.object = some (.socket c) →
    ((conns c).err || (conns c).hup) = true

theorem lasting_told (es : List Entry) : Lasting S (Told es) :=
  lasting_forall fun _ => lasting_forall fun _ => lasting_forall fun _ => lasting_forall fun c =>
    lasting_forall fun _ => lasting_failed c

/-- The record of the entry in the slot `i`. -/
def dispatchOf (l : PollLedger) (branch : Branch) (i : UInt32) : Dispatch :=
  ⟨branch, (l.app.pollfdv.readData i, l.app.pollfdv.readPd i),
    l.files (l.app.pollfdv.readData i).fd⟩

theorem flow_handleClientEvent (hL : Lasting (fun _ => True) L)
    (htold : ∀ conns, L conns → Told es conns) {d : Dispatch} (hbranch : d.branch = .client)
    (hentry : d.entry.1 = l.app.pollfdv.readData i) {f : File} (hobject : d.object = some f)
    (hfile : l.files (l.app.pollfdv.readData i).fd = some f)
    (horderly : Orderly cfg l) (hi : i.toNat < l.app.pollfdv.size.toNat)
    (hmem : l.app.pollfdv.slot i.toNat ∈ es) (hpd : l.app.pollfdv.readPd i = some p)
    (hlive : l.cons p = some ()) :
    Triple (fun w => Flow cfg L (Noting cfg t₀ n d) w ∧ Booked pollShape l w)
      (handleClientEvent cfg i) fun _ => Flow cfg L (Journaled cfg t₀ n) := by
  refine flow_getVector.bind fun v => Triple.and_pre ?_
  rintro rfl
  rw [← hentry]
  apply Triple.ite
  · intro hfailed
    have hclose : Triple (fun w => Flow cfg L (Noting cfg t₀ n d) w ∧ Booked pollShape l w)
        (closeClient i) fun _ =>
        Flow cfg L (Closing (l.app.pollfdv.readData i).fd f (Noting cfg t₀ n d)) := by
      refine (flow_closeClient hL l i hfile).pre ?_
      rintro w ⟨hflow, hbooked⟩
      refine ⟨⟨hflow, fun c hsocket => .inl ?_⟩, hbooked⟩
      have hfiles : w.kernel.files = l.files := congrArg Ledger.files hbooked
      rw [hfiles, horderly.behind hi] at hsocket
      rw [hentry] at hfailed
      exact htold _ hflow.traffic.known _ hmem hfailed c hsocket
    refine hclose.bind fun _ => Triple.pure _ fun w hw => hw.mono (fun _ h => h) ?_
    rw [← hentry]
    exact fun t x hclosing => Noting.failed hclosing hbranch hobject hfailed
  · intro hnot
    rw [ne_eq, not_not] at hnot
    apply Triple.ite
    · intro hreadable
      refine (flow_handleClientData hL hpd hlive hfile).post fun _ w hw => ?_
      refine hw.mono (fun _ h => h) ?_
      rintro t x ⟨t', cs, hnoting, hdata⟩
      rw [← hentry] at hdata
      exact hnoting.data hbranch hobject hnot hreadable hdata rfl
    · intro hunread
      refine Triple.pure _ fun w hw => hw.1.mono (fun _ h => h) fun t x hnoting => ?_
      have hother : closing d .other = none := if_neg (not_not.mpr hnot)
      exact hnoting.kept (.other hbranch (.inr (not_not.mp hunread))) hother
        fun _ hjournal => hjournal.other

theorem flow_timerExpired (hL : Lasting (fun _ => True) L) {timerFd : Fd}
    (hfile : l.files timerFd = some .timer) :
    Triple (fun w => Flow cfg L N w ∧ Booked pollShape l w) (timerExpired cfg timerFd) fun _ =>
      Flow cfg L fun t x => ∃ t₀ now, Closing timerFd .timer N t₀ x ∧
        t = t₀.timer (manner cfg) now := by
  refine Triple.bind (Q := fun _ => Flow cfg L (Closing timerFd .timer N)) ?_ fun _ => ?_
  · refine ((flow_hostClose hL timerFd .timer).pre ?_).bind fun rc => flow_assertZero rc _
    rintro w ⟨hflow, hbooked⟩
    have hbehind : w.kernel.files timerFd = some .timer :=
      (congrFun (congrArg Ledger.files hbooked) _).trans hfile
    refine ⟨hflow, fun c hsocket => ?_, hbehind⟩
    rw [hbehind] at hsocket
    cases hsocket
  · apply triple_whenTrue
    · intro hbench
      refine (triple_hostNow (stable_flow hL)).bind fun now =>
        flow_modifyHostBench fun t x ht => ⟨t, now, ht, ?_⟩
      rw [Tally.timer, manner_cfg, if_pos hbench]
    · intro w hw hbench
      refine ⟨hw.traffic, hw.sized, tally w, {}, hw.noted, ?_⟩
      rw [Tally.timer, manner_cfg, if_neg hbench]

theorem flow_clearRevents (moves : Nat) (i : UInt32) :
    Triple (Flow cfg L N) (clearRevents moves i) fun _ => Flow cfg L N := by
  refine triple_getVector.bind fun v => Triple.pre ?_ fun w hw => hw.1
  apply Triple.ite
  · intro _
    exact flow_setVector _
  · intro _
    exact flow_modifyApp fun _ _ h => h

theorem flow_record (branch : Branch) :
    Triple (fun w => Flow cfg L (Journaled cfg t₀ (n + 1)) w ∧ Booked pollShape l w)
      (record branch i) fun _ w =>
      Flow cfg L (fun t x => Noting cfg t₀ n (dispatchOf l branch i) t x ∧
          x.dispatched = l.app.dispatched ++ [dispatchOf l branch i]) w ∧
        Booked pollShape (l.withApp
          (recorded l.app branch i (l.files (l.app.pollfdv.readData i).fd))) w := by
  apply Triple.modify
  rintro w ⟨hflow, rfl⟩
  exact ⟨⟨⟨hflow.traffic.traced, hflow.traffic.known⟩, hflow.sized,
    ⟨w.app.dispatched, hflow.noted, rfl⟩, rfl⟩, rfl⟩

/-- The body of the loop of `service_events`, for an entry of the batch. -/
theorem flow_serviceEvent (hL : Lasting (fun _ => True) L)
    (htold : ∀ conns, L conns → Told es conns)
    (horderly : Orderly cfg l) (hi : i.toNat < l.app.pollfdv.size.toNat)
    (hmem : l.app.pollfdv.slot i.toNat ∈ es) (hne : (l.app.pollfdv.readData i).revents ≠ 0) :
    Triple (fun w => Flow cfg L (Journaled cfg t₀ (n + 1)) w ∧ Booked pollShape l w)
      (serviceEvent cfg i) fun _ => Flow cfg L (Journaled cfg t₀ n) := by
  rw [PollRegistry.serviceEvent_eq]
  refine Triple.get_bind fun w hw => ?_
  have happ : w.app = l.app := congrArg Ledger.app hw.2
  have hrecorded : ∀ branch, Triple (fun w' => w' = w) (record branch i) fun _ w' =>
      Flow cfg L (fun t x => Noting cfg t₀ n (dispatchOf l branch i) t x ∧
          x.dispatched = l.app.dispatched ++ [dispatchOf l branch i]) w' ∧
        Booked pollShape (l.withApp
          (recorded l.app branch i (l.files (l.app.pollfdv.readData i).fd))) w' := fun branch =>
    (flow_record branch).pre fun _ heq => heq ▸ hw
  have hready := horderly.ready hi hne
  rw [happ]
  generalize branchTaken cfg l.app i = branch at hready
  cases hready with
  | newClient hfd hobject hpd =>
      have hserviced : ∀ t x, Noting cfg t₀ n (dispatchOf l .newClient i) t x →
          Journaled cfg t₀ n t x := fun t x h =>
        h.kept (.newClient rfl) rfl fun _ hjournal => hjournal.newClient
      have hclients := flow_pollHandleNewClient (N := Journaled cfg t₀ n) hL
        (fun t x fd h => h.imp fun ks h => ⟨h.1, h.2.1, h.2.2.accept fd⟩) cfg.listeningSocket
      refine (hrecorded .newClient).bind fun _ => ?_
      refine (hclients.pre fun w' hw' =>
        hw'.1.mono (fun _ h => h) fun t x h => hserviced t x h.1).bind fun _ => ?_
      exact (flow_clearRevents _ i).bind fun _ => Triple.pure _ fun _ hw' => hw'
  | timer hfd hnonneg hobject hpd =>
      have hbehind := (horderly.behind hi).trans hobject
      have hfirst := horderly.expired (ne_of_fd_nonneg hnonneg)
      have hexpired : ∀ t x, (∃ t' now, Closing l.app.timerFd .timer (fun t x =>
            Noting cfg t₀ n (dispatchOf l .timer i) t x ∧
              x.dispatched = l.app.dispatched ++ [dispatchOf l .timer i]) t' x ∧
            t = t'.timer (manner cfg) now) → Journaled cfg t₀ n t x := by
        rintro t x ⟨t', now, hclosing, rfl⟩
        exact Noting.expired hfirst rfl hfd hbehind hclosing now
      refine (hrecorded .timer).bind fun _ => ((flow_timerExpired hL (hfd ▸ hbehind)).post
        fun _ w' hw' => hw'.mono (fun _ h => h) hexpired).bind fun _ => ?_
      refine triple_getVector.bind fun v => ?_
      refine ((flow_setVector _).pre fun _ hw' => hw'.1).bind fun _ => ?_
      refine (flow_modifyApp ?_).bind fun _ => Triple.pure _ fun _ hw' => hw'
      exact fun _ _ h => h
  | client c p hfd hobject hpd hlive =>
      have hbehind := (horderly.behind hi).trans hobject
      have hrecord := horderly.recorded (i := i) client_ne_timer
        (l.files (l.app.pollfdv.readData i).fd)
      have hevent : Triple (fun w' => Flow cfg L (Noting cfg t₀ n (dispatchOf l .client i)) w' ∧
          Booked pollShape (l.withApp
            (recorded l.app .client i (l.files (l.app.pollfdv.readData i).fd))) w')
          (handleClientEvent cfg i) fun _ => Flow cfg L (Journaled cfg t₀ n) :=
        flow_handleClientEvent hL htold rfl rfl hbehind hbehind hrecord hi hmem hpd hlive
      refine (hrecorded .client).bind fun _ => (hevent.pre fun w' hw' =>
        ⟨hw'.1.mono (fun _ h => h) fun t x h => h.1, hw'.2⟩).bind fun removed => ?_
      apply Triple.ite
      · intro _
        exact Triple.pure _ fun _ hw' => hw'
      · intro _
        exact (flow_clearRevents _ i).bind fun _ => Triple.pure _ fun _ hw' => hw'

end Events

section Turns

variable {cfg : ServerConfig} {L : (ConnId → Conn) → Prop} {t₀ : Tally} {a₀ : PollApp}
  {noEvents : Int}

theorem flow_serviceEventsTurns (t₀ : Tally) (hL : Lasting (fun _ => True) L)
    (htold : ∀ conns, L conns → Told a₀.pollfdv.entries conns) (hbatch : Batch cfg a₀ noEvents)
    (k : Nat) (i : UInt32) (n : Int) :
    Triple (fun w => Between cfg a₀ noEvents i n w ∧
        Flow cfg L (Journaled cfg t₀ (noEvents - n).toNat) w)
      (serviceEventsTurns cfg a₀.pollfdv.size noEvents k i n) fun reached w =>
      Between cfg a₀ noEvents reached.1 reached.2 w ∧
        Flow cfg L (Journaled cfg t₀ (noEvents - reached.2).toNat) w := by
  induction k generalizing i n with
  | zero => exact Triple.pure _ fun w h => h
  | succ k ih =>
      apply Triple.ite
      · rintro ⟨hi, hn⟩
        have hleft : (noEvents - n).toNat = (noEvents - (n + 1)).toNat + 1 := by omega
        refine triple_getVector.bind fun v => Triple.of_pre ?_
        rintro w ⟨⟨⟨hscan, horderly⟩, hflow⟩, rfl⟩
        apply Triple.ite
        · intro hzero
          refine (ih (i + 1) n).pre ?_
          rintro w' rfl
          exact ⟨⟨hscan.skip hi hn hzero, horderly⟩, hflow⟩
        · intro hne
          have hserviced : Triple (fun w' : PollWorld => w'.app = w.app) (serviceEvent cfg i)
              fun removed w' => PollServicing.Serviced cfg w.app i removed w'.app :=
            triple_serviceEvent
          have hkept := orderly_serviceEvent horderly (hscan.index_lt hn) hne
          have hmem : w.app.pollfdv.slot i.toNat ∈ a₀.pollfdv.entries := by
            obtain ⟨log, -, hperm, -⟩ := hscan.served
            have hpending := pending_of_ready (hscan.slot_eq hn) hne
            have hmem : w.app.pollfdv.slot i.toNat ∈ pending a₀.pollfdv.entries 0 := by
              apply hperm.subset
              rw [hpending]
              exact List.mem_append_right _ List.mem_cons_self
            exact List.mem_of_mem_drop (List.mem_filter.mp hmem).1
          have hflows : Triple (fun w' => Flow cfg L
                (Journaled cfg t₀ ((noEvents - (n + 1)).toNat + 1)) w' ∧
              Booked pollShape (ledger pollShape w) w') (serviceEvent cfg i) fun _ =>
              Flow cfg L (Journaled cfg t₀ (noEvents - (n + 1)).toNat) :=
            flow_serviceEvent hL htold horderly (hscan.index_lt hn) hmem hne
          refine (((hserviced.and hkept).and hflows).pre ?_).bind fun removed =>
            (ih _ (n + 1)).pre ?_
          · rintro w' rfl
            rw [← hleft]
            exact ⟨⟨rfl, rfl⟩, hflow, rfl⟩
          · rintro w' ⟨⟨hstep, horderly'⟩, hflow'⟩
            exact ⟨⟨hscan.step hbatch hi hn hne hstep, horderly'⟩, hflow'⟩
      · intro _
        exact Triple.pure _ fun w h => h

theorem flow_serviceEvents (t₀ : Tally) (hL : Lasting (fun _ => True) L) {l : PollLedger}
    (h : Orderly cfg l) (htold : ∀ conns, L conns → Told l.app.pollfdv.entries conns) :
    Triple (fun w => Flow cfg L (Journaled cfg t₀ (ready l.app.pollfdv.entries)) w ∧
        Booked pollShape l w)
      (serviceEvents cfg (ready l.app.pollfdv.entries)) fun _ =>
      Flow cfg L (Journaled cfg t₀ 0) := by
  have hbatch := batch_of_orderly h
  refine flow_getVector.bind fun v => Triple.and_pre ?_
  rintro rfl
  have hsplit := serviceEventsLoop_eq cfg l.app.pollfdv.size (ready l.app.pollfdv.entries)
    (l.app.pollfdv.size.toNat + Int.toNat (ready l.app.pollfdv.entries)) 0 0 0
  rw [Nat.add_zero] at hsplit
  dsimp only
  rw [hsplit, bind_assoc]
  refine ((flow_serviceEventsTurns t₀ hL htold hbatch _ 0 0).pre ?_).bind
    fun reached => ?_
  · rintro w ⟨hflow, hbooked⟩
    have happ : w.app = l.app := congrArg Ledger.app hbooked
    have horderly : Orderly cfg (ledger pollShape w) := hbooked.symm ▸ h
    rw [Int.sub_zero, Int.toNat_natCast]
    exact ⟨⟨happ.symm ▸ scan_start hbatch, horderly⟩, hflow⟩
  · refine Triple.bind (Q := fun noServiced => Flow cfg L (Journaled cfg t₀
      ((ready l.app.pollfdv.entries : Int) - noServiced).toNat)) ?_ fun noServiced => ?_
    · exact Triple.ite (fun _ => Triple.throw _) fun _ => Triple.pure _ fun w hw => hw.2
    · refine triple_assertZero.post fun _ w hw => ?_
      obtain ⟨hflow, hzero⟩ := hw
      rw [hzero] at hflow
      exact hflow

end Turns

section Reports

variable {cfg : ServerConfig} {L : (ConnId → Conn) → Prop} {t₀ : Tally} {l : PollLedger}
  {k : Kernel}

theorem failed_of_reported {p : Pollfd} {c : ConnId} (hfile : k.files p.fd = some (.socket c))
    (hreport : reported k p &&& (pollhup ||| pollerr) ≠ 0) :
    ((k.conns c).err || (k.conns c).hup) = true := by
  by_contra hnot
  rw [Bool.not_eq_true, Bool.or_eq_false_iff] at hnot
  obtain ⟨herr, hhup⟩ := hnot
  apply hreport
  by_cases hneg : p.fd < 0
  · rw [reported, if_pos hneg]
    decide
  · rcases reported_of_plain (Int.not_lt.mp hneg) hfile herr hhup with hzero | hpollin
    · rw [hzero]
      decide
    · rw [hpollin]
      decide

/-- What `ppoll` reports tells the truth about the connections. -/
theorem told_reported (h : Orderly cfg l) (hfiles : k.files = l.files) :
    Told (reportAll k l.app.pollfdv).entries k.conns := by
  intro e he hreport c hobject
  rw [entries_reportAll h.sound] at he
  obtain ⟨e', he', rfl⟩ := List.mem_map.mp he
  have hbehind : l.files e'.1.fd = e'.1.object :=
    h.registered.behind _ (List.mem_map_of_mem he')
  have hfile : k.files e'.1.fd = some (.socket c) := by
    rw [hfiles, hbehind]
    exact hobject
  exact failed_of_reported hfile hreport

theorem ready_le (v : PollfdVector) : ready v.entries ≤ v.size.toNat :=
  (List.length_filter_le ..).trans (le_of_eq length_entries)

/-- A batch is reported, and counted. -/
theorem flow_awaitEvents (t₀ : Tally) (hL : Lasting (fun _ => True) L)
    (h : Orderly cfg l) :
    Triple (fun w => Flow cfg L (Journaled cfg t₀ 0) w ∧ Booked pollShape l w) (awaitEvents cfg)
      fun noEvents w => Flow cfg L (Journaled cfg t₀ noEvents.toNat) w ∧
        (0 ≤ noEvents → Told w.app.pollfdv.entries w.kernel.conns) := by
  have hstable : Stable fun w : PollWorld => Flow cfg L (Journaled cfg t₀ 0) w ∧
      Booked pollShape l w := stable_and (stable_flow hL) (stable_booked l)
  have hpoll : Triple (fun w => Flow cfg L (Journaled cfg t₀ 0) w ∧ Booked pollShape l w) ppoll
      fun noEvents w =>
        (noEvents = -1 ∧ Flow cfg L (Journaled cfg t₀ 0) w) ∨
          ∃ n : Nat, (noEvents = n ∧ n < (manner cfg).bound) ∧
            Flow cfg L (fun t x => ∃ t', Journaled cfg t₀ 0 t' x ∧ t = t'.fetched n) w ∧
              Told w.app.pollfdv.entries w.kernel.conns := by
    refine (triple_hostYield hstable).bind fun t =>
      Triple.ite (fun _ => triple_exitFailure _) fun _ => Triple.get_bind ?_
    rintro w ⟨hflow, hbooked⟩
    apply Triple.ite
    · intro _
      apply Triple.pure
      rintro w' rfl
      exact .inl ⟨rfl, hflow⟩
    · intro _
      apply Triple.modify_bind
      apply Triple.modify_bind
      apply Triple.pure
      rintro w' rfl
      have happ : w.app = l.app := congrArg Ledger.app hbooked
      have htold := told_reported h (k := w.kernel) (congrArg Ledger.files hbooked)
      rw [← happ] at htold
      refine .inr ⟨ready (reportAll w.kernel w.app.pollfdv).entries, ⟨rfl, ?_⟩,
        ⟨⟨hflow.traffic.traced, hflow.traffic.known⟩, hflow.sized, tally w, hflow.noted, rfl⟩,
        htold⟩
      exact Nat.lt_of_le_of_lt (ready_le _) (UInt32.toNat_lt _)
  refine hpoll.bind fun noEvents => Triple.or_pre (Triple.and_pre ?_)
    (Triple.exists_pre fun n => Triple.and_pre ?_)
  · rintro rfl
    exact Triple.pure _ fun w hw => ⟨hw, fun hnonneg => absurd hnonneg (by decide)⟩
  · rintro ⟨rfl, hbound⟩
    have hnonneg : (0 : Int) ≤ n := Int.natCast_nonneg _
    rw [whenTrue_of hnonneg]
    have hcounted : Triple (Noted deeds fun t x => ∃ t', Journaled cfg t₀ 0 t' x ∧
          t = t'.fetched n)
        (whenTrue cfg.doServerSideBenchmarking do
          modifyHostBench fun b => sbRequestsPerformed b (Int32.ofNat n) :
          Program PollWorld PUnit) fun _ => Noted deeds fun t x =>
            ∃ t', Journaled cfg t₀ 0 t' x ∧ t = t'.batch (manner cfg) n :=
      noted_batch (manner cfg) n
    have hkept : Triple (fun w => (Traffic cfg.defaultBufferSize.toNat FailedOrDrained L emptyHands
            w ∧ Sized cfg w) ∧ Told w.app.pollfdv.entries w.kernel.conns)
        (whenTrue cfg.doServerSideBenchmarking do
          modifyHostBench fun b => sbRequestsPerformed b (Int32.ofNat n) :
          Program PollWorld PUnit) fun _ w =>
        (Traffic cfg.defaultBufferSize.toNat FailedOrDrained L emptyHands w ∧ Sized cfg w) ∧
          Told w.app.pollfdv.entries w.kernel.conns := by
      refine triple_whenTrue (fun _ => Triple.modify fun w hw => ?_) fun _ hw _ => hw
      exact ⟨⟨⟨hw.1.1.traced, hw.1.1.known⟩, hw.1.2⟩, hw.2⟩
    refine ((hkept.and hcounted).pre fun w hw =>
      ⟨⟨⟨hw.1.traffic, hw.1.sized⟩, hw.2⟩, hw.1.noted⟩).bind fun _ => Triple.pure _ ?_
    rintro w ⟨⟨⟨htraffic, hsized⟩, htold⟩, t', ht', ht⟩
    refine ⟨⟨htraffic, hsized, ?_⟩, fun _ => htold⟩
    rw [Noted, ht, Int.toNat_natCast]
    exact ht'.imp fun ks h => ⟨h.1, h.2.1, h.2.2.batch _ hbound⟩

theorem flow_serviceLoopTurn (hL : Lasting (fun _ => True) L) :
    Triple (fun w => Orderly cfg (ledger pollShape w) ∧ Flow cfg L (Journaled cfg t₀ 0) w)
      (serviceLoopTurn cfg) fun _ w =>
      Orderly cfg (ledger pollShape w) ∧ Flow cfg L (Journaled cfg t₀ 0) w := by
  refine (orderly_serviceLoopTurn.and ?_).conseq (fun w h => ⟨h.1, h⟩) fun _ w h => h
  rw [serviceLoopTurn_eq]
  refine Triple.of_pre ?_
  rintro w₀ ⟨horderly₀, hflow₀⟩
  refine (((triple_awaitEvents horderly₀).and (flow_awaitEvents t₀ hL horderly₀)).pre ?_).bind
    fun noEvents => Triple.of_pre fun w₁ hw₁ => ?_
  · rintro w rfl
    exact ⟨rfl, hflow₀, rfl⟩
  obtain ⟨⟨horderly, hcount⟩, hflow, htold⟩ := hw₁
  apply triple_whenTrue
  · intro hnonneg
    rw [hcount hnonneg] at hflow ⊢
    rw [Int.toNat_natCast] at hflow
    have hL' := lasting_and hL (lasting_told w₁.app.pollfdv.entries)
    refine (flow_serviceEvents t₀ hL' horderly fun conns h => h.2).conseq ?_ ?_
    · rintro w rfl
      exact ⟨⟨⟨hflow.traffic.traced, hflow.traffic.known, htold hnonneg⟩, hflow.sized,
        hflow.noted⟩, rfl⟩
    · exact fun _ w h => h.mono (fun _ hknown => hknown.1) fun _ _ hjournal => hjournal
  · rintro w rfl hneg
    rw [Int.toNat_of_nonpos (by omega)] at hflow
    exact hflow

end Reports

section Runs

variable {cfg : ServerConfig} {L : (ConnId → Conn) → Prop} {N : Tally → Deeds → Prop}
  {b₀ : ServerBench} {s₀ : Samples} {w : PollWorld} {c : ConnId}

theorem flow_serviceLoopStart (hL : Lasting (fun _ => True) L) (dataNull pdNull : Bool) :
    Triple (Flow cfg L N) (serviceLoopStart cfg dataNull pdNull) fun _ => Flow cfg L N := by
  unfold serviceLoopStart
  cases pollfdvCreate dataNull pdNull with
  | error e => exact Triple.throw _
  | ok v =>
      refine (flow_setVector v).bind fun _ => ?_
      refine Triple.bind (Q := fun _ => Flow cfg L N) ?_ fun _ => ?_
      · refine triple_whenTrue (fun _ => ?_) fun _ hw _ => hw
        have hsized : Triple (Sized cfg) (createWarmupTimer : Program PollWorld Fd)
            fun _ => Sized cfg :=
          triple_createWarmupTimer stable_sized (fun w fd hw _ _ => hw) fun _ => stable_sized
        have htimer : Triple (Flow cfg L N) (createWarmupTimer : Program PollWorld Fd)
            fun _ => Flow cfg L N :=
          (((traffic_createWarmupTimer hL).and hsized).and noted_createWarmupTimer).conseq
            (fun w h => ⟨⟨h.traffic, h.sized⟩, h.noted⟩) fun _ w h => ⟨h.1.1, h.1.2, h.2⟩
        refine htimer.bind fun timerFd => flow_modifyApp ?_
        exact fun _ _ h => h
      · refine (flow_pollAddFd hL _ _ _).bind fun _ => ?_
        refine triple_whenTrue (fun _ => ?_) fun _ hw _ => hw
        exact Triple.get_bind fun w hw => (flow_pollAddFd hL _ _ _).pre fun _ heq => heq ▸ hw

/-- The state in which the loop starts when `sb_create` has made the bench `b₀`
and its samples `s₀`. -/
def benchWorld (cfg : ServerConfig) (b₀ : ServerBench) (s₀ : Samples)
    (sched : List (HostTick Growth)) : PollWorld :=
  { initialWorld cfg sched with bench := b₀, samples := s₀ }

/-- `w` is a state of the server with that bench at the top of its loop, in some
run, after any further arrivals. -/
def BenchReachable (cfg : ServerConfig) (b₀ : ServerBench) (s₀ : Samples) (w : PollWorld) :
    Prop :=
  ∃ (dataNull pdNull : Bool) (sched : List (HostTick Growth)) (n : Nat) (w₀ : PollWorld)
    (arrivals : List Arrival),
    serviceLoop cfg dataNull pdNull n (benchWorld cfg b₀ s₀ sched) = .ok (⟨⟩, w₀) ∧
      w = arrivals.foldl HostWorld.arrive w₀

theorem benchReachable (h : Reachable cfg w) : BenchReachable cfg {} {} w := h

theorem atTop_of_reachable (hL : Lasting (fun _ => True) L) (hinitial : L fun _ => {})
    (h : BenchReachable cfg b₀ s₀ w) :
    Orderly cfg (ledger pollShape w) ∧ Flow cfg L (Journaled cfg (.start b₀ s₀) 0) w := by
  obtain ⟨dataNull, pdNull, sched, n, w₀, arrivals, hrun, rfl⟩ := h
  have hflow : Flow cfg L (Journaled cfg (.start b₀ s₀) 0) (benchWorld cfg b₀ s₀ sched) :=
    ⟨⟨traced_start, hinitial⟩, nofun, ⟨[], .nil, rfl, .start⟩⟩
  have hbooked : Booked pollShape (initialLedger cfg s₀) (benchWorld cfg b₀ s₀ sched) := rfl
  have horderly : Triple (Booked pollShape (initialLedger cfg s₀))
      (serviceLoopStart cfg dataNull pdNull) fun _ w => Orderly cfg (ledger pollShape w) :=
    orderly_of_initialLedger dataNull pdNull
  have hstart := horderly.and
    (flow_serviceLoopStart (N := Journaled cfg (.start b₀ s₀) 0) hL dataNull pdNull)
  have hfinal := (hstart.bind fun _ => Triple.turns (fun _ => flow_serviceLoopTurn hL) n ⟨⟩)
    (benchWorld cfg b₀ s₀ sched) ⟨hbooked, hflow⟩ ⟨⟩ w₀ hrun
  have hstable : Stable fun w : PollWorld => Booked pollShape (ledger pollShape w₀) w ∧
      Flow cfg L (Journaled cfg (.start b₀ s₀) 0) w :=
    stable_and (stable_booked _) (stable_flow hL)
  obtain ⟨hbooked, hflow'⟩ := hstable.arrivals ⟨rfl, hfinal.2⟩ arrivals
  exact ⟨hbooked.symm ▸ hfinal.1, hflow'⟩

/-- A client was accepted, sent a message that was echoed, and finished. -/
def finishedWorld : PollWorld :=
  (settled (serviceLoop smallServerConfig false false 3) (initialWorld smallServerConfig
    [{ fd := 5, answer := {} }, { answer := {} }, { answer := {} }, { answer := {} },
      { arrivals := [.connect], answer := {} }, { fd := 6, answer := {} },
      { ptr := 8, answer := {} }, { answer := {} },
      { arrivals := [.bytes 0 [1, 2]], answer := {} }, { answer := {} }, { answer := {} },
      { limit := 2, answer := {} }, { answer := {} }, { answer := {} },
      { arrivals := [.eos 0], answer := {} }, { answer := {} }]) ⟨⟩).2

theorem reachable_finishedWorld : Reachable smallServerConfig finishedWorld :=
  reachable_settled (by decide +kernel)

/-- A run of the server is one of the abstract service that closes a connection
when it has failed, or at its end with nothing left to send back: the kernel
shows its state, and the echoes and the closes are those of the trace. -/
theorem poll_refines_echoService (h : Reachable cfg w) :
    ∃ trace s, Runs cfg.defaultBufferSize.toNat FailedOrDrained trace s ∧
      Shows w.kernel emptyHands s ∧ messages trace = w.echoes.map Echo.message ∧
        closings trace = w.kernel.closes.filterMap socketOf :=
  (atTop_of_reachable lasting_true trivial (benchReachable h)).2.traffic.traced.trace

theorem poll_refines_echoService_finished :
    ∃ trace s, Runs smallServerConfig.defaultBufferSize.toNat FailedOrDrained trace s ∧
      Shows finishedWorld.kernel emptyHands s ∧
      messages trace = finishedWorld.echoes.map Echo.message ∧
        closings trace = finishedWorld.kernel.closes.filterMap socketOf :=
  poll_refines_echoService reachable_finishedWorld

/-- The bytes of each connection go back in order, in whole messages and to
their sender only; a connection is closed once at most, and all that was sent on
it has then been echoed, unless it failed. -/
theorem poll_answers_all (h : Reachable cfg w) :
    (∀ c, Echoing cfg.defaultBufferSize.toNat w.kernel c) ∧
      (w.kernel.closes.filterMap socketOf).Nodup ∧
        ∀ fd c, (fd, .socket c) ∈ w.kernel.closes → (w.kernel.conns c).err = false →
          (w.kernel.conns c).hup = false →
            (w.kernel.conns c).transmitted = (w.kernel.conns c).sent := by
  have hown : Own fun _ => {} := fun c x hx => by cases hx
  have hflow := (atTop_of_reachable lasting_own hown (benchReachable h)).2
  have htraced := hflow.traffic.traced
  refine ⟨htraced.echoing hflow.traffic.known, htraced.nodup_closes, ?_⟩
  intro fd c hclosed herr hhup
  exact htraced.answered (fun _ hmay => hmay) (mem_closings hclosed) herr hhup

theorem poll_answers_all_finished :
    (∀ c, Echoing smallServerConfig.defaultBufferSize.toNat finishedWorld.kernel c) ∧
      (finishedWorld.kernel.closes.filterMap socketOf).Nodup ∧
        ∀ fd c, (fd, .socket c) ∈ finishedWorld.kernel.closes →
          (finishedWorld.kernel.conns c).err = false → (finishedWorld.kernel.conns c).hup = false →
            (finishedWorld.kernel.conns c).transmitted = (finishedWorld.kernel.conns c).sent :=
  poll_answers_all reachable_finishedWorld

/-- A client sent a message during the warm-up, another one after it, and
finished. -/
def measuredWorld : PollWorld :=
  (settled (serviceLoop smallServerConfig false false 5)
    (benchWorld smallServerConfig (sbCreate 4 fun _ => 0) {}
      [{ fd := 5, answer := {} }, { answer := {} }, { answer := {} }, { answer := {} },
        { arrivals := [.connect], answer := {} }, { fd := 6, answer := {} },
        { ptr := 8, answer := {} }, { answer := {} },
        { arrivals := [.bytes 0 [1, 2]], answer := {} }, { answer := {} }, { answer := {} },
        { limit := 2, answer := {} }, { answer := {} }, { answer := {} },
        { arrivals := [.expire], answer := {} }, { answer := {} }, { answer := {} },
        { arrivals := [.bytes 0 [3, 4]], answer := {} }, { answer := {} }, { answer := {} },
        { limit := 2, answer := {} }, { answer := {} }, { answer := {} },
        { arrivals := [.eos 0], answer := {} }, { answer := {} }, { answer := {} },
        { answer := {} }, { answer := {} }, { answer := {} }]) ⟨⟩).2

theorem reachable_measuredWorld :
    BenchReachable smallServerConfig (sbCreate 4 fun _ => 0) {} measuredWorld :=
  ⟨false, false, _, 5, _, [], run_settled (by decide +kernel), rfl⟩

/-- The bench of a run counts every result of `accept_client`; from the end of
the warm-up on it stores a latency for each message echoed, and for each end of
a stream, as long as there is room.  What became of an entry serviced follows
what it reported: one that can be read brings an echo, or closes its client. -/
theorem poll_bench_accounts {c : Int32} {junk : Nat → UInt8} (hc : 0 ≤ c)
    (hbench : cfg.doServerSideBenchmarking = true)
    (h : BenchReachable cfg (sbCreate c junk) s₀ w) :
    ∃ ks, List.Forall₂ Fits w.app.dispatched ks ∧
      w.echoes.map Echo.fd = ks.filterMap Served.answered ∧
        w.kernel.closes = closingsOf w.app.dispatched ks ∧
          Accounted (manner cfg) c.toInt.toNat ks (tally w) := by
  obtain ⟨-, hflow⟩ := atTop_of_reachable lasting_true trivial h
  obtain ⟨ks, hall, hcloses, hjournal⟩ := hflow.noted
  exact ⟨ks, hall, hjournal.echoes, hcloses, hjournal.accounted hc hbench⟩

theorem poll_bench_accounts_measured :
    ∃ ks, List.Forall₂ Fits measuredWorld.app.dispatched ks ∧
      measuredWorld.echoes.map Echo.fd = ks.filterMap Served.answered ∧
        measuredWorld.kernel.closes = closingsOf measuredWorld.app.dispatched ks ∧
          Accounted (manner smallServerConfig) (4 : Int32).toInt.toNat ks (tally measuredWorld) :=
  poll_bench_accounts (by decide) rfl reachable_measuredWorld

end Runs

end EchoServers.PollEchoes
