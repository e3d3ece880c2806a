import EchoServers.PollServer

namespace EchoServers.PollServicing

open EchoServers.PollServer
open EchoServers.PollVector
open EchoServers.ServerBenchmark
open EchoServers.ServerUtils
open EchoServers.SocketKernel
open EchoServers.StateTriples
open EchoServers.SwapRemoval
open EchoServers.Utils

/-- How `service_events` must not end. -/
def lost : List Stop :=
  [.diverged, .exit "Did not service all requests"]

section Handlers

variable {cfg : ServerConfig} {a : PollApp} {i : UInt32}

theorem triple_getVector {P : PollWorld → Prop} :
    Triple P getVector fun v w => P w ∧ v = w.app.pollfdv := by
  refine Triple.get_bind fun w h => Triple.pure _ ?_
  rintro w' rfl
  exact ⟨h, rfl⟩

theorem triple_setVector (v : PollfdVector) :
    Triple (fun w : PollWorld => w.app = a) (setVector v) fun _ w =>
      w.app = { a with pollfdv := v } := by
  apply Triple.modify
  rintro w rfl
  rfl

/-- A program that leaves the memory of the server alone. -/
theorem triple_of_keeps {β : Type} {L : List Stop} {x : Program PollWorld β}
    (hx : KeepsApp L x) : Triple (fun w => w.app = a) x fun _ w => w.app = a :=
  hx.keeps fun b => b = a

theorem keepsApp_closeTimer {L : List Stop} (hclose : .exit "close" ∉ L) (timerFd : Fd) :
    KeepsApp L (closeTimer timerFd) :=
  (keepsApp_hostClose _).bind fun _ => keepsApp_assertZero hclose _

theorem keepsApp_timerExpired {L : List Stop} (hclose : .exit "close" ∉ L) (timerFd : Fd) :
    KeepsApp L (timerExpired cfg timerFd) :=
  (keepsApp_closeTimer hclose _).bind fun _ =>
    keepsApp_whenTrue (keepsApp_hostNow.bind fun _ => keepsApp_modifyHostBench _)

theorem keepsApp_freePd {L : List Stop} (privateData : Option Ptr) :
    KeepsApp L (freePd privateData) :=
  keepsApp_whenNonNull keepsApp_freeCon

theorem keepsApp_readBuf {L : List Stop} (privateData : Option Ptr) :
    KeepsApp L (readBuf privateData) := by
  cases privateData with
  | none => exact (keepsApp_hostFault _).bind fun _ => Preserves.pure _
  | some p =>
      apply Preserves.get_bind
      intro w
      cases w.cons p with
      | some con => exact Preserves.pure _
      | none => exact (keepsApp_hostFault _).bind fun _ => Preserves.pure _

theorem triple_closeClient :
    Triple (fun w : PollWorld => w.app = a) (closeClient i) fun _ w =>
      w.app = { a with pollfdv := pollfdvRemoveIndex a.pollfdv i } := by
  refine triple_getVector.bind fun v => ?_
  refine Triple.bind (Q := fun _ (w : PollWorld) => w.app = a) ?_ fun rc => ?_
  · exact (triple_of_keeps (L := lost) (keepsApp_hostClose _)).pre fun w h => h.1
  refine (triple_of_keeps (keepsApp_assertZero (L := lost) (by decide) _)).bind fun _ => ?_
  refine triple_getVector.bind fun v' => ?_
  refine Triple.bind (Q := fun _ (w : PollWorld) => w.app = a) ?_ fun _ => ?_
  · exact (triple_of_keeps (L := lost) (keepsApp_freePd _)).pre fun w h => h.1
  refine triple_getVector.bind fun v'' => Triple.of_pre ?_
  rintro w ⟨rfl, rfl⟩
  exact (triple_setVector _).pre fun _ heq => heq ▸ rfl

/-- What an event does to the entries: it removes the client, or leaves them. -/
def removedIf (a : PollApp) (i : UInt32) (removed : Bool) : PollApp :=
  if removed then { a with pollfdv := pollfdvRemoveIndex a.pollfdv i } else a

theorem triple_handleClientData :
    Triple (fun w : PollWorld => w.app = a) (handleClientData cfg i) fun removed w =>
      w.app = removedIf a i removed := by
  refine (triple_of_keeps (keepsApp_hostStart (L := lost) cfg)).bind fun start => ?_
  refine triple_getVector.bind fun v => ?_
  refine Triple.bind (Q := fun _ (w : PollWorld) => w.app = a) ?_ fun buf => ?_
  · exact (triple_of_keeps (L := lost) (keepsApp_readBuf _)).pre fun w h => h.1
  refine triple_getVector.bind fun v' => ?_
  refine Triple.bind (Q := fun _ (w : PollWorld) => w.app = a) ?_ fun read => ?_
  · exact (triple_of_keeps (keepsApp_readNEcho (L := lost) (by decide) _ _ _)).pre
      fun w h => h.1
  refine Triple.bind (Q := fun _ (w : PollWorld) => w.app = a) ?_ fun _ => ?_
  · exact triple_of_keeps (L := lost) (keepsApp_whenNonNull fun p => keepsApp_modifyCon _ _)
  refine Triple.bind (Q := fun _ (w : PollWorld) => w.app = a) ?_ fun _ => ?_
  · exact triple_of_keeps (L := lost) (keepsApp_whenTrue
      (keepsApp_hostNow.bind fun _ => keepsApp_hostNow.bind fun _ =>
        keepsApp_modifyHostBench _))
  refine Triple.ite (fun _ => ?_) fun _ => Triple.pure _ fun _ h => h
  exact triple_closeClient.bind fun _ => Triple.pure _ fun _ h => h

theorem triple_handleClientEvent :
    Triple (fun w : PollWorld => w.app = a) (handleClientEvent cfg i) fun removed w =>
      w.app = removedIf a i removed := by
  refine triple_getVector.bind fun v => Triple.pre (P := fun (w : PollWorld) => w.app = a) ?_
    fun w h => h.1
  refine Triple.ite (fun _ => ?_) fun _ =>
    Triple.ite (fun _ => triple_handleClientData) fun _ => Triple.pure _ fun _ h => h
  exact triple_closeClient.bind fun _ => Triple.pure _ fun _ h => h

/-- A new entry has nothing to report. -/
theorem triple_pollAddFd (fd : Fd) (pollEvents : UInt16) (privateData : Option Ptr) :
    Triple (fun w : PollWorld => w.app = a) (pollAddFd fd pollEvents privateData) fun _ w =>
      ∃ conf g v, conf.revents = 0 ∧ pollfdvAdd a.pollfdv conf privateData g = .ok v ∧
        w.app = { a with pollfdv := v } := by
  refine (triple_of_keeps (L := lost) keepsApp_hostYield).bind fun t => ?_
  refine Triple.get_bind fun w h => ?_
  refine Triple.bind (triple_getVector.pre (P := fun (w : PollWorld) => w.app = a) ?_)
    fun v => Triple.of_pre ?_
  · rintro w' rfl
    exact h
  rintro w' ⟨rfl, rfl⟩
  cases hadd : pollfdvAdd w'.app.pollfdv
      { fd := fd, events := pollEvents, revents := 0, object := w.kernel.files fd }
      privateData t.answer with
  | error e => exact Triple.throw _
  | ok v =>
      refine (triple_setVector (a := w'.app) v).conseq ?_ fun _ w'' h'' => ?_
      · rintro w'' rfl
        rfl
      · exact ⟨_, _, v, rfl, hadd, h''⟩

/-- An entry with nothing to report is added. -/
def Appended (a a' : PollApp) : Prop :=
  ∃ conf privateData g v, conf.revents = 0 ∧
    pollfdvAdd a.pollfdv conf privateData g = .ok v ∧ a' = { a with pollfdv := v }

theorem triple_pollHandleNewClient (ls : Fd) :
    Triple (fun w : PollWorld => w.app = a) (pollHandleNewClient cfg ls) fun _ w =>
      Appended a w.app := by
  refine (triple_of_keeps (keepsApp_acceptClient (L := lost) (by decide) ls)).bind
    fun clientFd => ?_
  refine (triple_of_keeps (L := lost) (keepsApp_allocCon _)).bind fun con => ?_
  refine (triple_of_keeps (keepsApp_assertNnull (L := lost) (by decide) _)).bind fun _ => ?_
  refine (triple_of_keeps (L := lost) (keepsApp_modifyCon _ _)).bind fun _ => ?_
  refine (triple_pollAddFd clientFd pollin (some con)).bind fun _ => ?_
  refine ((keepsApp_whenTrue (L := lost) (keepsApp_modifyHostBench _)).keeps
    (Appended a)).pre ?_
  rintro w ⟨conf, g, v, hrevents, hadd, happ⟩
  exact ⟨conf, some con, g, v, hrevents, hadd, happ⟩

/-- The entry `i` is recorded as serviced by the branch. -/
def recorded (a : PollApp) (branch : Branch) (i : UInt32) (object : Option File) : PollApp :=
  { a with dispatched := a.dispatched ++
      [⟨branch, (a.pollfdv.readData i, a.pollfdv.readPd i), object⟩] }

/-- The slot `i` is cleared, or the write is lost. -/
def clearedSlot (a : PollApp) (moves : Nat) (i : UInt32) : PollApp :=
  if a.pollfdv.moves = moves then
    { a with
      pollfdv := a.pollfdv.writeData i { a.pollfdv.readData i with revents := 0 } }
  else { a with staleWrites := a.staleWrites ++ [i] }

theorem clearedSlot_dispatched (a : PollApp) (moves : Nat) (i : UInt32) :
    (clearedSlot a moves i).dispatched = a.dispatched := by
  unfold clearedSlot
  split <;> rfl

theorem clearedSlot_timerFd (a : PollApp) (moves : Nat) (i : UInt32) :
    (clearedSlot a moves i).timerFd = a.timerFd := by
  unfold clearedSlot
  split <;> rfl

theorem triple_clearRevents (moves : Nat) :
    Triple (fun w : PollWorld => w.app = a) (clearRevents moves i) fun _ w =>
      w.app = clearedSlot a moves i := by
  refine triple_getVector.bind fun v => Triple.of_pre ?_
  rintro w ⟨rfl, rfl⟩
  unfold clearedSlot
  refine Triple.ite (fun hmoves => ?_) fun hmoves => ?_
  · rw [if_pos hmoves]
    refine (triple_setVector _).pre ?_
    rintro w' rfl
    rfl
  · rw [if_neg hmoves]
    apply Triple.modify
    rintro w' rfl
    rfl

/-- What the loop body does to the memory of the server. -/
inductive Serviced (cfg : ServerConfig) (a : PollApp) (i : UInt32) : Bool → PollApp → Prop where
  | newClient (object : Option File) (b : PollApp)
      (hfd : (a.pollfdv.readData i).fd = cfg.listeningSocket)
      (happended : Appended (recorded a .newClient i object) b) :
      Serviced cfg a i false (clearedSlot b a.pollfdv.moves i)
  | timer (object : Option File)
      (hls : (a.pollfdv.readData i).fd = cfg.listeningSocket →
        (a.pollfdv.readData i).revents &&& pollin = 0)
      (hfd : (a.pollfdv.readData i).fd = a.timerFd) :
      Serviced cfg a i true
        { recorded a .timer i object with
          pollfdv := pollfdvRemoveIndex a.pollfdv i, timerFd := -1 }
  | removed (object : Option File)
      (hls : (a.pollfdv.readData i).fd = cfg.listeningSocket ∨
        (a.pollfdv.readData i).fd = a.timerFd →
          (a.pollfdv.readData i).revents &&& pollin = 0) :
      Serviced cfg a i true
        { recorded a .client i object with pollfdv := pollfdvRemoveIndex a.pollfdv i }
  | kept (object : Option File)
      (hls : (a.pollfdv.readData i).fd = cfg.listeningSocket ∨
        (a.pollfdv.readData i).fd = a.timerFd →
          (a.pollfdv.readData i).revents &&& pollin = 0) :
      Serviced cfg a i false
        (clearedSlot (recorded a .client i object) a.pollfdv.moves i)

theorem triple_serviceEvent :
    Triple (fun w : PollWorld => w.app = a) (serviceEvent cfg i) fun removed w =>
      Serviced cfg a i removed w.app := by
  refine Triple.get_bind fun w h => ?_
  subst h
  let object := w.kernel.files (w.app.pollfdv.readData i).fd
  refine Triple.ite (fun hls => ?_) fun hls => Triple.ite (fun htimer => ?_) fun htimer => ?_
  · refine Triple.modify_bind ?_
    have hnew : Triple (fun w' : PollWorld => w'.app = recorded w.app .newClient i object)
        (pollHandleNewClient cfg cfg.listeningSocket) fun _ w' =>
          Appended (recorded w.app .newClient i object) w'.app :=
      triple_pollHandleNewClient _
    refine (hnew.pre ?_).bind fun _ => Triple.of_pre fun w₂ h₂ => ?_
    · rintro w' rfl
      rfl
    refine ((triple_clearRevents (a := w₂.app) _).pre ?_).bind fun _ => Triple.pure _ ?_
    · rintro w' rfl
      rfl
    · intro w₃ h₃
      rw [h₃]
      exact .newClient object _ hls.1 h₂
  · refine Triple.modify_bind ?_
    have hexpired : Triple (fun w' : PollWorld => w'.app = recorded w.app .timer i object)
        (timerExpired cfg w.app.timerFd) fun _ w' =>
          w'.app = recorded w.app .timer i object :=
      triple_of_keeps (keepsApp_timerExpired (L := lost) (by decide) _)
    refine (hexpired.pre ?_).bind fun _ => triple_getVector.bind fun v => Triple.of_pre ?_
    · rintro w' rfl
      rfl
    rintro w₂ ⟨h₂, rfl⟩
    refine Triple.modify_bind (Triple.modify_bind (Triple.pure _ ?_))
    rintro w₃ rfl
    have hservice : Serviced cfg w.app i true { recorded w.app .timer i object with
        pollfdv := pollfdvRemoveIndex w.app.pollfdv i, timerFd := -1 } :=
      .timer object (fun heq => by simpa [heq] using hls) htimer.1
    dsimp only
    rw [h₂]
    exact hservice
  · refine Triple.modify_bind ?_
    have hother : (w.app.pollfdv.readData i).fd = cfg.listeningSocket ∨
        (w.app.pollfdv.readData i).fd = w.app.timerFd →
          (w.app.pollfdv.readData i).revents &&& pollin = 0 := by
      rintro (heq | heq)
      · simpa [heq] using hls
      · simpa [heq] using htimer
    have hevent : Triple (fun w' : PollWorld => w'.app = recorded w.app .client i object)
        (handleClientEvent cfg i) fun removed w' =>
          w'.app = removedIf (recorded w.app .client i object) i removed :=
      triple_handleClientEvent
    refine (hevent.pre ?_).bind fun removed => ?_
    · rintro w' rfl
      rfl
    cases removed with
    | true =>
        refine Triple.pure _ fun w₂ h₂ => ?_
        rw [h₂]
        exact .removed object hother
    | false =>
        refine (triple_clearRevents _).bind fun _ => Triple.pure _ fun w₃ h₃ => ?_
        rw [h₃]
        exact .kept object hother

end Handlers

section Scan

variable {cfg : ServerConfig} {a₀ a a' : PollApp} {i : UInt32} {n noEvents : Int}

/-- The entries from the place `i` on that are ready. -/
def pending (es : List Entry) (i : Nat) : List Entry :=
  (es.drop i).filter fun e => decide (e.1.revents ≠ 0)

/-- The branch an entry belongs to. -/
def branchOf (cfg : ServerConfig) (timerFd : Fd) (e : Entry) : Branch :=
  if e.1.fd = cfg.listeningSocket then .newClient
  else if e.1.fd = timerFd then .timer
  else .client

/-- What `ppoll` leaves for a batch of `noEvents` events: the descriptors are
distinct but for the slots with -1, which report nothing, and the listening
socket and the timer report only `POLLIN`. -/
structure Batch (cfg : ServerConfig) (a : PollApp) (noEvents : Int) : Prop where
  sound : Sound a.pollfdv
  distinct : ((a.pollfdv.entries.filter fun e => decide (e.1.fd ≠ -1)).map
    fun e => e.1.fd).Nodup
  silent : ∀ e ∈ a.pollfdv.entries, e.1.fd = -1 → e.1.revents = 0
  onlyPollin : ∀ e ∈ a.pollfdv.entries, e.1.fd = cfg.listeningSocket ∨ e.1.fd = a.timerFd →
    e.1.revents = 0 ∨ e.1.revents = pollin
  count : noEvents = ready a.pollfdv.entries

theorem pending_of_ready {es : List Entry} {k : Nat} {e : Entry} (hget : es[k]? = some e)
    (hne : e.1.revents ≠ 0) : pending es k = e :: pending es (k + 1) := by
  obtain ⟨hk, he⟩ := List.getElem?_eq_some_iff.mp hget
  rw [pending, List.drop_eq_getElem_cons hk, he, List.filter_cons_of_pos (by simpa using hne)]
  rfl

theorem pending_of_zero {es : List Entry} {k : Nat} {e : Entry} (hget : es[k]? = some e)
    (hzero : e.1.revents = 0) : pending es k = pending es (k + 1) := by
  obtain ⟨hk, he⟩ := List.getElem?_eq_some_iff.mp hget
  rw [pending, List.drop_eq_getElem_cons hk, he, List.filter_cons_of_neg (by simpa using hzero)]
  rfl

theorem pending_swapRemove {es : List Entry} {k : Nat} (hk : k < es.length) :
    (pending (swapRemove es k) k).Perm (pending es (k + 1)) :=
  (drop_swapRemove hk).filter _

theorem pending_set {es : List Entry} {k : Nat} (e : Entry) :
    pending (es.set k e) (k + 1) = pending es (k + 1) := by
  rw [pending, List.drop_set_of_lt (Nat.lt_succ_self k), pending]

theorem Batch.pending_spec (h : Batch cfg a noEvents) {e : Entry}
    (he : e ∈ pending a.pollfdv.entries 0) :
    e.1.fd ≠ -1 ∧ e.1.revents ≠ 0 ∧
      (e.1.fd = cfg.listeningSocket ∨ e.1.fd = a.timerFd → e.1.revents = pollin) := by
  rw [pending, List.drop_zero, List.mem_filter, decide_eq_true_eq] at he
  obtain ⟨hmem, hne⟩ := he
  refine ⟨fun hfd => hne (h.silent e hmem hfd), hne, fun hfd => ?_⟩
  exact (h.onlyPollin e hmem hfd).resolve_left hne

theorem Batch.pending_nodup (h : Batch cfg a noEvents) :
    ((pending a.pollfdv.entries 0).map fun e => e.1.fd).Nodup := by
  have hsub : (pending a.pollfdv.entries 0).Sublist
      (a.pollfdv.entries.filter fun e => decide (e.1.fd ≠ -1)) := by
    rw [pending, List.drop_zero]
    have hfilter : a.pollfdv.entries.filter (fun e => decide (e.1.revents ≠ 0)) =
        (a.pollfdv.entries.filter fun e => decide (e.1.fd ≠ -1)).filter
          fun e => decide (e.1.revents ≠ 0) := by
      rw [List.filter_filter]
      apply List.filter_congr
      intro e he
      by_cases hfd : e.1.fd = -1
      · simp [h.silent e he hfd]
      · simp [hfd]
    rw [hfilter]
    exact List.filter_sublist
  exact h.distinct.sublist (hsub.map _)

/-- The loop is about to look at the slot `i` and has serviced `n` events: what
it has recorded and what is still ready behind it make up the batch. -/
structure Scan (cfg : ServerConfig) (a₀ : PollApp) (noEvents : Int) (i : UInt32) (n : Int)
    (a : PollApp) : Prop where
  sound : Sound a.pollfdv
  index_le : i.toNat ≤ a₀.pollfdv.size.toNat
  served : ∃ log, a.dispatched = a₀.dispatched ++ log ∧
    (log.map Dispatch.entry ++ pending a.pollfdv.entries i.toNat).Perm
      (pending a₀.pollfdv.entries 0) ∧
    (∀ d ∈ log, d.branch = branchOf cfg a₀.timerFd d.entry) ∧
    (a.timerFd = a₀.timerFd ∨
      (a.timerFd = -1 ∧ ∃ d ∈ log, d.entry.1.fd = a₀.timerFd))
  count : noEvents - n = (pending a.pollfdv.entries i.toNat).length
  beyond : ∀ e ∈ a.pollfdv.entries.drop a₀.pollfdv.size.toNat, e.1.revents = 0
  cleared : a.pollfdv.moves = a₀.pollfdv.moves →
    ∀ e ∈ a.pollfdv.entries.take i.toNat, e.1.revents = 0
  stale : a.pollfdv.moves ≠ a₀.pollfdv.moves →
    ∃ e ∈ a.pollfdv.entries.take i.toNat, e.1.revents ≠ 0
  moves_le : a₀.pollfdv.moves ≤ a.pollfdv.moves

theorem scan_start (h : Batch cfg a noEvents) : Scan cfg a noEvents 0 0 a := by
  refine ⟨h.sound, Nat.zero_le _, ⟨[], by simp, List.Perm.refl _, by simp, .inl rfl⟩, ?_, ?_,
    ?_, fun hne => absurd rfl hne, Nat.le_refl _⟩
  · rw [Int.sub_zero, h.count]
    rfl
  · intro e he
    rw [List.drop_eq_nil_of_le (Nat.le_of_eq length_entries)] at he
    cases he
  · intro _ e he
    cases he

/-- While events are left, the slot looked at is occupied. -/
theorem Scan.index_lt (h : Scan cfg a₀ noEvents i n a) (hn : n < noEvents) :
    i.toNat < a.pollfdv.size.toNat := by
  by_contra hge
  have hcount := h.count
  rw [pending, List.drop_eq_nil_of_le (by rw [length_entries]; omega), List.filter_nil,
    List.length_nil] at hcount
  omega

theorem Scan.slot_eq (h : Scan cfg a₀ noEvents i n a) (hn : n < noEvents) :
    a.pollfdv.entries[i.toNat]? =
      some (a.pollfdv.readData i, a.pollfdv.readPd i) :=
  getElem?_entries (h.index_lt hn)

theorem toNat_succ_of_lt {m : Nat} (hi : i.toNat < m) (hm : m < 2 ^ 32) :
    (i + 1).toNat = i.toNat + 1 := by
  rw [UInt32.toNat_add, UInt32.toNat_one]
  omega

/-- An entry without a report is passed over. -/
theorem Scan.skip (h : Scan cfg a₀ noEvents i n a) (hi : i < a₀.pollfdv.size)
    (hn : n < noEvents) (hzero : (a.pollfdv.readData i).revents = 0) :
    Scan cfg a₀ noEvents (i + 1) n a := by
  have hget := h.slot_eq hn
  rw [UInt32.lt_iff_toNat_lt] at hi
  have hsucc := toNat_succ_of_lt hi (UInt32.toNat_lt _)
  have hpending := pending_of_zero hget hzero
  have htake : a.pollfdv.entries.take (i.toNat + 1) =
      a.pollfdv.entries.take i.toNat ++ [(a.pollfdv.readData i, a.pollfdv.readPd i)] := by
    rw [List.take_add_one, hget]
    rfl
  refine ⟨h.sound, by omega, ?_, ?_, h.beyond, fun hmoves e he => ?_, fun hmoves => ?_,
    h.moves_le⟩
  · rw [hsucc, ← hpending]
    exact h.served
  · rw [hsucc, ← hpending]
    exact h.count
  · rw [hsucc, htake, List.mem_append, List.mem_singleton] at he
    rcases he with he | rfl
    · exact h.cleared hmoves e he
    · exact hzero
  · obtain ⟨e, he, hne⟩ := h.stale hmoves
    rw [hsucc, htake]
    exact ⟨e, List.mem_append_left _ he, hne⟩

/-- The branch taken is that of the entry, also when the timer has expired
earlier in the batch. -/
theorem Scan.branch_eq (h : Scan cfg a₀ noEvents i n a) (hbatch : Batch cfg a₀ noEvents)
    (hn : n < noEvents) (hne : (a.pollfdv.readData i).revents ≠ 0) :
    ((a.pollfdv.readData i).fd = cfg.listeningSocket →
      (a.pollfdv.readData i).revents = pollin ∧
        branchOf cfg a₀.timerFd (a.pollfdv.readData i, a.pollfdv.readPd i) = .newClient) ∧
    ((a.pollfdv.readData i).fd ≠ cfg.listeningSocket →
      (a.pollfdv.readData i).fd = a.timerFd →
        (a.pollfdv.readData i).revents = pollin ∧
        (a.pollfdv.readData i).fd = a₀.timerFd ∧
        branchOf cfg a₀.timerFd (a.pollfdv.readData i, a.pollfdv.readPd i) = .timer) ∧
    ((a.pollfdv.readData i).fd ≠ cfg.listeningSocket →
      (a.pollfdv.readData i).fd ≠ a.timerFd →
        branchOf cfg a₀.timerFd (a.pollfdv.readData i, a.pollfdv.readPd i) = .client) := by
  obtain ⟨log, -, hperm, -, htimer⟩ := h.served
  have hpending := pending_of_ready (h.slot_eq hn) hne
  have hmem : (a.pollfdv.readData i, a.pollfdv.readPd i) ∈ pending a₀.pollfdv.entries 0 := by
    apply hperm.subset
    rw [hpending]
    exact List.mem_append_right _ List.mem_cons_self
  obtain ⟨hfree, -, honly⟩ := hbatch.pending_spec hmem
  unfold branchOf
  refine ⟨fun hls => ⟨honly (.inl hls), if_pos hls⟩, fun hls hfd => ?_, fun hls hfd => ?_⟩
  · have htimer₀ : a.timerFd = a₀.timerFd := by
      rcases htimer with heq | ⟨hnone, -⟩
      · exact heq
      · exact absurd (hfd.trans hnone) hfree
    have hfd₀ := hfd.trans htimer₀
    exact ⟨honly (.inr hfd₀), hfd₀, by rw [if_neg hls, if_pos hfd₀]⟩
  · have hfd₀ : (a.pollfdv.readData i).fd ≠ a₀.timerFd := by
      rcases htimer with heq | ⟨-, d, hd, hexpired⟩
      · rw [← heq]
        exact hfd
      · -- the expired timer was in the batch once only
        have hnodup := (hperm.map fun e => e.1.fd).nodup_iff.mpr hbatch.pending_nodup
        rw [List.map_append, List.nodup_append] at hnodup
        rw [← hexpired]
        intro heq
        refine hnodup.2.2 _ (List.mem_map_of_mem (List.mem_map_of_mem hd)) _ ?_ heq.symm
        rw [hpending]
        exact List.mem_map_of_mem List.mem_cons_self
    rw [if_neg hls, if_neg hfd₀]

/-- What servicing the entry in the slot `i` has to leave for the loop to go on
at the index `j`. -/
structure Serves (a₀ a : PollApp) (i j : UInt32) (a' : PollApp) : Prop where
  sound : Sound a'.pollfdv
  index_le : j.toNat ≤ a₀.pollfdv.size.toNat
  pending : (pending a'.pollfdv.entries j.toNat).Perm
    (pending a.pollfdv.entries (i.toNat + 1))
  beyond : ∀ e ∈ a'.pollfdv.entries.drop a₀.pollfdv.size.toNat, e.1.revents = 0
  cleared : a'.pollfdv.moves = a₀.pollfdv.moves →
    ∀ e ∈ a'.pollfdv.entries.take j.toNat, e.1.revents = 0
  stale : a'.pollfdv.moves ≠ a₀.pollfdv.moves →
    ∃ e ∈ a'.pollfdv.entries.take j.toNat, e.1.revents ≠ 0
  moves_le : a₀.pollfdv.moves ≤ a'.pollfdv.moves

theorem Scan.serve {j : UInt32} {branch : Branch} {object : Option File}
    (h : Scan cfg a₀ noEvents i n a) (hn : n < noEvents)
    (hne : (a.pollfdv.readData i).revents ≠ 0) (hserves : Serves a₀ a i j a')
    (hlog : a'.dispatched = (recorded a branch i object).dispatched)
    (hbranch : branch =
      branchOf cfg a₀.timerFd (a.pollfdv.readData i, a.pollfdv.readPd i))
    (htimer : a'.timerFd = a.timerFd ∨
      (a'.timerFd = -1 ∧ (a.pollfdv.readData i).fd = a₀.timerFd)) :
    Scan cfg a₀ noEvents j (n + 1) a' := by
  obtain ⟨log, hdispatched, hperm, hbranches, htimer₀⟩ := h.served
  have hpending := pending_of_ready (h.slot_eq hn) hne
  refine ⟨hserves.sound, hserves.index_le, ⟨log ++ [⟨branch, (a.pollfdv.readData i,
    a.pollfdv.readPd i), object⟩], ?_, ?_, fun d hd => ?_, ?_⟩, ?_, hserves.beyond,
    hserves.cleared, hserves.stale, hserves.moves_le⟩
  · rw [hlog, recorded, hdispatched, List.append_assoc]
  · refine List.Perm.trans ?_ hperm
    rw [List.map_append, List.map_singleton, List.append_assoc, hpending]
    exact (hserves.pending.cons _).append_left _
  · rw [List.mem_append, List.mem_singleton] at hd
    rcases hd with hd | rfl
    · exact hbranches d hd
    · exact hbranch
  · rcases htimer with heq | ⟨hnone, hfd⟩
    · rw [heq]
      refine htimer₀.imp_right fun hexpired => ⟨hexpired.1, ?_⟩
      obtain ⟨d, hd, hfd⟩ := hexpired.2
      exact ⟨d, List.mem_append_left _ hd, hfd⟩
    · exact .inr ⟨hnone, _, List.mem_append_right _ (List.mem_singleton_self _), hfd⟩
  · have hcount := h.count
    rw [hpending, List.length_cons, ← hserves.pending.length_eq] at hcount
    omega

/-- The serviced entry is removed: its slot is looked at again. -/
theorem Scan.serves_removed (h : Scan cfg a₀ noEvents i n a) (hn : n < noEvents)
    (hi : i < a₀.pollfdv.size) (hfree : (a.pollfdv.readData i).fd ≠ -1)
    (hvector : a'.pollfdv = pollfdvRemoveIndex a.pollfdv i) : Serves a₀ a i (i - 1 + 1) a' := by
  have hlt := h.index_lt hn
  have hback : i - 1 + 1 = i := UInt32.sub_add_cancel i 1
  obtain ⟨hsound, -, hentries⟩ := pollfdvRemoveIndex_spec h.sound hlt hfree
  have hmoves : (pollfdvRemoveIndex a.pollfdv i).moves = a.pollfdv.moves := by
    rw [pollfdvRemoveIndex_eq h.sound hlt hfree]
    rfl
  have hlen : i.toNat < a.pollfdv.entries.length := by
    rw [length_entries]
    exact hlt
  have htake := take_swapRemove hlen
  rw [← hvector] at hsound hentries hmoves
  rw [hback]
  refine ⟨hsound, h.index_le, ?_, fun e he => ?_, fun heq => ?_, fun hneq => ?_,
    hmoves ▸ h.moves_le⟩
  · rw [hentries]
    exact pending_swapRemove hlen
  · rw [hentries] at he
    exact h.beyond e (mem_drop_of_swapRemove (UInt32.lt_iff_toNat_lt.mp hi) he)
  · rw [hentries, htake]
    exact h.cleared (hmoves ▸ heq)
  · rw [hentries, htake]
    exact h.stale (hmoves ▸ hneq)

theorem take_succ_eq {es extra : List Entry} {k : Nat} {e : Entry} (hget : es[k]? = some e) :
    (es ++ extra).take (k + 1) = es.take k ++ [e] := by
  obtain ⟨hk, -⟩ := List.getElem?_eq_some_iff.mp hget
  rw [List.take_append_of_le_length hk, List.take_add_one, hget]
  rfl

/-- The serviced entry stays: its report is cleared unless the block has moved,
and only entries without a report are added. -/
theorem Scan.serves_kept (h : Scan cfg a₀ noEvents i n a) (hn : n < noEvents)
    (hi : i < a₀.pollfdv.size) (hne : (a.pollfdv.readData i).revents ≠ 0) {b : PollApp}
    {extra : List Entry} (hsound : Sound b.pollfdv)
    (hentries : b.pollfdv.entries = a.pollfdv.entries ++ extra)
    (hextra : ∀ e ∈ extra, e.1.revents = 0)
    (hmoves : b.pollfdv.moves = a.pollfdv.moves ∨
      b.pollfdv.moves = a.pollfdv.moves + 1) :
    Serves a₀ a i (i + 1) (clearedSlot b a.pollfdv.moves i) := by
  have hget := h.slot_eq hn
  have hlt := h.index_lt hn
  have hle := h.moves_le
  rw [UInt32.lt_iff_toNat_lt] at hi
  have hsucc := toNat_succ_of_lt hi (UInt32.toNat_lt _)
  have hpending : pending b.pollfdv.entries (i.toNat + 1) =
      pending a.pollfdv.entries (i.toNat + 1) := by
    rw [hentries, pending, pending, List.drop_append, List.filter_append]
    have hnil : (extra.drop (i.toNat + 1 - a.pollfdv.entries.length)).filter
        (fun e => decide (e.1.revents ≠ 0)) = [] := by
      rw [List.filter_eq_nil_iff]
      intro e he
      simpa using hextra e (List.mem_of_mem_drop he)
    rw [hnil, List.append_nil]
  have hbeyond : ∀ e ∈ b.pollfdv.entries.drop a₀.pollfdv.size.toNat, e.1.revents = 0 := by
    intro e he
    rw [hentries, List.drop_append, List.mem_append] at he
    rcases he with he | he
    · exact h.beyond e he
    · exact hextra e (List.mem_of_mem_drop he)
  have htake : b.pollfdv.entries.take (i.toNat + 1) = a.pollfdv.entries.take i.toNat ++
      [(a.pollfdv.readData i, a.pollfdv.readPd i)] := by
    rw [hentries, take_succ_eq hget]
  have htakeSet : ∀ c : Entry, (b.pollfdv.entries.set i.toNat c).take (i.toNat + 1) =
      a.pollfdv.entries.take i.toNat ++ [c] := by
    intro c
    have hlen : (a.pollfdv.entries.take i.toNat).length = i.toNat := by
      rw [List.length_take, length_entries]
      omega
    rw [List.take_set, htake, List.set_append_right _ _ (Nat.le_of_eq hlen), hlen, Nat.sub_self,
      List.set_cons_zero]
  unfold clearedSlot
  by_cases hsame : b.pollfdv.moves = a.pollfdv.moves
  · have hlen := congrArg List.length hentries
    rw [length_entries, List.length_append, length_entries] at hlen
    have hi' : i.toNat < b.pollfdv.size.toNat := by omega
    obtain ⟨hsound', -, hmoves', hentries'⟩ := writeData_spec hsound hi'
      { b.pollfdv.readData i with revents := 0 }
    rw [if_pos hsame]
    refine ⟨hsound', by omega, ?_, fun e he => ?_, fun heq e he => ?_, fun hneq => ?_, ?_⟩
    · dsimp only
      rw [hentries', hsucc, pending_set, hpending]
    · dsimp only at he
      rw [hentries', List.drop_set_of_lt hi] at he
      exact hbeyond e he
    · dsimp only at heq he
      rw [hmoves', hsame] at heq
      rw [hentries', hsucc, htakeSet, List.mem_append, List.mem_singleton] at he
      rcases he with he | rfl
      · exact h.cleared heq e he
      · rfl
    · dsimp only at hneq ⊢
      rw [hmoves', hsame] at hneq
      obtain ⟨e, he, hready⟩ := h.stale hneq
      refine ⟨e, ?_, hready⟩
      rw [hentries', hsucc, htakeSet]
      exact List.mem_append_left _ he
    · dsimp only
      rw [hmoves', hsame]
      exact hle
  · rw [if_neg hsame]
    have hmoved := hmoves.resolve_left hsame
    refine ⟨hsound, by omega, ?_, hbeyond, fun heq => ?_, fun _ => ?_, ?_⟩
    · dsimp only
      rw [hsucc, hpending]
    · dsimp only at heq
      omega
    · dsimp only
      rw [hsucc, htake]
      exact ⟨_, List.mem_append_right _ (List.mem_singleton_self _), hne⟩
    · dsimp only
      omega

/-- Each case of the loop body leaves the loop where it goes on. -/
theorem Scan.step {removed : Bool} (h : Scan cfg a₀ noEvents i n a)
    (hbatch : Batch cfg a₀ noEvents) (hi : i < a₀.pollfdv.size) (hn : n < noEvents)
    (hne : (a.pollfdv.readData i).revents ≠ 0) (hserviced : Serviced cfg a i removed a') :
    Scan cfg a₀ noEvents ((if removed then i - 1 else i) + 1) (n + 1) a' := by
  obtain ⟨hnew, htimer, hclient⟩ := h.branch_eq hbatch hn hne
  have hfree : (a.pollfdv.readData i).fd ≠ -1 := by
    obtain ⟨log, -, hperm, -⟩ := h.served
    refine (hbatch.pending_spec (e := (a.pollfdv.readData i, a.pollfdv.readPd i)) ?_).1
    apply hperm.subset
    rw [pending_of_ready (h.slot_eq hn) hne]
    exact List.mem_append_right _ List.mem_cons_self
  have hpollin : pollin &&& pollin ≠ 0 := by decide
  cases hserviced with
  | newClient object b hfd happended =>
      obtain ⟨conf, privateData, g, v, hrevents, hadd, rfl⟩ := happended
      obtain ⟨hsound, -, hentries⟩ := pollfdvAdd_spec h.sound hadd
      have hserves := h.serves_kept hn hi hne
        (b := { recorded a .newClient i object with pollfdv := v }) hsound hentries
        (by simpa using hrevents) (moves_pollfdvAdd h.sound hadd)
      have hlog : (clearedSlot { recorded a .newClient i object with pollfdv := v }
          a.pollfdv.moves i).dispatched = (recorded a .newClient i object).dispatched :=
        clearedSlot_dispatched _ _ _
      exact h.serve hn hne hserves hlog (hnew hfd).2.symm (.inl (clearedSlot_timerFd _ _ _))
  | timer object hls hfd =>
      have hnls : (a.pollfdv.readData i).fd ≠ cfg.listeningSocket := fun heq =>
        hpollin ((hnew heq).1 ▸ hls heq)
      obtain ⟨-, hfd₀, hbranch⟩ := htimer hnls hfd
      exact h.serve hn hne (h.serves_removed hn hi hfree rfl) rfl hbranch.symm
        (.inr ⟨rfl, hfd₀⟩)
  | removed object hother =>
      have hnls : (a.pollfdv.readData i).fd ≠ cfg.listeningSocket := fun heq =>
        hpollin ((hnew heq).1 ▸ hother (.inl heq))
      have hntimer : (a.pollfdv.readData i).fd ≠ a.timerFd := fun heq =>
        hpollin ((htimer hnls heq).1 ▸ hother (.inr heq))
      exact h.serve hn hne (h.serves_removed hn hi hfree rfl) rfl (hclient hnls hntimer).symm
        (.inl rfl)
  | kept object hother =>
      have hnls : (a.pollfdv.readData i).fd ≠ cfg.listeningSocket := fun heq =>
        hpollin ((hnew heq).1 ▸ hother (.inl heq))
      have hntimer : (a.pollfdv.readData i).fd ≠ a.timerFd := fun heq =>
        hpollin ((htimer hnls heq).1 ▸ hother (.inr heq))
      have hserves := h.serves_kept hn hi hne (b := recorded a .client i object)
        h.sound (List.append_nil _).symm (by simp) (.inl rfl)
      exact h.serve hn hne hserves (clearedSlot_dispatched _ _ _) (hclient hnls hntimer).symm
        (.inl (clearedSlot_timerFd _ _ _))

end Scan

section Safety

variable {cfg : ServerConfig}

/-- The exits of the handlers are not among those that lose an event. -/
abbrev Safe {β : Type} (x : Program PollWorld β) : Prop :=
  Stops (fun _ => True) x fun e => e ∉ lost

theorem safe_of_keeps {β : Type} {x : Program PollWorld β} (hx : KeepsApp lost x) : Safe x :=
  hx.stops

theorem safe_modify (f : PollWorld → PollWorld) : Safe (modify f) :=
  Stops.of_returns (Returns.modify f)

theorem safe_getVector : Safe getVector :=
  Stops.of_returns (Returns.get_bind fun _ => Returns.pure _)

theorem safe_get_bind {β : Type} {f : PollWorld → Program PollWorld β} (hf : ∀ w, Safe (f w)) :
    Safe (get >>= f) :=
  Stops.get_bind fun w _ => (hf w).pre fun _ _ => trivial

theorem safe_pure {β : Type} (b : β) : Safe (pure b : Program PollWorld β) :=
  Stops.of_returns (Returns.pure b)

theorem safe_closeClient (i : UInt32) : Safe (closeClient i) := by
  refine safe_getVector.seq fun _ => (safe_of_keeps (keepsApp_hostClose _)).seq fun _ => ?_
  refine (safe_of_keeps (keepsApp_assertZero (by decide) _)).seq fun _ => ?_
  refine safe_getVector.seq fun _ => (safe_of_keeps (keepsApp_freePd _)).seq fun _ => ?_
  exact safe_getVector.seq fun _ => safe_modify _

theorem safe_handleClientData (i : UInt32) : Safe (handleClientData cfg i) := by
  refine (safe_of_keeps (keepsApp_hostStart _)).seq fun _ => safe_getVector.seq fun _ => ?_
  refine (safe_of_keeps (keepsApp_readBuf _)).seq fun _ => safe_getVector.seq fun _ => ?_
  refine (safe_of_keeps (keepsApp_readNEcho (by decide) _ _ _)).seq fun _ => ?_
  refine (safe_of_keeps (keepsApp_whenNonNull fun _ => keepsApp_modifyCon _ _)).seq fun _ => ?_
  refine (safe_of_keeps (keepsApp_whenTrue (keepsApp_hostNow.bind fun _ =>
    keepsApp_hostNow.bind fun _ => keepsApp_modifyHostBench _))).seq fun _ => ?_
  exact Stops.ite (fun _ => (safe_closeClient i).seq fun _ => safe_pure _) fun _ => safe_pure _

theorem safe_handleClientEvent (i : UInt32) : Safe (handleClientEvent cfg i) := by
  refine safe_getVector.seq fun _ => Stops.ite (fun _ => ?_) fun _ => ?_
  · exact (safe_closeClient i).seq fun _ => safe_pure _
  · exact Stops.ite (fun _ => safe_handleClientData i) fun _ => safe_pure _

theorem safe_pollAddFd (fd : Fd) (pollEvents : UInt16) (privateData : Option Ptr) :
    Safe (pollAddFd fd pollEvents privateData) := by
  refine (safe_of_keeps keepsApp_hostYield).seq fun t => safe_get_bind fun w =>
    safe_getVector.seq fun v => ?_
  split
  · exact safe_modify _
  · rename_i hrun
    have hdisjoint : ∀ e ∈ pollfdvAddStops, e ∉ lost := by decide
    exact Stops.throw (hdisjoint _ (pollfdvAdd_error hrun))

theorem safe_pollHandleNewClient (ls : Fd) : Safe (pollHandleNewClient cfg ls) := by
  refine (safe_of_keeps (keepsApp_acceptClient (by decide) ls)).seq fun _ => ?_
  refine (safe_of_keeps (keepsApp_allocCon _)).seq fun _ => ?_
  refine (safe_of_keeps (keepsApp_assertNnull (by decide) _)).seq fun _ => ?_
  refine (safe_of_keeps (keepsApp_modifyCon _ _)).seq fun _ => ?_
  refine (safe_pollAddFd _ _ _).seq fun _ => ?_
  exact safe_of_keeps (keepsApp_whenTrue (keepsApp_modifyHostBench _))

theorem safe_clearRevents (moves : Nat) (i : UInt32) : Safe (clearRevents moves i) :=
  safe_getVector.seq fun _ => Stops.ite (fun _ => safe_modify _) fun _ => safe_modify _

theorem safe_serviceEvent (i : UInt32) : Safe (serviceEvent cfg i) := by
  refine safe_get_bind fun w => Stops.ite (fun _ => ?_) fun _ =>
    Stops.ite (fun _ => ?_) fun _ => ?_
  · refine (safe_modify _).seq fun _ => (safe_pollHandleNewClient _).seq fun _ => ?_
    exact (safe_clearRevents _ i).seq fun _ => safe_pure _
  · refine (safe_modify _).seq fun _ => ?_
    refine (safe_of_keeps (keepsApp_timerExpired (by decide) _)).seq fun _ => ?_
    exact safe_getVector.seq fun _ => (safe_modify _).seq fun _ =>
      (safe_modify _).seq fun _ => safe_pure _
  · refine (safe_modify _).seq fun _ => (safe_handleClientEvent i).seq fun removed => ?_
    exact Stops.ite (fun _ => safe_pure _) fun _ =>
      (safe_clearRevents _ i).seq fun _ => safe_pure _

end Safety

section ServiceEvents

variable {cfg : ServerConfig} {a₀ : PollApp} {noEvents : Int}

/-- As long as it has turns for the slots and the events left, the loop services
the rest of the batch. -/
theorem meets_serviceEventsLoop (hbatch : Batch cfg a₀ noEvents) (fuel : Nat) (i : UInt32)
    (n : Int)
    (hfuel : (a₀.pollfdv.size.toNat - i.toNat) + (noEvents - n).toNat ≤ fuel) :
    Meets (fun w => Scan cfg a₀ noEvents i n w.app)
      (serviceEventsLoop cfg a₀.pollfdv.size noEvents fuel i n)
      (fun m w => ∃ j, Scan cfg a₀ noEvents j m w.app ∧
        (a₀.pollfdv.size ≤ j ∨ noEvents ≤ m))
      fun e => e ∉ lost := by
  induction fuel generalizing i n with
  | zero =>
      refine Meets.ite (fun hmore => ?_) fun hdone => Meets.pure n fun w h => ⟨i, h, ?_⟩
      · rw [UInt32.lt_iff_toNat_lt] at hmore
        omega
      · rw [UInt32.lt_iff_toNat_lt] at hdone
        rw [UInt32.le_iff_toNat_le]
        omega
  | succ fuel ih =>
      refine Meets.ite (fun hmore => ?_) fun hdone => Meets.pure n fun w h => ⟨i, h, ?_⟩
      · obtain ⟨hi, hn⟩ := hmore
        have hi' := UInt32.lt_iff_toNat_lt.mp hi
        have hsucc := toNat_succ_of_lt hi' (UInt32.toNat_lt _)
        refine Meets.bind ⟨safe_getVector.pre fun _ _ => trivial, triple_getVector⟩ fun v => ?_
        refine Meets.of_pre ?_
        rintro w ⟨h, rfl⟩
        refine Meets.ite (fun hzero => ?_) fun hne => ?_
        · refine (ih (i + 1) n (by omega)).pre ?_
          rintro w' rfl
          exact h.skip hi hn hzero
        · refine Meets.bind (Q := fun removed w' => Serviced cfg w.app i removed w'.app)
            ⟨(safe_serviceEvent i).pre fun _ _ => trivial, ?_⟩ fun removed => ?_
          · refine triple_serviceEvent.pre ?_
            rintro w' rfl
            rfl
          · refine (ih _ (n + 1) ?_).pre fun w' hserviced => h.step hbatch hi hn hne hserviced
            cases removed with
            | false =>
                change _ - (i + 1).toNat + _ ≤ fuel
                omega
            | true =>
                have hback : i - 1 + 1 = i := UInt32.sub_add_cancel i 1
                change _ - (i - 1 + 1).toNat + _ ≤ fuel
                rw [hback]
                omega
      · rw [UInt32.lt_iff_toNat_lt] at hdone
        rw [UInt32.le_iff_toNat_le]
        omega

/-- When the loop ends, no event is left. -/
theorem Scan.done {a : PollApp} {j : UInt32} {m : Int} (h : Scan cfg a₀ noEvents j m a)
    (hend : a₀.pollfdv.size ≤ j ∨ noEvents ≤ m) :
    m = noEvents ∧ pending a.pollfdv.entries j.toNat = [] := by
  have hcount := h.count
  have hnil : pending a.pollfdv.entries j.toNat = [] := by
    rcases hend with hsize | hall
    · have hj : j.toNat = a₀.pollfdv.size.toNat := by
        have hle := h.index_le
        rw [UInt32.le_iff_toNat_le] at hsize
        omega
      rw [pending, hj, List.filter_eq_nil_iff]
      intro e he
      simpa using h.beyond e he
    · apply List.eq_nil_of_length_eq_zero
      omega
  rw [hnil, List.length_nil] at hcount
  exact ⟨by omega, hnil⟩

theorem meets_serviceEvents (hbatch : Batch cfg a₀ noEvents) :
    Meets (fun w => w.app = a₀) (serviceEvents cfg noEvents)
      (fun _ w => ∃ j, Scan cfg a₀ noEvents j noEvents w.app ∧
        pending w.app.pollfdv.entries j.toNat = [])
      fun e => e ∉ lost := by
  refine Meets.bind ⟨safe_getVector.pre fun _ _ => trivial, triple_getVector⟩ fun v => ?_
  refine Meets.of_pre ?_
  rintro w ⟨rfl, rfl⟩
  have hloop := meets_serviceEventsLoop hbatch
    (w.app.pollfdv.size.toNat + noEvents.toNat) 0 0 (by rw [UInt32.toNat_zero]; omega)
  refine (hloop.pre ?_).bind fun m => Meets.of_pre ?_
  · rintro w' rfl
    exact scan_start hbatch
  rintro w' ⟨j, hscan, hend⟩
  obtain ⟨rfl, hnil⟩ := hscan.done hend
  refine Meets.ite (fun hne => absurd (Int.sub_self m) hne) fun _ => Meets.pure _ ?_
  rintro w'' rfl
  exact ⟨j, hscan, hnil⟩

/-- Every ready entry of a batch is serviced once, by the branch it belongs to,
and no other entry is. -/
theorem services_each_once {w : PollWorld} (hbatch : Batch cfg w.app noEvents) :
    (∀ e, serviceEvents cfg noEvents w = .error e →
      e ≠ .diverged ∧ e ≠ .exit "Did not service all requests") ∧
    ∀ t, serviceEvents cfg noEvents w = .ok (⟨⟩, t) →
      ∃ log, t.app.dispatched = w.app.dispatched ++ log ∧
        (log.map Dispatch.entry).Perm
          (w.app.pollfdv.entries.filter fun e => decide (e.1.revents ≠ 0)) ∧
        ∀ d ∈ log, d.branch = branchOf cfg w.app.timerFd d.entry := by
  have hmeets := meets_serviceEvents hbatch
  constructor
  · intro e hrun
    have hsafe := hmeets.stops w rfl e hrun
    simpa [lost] using hsafe
  · intro t hrun
    obtain ⟨j, hscan, hnil⟩ := hmeets.post w rfl ⟨⟩ t hrun
    obtain ⟨log, hlog, hperm, hbranch, -⟩ := hscan.served
    rw [hnil, List.append_nil] at hperm
    exact ⟨log, hlog, hperm, hbranch⟩

/-- After a batch no report is left exactly when no `realloc` has moved the
block of the vector during it. -/
theorem reports_cleared_iff {w t : PollWorld} (hbatch : Batch cfg w.app noEvents)
    (hrun : serviceEvents cfg noEvents w = .ok (⟨⟩, t)) :
    (∀ e ∈ t.app.pollfdv.entries, e.1.revents = 0) ↔
      t.app.pollfdv.moves = w.app.pollfdv.moves := by
  obtain ⟨j, hscan, hnil⟩ := (meets_serviceEvents hbatch).post w rfl ⟨⟩ t hrun
  constructor
  · intro hzero
    by_contra hmoved
    obtain ⟨e, he, hne⟩ := hscan.stale hmoved
    exact hne (hzero e (List.mem_of_mem_take he))
  · intro hmoves e he
    rw [← List.take_append_drop j.toNat t.app.pollfdv.entries, List.mem_append] at he
    rcases he with he | he
    · exact hscan.cleared hmoves e he
    · rw [pending, List.filter_eq_nil_iff] at hnil
      simpa using hnil e he

end ServiceEvents

section Witnesses

/-- A vector of the initial capacity with at most 16 entries. -/
def vectorOf (es : List Entry) : PollfdVector where
  data := es.map Prod.fst ++ List.replicate (16 - es.length) { fd := -1 }
  pd := es.map Prod.snd ++ List.replicate (16 - es.length) none
  size := UInt32.ofNat es.length
  capacity := dataInitialSize

/-- A client that hangs up, the timer, the listening socket, an idle client, a
free slot, and a client that has closed its end, all in one batch. -/
def mixedBatch : PollWorld where
  kernel :=
    { files := fun fd =>
        if fd = 3 then some .listening
        else if fd = 4 then some .timer
        else if 5 ≤ fd ∧ fd < 8 then some (.socket (fd.toNat - 5))
        else none
      conns := fun c => { eos := decide (c = 2), hup := decide (c = 0) }
      connected := 4
      backlog := [3] }
  cons := fun p => if 5 ≤ p ∧ p < 8 then some {} else none
  sched := (List.range 12).map fun i =>
    { fd := 4, ptr := 9 + i, answer := { data := .block true fun _ => {} } }
  app :=
    { timerFd := 4
      pollfdv := vectorOf
        [({ fd := 5, events := 1, revents := 0x10 }, some 5),
          ({ fd := 4, events := 1, revents := 1 }, none),
          ({ fd := 3, events := 1, revents := 1 }, none),
          ({ fd := 6, events := 1 }, some 6), ({ fd := -1 }, some 8),
          ({ fd := 7, events := 1, revents := 1 }, some 7)] }

theorem batch_mixedBatch : Batch smallServerConfig mixedBatch.app 4 :=
  ⟨⟨by decide, by decide, by decide, rfl⟩, by decide, by decide, by decide, by decide⟩

/-- The state after the batch, or the given one if the server has exited. -/
def servedWorld (noEvents : Int) (w : PollWorld) : PollWorld :=
  match serviceEvents smallServerConfig noEvents w with
  | .ok (_, t) => t
  | .error _ => w

theorem run_servedWorld {noEvents : Int} {w : PollWorld}
    (h : (serviceEvents smallServerConfig noEvents w).isOk = true) :
    serviceEvents smallServerConfig noEvents w = .ok (⟨⟩, servedWorld noEvents w) := by
  cases hrun : serviceEvents smallServerConfig noEvents w with
  | error e => simp [hrun, Except.isOk, Except.toBool] at h
  | ok p => simp [servedWorld, hrun]

theorem services_each_once_mixedBatch :
    (servedWorld 4 mixedBatch).app.dispatched.map (fun d => (d.branch, d.entry.1.fd)) =
        [(.client, 5), (.client, 7), (.timer, 4), (.newClient, 3)] ∧
      (∀ e, serviceEvents smallServerConfig 4 mixedBatch = .error e →
        e ≠ .diverged ∧ e ≠ .exit "Did not service all requests") ∧
      ∀ t, serviceEvents smallServerConfig 4 mixedBatch = .ok (⟨⟩, t) →
        ∃ log, t.app.dispatched = mixedBatch.app.dispatched ++ log ∧
          (log.map Dispatch.entry).Perm
            (mixedBatch.app.pollfdv.entries.filter fun e => decide (e.1.revents ≠ 0)) ∧
          ∀ d ∈ log, d.branch = branchOf smallServerConfig mixedBatch.app.timerFd d.entry :=
  ⟨by decide +kernel, services_each_once batch_mixedBatch⟩

theorem reports_cleared_iff_mixedBatch :
    (∀ e ∈ (servedWorld 4 mixedBatch).app.pollfdv.entries, e.1.revents = 0) ↔
      (servedWorld 4 mixedBatch).app.pollfdv.moves = mixedBatch.app.pollfdv.moves :=
  reports_cleared_iff batch_mixedBatch (run_servedWorld (by decide +kernel))

/-- The listening socket is ready while 15 clients fill the vector, and
`realloc` moves the block. -/
def fullBatch : PollWorld where
  kernel :=
    { files := fun fd =>
        if fd = 3 then some .listening
        else if 4 ≤ fd ∧ fd < 19 then some (.socket (fd.toNat - 4))
        else none
      connected := 16
      backlog := [15] }
  sched := (List.range 3).map fun _ =>
    { fd := 19, ptr := 19, answer := { data := .block true fun _ => {} } }
  app :=
    { pollfdv := vectorOf (({ fd := 3, events := 1, revents := 1 }, none) ::
        (List.range 15).map fun i =>
          ({ fd := Int.ofNat (i + 4), events := 1 }, some (i + 4))) }

theorem batch_fullBatch : Batch smallServerConfig fullBatch.app 1 :=
  ⟨⟨by decide, by decide, by decide, rfl⟩, by decide, by decide, by decide, by decide⟩

/-- The report of the listening socket stays in the new block. -/
theorem not_reports_cleared :
    ¬ ∀ (cfg : ServerConfig) (noEvents : Int) (w t : PollWorld), Batch cfg w.app noEvents →
      serviceEvents cfg noEvents w = .ok (⟨⟩, t) →
        ∀ e ∈ t.app.pollfdv.entries, e.1.revents = 0 := by
  intro h
  have hzero := h smallServerConfig 1 fullBatch _ batch_fullBatch
    (run_servedWorld (by decide +kernel))
  exact absurd hzero (by decide +kernel)

end Witnesses

end EchoServers.PollServicing
