import EchoServers.PollRegistry

namespace EchoServers.PollRuns

open EchoServers.HostLedger
open EchoServers.PollRegistry
open EchoServers.PollServer
open EchoServers.PollServicing
open EchoServers.PollVector
open EchoServers.ServerBenchmark
open EchoServers.ServerUtils
open EchoServers.SocketKernel
open EchoServers.StateTriples
open EchoServers.Utils

section Reports

variable {cfg : ServerConfig} {k : Kernel} {v : PollfdVector} {l : PollLedger}

theorem sound_reportAll (h : Sound v) : Sound (reportAll k v) :=
  ⟨h.size_le, by simpa [reportAll] using h.data_length, h.pd_length, h.overruns_eq⟩

theorem entries_reportAll (h : Sound v) :
    (reportAll k v).entries =
      v.entries.map fun e => ({ e.1 with revents := reported k e.1 }, e.2) := by
  have hsize := h.size_le
  have hlength := h.data_length
  unfold PollfdVector.entries
  rw [List.map_map]
  apply List.map_congr_left
  intro i hi
  have hi : i < v.size.toNat := List.mem_range.mp hi
  have hdata : i < v.data.length := by omega
  simp [PollfdVector.slot, reportAll, List.getElem?_eq_getElem hdata, hi]

theorem registrations_reportAll (h : Sound v) :
    registrations (reportAll k v) = registrations v := by
  rw [registrations, registrations, entries_reportAll h, List.map_map]
  rfl

theorem and_pollin (events : UInt16) : events &&& pollin = 0 ∨ events &&& pollin = pollin := by
  have hmod : (events &&& pollin).toNat = events.toNat % 2 := by
    rw [UInt16.toNat_and]
    exact Nat.and_one_is_mod _
  rcases Nat.mod_two_eq_zero_or_one events.toNat with hzero | hone
  · exact .inl (UInt16.toNat_inj.mp (hmod.trans hzero))
  · exact .inr (UInt16.toNat_inj.mp (hmod.trans hone))

theorem reported_of_plain {p : Pollfd} {f : File} (hfd : 0 ≤ p.fd) (hfile : k.files p.fd = some f)
    (herr : (k.readiness f).err = false) (hhup : (k.readiness f).hup = false) :
    reported k p = 0 ∨ reported k p = pollin := by
  unfold reported
  rw [if_neg (Int.not_lt.mpr hfd), hfile]
  dsimp only
  rw [herr, hhup]
  cases (k.readiness f).readable with
  | false => exact .inl (by simp)
  | true => simpa using and_pollin p.events

/-- The listening socket and the timer report nothing but `POLLIN`. -/
theorem plausible_reported {e : Entry} (hbehind : k.files e.1.fd = e.1.object) :
    Plausible ({ e.1 with revents := reported k e.1 }, e.2) := by
  by_cases hneg : e.1.fd < 0
  · exact .inl (if_pos hneg)
  · have hfd := Int.not_lt.mp hneg
    by_cases hplain : e.1.object = some .listening ∨ e.1.object = some .timer
    · have hreport : reported k e.1 = 0 ∨ reported k e.1 = pollin := by
        rcases hplain with hf | hf
        · exact reported_of_plain hfd (hbehind.trans hf) rfl rfl
        · exact reported_of_plain hfd (hbehind.trans hf) rfl rfl
      exact hreport.imp_right fun hrevents => ⟨hfd, fun _ => hrevents⟩
    · exact .inr ⟨hfd, fun hf => absurd hf hplain⟩

theorem orderly_reported (h : Orderly cfg l) (hfiles : k.files = l.files) :
    Orderly cfg (withVector l (reportAll k l.app.pollfdv)) := by
  refine h.withVector (sound_reportAll h.sound) (registrations_reportAll h.sound) ?_
  intro e he
  rw [entries_reportAll h.sound] at he
  obtain ⟨e', he', rfl⟩ := List.mem_map.mp he
  apply plausible_reported
  rw [hfiles]
  exact h.registered.behind _ (List.mem_map_of_mem he')

/-- The vector as `ppoll` leaves it, or as it was when the call is interrupted. -/
theorem booked_ppoll :
    Triple (Booked pollShape l) ppoll fun noEvents w =>
      (noEvents = -1 ∧ Booked pollShape l w) ∨
        ∃ k : Kernel, k.files = l.files ∧
          noEvents = Int.ofNat (ready (reportAll k l.app.pollfdv).entries) ∧
          Booked pollShape (withVector l (reportAll k l.app.pollfdv)) w := by
  refine (triple_of_keepsLedger keepsLedger_hostYield).bind fun t =>
    Triple.ite (fun _ => triple_exitFailure _) fun _ => Triple.get_bind fun w hw => ?_
  have happ : w.app = l.app := congrArg Ledger.app hw
  have hfiles : w.kernel.files = l.files := congrArg Ledger.files hw
  rw [happ]
  apply Triple.ite
  · intro _
    apply Triple.pure
    rintro w' rfl
    exact .inl ⟨rfl, hw⟩
  · intro _
    have hset : Triple (fun w' => w' = w) (setVector (reportAll w.kernel l.app.pollfdv)) fun _ =>
        Booked pollShape (withVector l (reportAll w.kernel l.app.pollfdv)) :=
      (booked_setVector _).pre fun w' heq => heq ▸ hw
    refine hset.bind fun _ => Triple.bind (Triple.modify fun w' hw' => ?_) fun _ =>
      Triple.pure _ fun w' hw' => .inr ⟨w.kernel, hfiles, rfl, hw'⟩
    exact hw'

end Reports

section Turns

variable {cfg : ServerConfig} {l : PollLedger} {a₀ : PollApp} {noEvents : Int}

/-- A vector in order is what the loop of `service_events` asks for. -/
theorem batch_of_orderly (h : Orderly cfg l) :
    Batch cfg l.app (ready l.app.pollfdv.entries) := by
  have hbehind : ∀ e ∈ l.app.pollfdv.entries, l.files e.1.fd = e.1.object := fun e he =>
    h.registered.behind _ (List.mem_map_of_mem he)
  refine ⟨h.sound, ?_, fun e he hfd => ?_, fun e he hfd => ?_, rfl⟩
  · have hdistinct := h.registered.distinct
    rwa [registrations, List.map_map, List.filter_map] at hdistinct
  · refine (h.reports e he).resolve_right fun hreport => ?_
    exact ne_of_fd_nonneg hreport.1 hfd
  · refine (h.reports e he).imp_right fun hreport => hreport.2 ?_
    rw [← hbehind e he]
    rcases hfd with hls | htimer
    · rw [hls]
      exact .inl h.registered.listening
    · rcases h.registered.timer with hnone | hfile
      · exact absurd (htimer.trans hnone) (ne_of_fd_nonneg hreport.1)
      · rw [htimer]
        exact .inr hfile

/-- The first turns of the loop of `service_events`: the index and the number of
events serviced when they are over. -/
def serviceEventsTurns (cfg : ServerConfig) (size : UInt32) (noEvents : Int) :
    Nat → UInt32 → Int → Program PollWorld (UInt32 × Int)
  | 0, i, noServiced => return (i, noServiced)
  | k + 1, i, noServiced => do
      if i < size ∧ noServiced < noEvents then
        if ((← getVector).readData i).revents = 0 then
          serviceEventsTurns cfg size noEvents k (i + 1) noServiced
        else
          let removed ← serviceEvent cfg i
          let i := if removed then i - 1 else i
          serviceEventsTurns cfg size noEvents k (i + 1) (noServiced + 1)
      else
        return (i, noServiced)

/-- They are the first turns of it. -/
theorem serviceEventsLoop_eq (cfg : ServerConfig) (size : UInt32) (noEvents : Int)
    (k fuel : Nat) (i : UInt32) (n : Int) :
    serviceEventsLoop cfg size noEvents (k + fuel) i n =
      serviceEventsTurns cfg size noEvents k i n >>= fun reached =>
        serviceEventsLoop cfg size noEvents fuel reached.1 reached.2 := by
  induction k generalizing i n with
  | zero => simp [serviceEventsTurns]
  | succ k ih =>
      rw [Nat.add_right_comm, serviceEventsLoop, serviceEventsTurns]
      split_ifs with hmore
      · rw [bind_assoc]
        congr 1
        funext v
        split_ifs
        · exact ih _ _
        · rw [bind_assoc]
          congr 1
          funext removed
          exact ih _ _
      · rw [pure_bind]
        cases fuel with
        | zero => simp [serviceEventsLoop, hmore]
        | succ fuel => simp [serviceEventsLoop, hmore]

/-- The loop is about to look at the slot `i` of an orderly vector. -/
def Between (cfg : ServerConfig) (a₀ : PollApp) (noEvents : Int) (i : UInt32) (n : Int)
    (w : PollWorld) : Prop :=
  Scan cfg a₀ noEvents i n w.app ∧ Orderly cfg (ledger pollShape w)

theorem triple_serviceEventsTurns (hbatch : Batch cfg a₀ noEvents) (k : Nat) (i : UInt32)
    (n : Int) :
    Triple (Between cfg a₀ noEvents i n)
      (serviceEventsTurns cfg a₀.pollfdv.size noEvents k i n)
      fun reached => Between cfg a₀ noEvents reached.1 reached.2 := by
  induction k generalizing i n with
  | zero => exact Triple.pure _ fun w h => h
  | succ k ih =>
      apply Triple.ite
      · rintro ⟨hi, hn⟩
        refine triple_getVector.bind fun v => Triple.of_pre ?_
        rintro w ⟨⟨hscan, horderly⟩, rfl⟩
        apply Triple.ite
        · intro hzero
          refine (ih (i + 1) n).pre ?_
          rintro w' rfl
          exact ⟨hscan.skip hi hn hzero, horderly⟩
        · intro hne
          have hserviced : Triple (fun w' : PollWorld => w'.app = w.app) (serviceEvent cfg i)
              fun removed w' => Serviced cfg w.app i removed w'.app :=
            triple_serviceEvent
          have hkept := orderly_serviceEvent horderly (hscan.index_lt hn) hne
          refine ((hserviced.and hkept).pre ?_).bind fun removed => (ih _ (n + 1)).pre ?_
          · rintro w' rfl
            exact ⟨rfl, rfl⟩
          · rintro w' ⟨hstep, horderly'⟩
            exact ⟨hscan.step hbatch hi hn hne hstep, horderly'⟩
      · intro _
        exact Triple.pure _ fun w h => h

theorem triple_serviceEventsLoop (hbatch : Batch cfg a₀ noEvents) (fuel : Nat) (i : UInt32)
    (n : Int) :
    Triple (Between cfg a₀ noEvents i n)
      (serviceEventsLoop cfg a₀.pollfdv.size noEvents fuel i n)
      fun _ w => Orderly cfg (ledger pollShape w) := by
  have hsplit := serviceEventsLoop_eq cfg a₀.pollfdv.size noEvents fuel 0 i n
  rw [Nat.add_zero] at hsplit
  rw [hsplit]
  refine (triple_serviceEventsTurns hbatch fuel i n).bind fun reached => ?_
  exact Triple.ite (fun _ => Triple.throw _) fun _ => Triple.pure _ fun w h => h.2

theorem orderly_serviceEvents (h : Orderly cfg l) :
    Triple (Booked pollShape l) (serviceEvents cfg (ready l.app.pollfdv.entries)) fun _ w =>
      Orderly cfg (ledger pollShape w) := by
  refine booked_getVector.bind fun v => Triple.and_pre ?_
  rintro rfl
  refine ((triple_serviceEventsLoop (batch_of_orderly h) _ 0 0).pre ?_).bind fun _ =>
    triple_assertZero.post fun _ w hw => hw.1
  intro w hw
  have happ : w.app = l.app := congrArg Ledger.app hw
  have horderly : Orderly cfg (ledger pollShape w) := hw.symm ▸ h
  exact ⟨happ.symm ▸ scan_start (batch_of_orderly h), horderly⟩

end Turns

section Runs

variable {cfg : ServerConfig} {l : PollLedger} {s₀ : Samples}

/-- `ppoll` with the count of its events. -/
def awaitEvents (cfg : ServerConfig) : Program PollWorld Int := do
  let noEvents ← ppoll
  whenTrue (0 ≤ noEvents) do
    whenTrue cfg.doServerSideBenchmarking do
      modifyHostBench fun b => sbRequestsPerformed b (Int32.ofInt noEvents)
  return noEvents

theorem serviceLoopTurn_eq (cfg : ServerConfig) :
    serviceLoopTurn cfg = awaitEvents cfg >>= fun noEvents =>
      whenTrue (0 ≤ noEvents) (serviceEvents cfg noEvents) := by
  unfold serviceLoopTurn awaitEvents
  rw [bind_assoc]
  congr 1
  funext noEvents
  by_cases hnonneg : 0 ≤ noEvents
  · simp [whenTrue, hnonneg]
  · simp [whenTrue, hnonneg]

/-- What the loop of `service_events` starts from, if there is an event. -/
theorem triple_awaitEvents (h : Orderly cfg l) :
    Triple (Booked pollShape l) (awaitEvents cfg) fun noEvents w =>
      Orderly cfg (ledger pollShape w) ∧
        (0 ≤ noEvents → noEvents = ready w.app.pollfdv.entries) := by
  refine booked_ppoll.bind fun noEvents => Triple.or_pre (Triple.and_pre ?_) ?_
  · rintro rfl
    refine Triple.bind (Q := fun _ => Booked pollShape l) ?_ fun _ => Triple.pure _ ?_
    · exact triple_whenTrue (fun hnonneg => absurd hnonneg (by decide)) fun _ hw _ => hw
    · intro w hw
      exact ⟨hw.symm ▸ h, fun hnonneg => absurd hnonneg (by decide)⟩
  · refine Triple.exists_pre fun k => Triple.and_pre fun hfiles => Triple.and_pre ?_
    rintro rfl
    refine Triple.bind
      (Q := fun _ => Booked pollShape (withVector l (reportAll k l.app.pollfdv))) ?_ fun _ =>
        Triple.pure _ fun w hw => ?_
    · refine triple_whenTrue (fun _ => triple_whenTrue (fun _ => ?_) fun _ hw _ => hw)
        fun _ hw _ => hw
      exact triple_of_keepsLedger (keepsLedger_modifyHostBench _)
    · have happ : w.app = { l.app with pollfdv := reportAll k l.app.pollfdv } :=
        congrArg Ledger.app hw
      rw [happ]
      exact ⟨hw.symm ▸ orderly_reported h hfiles, fun _ => rfl⟩

theorem orderly_serviceLoopTurn :
    Triple (fun w => Orderly cfg (ledger pollShape w)) (serviceLoopTurn cfg) fun _ w =>
      Orderly cfg (ledger pollShape w) := by
  rw [serviceLoopTurn_eq]
  refine triple_of_ledger fun l h => (triple_awaitEvents h).bind fun noEvents =>
    Triple.of_pre fun w₁ hw₁ => ?_
  obtain ⟨horderly, hcount⟩ := hw₁
  apply triple_whenTrue
  · intro hnonneg
    rw [hcount hnonneg]
    refine (orderly_serviceEvents horderly).pre ?_
    rintro w rfl
    rfl
  · rintro w rfl _
    exact horderly

/-- The files are registered in the vector, and nothing has happened yet. -/
structure Fresh (cfg : ServerConfig) (l : PollLedger) (timerFd : Fd) : Prop where
  sound : Sound l.app.pollfdv
  registered : Registered cfg l.files l.cons timerFd (registrations l.app.pollfdv)
  reports : ∀ e ∈ l.app.pollfdv.entries, Plausible e
  nonneg : ∀ r ∈ registrations l.app.pollfdv, 0 ≤ r.fd
  dispatched : l.app.dispatched = []
  accepts : l.accepts = []
  faults : l.faults = []

theorem Fresh.orderly (h : Fresh cfg l l.app.timerFd) : Orderly cfg l := by
  refine ⟨h.sound, h.registered, h.reports, fun _ d hd => ?_, ?_, h.faults⟩
  · rw [h.dispatched] at hd
    cases hd
  · rw [h.accepts]
    constructor
    · intro hmem
      obtain ⟨r, hr, hfd⟩ := List.mem_map.mp hmem
      exact absurd hfd (ne_of_fd_nonneg (h.nonneg r hr))
    · intro hmem
      cases hmem

/-- The ledger in front of `service_loop`, when the samples of the bench are
`s₀`. -/
def initialLedger (cfg : ServerConfig) (s₀ : Samples) : PollLedger :=
  { ledger pollShape (initialWorld cfg []) with samples := s₀ }

/-- The ledger with an empty vector. -/
def vectorMade (cfg : ServerConfig) (s₀ : Samples) (v : PollfdVector) : PollLedger :=
  withVector (initialLedger cfg s₀) v

theorem listening_vectorMade (cfg : ServerConfig) (s₀ : Samples) (v : PollfdVector) :
    (vectorMade cfg s₀ v).files cfg.listeningSocket = some .listening := by
  simp [vectorMade, initialLedger, withVector, Ledger.withApp, ledger, initialWorld]

theorem entries_of_empty {v : PollfdVector} (hempty : v.size = 0) : v.entries = [] :=
  List.eq_nil_of_length_eq_zero (by rw [length_entries, hempty]; rfl)

/-- The listening socket is added to an empty vector. -/
theorem registrations_listening {v v' : PollfdVector} {g : Growth} {conf : Pollfd}
    (hsound : Sound v) (hempty : v.size = 0) (hadd : pollfdvAdd v conf none g = .ok v') :
    registrations v' = [⟨conf.fd, conf.object, none⟩] := by
  obtain ⟨-, -, hentries⟩ := pollfdvAdd_spec hsound hadd
  rw [registrations, hentries, entries_of_empty hempty]
  rfl

theorem plausible_listening {v v' : PollfdVector} {g : Growth} {conf : Pollfd}
    (hsound : Sound v) (hempty : v.size = 0) (hzero : conf.revents = 0)
    (hadd : pollfdvAdd v conf none g = .ok v') : ∀ e ∈ v'.entries, Plausible e := by
  obtain ⟨-, -, hentries⟩ := pollfdvAdd_spec hsound hadd
  refine plausible_add hentries (fun e he => ?_) hzero
  rw [entries_of_empty hempty] at he
  cases he

theorem fresh_listening {v v' : PollfdVector} {g : Growth} (hsound : Sound v)
    (hempty : v.size = 0)
    (hadd : pollfdvAdd v
      { fd := cfg.listeningSocket, events := pollin, revents := 0,
        object := (vectorMade cfg s₀ v).files cfg.listeningSocket } none g = .ok v') :
    Fresh cfg (withVector (vectorMade cfg s₀ v) v') (-1) := by
  have hrs := registrations_listening hsound hempty hadd
  have hfile := listening_vectorMade cfg s₀ v
  rw [hfile] at hrs
  refine ⟨(pollfdvAdd_spec hsound hadd).1, ?_, plausible_listening hsound hempty rfl hadd,
    fun r hr => ?_, rfl, rfl, rfl⟩
  · change Registered cfg _ _ _ (registrations v')
    rw [hrs]
    exact registered_listening cfg
  · change r ∈ registrations v' at hr
    rw [hrs] at hr
    rw [List.mem_singleton.mp hr]
    exact cfg.listeningSocket_nonneg

theorem fresh_timer {v v' v'' : PollfdVector} {g g' : Growth} {timerFd : Fd} (hsound : Sound v)
    (hempty : v.size = 0) (hnonneg : 0 ≤ timerFd)
    (hfree : (vectorMade cfg s₀ v).files timerFd = none)
    (hadd : pollfdvAdd v
      { fd := cfg.listeningSocket, events := pollin, revents := 0,
        object := ((vectorMade cfg s₀ v).opened timerFd .timer).files cfg.listeningSocket }
      none g = .ok v')
    (hadd' : pollfdvAdd v'
      { fd := timerFd, events := pollin, revents := 0,
        object := ((vectorMade cfg s₀ v).opened timerFd .timer).files timerFd }
      none g' = .ok v'') :
    Fresh cfg (withVector (((vectorMade cfg s₀ v).opened timerFd .timer).withApp
      { (vectorMade cfg s₀ v).app with timerFd := timerFd }) v'') timerFd := by
  have hrs := registrations_listening hsound hempty hadd
  have hls := listening_vectorMade cfg s₀ v
  have hne : cfg.listeningSocket ≠ timerFd := by
    rintro rfl
    rw [hls] at hfree
    cases hfree
  have hfile : ((vectorMade cfg s₀ v).opened timerFd .timer).files cfg.listeningSocket =
      some .listening := (Function.update_of_ne hne _ _).trans hls
  rw [hfile] at hrs
  have hsound' := (pollfdvAdd_spec hsound hadd).1
  obtain ⟨hsound'', -, hentries⟩ := pollfdvAdd_spec hsound' hadd'
  have hperm := registrations_append hentries
  have htimer : ((vectorMade cfg s₀ v).opened timerFd .timer).files timerFd = some .timer :=
    Function.update_self ..
  rw [registration, htimer, hrs] at hperm
  refine ⟨hsound'', ((registered_listening cfg).addTimer hnonneg hfree).perm hperm,
    plausible_add hentries (plausible_listening hsound hempty rfl hadd) rfl, fun r hr => ?_,
    rfl, rfl, rfl⟩
  rcases List.mem_cons.mp (hperm.mem_iff.mpr hr) with rfl | hr
  · exact hnonneg
  · rw [List.mem_singleton.mp hr]
    exact cfg.listeningSocket_nonneg

theorem orderly_of_initialLedger (dataNull pdNull : Bool) :
    Triple (Booked pollShape (initialLedger cfg s₀))
      (serviceLoopStart cfg dataNull pdNull) fun _ w => Orderly cfg (ledger pollShape w) := by
  unfold serviceLoopStart
  cases hcreate : pollfdvCreate dataNull pdNull with
  | error e => exact Triple.throw _
  | ok v =>
      obtain ⟨hsound, hempty, -, -⟩ := pollfdvCreate_spec hcreate
      have hset : Triple (Booked pollShape (initialLedger cfg s₀))
          (setVector v) fun _ => Booked pollShape (vectorMade cfg s₀ v) := by
        apply Triple.modify
        intro w hw
        exact congrArg (fun l => withVector l v) hw
      refine hset.bind fun _ => ?_
      by_cases hbench : cfg.doServerSideBenchmarking = true
      · simp only [whenTrue_of hbench]
        rw [bind_assoc]
        refine booked_createWarmupTimer.bind fun timerFd => Triple.and_pre fun hnonneg =>
          Triple.and_pre fun hfree => ?_
        refine (booked_modifyApp fun a : PollApp => { a with timerFd := timerFd }).bind fun _ => ?_
        refine (booked_pollAddFd _ _ _).bind fun _ => Triple.exists_pre fun g =>
          Triple.exists_pre fun v' => Triple.and_pre fun hadd => ?_
        refine Triple.get_bind fun w hw => ?_
        have htimer : w.app.timerFd = timerFd := congrArg (fun l' : PollLedger => l'.app.timerFd) hw
        rw [htimer]
        refine (booked_pollAddFd timerFd pollin none).conseq (fun w' heq => heq ▸ hw) ?_
        rintro _ w' ⟨g', v'', hadd', hbooked⟩
        have hfresh := fresh_timer hsound hempty hnonneg hfree hadd hadd'
        exact hbooked ▸ hfresh.orderly
      · simp only [whenTrue_of_not hbench]
        rw [pure_bind]
        refine (booked_pollAddFd _ _ _).bind fun _ => Triple.exists_pre fun g =>
          Triple.exists_pre fun v' => Triple.and_pre fun hadd => Triple.pure _ fun w hw => ?_
        have hfresh := fresh_listening hsound hempty hadd
        exact hw ▸ hfresh.orderly

theorem orderly_of_run {w₁ w : PollWorld} {dataNull pdNull : Bool} {n : Nat}
    (hinitial : Booked pollShape (initialLedger cfg s₀) w₁)
    (hrun : serviceLoop cfg dataNull pdNull n w₁ = .ok (⟨⟩, w)) :
    Orderly cfg (ledger pollShape w) :=
  ((orderly_of_initialLedger dataNull pdNull).bind fun _ =>
    Triple.turns (fun _ => orderly_serviceLoopTurn) n ⟨⟩) w₁ hinitial ⟨⟩ w hrun

theorem orderly_of_reachable {w : PollWorld} (h : Reachable cfg w) :
    Orderly cfg (ledger pollShape w) := by
  obtain ⟨dataNull, pdNull, sched, n, w₀, arrivals, hrun, rfl⟩ := h
  have hinitial : Booked pollShape (initialLedger cfg {}) (initialWorld cfg sched) := rfl
  have horderly := orderly_of_run hinitial hrun
  exact (stable_booked _).arrivals (P := Booked pollShape (ledger pollShape w₀)) rfl arrivals ▸
    horderly

/-- In some run, the loop of `service_events` is about to look at the slot `i`,
in a batch that the server got in the state `w₁`. -/
def ScanningFrom (cfg : ServerConfig) (w₁ w : PollWorld) (i : UInt32) : Prop :=
  ∃ (w₀ : PollWorld) (noEvents n : Int) (k : Nat),
    Reachable cfg w₀ ∧ awaitEvents cfg w₀ = .ok (noEvents, w₁) ∧ 0 ≤ noEvents ∧
      serviceEventsTurns cfg w₁.app.pollfdv.size noEvents k 0 0 w₁ = .ok ((i, n), w) ∧
      i < w₁.app.pollfdv.size ∧ n < noEvents

def Scanning (cfg : ServerConfig) (w : PollWorld) (i : UInt32) : Prop :=
  ∃ w₁, ScanningFrom cfg w₁ w i

variable {w₁ w : PollWorld} {i : UInt32}

theorem ScanningFrom.between (h : ScanningFrom cfg w₁ w i) :
    ∃ noEvents n, n < noEvents ∧ Between cfg w₁.app noEvents i n w := by
  obtain ⟨w₀, noEvents, n, k, hreachable, hawait, hnonneg, hturns, -, hn⟩ := h
  obtain ⟨horderly, hcount⟩ :=
    triple_awaitEvents (orderly_of_reachable hreachable) w₀ rfl noEvents w₁ hawait
  have hbatch : Batch cfg w₁.app noEvents := by
    rw [hcount hnonneg]
    exact batch_of_orderly horderly
  exact ⟨noEvents, n, hn, triple_serviceEventsTurns hbatch k 0 0 w₁
    ⟨scan_start hbatch, horderly⟩ (i, n) w hturns⟩

theorem ScanningFrom.orderly (h : ScanningFrom cfg w₁ w i) :
    Orderly cfg (ledger pollShape w) ∧ i.toNat < w.app.pollfdv.size.toNat := by
  obtain ⟨noEvents, n, hn, hscan, horderly⟩ := h.between
  exact ⟨horderly, hscan.index_lt hn⟩

/-- An entry with a report is one of the batch. -/
theorem ScanningFrom.mem_batch (h : ScanningFrom cfg w₁ w i)
    (hne : (w.app.pollfdv.readData i).revents ≠ 0) :
    w.app.pollfdv.slot i.toNat ∈ w₁.app.pollfdv.entries := by
  obtain ⟨noEvents, n, hn, hscan, -⟩ := h.between
  obtain ⟨log, -, hperm, -⟩ := hscan.served
  have hpending := pending_of_ready (hscan.slot_eq hn) hne
  have hmem : w.app.pollfdv.slot i.toNat ∈ pending w₁.app.pollfdv.entries 0 := by
    apply hperm.subset
    rw [hpending]
    exact List.mem_append_right _ List.mem_cons_self
  exact List.mem_of_mem_drop (List.mem_filter.mp hmem).1

end Runs

section Settled

/-- The batch that the server gets at the top of its loop. -/
def batchOf (cfg : ServerConfig) (w₀ : PollWorld) : Int × PollWorld :=
  settled (awaitEvents cfg) w₀ 0

/-- The loop of `service_events` on it after `k` turns. -/
def turnsOf (cfg : ServerConfig) (w₀ : PollWorld) (k : Nat) :
    Except Stop ((UInt32 × Int) × PollWorld) :=
  serviceEventsTurns cfg (batchOf cfg w₀).2.app.pollfdv.size (batchOf cfg w₀).1 k 0 0
    (batchOf cfg w₀).2

theorem scanningFrom_of_turns {cfg : ServerConfig} {w₀ w : PollWorld} {k : Nat} {i : UInt32}
    {n : Int} (hreachable : Reachable cfg w₀) (hawait : (awaitEvents cfg w₀).isOk = true)
    (hnonneg : 0 ≤ (batchOf cfg w₀).1) (hturns : turnsOf cfg w₀ k = .ok ((i, n), w))
    (hi : i < (batchOf cfg w₀).2.app.pollfdv.size) (hn : n < (batchOf cfg w₀).1) :
    ScanningFrom cfg (batchOf cfg w₀).2 w i :=
  ⟨w₀, (batchOf cfg w₀).1, n, k, hreachable, run_settled hawait, hnonneg, hturns, hi, hn⟩

theorem reachable_settled {cfg : ServerConfig} {sched : List (HostTick Growth)} {n : Nat}
    (h : (serviceLoop cfg false false n (initialWorld cfg sched)).isOk = true) :
    Reachable cfg (settled (serviceLoop cfg false false n) (initialWorld cfg sched) ⟨⟩).2 :=
  ⟨false, false, sched, n, _, [], run_settled h, rfl⟩

end Settled

end EchoServers.PollRuns
