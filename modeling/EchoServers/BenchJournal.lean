import EchoServers.BenchRuns
import EchoServers.HostLedger

/-!
What a server that waits for readiness tells its bench in the course of a run,
and what can be read off the bench later.
-/

namespace EchoServers.BenchJournal

open EchoServers.BenchRuns
open EchoServers.HostLedger
open EchoServers.MeasContainer
open EchoServers.ServerBenchmark
open EchoServers.ServerUtils
open EchoServers.SocketKernel
open EchoServers.StateTriples
open EchoServers.TimespecDelta
open EchoServers.TimeUtils
open EchoServers.Utils

/-- The bench of a server, and what the server has done that it counts. -/
structure Tally where
  bench : ServerBench
  echoes : List Echo := []
  accepts : List Fd := []
  batches : List Nat := []
  samples : Samples := {}

/-- What became of an event that was serviced. -/
inductive Served where
  | newClient
  | timer
  | message (fd : Fd)
  | ending (fd : Fd)
  | other
  deriving DecidableEq

/-- How a server counts: which results of `accept_client` are clients to it, and
how many events there are in a batch. -/
structure Manner where
  cfg : ServerConfig
  counts : Fd → Bool
  bound : Nat

section Tally

variable (m : Manner) (t : Tally)

/-- A batch of `n` events has come, and was not counted yet. -/
def Tally.fetched (n : Nat) : Tally :=
  { t with batches := t.batches ++ [n] }

def Tally.batch (n : Nat) : Tally :=
  { t.fetched n with bench :=
      if m.cfg.doServerSideBenchmarking then sbRequestsPerformed t.bench (Int32.ofNat n)
      else t.bench }

def Tally.accept (fd : Fd) : Tally :=
  { t with
    bench :=
      if m.cfg.doServerSideBenchmarking && m.counts fd then sbClientConnected t.bench
      else t.bench
    accepts := t.accepts ++ [fd] }

def Tally.timer (now : Timespec) : Tally :=
  { t with bench :=
      if m.cfg.doServerSideBenchmarking then sbStart t.bench now else t.bench }

/-- The servicing of a client has taken from `start` to `finish`. -/
def Tally.lasted (start finish now : Timespec) : Tally :=
  { t with bench :=
      if m.cfg.measuresLatency then sbRecordEvent t.bench start finish now else t.bench }

def Tally.echo (fd : Fd) (message : List Octet) : Tally :=
  { t with echoes := t.echoes ++ [⟨fd, message, t.bench.doMeasure⟩] }

end Tally

/-- The tally in front of the loop. -/
def Tally.start (b₀ : ServerBench) (s₀ : Samples) : Tally where
  bench := b₀
  samples := s₀

/-- The events serviced in order, the number of those that the server still has
to service, and the tally, which is `t₀` at first.  The timer expires once. -/
inductive Journal (m : Manner) (t₀ : Tally) : List Served → Nat → Tally → Prop where
  | start : Journal m t₀ [] 0 t₀
  | batch {ks : List Served} {t : Tally} (h : Journal m t₀ ks 0 t) (n : Nat)
      (hn : n < m.bound) : Journal m t₀ ks n (t.batch m n)
  | newClient {ks : List Served} {n : Nat} {t : Tally} (h : Journal m t₀ ks (n + 1) t) :
      Journal m t₀ (ks ++ [.newClient]) n t
  | accept {ks : List Served} {n : Nat} {t : Tally} (h : Journal m t₀ ks n t) (fd : Fd) :
      Journal m t₀ ks n (t.accept m fd)
  | timer {ks : List Served} {n : Nat} {t : Tally} (h : Journal m t₀ ks (n + 1) t)
      (hfirst : .timer ∉ ks) (now : Timespec) :
      Journal m t₀ (ks ++ [.timer]) n (t.timer m now)
  | message {ks : List Served} {n : Nat} {t : Tally} (h : Journal m t₀ ks (n + 1) t) (fd : Fd)
      (message : List Octet) (start finish now : Timespec) :
      Journal m t₀ (ks ++ [.message fd]) n ((t.echo fd message).lasted m start finish now)
  | ending {ks : List Served} {n : Nat} {t : Tally} (h : Journal m t₀ ks (n + 1) t) (fd : Fd)
      (start finish now : Timespec) :
      Journal m t₀ (ks ++ [.ending fd]) n (t.lasted m start finish now)
  | other {ks : List Served} {n : Nat} {t : Tally} (h : Journal m t₀ ks (n + 1) t) :
      Journal m t₀ (ks ++ [.other]) n t

/-- The descriptor of a client whose message was echoed. -/
def Served.answered : Served → Option Fd
  | .message fd => some fd
  | _ => none

/-- The end of a stream was read. -/
def Served.ended : Served → Bool
  | .ending _ => true
  | _ => false

/-- The servicing was timed. -/
def Served.timed : Served → Bool
  | .message _ | .ending _ => true
  | _ => false

/-- The events behind the one of the timer. -/
def warmedUp : List Served → List Served
  | [] => []
  | k :: ks => if k = .timer then ks else warmedUp ks

theorem warmedUp_of_notMem {ks : List Served} (h : .timer ∉ ks) : warmedUp ks = [] := by
  induction ks with
  | nil => rfl
  | cons k ks ih =>
      rw [List.mem_cons, not_or] at h
      rw [warmedUp, if_neg (Ne.symm h.1)]
      exact ih h.2

/-- What comes behind the timer stays behind it. -/
theorem warmedUp_append {ks : List Served} (h : .timer ∈ ks) (l : List Served) :
    warmedUp (ks ++ l) = warmedUp ks ++ l := by
  induction ks with
  | nil => cases h
  | cons k ks ih =>
      rw [List.cons_append, warmedUp, warmedUp]
      by_cases hk : k = .timer
      · rw [if_pos hk, if_pos hk]
      · rw [if_neg hk, if_neg hk]
        exact ih ((List.mem_cons.mp h).resolve_left (Ne.symm hk))

theorem warmedUp_timer {ks : List Served} (h : .timer ∉ ks) : warmedUp (ks ++ [.timer]) = [] := by
  induction ks with
  | nil => rfl
  | cons k ks ih =>
      rw [List.mem_cons, not_or] at h
      rw [List.cons_append, warmedUp, if_neg (Ne.symm h.1)]
      exact ih h.2

section Journal

variable {m : Manner} {b₀ : ServerBench} {s₀ : Samples} {t₀ : Tally} {ks : List Served} {n : Nat}
  {t : Tally}

/-- One message is echoed for each event that brought one. -/
theorem Journal.echoes (h : Journal m (.start b₀ s₀) ks n t) :
    t.echoes.map Echo.fd = ks.filterMap Served.answered := by
  induction h with
  | start => rfl
  | batch h n hn ih => exact ih
  | accept h fd ih => exact ih
  | newClient h ih | other h ih =>
      rw [List.filterMap_append, ← ih]
      exact (List.append_nil _).symm
  | timer h hfirst now ih | ending h fd start finish now ih =>
      rw [List.filterMap_append, ← ih]
      exact (List.append_nil _).symm
  | message h fd message start finish now ih =>
      rw [List.filterMap_append, ← ih]
      exact List.map_append

theorem clientNo_lasted (m : Manner) (t : Tally) (start finish now : Timespec) :
    (t.lasted m start finish now).bench.clientNo = t.bench.clientNo := by
  unfold Tally.lasted sbRecordEvent
  dsimp only
  split_ifs
  all_goals rfl

/-- The samples stay where they are. -/
theorem Journal.samples (h : Journal m t₀ ks n t) : t.samples = t₀.samples := by
  induction h with
  | start => rfl
  | batch h n hn ih => exact ih
  | accept h fd ih => exact ih
  | newClient h ih | other h ih => exact ih
  | timer h hfirst now ih => exact ih
  | message h fd message start finish now ih => exact ih
  | ending h fd start finish now ih => exact ih

/-- Every client is counted, whether or not the bench measures. -/
theorem Journal.clientNo (h : Journal m (.start b₀ s₀) ks n t)
    (hbench : m.cfg.doServerSideBenchmarking = true) :
    t.bench.clientNo = b₀.clientNo + Int32.ofNat (t.accepts.countP m.counts) := by
  induction h with
  | start => exact (Int32.add_zero _).symm
  | newClient h ih | other h ih => exact ih
  | batch h n hn ih =>
      refine Eq.trans ?_ ih
      unfold Tally.batch sbRequestsPerformed
      split_ifs
      all_goals rfl
  | timer h hfirst now ih =>
      refine Eq.trans ?_ ih
      unfold Tally.timer sbStart
      split_ifs
      all_goals rfl
  | message h fd message start finish now ih | ending h fd start finish now ih =>
      exact (clientNo_lasted ..).trans ih
  | @accept ks n t h fd ih =>
      change (if _ then _ else _ : ServerBench).clientNo =
        b₀.clientNo + Int32.ofNat ((t.accepts ++ [fd]).countP m.counts)
      rw [List.countP_append, hbench, Bool.true_and, List.countP_singleton]
      cases hcounts : m.counts fd with
      | false => exact ih
      | true =>
          rw [if_pos rfl, if_pos rfl, Int32.ofNat_add, ← Int32.add_assoc, ← ih]
          rfl

end Journal

section Books

variable {m : Manner} {c : Int32} {junk : Nat → UInt8} {capacity : Nat} {ks : List Served}
  {n : Nat} {t₀ t : Tally} {s₀ : Samples} {latencies : List UInt64} {requests : Int} {k : Served}

/-- The echo was completed while the bench measured. -/
def Measured (e : Echo) : Bool :=
  e.doMeasure ≠ 0

/-- The bench measures when the events `ks` have been serviced: the timer is one
of them, and those behind it had no more latencies than there is room for. -/
def Measuring (m : Manner) (capacity : Nat) (ks : List Served) : Prop :=
  .timer ∈ ks ∧ (m.cfg.measuresLatency = true → (warmedUp ks).countP Served.timed ≤ capacity)

instance (m : Manner) (capacity : Nat) (ks : List Served) : Decidable (Measuring m capacity ks) :=
  inferInstanceAs (Decidable (_ ∧ _))

/-- The number of the events that came in batches while the bench measured; the
batches have the sizes given, and the first of them begins at the event `first`. -/
def countedRequests (m : Manner) (capacity : Nat) (ks : List Served) : Nat → List Nat → Nat
  | _, [] => 0
  | first, n :: ns =>
      (if Measuring m capacity (ks.take first) then n else 0) +
        countedRequests m capacity ks (first + n) ns

theorem countedRequests_append (first : Nat) (ns ns' : List Nat) :
    countedRequests m capacity ks first (ns ++ ns') =
      countedRequests m capacity ks first ns +
        countedRequests m capacity ks (first + ns.sum) ns' := by
  induction ns generalizing first with
  | nil => rw [List.nil_append, countedRequests, Nat.zero_add, List.sum_nil, Nat.add_zero]
  | cons n ns ih =>
      rw [List.cons_append, countedRequests, countedRequests, ih, List.sum_cons, Nat.add_assoc,
        Nat.add_assoc]

/-- What is serviced later has no effect on the batches that have begun. -/
theorem countedRequests_served {first : Nat} {ns : List Nat}
    (h : first + ns.dropLast.sum ≤ ks.length) (k : Served) :
    countedRequests m capacity (ks ++ [k]) first ns = countedRequests m capacity ks first ns := by
  induction ns generalizing first with
  | nil => rfl
  | cons n ns ih =>
      rw [countedRequests, countedRequests, List.take_append_of_le_length (by omega)]
      cases ns with
      | nil => rfl
      | cons n' ns =>
          rw [List.dropLast_cons_cons, List.sum_cons] at h
          rw [ih (by omega)]

/-- Nothing is counted in front of the timer. -/
theorem countedRequests_silent {first : Nat} {ns : List Nat}
    (h : .timer ∉ ks.take (first + ns.sum)) : countedRequests m capacity ks first ns = 0 := by
  induction ns generalizing first with
  | nil => rfl
  | cons n ns ih =>
      have hfirst : .timer ∉ ks.take first := by
        intro hmem
        exact h ((List.take_subset_take_left ks (Nat.le_add_right ..)) hmem)
      rw [List.sum_cons, ← Nat.add_assoc] at h
      rw [countedRequests, if_neg fun hmeasuring => hfirst hmeasuring.1, ih h]

/-- Everything is counted while the bench measures. -/
theorem countedRequests_running {first : Nat} (hmeasuring : Measuring m capacity ks)
    (hwarm : .timer ∈ ks.take first) (ns : List Nat) :
    countedRequests m capacity ks first ns = ns.sum := by
  induction ns generalizing first with
  | nil => rfl
  | cons n ns ih =>
      have hbefore : Measuring m capacity (ks.take first) := by
        refine ⟨hwarm, fun hmeasures => Nat.le_trans ?_ (hmeasuring.2 hmeasures)⟩
        have hsplit := warmedUp_append hwarm (ks.drop first)
        rw [List.take_append_drop] at hsplit
        rw [hsplit, List.countP_append]
        exact Nat.le_add_right ..
      rw [countedRequests, if_pos hbefore, ih, List.sum_cons]
      exact (List.take_subset_take_left ks (Nat.le_add_right ..)) hwarm

/-- The latencies are those of the events behind the timer, until there are more
than can be stored. -/
structure Timed (capacity : Nat) (ks : List Served) (bench : ServerBench)
    (latencies : List UInt64) : Prop where
  le : latencies.length ≤ (warmedUp ks).countP Served.timed
  running : bench.doMeasure ≠ 0 → latencies.length = (warmedUp ks).countP Served.timed
  room : bench.doMeasure ≠ 0 → latencies.length ≤ capacity
  stopped : bench.doMeasure = 0 → .timer ∈ ks → capacity < latencies.length

/-- What has been counted of the batches, when `n` events of the last one are
still to be serviced. -/
structure Counted (m : Manner) (capacity : Nat) (ks : List Served) (n : Nat)
    (batches : List Nat) (requests : Int) : Prop where
  whole : batches.sum = ks.length + n
  begun : batches.dropLast.sum ≤ ks.length
  /-- The size of a batch is an `int`. -/
  exact : (∀ b ∈ batches, b < 2 ^ 31) → requests = countedRequests m capacity ks 0 batches

/-- What the bench has recorded of the events `ks`. -/
structure Books (m : Manner) (capacity : Nat) (ks : List Served) (n : Nat) (t : Tally)
    (latencies : List UInt64) (requests : Int) : Prop where
  recorded : Recorded capacity latencies requests t.bench
  counted : Counted m capacity ks n t.batches requests
  silent : .timer ∉ ks → t.bench.doMeasure = 0
  lasting : m.cfg.measuresLatency = false → .timer ∈ ks → t.bench.doMeasure ≠ 0
  timed : m.cfg.measuresLatency = true → Timed capacity ks t.bench latencies
  most : latencies.length ≤ t.echoes.countP Measured + ks.countP Served.ended
  least : m.cfg.measuresLatency = true → t.echoes.countP Measured ≤ latencies.length
  unmeasured : m.cfg.measuresLatency = false → latencies = []
  quiet : .timer ∉ ks → latencies = [] ∧ requests = 0 ∧ t.echoes.countP Measured = 0

/-- The events tell whether the bench measures. -/
theorem Books.measures (h : Books m capacity ks n t latencies requests) :
    t.bench.doMeasure ≠ 0 ↔ Measuring m capacity ks := by
  constructor
  · intro hrunning
    refine ⟨by_contra fun hmem => hrunning (h.silent hmem), fun hmeasures => ?_⟩
    have htimed := h.timed hmeasures
    rw [← htimed.running hrunning]
    exact htimed.room hrunning
  · rintro ⟨hmem, hroom⟩
    cases hmeasures : m.cfg.measuresLatency with
    | false => exact h.lasting hmeasures hmem
    | true =>
        intro hidle
        have htimed := h.timed hmeasures
        have hstopped := htimed.stopped hidle hmem
        have hle := htimed.le
        have hcapacity := hroom hmeasures
        omega

theorem Counted.served {batches : List Nat}
    (h : Counted m capacity ks (n + 1) batches requests) (k : Served) :
    Counted m capacity (ks ++ [k]) n batches requests := by
  have hlength : (ks ++ [k]).length = ks.length + 1 := List.length_append
  have hwhole := h.whole
  have hbegun := h.begun
  refine ⟨by omega, by omega, fun hbound => ?_⟩
  rw [countedRequests_served (by omega)]
  exact h.exact hbound

theorem timer_mem_append (hk : k ≠ .timer) : .timer ∈ ks ++ [k] ↔ .timer ∈ ks := by
  rw [List.mem_append, List.mem_singleton, or_iff_left hk.symm]

theorem doMeasure_recordEvent (bench : ServerBench) (start finish now : Timespec) :
    (sbRecordEvent bench start finish now).doMeasure = bench.doMeasure ∨
      (sbRecordEvent bench start finish now).doMeasure = 0 := by
  unfold sbRecordEvent
  dsimp only
  split_ifs
  · exact .inl rfl
  · exact .inr rfl
  · exact .inl rfl

theorem doMeasure_lasted (m : Manner) (t : Tally) (start finish now : Timespec) :
    (t.lasted m start finish now).bench.doMeasure = t.bench.doMeasure ∨
      (t.lasted m start finish now).bench.doMeasure = 0 := by
  unfold Tally.lasted
  dsimp only
  split_ifs
  · exact doMeasure_recordEvent ..
  · exact .inl rfl

theorem bench_lasted (t : Tally) (hmeasures : m.cfg.measuresLatency = false)
    (start finish now : Timespec) : (t.lasted m start finish now).bench = t.bench :=
  if_neg (by simp [hmeasures])

/-- Recording stops the bench exactly when there is no room. -/
theorem stopped_iff {bench : ServerBench} (h : Recorded capacity latencies requests bench)
    (hmeasures : bench.doMeasure ≠ 0) (start finish now : Timespec) :
    (sbRecordEvent bench start finish now).doMeasure = 0 ↔ capacity ≤ latencies.length := by
  have hfull := h.full_iff
  rw [h.values_eq, List.length_take] at hfull
  by_cases hno : bench.eventLatency.size = bench.eventLatency.capacity
  · have hlength := hfull.mp hno
    rw [sbRecordEvent_of_full hmeasures hno]
    exact iff_of_true rfl (by omega)
  · obtain ⟨k, -, -, -, hfilled⟩ := h.allotted
    rw [sbRecordEvent_of_room hmeasures hfilled.entrySize_eq hno]
    refine iff_of_false hmeasures fun hle => hno (hfull.mpr ?_)
    exact Nat.min_eq_left hle

/-- The latencies after an event that has lasted from `start` to `finish`. -/
theorem Recorded.lasted (h : Recorded capacity latencies requests t.bench)
    (m : Manner) (start finish now : Timespec) :
    ∃ added, Recorded capacity (latencies ++ added) requests
        (t.lasted m start finish now).bench ∧
      (added.length = if m.cfg.measuresLatency = true ∧ t.bench.doMeasure ≠ 0 then 1 else 0) ∧
      (m.cfg.measuresLatency = true → t.bench.doMeasure ≠ 0 →
        ((t.lasted m start finish now).bench.doMeasure = 0 ↔ capacity ≤ latencies.length)) := by
  unfold Tally.lasted
  dsimp only
  by_cases hmeasures : m.cfg.measuresLatency = true
  · rw [if_pos hmeasures]
    have hstep := h.step (.recordEvent start finish now)
    have hnone : requestsOf (.recordEvent start finish now) = 0 := rfl
    rw [hnone, ite_self, Int.add_zero] at hstep
    refine ⟨_, hstep, ?_, fun _ hrunning => stopped_iff h hrunning ..⟩
    by_cases hidle : t.bench.doMeasure = 0
    · rw [if_pos hidle, if_neg (by simp [hidle])]
      rfl
    · rw [if_neg hidle, if_pos ⟨hmeasures, hidle⟩]
      rfl
  · rw [if_neg hmeasures, if_neg (by simp [hmeasures])]
    refine ⟨[], ?_, rfl, fun hlatency => absurd hlatency hmeasures⟩
    rw [List.append_nil]
    exact h

/-- An event that is not timed. -/
theorem Timed.plain (h : Timed capacity ks t.bench latencies) (hk : k ≠ .timer)
    (huntimed : k.timed = false) : Timed capacity (ks ++ [k]) t.bench latencies := by
  have hcount : (warmedUp (ks ++ [k])).countP Served.timed = (warmedUp ks).countP Served.timed := by
    by_cases hmem : .timer ∈ ks
    · rw [warmedUp_append hmem, List.countP_append, List.countP_singleton, huntimed]
      rfl
    · rw [warmedUp_of_notMem hmem, warmedUp_of_notMem (by simp [hmem, hk.symm])]
  constructor
  · rw [hcount]
    exact h.le
  · rw [hcount]
    exact h.running
  · exact h.room
  · intro hidle hmem
    exact h.stopped hidle ((timer_mem_append hk).mp hmem)

/-- An event that is timed. -/
theorem Timed.next (h : Timed capacity ks t.bench latencies) (htimed : k.timed = true)
    (hsilent : .timer ∉ ks → t.bench.doMeasure = 0) {added : List UInt64} {bench' : ServerBench}
    (hadded : added.length = if t.bench.doMeasure ≠ 0 then 1 else 0)
    (hflag : bench'.doMeasure = t.bench.doMeasure ∨ bench'.doMeasure = 0)
    (hfull : t.bench.doMeasure ≠ 0 → (bench'.doMeasure = 0 ↔ capacity ≤ latencies.length)) :
    Timed capacity (ks ++ [k]) bench' (latencies ++ added) := by
  have hk : k ≠ .timer := by
    rintro rfl
    cases htimed
  have hle := h.le
  have hrunning : bench'.doMeasure ≠ 0 → t.bench.doMeasure ≠ 0 := by
    intro hmeasures hidle
    rcases hflag with hsame | hzero
    · exact hmeasures (hsame.trans hidle)
    · exact hmeasures hzero
  have hroom : bench'.doMeasure ≠ 0 → (latencies ++ added).length ≤ capacity := by
    intro hmeasures
    have hless := mt (hfull (hrunning hmeasures)).mpr hmeasures
    rw [List.length_append, hadded, if_pos (hrunning hmeasures)]
    omega
  by_cases hmem : .timer ∈ ks
  · have hcount : (warmedUp (ks ++ [k])).countP Served.timed =
        (warmedUp ks).countP Served.timed + 1 := by
      rw [warmedUp_append hmem, List.countP_append, List.countP_singleton, htimed]
      rfl
    refine ⟨?_, fun hmeasures => ?_, hroom, fun hstopped _ => ?_⟩
    · rw [List.length_append, hadded, hcount]
      split_ifs
      all_goals omega
    · rw [List.length_append, hadded, hcount, if_pos (hrunning hmeasures),
        h.running (hrunning hmeasures)]
    · by_cases hidle : t.bench.doMeasure = 0
      · have hbehind := h.stopped hidle hmem
        rw [List.length_append]
        omega
      · have hbehind := (hfull hidle).mp hstopped
        rw [List.length_append, hadded, if_pos hidle]
        omega
  · have hidle := hsilent hmem
    have hnone : added = [] := by
      apply List.eq_nil_of_length_eq_zero
      rw [hadded, if_neg (by simp [hidle])]
    have hout : .timer ∉ ks ++ [k] := mt (timer_mem_append hk).mp hmem
    rw [warmedUp_of_notMem hmem] at hle
    refine ⟨?_, fun hmeasures => absurd hidle (hrunning hmeasures), hroom,
      fun _ hin => absurd hin hout⟩
    rw [hnone, List.append_nil, warmedUp_of_notMem hout]
    exact hle

theorem echo_bench (t : Tally) (fd : Fd) (message : List Octet) :
    (t.echo fd message).bench = t.bench := rfl

theorem countP_echoed (t : Tally) (fd : Fd) (message : List Octet) :
    (t.echo fd message).echoes.countP Measured =
      t.echoes.countP Measured + if t.bench.doMeasure ≠ 0 then 1 else 0 := by
  refine (List.countP_append ..).trans ?_
  rw [List.countP_singleton]
  simp [Measured]

theorem Timed.congr {bench bench' : ServerBench} (h : Timed capacity ks bench latencies)
    (hflag : bench'.doMeasure = bench.doMeasure) : Timed capacity ks bench' latencies := by
  obtain ⟨hle, hrunning, hroom, hstopped⟩ := h
  rw [← hflag] at hrunning hroom hstopped
  exact ⟨hle, hrunning, hroom, hstopped⟩

theorem Books.start (hc : 0 ≤ c) (m : Manner) (junk : Nat → UInt8) (s₀ : Samples) :
    Books m c.toInt.toNat [] 0 (.start (sbCreate c junk) s₀) [] 0 := by
  refine ⟨recorded_create hc junk, ⟨rfl, Nat.le_refl _, fun _ => rfl⟩, fun _ => rfl, ?_,
    fun _ => ?_, Nat.le_refl _, fun _ => Nat.le_refl _, fun _ => rfl, fun _ => ⟨rfl, rfl, rfl⟩⟩
  · intro _ hmem
    cases hmem
  · refine ⟨Nat.le_refl _, fun h => absurd rfl h, fun _ => Nat.zero_le _, fun _ hmem => ?_⟩
    cases hmem

theorem Books.batch (h : Books m capacity ks 0 t latencies requests) (n : Nat)
    (hbench : m.cfg.doServerSideBenchmarking = true) :
    ∃ requests', Books m capacity ks n (t.batch m n) latencies requests' := by
  have hstep := h.recorded.step (.requestsPerformed (Int32.ofNat n))
  have hbatch : (t.batch m n).bench = sbRequestsPerformed t.bench (Int32.ofNat n) := if_pos hbench
  have hnone : latencyOf (.requestsPerformed (Int32.ofNat n)) = [] := rfl
  rw [hnone, ite_self, List.append_nil, requestsOf, performCall, ← hbatch] at hstep
  have hflag : (t.batch m n).bench.doMeasure = t.bench.doMeasure := by
    rw [hbatch, sbRequestsPerformed]
    split_ifs
    all_goals rfl
  have hbegun : t.batches.sum = ks.length := h.counted.whole
  have hcounted : ∀ counted, (n < 2 ^ 31 →
      counted = if t.bench.doMeasure = 0 then 0 else (Int32.ofNat n).toInt) →
        Counted m capacity ks n (t.batch m n).batches (requests + counted) := by
    intro counted hexact
    refine ⟨?_, ?_, fun hbound => ?_⟩
    · change (t.batches ++ [n]).sum = _
      rw [List.sum_append, hbegun, List.sum_singleton]
    · change (t.batches ++ [n]).dropLast.sum ≤ _
      rw [List.dropLast_concat, hbegun]
    · change ∀ b ∈ t.batches ++ [n], b < 2 ^ 31 at hbound
      have hn := hbound n (List.mem_append_right _ List.mem_cons_self)
      have hbefore : ∀ b ∈ t.batches, b < 2 ^ 31 := fun b hb =>
        hbound b (List.mem_append_left _ hb)
      change _ = ((countedRequests m capacity ks 0 (t.batches ++ [n]) : Nat) : Int)
      rw [countedRequests_append, Nat.zero_add, hbegun, countedRequests, countedRequests,
        List.take_length, h.counted.exact hbefore, hexact hn, Nat.add_zero, Int.natCast_add,
        Int32.toInt_ofNat_of_lt hn]
      by_cases hidle : t.bench.doMeasure = 0
      · rw [if_pos hidle, if_neg fun hmeasuring => h.measures.mpr hmeasuring hidle]
        rfl
      · rw [if_neg hidle, if_pos (h.measures.mp hidle)]
  refine ⟨_, hstep, hcounted _ fun _ => rfl, hflag ▸ h.silent, hflag ▸ h.lasting,
    fun hmeasures => (h.timed hmeasures).congr hflag, h.most, h.least, h.unmeasured,
    fun hmem => ?_⟩
  obtain ⟨hlatencies, hzero, hechoes⟩ := h.quiet hmem
  refine ⟨hlatencies, ?_, hechoes⟩
  rw [hzero, if_pos (h.silent hmem)]
  rfl

/-- An event that has nothing to do with the bench. -/
theorem Books.plain (h : Books m capacity ks (n + 1) t latencies requests) (hk : k ≠ .timer)
    (hended : k.ended = false) (huntimed : k.timed = false) :
    Books m capacity (ks ++ [k]) n t latencies requests := by
  have hmem : .timer ∈ ks ++ [k] ↔ .timer ∈ ks := timer_mem_append hk
  refine ⟨h.recorded, h.counted.served k, fun hout => h.silent (mt hmem.mpr hout),
    fun hmeasures hin => h.lasting hmeasures (hmem.mp hin), fun hmeasures => ?_, ?_, h.least,
    h.unmeasured, fun hout => h.quiet (mt hmem.mpr hout)⟩
  · exact (h.timed hmeasures).plain hk huntimed
  · rw [List.countP_append, List.countP_singleton, hended]
    exact h.most

theorem Books.accept (h : Books m capacity ks n t latencies requests) (fd : Fd) :
    Books m capacity ks n (t.accept m fd) latencies requests := by
  have hsame : (t.accept m fd).bench.eventLatency = t.bench.eventLatency ∧
      (t.accept m fd).bench.requestNo = t.bench.requestNo ∧
        (t.accept m fd).bench.doMeasure = t.bench.doMeasure := by
    unfold Tally.accept
    dsimp only
    split_ifs
    · exact ⟨rfl, rfl, rfl⟩
    · exact ⟨rfl, rfl, rfl⟩
  obtain ⟨hcontainer, hrequests, hflag⟩ := hsame
  exact ⟨h.recorded.congr hcontainer hrequests (hflag ▸ h.recorded.flag), h.counted,
    hflag ▸ h.silent, hflag ▸ h.lasting, fun hmeasures => (h.timed hmeasures).congr hflag,
    h.most, h.least, h.unmeasured, h.quiet⟩

/-- The warm-up is over. -/
theorem Books.timer (h : Books m capacity ks (n + 1) t latencies requests) (hfirst : .timer ∉ ks)
    (hbench : m.cfg.doServerSideBenchmarking = true) (now : Timespec) :
    Books m capacity (ks ++ [.timer]) n (t.timer m now) latencies requests := by
  have hidle := h.silent hfirst
  obtain ⟨hnone, -⟩ := h.quiet hfirst
  have hstep := h.recorded.step (.start now)
  have hstarted : (t.timer m now).bench = sbStart t.bench now := if_pos hbench
  have hlatency : latencyOf (.start now) = [] := rfl
  have hrequests : requestsOf (.start now) = 0 := rfl
  rw [hlatency, ite_self, List.append_nil, hrequests, ite_self, Int.add_zero, performCall,
    ← hstarted] at hstep
  have hmeasures : (t.timer m now).bench.doMeasure ≠ 0 := by
    rw [hstarted, sbStart, if_neg (not_not.mpr hidle)]
    change (1 : Int32) ≠ 0
    decide
  have hbehind : warmedUp (ks ++ [.timer]) = [] := warmedUp_timer hfirst
  have hin : .timer ∈ ks ++ [Served.timer] := List.mem_append_right _ List.mem_cons_self
  refine ⟨hstep, h.counted.served _, fun hmem => absurd hin hmem, fun _ _ => hmeasures,
    fun _ => ⟨?_, fun _ => ?_, fun _ => ?_, fun hstopped => absurd hstopped hmeasures⟩, ?_,
    h.least, h.unmeasured, fun hmem => absurd hin hmem⟩
  · rw [hnone]
    exact Nat.zero_le _
  · rw [hnone, hbehind]
    rfl
  · rw [hnone]
    exact Nat.zero_le _
  · rw [List.countP_append]
    exact h.most

/-- The servicing of a client does not start the bench, and stops it only when
latency is measured. -/
theorem Books.flags (h : Books m capacity ks (n + 1) t latencies requests) (hk : k ≠ .timer)
    {t' : Tally} (hbench : t'.bench = t.bench) (start finish now : Timespec) :
    (.timer ∉ ks ++ [k] → (t'.lasted m start finish now).bench.doMeasure = 0) ∧
      (m.cfg.measuresLatency = false → .timer ∈ ks ++ [k] →
        (t'.lasted m start finish now).bench.doMeasure ≠ 0) := by
  have hmem : .timer ∈ ks ++ [k] ↔ .timer ∈ ks := timer_mem_append hk
  constructor
  · intro hout
    have hidle := h.silent (mt hmem.mpr hout)
    rcases doMeasure_lasted m t' start finish now with hsame | hzero
    · exact hsame.trans (hbench ▸ hidle)
    · exact hzero
  · intro hmeasures hin
    rw [bench_lasted t' hmeasures, hbench]
    exact h.lasting hmeasures (hmem.mp hin)

/-- A message was echoed. -/
theorem Books.message (h : Books m capacity ks (n + 1) t latencies requests) (fd : Fd)
    (message : List Octet) (start finish now : Timespec) :
    ∃ latencies', Books m capacity (ks ++ [.message fd]) n
      ((t.echo fd message).lasted m start finish now) latencies' requests := by
  have hrecorded : Recorded capacity latencies requests (t.echo fd message).bench := h.recorded
  obtain ⟨added, hadded, hlength, hfull⟩ := Recorded.lasted hrecorded m start finish now
  obtain ⟨hsilent, hlasting⟩ :=
    h.flags (k := .message fd) (by simp) (echo_bench t fd message) start finish now
  have hcount := countP_echoed t fd message
  rw [echo_bench] at hlength hfull
  refine ⟨_, hadded, h.counted.served _, hsilent, hlasting, fun hmeasures => ?_, ?_, ?_, ?_, ?_⟩
  · refine (h.timed hmeasures).next rfl h.silent ?_
      (doMeasure_lasted m (t.echo fd message) ..) (hfull hmeasures)
    rw [hlength, hmeasures]
    simp only [true_and]
  · change _ ≤ (t.echo fd message).echoes.countP Measured + _
    have hmost := h.most
    rw [hcount, List.length_append, hlength, List.countP_append]
    split_ifs
    all_goals grind
  · intro hmeasures
    change (t.echo fd message).echoes.countP Measured ≤ _
    have hleast := h.least hmeasures
    rw [hcount, List.length_append, hlength]
    split_ifs
    all_goals grind
  · intro hmeasures
    rw [h.unmeasured hmeasures, List.nil_append]
    apply List.eq_nil_of_length_eq_zero
    rw [hlength, if_neg (by simp [hmeasures])]
  · intro hmem
    have hin : .timer ∉ ks := fun hin => hmem (List.mem_append_left _ hin)
    have hidle := h.silent hin
    obtain ⟨hnone, hrequests, hzero⟩ := h.quiet hin
    refine ⟨?_, hrequests, ?_⟩
    · rw [hnone, List.nil_append]
      apply List.eq_nil_of_length_eq_zero
      rw [hlength, if_neg (by simp [hidle])]
    · refine hcount.trans ?_
      rw [hzero, if_neg (by simp [hidle])]

/-- The end of a stream was read, which is timed as well. -/
theorem Books.ending (h : Books m capacity ks (n + 1) t latencies requests) (fd : Fd)
    (start finish now : Timespec) :
    ∃ latencies', Books m capacity (ks ++ [.ending fd]) n (t.lasted m start finish now)
      latencies' requests := by
  obtain ⟨added, hadded, hlength, hfull⟩ := Recorded.lasted h.recorded m start finish now
  obtain ⟨hsilent, hlasting⟩ := h.flags (k := .ending fd) (by simp) rfl start finish now
  refine ⟨_, hadded, h.counted.served _, hsilent, hlasting, fun hmeasures => ?_, ?_, ?_, ?_, ?_⟩
  · refine (h.timed hmeasures).next rfl h.silent ?_ (doMeasure_lasted m t ..) (hfull hmeasures)
    rw [hlength, hmeasures]
    simp only [true_and]
  · have hmost := h.most
    change _ ≤ t.echoes.countP Measured + _
    rw [List.length_append, hlength, List.countP_append, List.countP_singleton]
    simp only [Served.ended, if_true]
    split_ifs
    all_goals omega
  · intro hmeasures
    rw [List.length_append]
    exact Nat.le_add_right_of_le (h.least hmeasures)
  · intro hmeasures
    rw [h.unmeasured hmeasures, List.nil_append]
    apply List.eq_nil_of_length_eq_zero
    rw [hlength, if_neg (by simp [hmeasures])]
  · intro hmem
    have hin : .timer ∉ ks := fun hin => hmem (List.mem_append_left _ hin)
    obtain ⟨hnone, hzero⟩ := h.quiet hin
    refine ⟨?_, hzero⟩
    rw [hnone, List.nil_append]
    apply List.eq_nil_of_length_eq_zero
    rw [hlength, if_neg (by simp [h.silent hin])]

theorem Journal.books (h : Journal m (.start (sbCreate c junk) s₀) ks n t) (hc : 0 ≤ c)
    (hbench : m.cfg.doServerSideBenchmarking = true) :
    ∃ latencies requests, Books m c.toInt.toNat ks n t latencies requests := by
  induction h with
  | start => exact ⟨_, _, Books.start hc m junk s₀⟩
  | batch h n hn ih =>
      obtain ⟨latencies, requests, hbooks⟩ := ih
      exact ⟨latencies, hbooks.batch n hbench⟩
  | newClient h ih | other h ih =>
      obtain ⟨latencies, requests, hbooks⟩ := ih
      exact ⟨latencies, requests, hbooks.plain (by simp) rfl rfl⟩
  | accept h fd ih =>
      obtain ⟨latencies, requests, hbooks⟩ := ih
      exact ⟨latencies, requests, hbooks.accept fd⟩
  | timer h hfirst now ih =>
      obtain ⟨latencies, requests, hbooks⟩ := ih
      exact ⟨latencies, requests, hbooks.timer hfirst hbench now⟩
  | message h fd message start finish now ih =>
      obtain ⟨latencies, requests, hbooks⟩ := ih
      obtain ⟨latencies', hbooks'⟩ := hbooks.message fd message start finish now
      exact ⟨latencies', requests, hbooks'⟩
  | ending h fd start finish now ih =>
      obtain ⟨latencies, requests, hbooks⟩ := ih
      obtain ⟨latencies', hbooks'⟩ := hbooks.ending fd start finish now
      exact ⟨latencies', requests, hbooks'⟩

/-- The timer expires once. -/
theorem Journal.count_timer (h : Journal m t₀ ks n t) : ks.count .timer ≤ 1 := by
  induction h with
  | start => exact Nat.zero_le _
  | batch h n hn ih | accept h fd ih => exact ih
  | newClient h ih | other h ih | message h fd message start finish now ih
  | ending h fd start finish now ih =>
      rw [List.count_append, List.count_singleton]
      exact ih
  | timer h hfirst now ih =>
      rw [List.count_append, List.count_eq_zero.mpr hfirst, List.count_singleton_self]

/-- What can be read off the bench when the events `ks` have been serviced. -/
structure Accounted (m : Manner) (capacity : Nat) (ks : List Served) (t : Tally) : Prop where
  /-- Every client is counted. -/
  clients : t.bench.clientNo = Int32.ofNat (t.accepts.countP m.counts)
  /-- A latency is stored for each event behind the timer whose servicing is
  timed, as long as there is room. -/
  stored : m.cfg.measuresLatency = true → (values t.bench.eventLatency).length =
    min capacity ((warmedUp ks).countP Served.timed)
  /-- A latency is stored for each message echoed while the bench measured, as
  long as there is room; the ends of streams can take some of it. -/
  least : m.cfg.measuresLatency = true →
    min capacity (t.echoes.countP Measured) ≤ (values t.bench.eventLatency).length
  most : (values t.bench.eventLatency).length ≤
    min capacity (t.echoes.countP Measured + ks.countP Served.ended)
  /-- Nothing is measured before the timer expires. -/
  warm : .timer ∉ ks → t.bench.doMeasure = 0 ∧ t.bench.requestNo = 0 ∧
    values t.bench.eventLatency = [] ∧ ∀ e ∈ t.echoes, e.doMeasure = 0

theorem ofInt_natCast (r : Nat) : UInt64.ofInt r = UInt64.ofNat r := by
  have hcast := toNat_ofInt r
  apply UInt64.toNat_inj.mp
  rw [UInt64.toNat_ofNat']
  omega

/-- The requests counted of the events `ks`, which came in batches. -/
structure CountsRequests (m : Manner) (capacity : Nat) (batches : List Nat) (ks : List Served)
    (bench : ServerBench) : Prop where
  whole : batches.sum = ks.length
  measures : bench.doMeasure ≠ 0 ↔ Measuring m capacity ks
  /-- They are the events of the batches that came while the bench measured. -/
  requests : bench.requestNo = UInt64.ofNat (countedRequests m capacity ks 0 batches)
  /-- As long as the bench measures, they are the events of the batches behind the
  one in which the timer came. -/
  behind : bench.doMeasure ≠ 0 → ∀ before n after, batches = before ++ n :: after →
    ∀ pre rest, ks = pre ++ .timer :: rest →
      before.sum ≤ pre.length → pre.length < before.sum + n →
        bench.requestNo = UInt64.ofNat after.sum

/-- The batch in which the timer came is not counted, nor are those in front. -/
theorem countedRequests_behind {before after : List Nat} {pre rest : List Served}
    (hmeasuring : Measuring m capacity (pre ++ .timer :: rest)) (hpre : .timer ∉ pre)
    (hlow : before.sum ≤ pre.length) (hhigh : pre.length < before.sum + n) :
    countedRequests m capacity (pre ++ .timer :: rest) 0 (before ++ n :: after) = after.sum := by
  have hfront : ∀ first ≤ pre.length, .timer ∉ (pre ++ Served.timer :: rest).take first := by
    intro first hfirst hmem
    rw [List.take_append_of_le_length hfirst] at hmem
    exact hpre (List.take_subset _ _ hmem)
  have hbehind : .timer ∈ (pre ++ Served.timer :: rest).take (before.sum + n) := by
    rw [List.take_append, List.mem_append, List.take_cons (by omega)]
    exact .inr List.mem_cons_self
  rw [countedRequests_append, countedRequests_silent (hfront _ (by omega)), countedRequests,
    Nat.zero_add, Nat.zero_add, if_neg fun h => hfront _ hlow h.1, Nat.zero_add]
  exact countedRequests_running hmeasuring hbehind after

theorem Journal.batch_lt (h : Journal m t₀ ks n t) (hnone : t₀.batches = []) :
    ∀ b ∈ t.batches, b < m.bound := by
  induction h with
  | start =>
      intro b hb
      rw [hnone] at hb
      cases hb
  | batch h n hn ih =>
      intro b hb
      rcases List.mem_append.mp hb with hb | hb
      · exact ih b hb
      · exact List.mem_singleton.mp hb ▸ hn
  | accept h fd ih => exact ih
  | newClient h ih | other h ih => exact ih
  | timer h hfirst now ih => exact ih
  | message h fd message start finish now ih => exact ih
  | ending h fd start finish now ih => exact ih

theorem Journal.countsRequests (h : Journal m (.start (sbCreate c junk) s₀) ks 0 t) (hc : 0 ≤ c)
    (hbench : m.cfg.doServerSideBenchmarking = true) (hint : ∀ b ∈ t.batches, b < 2 ^ 31) :
    CountsRequests m c.toInt.toNat t.batches ks t.bench := by
  obtain ⟨latencies, requests, hbooks⟩ := h.books hc hbench
  have hrequests : t.bench.requestNo =
      UInt64.ofNat (countedRequests m c.toInt.toNat ks 0 t.batches) := by
    rw [hbooks.recorded.requestNo_eq, hbooks.counted.exact hint, ofInt_natCast]
  refine ⟨hbooks.counted.whole, hbooks.measures, hrequests, ?_⟩
  rintro hmeasures before n after hbatches pre rest rfl hlow hhigh
  have honce := h.count_timer
  have hpre : .timer ∉ pre := by
    rw [List.count_append, List.count_cons_self] at honce
    exact List.count_eq_zero.mp (by omega)
  rw [hrequests, hbatches, countedRequests_behind (hbooks.measures.mp hmeasures) hpre hlow hhigh]

theorem Journal.accounted (h : Journal m (.start (sbCreate c junk) s₀) ks 0 t) (hc : 0 ≤ c)
    (hbench : m.cfg.doServerSideBenchmarking = true) : Accounted m c.toInt.toNat ks t := by
  obtain ⟨latencies, requests, hbooks⟩ := h.books hc hbench
  have hvalues := hbooks.recorded.values_eq
  constructor
  · exact (h.clientNo hbench).trans (Int32.zero_add _)
  · intro hmeasures
    obtain ⟨hle, hrunning, -, hstopped⟩ := hbooks.timed hmeasures
    rw [hvalues, List.length_take]
    by_cases hidle : t.bench.doMeasure = 0
    · by_cases hmem : .timer ∈ ks
      · have hfull := hstopped hidle hmem
        omega
      · rw [warmedUp_of_notMem hmem] at hle ⊢
        simp only [List.countP_nil, Nat.le_zero] at hle ⊢
        omega
    · rw [hrunning hidle]
  · intro hmeasures
    have hleast := hbooks.least hmeasures
    rw [hvalues, List.length_take]
    omega
  · have hmost := hbooks.most
    rw [hvalues, List.length_take]
    omega
  · intro hmem
    obtain ⟨rfl, rfl, hzero⟩ := hbooks.quiet hmem
    refine ⟨hbooks.silent hmem, hbooks.recorded.requestNo_eq, ?_, fun e he => ?_⟩
    · rw [hvalues, List.take_nil]
    · have hnot := List.countP_eq_zero.mp hzero e he
      simpa [Measured] using hnot

end Books

section Notes

variable {ρ κ α τ : Type} {view : α → List (Fd × File) → τ} {N : Tally → τ → Prop}

def tally (w : HostWorld ρ κ α) : Tally where
  bench := w.bench
  echoes := w.echoes
  accepts := w.accepts
  batches := w.batches
  samples := w.samples

/-- `N` is true of the tally and of the part `view` of the server's memory and of
the files that it has closed. -/
def Noted (view : α → List (Fd × File) → τ) (N : Tally → τ → Prop) (w : HostWorld ρ κ α) :
    Prop :=
  N (tally w) (view w.app w.kernel.closes)

theorem Noted.congr {w w' : HostWorld ρ κ α} (h : Noted view N w) (htally : tally w' = tally w)
    (happ : w'.app = w.app) (hcloses : w'.kernel.closes = w.kernel.closes) :
    Noted view N w' := by
  rw [Noted, htally, happ, hcloses]
  exact h

theorem stable_noted : Stable (Noted view N : HostWorld ρ κ α → Prop) :=
  ⟨fun _ a h => h.congr rfl rfl (arrive_closes a), fun _ _ h => h⟩

theorem noted_modifyHostBench {N' : Tally → τ → Prop} {f : ServerBench → ServerBench}
    (hf : ∀ t x, N t x → N' { t with bench := f t.bench } x) :
    Triple (Noted view N) (modifyHostBench f : Program (HostWorld ρ κ α) PUnit)
      fun _ => Noted view N' :=
  Triple.modify fun _ h => hf _ _ h

/-- The events of a batch are counted. -/
theorem noted_batch (m : Manner) (n : Nat) :
    Triple (Noted view fun t x => ∃ t₀, N t₀ x ∧ t = t₀.fetched n)
      (whenTrue m.cfg.doServerSideBenchmarking do
        modifyHostBench fun b => sbRequestsPerformed b (Int32.ofNat n) :
        Program (HostWorld ρ κ α) PUnit) fun _ =>
      Noted view fun t x => ∃ t₀, N t₀ x ∧ t = t₀.batch m n := by
  apply triple_whenTrue
  · intro hbench
    apply noted_modifyHostBench
    rintro t x ⟨t₀, ht₀, rfl⟩
    refine ⟨t₀, ht₀, ?_⟩
    rw [Tally.batch, if_pos hbench]
    rfl
  · rintro w ⟨t₀, ht₀, ht⟩ hbench
    refine ⟨t₀, ht₀, ht.trans ?_⟩
    rw [Tally.batch, if_neg hbench]
    rfl

variable [Inhabited ρ]

/-- The closing of an open file is kept. -/
theorem noted_hostClose {f : File} (fd : Fd) :
    Triple (fun w => Noted view N w ∧ w.kernel.files fd = some f)
      (hostClose fd : Program (HostWorld ρ κ α) Int) fun _ w =>
        ∃ cs, N (tally w) (view w.app cs) ∧ w.kernel.closes = cs ++ [(fd, f)] := by
  have hstable : Stable fun w : HostWorld ρ κ α =>
      Noted view N w ∧ w.kernel.files fd = some f := by
    refine ⟨fun w a h => ⟨stable_noted.arrive w a h.1, ?_⟩, fun _ _ h => h⟩
    exact (congrFun (arrive_files a) fd).trans h.2
  refine (triple_hostClose hstable fd).post ?_
  rintro rc w' ⟨w, ⟨hnoted, hfile⟩, -, rfl⟩
  refine ⟨w.kernel.closes, hnoted, ?_⟩
  change (w.kernel.close fd).2.closes = _
  rw [Kernel.close, hfile]

theorem noted_allocCon (init : κ) :
    Triple (Noted view N) (allocCon init : Program (HostWorld ρ κ α) Ptr)
      fun _ => Noted view N := by
  refine (triple_allocCon stable_noted init).post ?_
  rintro p w' ⟨w, hw, ⟨-, rfl⟩ | ⟨-, -, rfl⟩⟩
  · exact hw
  · exact hw

/-- Without a look at the closings these change nothing. -/
theorem noted_hostClose_of_blind (hblind : ∀ a cs cs', view a cs = view a cs') (fd : Fd) :
    Triple (Noted view N) (hostClose fd : Program (HostWorld ρ κ α) Int)
      fun _ => Noted view N := by
  refine (triple_hostClose stable_noted fd).post ?_
  rintro rc w' ⟨w, hw, -, rfl⟩
  rw [Noted, hblind _ _ w.kernel.closes]
  exact hw

theorem noted_createWarmupTimer :
    Triple (Noted view N) (createWarmupTimer : Program (HostWorld ρ κ α) Fd)
      fun _ => Noted view N :=
  triple_createWarmupTimer stable_noted (fun _ _ hw _ _ => hw) fun _ => stable_noted

theorem noted_acceptClient (ls : Fd) :
    Triple (Noted view N) (acceptClient ls : Program (HostWorld ρ κ α) Fd) fun fd =>
      Noted view fun t x => ∃ t₀, N t₀ x ∧ t = { t₀ with accepts := t₀.accepts ++ [fd] } := by
  refine (triple_acceptClient stable_noted ls).post ?_
  rintro fd w' ⟨w, hw, ⟨rfl, -, rfl⟩ | ⟨c, rest, -, -, -, rfl⟩⟩
  · exact ⟨tally w, hw, rfl⟩
  · exact ⟨tally w, hw, rfl⟩

/-- A message that is echoed, if any, is one with `S`. -/
theorem noted_readNEcho {P : HostWorld ρ κ α → Prop} (h : Stable P) (cfg : ServerConfig) (fd : Fd)
    (buf : List Octet) {S : List Octet → Prop}
    (hP : ∀ w, P w → Noted view N w ∧ ∀ c, w.kernel.files fd = some (.socket c) →
      S ((w.kernel.conns c).unread.take buf.length)) :
    Triple P (readNEcho cfg fd buf : Program (HostWorld ρ κ α) (Int × List Octet))
      fun r => Noted view fun t x => ∃ t₀, N t₀ x ∧
        (r.1 = 0 ∧ t = t₀ ∨ r.1 ≠ 0 ∧ ∃ message, S message ∧ t = t₀.echo fd message) := by
  have hstable : ∀ data, Stable fun w : HostWorld ρ κ α => Noted view N w ∧ S data := fun data =>
    ⟨fun w a hw => ⟨stable_noted.arrive w a hw.1, hw.2⟩,
      fun w s hw => ⟨stable_noted.sched w s hw.1, hw.2⟩⟩
  refine (triple_readNEcho (R := fun data w => Noted view N w ∧ S data) h cfg fd buf ?_
    hstable).post ?_
  · rintro w c data hw hfile rfl -
    obtain ⟨hnoted, hdata⟩ := hP w hw
    exact ⟨hnoted, hdata c hfile⟩
  · rintro r w' (⟨rfl, hw, -⟩ | ⟨w, c, data, ⟨hw, hdata⟩, -, -, rfl, rfl⟩)
    · exact ⟨tally w', hw, .inl ⟨rfl, rfl⟩⟩
    · refine ⟨tally w, hw, .inr ⟨fun hzero => ?_, data, hdata, rfl⟩⟩
      have hpos := cfg.buffer_pos
      have hnone : cfg.defaultBufferSize.toNat = 0 := Int.ofNat.inj hzero
      omega

/-- The time that the servicing of a client has taken is recorded where latency
is measured. -/
theorem noted_lasted (m : Manner) (start : Timespec) :
    Triple (Noted view N) (whenTrue m.cfg.measuresLatency do
      let finish ← hostNow
      let now ← hostNow
      modifyHostBench fun b => sbRecordEvent b start finish now :
        Program (HostWorld ρ κ α) PUnit) fun _ =>
      Noted view fun t x => ∃ t₀, N t₀ x ∧ ∃ finish now, t = t₀.lasted m start finish now := by
  apply triple_whenTrue
  · intro hmeasures
    refine (triple_hostNow stable_noted).bind fun finish =>
      (triple_hostNow stable_noted).bind fun now => noted_modifyHostBench fun t x h => ?_
    refine ⟨t, h, finish, now, ?_⟩
    rw [Tally.lasted, if_pos hmeasures]
  · intro w hw hnot
    refine ⟨tally w, hw, {}, {}, ?_⟩
    rw [Tally.lasted, if_neg hnot]

end Notes

end EchoServers.BenchJournal
