import EchoServers.MeasContainer
import EchoServers.TimespecDelta

namespace EchoServers.BenchRuns

open EchoServers.MeasContainer
open EchoServers.ServerBenchmark
open EchoServers.TimespecBalance
open EchoServers.TimespecDelta
open EchoServers.TimeUtils

/-- A call of the benchmark functions with its arguments and the reading of the
clock. -/
inductive BenchCall where
  | start (now : Timespec)
  | stop (now : Timespec)
  | clientConnected
  | requestsPerformed (count : Int32)
  | recordEvent (start finish now : Timespec)

def performCall (bench : ServerBench) : BenchCall → ServerBench
  | .start now => sbStart bench now
  | .stop now => sbStop bench now
  | .clientConnected => sbClientConnected bench
  | .requestsPerformed count => sbRequestsPerformed bench count
  | .recordEvent start finish now => sbRecordEvent bench start finish now

def performCalls (bench : ServerBench) (calls : List BenchCall) : ServerBench :=
  calls.foldl performCall bench

/-- The latency that a call reports. -/
def latencyOf : BenchCall → List UInt64
  | .recordEvent start finish _ => [timespecToNs (timeDelta finish start)]
  | _ => []

/-- Between two balanced instants it is their distance in nanoseconds, as far as 64
bits hold it. -/
theorem latencyOf_recordEvent {start finish : Timespec} (hf : Balanced finish)
    (hs : Balanced start) (h : SecondsApart finish start) (now : Timespec) :
    latencyOf (.recordEvent start finish now) = [UInt64.ofInt (value finish - value start)] := by
  rw [latencyOf, timespecToNs_eq, value_timeDelta hf hs h]

/-- The number of requests that a call reports. -/
def requestsOf : BenchCall → Int
  | .requestsPerformed count => count.toInt
  | _ => 0

/-- The latencies of the calls made while `do_measure` is set. -/
def measuredLatencies (bench : ServerBench) : List BenchCall → List UInt64
  | [] => []
  | c :: cs =>
      (if bench.doMeasure = 0 then [] else latencyOf c) ++
        measuredLatencies (performCall bench c) cs

def measuredRequests (bench : ServerBench) : List BenchCall → Int
  | [] => 0
  | c :: cs =>
      (if bench.doMeasure = 0 then 0 else requestsOf c) + measuredRequests (performCall bench c) cs

/-- `capacity` entries of eight bytes are allocated. -/
def Allotted (capacity : Nat) (bench : ServerBench) : Prop :=
  ∃ k, k ≤ capacity ∧ bench.eventLatency.capacity.toNat = capacity ∧ capacity < 2 ^ 31 ∧
    Filled measValueHolderSize bench.eventLatency.capacity k bench.eventLatency

/-- What the bench has kept of the latencies and the requests it was told of. -/
structure Recorded (capacity : Nat) (latencies : List UInt64) (requests : Int)
    (bench : ServerBench) : Prop where
  allotted : Allotted capacity bench
  values_eq : values bench.eventLatency = latencies.take capacity
  requestNo_eq : bench.requestNo = UInt64.ofInt requests
  flag : bench.doMeasure = 0 ∨ bench.doMeasure = 1

section Steps

variable {capacity : Nat} {latencies : List UInt64} {requests : Int} {bench : ServerBench}

theorem length_values (container : MeasPcontainer) :
    (values container).length = container.size.toNat := by
  simp [values]

theorem recorded_create {n : Int32} (hn : 0 ≤ n) (junk : Nat → UInt8) :
    Recorded n.toInt.toNat [] 0 (sbCreate n junk) := by
  have hzero : (0 : Int32).toInt = 0 := by decide
  rw [Int32.le_iff_toInt_le, hzero] at hn
  have hlt := n.toInt_lt
  have hcapacity : (n.toInt64.toUInt64.toNat : Int) = n.toInt := by
    rw [toUInt64_eq, toNat_ofInt, Int32.toInt_toInt64]
    exact Int.emod_eq_of_lt hn (by omega)
  refine ⟨⟨0, Nat.zero_le _, ?_, by omega, filled_create _ _ _⟩, ?_, rfl, .inl rfl⟩
  swap
  · rw [List.take_nil]
    rfl
  change n.toInt64.toUInt64.toNat = _
  omega

/-- Without an effect on the container, the flag may change. -/
theorem Recorded.congr (h : Recorded capacity latencies requests bench) {bench' : ServerBench}
    (hcontainer : bench'.eventLatency = bench.eventLatency)
    (hrequests : bench'.requestNo = bench.requestNo)
    (hflag : bench'.doMeasure = 0 ∨ bench'.doMeasure = 1) :
    Recorded capacity latencies requests bench' := by
  refine ⟨?_, hcontainer ▸ h.values_eq, hrequests ▸ h.requestNo_eq, hflag⟩
  unfold Allotted
  rw [hcontainer]
  exact h.allotted

theorem sbRecordEvent_of_full (hmeasures : bench.doMeasure ≠ 0)
    (hfull : bench.eventLatency.size = bench.eventLatency.capacity)
    (start finish now : Timespec) :
    sbRecordEvent bench start finish now = sbStop bench now := by
  rw [sbRecordEvent, if_neg hmeasures]
  dsimp only
  rw [store_holder_full hfull, if_pos (by simp)]

/-- The container is full when it holds as many values as it may. -/
theorem Recorded.full_iff (h : Recorded capacity latencies requests bench) :
    bench.eventLatency.size = bench.eventLatency.capacity ↔
      (values bench.eventLatency).length = capacity := by
  obtain ⟨k, -, hcapacity, -, -⟩ := h.allotted
  rw [length_values, ← UInt64.toNat_inj, hcapacity]

theorem take_append_singleton (latency : UInt64) :
    (latencies.take capacity).length < capacity →
      (latencies ++ [latency]).take capacity = latencies.take capacity ++ [latency] := by
  intro hroom
  rw [List.length_take] at hroom
  have hlength : latencies.length < capacity := by omega
  rw [List.take_of_length_le (by simp; omega), List.take_of_length_le (by omega)]

theorem take_append_of_full (latency : UInt64)
    (hfull : (latencies.take capacity).length = capacity) :
    (latencies ++ [latency]).take capacity = latencies.take capacity := by
  rw [List.length_take] at hfull
  exact List.take_append_of_le_length (by omega)

/-- A latency is stored, or stops the measuring when there is no room for it. -/
theorem Recorded.recordEvent (h : Recorded capacity latencies requests bench)
    (hmeasures : bench.doMeasure ≠ 0) (start finish now : Timespec) :
    Recorded capacity (latencies ++ [timespecToNs (timeDelta finish start)]) requests
      (sbRecordEvent bench start finish now) := by
  by_cases hfull : bench.eventLatency.size = bench.eventLatency.capacity
  · have hlength := h.full_iff.mp hfull
    rw [h.values_eq] at hlength
    rw [sbRecordEvent_of_full hmeasures hfull]
    have hkept : Recorded capacity latencies requests (sbStop bench now) :=
      h.congr rfl rfl (.inl rfl)
    exact ⟨hkept.allotted, hkept.values_eq.trans (take_append_of_full _ hlength).symm,
      hkept.requestNo_eq, hkept.flag⟩
  · obtain ⟨k, hle, hcapacity, hless, hfilled⟩ := h.allotted
    have hroom : k < bench.eventLatency.capacity.toNat := by
      have hne : k ≠ bench.eventLatency.capacity.toNat := fun heq =>
        hfull (UInt64.toNat_inj.mp (hfilled.size_eq.trans heq))
      have hle := hfilled.size_le
      omega
    have height : measValueHolderSize.toNat = 8 := by decide
    have hinside : (k + 1) * measValueHolderSize.toNat ≤ bench.eventLatency.ptr.length := by
      rw [hfilled.length_eq, UInt64.toNat_mul, height, hcapacity, Nat.mod_eq_of_lt (by omega)]
      omega
    have hnext : Filled measValueHolderSize bench.eventLatency.capacity (k + 1)
        (withValue bench.eventLatency (timespecToNs (timeDelta finish start))) := by
      have hadded := hfilled.next hroom hinside
        (measValueHolderBytes (timespecToNs (timeDelta finish start)))
      rw [← hfilled.offset_eq] at hadded
      exact hadded
    have hlength : (latencies.take capacity).length < capacity := by
      rw [← h.values_eq, length_values, hfilled.size_eq]
      omega
    rw [sbRecordEvent_of_room hmeasures hfilled.entrySize_eq hfull]
    refine ⟨⟨k + 1, by omega, hcapacity, hless, hnext⟩, ?_, h.requestNo_eq, h.flag⟩
    rw [take_append_singleton _ hlength, ← h.values_eq]
    exact hfilled.values_withValue hnext.size_eq

theorem performCall_idle (hidle : bench.doMeasure = 0) (c : BenchCall) :
    (performCall bench c).eventLatency = bench.eventLatency ∧
      (performCall bench c).requestNo = bench.requestNo := by
  cases c with
  | start now =>
      simp only [performCall, sbStart]
      split
      · exact ⟨rfl, rfl⟩
      · exact ⟨rfl, rfl⟩
  | stop now => exact ⟨rfl, rfl⟩
  | clientConnected => exact ⟨rfl, rfl⟩
  | requestsPerformed count =>
      rw [performCall, sbRequestsPerformed, if_pos hidle]
      exact ⟨rfl, rfl⟩
  | recordEvent start finish now =>
      rw [performCall, sbRecordEvent, if_pos hidle]
      exact ⟨rfl, rfl⟩

theorem flag_performCall (hflag : bench.doMeasure = 0 ∨ bench.doMeasure = 1) (c : BenchCall) :
    (performCall bench c).doMeasure = 0 ∨ (performCall bench c).doMeasure = 1 := by
  cases c with
  | start now =>
      rw [performCall, sbStart]
      split
      · exact hflag
      · exact .inr rfl
  | stop now => exact .inl rfl
  | clientConnected => exact hflag
  | requestsPerformed count =>
      rw [performCall, sbRequestsPerformed]
      split
      · exact hflag
      · exact hflag
  | recordEvent start finish now =>
      rw [performCall, sbRecordEvent]
      dsimp only
      split
      · exact hflag
      · split
        · exact .inl rfl
        · exact hflag

theorem Recorded.addsNothing (h : Recorded capacity latencies requests bench) :
    Recorded capacity (latencies ++ []) (requests + 0) bench := by
  rw [List.append_nil, Int.add_zero]
  exact h

/-- What one call adds. -/
theorem Recorded.step (h : Recorded capacity latencies requests bench) (c : BenchCall) :
    Recorded capacity (latencies ++ if bench.doMeasure = 0 then [] else latencyOf c)
      (requests + if bench.doMeasure = 0 then 0 else requestsOf c) (performCall bench c) := by
  by_cases hidle : bench.doMeasure = 0
  · obtain ⟨hcontainer, hrequests⟩ := performCall_idle hidle c
    rw [if_pos hidle, if_pos hidle, List.append_nil, Int.add_zero]
    exact h.congr hcontainer hrequests (flag_performCall h.flag c)
  · rw [if_neg hidle, if_neg hidle]
    cases c with
    | start now =>
        rw [performCall, sbStart, if_pos hidle]
        exact h.addsNothing
    | stop now =>
        have hstopped : Recorded capacity latencies requests (sbStop bench now) :=
          h.congr rfl rfl (.inl rfl)
        exact hstopped.addsNothing
    | clientConnected =>
        have hcounted : Recorded capacity latencies requests (sbClientConnected bench) :=
          h.congr rfl rfl h.flag
        exact hcounted.addsNothing
    | requestsPerformed count =>
        change Recorded capacity (latencies ++ []) (requests + count.toInt)
          (sbRequestsPerformed bench count)
        rw [List.append_nil, sbRequestsPerformed, if_neg hidle]
        refine ⟨h.allotted, h.values_eq, ?_, h.flag⟩
        rw [UInt64.ofInt_add, ← h.requestNo_eq, toUInt64_eq, Int32.toInt_toInt64]
    | recordEvent start finish now =>
        have hrecorded := h.recordEvent hidle start finish now
        rw [← Int.add_zero requests] at hrecorded
        exact hrecorded

/-- What a sequence of calls adds. -/
theorem Recorded.run (h : Recorded capacity latencies requests bench) (calls : List BenchCall) :
    Recorded capacity (latencies ++ measuredLatencies bench calls)
      (requests + measuredRequests bench calls) (performCalls bench calls) := by
  induction calls generalizing bench latencies requests with
  | nil =>
      rw [measuredLatencies, measuredRequests, List.append_nil, Int.add_zero]
      exact h
  | cons c cs ih =>
      rw [measuredLatencies, measuredRequests, ← List.append_assoc, ← Int.add_assoc]
      exact ih (h.step c)

/-- Without a start nothing more is measured. -/
theorem performCalls_idle (hidle : bench.doMeasure = 0) {calls : List BenchCall}
    (hcalls : ∀ now, .start now ∉ calls) :
    (performCalls bench calls).eventLatency = bench.eventLatency ∧
      (performCalls bench calls).requestNo = bench.requestNo ∧
      (performCalls bench calls).doMeasure = 0 := by
  induction calls generalizing bench with
  | nil => exact ⟨rfl, rfl, hidle⟩
  | cons c cs ih =>
      have hstill : (performCall bench c).doMeasure = 0 := by
        cases c with
        | start now => exact absurd List.mem_cons_self (hcalls now)
        | stop now => rfl
        | clientConnected => exact hidle
        | requestsPerformed count => rw [performCall, sbRequestsPerformed, if_pos hidle, hidle]
        | recordEvent start finish now => rw [performCall, sbRecordEvent, if_pos hidle, hidle]
      obtain ⟨hcontainer, hrequests⟩ := performCall_idle hidle c
      have hrest := ih hstill fun now hmem => hcalls now (List.mem_cons_of_mem _ hmem)
      rw [hcontainer, hrequests] at hrest
      exact hrest

end Steps

section Runs

/-- What a bench for `n` events has kept after the calls, and what further calls
may do to it. -/
structure KeepsMeasured (n : Int32) (junk : Nat → UInt8) (calls : List BenchCall)
    (bench : ServerBench) : Prop where
  entries : values bench.eventLatency =
    (measuredLatencies (sbCreate n junk) calls).take n.toInt.toNat
  requests : bench.requestNo = UInt64.ofInt (measuredRequests (sbCreate n junk) calls)
  flag : bench.doMeasure = 0 ∨ bench.doMeasure = 1
  idle : bench.doMeasure = 0 → ∀ c, (performCall bench c).eventLatency = bench.eventLatency ∧
    (performCall bench c).requestNo = bench.requestNo
  full : bench.doMeasure = 1 → (values bench.eventLatency).length = n.toInt.toNat →
    ∀ (start finish now : Timespec) (after : List BenchCall), (∀ now, .start now ∉ after) →
      (performCalls bench (.recordEvent start finish now :: after)).eventLatency =
          bench.eventLatency ∧
        (performCalls bench (.recordEvent start finish now :: after)).requestNo =
          bench.requestNo ∧
        (performCalls bench (.recordEvent start finish now :: after)).doMeasure = 0

theorem keeps_measured {n : Int32} (hn : 0 ≤ n) (junk : Nat → UInt8) (calls : List BenchCall) :
    KeepsMeasured n junk calls (performCalls (sbCreate n junk) calls) := by
  have hrecorded := (recorded_create hn junk).run calls
  rw [List.nil_append, Int.zero_add] at hrecorded
  refine ⟨hrecorded.values_eq, hrecorded.requestNo_eq, hrecorded.flag, performCall_idle, ?_⟩
  intro hmeasures hlength start finish now after hafter
  have hnonzero : (performCalls (sbCreate n junk) calls).doMeasure ≠ 0 := by
    rw [hmeasures]
    decide
  have hfull := hrecorded.full_iff.mpr hlength
  have hstopped : performCall (performCalls (sbCreate n junk) calls)
      (.recordEvent start finish now) = sbStop (performCalls (sbCreate n junk) calls) now :=
    sbRecordEvent_of_full hnonzero hfull start finish now
  have hsplit : performCalls (performCalls (sbCreate n junk) calls)
      (.recordEvent start finish now :: after) =
        performCalls (sbStop (performCalls (sbCreate n junk) calls) now) after :=
    congrArg (fun bench => performCalls bench after) hstopped
  rw [hsplit]
  exact performCalls_idle rfl hafter

/-- A container for one event, filled twice. -/
theorem keeps_measured_restarted :
    KeepsMeasured 1 (fun _ => 0)
      [.start {}, .requestsPerformed 2, .recordEvent {} { tvNsec := 7 } {},
        .recordEvent {} { tvNsec := 8 } {}, .requestsPerformed 4, .start {},
        .requestsPerformed 8, .recordEvent {} { tvNsec := 9 } {}]
      (performCalls (sbCreate 1 fun _ => 0)
        [.start {}, .requestsPerformed 2, .recordEvent {} { tvNsec := 7 } {},
          .recordEvent {} { tvNsec := 8 } {}, .requestsPerformed 4, .start {},
          .requestsPerformed 8, .recordEvent {} { tvNsec := 9 } {}]) :=
  keeps_measured (by decide) _ _

end Runs

end EchoServers.BenchRuns
