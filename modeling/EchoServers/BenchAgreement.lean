import EchoServers.EpollEchoes
import EchoServers.PollEchoes
import EchoServers.UringBench

/-!
What the benches of the three servers hold when they are saved, as long as there is
room for all latencies.
-/

namespace EchoServers.BenchAgreement

open EchoServers.BenchJournal
open EchoServers.BenchRuns
open EchoServers.EchoTraffic
open EchoServers.HostLedger
open EchoServers.MeasContainer
open EchoServers.ServerBenchmark
open EchoServers.ServerUtils
open EchoServers.SocketKernel
open EchoServers.StateTriples
open EchoServers.TimeUtils
open EchoServers.UringMemory
open EchoServers.UringServer
open EchoServers.Utils

/-- The number of the events in the batches behind the one in which the timer came. -/
def behindTimer : List Served → List Nat → Nat
  | _, [] => 0
  | ks, n :: ns => if .timer ∈ ks.take n then ns.sum else behindTimer (ks.drop n) ns

section Batches

variable {m : Manner} {capacity : Nat} {ks pre rest : List Served} {ns : List Nat}

/-- While there is room, the events counted are those behind the timer. -/
theorem countedRequests_eq (hmeasuring : .timer ∈ pre ++ rest → Measuring m capacity (pre ++ rest))
    (hpre : .timer ∉ pre) (hsum : ns.sum = rest.length) :
    countedRequests m capacity (pre ++ rest) pre.length ns = behindTimer rest ns := by
  induction ns generalizing pre rest with
  | nil => rfl
  | cons n ns ih =>
      rw [List.sum_cons] at hsum
      rw [countedRequests, List.take_left, if_neg fun h => hpre h.1, Nat.zero_add, behindTimer]
      by_cases hmem : .timer ∈ rest.take n
      · have htimer : .timer ∈ pre ++ rest :=
          List.mem_append_right _ (List.take_subset _ _ hmem)
        have hwarm : .timer ∈ (pre ++ rest).take (pre.length + n) := by
          rw [List.take_length_add_append]
          exact List.mem_append_right _ hmem
        rw [if_pos hmem, countedRequests_running (hmeasuring htimer) hwarm]
      · have hsplit : pre ++ rest = (pre ++ rest.take n) ++ rest.drop n := by
          rw [List.append_assoc, List.take_append_drop]
        have hlength : pre.length + n = (pre ++ rest.take n).length := by
          rw [List.length_append, List.length_take]
          omega
        rw [if_neg hmem, hlength]
        rw [hsplit] at hmeasuring ⊢
        apply ih hmeasuring
        · rw [List.mem_append, not_or]
          exact ⟨hpre, hmem⟩
        · rw [List.length_drop]
          omega

/-- Batches of one event. -/
theorem behindTimer_replicate (ks : List Served) :
    behindTimer ks (List.replicate ks.length 1) = (warmedUp ks).length := by
  induction ks with
  | nil => rfl
  | cons k ks ih =>
      have hfirst : .timer ∈ (k :: ks).take 1 ↔ k = .timer :=
        List.mem_singleton.trans eq_comm
      rw [List.length_cons, List.replicate_succ, behindTimer, warmedUp]
      by_cases hk : k = .timer
      · rw [if_pos (hfirst.mpr hk), if_pos hk, List.sum_replicate_nat, Nat.mul_one]
      · rw [if_neg (mt hfirst.mp hk), if_neg hk]
        exact ih

/-- What is counted of the events behind the timer when one more is serviced. -/
theorem countP_warmedUp_append {k : Served} (hk : k ≠ .timer) (p : Served → Bool) :
    (warmedUp (ks ++ [k])).countP p =
      (warmedUp ks).countP p + if .timer ∈ ks ∧ p k = true then 1 else 0 := by
  by_cases hmem : .timer ∈ ks
  · rw [warmedUp_append hmem, List.countP_append, List.countP_singleton]
    simp only [hmem, true_and]
  · rw [warmedUp_of_notMem hmem, warmedUp_of_notMem (mt (timer_mem_append hk).mp hmem),
      if_neg fun h => hmem h.1, Nat.add_zero]

theorem warmedUp_suffix (ks : List Served) : warmedUp ks <:+ ks := by
  induction ks with
  | nil => exact List.suffix_refl _
  | cons k ks ih =>
      rw [warmedUp]
      split_ifs
      · exact List.suffix_cons k ks
      · exact ih.trans (List.suffix_cons k ks)

end Batches

section Journal

variable {m : Manner} {c : Int32} {junk : Nat → UInt8} {s₀ : Samples} {ks : List Served}
  {n : Nat} {t : Tally}

/-- The event brought a message. -/
def isMessage (k : Served) : Bool :=
  k.answered.isSome

theorem countP_timed (ks : List Served) :
    ks.countP Served.timed = ks.countP isMessage + ks.countP Served.ended := by
  induction ks with
  | nil => rfl
  | cons k ks ih =>
      rw [List.countP_cons, List.countP_cons, List.countP_cons, ih]
      cases k with
      | newClient | timer | other => rfl
      | message fd => exact Nat.add_right_comm _ _ 1
      | ending fd => exact (Nat.add_assoc _ _ 1).symm

/-- Only messages are timed where no end of a stream is read. -/
theorem countP_timed_of_none (hnone : ∀ k ∈ ks, k.ended = false) :
    (warmedUp ks).countP Served.timed = (warmedUp ks).countP isMessage := by
  have hended : (warmedUp ks).countP Served.ended = 0 := by
    apply List.countP_eq_zero.mpr
    intro k hk
    rw [hnone k ((warmedUp_suffix ks).subset hk)]
    exact Bool.false_ne_true
  rw [countP_timed, hended, Nat.add_zero]

/-- The messages echoed while the bench measures are those that came behind the
timer, as long as there is room. -/
theorem countP_measured (h : Journal m (.start (sbCreate c junk) s₀) ks n t) (hc : 0 ≤ c)
    (hbench : m.cfg.doServerSideBenchmarking = true)
    (hroom : (warmedUp ks).countP Served.timed ≤ c.toInt.toNat) :
    t.echoes.countP Measured = (warmedUp ks).countP isMessage := by
  induction h with
  | start => rfl
  | batch h n hn ih | accept h fd ih => exact ih hroom
  | newClient h ih | other h ih | ending h fd start finish now ih =>
      rw [countP_warmedUp_append (by simp)] at hroom ⊢
      rw [if_neg fun hcount => Bool.false_ne_true hcount.2]
      exact ih (Nat.le_of_add_right_le hroom)
  | timer h hfirst now ih =>
      rw [warmedUp_of_notMem hfirst] at ih
      rw [warmedUp_timer hfirst]
      exact ih (Nat.zero_le _)
  | @message ks n t h fd message start finish now ih =>
      rw [countP_warmedUp_append (by simp)] at hroom ⊢
      have hbefore := Nat.le_of_add_right_le hroom
      obtain ⟨latencies, requests, hbooks⟩ := h.books hc hbench
      change (t.echo fd message).echoes.countP Measured = _
      rw [countP_echoed, ih hbefore]
      congr 1
      by_cases hmem : .timer ∈ ks
      · rw [if_pos (hbooks.measures.mpr ⟨hmem, fun _ => hbefore⟩), if_pos ⟨hmem, rfl⟩]
      · rw [if_neg (not_not.mpr (hbooks.silent hmem)), if_neg fun hcount => hmem hcount.1]

/-- There is room in the container for one more latency. -/
def HasRoom (bench : ServerBench) : Prop :=
  bench.eventLatency.size ≠ bench.eventLatency.capacity

/-- The latencies stored, and the requests counted, when there is room. -/
theorem saved_of_journal (h : Journal m (.start (sbCreate c junk) s₀) ks 0 t) (hc : 0 ≤ c)
    (hmeasures : m.cfg.measuresLatency = true) (hroom : HasRoom t.bench) :
    t.bench.eventLatency.size.toNat = (warmedUp ks).countP Served.timed ∧
      t.echoes.countP Measured = (warmedUp ks).countP isMessage ∧
      ((∀ b ∈ t.batches, b < 2 ^ 31) →
        t.bench.requestNo = UInt64.ofNat (behindTimer ks t.batches)) := by
  have hbench : m.cfg.doServerSideBenchmarking = true := (Bool.and_eq_true _ _ ▸ hmeasures).1
  obtain ⟨latencies, requests, hbooks⟩ := h.books hc hbench
  have hstored := (h.accounted hc hbench).stored hmeasures
  have hless := mt hbooks.recorded.full_iff.mpr hroom
  rw [length_values] at hstored hless
  have hsize : t.bench.eventLatency.size.toNat = (warmedUp ks).countP Served.timed := by omega
  have hle : (warmedUp ks).countP Served.timed ≤ c.toInt.toNat := by omega
  refine ⟨hsize, countP_measured h hc hbench hle, fun hint => ?_⟩
  obtain ⟨hwhole, -, hrequests, -⟩ := h.countsRequests hc hbench hint
  rw [hrequests]
  have hmeasuring : .timer ∈ [] ++ ks → Measuring m c.toInt.toNat ([] ++ ks) :=
    fun hmem => ⟨hmem, fun _ => hle⟩
  exact congrArg UInt64.ofNat (countedRequests_eq hmeasuring List.not_mem_nil hwhole)

end Journal

section Saving

variable {ρ κ α : Type} [Inhabited ρ] {fileNull : Bool}

/-- The bench is `before`, stopped, and it is in the file. -/
def Saved (before bench : ServerBench) (file : Option String) : Prop :=
  (∃ now, bench = sbStop before now) ∧ ∃ text, sbSaveBench bench = some text ∧ file = some text

theorem exists_text (bench : ServerBench) (now : Timespec) :
    ∃ text, sbSaveBench (sbStop bench now) = some text :=
  ⟨_, if_neg (not_not.mpr rfl)⟩

theorem saved_of_hostStopBench {cfg : ServerConfig} {w w' : HostWorld ρ κ α}
    (hbench : cfg.doServerSideBenchmarking = true)
    (hrun : hostStopBench cfg fileNull w = .ok (⟨⟩, w')) :
    Saved w.bench w'.bench w'.benchFile := by
  have hstable : Stable fun v : HostWorld ρ κ α => v.bench = w.bench :=
    ⟨fun _ _ h => h, fun _ _ h => h⟩
  have hsaved : Triple (fun v => v.bench = w.bench)
      (hostStopBench cfg fileNull : Program (HostWorld ρ κ α) PUnit)
        fun _ v => Saved w.bench v.bench v.benchFile := by
    rw [hostStopBench, whenTrue_of hbench]
    refine (triple_hostNow hstable).bind fun now => ?_
    refine Triple.bind (Q := fun _ v => v.bench = sbStop w.bench now) ?_ fun _ => ?_
    · exact Triple.modify fun v hv => congrArg (sbStop · now) hv
    · refine Triple.get_bind fun v hv => ?_
      obtain ⟨text, htext⟩ := exists_text w.bench now
      rw [hv, htext]
      refine triple_assertNnull.bind fun _ => Triple.modify ?_
      rintro u ⟨rfl, -⟩
      exact ⟨⟨now, hv⟩, text, by rw [hv, htext], rfl⟩
  exact hsaved w rfl ⟨⟩ w' hrun

theorem saved_of_stopBench {cfg : Config} {w w' : World}
    (hbench : cfg.doServerSideBenchmarking = true)
    (hrun : stopBench cfg fileNull w = .ok (⟨⟩, w')) : Saved w.bench w'.bench w'.benchFile := by
  have hsaved : Triple (fun v => v.bench = w.bench) (stopBench cfg fileNull)
      fun _ v => Saved w.bench v.bench v.benchFile := by
    rw [stopBench, whenTrue_of hbench]
    refine (UringBench.quiet_nowMonotonic fun _ b _ => b = w.bench).bind fun now => ?_
    refine Triple.bind (Q := fun _ v => v.bench = sbStop w.bench now) ?_ fun _ => ?_
    · exact Triple.modify fun v hv => congrArg (sbStop · now) hv
    · refine Triple.get_bind fun v hv => ?_
      obtain ⟨text, htext⟩ := exists_text w.bench now
      rw [hv, htext]
      refine triple_assertNnull.bind fun _ => Triple.modify ?_
      rintro u ⟨rfl, -⟩
      exact ⟨⟨now, hv⟩, text, by rw [hv, htext], rfl⟩
  exact hsaved w rfl ⟨⟩ w' hrun

end Saving

section Servers

variable {c : Int32} {junk : Nat → UInt8} {s₀ : Samples} {fileNull : Bool}

/-- The bench was saved with so many latencies and so many requests. -/
structure Reports (bench : ServerBench) (file : Option String) (latencies requests : Nat) :
    Prop where
  saved : ∃ text, sbSaveBench bench = some text ∧ file = some text
  latencies_eq : bench.eventLatency.size.toNat = latencies
  requests_eq : bench.requestNo = UInt64.ofNat requests

theorem epoll_reports {cfg : ServerConfig} {w w' : EpollServer.EpollWorld} (hc : 0 ≤ c)
    (hmeasures : cfg.measuresLatency = true)
    (h : EpollEchoes.BenchReachable cfg (sbCreate c junk) s₀ w)
    (hstop : hostStopBench cfg fileNull w = .ok (⟨⟩, w')) (hroom : HasRoom w'.bench) :
    Reports w'.bench w'.benchFile (w.echoes.countP Measured)
      (behindTimer (w.app.dispatched.map EpollEchoes.served) w.batches) := by
  have hbench : cfg.doServerSideBenchmarking = true := (Bool.and_eq_true _ _ ▸ hmeasures).1
  obtain ⟨⟨now, hsame⟩, hsaved⟩ := saved_of_hostStopBench hbench hstop
  obtain ⟨-, -, hjournal, -⟩ := EpollEchoes.atTop_of_reachable lasting_true trivial h
  rw [hsame] at hroom hsaved ⊢
  obtain ⟨hsize, hechoes, hrequests⟩ := saved_of_journal hjournal hc hmeasures hroom
  have hint : ∀ b ∈ w.batches, b < 2 ^ 31 := fun b hb =>
    Nat.lt_of_lt_of_le (hjournal.batch_lt rfl b hb) (show 257 ≤ 2 ^ 31 by decide)
  refine ⟨hsaved, ?_, hrequests hint⟩
  refine hsize.trans ((countP_timed_of_none fun k hk => ?_).trans hechoes.symm)
  obtain ⟨d, -, rfl⟩ := List.mem_map.mp hk
  exact EpollEchoes.ended_served d

/-- The poll server times also the reads that find the end of a stream. -/
theorem poll_reports {cfg : ServerConfig} {w w' : PollServer.PollWorld} (hc : 0 ≤ c)
    (hmeasures : cfg.measuresLatency = true)
    (h : PollEchoes.BenchReachable cfg (sbCreate c junk) s₀ w)
    (hstop : hostStopBench cfg fileNull w = .ok (⟨⟩, w')) (hroom : HasRoom w'.bench)
    (hint : ∀ b ∈ w.batches, b < 2 ^ 31) :
    ∃ ks, List.Forall₂ PollEchoes.Fits w.app.dispatched ks ∧
      w.echoes.map Echo.fd = ks.filterMap Served.answered ∧
        w.kernel.closes = PollEchoes.closingsOf w.app.dispatched ks ∧
          Reports w'.bench w'.benchFile
            (w.echoes.countP Measured + (warmedUp ks).countP Served.ended)
            (behindTimer ks w.batches) := by
  have hbench : cfg.doServerSideBenchmarking = true := (Bool.and_eq_true _ _ ▸ hmeasures).1
  obtain ⟨⟨now, hsame⟩, hsaved⟩ := saved_of_hostStopBench hbench hstop
  obtain ⟨-, hflow⟩ := PollEchoes.atTop_of_reachable lasting_true trivial h
  obtain ⟨ks, hfits, hcloses, hjournal⟩ := hflow.noted
  rw [hsame] at hroom hsaved ⊢
  obtain ⟨hsize, hechoes, hrequests⟩ := saved_of_journal hjournal hc hmeasures hroom
  refine ⟨ks, hfits, hjournal.echoes, hcloses, hsaved, ?_, hrequests hint⟩
  rw [countP_timed, ← hechoes] at hsize
  exact hsize

theorem uring_reports {cfg : Config} {w w' : World} (hc : 0 ≤ c)
    (hmeasures : cfg.measuresLatency = true)
    (h : UringBench.BenchReachable cfg (sbCreate c junk) s₀ w)
    (hstop : stopBench cfg fileNull w = .ok (⟨⟩, w')) (hroom : HasRoom w'.bench) :
    Reports w'.bench w'.benchFile
      ((warmedUp (w.handled.map UringBench.served)).countP isMessage)
      (warmedUp (w.handled.map UringBench.served)).length := by
  have hbench : cfg.doServerSideBenchmarking = true := (Bool.and_eq_true _ _ ▸ hmeasures).1
  obtain ⟨⟨now, hsame⟩, hsaved⟩ := saved_of_stopBench hbench hstop
  obtain ⟨-, t, hjournal, hb, -, hbatches, -⟩ := UringBench.journaled_of_reachable h
  rw [hsame] at hroom hsaved ⊢
  rw [← hb] at hroom hsaved ⊢
  obtain ⟨hsize, -, hrequests⟩ := saved_of_journal hjournal hc hmeasures hroom
  have hint : ∀ b ∈ t.batches, b < 2 ^ 31 := fun b hb =>
    Nat.lt_of_lt_of_le (hjournal.batch_lt rfl b hb) (show 2 ≤ 2 ^ 31 by decide)
  refine ⟨hsaved, ?_, ?_⟩
  · refine hsize.trans (countP_timed_of_none fun k hk => ?_)
    obtain ⟨q, -, rfl⟩ := List.mem_map.mp hk
    unfold UringBench.served
    cases q.request.sqe.opcode with
    | _ => rfl
  · refine (hrequests hint).trans ?_
    have hlength : w.handled.length = (w.handled.map UringBench.served).length :=
      (List.length_map _).symm
    rw [hbatches, hlength, behindTimer_replicate]

end Servers

section Agreement

variable {c : Int32} {junk : Nat → UInt8} {s₀ : Samples}

/-- The requests counted are the messages whose latencies are stored. -/
def CountsMessages (bench : ServerBench) (messages : Nat) : Prop :=
  bench.requestNo = UInt64.ofNat messages ∧ bench.eventLatency.size.toNat = messages

instance (bench : ServerBench) (messages : Nat) : Decidable (CountsMessages bench messages) :=
  inferInstanceAs (Decidable (_ ∧ _))

instance (bench : ServerBench) : Decidable (HasRoom bench) :=
  inferInstanceAs (Decidable (_ ≠ _))

theorem stops_settled {α : Type} {x : Program α PUnit} {w : α} (h : (x w).isOk = true) :
    x w = .ok (⟨⟩, (settled x w ⟨⟩).2) :=
  run_settled h

/-- A client was accepted and its message echoed after the warm-up. -/
def epollWorld : EpollServer.EpollWorld :=
  (settled (EpollServer.serviceLoop smallServerConfig 3)
    (EpollEchoes.benchWorld smallServerConfig (sbCreate 4 fun _ => 0) {}
      [{ fd := 4, answer := [] }, { fd := 5, answer := [] }, { answer := [] }, { answer := [] },
        { answer := [] }, { arrivals := [.expire], answer := [5] }, { answer := [] },
        { answer := [] }, { arrivals := [.connect], answer := [3] }, { fd := 6, answer := [] },
        { ptr := 8, answer := [] }, { answer := [] }, { answer := [] },
        { arrivals := [.bytes 0 [1, 2]], answer := [6] }, { answer := [] }, { answer := [] },
        { limit := 2, answer := [] }, { answer := [] }, { answer := [] }]) ⟨⟩).2

theorem reachable_epollWorld :
    EpollEchoes.BenchReachable smallServerConfig (sbCreate 4 fun _ => 0) {} epollWorld :=
  ⟨_, 3, _, [], run_settled (by decide +kernel), rfl⟩

def pollWorld : PollServer.PollWorld :=
  (settled (PollServer.serviceLoop smallServerConfig false false 3)
    (PollEchoes.benchWorld smallServerConfig (sbCreate 4 fun _ => 0) {}
      [{ fd := 5, answer := {} }, { answer := {} }, { answer := {} }, { answer := {} },
        { arrivals := [.expire], answer := {} }, { answer := {} }, { answer := {} },
        { arrivals := [.connect], answer := {} }, { fd := 6, answer := {} },
        { ptr := 8, answer := {} }, { answer := {} },
        { arrivals := [.bytes 0 [1, 2]], answer := {} }, { answer := {} }, { answer := {} },
        { limit := 2, answer := {} }, { answer := {} }, { answer := {} }]) ⟨⟩).2

theorem reachable_pollWorld :
    PollEchoes.BenchReachable smallServerConfig (sbCreate 4 fun _ => 0) {} pollWorld :=
  ⟨false, false, _, 3, _, [], run_settled (by decide +kernel), rfl⟩

/-- The bench of the server is saved. -/
def savedEpoll : EpollServer.EpollWorld :=
  (settled (hostStopBench smallServerConfig false) epollWorld ⟨⟩).2

theorem stops_epollWorld :
    hostStopBench smallServerConfig false epollWorld = .ok (⟨⟩, savedEpoll) := by
  unfold savedEpoll
  exact stops_settled (by decide +kernel)

def savedPoll : PollServer.PollWorld :=
  (settled (hostStopBench smallServerConfig false) pollWorld ⟨⟩).2

theorem stops_pollWorld :
    hostStopBench smallServerConfig false pollWorld = .ok (⟨⟩, savedPoll) := by
  unfold savedPoll
  exact stops_settled (by decide +kernel)

def savedUring : World :=
  (settled (stopBench UringBench.measuredConfig false) UringBench.measuredWorld ⟨⟩).2

theorem stops_measuredWorld :
    stopBench UringBench.measuredConfig false UringBench.measuredWorld = .ok (⟨⟩, savedUring) := by
  unfold savedUring
  exact stops_settled (by decide +kernel)

theorem not_counts_messages :
    (¬ ∀ (cfg : ServerConfig) (w w' : EpollServer.EpollWorld), cfg.measuresLatency = true →
      EpollEchoes.BenchReachable cfg (sbCreate 4 fun _ => 0) {} w →
      hostStopBench cfg false w = .ok (⟨⟩, w') → HasRoom w'.bench →
        CountsMessages w'.bench (w.echoes.countP Measured)) ∧
    (¬ ∀ (cfg : ServerConfig) (w w' : PollServer.PollWorld), cfg.measuresLatency = true →
      PollEchoes.BenchReachable cfg (sbCreate 4 fun _ => 0) {} w →
      hostStopBench cfg false w = .ok (⟨⟩, w') → HasRoom w'.bench →
        CountsMessages w'.bench (w.echoes.countP Measured)) ∧
    ¬ ∀ (cfg : Config) (w w' : World), cfg.measuresLatency = true →
      UringBench.BenchReachable cfg (sbCreate 4 fun _ => 0) {} w →
      stopBench cfg false w = .ok (⟨⟩, w') → HasRoom w'.bench →
        CountsMessages w'.bench
          ((warmedUp (w.handled.map UringBench.served)).countP isMessage) := by
  refine ⟨fun hall => ?_, fun hall => ?_, fun hall => ?_⟩
  · have hcounts := hall smallServerConfig epollWorld savedEpoll rfl reachable_epollWorld
      stops_epollWorld (by decide +kernel)
    revert hcounts
    decide +kernel
  · have hcounts := hall smallServerConfig pollWorld savedPoll rfl reachable_pollWorld
      stops_pollWorld (by decide +kernel)
    revert hcounts
    decide +kernel
  · have hcounts := hall UringBench.measuredConfig UringBench.measuredWorld savedUring rfl
      UringBench.reachable_measuredWorld stops_measuredWorld (by decide +kernel)
    revert hcounts
    decide +kernel

/-- With room for all latencies, the epoll server and the io_uring server save one
for each message echoed while the bench measured, and the poll server also one for
each end of a stream that it read in that time.  The requests are not messages: the
two servers that wait for readiness count the events of the batches behind the one
of the timer, and the io_uring server counts the CQEs behind that of the timer. -/
theorem bench_reports (hc : 0 ≤ c) :
    (∀ (cfg : ServerConfig) (fileNull : Bool) (w w' : EpollServer.EpollWorld),
      cfg.measuresLatency = true → EpollEchoes.BenchReachable cfg (sbCreate c junk) s₀ w →
      hostStopBench cfg fileNull w = .ok (⟨⟩, w') → HasRoom w'.bench →
        Reports w'.bench w'.benchFile (w.echoes.countP Measured)
          (behindTimer (w.app.dispatched.map EpollEchoes.served) w.batches)) ∧
    (∀ (cfg : ServerConfig) (fileNull : Bool) (w w' : PollServer.PollWorld),
      cfg.measuresLatency = true → PollEchoes.BenchReachable cfg (sbCreate c junk) s₀ w →
      hostStopBench cfg fileNull w = .ok (⟨⟩, w') → HasRoom w'.bench →
      -- `ppoll` returns an `int`
      (∀ b ∈ w.batches, b < 2 ^ 31) →
        ∃ ks, List.Forall₂ PollEchoes.Fits w.app.dispatched ks ∧
          w.echoes.map Echo.fd = ks.filterMap Served.answered ∧
            w.kernel.closes = PollEchoes.closingsOf w.app.dispatched ks ∧
              Reports w'.bench w'.benchFile
                (w.echoes.countP Measured + (warmedUp ks).countP Served.ended)
                (behindTimer ks w.batches)) ∧
    ∀ (cfg : Config) (fileNull : Bool) (w w' : World),
      cfg.measuresLatency = true → UringBench.BenchReachable cfg (sbCreate c junk) s₀ w →
      stopBench cfg fileNull w = .ok (⟨⟩, w') → HasRoom w'.bench →
        Reports w'.bench w'.benchFile
          ((warmedUp (w.handled.map UringBench.served)).countP isMessage)
          (warmedUp (w.handled.map UringBench.served)).length := by
  refine ⟨?_, ?_, ?_⟩
  · intro cfg fileNull w w' hmeasures h hstop hroom
    exact epoll_reports hc hmeasures h hstop hroom
  · intro cfg fileNull w w' hmeasures h hstop hroom hint
    exact poll_reports hc hmeasures h hstop hroom hint
  · intro cfg fileNull w w' hmeasures h hstop hroom
    exact uring_reports hc hmeasures h hstop hroom

theorem bench_reports_saved :
    Reports savedEpoll.bench savedEpoll.benchFile (epollWorld.echoes.countP Measured)
        (behindTimer (epollWorld.app.dispatched.map EpollEchoes.served) epollWorld.batches) ∧
      (∃ ks, List.Forall₂ PollEchoes.Fits pollWorld.app.dispatched ks ∧
        pollWorld.echoes.map Echo.fd = ks.filterMap Served.answered ∧
          pollWorld.kernel.closes = PollEchoes.closingsOf pollWorld.app.dispatched ks ∧
            Reports savedPoll.bench savedPoll.benchFile
              (pollWorld.echoes.countP Measured + (warmedUp ks).countP Served.ended)
              (behindTimer ks pollWorld.batches)) ∧
      Reports savedUring.bench savedUring.benchFile
        ((warmedUp (UringBench.measuredWorld.handled.map UringBench.served)).countP isMessage)
        (warmedUp (UringBench.measuredWorld.handled.map UringBench.served)).length := by
  have hc : (0 : Int32) ≤ 4 := by decide
  obtain ⟨hepoll, hpoll, huring⟩ := @bench_reports 4 (fun _ => 0) {} hc
  refine ⟨?_, ?_, ?_⟩
  · exact hepoll smallServerConfig false epollWorld savedEpoll rfl reachable_epollWorld
      stops_epollWorld (by decide +kernel)
  · exact hpoll smallServerConfig false pollWorld savedPoll rfl reachable_pollWorld
      stops_pollWorld (by decide +kernel) (by decide +kernel)
  · exact huring UringBench.measuredConfig false UringBench.measuredWorld savedUring rfl
      UringBench.reachable_measuredWorld stops_measuredWorld (by decide +kernel)

end Agreement

end EchoServers.BenchAgreement
