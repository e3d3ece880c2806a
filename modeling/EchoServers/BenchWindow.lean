import EchoServers.BenchRuns
import Mathlib.Data.List.Induction

namespace EchoServers.BenchWindow

open EchoServers.BenchRuns
open EchoServers.MeasContainer
open EchoServers.ServerBenchmark
open EchoServers.TimespecDelta
open EchoServers.TimeUtils

/-- The reading of the clock that a call may take. -/
def clockReading : BenchCall → Option Timespec
  | .start now => some now
  | .stop now => some now
  | .recordEvent _ _ now => some now
  | .clientConnected => none
  | .requestsPerformed _ => none

def readingOf (c : BenchCall) : Timespec :=
  (clockReading c).getD {}

/-- The clock does not go back. -/
def ClockForward (calls : List BenchCall) : Prop :=
  (calls.filterMap clockReading).Pairwise fun earlier later => timespecLt later earlier = false

/-- The readings at the calls that turned `do_measure` from 0 to 1. -/
def turnedOn (bench : ServerBench) : List BenchCall → List Timespec
  | [] => []
  | c :: cs =>
      (if bench.doMeasure = 0 ∧ (performCall bench c).doMeasure ≠ 0 then [readingOf c] else []) ++
        turnedOn (performCall bench c) cs

/-- The readings at the calls that turned it back. -/
def turnedOff (bench : ServerBench) : List BenchCall → List Timespec
  | [] => []
  | c :: cs =>
      (if bench.doMeasure ≠ 0 ∧ (performCall bench c).doMeasure = 0 then [readingOf c] else []) ++
        turnedOff (performCall bench c) cs

/-- In every state after measuring has ended, the bench holds the window. -/
def WindowExact (bench : ServerBench) (calls : List BenchCall) : Prop :=
  ∀ done rest, calls = done ++ rest → turnedOff bench done ≠ [] →
    turnedOn bench done = [(performCalls bench done).measStartTime] ∧
      turnedOff bench done = [(performCalls bench done).measEndTime] ∧
      (performCalls bench done).requestNo =
        bench.requestNo + UInt64.ofInt (measuredRequests bench done)

/-- A stop that comes after the end of measuring reads the clock as the call
that ended it did. -/
def StopsAgree (bench : ServerBench) (calls : List BenchCall) : Prop :=
  ∀ done now rest, calls = done ++ .stop now :: rest →
    (performCalls bench done).doMeasure = 0 → ∀ ended ∈ turnedOff bench done, now = ended

section Append

variable {bench : ServerBench} {c : BenchCall} {calls : List BenchCall}

theorem performCalls_append_singleton (bench : ServerBench) (calls : List BenchCall)
    (c : BenchCall) :
    performCalls bench (calls ++ [c]) = performCall (performCalls bench calls) c := by
  rw [performCalls, List.foldl_append]
  rfl

theorem turnedOn_append_singleton (bench : ServerBench) (calls : List BenchCall) (c : BenchCall) :
    turnedOn bench (calls ++ [c]) = turnedOn bench calls ++
      if (performCalls bench calls).doMeasure = 0 ∧
        (performCall (performCalls bench calls) c).doMeasure ≠ 0 then [readingOf c] else [] := by
  induction calls generalizing bench with
  | nil => exact List.append_nil _
  | cons c' cs ih =>
      rw [List.cons_append, turnedOn, turnedOn, ih, List.append_assoc]
      rfl

theorem turnedOff_append_singleton (bench : ServerBench) (calls : List BenchCall)
    (c : BenchCall) :
    turnedOff bench (calls ++ [c]) = turnedOff bench calls ++
      if (performCalls bench calls).doMeasure ≠ 0 ∧
        (performCall (performCalls bench calls) c).doMeasure = 0 then [readingOf c] else [] := by
  induction calls generalizing bench with
  | nil => exact List.append_nil _
  | cons c' cs ih =>
      rw [List.cons_append, turnedOff, turnedOff, ih, List.append_assoc]
      rfl

theorem measuredRequests_append_singleton (bench : ServerBench) (calls : List BenchCall)
    (c : BenchCall) :
    measuredRequests bench (calls ++ [c]) = measuredRequests bench calls +
      if (performCalls bench calls).doMeasure = 0 then 0 else requestsOf c := by
  induction calls generalizing bench with
  | nil => exact Int.add_comm _ _
  | cons c' cs ih =>
      rw [List.cons_append, measuredRequests, measuredRequests, ih, Int.add_assoc]
      rfl

end Append

section Steps

variable {bench : ServerBench} {calls done : List BenchCall} {c : BenchCall}

/-- What a call does to the flag and to the window. -/
inductive Outcome (bench : ServerBench) (c : BenchCall) (bench' : ServerBench) : Prop where
  | on (now : Timespec) (hcall : c = .start now) (hidle : bench.doMeasure = 0)
      (hflag : bench'.doMeasure = 1) (hstart : bench'.measStartTime = now)
  | off (hcall : bench.doMeasure ≠ 0 ∨ ∃ now, c = .stop now) (hflag : bench'.doMeasure = 0)
      (hstart : bench'.measStartTime = bench.measStartTime)
      (hend : bench'.measEndTime = readingOf c)
  | same (hcall : ∀ now, c ≠ .stop now) (hflag : bench'.doMeasure = bench.doMeasure)
      (hstart : bench'.measStartTime = bench.measStartTime)
      (hend : bench'.measEndTime = bench.measEndTime)

theorem outcome_performCall (bench : ServerBench) (c : BenchCall) :
    Outcome bench c (performCall bench c) := by
  cases c with
  | start now =>
      by_cases hidle : bench.doMeasure = 0
      · rw [performCall, sbStart, if_neg (not_not.mpr hidle)]
        exact .on now rfl hidle rfl rfl
      · rw [performCall, sbStart, if_pos hidle]
        exact .same (by simp) rfl rfl rfl
  | stop now => exact .off (.inr ⟨now, rfl⟩) rfl rfl rfl
  | clientConnected => exact .same (by simp) rfl rfl rfl
  | requestsPerformed count =>
      rw [performCall, sbRequestsPerformed]
      split
      · exact .same (by simp) rfl rfl rfl
      · exact .same (by simp) rfl rfl rfl
  | recordEvent start finish now =>
      by_cases hidle : bench.doMeasure = 0
      · rw [performCall, sbRecordEvent, if_pos hidle]
        exact .same (by simp) rfl rfl rfl
      · rw [performCall, sbRecordEvent, if_neg hidle]
        dsimp only
        split
        · exact .off (.inl hidle) rfl rfl rfl
        · exact .same (by simp) rfl rfl rfl

theorem requestNo_performCall (bench : ServerBench) (c : BenchCall) :
    (performCall bench c).requestNo =
      bench.requestNo + UInt64.ofInt (if bench.doMeasure = 0 then 0 else requestsOf c) := by
  have hzero : UInt64.ofInt 0 = 0 := rfl
  by_cases hidle : bench.doMeasure = 0
  · rw [(performCall_idle hidle c).2, if_pos hidle, hzero, UInt64.add_zero]
  · rw [if_neg hidle]
    cases c with
    | start now =>
        rw [performCall, sbStart, if_pos hidle]
        exact (UInt64.add_zero _).symm
    | stop now => exact (UInt64.add_zero _).symm
    | clientConnected => exact (UInt64.add_zero _).symm
    | requestsPerformed count =>
        rw [performCall, sbRequestsPerformed, if_neg hidle, requestsOf, toUInt64_eq,
          Int32.toInt_toInt64]
    | recordEvent start finish now =>
        rw [performCall, sbRecordEvent, if_neg hidle]
        dsimp only
        split
        · exact (UInt64.add_zero _).symm
        · exact (UInt64.add_zero _).symm

theorem requestNo_performCalls (bench : ServerBench) (calls : List BenchCall) :
    (performCalls bench calls).requestNo =
      bench.requestNo + UInt64.ofInt (measuredRequests bench calls) := by
  induction calls using List.reverseRecOn with
  | nil => exact (UInt64.add_zero _).symm
  | append_singleton calls c ih =>
      rw [performCalls_append_singleton, requestNo_performCall, ih,
        measuredRequests_append_singleton, UInt64.ofInt_add, UInt64.add_assoc]

theorem StopsAgree.of_append {rest : List BenchCall} (h : StopsAgree bench (done ++ rest)) :
    StopsAgree bench done := by
  intro done' now rest' heq
  apply h done' now (rest' ++ rest)
  rw [heq, List.append_assoc]
  rfl

/-- Where the calls have got to, when measuring is started once. -/
inductive Phase (bench : ServerBench) (done : List BenchCall) : Prop where
  | idle (hflag : (performCalls bench done).doMeasure = 0) (hon : turnedOn bench done = [])
      (hoff : turnedOff bench done = [])
  | measuring (started : Timespec) (hflag : (performCalls bench done).doMeasure ≠ 0)
      (hon : turnedOn bench done = [started]) (hoff : turnedOff bench done = [])
      (hstart : (performCalls bench done).measStartTime = started)
  | ended (started stopped : Timespec) (hflag : (performCalls bench done).doMeasure = 0)
      (hon : turnedOn bench done = [started]) (hoff : turnedOff bench done = [stopped])
      (hstart : (performCalls bench done).measStartTime = started)
      (hend : StopsAgree bench done → (performCalls bench done).measEndTime = stopped)

/-- A call that leaves the flag alone turns nothing. -/
theorem turned_of_same (hflag : (performCall (performCalls bench done) c).doMeasure =
    (performCalls bench done).doMeasure) :
    turnedOn bench (done ++ [c]) = turnedOn bench done ∧
      turnedOff bench (done ++ [c]) = turnedOff bench done := by
  rw [turnedOn_append_singleton, turnedOff_append_singleton, hflag, if_neg (by simp),
    if_neg (by simp), List.append_nil, List.append_nil]
  exact ⟨rfl, rfl⟩

theorem Phase.step (h : Phase bench done) (c : BenchCall)
    (hone : (turnedOn bench (done ++ [c])).length ≤ 1) : Phase bench (done ++ [c]) := by
  have hstep := outcome_performCall (performCalls bench done) c
  have hrun := performCalls_append_singleton bench done c
  have hturnsOn := turnedOn_append_singleton bench done c
  have hturnsOff := turnedOff_append_singleton bench done c
  cases hstep with
  | on now hcall hidle hflag hstart =>
      have hnonzero : (performCall (performCalls bench done) c).doMeasure ≠ 0 := by
        rw [hflag]
        decide
      rw [if_pos ⟨hidle, hnonzero⟩] at hturnsOn
      rw [if_neg (by simp [hidle]), List.append_nil] at hturnsOff
      cases h with
      | idle hflag' hon hoff =>
          subst hcall
          refine .measuring now (hrun ▸ hnonzero) ?_ (hturnsOff.trans hoff) (hrun ▸ hstart)
          rw [hturnsOn, hon]
          rfl
      | measuring started hflag' hon hoff hstart' => exact absurd hidle hflag'
      | ended started stopped hflag' hon hoff hstart' hend =>
          rw [hturnsOn, hon] at hone
          exact absurd hone (by simp)
  | off hcall hflag hstart hend =>
      rw [if_neg (by simp [hflag]), List.append_nil] at hturnsOn
      cases h with
      | idle hflag' hon hoff =>
          rw [if_neg (by simp [hflag']), List.append_nil] at hturnsOff
          exact .idle (hrun ▸ hflag) (hturnsOn.trans hon) (hturnsOff.trans hoff)
      | measuring started hflag' hon hoff hstart' =>
          rw [if_pos ⟨hflag', hflag⟩, hoff] at hturnsOff
          exact .ended started (readingOf c) (hrun ▸ hflag) (hturnsOn.trans hon) hturnsOff
            (hrun ▸ hstart.trans hstart') fun _ => hrun ▸ hend
      | ended started stopped hflag' hon hoff hstart' hend' =>
          rw [if_neg (by simp [hflag']), List.append_nil] at hturnsOff
          refine .ended started stopped (hrun ▸ hflag) (hturnsOn.trans hon) (hturnsOff.trans hoff)
            (hrun ▸ hstart.trans hstart') fun hagree => ?_
          obtain ⟨now, rfl⟩ := hcall.resolve_left (not_not.mpr hflag')
          rw [hrun, hend]
          exact hagree done now [] rfl hflag' stopped (hoff ▸ List.mem_singleton_self stopped)
  | same hcall hflag hstart hend =>
      obtain ⟨hsameOn, hsameOff⟩ := turned_of_same hflag
      cases h with
      | idle hflag' hon hoff =>
          exact .idle (hrun ▸ hflag.trans hflag') (hsameOn.trans hon) (hsameOff.trans hoff)
      | measuring started hflag' hon hoff hstart' =>
          rw [← hflag, ← hrun] at hflag'
          exact .measuring started hflag' (hsameOn.trans hon) (hsameOff.trans hoff)
            (hrun ▸ hstart.trans hstart')
      | ended started stopped hflag' hon hoff hstart' hend' =>
          exact .ended started stopped (hrun ▸ hflag.trans hflag') (hsameOn.trans hon)
            (hsameOff.trans hoff) (hrun ▸ hstart.trans hstart') fun hagree =>
              hrun ▸ hend.trans (hend' hagree.of_append)

theorem phase_of_prefix (hflag : bench.doMeasure = 0) (done : List BenchCall)
    (hone : (turnedOn bench done).length ≤ 1) : Phase bench done := by
  induction done using List.reverseRecOn with
  | nil => exact .idle hflag rfl rfl
  | append_singleton done c ih =>
      refine (ih ?_).step c hone
      rw [turnedOn_append_singleton, List.length_append] at hone
      omega

theorem turnedOn_append (bench : ServerBench) (done rest : List BenchCall) :
    turnedOn bench (done ++ rest) =
      turnedOn bench done ++ turnedOn (performCalls bench done) rest := by
  induction done generalizing bench with
  | nil => rfl
  | cons c cs ih =>
      rw [List.cons_append, turnedOn, turnedOn, ih, List.append_assoc]
      rfl

end Steps

section Windows

variable {n : Int32} {junk : Nat → UInt8} {calls : List BenchCall}

theorem length_turnedOn_le {bench : ServerBench} {done rest : List BenchCall}
    (hone : (turnedOn bench (done ++ rest)).length = 1) : (turnedOn bench done).length ≤ 1 := by
  rw [turnedOn_append, List.length_append] at hone
  omega

/-- The window is exact as far as no stop after the end of measuring moves it. -/
theorem window_exact_iff (hone : (turnedOn (sbCreate n junk) calls).length = 1) :
    WindowExact (sbCreate n junk) calls ↔ StopsAgree (sbCreate n junk) calls := by
  constructor
  · intro hexact done now rest heq hidle stopped hstopped
    have hlength : (turnedOn (sbCreate n junk) done).length ≤ 1 :=
      length_turnedOn_le (heq ▸ hone)
    have hrun := performCalls_append_singleton (sbCreate n junk) done (.stop now)
    have hsame := turnedOff_append_singleton (sbCreate n junk) done (.stop now)
    rw [if_neg (by simp [hidle]), List.append_nil] at hsame
    have hnonempty : turnedOff (sbCreate n junk) (done ++ [.stop now]) ≠ [] := by
      rw [hsame]
      exact List.ne_nil_of_mem hstopped
    obtain ⟨-, hoff, -⟩ := hexact (done ++ [.stop now]) rest (by rw [heq]; simp) hnonempty
    rw [hsame, hrun] at hoff
    rw [hoff] at hstopped
    exact (List.mem_singleton.mp hstopped).symm
  · intro hagree done rest heq hended
    have hlength : (turnedOn (sbCreate n junk) done).length ≤ 1 :=
      length_turnedOn_le (heq ▸ hone)
    have hrequests := requestNo_performCalls (sbCreate n junk) done
    cases phase_of_prefix rfl done hlength with
    | idle hflag hon hoff => exact absurd hoff hended
    | measuring started hflag hon hoff hstart => exact absurd hoff hended
    | ended started stopped hflag hon hoff hstart hend =>
        have hprefix : StopsAgree (sbCreate n junk) done := by
          rw [heq] at hagree
          exact hagree.of_append
        exact ⟨hstart ▸ hon, (hend hprefix) ▸ hoff, hrequests⟩

theorem window_exact_iff_stopped :
    WindowExact (sbCreate 1 fun _ => 0)
        [.start { tvSec := 1 }, .requestsPerformed 2, .stop { tvSec := 4 }, .clientConnected] ↔
      StopsAgree (sbCreate 1 fun _ => 0)
        [.start { tvSec := 1 }, .requestsPerformed 2, .stop { tvSec := 4 }, .clientConnected] :=
  window_exact_iff (by decide)

/-- A container for one event, full at the second one; the server stops later. -/
def fullThenStopped : List BenchCall :=
  [.start { tvSec := 1 }, .recordEvent {} {} { tvSec := 2 }, .recordEvent {} {} { tvSec := 3 },
    .stop { tvSec := 9 }]

theorem not_window_exact :
    ¬ ∀ (n : Int32) (junk : Nat → UInt8) (calls : List BenchCall), ClockForward calls →
      (turnedOn (sbCreate n junk) calls).length = 1 → WindowExact (sbCreate n junk) calls := by
  intro h
  have hforward : ClockForward fullThenStopped := by
    unfold ClockForward
    decide
  have hexact := h 1 (fun _ => 0) fullThenStopped hforward (by decide)
  have hended : turnedOff (sbCreate 1 fun _ => 0) fullThenStopped = [{ tvSec := 3 }] := by decide
  have hmoved : (performCalls (sbCreate 1 fun _ => 0) fullThenStopped).measEndTime =
      { tvSec := 9 } := by decide
  have hoff := (hexact fullThenStopped [] (List.append_nil _).symm (by simp [hended])).2.1
  rw [hended, hmoved] at hoff
  revert hoff
  decide

end Windows

end EchoServers.BenchWindow
