import EchoServers.ServerUtils

/-!
What the calls of a server that waits for readiness do to the things a run has
to account for: open files, registrations, connection structures.
-/

namespace EchoServers.HostLedger

open EchoServers.ServerBenchmark
open EchoServers.ServerUtils
open EchoServers.SocketKernel
open EchoServers.StateTriples
open EchoServers.TimeUtils
open EchoServers.Utils

variable {ρ κ χ α β : Type}

section Stable

/-- Nothing that happens outside of the server changes the property. -/
structure Stable (P : HostWorld ρ κ α → Prop) : Prop where
  arrive : ∀ w a, P w → P (w.arrive a)
  sched : ∀ w s, P w → P { w with sched := s }

theorem Stable.arrivals {P : HostWorld ρ κ α → Prop} (h : Stable P) {w : HostWorld ρ κ α}
    (hw : P w) (arrivals : List Arrival) : P (arrivals.foldl HostWorld.arrive w) := by
  induction arrivals generalizing w with
  | nil => exact hw
  | cons a as ih => exact ih (h.arrive w a hw)

variable {P R : HostWorld ρ κ α → Prop} [Inhabited ρ]

theorem triple_hostYield (h : Stable P) :
    Triple P (hostYield : Program (HostWorld ρ κ α) (HostTick ρ)) fun _ => P := by
  apply Triple.modifyGet
  intro w hw
  cases w.sched with
  | nil => exact hw
  | cons t ts => exact h.arrivals (h.sched w ts hw) _

theorem triple_hostNow (h : Stable P) :
    Triple P (hostNow : Program (HostWorld ρ κ α) _) fun _ => P :=
  (triple_hostYield h).bind fun _ => Triple.pure _ fun _ hw => hw

theorem triple_hostStart (h : Stable P) (cfg : ServerConfig) :
    Triple P (hostStart cfg : Program (HostWorld ρ κ α) _) fun _ => P :=
  Triple.ite (fun _ => triple_hostNow h) fun _ => Triple.pure _ fun _ hw => hw

/-- The state in which the kernel closes the descriptor. -/
theorem triple_hostClose (h : Stable P) (fd : Fd) :
    Triple P (hostClose fd : Program (HostWorld ρ κ α) Int) fun rc w' =>
      ∃ w, P w ∧ rc = (w.kernel.close fd).1 ∧
        w' = { w with kernel := (w.kernel.close fd).2 } := by
  refine (triple_hostYield h).bind fun _ => Triple.get_bind fun w hw => ?_
  apply Triple.modify_bind
  apply Triple.pure
  rintro w' rfl
  exact ⟨w, hw, rfl, rfl⟩

theorem triple_acceptClient (h : Stable P) (ls : Fd) :
    Triple P (acceptClient ls : Program (HostWorld ρ κ α) Fd) fun fd w' =>
      ∃ w, P w ∧
        ((fd = -1 ∧ w.kernel.backlog = [] ∧
            w' = { w with accepts := w.accepts ++ [-1] }) ∨
          ∃ c rest, w.kernel.backlog = c :: rest ∧ 0 ≤ fd ∧ w.kernel.files fd = none ∧
            w' = { w with
              kernel := { w.kernel with
                files := Function.update w.kernel.files fd (some (.socket c))
                backlog := rest }
              accepts := w.accepts ++ [fd] }) := by
  refine (triple_hostYield h).bind fun t => Triple.get_bind fun w hw => ?_
  cases hbacklog : w.kernel.backlog with
  | nil =>
      simp only [Kernel.accept4, hbacklog]
      apply Triple.modify_bind
      apply Triple.pure
      rintro w' rfl
      exact ⟨w, hw, .inl ⟨rfl, hbacklog, rfl⟩⟩
  | cons c rest =>
      simp only [Kernel.accept4, hbacklog]
      by_cases hfree : 0 ≤ t.fd ∧ w.kernel.files t.fd = none
      · rw [if_pos hfree]
        apply Triple.modify_bind
        apply Triple.pure
        rintro w' rfl
        exact ⟨w, hw, .inr ⟨c, rest, hbacklog, hfree.1, hfree.2, rfl⟩⟩
      · rw [if_neg hfree]
        exact triple_exitFailure _

theorem triple_allocCon (h : Stable P) (init : κ) :
    Triple P (allocCon init : Program (HostWorld ρ κ α) Ptr) fun p w' =>
      ∃ w, P w ∧
        ((p = 0 ∧ w' = w) ∨
          (3 ≤ p ∧ w.cons p = none ∧
            w' = { w with cons := Function.update w.cons p (some init) })) := by
  refine (triple_hostYield h).bind fun t => Triple.get_bind fun w hw => ?_
  apply Triple.ite
  · intro _
    apply Triple.pure
    rintro w' rfl
    exact ⟨w', hw, .inl ⟨rfl, rfl⟩⟩
  · intro hnew
    rw [not_or, Nat.not_lt, Bool.not_eq_true, Option.isSome_eq_false_iff,
      Option.isNone_iff_eq_none] at hnew
    apply Triple.modify_bind
    apply Triple.pure
    rintro w' rfl
    exact ⟨w, hw, .inr ⟨hnew.1, hnew.2, rfl⟩⟩

theorem triple_createWarmupTimer {R : Fd → HostWorld ρ κ α → Prop} (h : Stable P)
    (hR : ∀ w fd, P w → 0 ≤ fd → w.kernel.files fd = none → R fd
      { w with kernel := { w.kernel with
        files := Function.update w.kernel.files fd (some .timer), timerExpired := false } })
    (hstable : ∀ fd, Stable (R fd)) :
    Triple P (createWarmupTimer : Program (HostWorld ρ κ α) Fd) R := by
  refine (triple_hostYield h).bind fun t => Triple.get_bind fun w hw => ?_
  apply Triple.ite
  · intro _
    exact triple_exitFailure _
  · intro hnew
    rw [not_or, not_or, Int.not_lt, Bool.not_eq_true (Option.isSome _),
      Option.isSome_eq_false_iff, Option.isNone_iff_eq_none] at hnew
    apply Triple.modify_bind
    have hopened := hR w t.fd hw hnew.2.1 hnew.2.2
    refine ((triple_hostYield (hstable t.fd)).pre ?_).bind fun s => ?_
    · rintro w' rfl
      exact hopened
    · exact triple_assertZero.bind fun _ => Triple.pure _ fun _ hw => hw.1

/-- A message is read and echoed, or nothing is read at the end of the stream. -/
theorem triple_readNEcho {R : List Octet → HostWorld ρ κ α → Prop} (h : Stable P)
    (cfg : ServerConfig) (fd : Fd) (buf : List Octet)
    (hread : ∀ w c data, P w → w.kernel.files fd = some (.socket c) →
      data = (w.kernel.conns c).unread.take buf.length →
      ((w.kernel.conns c).unread = [] → (w.kernel.conns c).eos = true) →
      R data { w with kernel := w.kernel.updateConn c fun con =>
        { con with unread := con.unread.drop buf.length } })
    (hR : ∀ data, Stable (R data)) :
    Triple P (readNEcho cfg fd buf : Program (HostWorld ρ κ α) (Int × List Octet))
      fun r w' => (r = (0, buf) ∧ R [] w') ∨
        ∃ w c data, R data w ∧ data.length = cfg.defaultBufferSize.toNat ∧
          w.kernel.files fd = some (.socket c) ∧
          r = (Int.ofNat cfg.defaultBufferSize.toNat, overwrite buf data) ∧
          w' = { w with
            kernel := w.kernel.updateConn c fun con =>
              { con with transmitted := con.transmitted ++ data }
            echoes := w.echoes ++ [⟨fd, data, w.bench.doMeasure⟩] } := by
  refine (triple_hostYield h).bind fun _ => Triple.get_bind fun w hw => ?_
  split
  · exact triple_exitFailure _
  · rename_i data k heq
    obtain ⟨c, hfile, hdata, heos, rfl⟩ := read_eq_ok heq
    have hafter := hread w c data hw hfile hdata heos
    refine Triple.modify_bind (Triple.ite (fun hzero => Triple.pure _ ?_) fun hne => ?_)
    · obtain rfl := List.eq_nil_of_length_eq_zero hzero
      rintro w' rfl
      exact .inl ⟨rfl, hafter⟩
    refine Triple.ite (fun _ => triple_exitFailure _) fun hmore =>
      Triple.ite (fun _ => triple_exitFailure _) fun hless => ?_
    have hlength : data.length = cfg.defaultBufferSize.toNat := by omega
    have htake : (overwrite buf data).take data.length = data := List.take_left
    refine ((triple_hostYield (hR data)).pre ?_).bind fun t => Triple.get_bind fun w₂ hw₂ => ?_
    · rintro w' rfl
      exact hafter
    rw [htake]
    split
    · exact triple_exitFailure _
    · rename_i sent k' heq'
      obtain ⟨c', hfile', hsent, rfl⟩ := write_eq_ok heq'
      refine Triple.modify_bind (Triple.ite (fun _ => triple_exitFailure _) fun hall => ?_)
      have hwhole : data.take t.limit = data := by
        rw [List.length_take] at hsent
        apply List.take_of_length_le
        omega
      apply Triple.modify_bind
      apply Triple.pure
      rintro w' rfl
      refine .inr ⟨w₂, c', data, hw₂, hlength, hfile', by rw [hlength], ?_⟩
      rw [hwhole]

end Stable

/-- What does not change by what arrives: the bytes, the benchmark and the
buffers are left out, of a connection structure all but its `shape`. -/
structure Ledger (χ α : Type) where
  files : Fd → Option File
  interest : Fd → Option Ptr
  closes : List (Fd × File)
  cons : Ptr → Option χ
  freed : List Ptr
  faults : List Fault
  accepts : List Fd
  samples : Samples
  app : α

namespace Ledger

variable (l : Ledger χ α)

def opened (fd : Fd) (f : File) : Ledger χ α :=
  { l with files := Function.update l.files fd (some f) }

def closed (fd : Fd) (f : File) : Ledger χ α :=
  { l with
    files := Function.update l.files fd none
    interest := Function.update l.interest fd none
    closes := l.closes ++ [(fd, f)] }

def registered (fd : Fd) (data : Ptr) : Ledger χ α :=
  { l with interest := Function.update l.interest fd (some data) }

def answered (fd : Fd) : Ledger χ α :=
  { l with accepts := l.accepts ++ [fd] }

/-- The address `p` holds `con`. -/
def stored (p : Ptr) (con : χ) : Ledger χ α :=
  { l with cons := Function.update l.cons p (some con) }

def released (p : Ptr) : Ledger χ α :=
  { l with cons := Function.update l.cons p none, freed := l.freed ++ [p] }

def withApp (a : α) : Ledger χ α :=
  { l with app := a }

end Ledger

section Booked

variable (shape : κ → χ)

def ledger (w : HostWorld ρ κ α) : Ledger χ α where
  files := w.kernel.files
  interest := w.kernel.interest
  closes := w.kernel.closes
  cons p := (w.cons p).map shape
  freed := w.freed
  faults := w.faults
  accepts := w.accepts
  samples := w.samples
  app := w.app

/-- The state has the ledger `l`. -/
def Booked (l : Ledger χ α) (w : HostWorld ρ κ α) : Prop :=
  ledger shape w = l

/-- The calls change nothing that is accounted for. -/
abbrev KeepsLedger (x : Program (HostWorld ρ κ α) β) : Prop :=
  Preserves (ledger shape) (fun _ => True) x

variable {shape} {l : Ledger χ α} {p : Ptr} {fd : Fd} {con : χ}

theorem triple_of_keepsLedger {x : Program (HostWorld ρ κ α) β} (hx : KeepsLedger shape x) :
    Triple (Booked shape l) x fun _ => Booked shape l :=
  hx.keeps fun l' => l' = l

theorem triple_of_ledger {Q : Ledger χ α → Prop} {x : Program (HostWorld ρ κ α) β}
    {R : β → HostWorld ρ κ α → Prop} (h : ∀ l, Q l → Triple (Booked shape l) x R) :
    Triple (fun w => Q (ledger shape w)) x R :=
  fun w hw => h _ hw w rfl

/-- From a known state with the ledger `l`. -/
theorem triple_of_booked {w : HostWorld ρ κ α} {x : Program (HostWorld ρ κ α) β}
    {R : β → HostWorld ρ κ α → Prop} (hw : Booked shape l w) (hx : Triple (Booked shape l) x R) :
    Triple (fun w' => w' = w) x R :=
  hx.pre fun _ heq => heq ▸ hw

theorem ledger_arrive (w : HostWorld ρ κ α) (a : Arrival) :
    ledger shape (w.arrive a) = ledger shape w := by
  simp only [ledger, HostWorld.arrive, arrive_files, arrive_interest, arrive_closes]

theorem stable_booked (l : Ledger χ α) :
    Stable (Booked shape l : HostWorld ρ κ α → Prop) := by
  constructor
  · intro w a h
    exact (ledger_arrive w a).trans h
  · intro w s h
    exact h

theorem keepsLedger_modifyHostBench (f : ServerBench → ServerBench) :
    KeepsLedger shape (modifyHostBench f : Program (HostWorld ρ κ α) PUnit) :=
  Preserves.modify fun _ => rfl

theorem booked_hostBench {c : Prop} [Decidable c] (f : ServerBench → ServerBench) :
    Triple (Booked shape l)
      (whenTrue c (modifyHostBench f) : Program (HostWorld ρ κ α) PUnit)
      fun _ => Booked shape l :=
  triple_whenTrue (fun _ => triple_of_keepsLedger (keepsLedger_modifyHostBench f))
    fun _ hw _ => hw

theorem booked_modifyApp (f : α → α) :
    Triple (Booked shape l)
      (modify fun w => { w with app := f w.app } : Program (HostWorld ρ κ α) PUnit)
      fun _ => Booked shape (l.withApp (f l.app)) := by
  apply Triple.modify
  rintro w rfl
  rfl

/-- A field outside of the shape of a live connection is written. -/
theorem booked_modifyCon {f : κ → κ} {g : χ → χ} (hf : ∀ c, shape (f c) = g (shape c))
    (hlive : l.cons p = some con) :
    Triple (Booked shape l) (modifyCon p f : Program (HostWorld ρ κ α) PUnit)
      fun _ => Booked shape (l.stored p (g con)) := by
  refine Triple.get_bind fun w hw => ?_
  subst hw
  obtain ⟨c, hc, rfl⟩ := Option.map_eq_some_iff.mp hlive
  rw [hc]
  apply Triple.modify
  rintro w' rfl
  simp only [Booked, ledger, Ledger.stored]
  congr 1
  funext q
  rcases eq_or_ne q p with rfl | hne
  · simp [hf]
  · simp [hne]

theorem stored_self (hlive : l.cons p = some con) : l.stored p con = l := by
  unfold Ledger.stored
  rw [← hlive, Function.update_eq_self]

/-- A field that does not matter for the shape is written. -/
theorem booked_modifyCon_same {f : κ → κ} (hf : ∀ c, shape (f c) = shape c)
    (hlive : l.cons p = some con) :
    Triple (Booked shape l) (modifyCon p f : Program (HostWorld ρ κ α) PUnit)
      fun _ => Booked shape l := by
  have hwritten : Triple (Booked shape l) (modifyCon p f : Program (HostWorld ρ κ α) PUnit)
      fun _ => Booked shape (l.stored p (id con)) := booked_modifyCon hf hlive
  rwa [id, stored_self hlive] at hwritten

theorem booked_freeCon (hlive : l.cons p = some con) :
    Triple (Booked shape l) (freeCon p : Program (HostWorld ρ κ α) PUnit)
      fun _ => Booked shape (l.released p) := by
  refine Triple.get_bind fun w hw => ?_
  subst hw
  obtain ⟨c, hc, -⟩ := Option.map_eq_some_iff.mp hlive
  rw [hc]
  apply Triple.modify
  rintro w' rfl
  simp only [Booked, ledger, Ledger.released]
  congr 1
  funext q
  rcases eq_or_ne q p with rfl | hne
  · simp
  · simp [hne]

theorem returns_freeCon (p : Ptr) : Returns (freeCon p : Program (HostWorld ρ κ α) PUnit) := by
  apply Returns.get_bind
  intro w
  cases w.cons p with
  | some con => exact Returns.modify _
  | none => exact Returns.modify _

theorem booked_assertClosed {text : String} {rc : Int} :
    Triple (fun w : HostWorld ρ κ α => (rc = -1 ∧ l.files fd = none ∧ Booked shape l w) ∨
        ∃ f, rc = 0 ∧ l.files fd = some f ∧ Booked shape (l.closed fd f) w)
      (assertZero rc text) fun _ w =>
        ∃ f, l.files fd = some f ∧ Booked shape (l.closed fd f) w := by
  refine triple_assertZero.post ?_
  rintro _ w ⟨⟨rfl, -, -⟩ | ⟨f, rfl, hfile, hbooked⟩, hrc⟩
  · cases hrc
  · exact ⟨f, hfile, hbooked⟩

/-- A null pointer does not get past the assertion. -/
theorem booked_assertAllocated {text : String} {init : χ} :
    Triple (fun w : HostWorld ρ κ α => (p = 0 ∧ Booked shape l w) ∨
        (3 ≤ p ∧ l.cons p = none ∧ Booked shape (l.stored p init) w))
      (assertNnull (p = 0) text) fun _ w =>
        3 ≤ p ∧ l.cons p = none ∧ Booked shape (l.stored p init) w := by
  refine triple_assertNnull.post ?_
  rintro _ w ⟨⟨rfl, -⟩ | hnew, hp⟩
  · cases hp
  · exact hnew

/-- The ledger once `do_exit_cleanup` has freed the bench, if `c`. -/
def benchFreed (c : Prop) [Decidable c] (l : Ledger χ α) : Ledger χ α :=
  { l with samples := if c then l.samples.release else l.samples }

/-- The samples that `main` has made, where `malloc` answered `block`. -/
def madeSamples (cfg : ServerConfig) (block : Option Block) : Samples :=
  if cfg.doServerSideBenchmarking then { block := block.map Block.ptr } else {}

/-- The samples were given to `free`, once; without a benchmark there are none. -/
def SamplesFreed (cfg : ServerConfig) (block : Option Block) (s : Samples) : Prop :=
  if cfg.doServerSideBenchmarking then ∃ b, block = some b ∧ s = { freed := [b.ptr] } else s = {}

theorem samplesFreed_release {cfg : ServerConfig} {block : Option Block} {s : Samples}
    (hmade : cfg.doServerSideBenchmarking → block.isSome) (hsamples : s = madeSamples cfg block) :
    SamplesFreed cfg block (if cfg.doServerSideBenchmarking then s.release else s) := by
  rw [SamplesFreed, hsamples, madeSamples]
  by_cases hbench : cfg.doServerSideBenchmarking = true
  · obtain ⟨b, rfl⟩ := Option.isSome_iff_exists.mp (hmade hbench)
    rw [if_pos hbench, if_pos hbench, if_pos hbench]
    exact ⟨b, rfl, rfl⟩
  · rw [if_neg hbench, if_neg hbench, if_neg hbench]

theorem samplesFreed_benchFreed {cfg : ServerConfig} {block : Option Block}
    (hmade : cfg.doServerSideBenchmarking → block.isSome)
    (hsamples : l.samples = madeSamples cfg block) :
    SamplesFreed cfg block (benchFreed cfg.doServerSideBenchmarking l).samples :=
  samplesFreed_release hmade hsamples

/-- What `sb_create` leaves, where `malloc` has answered. -/
theorem createBench_eq_ok {cfg : ServerConfig} {block : Option Block} {w w' : HostWorld ρ κ α}
    (hrun : whenTrue cfg.doServerSideBenchmarking
      (hostCreateBench block : Program (HostWorld ρ κ α) PUnit) w = .ok (⟨⟩, w'))
    (hnone : w.samples = {}) :
    (cfg.doServerSideBenchmarking → block.isSome) ∧
      ∃ b₀, w' = { w with bench := b₀, samples := madeSamples cfg block } := by
  unfold madeSamples
  by_cases hbench : cfg.doServerSideBenchmarking = true
  · rw [whenTrue_of hbench] at hrun
    rw [if_pos hbench]
    cases block with
    | none => cases hrun
    | some b =>
        cases hrun
        refine ⟨fun _ => rfl, sbCreate benchExpectedMessages b.bytes, ?_⟩
        have hmade : { w.samples with block := some b.ptr } = ({ block := some b.ptr } : Samples) :=
          congrArg (fun s => Samples.mk (some b.ptr) s.freed) hnone
        exact congrArg (fun s => { w with
          bench := sbCreate benchExpectedMessages b.bytes, samples := s }) hmade
  · rw [whenTrue_of_not hbench] at hrun
    cases hrun
    rw [if_neg hbench, ← hnone]
    exact ⟨fun h => absurd h hbench, w.bench, rfl⟩

/-- The samples are gone once the benchmark is freed. -/
theorem meets_freeBench {E : Stop → Prop} (c : Prop) [Decidable c] :
    Meets (Booked shape l) (whenTrue c (hostFreeBench : Program (HostWorld ρ κ α) PUnit))
      (fun _ w => Booked shape (benchFreed c l) w ∧ (c → w.bench.eventLatency.size = 0)) E := by
  apply Meets.ite
  · intro hc
    rw [benchFreed, if_pos hc]
    refine ⟨Stops.of_returns (Returns.modify _), Triple.modify ?_⟩
    rintro w rfl
    exact ⟨rfl, fun _ => rfl⟩
  · intro hc
    rw [benchFreed, if_neg hc]
    exact Meets.pure _ fun _ hw => ⟨hw, fun h => absurd h hc⟩

theorem returns_hostSaveBench :
    Returns (hostSaveBench false : Program (HostWorld ρ κ α) PUnit) := by
  apply Returns.get_bind
  intro w
  cases sbSaveBench w.bench with
  | none => exact Returns.pure _
  | some text => exact Returns.bind (Returns.pure _) fun _ => Returns.modify _

theorem booked_hostSaveBench (fileNull : Bool) :
    Triple (Booked shape l) (hostSaveBench fileNull : Program (HostWorld ρ κ α) PUnit)
      fun _ => Booked shape l := by
  refine Triple.get_bind fun w hw => ?_
  cases sbSaveBench w.bench with
  | none => exact Triple.pure _ fun _ heq => heq ▸ hw
  | some text =>
      refine triple_assertNnull.bind fun _ => Triple.modify ?_
      rintro w' ⟨rfl, -⟩
      exact hw

variable [Inhabited ρ]

theorem keepsLedger_hostYield :
    KeepsLedger shape (hostYield : Program (HostWorld ρ κ α) (HostTick ρ)) := by
  constructor
  · exact Stops.of_returns (Returns.modifyGet _)
  · intro P
    apply triple_hostYield
    constructor
    · intro w a h
      rw [ledger_arrive]
      exact h
    · intro w s h
      exact h

theorem keepsLedger_hostNow :
    KeepsLedger shape (hostNow : Program (HostWorld ρ κ α) Timespec) :=
  keepsLedger_hostYield.bind fun _ => Preserves.pure _

theorem keepsLedger_hostStart (cfg : ServerConfig) :
    KeepsLedger shape (hostStart cfg : Program (HostWorld ρ κ α) Timespec) :=
  Preserves.ite keepsLedger_hostNow (Preserves.pure _)

theorem booked_readNEcho (cfg : ServerConfig) (fd : Fd) (buf : List Octet) :
    Triple (Booked shape l)
      (readNEcho cfg fd buf : Program (HostWorld ρ κ α) (Int × List Octet))
      fun _ => Booked shape l := by
  refine (triple_readNEcho (R := fun _ => Booked shape l) (stable_booked l) cfg fd buf
    (fun w c data hw _ _ _ => hw) fun _ => stable_booked l).post ?_
  rintro r w' (⟨-, hw⟩ | ⟨w, c, data, hw, -, -, -, rfl⟩)
  · exact hw
  · exact hw

/-- What `close` returns tells whether the descriptor was open. -/
theorem booked_hostClose (fd : Fd) :
    Triple (Booked shape l) (hostClose fd : Program (HostWorld ρ κ α) Int) fun rc w =>
      (rc = -1 ∧ l.files fd = none ∧ Booked shape l w) ∨
        ∃ f, rc = 0 ∧ l.files fd = some f ∧ Booked shape (l.closed fd f) w := by
  refine (triple_hostClose (stable_booked l) fd).post ?_
  rintro rc w' ⟨w, rfl, rfl, rfl⟩
  unfold Kernel.close
  split
  · rename_i hnone
    exact .inl ⟨rfl, hnone, rfl⟩
  · rename_i f hsome
    exact .inr ⟨f, rfl, hsome, rfl⟩

theorem returns_hostClose (fd : Fd) :
    Returns (hostClose fd : Program (HostWorld ρ κ α) Int) :=
  Returns.bind (Returns.modifyGet _) fun _ => Returns.get_bind fun _ =>
    (Returns.modify _).bind fun _ => Returns.pure _

/-- Closing an open descriptor does not fail. -/
theorem meets_hostClose {E : Stop → Prop} {f : File} (hfile : l.files fd = some f) :
    Meets (Booked shape l) (hostClose fd : Program (HostWorld ρ κ α) Int)
      (fun rc w => rc = 0 ∧ Booked shape (l.closed fd f) w) E := by
  refine ⟨Stops.of_returns (returns_hostClose fd), (booked_hostClose fd).post ?_⟩
  rintro rc w (⟨-, hnone, -⟩ | ⟨f', hrc, hfile', hbooked⟩)
  · rw [hfile] at hnone
    cases hnone
  · rw [hfile] at hfile'
    cases hfile'
    exact ⟨hrc, hbooked⟩

theorem meets_closeAsserted {E : Stop → Prop} {f : File} (hfile : l.files fd = some f)
    (text : String) :
    Meets (Booked shape l) (do
      let rc ← (hostClose fd : Program (HostWorld ρ κ α) Int)
      assertZero rc text) (fun _ => Booked shape (l.closed fd f)) E := by
  refine (meets_hostClose hfile).bind fun rc => Meets.and_pre ?_
  rintro rfl
  exact meets_assertZero

/-- Measuring stops, and the benchmark is written to its file. -/
theorem meets_hostStopBench {E : Stop → Prop} {cfg : ServerConfig} {fileNull : Bool}
    (hfile : cfg.doServerSideBenchmarking → fileNull = false) :
    Meets (Booked shape l) (hostStopBench cfg fileNull : Program (HostWorld ρ κ α) PUnit)
      (fun _ => Booked shape l) E := by
  refine Meets.ite (fun hbench => ?_) fun _ => Meets.pure _ fun _ hw => hw
  rw [hfile hbench]
  constructor
  · refine Stops.of_returns (Returns.bind ?_ fun _ => (Returns.modify _).bind fun _ =>
      returns_hostSaveBench)
    exact Returns.bind (Returns.modifyGet _) fun _ => Returns.pure _
  · refine (triple_hostNow (stable_booked l)).bind fun now => ?_
    exact (triple_of_keepsLedger (keepsLedger_modifyHostBench _)).bind fun _ =>
      booked_hostSaveBench false

/-- There is a text to be written once measuring has stopped, so that the file
was opened. -/
theorem opened_of_hostStopBench {cfg : ServerConfig} {fileNull : Bool} {w w' : HostWorld ρ κ α}
    (hrun : hostStopBench cfg fileNull w = .ok (⟨⟩, w')) :
    cfg.doServerSideBenchmarking → fileNull = false := by
  have hopened : Triple (fun _ => True)
      (hostStopBench cfg fileNull : Program (HostWorld ρ κ α) PUnit)
        fun _ _ => cfg.doServerSideBenchmarking → fileNull = false := by
    refine triple_whenTrue (fun _ => ?_) fun _ _ hoff hon => absurd hon hoff
    refine Triple.bind (Q := fun _ _ => True) (fun _ _ _ _ _ => trivial) fun now => ?_
    refine Triple.bind (Q := fun _ w => w.bench.doMeasure = 0) (Triple.modify fun _ _ => rfl)
      fun _ => Triple.get_bind fun w hidle => ?_
    have htext : ∃ text, sbSaveBench w.bench = some text := ⟨_, if_neg (not_not.mpr hidle)⟩
    obtain ⟨text, htext⟩ := htext
    rw [htext]
    exact triple_assertNnull.bind fun _ => Triple.modify fun _ hopen _ => hopen.2
  exact hopened w trivial ⟨⟩ w' hrun

theorem booked_acceptClient (ls : Fd) :
    Triple (Booked shape l) (acceptClient ls : Program (HostWorld ρ κ α) Fd) fun fd w =>
      (fd = -1 ∧ Booked shape (l.answered (-1)) w) ∨
        (0 ≤ fd ∧ l.files fd = none ∧
          ∃ c, Booked shape ((l.opened fd (.socket c)).answered fd) w) := by
  refine (triple_acceptClient (stable_booked l) ls).post ?_
  rintro fd w' ⟨w, rfl, ⟨rfl, -, rfl⟩ | ⟨c, rest, -, hfd, hfree, rfl⟩⟩
  · exact .inl ⟨rfl, rfl⟩
  · exact .inr ⟨hfd, hfree, c, rfl⟩

theorem booked_allocCon (init : κ) :
    Triple (Booked shape l) (allocCon init : Program (HostWorld ρ κ α) Ptr) fun p w =>
      (p = 0 ∧ Booked shape l w) ∨
        (3 ≤ p ∧ l.cons p = none ∧ Booked shape (l.stored p (shape init)) w) := by
  refine (triple_allocCon (stable_booked l) init).post ?_
  rintro p w' ⟨w, rfl, ⟨rfl, rfl⟩ | ⟨hp, hfree, rfl⟩⟩
  · exact .inl ⟨rfl, rfl⟩
  · refine .inr ⟨hp, Option.map_eq_none_iff.mpr hfree, ?_⟩
    simp only [Booked, ledger, Ledger.stored]
    congr 1
    funext q
    rcases eq_or_ne q p with rfl | hne
    · simp
    · simp [hne]

theorem booked_createWarmupTimer :
    Triple (Booked shape l) (createWarmupTimer : Program (HostWorld ρ κ α) Fd) fun fd w =>
      0 ≤ fd ∧ l.files fd = none ∧ Booked shape (l.opened fd .timer) w := by
  have hstable : ∀ fd, Stable fun w : HostWorld ρ κ α =>
      0 ≤ fd ∧ l.files fd = none ∧ Booked shape (l.opened fd .timer) w := by
    intro fd
    have hbooked : Stable (Booked shape (l.opened fd .timer) : HostWorld ρ κ α → Prop) :=
      stable_booked _
    exact ⟨fun w a h => ⟨h.1, h.2.1, hbooked.arrive w a h.2.2⟩, fun w s h => h⟩
  refine triple_createWarmupTimer (stable_booked l) ?_ hstable
  rintro w fd rfl hfd hfree
  exact ⟨hfd, hfree, rfl⟩

end Booked

end EchoServers.HostLedger
