import EchoServers.EpollEchoes
import EchoServers.EpollShutdown

/-!
The epoll server from the moment its socket listens until the process ends, and
what it leaves behind.
-/

namespace EchoServers.EpollMain

open EchoServers.EchoTraffic
open EchoServers.EpollEchoes
open EchoServers.EpollEffects
open EchoServers.EpollList
open EchoServers.EpollListRuns
open EchoServers.EpollRegistry
open EchoServers.EpollRuns
open EchoServers.EpollServer
open EchoServers.EpollShutdown
open EchoServers.HostLedger
open EchoServers.ServerBenchmark
open EchoServers.ServerUtils
open EchoServers.SocketKernel
open EchoServers.StateTriples
open EchoServers.Utils

section Program

variable (cfg : ServerConfig)

def doExitCleanup : Program EpollWorld PUnit := do
  let rc ← hostClose cfg.listeningSocket
  assertZero rc "close"
  whenTrue cfg.doServerSideBenchmarking hostFreeBench

/-- `main` up to the signal, which comes at the `n`-th turn of the loop; `malloc`
has answered `block` for the samples of the bench. -/
def mainLoop (block : Option Block) (n : Nat) : Program EpollWorld PUnit := do
  whenTrue cfg.doServerSideBenchmarking <| hostCreateBench block
  serviceLoop cfg n

def main (block : Option Block) (fileNull : Bool) (n : Nat) : Program EpollWorld PUnit := do
  mainLoop cfg block n
  serviceLoopEnd cfg fileNull
  doExitCleanup cfg

end Program

section Ends

variable {cfg : ServerConfig} {l : EpollLedger} {stack upper : Stack} {x : Link × Fd} {p : Ptr}
  {fd : Fd} {c : ConnId} {E : Stop → Prop}

/-- The ledger without the timer. -/
def timerOff (l : EpollLedger) : EpollLedger :=
  if l.app.tfd = -1 then l else timerClosed l .timer

/-- The ledger when the walk through the list begins. -/
def pollOff (l : EpollLedger) : EpollLedger :=
  (timerOff l).closed l.app.epollFd .epoll

/-- The ledger when the walk has closed the client accepted first. -/
def firstGone (l : EpollLedger) (stack : Stack) : EpollLedger :=
  match stack.getLast? with
  | none => l
  | some x => clientGone (unlinked l x.1.ptr) x.1.ptr (x.1.object.getD .listening)

/-- The ledger at the end of the process. -/
def exited (cfg : ServerConfig) (l : EpollLedger) (stack : Stack) : EpollLedger :=
  benchFreed cfg.doServerSideBenchmarking
    ((firstGone (pollOff l) stack).closed cfg.listeningSocket .listening)

/-- The structure of the client accepted first has no links. -/
theorem cons_first (h : Linked l (upper ++ [x])) :
    l.cons x.1.ptr = some { fd := x.2, object := x.1.object } := by
  induction upper with
  | nil => exact h.1
  | cons y upper ih => exact ih h.2

theorem conAt_first (h : Linked l (upper ++ [x])) :
    conAt l x.1.ptr = { fd := x.2, object := x.1.object } := by
  rw [conAt, cons_first h]
  rfl

/-- Taking it out of the list moves the ends only. -/
theorem unlinked_first (h : Linked l (upper ++ [x])) :
    ∃ head tail, unlinked l x.1.ptr = withEnds l head tail := by
  have hbridged : bridged l x.1.ptr = l := by
    simp only [bridged, conAt_first h, wroteIf]
  exact ⟨_, _, by rw [unlinked, hbridged]⟩

theorem firstGone_append (l : EpollLedger) (upper : Stack) (x : Link × Fd) :
    firstGone l (upper ++ [x]) =
      clientGone (unlinked l x.1.ptr) x.1.ptr (x.1.object.getD .listening) := by
  rw [firstGone, List.getLast?_concat]

theorem files_firstGone (h : Linked l (upper ++ [x])) :
    (firstGone l (upper ++ [x])).files = Function.update l.files x.2 none := by
  obtain ⟨head, tail, hunlinked⟩ := unlinked_first h
  rw [firstGone_append, hunlinked]
  change Function.update l.files (conAt l x.1.ptr).fd none = _
  rw [conAt_first h]

/-- The walk ends behind the client accepted first, which leads to no other. -/
theorem meets_closeFirst (hchain : Chain l stack) (hseated : Seated l stack) (fuel : Nat) :
    Meets (Booked epollShape l) (closeClients (fuel + 1) l.app.dllHead)
      (fun _ => Booked epollShape (firstGone l stack)) E := by
  rw [hchain.head]
  rcases List.eq_nil_or_concat' stack with rfl | ⟨upper, x, rfl⟩
  · exact Meets.pure _ fun _ hw => hw
  · have hlinked := hchain.linked
    obtain ⟨c, hobject, hopen⟩ := hseated x (by simp)
    have hlive : l.cons x.1.ptr ≠ none := by
      rw [cons_first hlinked]
      exact Option.some_ne_none _
    have hfile : l.files (conAt l x.1.ptr).fd = some (.socket c) := by
      rw [conAt_first hlinked]
      exact hopen
    have hread : Meets (Booked epollShape l) (readThrough x.1)
        (fun con w => con.next = none ∧ Booked epollShape l w) E :=
      meets_readThrough (cons_first hlinked) rfl
    rw [firstGone_append, hobject, List.getLast?_concat]
    refine hread.bind fun con => Meets.and_pre fun hnext =>
      (meets_closeClient hlive hfile).bind fun _ => ?_
    rw [hnext]
    cases fuel <;> exact Meets.pure _ fun _ hw => hw

/-- The cleanup after the timer. -/
theorem meets_closePoll (hchain : Chain l stack) (hseated : Seated l stack)
    (hpolled : l.files l.app.epollFd = some .epoll) :
    Meets (Booked epollShape l) (do
      let rc ← hostClose (← get).app.epollFd
      assertZero rc "close epoll_fd"
      let w ← get
      closeClients (w.accepts.length + 1) w.app.dllHead)
      (fun _ => Booked epollShape (firstGone (l.closed l.app.epollFd .epoll) stack)) E := by
  refine Meets.get_bind fun w hw => ?_
  have happ : w.app = l.app := congrArg Ledger.app hw
  rw [happ]
  refine ((meets_hostClose hpolled).pre fun _ heq => heq ▸ hw).bind fun rc => Meets.and_pre ?_
  rintro rfl
  refine meets_assertZero.bind fun _ => Meets.get_bind fun w₁ hw₁ => ?_
  have happ₁ : w₁.app = l.app := congrArg Ledger.app hw₁
  rw [happ₁]
  have hclosed : Chain (l.closed l.app.epollFd .epoll) stack := hchain.congr rfl rfl rfl
  exact (meets_closeFirst hclosed (hseated.closed hpolled (by simp)) _).pre
    fun _ heq => heq ▸ hw₁

theorem meets_doServiceLoopCleanup (h : Orderly cfg l) (hchain : Chain l stack) :
    Meets (Booked epollShape l) doServiceLoopCleanup
      (fun _ => Booked epollShape (firstGone (pollOff l) stack)) E := by
  have hseated := seated h hchain.linked
  refine Meets.get_bind fun w hw => ?_
  have happ : w.app = l.app := congrArg Ledger.app hw
  rw [happ]
  by_cases htfd : l.app.tfd = -1
  · rw [whenTrue_of_not (not_not_intro htfd), pure_bind, pollOff, timerOff, if_pos htfd]
    exact (meets_closePoll hchain hseated h.registry.polled).pre fun _ heq => heq ▸ hw
  · rw [whenTrue_of htfd, pollOff, timerOff, if_neg htfd]
    have htimer := (h.registry.timer.resolve_left htfd).1
    have hne : l.app.epollFd ≠ l.app.tfd := ne_of_files_ne htimer h.registry.polled (by simp)
    have hclose : Meets (fun w' => w' = w) closeTimer
        (fun _ => Booked epollShape (timerClosed l .timer)) E :=
      (meets_closeTimer htimer).pre fun _ heq => heq ▸ hw
    refine hclose.bind fun _ => ?_
    have hclosed : Chain (timerClosed l .timer) stack := hchain.congr rfl rfl rfl
    refine meets_closePoll hclosed (hseated.closed htimer (by simp)) ?_
    exact (Function.update_of_ne hne _ _).trans h.registry.polled

end Ends

section Balance

variable {cfg : ServerConfig} {l : EpollLedger} {all left stack upper : Stack} {x : Link × Fd}
  {fd fd' : Fd} {f : File}

/-- Of the clients accepted, `all`, those in `left` are open, and the others
were closed and freed once. -/
structure Balanced (l : EpollLedger) (all left : Stack) : Prop where
  sockets : ∀ fd c, l.files fd = some (.socket c) ↔ (fd, some (.socket c)) ∈ sockets left
  cons : ∀ p, l.cons p ≠ none ↔ p ∈ addresses left
  closed : (closedSockets l.closes ++ EpollShutdown.sockets left).Perm (EpollShutdown.sockets all)
  freed : (l.freed ++ addresses left).Perm (addresses all)
  faults : l.faults = []

theorem balanced_of_accounts (h : Orderly cfg l) (haccounts : Accounts l stack) :
    Balanced l (acceptedOf l.app.history) stack := by
  have hlinked := haccounts.chain.linked
  refine ⟨fun fd c => ⟨fun hfile => ?_, fun hmem => ?_⟩, haccounts.chain.live,
    haccounts.closed.symm, haccounts.freed.symm, haccounts.faults⟩
  · obtain ⟨p, hcon⟩ := h.registry.owned fd c hfile
    have hlive : l.cons p ≠ none := by
      intro hnone
      rw [clients, hnone] at hcon
      cases hcon
    obtain ⟨x, hx, rfl⟩ := List.mem_map.mp ((haccounts.chain.live p).mp hlive)
    obtain ⟨rfl, hobject⟩ := Prod.mk.inj (Option.some.inj ((hlinked.client hx).symm.trans hcon))
    exact List.mem_map.mpr ⟨x, hx, by rw [hobject]⟩
  · obtain ⟨x, hx, heq⟩ := List.mem_map.mp hmem
    obtain ⟨rfl, hobject⟩ := Prod.mk.inj heq
    obtain ⟨-, -, hfile, -⟩ := h.registry.client _ _ _ (hlinked.client hx)
    rw [hfile, hobject]

/-- A descriptor that is no client's is closed. -/
theorem Balanced.closed_other (h : Balanced l all left) (hfile : l.files fd = some f)
    (hsocket : ∀ c, f ≠ .socket c) : Balanced (l.closed fd f) all left := by
  refine ⟨fun fd' c => ?_, h.cons, ?_, h.freed, h.faults⟩
  · rw [← h.sockets fd' c]
    rcases eq_or_ne fd' fd with rfl | hne
    · rw [hfile]
      have hgone : (l.closed fd' f).files fd' = none := Function.update_self ..
      rw [hgone]
      simpa using hsocket c
    · rw [show (l.closed fd f).files fd' = l.files fd' from Function.update_of_ne hne ..]
  · rw [show (l.closed fd f).closes = l.closes ++ [(fd, f)] from rfl,
      closedSockets_other _ _ hsocket]
    exact h.closed

theorem mem_sockets_upper_iff {object : Option File}
    (hfds : ((upper ++ [x]).map Prod.snd).Nodup) :
    (fd, object) ∈ sockets upper ↔ fd ≠ x.2 ∧ (fd, object) ∈ sockets (upper ++ [x]) := by
  rw [List.map_append, List.nodup_append] at hfds
  simp only [sockets, List.map_append, List.mem_append]
  constructor
  · intro hmem
    refine ⟨?_, .inl hmem⟩
    obtain ⟨y, hy, heq⟩ := List.mem_map.mp hmem
    obtain ⟨rfl, -⟩ := Prod.mk.inj heq
    exact hfds.2.2 _ (List.mem_map_of_mem hy) _ (List.mem_singleton_self _)
  · rintro ⟨hne, hmem | hmem⟩
    · exact hmem
    · exact absurd (congrArg Prod.fst (List.mem_singleton.mp hmem)) hne

theorem mem_addresses_upper_iff {p : Ptr} (h : (addresses (upper ++ [x])).Nodup) :
    p ∈ addresses upper ↔ p ≠ x.1.ptr ∧ p ∈ addresses (upper ++ [x]) := by
  rw [addresses, List.map_append, List.nodup_append] at h
  simp only [addresses, List.map_append, List.mem_append]
  constructor
  · intro hmem
    exact ⟨h.2.2 _ hmem _ (List.mem_singleton_self _), .inl hmem⟩
  · rintro ⟨hne, hmem | hmem⟩
    · exact hmem
    · exact absurd (List.mem_singleton.mp hmem) hne

/-- The client accepted first is closed and freed, and no other. -/
theorem Balanced.firstGone (h : Balanced l all (upper ++ [x])) (hlinked : Linked l (upper ++ [x]))
    (haddresses : (addresses (upper ++ [x])).Nodup)
    (hfds : ((upper ++ [x]).map Prod.snd).Nodup) {c : ConnId}
    (hobject : x.1.object = some (.socket c)) :
    Balanced (firstGone l (upper ++ [x])) all upper := by
  obtain ⟨head, tail, hunlinked⟩ := unlinked_first hlinked
  have hcon : clients l x.1.ptr = some (x.2, some (.socket c)) := by
    rw [clients, cons_first hlinked, hobject]
    rfl
  obtain ⟨hcloses, -, hfreed, -⟩ := clientGone_eq hcon
  have hgone : EpollMain.firstGone l (upper ++ [x]) =
      clientGone (unlinked l x.1.ptr) x.1.ptr (.socket c) := by
    rw [firstGone_append, hobject]
    rfl
  have hfiles := files_firstGone hlinked
  rw [hgone] at hfiles ⊢
  have hcons : (clientGone (unlinked l x.1.ptr) x.1.ptr (.socket c)).cons =
      Function.update l.cons x.1.ptr none := by
    rw [hunlinked]
    rfl
  refine ⟨fun fd c' => ?_, fun p => ?_, ?_, ?_, ?_⟩
  · rw [hfiles, mem_sockets_upper_iff hfds, ← h.sockets fd c']
    rcases eq_or_ne fd x.2 with rfl | hne
    · simp
    · rw [Function.update_of_ne hne]
      exact ⟨fun hfile => ⟨hne, hfile⟩, And.right⟩
  · rw [hcons, mem_addresses_upper_iff haddresses, ← h.cons p]
    rcases eq_or_ne p x.1.ptr with rfl | hne
    · simp
    · rw [Function.update_of_ne hne]
      exact ⟨fun hlive => ⟨hne, hlive⟩, And.right⟩
  · rw [hcloses, closedSockets_append, List.append_assoc]
    refine (List.Perm.append_left _ ?_).trans h.closed
    simp only [EpollShutdown.sockets, List.map_append, List.map_singleton, hobject]
    exact List.perm_append_comm
  · rw [hfreed, List.append_assoc]
    refine (List.Perm.append_left _ ?_).trans h.freed
    simp only [addresses, List.map_append]
    exact List.perm_append_comm
  · change (unlinked l x.1.ptr).faults = []
    rw [hunlinked]
    exact h.faults

/-- The descriptors of the clients differ, since the kernel knows each by its structure. -/
theorem fds_nodup (h : Orderly cfg l) (hlinked : Linked l stack)
    (hnodup : (addresses stack).Nodup) : (stack.map Prod.snd).Nodup := by
  refine List.Nodup.map_on (fun x hx y hy heq => ?_) (List.Nodup.of_map _ hnodup)
  obtain ⟨-, -, -, hx'⟩ := h.registry.client _ _ _ (hlinked.client hx)
  obtain ⟨-, -, -, hy'⟩ := h.registry.client _ _ _ (hlinked.client hy)
  rw [heq, hy'] at hx'
  exact List.inj_on_of_nodup_map hnodup hx hy (Option.some.inj hx').symm

end Balance

section Exit

variable {cfg : ServerConfig} {l : EpollLedger} {all stack : Stack} {w t : EpollWorld} {fd : Fd}
  {f : File}

theorem closed_files_of_none (h : l.files fd = none) (fd' : Fd) (f : File) :
    (l.closed fd' f).files fd = none := by
  rcases eq_or_ne fd fd' with rfl | hne
  · exact Function.update_self ..
  · exact (Function.update_of_ne hne ..).trans h

theorem firstGone_files_of_none (hlinked : Linked l stack) (h : l.files fd = none) :
    (firstGone l stack).files fd = none := by
  rcases List.eq_nil_or_concat' stack with rfl | ⟨upper, x, rfl⟩
  · exact h
  · rw [files_firstGone hlinked]
    rcases eq_or_ne fd x.2 with rfl | hne
    · exact Function.update_self ..
    · exact (Function.update_of_ne hne ..).trans h

theorem timerOff_files (h : Orderly cfg l) (hfile : l.files fd = some f) (hf : f ≠ .timer) :
    (timerOff l).files fd = some f := by
  unfold timerOff
  split_ifs with htfd
  · exact hfile
  · have htimer := (h.registry.timer.resolve_left htfd).1
    exact (Function.update_of_ne (ne_of_files_ne htimer hfile hf) ..).trans hfile

theorem polled_timerOff (h : Orderly cfg l) : (timerOff l).files l.app.epollFd = some .epoll :=
  timerOff_files h h.registry.polled (by simp)

theorem listening_pollOff (h : Orderly cfg l) :
    (pollOff l).files cfg.listeningSocket = some .listening := by
  have hfile := timerOff_files h h.registry.listening (by simp)
  exact (Function.update_of_ne (ne_of_files_ne (polled_timerOff h) hfile (by simp)) ..).trans hfile

theorem balanced_pollOff (h : Orderly cfg l) (hbalanced : Balanced l all stack) :
    Balanced (pollOff l) all stack := by
  have htimer : Balanced (timerOff l) all stack := by
    unfold timerOff
    split_ifs with htfd
    · exact hbalanced
    · have hclosed := hbalanced.closed_other (h.registry.timer.resolve_left htfd).1 (by simp)
      exact ⟨hclosed.sockets, hclosed.cons, hclosed.closed, hclosed.freed, hclosed.faults⟩
  exact htimer.closed_other (polled_timerOff h) (by simp)

theorem chain_pollOff (h : Chain l stack) : Chain (pollOff l) stack := by
  unfold pollOff timerOff
  split_ifs <;> exact h.congr rfl rfl rfl

theorem listening_firstGone (h : Orderly cfg l) (hchain : Chain l stack) :
    (firstGone (pollOff l) stack).files cfg.listeningSocket = some .listening := by
  have hlistening := listening_pollOff h
  rcases List.eq_nil_or_concat' stack with rfl | ⟨upper, x, rfl⟩
  · exact hlistening
  · rw [files_firstGone (chain_pollOff hchain).linked]
    obtain ⟨c, -, hopen⟩ := seated h hchain.linked x (by simp)
    exact (Function.update_of_ne (ne_of_files_ne hopen h.registry.listening (by simp)) ..).trans
      hlistening

theorem balanced_exited (h : Orderly cfg l) (haccounts : Accounts l stack) :
    Balanced (exited cfg l stack) (acceptedOf l.app.history) stack.dropLast := by
  have hpollOff := balanced_pollOff h (balanced_of_accounts h haccounts)
  suffices hfirst : Balanced (firstGone (pollOff l) stack) (acceptedOf l.app.history)
      stack.dropLast by
    have hclosed := hfirst.closed_other (listening_firstGone h haccounts.chain) (by simp)
    exact ⟨hclosed.sockets, hclosed.cons, hclosed.closed, hclosed.freed, hclosed.faults⟩
  rcases List.eq_nil_or_concat' stack with rfl | ⟨upper, x, rfl⟩
  · exact hpollOff
  · have hlinked := haccounts.chain.linked
    obtain ⟨c, hobject, -⟩ := seated h hlinked x (by simp)
    rw [List.dropLast_concat]
    exact hpollOff.firstGone (chain_pollOff haccounts.chain).linked haccounts.chain.nodup
      (fds_nodup h hlinked haccounts.chain.nodup) hobject

theorem samples_firstGone (hlinked : Linked l stack) : (firstGone l stack).samples = l.samples := by
  rcases List.eq_nil_or_concat' stack with rfl | ⟨upper, x, rfl⟩
  · rfl
  · obtain ⟨head, tail, hunlinked⟩ := unlinked_first hlinked
    rw [firstGone_append, hunlinked]
    rfl

theorem samples_pollOff : (pollOff l).samples = l.samples := by
  unfold pollOff timerOff
  split_ifs
  all_goals rfl

/-- The process that was in the state `w` ends in the state `t`: the clients in
`left` keep their descriptors and structures, all else is closed and freed, once. -/
structure LeftBehind (cfg : ServerConfig) (block : Option Block) (w t : EpollWorld)
    (left : Stack) : Prop where
  listening : t.kernel.files cfg.listeningSocket = none
  polled : t.kernel.files w.app.epollFd = none
  timer : w.app.tfd ≠ -1 → t.kernel.files w.app.tfd = none
  sockets : ∀ fd c, t.kernel.files fd = some (.socket c) ↔ (fd, some (.socket c)) ∈ sockets left
  cons : ∀ p, t.cons p ≠ none ↔ p ∈ addresses left
  closed : (closedSockets t.kernel.closes ++ EpollShutdown.sockets left).Perm
    (EpollShutdown.sockets (acceptedOf w.app.history))
  freed : (t.freed ++ addresses left).Perm (addresses (acceptedOf w.app.history))
  samples : SamplesFreed cfg block t.samples
  bench : cfg.doServerSideBenchmarking → t.bench.eventLatency.size = 0
  faults : t.faults = []

theorem leftBehind_of_exited {block : Option Block} (h : Orderly cfg (ledger epollShape w))
    (haccounts : Accounts (ledger epollShape w) stack)
    (hmade : cfg.doServerSideBenchmarking → block.isSome)
    (hsamples : w.samples = madeSamples cfg block)
    (ht : Booked epollShape (exited cfg (ledger epollShape w) stack) t)
    (hbench : cfg.doServerSideBenchmarking → t.bench.eventLatency.size = 0) :
    LeftBehind cfg block w t stack.dropLast := by
  have hbalanced := balanced_exited h haccounts
  have hlinked := (chain_pollOff haccounts.chain).linked
  have hnone : ∀ fd, (pollOff (ledger epollShape w)).files fd = none →
      (exited cfg (ledger epollShape w) stack).files fd = none := fun fd hfd =>
    closed_files_of_none (firstGone_files_of_none hlinked hfd) cfg.listeningSocket .listening
  rw [← show ledger epollShape t = _ from ht] at hbalanced hnone
  refine ⟨?_, hnone _ (Function.update_self ..), fun htfd => hnone _ ?_, hbalanced.sockets,
    fun p => ?_, hbalanced.closed, hbalanced.freed, ?_, hbench, hbalanced.faults⟩
  · have hfiles : t.kernel.files = (exited cfg (ledger epollShape w) stack).files :=
      congrArg Ledger.files ht
    rw [hfiles]
    exact Function.update_self ..
  · refine closed_files_of_none ?_ _ _
    rw [timerOff, if_neg (show ¬ (ledger epollShape w).app.tfd = -1 from htfd)]
    exact Function.update_self ..
  · rw [← hbalanced.cons p, Ne, Ne, ← Option.map_eq_none_iff]
    rfl
  · have hkept : ((firstGone (pollOff (ledger epollShape w)) stack).closed cfg.listeningSocket
        .listening).samples = madeSamples cfg block :=
      (samples_firstGone hlinked).trans (samples_pollOff.trans hsamples)
    have htaken : t.samples = (exited cfg (ledger epollShape w) stack).samples :=
      congrArg Ledger.samples ht
    rw [htaken]
    exact samplesFreed_benchFreed hmade hkept

theorem meets_serviceLoopEnd (h : Orderly cfg l) (hchain : Chain l stack) {fileNull : Bool}
    (hfile : cfg.doServerSideBenchmarking → fileNull = false) {E : Stop → Prop} :
    Meets (Booked epollShape l) (serviceLoopEnd cfg fileNull)
      (fun _ => Booked epollShape (firstGone (pollOff l) stack)) E :=
  (meets_hostStopBench hfile).bind fun _ => meets_doServiceLoopCleanup h hchain

theorem meets_doExitCleanup {E : Stop → Prop}
    (hlistening : l.files cfg.listeningSocket = some .listening) :
    Meets (Booked epollShape l) (doExitCleanup cfg)
      (fun _ w => Booked epollShape (benchFreed cfg.doServerSideBenchmarking
          (l.closed cfg.listeningSocket .listening)) w ∧
        (cfg.doServerSideBenchmarking → w.bench.eventLatency.size = 0)) E := by
  refine (meets_hostClose hlistening).bind fun rc => Meets.and_pre ?_
  rintro rfl
  exact meets_assertZero.bind fun _ => meets_freeBench _

/-- Up to the signal the samples of the bench stay where `sb_create` has put them. -/
theorem run_of_mainLoop {block : Option Block} {sched : List (HostTick (List Fd))} {n : Nat}
    (hrun : mainLoop cfg block n (initialWorld cfg sched) = .ok (⟨⟩, w)) :
    ((cfg.doServerSideBenchmarking → block.isSome) ∧ w.samples = madeSamples cfg block) ∧
      ∃ b₀, serviceLoop cfg n (benchWorld cfg b₀ (madeSamples cfg block) sched) = .ok (⟨⟩, w) := by
  obtain ⟨⟨⟩, w₁, hcreate, hloop⟩ := bind_eq_ok hrun
  obtain ⟨hmade, b₀, rfl⟩ := createBench_eq_ok hcreate rfl
  have hreachable : BenchReachable cfg b₀ (madeSamples cfg block) w :=
    ⟨sched, n, w, [], hloop, rfl⟩
  obtain ⟨-, -, hjournaled⟩ := atTop_of_reachable lasting_true trivial hreachable
  exact ⟨⟨hmade, hjournaled.journal.samples⟩, b₀, hloop⟩

/-- Whenever the signal comes, `main` runs to its end exactly if the file for the
bench can be opened, as long as the clients that were closed before were closed
in the order opposite to that of their arrival.  Of those still connected only
the one accepted first is closed. -/
theorem main_leaves_all_but_first {block : Option Block} {fileNull : Bool}
    {sched : List (HostTick (List Fd))} {n : Nat}
    (hrun : mainLoop cfg block n (initialWorld cfg sched) = .ok (⟨⟩, w))
    (hlast : ClosesLast [] w.app.history) :
    (∃ t, main cfg block fileNull n (initialWorld cfg sched) = .ok (⟨⟩, t) ∧
      LeftBehind cfg block w t (openAfter w.app.history).dropLast) ↔
        (cfg.doServerSideBenchmarking → fileNull = false) := by
  constructor
  · rintro ⟨t, hmain, -⟩
    obtain ⟨⟨⟩, w₀, hloop, hrest⟩ := bind_eq_ok hmain
    obtain ⟨⟨⟩, w₁, hend, -⟩ := bind_eq_ok hrest
    obtain ⟨⟨⟩, w₂, hstop, -⟩ := bind_eq_ok hend
    exact opened_of_hostStopBench hstop
  · intro hfile
    obtain ⟨⟨hmade, hsamples⟩, b₀, hloop⟩ := run_of_mainLoop hrun
    have hinitial : Booked epollShape (initialLedger cfg (madeSamples cfg block))
        (benchWorld cfg b₀ (madeSamples cfg block) sched) := rfl
    obtain ⟨horderly, hsettled⟩ :=
      kept_of_run settled_kept (fun _ => settled_started) hinitial hloop
    have haccounts : Accounts (ledger epollShape w) (openAfter w.app.history) := hsettled hlast
    have hrest : Meets (Booked epollShape (ledger epollShape w))
        (do serviceLoopEnd cfg fileNull; doExitCleanup cfg)
        (fun _ t => Booked epollShape (exited cfg (ledger epollShape w)
            (openAfter w.app.history)) t ∧
          (cfg.doServerSideBenchmarking → t.bench.eventLatency.size = 0)) fun _ => False :=
      (meets_serviceLoopEnd horderly haccounts.chain hfile).bind fun _ =>
        meets_doExitCleanup (listening_firstGone horderly haccounts.chain)
    obtain ⟨⟨⟩, t, hend, ht, hbench⟩ := hrest.runs (s := w) rfl
    exact ⟨t, (bind_run hrun).trans hend,
      leftBehind_of_exited horderly haccounts hmade hsamples ht hbench⟩

theorem mainLoop_settled {block : Option Block} {sched : List (HostTick (List Fd))} {n : Nat}
    (h : (mainLoop cfg block n (initialWorld cfg sched)).isOk = true) :
    mainLoop cfg block n (initialWorld cfg sched) =
      .ok (⟨⟩, (settled (mainLoop cfg block n) (initialWorld cfg sched) ⟨⟩).2) :=
  run_settled h

/-- Three clients are there at the end. -/
def threeLeftSched : List (HostTick (List Fd)) :=
  [{ fd := 4, answer := [] }, { fd := 5, answer := [] }, { answer := [] }, { answer := [] },
    { answer := [] }, { arrivals := [.connect, .connect, .connect], answer := [3] },
    { fd := 6, answer := [] }, { ptr := 8, answer := [] }, { answer := [] },
    { fd := 7, answer := [] }, { ptr := 9, answer := [] }, { answer := [] },
    { fd := 8, answer := [] }, { ptr := 10, answer := [] }, { answer := [] }, { answer := [] }]

def threeLeftWorld : EpollWorld :=
  (settled (mainLoop smallServerConfig (some ⟨16, fun _ => 0⟩) 1)
    (initialWorld smallServerConfig threeLeftSched) ⟨⟩).2

example : addresses (openAfter threeLeftWorld.app.history).dropLast = [10, 9] := by
  decide +kernel

theorem main_leaves_all_but_first_threeLeft :
    (∃ t, main smallServerConfig (some ⟨16, fun _ => 0⟩) false 1
        (initialWorld smallServerConfig threeLeftSched) = .ok (⟨⟩, t) ∧
      LeftBehind smallServerConfig (some ⟨16, fun _ => 0⟩) threeLeftWorld t
        (openAfter threeLeftWorld.app.history).dropLast) ↔
      (smallServerConfig.doServerSideBenchmarking → false = false) :=
  main_leaves_all_but_first (mainLoop_settled (by decide +kernel)) (by decide +kernel)

end Exit

end EchoServers.EpollMain
