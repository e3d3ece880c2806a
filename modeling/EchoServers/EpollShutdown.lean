import EchoServers.EpollListRuns
import EchoServers.EpollRuns

namespace EchoServers.EpollShutdown

open EchoServers.EpollEffects
open EchoServers.EpollList
open EchoServers.EpollListRuns
open EchoServers.EpollRegistry
open EchoServers.EpollRuns
open EchoServers.EpollServer
open EchoServers.HostLedger
open EchoServers.ServerBenchmark
open EchoServers.ServerUtils
open EchoServers.SocketKernel
open EchoServers.StateTriples
open EchoServers.Utils

section Histories

/-- The clients that are open, the one accepted last in front. -/
abbrev Stack := List (Link × Fd)

def stacked (stack : Stack) : ClientStep → Stack
  | .accepted con fd => (con, fd) :: stack
  | .closed con => stack.eraseP fun x => decide (x.1 = con)

def openAfter (history : List ClientStep) : Stack :=
  history.foldl stacked []

/-- A client may be closed while it is the one accepted last. -/
def IsLast (stack : Stack) : ClientStep → Prop
  | .accepted _ _ => True
  | .closed con => stack.head?.map Prod.fst = some con

instance (stack : Stack) (step : ClientStep) : Decidable (IsLast stack step) :=
  match step with
  | .accepted _ _ => inferInstanceAs (Decidable True)
  | .closed _ => inferInstanceAs (Decidable (_ = _))

/-- Each client that is closed is the one accepted last of those then open. -/
def ClosesLast : Stack → List ClientStep → Prop
  | _, [] => True
  | stack, step :: steps => IsLast stack step ∧ ClosesLast (stacked stack step) steps

instance decidableClosesLast : ∀ (stack : Stack) (steps : List ClientStep),
    Decidable (ClosesLast stack steps)
  | _, [] => inferInstanceAs (Decidable True)
  | stack, step :: steps =>
      have := decidableClosesLast (stacked stack step) steps
      inferInstanceAs (Decidable (_ ∧ _))

/-- The clients that were accepted, in order. -/
def acceptedOf (history : List ClientStep) : Stack :=
  history.filterMap fun step =>
    match step with
    | .accepted con fd => some (con, fd)
    | .closed _ => none

/-- The addresses of the structures. -/
def addresses (stack : Stack) : List Ptr :=
  stack.map fun x => x.1.ptr

/-- The descriptors, with what was behind them. -/
def sockets (stack : Stack) : List (Fd × Option File) :=
  stack.map fun x => (x.2, x.1.object)

variable {history : List ClientStep} {stack : Stack} {step : ClientStep} {con : Link} {fd : Fd}

theorem mem_addresses {x : Link × Fd} (hx : x ∈ stack) : x.1.ptr ∈ addresses stack :=
  List.mem_map.mpr ⟨x, hx, rfl⟩

theorem closesLast_append :
    ClosesLast stack (history ++ [step]) ↔
      ClosesLast stack history ∧ IsLast (history.foldl stacked stack) step := by
  induction history generalizing stack with
  | nil => simp [ClosesLast]
  | cons first rest ih => simp [ClosesLast, ih, and_assoc]

theorem openAfter_append :
    openAfter (history ++ [step]) = stacked (openAfter history) step := by
  simp [openAfter]

theorem acceptedOf_accepted :
    acceptedOf (history ++ [.accepted con fd]) = acceptedOf history ++ [(con, fd)] := by
  simp [acceptedOf]

theorem acceptedOf_closed : acceptedOf (history ++ [.closed con]) = acceptedOf history := by
  simp [acceptedOf]

/-- What is left when the last client is closed. -/
theorem stacked_closed (h : stack.head?.map Prod.fst = some con) :
    ∃ fd rest, stack = (con, fd) :: rest ∧ stacked stack (.closed con) = rest := by
  cases stack with
  | nil => cases h
  | cons x rest =>
      obtain ⟨link, fd⟩ := x
      obtain rfl : link = con := Option.some.inj h
      exact ⟨fd, rest, rfl, by simp [stacked]⟩

theorem mem_addresses_cons {x : Link × Fd} {p : Ptr} :
    p ∈ addresses (x :: stack) ↔ p = x.1.ptr ∨ p ∈ addresses stack :=
  List.mem_cons

end Histories

section Chain

variable {l l' : EpollLedger} {stack rest : Stack} {x : Link × Fd} {p : Ptr} {fd : Fd}

/-- The structures lead from each client to the one accepted before it. -/
def Linked (l : EpollLedger) : Stack → Prop
  | [] => True
  | x :: rest =>
      l.cons x.1.ptr = some { fd := x.2, prev := rest.head?.map Prod.fst, object := x.1.object } ∧
        Linked l rest

/-- The structures on the heap are those of the open clients, and the list runs
from the last of them to the first. -/
structure Chain (l : EpollLedger) (stack : Stack) : Prop where
  linked : Linked l stack
  head : l.app.dllHead = stack.getLast?.map Prod.fst
  tail : l.app.dllTail = stack.head?.map Prod.fst
  live : ∀ p, l.cons p ≠ none ↔ p ∈ addresses stack
  nodup : (addresses stack).Nodup

/-- Structures at other addresses do not matter. -/
theorem Linked.congr (h : Linked l stack) (hsame : ∀ x ∈ stack, l'.cons x.1.ptr = l.cons x.1.ptr) :
    Linked l' stack := by
  induction stack with
  | nil => trivial
  | cons x rest ih =>
      refine ⟨(hsame x List.mem_cons_self).trans h.1, ih h.2 fun y hy => ?_⟩
      exact hsame y (List.mem_cons_of_mem _ hy)

/-- The ledger but for the heap and the ends of the list does not matter. -/
theorem Chain.congr (h : Chain l stack) (hcons : l'.cons = l.cons)
    (hhead : l'.app.dllHead = l.app.dllHead) (htail : l'.app.dllTail = l.app.dllTail) :
    Chain l' stack := by
  refine ⟨h.linked.congr fun x _ => congrFun hcons _, hhead.trans h.head, htail.trans h.tail, ?_,
    h.nodup⟩
  rw [hcons]
  exact h.live

theorem Chain.head_eq_none (h : Chain l stack) : l.app.dllHead = none ↔ stack = [] := by
  rw [h.head, Option.map_eq_none_iff, List.getLast?_eq_none_iff]

/-- The structure of a client that joins, and the ends of the list. -/
theorem clientJoined_eq (l : EpollLedger) (fd : Fd) (p : Ptr) :
    (clientJoined l fd p).cons = Function.update l.cons p (some
        { fd := fd, object := l.files fd,
          prev := if l.app.dllHead = none then none else l.app.dllTail }) ∧
      (clientJoined l fd p).app.dllHead =
        (if l.app.dllHead = none then some { ptr := p, object := l.files fd }
          else l.app.dllHead) ∧
      (clientJoined l fd p).app.dllTail = some { ptr := p, object := l.files fd } := by
  have hat : conAt ((l.stored p { fd := fd, object := l.files fd }).registered fd p) p =
      { fd := fd, object := l.files fd } := by
    simp [conAt, Ledger.registered, Ledger.stored]
  unfold clientJoined connected linkOf
  rw [hat]
  by_cases hempty : l.app.dllHead = none
  · rw [if_pos (show ((l.stored p _).registered fd p).app.dllHead = none from hempty)]
    simp only [if_pos hempty]
    exact ⟨rfl, rfl, rfl⟩
  · rw [if_neg (show ¬ ((l.stored p _).registered fd p).app.dllHead = none from hempty)]
    simp only [if_neg hempty]
    refine ⟨?_, rfl, rfl⟩
    change Function.update (Function.update l.cons p _) p _ = _
    exact Function.update_idem ..

theorem Chain.clientJoined_eq (h : Chain l stack) (fd : Fd) (p : Ptr) :
    (clientJoined l fd p).cons = Function.update l.cons p
        (some { fd := fd, prev := stack.head?.map Prod.fst, object := l.files fd }) ∧
      (clientJoined l fd p).app.dllHead =
        (({ ptr := p, object := l.files fd }, fd) :: stack).getLast?.map Prod.fst ∧
      (clientJoined l fd p).app.dllTail = some { ptr := p, object := l.files fd } := by
  obtain ⟨hcons, hhead, htail⟩ := EpollShutdown.clientJoined_eq l fd p
  rw [hcons, hhead, htail]
  by_cases hempty : l.app.dllHead = none
  · obtain rfl := h.head_eq_none.mp hempty
    simp only [if_pos hempty]
    exact ⟨rfl, rfl, trivial⟩
  · have hstack : stack ≠ [] := fun hnil => hempty (h.head_eq_none.mpr hnil)
    simp only [if_neg hempty]
    rw [h.tail, h.head, List.getLast?_cons_of_ne_nil hstack]
    exact ⟨rfl, rfl, trivial⟩

/-- A client that joins is put on top. -/
theorem Chain.joined (h : Chain l stack) (hnew : l.cons p = none) (fd : Fd) :
    Chain (clientJoined l fd p) (({ ptr := p, object := l.files fd }, fd) :: stack) := by
  have hfresh : p ∉ addresses stack := fun hmem => (h.live p).mpr hmem hnew
  obtain ⟨hcons, hhead, htail⟩ := h.clientJoined_eq fd p
  refine ⟨⟨?_, h.linked.congr fun x hx => ?_⟩, hhead, htail, fun q => ?_,
    List.nodup_cons.mpr ⟨hfresh, h.nodup⟩⟩
  · rw [hcons]
    exact Function.update_self ..
  · have hne : x.1.ptr ≠ p := by
      intro heq
      exact hfresh (heq ▸ mem_addresses hx)
    rw [hcons, Function.update_of_ne hne]
  · rw [hcons, mem_addresses_cons]
    rcases eq_or_ne q p with rfl | hne
    · simp
    · rw [Function.update_of_ne hne, h.live q]
      exact ⟨.inr, fun hmem => hmem.resolve_left hne⟩

/-- Nothing is written when the client on top is taken out, since the links
forward are never set. -/
theorem Chain.bridged_eq (h : Chain l (x :: rest)) : bridged l x.1.ptr = l := by
  have hat : conAt l x.1.ptr =
      { fd := x.2, prev := rest.head?.map Prod.fst, object := x.1.object } := by
    rw [conAt, h.linked.1]
    rfl
  simp only [bridged, hat, wroteIf]
  cases rest with
  | nil => rfl
  | cons y rest =>
      have hy := h.linked.2.1
      change wroteThrough l y.1 _ = l
      simp only [wroteThrough, hy, ne_eq, not_true_eq_false, if_false, List.append_nil]
      exact stored_self hy

theorem Chain.unlinked_eq (h : Chain l (x :: rest)) :
    unlinked l x.1.ptr =
      withEnds l (rest.getLast?.map Prod.fst) (rest.head?.map Prod.fst) := by
  have hat : conAt l x.1.ptr =
      { fd := x.2, prev := rest.head?.map Prod.fst, object := x.1.object } := by
    rw [conAt, h.linked.1]
    rfl
  have htail : l.app.dllTail.map Link.ptr = some x.1.ptr := by
    rw [h.tail]
    rfl
  simp only [unlinked, h.bridged_eq, hat, htail, if_true]
  congr 1
  rw [h.head]
  cases rest with
  | nil => simp
  | cons y rest =>
      rw [List.getLast?_cons_cons]
      apply if_neg
      rw [List.getLast?_eq_some_getLast (List.cons_ne_nil y rest)]
      intro heq
      have hmem := List.getLast_mem (List.cons_ne_nil y rest)
      have hfresh : x.1.ptr ∉ addresses (y :: rest) := (List.nodup_cons.mp h.nodup).1
      apply hfresh
      rw [← Option.some.inj heq]
      exact mem_addresses hmem

/-- The client on top is closed. -/
theorem Chain.gone (h : Chain l (x :: rest)) (f : File) :
    Chain (clientGone (unlinked l x.1.ptr) x.1.ptr f) rest := by
  have hfresh : x.1.ptr ∉ addresses rest := (List.nodup_cons.mp h.nodup).1
  have hcons : (clientGone (unlinked l x.1.ptr) x.1.ptr f).cons =
      Function.update l.cons x.1.ptr none := by
    rw [h.unlinked_eq]
    rfl
  have hne : ∀ y ∈ rest, y.1.ptr ≠ x.1.ptr := by
    intro y hy heq
    exact hfresh (heq ▸ mem_addresses hy)
  refine ⟨h.linked.2.congr fun y hy => ?_, ?_, ?_, fun q => ?_, (List.nodup_cons.mp h.nodup).2⟩
  · rw [hcons, Function.update_of_ne (hne y hy)]
  · rw [h.unlinked_eq]
    rfl
  · rw [h.unlinked_eq]
    rfl
  · rw [hcons]
    rcases eq_or_ne q x.1.ptr with rfl | hq
    · simpa using hfresh
    · rw [Function.update_of_ne hq, h.live q, mem_addresses_cons]
      exact ⟨fun hmem => hmem.resolve_left hq, .inr⟩

end Chain

section Accounts

variable {cfg : ServerConfig} {l l' : EpollLedger} {ev : EpollEvent} {evs : List EpollEvent}

/-- The descriptors of connections that were closed, with the connection. -/
def closedSockets (closes : List (Fd × File)) : List (Fd × Option File) :=
  closes.filterMap fun c =>
    match c.2 with
    | .socket _ => some (c.1, some c.2)
    | _ => none

/-- What the server owes and what it has paid back: the open clients account
for the difference. -/
structure Accounts (l : EpollLedger) (stack : Stack) : Prop where
  chain : Chain l stack
  closed : (sockets (acceptedOf l.app.history)).Perm (closedSockets l.closes ++ sockets stack)
  freed : (addresses (acceptedOf l.app.history)).Perm (l.freed ++ addresses stack)
  accepts : l.accepts.filter (fun fd => decide (fd ≠ -1)) =
    (acceptedOf l.app.history).map Prod.snd
  faults : l.faults = []

/-- In a run that has closed the clients in the order opposite to that in which
it accepted them. -/
def Settled (l : EpollLedger) : Prop :=
  ClosesLast [] l.app.history → Accounts l (openAfter l.app.history)

theorem settled_started (h : Started cfg l) : Settled l := by
  intro _
  rw [h.history]
  refine ⟨⟨trivial, h.dllHead, h.dllTail, fun p => ?_, List.nodup_nil⟩, ?_, ?_, ?_, h.faults⟩
  · rw [h.cons p]
    simp [openAfter, addresses]
  · rw [h.history, h.closes]
    exact List.Perm.nil
  · rw [h.history, h.freed]
    exact List.Perm.nil
  · rw [h.history, h.accepts]
    rfl

/-- The steps that are not about a client leave the accounts as they are. -/
theorem Accounts.congr {stack : Stack} (h : Accounts l stack)
    (hhistory : l'.app.history = l.app.history)
    (hcons : l'.cons = l.cons) (hhead : l'.app.dllHead = l.app.dllHead)
    (htail : l'.app.dllTail = l.app.dllTail) (hfreed : l'.freed = l.freed)
    (hclosed : closedSockets l'.closes = closedSockets l.closes)
    (haccepts : l'.accepts.filter (fun fd => decide (fd ≠ -1)) =
      l.accepts.filter fun fd => decide (fd ≠ -1))
    (hfaults : l'.faults = l.faults) : Accounts l' stack := by
  refine ⟨h.chain.congr hcons hhead htail, ?_, ?_, ?_, hfaults.trans h.faults⟩
  · rw [hhistory, hclosed]
    exact h.closed
  · rw [hhistory, hfreed]
    exact h.freed
  · rw [hhistory, haccepts]
    exact h.accepts

theorem Settled.congr (h : Settled l) (hhistory : l'.app.history = l.app.history)
    (hcons : l'.cons = l.cons) (hhead : l'.app.dllHead = l.app.dllHead)
    (htail : l'.app.dllTail = l.app.dllTail) (hfreed : l'.freed = l.freed)
    (hclosed : closedSockets l'.closes = closedSockets l.closes)
    (haccepts : l'.accepts.filter (fun fd => decide (fd ≠ -1)) =
      l.accepts.filter fun fd => decide (fd ≠ -1))
    (hfaults : l'.faults = l.faults) : Settled l' := by
  intro hlast
  rw [hhistory] at hlast ⊢
  exact (h hlast).congr hhistory hcons hhead htail hfreed hclosed haccepts hfaults

theorem Settled.joined (h : Settled l) {fd : Fd} {p : Ptr} (hfd : 0 ≤ fd)
    (hnew : l.cons p = none) (c : ConnId) :
    Settled (clientJoined ((l.opened fd (.socket c)).answered fd) fd p) := by
  intro hlast
  have hobject : ((l.opened fd (.socket c)).answered fd).files fd = some (.socket c) :=
    Function.update_self ..
  have hjoins := joins_clientJoined ((l.opened fd (.socket c)).answered fd) fd p
  have hhistory : (clientJoined ((l.opened fd (.socket c)).answered fd) fd p).app.history =
      l.app.history ++ [.accepted { ptr := p, object := some (.socket c) } fd] := by
    rw [hjoins.history, hobject]
    rfl
  rw [hhistory] at hlast ⊢
  have haccounts := h (closesLast_append.mp hlast).1
  have hchain : Chain ((l.opened fd (.socket c)).answered fd) (openAfter l.app.history) :=
    haccounts.chain.congr rfl rfl rfl
  have hjoined := hchain.joined hnew fd
  rw [hobject] at hjoined
  rw [openAfter_append]
  refine ⟨hjoined, ?_, ?_, ?_, hjoins.faults.trans haccounts.faults⟩
  · rw [hhistory, hjoins.closes, acceptedOf_accepted, sockets, List.map_append]
    exact (haccounts.closed.append_right _).trans (List.append_assoc .. ▸
      (List.perm_append_comm.append_left _))
  · rw [hhistory, hjoins.freed, acceptedOf_accepted, addresses, List.map_append]
    exact (haccounts.freed.append_right _).trans (List.append_assoc .. ▸
      (List.perm_append_comm.append_left _))
  · rw [hhistory, hjoins.accepts, acceptedOf_accepted, List.map_append, ← haccounts.accepts]
    change (l.accepts ++ [fd]).filter _ = _
    rw [List.filter_append, List.filter_cons_of_pos (by simpa using ne_of_fd_nonneg hfd)]
    rfl

theorem settled_accepted (haccepted : Accepted l l') (h : Settled l) : Settled l' := by
  induction haccepted with
  | done l => exact h.congr rfl rfl rfl rfl rfl rfl (by simp [Ledger.answered]) rfl
  | more l fd c p l' hfd hfree hp hnew hinterest hrest ih => exact ih (h.joined hfd hnew c)

/-- What closing a client leaves in the record of what happened. -/
theorem clientGone_eq {p : Ptr} {fd : Fd} {c : ConnId}
    (hcon : clients l p = some (fd, some (.socket c))) :
    (clientGone (unlinked l p) p (.socket c)).closes = l.closes ++ [(fd, .socket c)] ∧
      (clientGone (unlinked l p) p (.socket c)).app.history =
        l.app.history ++ [.closed { ptr := p, object := some (.socket c) }] ∧
      (clientGone (unlinked l p) p (.socket c)).freed = l.freed ++ [p] ∧
      (clientGone (unlinked l p) p (.socket c)).accepts = l.accepts := by
  have hrelinked := relinked_unlinked l p
  obtain ⟨hfd, hobject⟩ := core_of_clients ((congrFun hrelinked.clients p).trans hcon)
  refine ⟨?_, ?_, congrArg (· ++ [p]) hrelinked.freed, hrelinked.accepts⟩
  · change (unlinked l p).closes ++ [((conAt (unlinked l p) p).fd, .socket c)] = _
    rw [hrelinked.closes, hfd]
  · change (unlinked l p).app.history ++
      [.closed { ptr := p, object := (conAt (unlinked l p) p).object }] = _
    rw [hrelinked.history, hobject]

theorem closedSockets_append (closes : List (Fd × File)) (fd : Fd) (c : ConnId) :
    closedSockets (closes ++ [(fd, .socket c)]) =
      closedSockets closes ++ [(fd, some (.socket c))] := by
  simp [closedSockets]

/-- Closing the client on top moves it from the open ones to the closed ones. -/
theorem Accounts.gone {p : Ptr} {fd : Fd} {c : ConnId} {rest : Stack}
    (h : Accounts l (({ ptr := p, object := some (.socket c) }, fd) :: rest)) :
    Accounts (clientGone (unlinked l p) p (.socket c)) rest := by
  have hcon : clients l p = some (fd, some (.socket c)) := by
    rw [clients, h.chain.linked.1]
    rfl
  obtain ⟨hcloses, hhistory, hfreed, haccepts⟩ := clientGone_eq hcon
  refine ⟨h.chain.gone (.socket c), ?_, ?_, ?_, ?_⟩
  · rw [hhistory, acceptedOf_closed, hcloses, closedSockets_append, List.append_assoc]
    exact h.closed
  · rw [hhistory, acceptedOf_closed, hfreed, List.append_assoc]
    exact h.freed
  · rw [hhistory, acceptedOf_closed, haccepts]
    exact h.accepts
  · have hunlinked := h.chain.unlinked_eq
    change (unlinked l p).faults = []
    rw [hunlinked]
    exact h.faults

theorem Settled.gone (h : Settled l) {p : Ptr} {fd : Fd} {c : ConnId}
    (hcon : clients l p = some (fd, some (.socket c))) :
    Settled (clientGone (unlinked l p) p (.socket c)) := by
  intro hlast
  have hhistory := (clientGone_eq hcon).2.1
  rw [hhistory] at hlast ⊢
  obtain ⟨hbefore, hfirst⟩ := closesLast_append.mp hlast
  have haccounts := h hbefore
  obtain ⟨fd', rest, hstack, hrest⟩ := stacked_closed hfirst
  have hopen : openAfter l.app.history =
      ({ ptr := p, object := some (.socket c) }, fd') :: rest := hstack
  have hrest : openAfter (l.app.history ++ [.closed { ptr := p, object := some (.socket c) }]) =
      rest := openAfter_append.trans hrest
  rw [hopen] at haccounts
  rw [hrest]
  exact haccounts.gone

theorem settled_kept : Kept cfg Settled := by
  intro l ev evs l' horderly hremaining hserviced h
  have hdue := horderly.due hremaining
  have hrecorded : ∀ branch, Settled (recordedAs l branch ev) := fun branch =>
    h.congr rfl rfl rfl rfl rfl rfl rfl rfl
  cases hserviced with
  | newClient _ hfd haccepted => exact settled_accepted haccepted (hrecorded _)
  | timer f hls hfd hfile =>
      have htimer := (horderly.registry.timer.resolve_left (horderly.tfd_ne hfile)).1
      obtain rfl : f = .timer := Option.some.inj (hfile.symm.trans htimer)
      refine (hrecorded .timer).congr rfl rfl rfl rfl rfl ?_ rfl rfl
      simp [closedSockets, timerClosed, Ledger.closed, Ledger.withApp, recordedAs]
  | closed f hls hfd hrdhup hfile =>
      rw [hdue.eventFd_eq] at hls hfd
      cases hdue with
      | listening hfd' _ _ => exact absurd hfd' hls
      | timer _ hfd' _ _ => exact absurd hfd' hfd
      | client c hdata hobject hcon =>
          have hbehind := hremaining.behind ev List.mem_cons_self
          rw [(core_of_clients hcon).1, hbehind, hobject] at hfile
          obtain rfl : File.socket c = f := Option.some.inj hfile
          exact (hrecorded .client).gone hcon
  | kept hls hfd => exact hrecorded _

theorem settled_of_reachable {w : EpollWorld} (h : Reachable cfg w) :
    Settled (ledger epollShape w) :=
  (kept_of_reachable settled_kept (fun _ => settled_started) h).2

end Accounts

section Cleanup

variable {cfg : ServerConfig} {l : EpollLedger} {stack rest : Stack} {x : Link × Fd} {p : Ptr}
  {c : ConnId} {E : Stop → Prop}

/-- The cleanup runs to its end.  Then each descriptor that was accepted has
been closed once, each structure that was allocated has been freed once, and no
link has led to a freed one. -/
def Graceful (w : EpollWorld) : Prop :=
  ∃ w' : EpollWorld, doServiceLoopCleanup w = .ok (⟨⟩, w') ∧
    w'.accepts.filter (fun fd => decide (fd ≠ -1)) =
      (acceptedOf w'.app.history).map Prod.snd ∧
    (closedSockets w'.kernel.closes).Perm (sockets (acceptedOf w'.app.history)) ∧
    w'.freed.Perm (addresses (acceptedOf w'.app.history)) ∧
    (∀ p, w'.cons p = none) ∧ w'.faults = []

theorem Linked.client (h : Linked l stack) (hx : x ∈ stack) :
    clients l x.1.ptr = some (x.2, x.1.object) := by
  induction stack with
  | nil => cases hx
  | cons y rest ih =>
      rcases List.mem_cons.mp hx with rfl | hx
      · rw [clients, h.1]
        rfl
      · exact ih h.2 hx

/-- The structures of the open clients are at their sockets. -/
def Seated (l : EpollLedger) (stack : Stack) : Prop :=
  ∀ x ∈ stack, ∃ c, x.1.object = some (.socket c) ∧ l.files x.2 = some (.socket c)

theorem seated (h : Orderly cfg l) (hlinked : Linked l stack) : Seated l stack := by
  intro x hx
  obtain ⟨-, ⟨c, hobject⟩, hfile, -⟩ := h.registry.client _ _ _ (hlinked.client hx)
  exact ⟨c, hobject, hobject ▸ hfile⟩

/-- Another descriptor than those of the clients is closed. -/
theorem Seated.closed (h : Seated l stack) {fd : Fd} {f : File} (hfile : l.files fd = some f)
    (hsocket : ∀ c, f ≠ .socket c) : Seated (l.closed fd f) stack := by
  intro x hx
  obtain ⟨c, hobject, hopen⟩ := h x hx
  have hne : x.2 ≠ fd := ne_of_files_ne hfile hopen (hsocket c).symm
  exact ⟨c, hobject, (Function.update_of_ne hne _ _).trans hopen⟩

theorem closedSockets_other (closes : List (Fd × File)) (fd : Fd) {f : File}
    (hsocket : ∀ c, f ≠ .socket c) :
    closedSockets (closes ++ [(fd, f)]) = closedSockets closes := by
  cases f with
  | socket c => exact absurd rfl (hsocket c)
  | listening => simp [closedSockets]
  | timer => simp [closedSockets]
  | epoll => simp [closedSockets]

theorem Accounts.closed_other (h : Accounts l stack) (fd : Fd) {f : File}
    (hsocket : ∀ c, f ≠ .socket c) : Accounts (l.closed fd f) stack :=
  h.congr rfl rfl rfl rfl rfl (closedSockets_other l.closes fd hsocket) rfl rfl

theorem returns_dllRemove (p : Ptr) : Returns (dllRemove p) :=
  returns_performCall (.remove p)

theorem meets_readThrough {link : Link} {con : PdEchoConnection}
    (hcon : l.cons link.ptr = some con) (hobject : con.object = link.object) :
    Meets (Booked epollShape l) (readThrough link)
      (fun c w => c.next = con.next ∧ Booked epollShape l w) E := by
  have hread : Meets (Booked epollShape l) (readCon link.ptr)
      (fun c w => epollShape c = con ∧ Booked epollShape l w) E :=
    ⟨Stops.of_returns (returns_readCon _), booked_readCon hcon⟩
  refine hread.bind fun c => Meets.and_pre fun hshape => ?_
  have hsame : c.object = link.object := by
    rw [← hobject, ← hshape]
    rfl
  have hnext : c.next = con.next := by
    rw [← hshape]
    rfl
  rw [whenTrue_of_not (not_not_intro hsame), pure_bind]
  exact Meets.pure _ fun w hw => ⟨hnext, hw⟩

/-- A client whose descriptor is open can be closed. -/
theorem meets_closeClient {f : File} (hlive : l.cons p ≠ none)
    (hfile : l.files (conAt l p).fd = some f) :
    Meets (Booked epollShape l) (closeClient p)
      (fun _ => Booked epollShape (clientGone (unlinked l p) p f)) E := by
  have hrelinked := relinked_unlinked l p
  have hlive' : (unlinked l p).cons p ≠ none := fun hnone =>
    hlive ((hrelinked.live_iff p).mp hnone)
  constructor
  · refine Stops.bind (Stops.of_returns (returns_dllRemove p)) (booked_dllRemove hlive) fun _ => ?_
    refine Stops.bind (Stops.of_returns (returns_readCon p)) (booked_readCon (conAt_eq hlive'))
      fun con => ?_
    have hclose : epollShape con = conAt (unlinked l p) p →
        Meets (Booked epollShape (unlinked l p)) (hostClose con.fd : Program EpollWorld Int)
          (fun rc w => rc = 0 ∧ Booked epollShape ((unlinked l p).closed con.fd f) w) E := by
      intro hshape
      apply meets_hostClose
      have hcore : core con = core (conAt l p) := by
        rw [← hrelinked.core_eq hlive, ← hshape]
        rfl
      rw [hrelinked.files, show con.fd = (conAt l p).fd from congrArg Prod.fst hcore]
      exact hfile
    refine Meets.stops (Q := fun _ _ => True) ?_
    refine Meets.and_pre fun hshape => (hclose hshape).bind fun rc => Meets.and_pre ?_
    rintro rfl
    refine meets_assertZero.bind fun _ => ?_
    have hrest : Returns (do
        modifyApp fun a =>
          { a with history := a.history ++ [.closed { ptr := p, object := con.object }] }
        freeCon p : Program EpollWorld PUnit) :=
      (Returns.modify _).bind fun _ => returns_freeCon p
    exact ⟨Stops.of_returns hrest, fun _ _ _ _ _ => trivial⟩
  · refine (booked_closeClient hlive).post ?_
    rintro _ w ⟨f', hfile', hw⟩
    rw [hfile] at hfile'
    obtain rfl := Option.some.inj hfile'
    exact hw

/-- With one client at most, the walk through the list closes all of them. -/
theorem meets_closeClients (haccounts : Accounts l stack) (hshort : stack.length ≤ 1)
    (hseated : Seated l stack) (fuel : Nat) :
    Meets (Booked epollShape l) (closeClients (fuel + 1) l.app.dllHead)
      (fun _ w => Accounts (ledger epollShape w) []) E := by
  cases stack with
  | nil =>
      rw [haccounts.chain.head]
      refine Meets.pure _ ?_
      rintro w rfl
      exact haccounts
  | cons x rest =>
      obtain rfl : rest = [] := List.eq_nil_of_length_eq_zero (by simpa using hshort)
      obtain ⟨⟨p, object⟩, fd⟩ := x
      obtain ⟨c, rfl, hopen⟩ := hseated _ List.mem_cons_self
      have hcon := haccounts.chain.linked.1
      have hlive : l.cons p ≠ none := by
        rw [hcon]
        exact Option.some_ne_none _
      have hfile : l.files (conAt l p).fd = some (.socket c) := by
        rw [conAt, hcon]
        exact hopen
      rw [haccounts.chain.head]
      have hread : Meets (Booked epollShape l)
          (readThrough { ptr := p, object := some (.socket c) })
          (fun con w => con.next = none ∧ Booked epollShape l w) E :=
        meets_readThrough hcon rfl
      refine hread.bind fun con => Meets.and_pre fun hnext =>
        (meets_closeClient hlive hfile).bind fun _ => ?_
      rw [hnext]
      cases fuel <;>
      · refine Meets.pure _ fun w hw => ?_
        rw [show ledger epollShape w = _ from hw]
        exact haccounts.gone

theorem meets_closeTimer {f : File} (hfile : l.files l.app.tfd = some f) :
    Meets (Booked epollShape l) closeTimer (fun _ => Booked epollShape (timerClosed l f)) E := by
  refine Meets.get_bind fun w hw => ?_
  have happ : w.app = l.app := congrArg Ledger.app hw
  rw [happ]
  have hclose : Meets (fun w' => w' = w) (hostClose l.app.tfd : Program EpollWorld Int)
      (fun rc w => rc = 0 ∧ Booked epollShape (l.closed l.app.tfd f) w) E :=
    (meets_hostClose hfile).pre fun _ heq => heq ▸ hw
  refine hclose.bind fun rc => Meets.and_pre ?_
  rintro rfl
  exact meets_assertZero.bind fun _ => ⟨Stops.of_returns (Returns.modify _), booked_epollApp _⟩

/-- The cleanup after the timer. -/
theorem meets_closeEpoll (haccounts : Accounts l stack) (hshort : stack.length ≤ 1)
    (hseated : Seated l stack) (hpolled : l.files l.app.epollFd = some .epoll) :
    Meets (Booked epollShape l) (do
      let rc ← hostClose (← get).app.epollFd
      assertZero rc "close epoll_fd"
      let w ← get
      closeClients (w.accepts.length + 1) w.app.dllHead)
      (fun _ w => Accounts (ledger epollShape w) []) E := by
  refine Meets.get_bind fun w hw => ?_
  have happ : w.app = l.app := congrArg Ledger.app hw
  rw [happ]
  refine ((meets_hostClose hpolled).pre fun _ heq => heq ▸ hw).bind fun rc => Meets.and_pre ?_
  rintro rfl
  refine meets_assertZero.bind fun _ => Meets.get_bind fun w₁ hw₁ => ?_
  have happ₁ : w₁.app = l.app := congrArg Ledger.app hw₁
  rw [happ₁]
  have hclosed := haccounts.closed_other l.app.epollFd (f := .epoll) (by simp)
  exact (meets_closeClients hclosed hshort (hseated.closed hpolled (by simp)) _).pre
    fun _ heq => heq ▸ hw₁

theorem meets_doServiceLoopCleanup (h : Orderly cfg l) (haccounts : Accounts l stack)
    (hshort : stack.length ≤ 1) :
    Meets (Booked epollShape l) doServiceLoopCleanup
      (fun _ w => Accounts (ledger epollShape w) []) E := by
  have hseated := seated h haccounts.chain.linked
  refine Meets.get_bind fun w hw => ?_
  have happ : w.app = l.app := congrArg Ledger.app hw
  rw [happ]
  by_cases htfd : l.app.tfd = -1
  · rw [whenTrue_of_not (not_not_intro htfd), pure_bind]
    exact (meets_closeEpoll haccounts hshort hseated h.registry.polled).pre
      fun _ heq => heq ▸ hw
  · rw [whenTrue_of htfd]
    have htimer := (h.registry.timer.resolve_left htfd).1
    have hne : l.app.epollFd ≠ l.app.tfd := ne_of_files_ne htimer h.registry.polled (by simp)
    have hclose : Meets (fun w' => w' = w) closeTimer
        (fun _ => Booked epollShape (timerClosed l .timer)) E :=
      (meets_closeTimer htimer).pre fun _ heq => heq ▸ hw
    refine hclose.bind fun _ => ?_
    have hclosed := haccounts.closed_other l.app.tfd (f := .timer) (by simp)
    have hgone : Accounts (timerClosed l .timer) stack :=
      hclosed.congr rfl rfl rfl rfl rfl rfl rfl rfl
    refine meets_closeEpoll hgone hshort (hseated.closed htimer (by simp)) ?_
    exact (Function.update_of_ne hne _ _).trans h.registry.polled

/-- The cleanup settles the accounts if the clients were closed in the order
opposite to that of their arrival, and one is left at most. -/
theorem graceful_of_lastFirst {w : EpollWorld} (h : Reachable cfg w)
    (hlast : ClosesLast [] w.app.history) (hshort : (openAfter w.app.history).length ≤ 1) :
    Graceful w := by
  have haccounts := settled_of_reachable h hlast
  obtain ⟨⟨⟩, w', hrun, hsettled⟩ :=
    (meets_doServiceLoopCleanup (orderly_of_reachable h) haccounts hshort).runs rfl
  refine ⟨w', hrun, hsettled.accepts, ?_, ?_, fun p => ?_, hsettled.faults⟩
  · have hclosed := hsettled.closed.symm
    rwa [sockets, List.map_nil, List.append_nil] at hclosed
  · have hfreed := hsettled.freed.symm
    rwa [show addresses [] = [] from rfl, List.append_nil] at hfreed
  · have hnone : (ledger epollShape w').cons p = none := by
      by_contra hlive
      exact absurd ((hsettled.chain.live p).mp hlive) (by simp [addresses])
    exact Option.map_eq_none_iff.mp hnone

end Cleanup

end EchoServers.EpollShutdown
