import EchoServers.EpollEchoes
import EchoServers.EpollShutdown

/-!
Which runs of the epoll server the cleanup can settle.  No link forward is ever
set, so that a client that was closed while a later one was there leaves that one
with a link to freed memory, and the cleanup reaches one client at most.
-/

namespace EchoServers.EpollGraceful

open EchoServers.EchoTraffic
open EchoServers.EpollEchoes
open EchoServers.EpollEffects
open EchoServers.EpollList
open EchoServers.EpollRuns
open EchoServers.EpollServer
open EchoServers.EpollShutdown
open EchoServers.HostLedger
open EchoServers.ServerBenchmark
open EchoServers.ServerUtils
open EchoServers.SocketKernel
open EchoServers.StateTriples
open EchoServers.Utils

section Links

variable {l l' : EpollLedger} {link : Link} {p q : Ptr} {fd : Fd} {f : File}
  {con : PdEchoConnection}

/-- The memory that the link leads to was freed, and may be in use again. -/
def Dangling (l : EpollLedger) (link : Link) : Prop :=
  ∀ con, l.cons link.ptr = some con → con.object ≠ link.object

/-- No link forward is set, and the head of the list is a client that is there. -/
structure Sound (l : EpollLedger) : Prop where
  forward : ∀ p con, l.cons p = some con → con.next = none
  head : ∀ link, l.app.dllHead = some link → ¬ Dangling l link

theorem Dangling.congr (h : Dangling l link) (hcons : l'.cons = l.cons) : Dangling l' link := by
  intro con hcon
  rw [hcons] at hcon
  exact h con hcon

theorem Sound.congr (h : Sound l) (hcons : l'.cons = l.cons)
    (hhead : l'.app.dllHead = l.app.dllHead) : Sound l' := by
  refine ⟨?_, fun link hlink hdangling => ?_⟩
  · rw [hcons]
    exact h.forward
  · rw [hhead] at hlink
    exact h.head link hlink (hdangling.congr hcons.symm)

theorem Sound.next_conAt (h : Sound l) (p : Ptr) : (conAt l p).next = none := by
  unfold conAt
  cases hcon : l.cons p with
  | none => rfl
  | some con => exact h.forward p con hcon

/-- The client that the head leads to. -/
theorem Sound.head_eq (h : Sound l) (hlink : l.app.dllHead = some link) :
    ∃ con, l.cons link.ptr = some con ∧ con.object = link.object := by
  by_contra hnone
  apply h.head link hlink
  intro con hcon hobject
  exact hnone ⟨con, hcon, hobject⟩

/-- A write of a null link forward changes nothing. -/
theorem Sound.cons_wroteIf (h : Sound l) (link : Option Link) :
    (wroteIf l link fun c => { c with next := none }).cons = l.cons := by
  cases link with
  | none => rfl
  | some link =>
      unfold wroteIf wroteThrough
      dsimp only
      cases hcon : l.cons link.ptr with
      | none => rfl
      | some con =>
          change Function.update l.cons link.ptr (some { con with next := none }) = _
          have hsame : { con with next := none } = con := by
            rw [← h.forward _ _ hcon]
          rw [hsame, ← hcon, Function.update_eq_self]

theorem Sound.bridged_eq (h : Sound l) (p : Ptr) :
    bridged l p = wroteIf l (conAt l p).prev fun c => { c with next := none } := by
  simp only [bridged, h.next_conAt, wroteIf]

theorem app_wroteIf (link : Option Link) (g : PdEchoConnection → PdEchoConnection) :
    (wroteIf l link g).app = l.app := by
  cases link with
  | none => rfl
  | some link =>
      unfold wroteIf wroteThrough
      dsimp only
      cases l.cons link.ptr <;> rfl

/-- A fault that was recorded stays recorded. -/
theorem faults_wroteIf (h : l.faults ≠ []) (link : Option Link)
    (g : PdEchoConnection → PdEchoConnection) : (wroteIf l link g).faults ≠ [] := by
  cases link with
  | none => exact h
  | some link =>
      unfold wroteIf wroteThrough
      dsimp only
      cases l.cons link.ptr with
      | none => exact List.append_ne_nil_of_left_ne_nil h _
      | some con => exact List.append_ne_nil_of_left_ne_nil h _

/-- A write through a dangling link is a fault. -/
theorem faults_wroteIf_of_dangling (h : Dangling l link)
    (g : PdEchoConnection → PdEchoConnection) : (wroteIf l (some link) g).faults ≠ [] := by
  unfold wroteIf wroteThrough
  dsimp only
  cases hcon : l.cons link.ptr with
  | none => simp
  | some con => simp [h con hcon]

theorem Sound.cons_gone (h : Sound l) (p : Ptr) (f : File) :
    (clientGone (unlinked l p) p f).cons = Function.update l.cons p none := by
  change Function.update (bridged l p).cons p none = _
  rw [h.bridged_eq, h.cons_wroteIf]

/-- The list has no head any more when it was the client that is closed. -/
theorem Sound.head_gone (h : Sound l) (p : Ptr) (f : File) :
    (clientGone (unlinked l p) p f).app.dllHead =
      if l.app.dllHead.map Link.ptr = some p then none else l.app.dllHead := by
  change (if (bridged l p).app.dllHead.map Link.ptr = some p then (conAt (bridged l p) p).next
    else (bridged l p).app.dllHead) = _
  have hcons : (bridged l p).cons = l.cons := by
    rw [h.bridged_eq, h.cons_wroteIf]
  have hsame : conAt (bridged l p) p = conAt l p := by
    rw [conAt, hcons]
    rfl
  rw [hsame, h.next_conAt, h.bridged_eq, app_wroteIf]

theorem Sound.gone (h : Sound l) (p : Ptr) (f : File) :
    Sound (clientGone (unlinked l p) p f) := by
  have hcons := h.cons_gone p f
  refine ⟨fun q con hcon => ?_, fun link hlink hdangling => ?_⟩
  · rw [hcons] at hcon
    rcases eq_or_ne q p with rfl | hne
    · rw [Function.update_self] at hcon
      cases hcon
    · rw [Function.update_of_ne hne] at hcon
      exact h.forward q con hcon
  · rw [h.head_gone] at hlink
    split_ifs at hlink with hhead
    have hne : link.ptr ≠ p := by
      rw [hlink] at hhead
      exact fun heq => hhead (congrArg some heq)
    apply h.head link hlink
    intro con hcon
    apply hdangling con
    rw [hcons, Function.update_of_ne hne]
    exact hcon

theorem Sound.joined (h : Sound l) (hnew : l.cons p = none) (fd : Fd) :
    Sound (clientJoined l fd p) := by
  obtain ⟨hcons, hhead, -⟩ := clientJoined_eq l fd p
  refine ⟨fun q con hcon => ?_, fun link hlink hdangling => ?_⟩
  · rw [hcons] at hcon
    rcases eq_or_ne q p with rfl | hne
    · rw [Function.update_self] at hcon
      obtain rfl := Option.some.inj hcon
      rfl
    · rw [Function.update_of_ne hne] at hcon
      exact h.forward q con hcon
  · rw [hhead] at hlink
    split_ifs at hlink with hempty
    · obtain rfl := Option.some.inj hlink
      have hself := congrFun hcons p
      rw [Function.update_self] at hself
      exact hdangling _ hself rfl
    · obtain ⟨con, hcon, hobject⟩ := h.head_eq hlink
      have hne : link.ptr ≠ p := by
        intro heq
        rw [heq, hnew] at hcon
        cases hcon
      refine hdangling con ?_ hobject
      rw [hcons, Function.update_of_ne hne]
      exact hcon

end Links

section Spoiled

variable {cfg : ServerConfig} {l l' : EpollLedger} {stack : Stack} {p : Ptr} {fd : Fd}
  {c : ConnId}

/-- The connections that were closed. -/
def closedConns (l : EpollLedger) : List ConnId :=
  l.closes.filterMap socketOf

/-- A connection was closed and is a client's again, or was closed twice. -/
def Reaccepted (l : EpollLedger) : Prop :=
  ¬ (closedConns l).Nodup ∨
    ∃ p fd, ∃ c ∈ closedConns l, clients l p = some (fd, some (.socket c))

/-- The link back of a client leads to one that was closed. -/
def Severed (l : EpollLedger) (p : Ptr) : Prop :=
  ∃ con link, l.cons p = some con ∧ con.prev = some link ∧ Dangling l link ∧
    ∃ c ∈ closedConns l, link.object = some (.socket c)

/-- There was a write through a dangling link, or there will be one when a client
that is there is closed. -/
def Spoiled (l : EpollLedger) : Prop :=
  l.faults ≠ [] ∨ Reaccepted l ∨ ∃ p, Severed l p

theorem Spoiled.congr (h : Spoiled l) (hcons : l'.cons = l.cons)
    (hclosed : closedConns l' = closedConns l) (hfaults : l'.faults = l.faults) : Spoiled l' := by
  unfold Spoiled Reaccepted Severed Dangling clients at h ⊢
  rwa [hcons, hclosed, hfaults]

theorem clients_joined (hp : q ≠ p) : clients (clientJoined l fd p) q = clients l q := by
  rw [clients, (clientJoined_eq l fd p).1, Function.update_of_ne hp, clients]

/-- The client that joins is behind no old link: its connection is a new one, or
one that was closed. -/
theorem Spoiled.joined (h : Spoiled l) (hnew : l.cons p = none)
    (hobject : l.files fd = some (.socket c)) : Spoiled (clientJoined l fd p) := by
  have hjoins := joins_clientJoined l fd p
  have hclosed : closedConns (clientJoined l fd p) = closedConns l :=
    congrArg (List.filterMap socketOf) hjoins.closes
  have hcons := (clientJoined_eq l fd p).1
  have hself : clients (clientJoined l fd p) p = some (fd, some (.socket c)) := by
    rw [clients, hcons, Function.update_self, hobject]
    rfl
  have hother : ∀ q con, l.cons q = some con → q ≠ p := by
    rintro q con hcon rfl
    rw [hnew] at hcon
    cases hcon
  rcases h with hfaults | (hnodup | ⟨q, fd', c', hc', hcon⟩) |
    ⟨q, con, link, hcon, hprev, hdangling, c', hc', hlink⟩
  · exact .inl (hjoins.faults ▸ hfaults)
  · exact .inr (.inl (.inl (hclosed.symm ▸ hnodup)))
  · have hne : q ≠ p := by
      obtain ⟨con, hq, -⟩ := Option.map_eq_some_iff.mp hcon
      exact hother q con hq
    exact .inr (.inl (.inr ⟨q, fd', c', hclosed.symm ▸ hc', (clients_joined hne).trans hcon⟩))
  · by_cases hsame : link.ptr = p ∧ c' = c
    · obtain ⟨-, rfl⟩ := hsame
      exact .inr (.inl (.inr ⟨p, fd, c', hclosed.symm ▸ hc', hself⟩))
    · refine .inr (.inr ⟨q, con, link, ?_, hprev, fun con' hcon' heq => ?_, c',
        hclosed.symm ▸ hc', hlink⟩)
      · rw [hcons, Function.update_of_ne (hother q con hcon)]
        exact hcon
      · rw [hcons] at hcon'
        rcases eq_or_ne link.ptr p with hptr | hne
        · rw [hptr, Function.update_self] at hcon'
          obtain rfl := Option.some.inj hcon'
          rw [hlink] at heq
          change l.files fd = _ at heq
          rw [hobject] at heq
          exact hsame ⟨hptr, (File.socket.inj (Option.some.inj heq)).symm⟩
        · rw [Function.update_of_ne hne] at hcon'
          exact hdangling con' hcon' heq

/-- Closing a client whose link back is dangling is a fault. -/
theorem Severed.gone_self (h : Severed l p) (hsound : Sound l) (f : File) :
    (clientGone (unlinked l p) p f).faults ≠ [] := by
  obtain ⟨con, link, hcon, hprev, hdangling, -⟩ := h
  change (bridged l p).faults ≠ []
  have hat : (conAt l p).prev = some link := by
    rw [conAt, hcon]
    exact hprev
  rw [hsound.bridged_eq, hat]
  exact faults_wroteIf_of_dangling hdangling _

theorem Sound.dangling_gone {link : Link} (h : Sound l) (hdangling : Dangling l link) (p : Ptr)
    (f : File) : Dangling (clientGone (unlinked l p) p f) link := by
  intro con hcon
  rw [h.cons_gone] at hcon
  rcases eq_or_ne link.ptr p with heq | hne
  · rw [heq, Function.update_self] at hcon
    cases hcon
  · rw [Function.update_of_ne hne] at hcon
    exact hdangling con hcon

theorem Sound.faults_gone (h : Sound l) (hfaults : l.faults ≠ []) (p : Ptr) (f : File) :
    (clientGone (unlinked l p) p f).faults ≠ [] := by
  change (bridged l p).faults ≠ []
  rw [h.bridged_eq]
  exact faults_wroteIf hfaults _ _

theorem closedConns_gone (hcon : clients l p = some (fd, some (.socket c))) :
    closedConns (clientGone (unlinked l p) p (.socket c)) = closedConns l ++ [c] := by
  rw [closedConns, (clientGone_eq hcon).1, List.filterMap_append]
  rfl

theorem Spoiled.gone (h : Spoiled l) (hsound : Sound l)
    (hcon : clients l p = some (fd, some (.socket c))) :
    Spoiled (clientGone (unlinked l p) p (.socket c)) := by
  have hclosed := closedConns_gone hcon
  have hcons := hsound.cons_gone p (.socket c)
  rcases h with hfaults | (hnodup | ⟨q, fd', c', hc', hq⟩) |
    ⟨q, hsevered⟩
  · exact .inl (hsound.faults_gone hfaults _ _)
  · refine .inr (.inl (.inl fun hnodup' => hnodup ?_))
    rw [hclosed] at hnodup'
    exact hnodup'.of_append_left
  · rcases eq_or_ne q p with rfl | hne
    · rw [hq] at hcon
      obtain ⟨rfl, hobject⟩ := Prod.mk.inj (Option.some.inj hcon)
      obtain rfl := File.socket.inj (Option.some.inj hobject)
      refine .inr (.inl (.inl fun hnodup' => ?_))
      rw [hclosed] at hnodup'
      exact (List.nodup_append.mp hnodup').2.2 c' hc' c' (List.mem_singleton_self c') rfl
    · refine .inr (.inl (.inr ⟨q, fd', c', hclosed ▸ List.mem_append_left _ hc', ?_⟩))
      rw [clients, hcons, Function.update_of_ne hne]
      exact hq
  · rcases eq_or_ne q p with rfl | hne
    · exact .inl (hsevered.gone_self hsound _)
    · obtain ⟨con, link, hq, hprev, hdangling, c', hc', hlink⟩ := hsevered
      refine .inr (.inr ⟨q, con, link, ?_, hprev, hsound.dangling_gone hdangling _ _, c',
        hclosed ▸ List.mem_append_left _ hc', hlink⟩)
      rw [hcons, Function.update_of_ne hne]
      exact hq

/-- Above each client but the last one stands the client accepted after it. -/
theorem exists_above (h : Linked l stack) {x : Link × Fd} (hx : x ∈ stack)
    (hlast : stack.head? ≠ some x) (hnodup : (addresses stack).Nodup) :
    ∃ y ∈ stack, y.1.ptr ≠ x.1.ptr ∧
      ∃ con, l.cons y.1.ptr = some con ∧ con.prev = some x.1 := by
  induction stack with
  | nil => cases hx
  | cons y rest ih =>
      have hne : x ≠ y := fun heq => hlast (congrArg some heq.symm)
      have hmem : x ∈ rest := (List.mem_cons.mp hx).resolve_left hne
      have hfresh := (List.nodup_cons.mp hnodup).1
      by_cases hnext : rest.head? = some x
      · refine ⟨y, List.mem_cons_self, fun heq => ?_, _, h.1, by rw [hnext]; rfl⟩
        have hbelow := mem_addresses hmem
        rw [← heq] at hbelow
        exact hfresh hbelow
      · obtain ⟨z, hz, habove⟩ := ih h.2 hmem hnext (List.nodup_cons.mp hnodup).2
        exact ⟨z, List.mem_cons_of_mem _ hz, habove⟩

/-- A client that is closed while a later one is there leaves that one with a link
to freed memory. -/
theorem spoiled_of_chain (h : Chain l stack) (hsound : Sound l)
    (hcon : clients l p = some (fd, some (.socket c)))
    (hlast : ¬ IsLast stack (.closed { ptr := p, object := some (.socket c) })) :
    Spoiled (clientGone (unlinked l p) p (.socket c)) := by
  have hlive : l.cons p ≠ none := by
    intro hnone
    rw [clients, hnone] at hcon
    cases hcon
  obtain ⟨x, hx, rfl⟩ := List.mem_map.mp ((h.live p).mp hlive)
  obtain ⟨rfl, hobject⟩ := Prod.mk.inj (Option.some.inj ((h.linked.client hx).symm.trans hcon))
  have hhead : stack.head? ≠ some x := by
    intro hhead
    apply hlast
    rw [IsLast, hhead, ← hobject]
    rfl
  obtain ⟨y, hy, hne, con, hy', hprev⟩ := exists_above h.linked hx hhead h.nodup
  refine .inr (.inr ⟨y.1.ptr, con, x.1, ?_, hprev, fun con' hcon' => ?_, c, ?_, hobject⟩)
  · rw [hsound.cons_gone, Function.update_of_ne hne]
    exact hy'
  · rw [hsound.cons_gone, Function.update_self] at hcon'
    cases hcon'
  · rw [closedConns_gone hcon]
    exact List.mem_append_right _ (List.mem_singleton_self c)

end Spoiled

section Runs

variable {cfg : ServerConfig} {l l' : EpollLedger} {w : EpollWorld}

/-- What every run keeps: the clients were closed in the order opposite to that of
their arrival, or the links are spoiled. -/
structure Traceable (l : EpollLedger) : Prop where
  settled : Settled l
  sound : Sound l
  history : ClosesLast [] l.app.history ∨ Spoiled l

theorem Traceable.congr (h : Traceable l) (hsettled : Settled l') (hcons : l'.cons = l.cons)
    (hhead : l'.app.dllHead = l.app.dllHead) (hhistory : l'.app.history = l.app.history)
    (hclosed : closedConns l' = closedConns l) (hfaults : l'.faults = l.faults) :
    Traceable l' := by
  refine ⟨hsettled, h.sound.congr hcons hhead, h.history.imp ?_ fun hspoiled => ?_⟩
  · rw [hhistory]
    exact id
  · exact hspoiled.congr hcons hclosed hfaults

theorem traceable_started (h : Started cfg l) : Traceable l := by
  refine ⟨settled_started h, ⟨fun p con hcon => ?_, fun link hlink => ?_⟩, .inl ?_⟩
  · rw [h.cons p] at hcon
    cases hcon
  · rw [h.dllHead] at hlink
    cases hlink
  · rw [h.history]
    trivial

theorem traceable_accepted (haccepted : Accepted l l') (h : Traceable l) : Traceable l' := by
  induction haccepted with
  | done l =>
      exact h.congr (settled_accepted (.done l) h.settled) rfl rfl rfl rfl rfl
  | more l fd c p l' hfd hfree hp hnew hinterest hrest ih =>
      apply ih
      have hsound : Sound ((l.opened fd (.socket c)).answered fd) := h.sound.congr rfl rfl
      refine ⟨h.settled.joined hfd hnew c, hsound.joined hnew fd, h.history.imp ?_ ?_⟩
      · intro hlast
        rw [(joins_clientJoined _ fd p).history]
        exact closesLast_append.mpr ⟨hlast, trivial⟩
      · intro hspoiled
        have hopened : Spoiled ((l.opened fd (.socket c)).answered fd) :=
          hspoiled.congr rfl rfl rfl
        exact hopened.joined hnew (Function.update_self ..)

theorem Traceable.gone (h : Traceable l) {p : Ptr} {fd : Fd} {c : ConnId}
    (hcon : clients l p = some (fd, some (.socket c))) :
    Traceable (clientGone (unlinked l p) p (.socket c)) := by
  refine ⟨h.settled.gone hcon, h.sound.gone p _, ?_⟩
  rcases h.history with hlast | hspoiled
  · by_cases hnext : IsLast (openAfter l.app.history)
        (.closed { ptr := p, object := some (.socket c) })
    · left
      rw [(clientGone_eq hcon).2.1]
      exact closesLast_append.mpr ⟨hlast, hnext⟩
    · exact .inr (spoiled_of_chain (h.settled hlast).chain h.sound hcon hnext)
  · exact .inr (hspoiled.gone h.sound hcon)

theorem traceable_kept : Kept cfg Traceable := by
  intro l ev evs l' horderly hremaining hserviced h
  have hsettled := settled_kept l ev evs l' horderly hremaining hserviced h.settled
  have hdue := horderly.due hremaining
  have hrecorded : ∀ branch, Traceable (recordedAs l branch ev) := fun branch =>
    h.congr (h.settled.congr rfl rfl rfl rfl rfl rfl rfl rfl) rfl rfl rfl rfl rfl
  cases hserviced with
  | newClient _ hfd haccepted => exact traceable_accepted haccepted (hrecorded _)
  | timer f hls hfd hfile =>
      have htimer := (horderly.registry.timer.resolve_left (horderly.tfd_ne hfile)).1
      obtain rfl : f = .timer := Option.some.inj (hfile.symm.trans htimer)
      refine h.congr hsettled rfl rfl rfl ?_ rfl
      simp [closedConns, timerClosed, Ledger.closed, Ledger.withApp, recordedAs, socketOf]
  | closed f hls hfd hrdhup hfile =>
      rw [hdue.eventFd_eq] at hls hfd
      cases hdue with
      | listening hfd' _ _ => exact absurd hfd' hls
      | timer _ hfd' _ _ => exact absurd hfd' hfd
      | client c hdata hobject hcon =>
          have hbehind := hremaining.behind ev List.mem_cons_self
          rw [(core_of_clients hcon).1, hbehind, hobject] at hfile
          obtain rfl : File.socket c = f := Option.some.inj hfile
          exact (hrecorded .client).gone hcon
  | kept hls hfd => exact hrecorded _

theorem traceable_of_reachable (h : Reachable cfg w) : Traceable (ledger epollShape w) :=
  (kept_of_reachable traceable_kept (fun _ => traceable_started) h).2

/-- The kernel hands out each connection once. -/
theorem not_reaccepted (h : Reachable cfg w) : ¬ Reaccepted (ledger epollShape w) := by
  have htraced := (atTop_of_reachable lasting_true trivial (benchReachable h)).2.1.traced
  rintro (hnodup | ⟨p, fd, c, hc, hcon⟩)
  · exact hnodup htraced.nodup_closes
  · obtain ⟨-, -, hfile, -⟩ := (orderly_of_reachable h).registry.client _ _ _ hcon
    exact htraced.files_ne hc fd hfile

end Runs

section Cleanup

variable {cfg : ServerConfig} {l l' : EpollLedger} {w : EpollWorld}

/-- A fault was recorded, or a client is there. -/
def Unsettled (l : EpollLedger) : Prop :=
  l.faults ≠ [] ∨ ∃ p, l.cons p ≠ none

/-- There is a client that the walk through the list does not reach, or one whose
link back is dangling, or a fault. -/
structure Hopeless (l : EpollLedger) : Prop where
  sound : Sound l
  cause : l.faults ≠ [] ∨ (∃ p, Severed l p) ∨
    ∃ p, l.cons p ≠ none ∧ l.app.dllHead.map Link.ptr ≠ some p

theorem Hopeless.congr (h : Hopeless l) (hcons : l'.cons = l.cons)
    (hhead : l'.app.dllHead = l.app.dllHead) (hclosed : closedConns l ⊆ closedConns l')
    (hfaults : l'.faults = l.faults) : Hopeless l' := by
  refine ⟨h.sound.congr hcons hhead, ?_⟩
  rw [hcons, hhead, hfaults]
  rcases h.cause with hcause | ⟨p, con, link, hcon, hprev, hdangling, c, hc, hlink⟩ | hcause
  · exact .inl hcause
  · exact .inr (.inl ⟨p, con, link, (congrFun hcons p).trans hcon, hprev,
      hdangling.congr hcons, c, hclosed hc, hlink⟩)
  · exact .inr (.inr hcause)

/-- A descriptor is closed that is no client's. -/
theorem Hopeless.closed (h : Hopeless l) (fd : Fd) (f : File) : Hopeless (l.closed fd f) := by
  refine h.congr rfl rfl ?_ rfl
  rw [show closedConns (l.closed fd f) = (l.closes ++ [(fd, f)]).filterMap socketOf from rfl,
    List.filterMap_append]
  exact List.subset_append_left _ _

theorem Hopeless.unsettled (h : Hopeless l) : Unsettled l := by
  rcases h.cause with hfaults | ⟨p, con, -, hcon, -⟩ | ⟨p, hlive, -⟩
  · exact .inl hfaults
  · exact .inr ⟨p, by rw [hcon]; exact Option.some_ne_none _⟩
  · exact .inr ⟨p, hlive⟩

/-- The walk closes the head only, which does not help. -/
theorem Hopeless.gone (h : Hopeless l) {link : Link} (hlink : l.app.dllHead = some link)
    (f : File) : Unsettled (clientGone (unlinked l link.ptr) link.ptr f) := by
  have hcons := h.sound.cons_gone link.ptr f
  have hleft : ∀ p, l.cons p ≠ none → p ≠ link.ptr →
      Unsettled (clientGone (unlinked l link.ptr) link.ptr f) := by
    intro p hlive hne
    refine .inr ⟨p, ?_⟩
    rwa [hcons, Function.update_of_ne hne]
  rcases h.cause with hfaults | ⟨p, hsevered⟩ | ⟨p, hlive, hhead⟩
  · exact .inl (h.sound.faults_gone hfaults _ _)
  · rcases eq_or_ne p link.ptr with rfl | hne
    · exact .inl (hsevered.gone_self h.sound f)
    · obtain ⟨con, -, hcon, -⟩ := hsevered
      exact hleft p (by rw [hcon]; exact Option.some_ne_none _) hne
  · refine hleft p hlive fun heq => hhead ?_
    rw [hlink, heq]
    rfl

theorem triple_closeClients (h : Hopeless l) (fuel : Nat) :
    Triple (Booked epollShape l) (closeClients (fuel + 1) l.app.dllHead) fun _ w =>
      Unsettled (ledger epollShape w) := by
  cases hlink : l.app.dllHead with
  | none =>
      refine Triple.pure _ ?_
      rintro w rfl
      exact h.unsettled
  | some link =>
      obtain ⟨con, hcon, hobject⟩ := h.sound.head_eq hlink
      have hlive : l.cons link.ptr ≠ none := by
        rw [hcon]
        exact Option.some_ne_none _
      have hread : Meets (Booked epollShape l) (readThrough link)
          (fun c w => c.next = con.next ∧ Booked epollShape l w) fun _ => True :=
        meets_readThrough hcon hobject
      refine hread.post.bind fun c => Triple.and_pre fun hnext =>
        (booked_closeClient hlive).bind fun _ => Triple.exists_pre fun f =>
          Triple.and_pre fun _ => ?_
      rw [hnext, h.sound.forward _ _ hcon]
      cases fuel <;>
      · refine Triple.pure _ fun w hw => ?_
        rw [show ledger epollShape w = _ from hw]
        exact h.gone hlink f

/-- The cleanup after the timer. -/
theorem triple_closeEpoll (h : Hopeless l) :
    Triple (Booked epollShape l) (do
      let rc ← hostClose (← get).app.epollFd
      assertZero rc "close epoll_fd"
      let w ← get
      closeClients (w.accepts.length + 1) w.app.dllHead)
      (fun _ w => Unsettled (ledger epollShape w)) := by
  refine Triple.get_bind fun w hw => ?_
  refine (triple_of_booked hw (booked_hostClose _)).bind fun rc => booked_assertClosed.bind
    fun _ => Triple.exists_pre fun f => Triple.and_pre fun _ => Triple.get_bind fun w₁ hw₁ => ?_
  have happ : w₁.app = l.app := congrArg Ledger.app hw₁
  rw [happ]
  exact triple_of_booked hw₁ (triple_closeClients (h.closed _ f) _)

theorem triple_doServiceLoopCleanup (h : Hopeless l) :
    Triple (Booked epollShape l) doServiceLoopCleanup fun _ w =>
      Unsettled (ledger epollShape w) := by
  refine Triple.get_bind fun w hw => ?_
  refine Triple.bind (Q := fun _ w => Hopeless (ledger epollShape w)) ?_ fun _ =>
    triple_of_ledger fun l' hl' => triple_closeEpoll hl'
  apply triple_whenTrue
  · intro _
    refine (triple_of_booked hw booked_closeTimer).post ?_
    rintro _ w₁ ⟨f, -, hw₁⟩
    rw [show ledger epollShape w₁ = _ from hw₁]
    exact (h.closed l.app.tfd f).congr rfl rfl (List.Subset.refl _) rfl
  · rintro w₁ rfl _
    rw [show ledger epollShape w₁ = _ from hw]
    exact h

/-- Of two open clients the walk does not reach the one accepted later. -/
theorem exists_unreached {stack : Stack} (h : Chain l stack) (hlong : 1 < stack.length) :
    ∃ p, l.cons p ≠ none ∧ l.app.dllHead.map Link.ptr ≠ some p := by
  match stack, h, hlong with
  | x :: y :: rest, h, _ =>
      have hfresh := (List.nodup_cons.mp h.nodup).1
      refine ⟨x.1.ptr, (h.live _).mpr (mem_addresses List.mem_cons_self), fun hhead => ?_⟩
      rw [h.head, List.getLast?_cons_cons, List.getLast?_eq_some_getLast (List.cons_ne_nil y rest)]
        at hhead
      have hmem := mem_addresses (List.getLast_mem (List.cons_ne_nil y rest))
      rw [Option.some.inj hhead] at hmem
      exact hfresh hmem

/-- The cleanup settles the accounts if and only if the clients were closed in the
order opposite to that of their arrival, and one is left at most. -/
theorem graceful_iff_lastFirst (h : Reachable cfg w) :
    Graceful w ↔ ClosesLast [] w.app.history ∧ (openAfter w.app.history).length ≤ 1 := by
  refine ⟨fun hgraceful => ?_, fun ⟨hlast, hshort⟩ => graceful_of_lastFirst h hlast hshort⟩
  have htraceable := traceable_of_reachable h
  have hnever : ¬ Hopeless (ledger epollShape w) := by
    intro hhopeless
    obtain ⟨w', hrun, -, -, -, hcons, hfaults⟩ := hgraceful
    rcases triple_doServiceLoopCleanup hhopeless w rfl ⟨⟩ w' hrun with hunsettled | ⟨p, hlive⟩
    · exact hunsettled hfaults
    · exact hlive (Option.map_eq_none_iff.mpr (hcons p))
  have hlast : ClosesLast [] w.app.history := by
    rcases htraceable.history with hlast | hfaults | hreaccepted | hsevered
    · exact hlast
    · exact absurd ⟨htraceable.sound, .inl hfaults⟩ hnever
    · exact absurd hreaccepted (not_reaccepted h)
    · exact absurd ⟨htraceable.sound, .inr (.inl hsevered)⟩ hnever
  refine ⟨hlast, ?_⟩
  by_contra hlong
  have hunreached := exists_unreached (htraceable.settled hlast).chain (Nat.lt_of_not_le hlong)
  exact hnever ⟨htraceable.sound, .inr (.inr hunreached)⟩

/-- A client is served and closed, and another one is there at the end. -/
def lastFirstWorld : EpollWorld :=
  (settled (serviceLoop smallServerConfig 3) (initialWorld smallServerConfig
    [{ fd := 4, answer := [] }, { fd := 5, answer := [] }, { answer := [] }, { answer := [] },
      { answer := [] }, { arrivals := [.connect], answer := [3] }, { fd := 6, answer := [] },
      { ptr := 8, answer := [] }, { answer := [] }, { answer := [] },
      { arrivals := [.eos 0], answer := [6] }, { answer := [] },
      { arrivals := [.connect], answer := [3] }, { fd := 6, answer := [] },
      { ptr := 8, answer := [] }, { answer := [] }, { answer := [] }]) ⟨⟩).2

/-- Two clients are there at the end. -/
def twoLeftWorld : EpollWorld :=
  (settled (serviceLoop smallServerConfig 1) (initialWorld smallServerConfig
    [{ fd := 4, answer := [] }, { fd := 5, answer := [] }, { answer := [] }, { answer := [] },
      { answer := [] }, { arrivals := [.connect, .connect], answer := [3] },
      { fd := 6, answer := [] }, { ptr := 8, answer := [] }, { answer := [] },
      { fd := 7, answer := [] }, { ptr := 9, answer := [] }, { answer := [] },
      { answer := [] }]) ⟨⟩).2

theorem graceful_iff_lastFirst_reused : Graceful lastFirstWorld :=
  (graceful_iff_lastFirst (reachable_settled (by decide +kernel))).mpr
    ⟨by decide +kernel, by decide +kernel⟩

/-- The cleanup closes the first client only. -/
theorem leaves_second :
    ¬ ∀ (cfg : ServerConfig) (w : EpollWorld), Reachable cfg w → Graceful w := by
  intro h
  obtain ⟨w', hrun, -, -, -, hcons, -⟩ :=
    h smallServerConfig twoLeftWorld (reachable_settled (by decide +kernel))
  have hleft : ((settled doServiceLoopCleanup twoLeftWorld ⟨⟩).2.cons 9).isSome = true := by
    decide +kernel
  have hend : (settled doServiceLoopCleanup twoLeftWorld ⟨⟩).2 = w' := by
    rw [settled, hrun]
  rw [hend, hcons 9] at hleft
  cases hleft

end Cleanup

end EchoServers.EpollGraceful
