import EchoServers.PollRuns

namespace EchoServers.PollShutdown

open EchoServers.HostLedger
open EchoServers.PollRegistry
open EchoServers.PollRuns
open EchoServers.PollServer
open EchoServers.PollServicing
open EchoServers.PollVector
open EchoServers.ServerUtils
open EchoServers.SocketKernel
open EchoServers.StateTriples
open EchoServers.Utils

/-- The slots hold the listening socket, the timer unless it has expired, and
the open client sockets, each once; exactly those of the clients have private
data, each its own. -/
structure SlotsHold (cfg : ServerConfig) (w : PollWorld) : Prop where
  nonneg : ∀ e ∈ w.app.pollfdv.entries, 0 ≤ e.1.fd
  distinct : (w.app.pollfdv.entries.map fun e => e.1.fd).Nodup
  exactly : ∀ fd, fd ∈ (w.app.pollfdv.entries.map fun e => e.1.fd) ↔
    fd = cfg.listeningSocket ∨ (w.app.timerFd ≠ -1 ∧ fd = w.app.timerFd) ∨
      ∃ c, w.kernel.files fd = some (.socket c)
  clients : ∀ e ∈ w.app.pollfdv.entries,
    e.2 ≠ none ↔ ∃ c, w.kernel.files e.1.fd = some (.socket c)
  pointers : (w.app.pollfdv.entries.filterMap Prod.snd).Nodup

/-- The cleanup runs to its end, closes exactly the open client sockets and the
timer unless it has expired, each once, and frees each connection once. -/
def Graceful (cfg : ServerConfig) (w : PollWorld) : Prop :=
  ∃ (t : PollWorld) (closed : List (Fd × File)) (freed : List Ptr),
    doClientConnectionsCleanup cfg w = .ok (⟨⟩, t) ∧
      t.kernel.closes = w.kernel.closes ++ closed ∧
      (closed.map Prod.fst).Nodup ∧
      (∀ fd, fd ∈ closed.map Prod.fst ↔ (w.app.timerFd ≠ -1 ∧ fd = w.app.timerFd) ∨
        ∃ c, w.kernel.files fd = some (.socket c)) ∧
      t.freed = w.freed ++ freed ∧ freed.Nodup ∧
      (∀ p, p ∈ freed ↔ w.cons p ≠ none) ∧ t.faults = []

section Walk

variable {cfg : ServerConfig} {l : PollLedger} {ls timerFd fd : Fd} {e : Entry}
  {es : List Entry} {p : Ptr}

def freedPd (l : PollLedger) : Option Ptr → PollLedger
  | none => l
  | some p => l.released p

/-- The ledger after the cleanup has been at an entry. -/
def cleaned (ls : Fd) (l : PollLedger) (e : Entry) : PollLedger :=
  if e.1.fd = ls then l
  else freedPd (l.closed e.1.fd (e.1.object.getD .listening)) e.2

theorem cleaned_app : (cleaned ls l e).app = l.app := by
  unfold cleaned freedPd
  split_ifs
  · rfl
  · cases e.2 <;> rfl

theorem cleaned_faults : (cleaned ls l e).faults = l.faults := by
  unfold cleaned freedPd
  split_ifs
  · rfl
  · cases e.2 <;> rfl

theorem cleaned_files (hne : fd ≠ e.1.fd) : (cleaned ls l e).files fd = l.files fd := by
  unfold cleaned freedPd
  split_ifs
  · rfl
  · cases e.2 <;> exact Function.update_of_ne hne _ _

theorem cleaned_cons (hne : e.2 ≠ some p) : (cleaned ls l e).cons p = l.cons p := by
  unfold cleaned freedPd
  split_ifs
  · rfl
  · cases hpd : e.2 with
    | none => rfl
    | some q =>
        have hpq : p ≠ q := by
          rintro rfl
          exact hne hpd
        exact Function.update_of_ne hpq _ _

/-- What the cleanup relies on at the entries still in front of it. -/
structure Closable (ls : Fd) (l : PollLedger) (es : List Entry) : Prop where
  isOpen : ∀ e ∈ es, e.1.fd ≠ ls → l.files e.1.fd = some (e.1.object.getD .listening)
  live : ∀ e ∈ es, ∀ p, e.2 = some p → l.cons p = some ()
  fds : (es.map fun e => e.1.fd).Nodup
  pointers : (es.filterMap Prod.snd).Nodup

theorem Closable.tail (h : Closable ls l (e :: es)) : Closable ls (cleaned ls l e) es := by
  have hfds := List.nodup_cons.mp h.fds
  have hpointers := h.pointers
  rw [List.filterMap_cons] at hpointers
  refine ⟨fun e' he' hls => ?_, fun e' he' p hp => ?_, hfds.2, ?_⟩
  · have hne : e'.1.fd ≠ e.1.fd := by
      intro heq
      exact hfds.1 (List.mem_map.mpr ⟨e', he', heq⟩)
    rw [cleaned_files hne]
    exact h.isOpen e' (List.mem_cons_of_mem _ he') hls
  · have hne : e.2 ≠ some p := by
      intro heq
      rw [heq] at hpointers
      exact (List.nodup_cons.mp hpointers).1 (List.mem_filterMap.mpr ⟨e', he', hp⟩)
    rw [cleaned_cons hne]
    exact h.live e' (List.mem_cons_of_mem _ he') p hp
  · cases hpd : e.2 with
    | none => rwa [hpd] at hpointers
    | some q =>
        rw [hpd] at hpointers
        exact (List.nodup_cons.mp hpointers).2

theorem meets_freePd {E : Stop → Prop} {privateData : Option Ptr}
    (hlive : ∀ p, privateData = some p → l.cons p = some ()) :
    Meets (Booked pollShape l) (freePd privateData)
      (fun _ => Booked pollShape (freedPd l privateData)) E := by
  cases privateData with
  | none => exact Meets.pure _ fun _ h => h
  | some p => exact ⟨Stops.of_returns (returns_freeCon p), booked_freeCon (hlive p rfl)⟩

/-- The loop of the cleanup over the rest of the entries. -/
theorem meets_closeEntries {E : Stop → Prop} (hsound : Sound l.app.pollfdv) (i : UInt32)
    (hrest : l.app.pollfdv.entries.drop i.toNat = es) (hclosable : Closable ls l es) :
    Meets (Booked pollShape l) (closeEntries ls timerFd es.length i)
      (fun _ => Booked pollShape (es.foldl (cleaned ls) l)) E := by
  induction es generalizing l i with
  | nil => exact Meets.pure _ fun _ h => h
  | cons e es ih =>
      have hlt : i.toNat < l.app.pollfdv.size.toNat := by
        have hlen := congrArg List.length hrest
        rw [List.length_drop, length_entries, List.length_cons] at hlen
        omega
      have hdrop := List.drop_eq_getElem_cons (i := i.toNat) (l := l.app.pollfdv.entries)
        (by rw [length_entries]; exact hlt)
      rw [hrest] at hdrop
      obtain ⟨hhead, htail⟩ := List.cons.inj hdrop
      have hslot : e = (l.app.pollfdv.readData i, l.app.pollfdv.readPd i) := by
        have hget := getElem?_entries hlt
        rw [List.getElem?_eq_getElem (by rw [length_entries]; exact hlt), ← hhead] at hget
        exact Option.some.inj hget
      have hsucc := toNat_succ_of_lt hlt (UInt32.toNat_lt _)
      have hnext : Meets (Booked pollShape (cleaned ls l e))
          (closeEntries ls timerFd es.length (i + 1))
          (fun _ => Booked pollShape (es.foldl (cleaned ls) (cleaned ls l e))) E := by
        refine ih ?_ (i + 1) ?_ hclosable.tail
        · rw [cleaned_app]
          exact hsound
        · rw [cleaned_app, hsucc]
          exact htail.symm
      refine meets_getVector.bind fun v => Meets.and_pre ?_
      rintro rfl
      refine Meets.ite (fun _ => ?_) fun hend => absurd (UInt32.lt_iff_toNat_lt.mpr hlt) hend
      subst hslot
      apply Meets.ite
      · intro hls
        have hsame : cleaned ls l (l.app.pollfdv.readData i, l.app.pollfdv.readPd i) = l :=
          if_pos hls
        rw [List.foldl_cons, hsame]
        rwa [hsame] at hnext
      · intro hls
        have hfile := hclosable.isOpen _ List.mem_cons_self hls
        have hgone : cleaned ls l (l.app.pollfdv.readData i, l.app.pollfdv.readPd i) = _ :=
          if_neg hls
        have hfreed : Meets (Booked pollShape (l.closed (l.app.pollfdv.readData i).fd
            ((l.app.pollfdv.readData i).object.getD .listening)))
            (freePd (l.app.pollfdv.readPd i))
            (fun _ => Booked pollShape
              (cleaned ls l (l.app.pollfdv.readData i, l.app.pollfdv.readPd i))) E := by
          rw [hgone]
          exact meets_freePd fun p hp => hclosable.live _ List.mem_cons_self p hp
        apply Meets.ite
        · rintro ⟨-, htimer⟩
          have hclosed : Meets (Booked pollShape l) (closeTimer timerFd)
              (fun _ => Booked pollShape (l.closed (l.app.pollfdv.readData i).fd
                ((l.app.pollfdv.readData i).object.getD .listening))) E := by
            rw [← htimer]
            exact meets_closeAsserted hfile "close"
          exact hclosed.bind fun _ => hfreed.bind fun _ => hnext
        · intro _
          refine (meets_hostClose hfile).bind fun rc => Meets.and_pre ?_
          rintro rfl
          exact meets_assertZero.bind fun _ => hfreed.bind fun _ => hnext

theorem foldl_closes (hls : ∀ e ∈ es, e.1.fd = ls → e.2 = none) :
    (es.foldl (cleaned ls) l).closes = l.closes ++
        ((es.filter fun e => decide (e.1.fd ≠ ls)).map fun e =>
          (e.1.fd, e.1.object.getD .listening)) ∧
      (es.foldl (cleaned ls) l).freed = l.freed ++ es.filterMap Prod.snd ∧
      (es.foldl (cleaned ls) l).faults = l.faults := by
  induction es generalizing l with
  | nil => exact ⟨by simp, by simp, rfl⟩
  | cons e es ih =>
      obtain ⟨hcloses, hfreed, hfaults⟩ :=
        ih (l := cleaned ls l e) fun e' he' => hls e' (List.mem_cons_of_mem _ he')
      rw [List.foldl_cons, hcloses, hfreed, hfaults, cleaned_faults, List.filter_cons,
        List.filterMap_cons]
      by_cases hfd : e.1.fd = ls
      · have hsame : cleaned ls l e = l := if_pos hfd
        rw [hsame, hls e List.mem_cons_self hfd]
        simp [hfd]
      · have hgone : cleaned ls l e = _ := if_neg hfd
        rw [hgone]
        cases hpd : e.2 with
        | none => simp [hfd, freedPd, Ledger.closed]
        | some p => simp [hfd, freedPd, Ledger.closed, Ledger.released]

/-- The walk leaves the listening socket out. -/
theorem fd_mem_walked_iff :
    fd ∈ ((es.filter fun e => decide (e.1.fd ≠ ls)).map fun e =>
        (e.1.fd, e.1.object.getD .listening)).map Prod.fst ↔
      fd ∈ (es.map fun e => e.1.fd) ∧ fd ≠ ls := by
  simp only [List.map_map, List.mem_map, List.mem_filter, decide_eq_true_eq]
  constructor
  · rintro ⟨e, ⟨he, hne⟩, rfl⟩
    exact ⟨⟨e, he, rfl⟩, hne⟩
  · rintro ⟨⟨e, he, rfl⟩, hne⟩
    exact ⟨e, ⟨he, hne⟩, rfl⟩

end Walk

section Shutdown

variable {cfg : ServerConfig} {w : PollWorld}

theorem entry_made (h : Orderly cfg (ledger pollShape w)) {e : Entry}
    (he : e ∈ w.app.pollfdv.entries) : Made cfg w.app.timerFd (registration e) :=
  h.registered.made _ (List.mem_map_of_mem he)

theorem entry_behind (h : Orderly cfg (ledger pollShape w)) {e : Entry}
    (he : e ∈ w.app.pollfdv.entries) : w.kernel.files e.1.fd = e.1.object :=
  h.registered.behind _ (List.mem_map_of_mem he)

/-- Without an accept that found nothing, every slot has a descriptor. -/
theorem entry_nonneg (h : Orderly cfg (ledger pollShape w)) (hlost : -1 ∉ w.accepts) {e : Entry}
    (he : e ∈ w.app.pollfdv.entries) : 0 ≤ e.1.fd := by
  have hne : (registration e).fd ≠ -1 := by
    intro heq
    exact hlost (h.lost.mp (List.mem_map.mpr ⟨_, List.mem_map_of_mem he, heq⟩))
  have hmade := entry_made h he
  change 0 ≤ (registration e).fd
  generalize registration e = r at hmade hne ⊢
  cases hmade with
  | listening => exact cfg.listeningSocket_nonneg
  | timer hfd => exact hfd
  | client fd c p hfd => exact hfd
  | lost p => exact absurd rfl hne

theorem slotsHold_of_orderly (h : Orderly cfg (ledger pollShape w)) (hlost : -1 ∉ w.accepts) :
    SlotsHold cfg w := by
  have hnonneg : ∀ e ∈ w.app.pollfdv.entries, 0 ≤ e.1.fd := fun e he => entry_nonneg h hlost he
  have hfds : (registrations w.app.pollfdv).map Registration.fd =
      w.app.pollfdv.entries.map fun e => e.1.fd := by
    rw [registrations, List.map_map]
    rfl
  have hcovered : ∀ fd, w.kernel.files fd ≠ none →
      fd ∈ w.app.pollfdv.entries.map fun e => e.1.fd := by
    intro fd hopen
    rw [← hfds]
    exact (h.registered.covered fd hopen).2
  refine ⟨hnonneg, ?_, fun fd => ⟨fun hmem => ?_, ?_⟩, fun e he => ?_, ?_⟩
  · have hdistinct := h.registered.distinct
    change (((registrations w.app.pollfdv).map _).filter _).Nodup at hdistinct
    rw [hfds, List.filter_eq_self.mpr] at hdistinct
    · exact hdistinct
    · intro fd hfd
      obtain ⟨e, he, rfl⟩ := List.mem_map.mp hfd
      simpa using ne_of_fd_nonneg (hnonneg e he)
  · obtain ⟨e, he, rfl⟩ := List.mem_map.mp hmem
    have hbehind := entry_behind h he
    have hmade := entry_made h he
    have hfd : e.1.fd = (registration e).fd := rfl
    have hobject : e.1.object = (registration e).object := rfl
    have hne := ne_of_fd_nonneg (hnonneg e he)
    rw [hobject] at hbehind
    rw [hfd] at hbehind hne ⊢
    generalize registration e = r at hmade hbehind hne ⊢
    cases hmade with
    | listening => exact .inl rfl
    | timer hfd => exact .inr (.inl ⟨hne, rfl⟩)
    | client fd c p hfd => exact .inr (.inr ⟨c, hbehind⟩)
    | lost p => exact absurd rfl hne
  · rintro (rfl | ⟨hne, rfl⟩ | ⟨c, hfile⟩)
    · apply hcovered
      have hfile : w.kernel.files cfg.listeningSocket = some .listening := h.registered.listening
      rw [hfile]
      exact Option.some_ne_none _
    · apply hcovered
      have hfile : w.kernel.files w.app.timerFd = some .timer :=
        h.registered.timer.resolve_left hne
      rw [hfile]
      exact Option.some_ne_none _
    · apply hcovered
      rw [hfile]
      exact Option.some_ne_none _
  · have hbehind := entry_behind h he
    have hmade := entry_made h he
    have hpd : e.2 = (registration e).pd := rfl
    have hfd : e.1.fd = (registration e).fd := rfl
    have hobject : e.1.object = (registration e).object := rfl
    rw [hbehind, hobject, hpd]
    have hne := ne_of_fd_nonneg (hnonneg e he)
    rw [hfd] at hne
    generalize registration e = r at hmade hne ⊢
    cases hmade with
    | listening => simp
    | timer hfd => simp
    | client fd c p hfd => simp
    | lost p => exact absurd rfl hne
  · have hpds := h.registered.pds
    change ((registrations w.app.pollfdv).filterMap _).Nodup at hpds
    rwa [registrations, List.filterMap_map] at hpds

theorem closable_of_orderly (h : Orderly cfg (ledger pollShape w)) (hlost : -1 ∉ w.accepts) :
    Closable cfg.listeningSocket (ledger pollShape w) w.app.pollfdv.entries := by
  have hslots := slotsHold_of_orderly h hlost
  refine ⟨fun e he _ => ?_, fun e he p hp => ?_, hslots.distinct, hslots.pointers⟩
  · have hopen : e.1.fd ∈ (registrations w.app.pollfdv).map Registration.fd :=
      List.mem_map.mpr ⟨_, List.mem_map_of_mem he, rfl⟩
    have hbehind := entry_behind h he
    have hmade := entry_made h he
    have hne := ne_of_fd_nonneg (entry_nonneg h hlost he)
    have hobject : e.1.object = (registration e).object := rfl
    have hfd : e.1.fd = (registration e).fd := rfl
    change w.kernel.files e.1.fd = _
    rw [hbehind, hobject]
    rw [hfd] at hne
    generalize registration e = r at hmade hne ⊢
    cases hmade with
    | listening => rfl
    | timer hfd => rfl
    | client fd c p hfd => rfl
    | lost p => exact absurd rfl hne
  · have hmem : p ∈ (registrations w.app.pollfdv).filterMap Registration.pd :=
      List.mem_filterMap.mpr ⟨_, List.mem_map_of_mem he, hp⟩
    cases hcon : (ledger pollShape w).cons p with
    | none => exact absurd hcon ((h.registered.live p).mpr hmem)
    | some x => rfl

theorem pd_of_listening (h : Orderly cfg (ledger pollShape w)) (hlost : -1 ∉ w.accepts) {e : Entry}
    (he : e ∈ w.app.pollfdv.entries) (hfd : e.1.fd = cfg.listeningSocket) : e.2 = none := by
  by_contra hne
  obtain ⟨c, hfile⟩ := ((slotsHold_of_orderly h hlost).clients e he).mp hne
  have hls : w.kernel.files cfg.listeningSocket = some .listening := h.registered.listening
  rw [hfd, hls] at hfile
  cases hfile

theorem mem_pds_iff (h : Orderly cfg (ledger pollShape w)) {p : Ptr} :
    p ∈ w.app.pollfdv.entries.filterMap Prod.snd ↔ w.cons p ≠ none := by
  have hlive := h.registered.live p
  change (w.cons p).map pollShape ≠ none ↔ p ∈ (registrations w.app.pollfdv).filterMap _ at hlive
  rw [registrations, List.filterMap_map, Ne, Option.map_eq_none_iff] at hlive
  exact hlive.symm

/-- The loop of the cleanup over all entries. -/
theorem meets_closeOrderly {E : Stop → Prop} (h : Orderly cfg (ledger pollShape w))
    (hlost : -1 ∉ w.accepts) :
    Meets (Booked pollShape (ledger pollShape w))
      (closeEntries cfg.listeningSocket w.app.timerFd w.app.pollfdv.size.toNat 0)
      (fun _ => Booked pollShape
        (w.app.pollfdv.entries.foldl (cleaned cfg.listeningSocket) (ledger pollShape w))) E := by
  have hmeets : Meets (Booked pollShape (ledger pollShape w))
      (closeEntries cfg.listeningSocket w.app.timerFd w.app.pollfdv.entries.length 0)
      (fun _ => Booked pollShape
        (w.app.pollfdv.entries.foldl (cleaned cfg.listeningSocket) (ledger pollShape w))) E :=
    meets_closeEntries h.sound 0 rfl (closable_of_orderly h hlost)
  rwa [length_entries] at hmeets

theorem graceful_of_orderly (h : Orderly cfg (ledger pollShape w)) (hlost : -1 ∉ w.accepts) :
    Graceful cfg w := by
  have hslots := slotsHold_of_orderly h hlost
  obtain ⟨⟨⟩, t, hrun, hbooked⟩ := (meets_closeOrderly h hlost).runs (s := w) rfl
  obtain ⟨hcloses, hfreed, hfaults⟩ :=
    foldl_closes (l := ledger pollShape w) fun e he => pd_of_listening h hlost he
  rw [← hbooked] at hcloses hfreed hfaults
  refine ⟨t, _, _, hrun, hcloses, ?_, fun fd => ?_, hfreed, hslots.pointers,
    fun p => mem_pds_iff h, hfaults.trans h.faults⟩
  · rw [List.map_map]
    exact hslots.distinct.sublist (List.filter_sublist.map _)
  · have hls : w.kernel.files cfg.listeningSocket = some .listening := h.registered.listening
    rw [fd_mem_walked_iff, hslots.exactly fd]
    constructor
    · rintro ⟨rfl | hother, hne⟩
      · exact absurd rfl hne
      · exact hother
    · intro hother
      refine ⟨.inr hother, ?_⟩
      rintro rfl
      rcases hother with ⟨hne, htimer⟩ | ⟨c, hfile⟩
      · have hfile : w.kernel.files w.app.timerFd = some .timer :=
          h.registered.timer.resolve_left hne
        rw [← htimer, hls] at hfile
        cases hfile
      · rw [hls] at hfile
        cases hfile

/-- At the top of the loop the slots are as they should be, and the cleanup is
in order, exactly when no client has vanished before it was accepted. -/
theorem clean_shutdown_iff (h : Reachable cfg w) :
    (SlotsHold cfg w ∧ Graceful cfg w) ↔ -1 ∉ w.accepts := by
  have horderly := orderly_of_reachable h
  constructor
  · rintro ⟨hslots, -⟩ hmem
    obtain ⟨r, hr, hfd⟩ := List.mem_map.mp (horderly.lost.mpr hmem)
    obtain ⟨e, he, rfl⟩ := List.mem_map.mp hr
    exact ne_of_fd_nonneg (hslots.nonneg e he) hfd
  · intro hlost
    exact ⟨slotsHold_of_orderly horderly hlost, graceful_of_orderly horderly hlost⟩

end Shutdown

section Witnesses

/-- The state at the top of the loop, or the one of `main` if the server exits. -/
def reachedWorld (sched : List (HostTick Growth)) (n : Nat) : PollWorld :=
  match serviceLoop smallServerConfig false false n (initialWorld smallServerConfig sched) with
  | .ok (_, w) => w
  | .error _ => initialWorld smallServerConfig sched

theorem serviceLoop_reachedWorld {sched : List (HostTick Growth)} {n : Nat}
    (h : (serviceLoop smallServerConfig false false n
      (initialWorld smallServerConfig sched)).isOk = true) :
    serviceLoop smallServerConfig false false n (initialWorld smallServerConfig sched) =
      .ok (⟨⟩, reachedWorld sched n) := by
  cases hrun : serviceLoop smallServerConfig false false n
      (initialWorld smallServerConfig sched) with
  | error e => simp [hrun, Except.isOk, Except.toBool] at h
  | ok r => simp [reachedWorld, hrun]

theorem reachable_reachedWorld {sched : List (HostTick Growth)} {n : Nat}
    (h : (serviceLoop smallServerConfig false false n
      (initialWorld smallServerConfig sched)).isOk = true) :
    Reachable smallServerConfig (reachedWorld sched n) :=
  ⟨false, false, sched, n, _, [], serviceLoop_reachedWorld h, rfl⟩

/-- The timer gets the descriptor 4, a client the descriptor 5, unless its
connection vanishes between `ppoll` and `accept4`. -/
def oneClientSched (vanishes : Bool) : List (HostTick Growth) :=
  [{ fd := 4, answer := {} }, { answer := {} }, { answer := {} }, { answer := {} },
    { arrivals := [.connect], answer := {} },
    { arrivals := if vanishes then [.vanish] else [], fd := 5, answer := {} },
    { ptr := 5, answer := {} }]

theorem clean_shutdown_iff_oneClient :
    (SlotsHold smallServerConfig (reachedWorld (oneClientSched false) 1) ∧
      Graceful smallServerConfig (reachedWorld (oneClientSched false) 1)) ↔
        -1 ∉ (reachedWorld (oneClientSched false) 1).accepts :=
  clean_shutdown_iff (reachable_reachedWorld (by decide +kernel))

/-- The client without a connection gets a slot, and the cleanup exits there. -/
theorem not_clean_shutdown :
    ¬ ∀ (cfg : ServerConfig) (w : PollWorld), Reachable cfg w →
      SlotsHold cfg w ∧ Graceful cfg w := by
  intro h
  have hreachable : Reachable smallServerConfig (reachedWorld (oneClientSched true) 1) :=
    reachable_reachedWorld (by decide +kernel)
  obtain ⟨-, t, closed, freed, hrun, -⟩ := h _ _ hreachable
  have hexit : (doClientConnectionsCleanup smallServerConfig
      (reachedWorld (oneClientSched true) 1)).isOk = false := by decide +kernel
  simp [hrun, Except.isOk, Except.toBool] at hexit

end Witnesses

end EchoServers.PollShutdown
