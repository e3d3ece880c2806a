import EchoServers.HostLedger
import EchoServers.PollServicing

namespace EchoServers.PollRegistry

open EchoServers.HostLedger
open EchoServers.PollServer
open EchoServers.PollServicing
open EchoServers.PollVector
open EchoServers.ServerBenchmark
open EchoServers.ServerUtils
open EchoServers.SocketKernel
open EchoServers.StateTriples
open EchoServers.SwapRemoval
open EchoServers.Utils

/-- What an entry of the vector is about, whatever it reports. -/
structure Registration where
  fd : Fd
  object : Option File
  pd : Option Ptr
  deriving DecidableEq

def registration (e : Entry) : Registration :=
  ⟨e.1.fd, e.1.object, e.2⟩

def registrations (v : PollfdVector) : List Registration :=
  v.entries.map registration

/-- The entries that the server makes.  The last kind is that of a client whose
connection had vanished. -/
inductive Made (cfg : ServerConfig) (timerFd : Fd) : Registration → Prop where
  | listening : Made cfg timerFd ⟨cfg.listeningSocket, some .listening, none⟩
  | timer (hfd : 0 ≤ timerFd) : Made cfg timerFd ⟨timerFd, some .timer, none⟩
  | client (fd : Fd) (c : ConnId) (p : Ptr) (hfd : 0 ≤ fd) :
      Made cfg timerFd ⟨fd, some (.socket c), some p⟩
  | lost (p : Ptr) : Made cfg timerFd ⟨-1, none, some p⟩

/-- The entries stand for the open files and the connection structures. -/
structure Registered (cfg : ServerConfig) (files : Fd → Option File)
    (cons : Ptr → Option Unit) (timerFd : Fd) (rs : List Registration) : Prop where
  made : ∀ r ∈ rs, Made cfg timerFd r
  behind : ∀ r ∈ rs, files r.fd = r.object
  distinct : ((rs.map Registration.fd).filter fun fd => decide (fd ≠ -1)).Nodup
  covered : ∀ fd, files fd ≠ none → 0 ≤ fd ∧ fd ∈ rs.map Registration.fd
  listening : files cfg.listeningSocket = some .listening
  timer : timerFd = -1 ∨ files timerFd = some .timer
  pds : (rs.filterMap Registration.pd).Nodup
  live : ∀ p, cons p ≠ none ↔ p ∈ rs.filterMap Registration.pd

section Registered

variable {cfg : ServerConfig} {files : Fd → Option File} {cons : Ptr → Option Unit}
  {timerFd fd : Fd} {rs rs' : List Registration} {c : ConnId} {p : Ptr}

theorem Registered.perm (h : Registered cfg files cons timerFd rs) (hperm : rs.Perm rs') :
    Registered cfg files cons timerFd rs' := by
  have hfds := hperm.map Registration.fd
  have hpds := hperm.filterMap Registration.pd
  refine ⟨fun r hr => h.made r (hperm.mem_iff.mpr hr),
    fun r hr => h.behind r (hperm.mem_iff.mpr hr), (hfds.filter _).nodup_iff.mp h.distinct,
    fun fd hfd => ?_, h.listening, h.timer, hpds.nodup_iff.mp h.pds, fun p => ?_⟩
  · obtain ⟨hnonneg, hmem⟩ := h.covered fd hfd
    exact ⟨hnonneg, hfds.mem_iff.mp hmem⟩
  · rw [h.live p, hpds.mem_iff]

/-- No entry has a descriptor that is not open. -/
theorem Registered.fd_ne (h : Registered cfg files cons timerFd rs) (hfree : files fd = none)
    (hfd : fd ≠ -1) {r : Registration} (hr : r ∈ rs) : r.fd ≠ fd := by
  rintro rfl
  have hbehind := h.behind r hr
  rw [hfree] at hbehind
  cases h.made r hr with
  | listening => cases hbehind
  | timer hfd => cases hbehind
  | client fd c p hfd => cases hbehind
  | lost p => exact hfd rfl

theorem Registered.pd_ne (h : Registered cfg files cons timerFd rs) (hfree : cons p = none) :
    p ∉ rs.filterMap Registration.pd :=
  fun hmem => (h.live p).mpr hmem hfree

theorem update_ne_none_iff {α β : Type} [DecidableEq α] {f : α → Option β} {a b : α} {x : β} :
    Function.update f a (some x) b ≠ none ↔ b = a ∨ f b ≠ none := by
  rcases eq_or_ne b a with rfl | hne
  · simp
  · simp [hne]

theorem Registered.addClient (h : Registered cfg files cons timerFd rs) (hfd : 0 ≤ fd)
    (hfree : files fd = none) (hnew : cons p = none) (c : ConnId) :
    Registered cfg (Function.update files fd (some (.socket c)))
      (Function.update cons p (some ())) timerFd (⟨fd, some (.socket c), some p⟩ :: rs) := by
  have hne : fd ≠ -1 := ne_of_fd_nonneg hfd
  have hfds : ∀ r ∈ rs, r.fd ≠ fd := fun r hr => h.fd_ne hfree hne hr
  constructor
  · intro r hr
    rcases List.mem_cons.mp hr with rfl | hr
    · exact .client fd c p hfd
    · exact h.made r hr
  · intro r hr
    rcases List.mem_cons.mp hr with rfl | hr
    · exact Function.update_self ..
    · rw [Function.update_of_ne (hfds r hr)]
      exact h.behind r hr
  · rw [List.map_cons, List.filter_cons_of_pos (by simpa using hne), List.nodup_cons]
    refine ⟨fun hmem => ?_, h.distinct⟩
    obtain ⟨r, hr, heq⟩ := List.mem_map.mp (List.mem_filter.mp hmem).1
    exact hfds r hr heq
  · intro fd' hopen
    rw [List.map_cons, List.mem_cons]
    rcases update_ne_none_iff.mp hopen with rfl | hopen
    · exact ⟨hfd, .inl rfl⟩
    · exact ⟨(h.covered fd' hopen).1, .inr (h.covered fd' hopen).2⟩
  · have hls : cfg.listeningSocket ≠ fd := by
      rintro rfl
      rw [h.listening] at hfree
      cases hfree
    rw [Function.update_of_ne hls]
    exact h.listening
  · refine h.timer.imp_right fun htimer => ?_
    have hne' : timerFd ≠ fd := by
      rintro rfl
      rw [htimer] at hfree
      cases hfree
    rw [Function.update_of_ne hne']
    exact htimer
  · exact List.nodup_cons.mpr ⟨h.pd_ne hnew, h.pds⟩
  · intro p'
    rw [update_ne_none_iff, h.live p']
    exact List.mem_cons.symm

theorem Registered.addLost (h : Registered cfg files cons timerFd rs) (hnew : cons p = none) :
    Registered cfg files (Function.update cons p (some ())) timerFd (⟨-1, none, some p⟩ :: rs) := by
  have hclosed : files (-1) = none := by
    by_contra hopen
    exact absurd (h.covered _ hopen).1 (by decide)
  constructor
  · intro r hr
    rcases List.mem_cons.mp hr with rfl | hr
    · exact .lost p
    · exact h.made r hr
  · intro r hr
    rcases List.mem_cons.mp hr with rfl | hr
    · exact hclosed
    · exact h.behind r hr
  · exact h.distinct
  · intro fd hopen
    exact ⟨(h.covered fd hopen).1, List.mem_cons_of_mem _ (h.covered fd hopen).2⟩
  · exact h.listening
  · exact h.timer
  · exact List.nodup_cons.mpr ⟨h.pd_ne hnew, h.pds⟩
  · intro p'
    rw [update_ne_none_iff, h.live p']
    exact List.mem_cons.symm

/-- An entry with an open descriptor is the only one with it. -/
theorem Registered.fd_ne_of_cons {r : Registration}
    (h : Registered cfg files cons timerFd (r :: rs)) (hfd : 0 ≤ r.fd) :
    ∀ r' ∈ rs, r'.fd ≠ r.fd := by
  intro r' hr' heq
  have hne : r.fd ≠ -1 := ne_of_fd_nonneg hfd
  have hdistinct := h.distinct
  rw [List.map_cons, List.filter_cons_of_pos (by simpa using hne), List.nodup_cons] at hdistinct
  exact hdistinct.1 (List.mem_filter.mpr ⟨heq ▸ List.mem_map_of_mem hr', by simpa using hne⟩)

/-- The descriptor of an entry is closed and the entry is taken out. -/
theorem Registered.distinct_tail {r : Registration}
    (h : Registered cfg files cons timerFd (r :: rs)) (hfd : 0 ≤ r.fd) :
    ((rs.map Registration.fd).filter fun fd => decide (fd ≠ -1)).Nodup ∧
      (∀ r' ∈ rs, Function.update files r.fd none r'.fd = r'.object) ∧
      ∀ fd, Function.update files r.fd none fd ≠ none →
        0 ≤ fd ∧ fd ∈ rs.map Registration.fd := by
  have hne : r.fd ≠ -1 := ne_of_fd_nonneg hfd
  refine ⟨?_, fun r' hr' => ?_, fun fd hopen => ?_⟩
  · have hdistinct := h.distinct
    rw [List.map_cons, List.filter_cons_of_pos (by simpa using hne), List.nodup_cons] at hdistinct
    exact hdistinct.2
  · rw [Function.update_of_ne (h.fd_ne_of_cons hfd r' hr')]
    exact h.behind r' (List.mem_cons_of_mem _ hr')
  · rcases eq_or_ne fd r.fd with rfl | hfd'
    · simp at hopen
    · rw [Function.update_of_ne hfd'] at hopen
      obtain ⟨hnonneg, hmem⟩ := h.covered fd hopen
      exact ⟨hnonneg, (List.mem_cons.mp hmem).resolve_left hfd'⟩

theorem Registered.removeClient
    (h : Registered cfg files cons timerFd (⟨fd, some (.socket c), some p⟩ :: rs))
    (hfd : 0 ≤ fd) :
    Registered cfg (Function.update files fd none) (Function.update cons p none) timerFd rs := by
  obtain ⟨hdistinct, hbehind, hcovered⟩ := h.distinct_tail hfd
  have hfile : files fd = some (.socket c) := h.behind _ List.mem_cons_self
  have hpds := List.nodup_cons.mp h.pds
  refine ⟨fun r hr => h.made r (List.mem_cons_of_mem _ hr), hbehind, hdistinct, hcovered, ?_, ?_,
    hpds.2, fun p' => ?_⟩
  · have hne : cfg.listeningSocket ≠ fd := by
      rintro rfl
      rw [h.listening] at hfile
      cases hfile
    rw [Function.update_of_ne hne]
    exact h.listening
  · refine h.timer.imp_right fun htimer => ?_
    have hne : timerFd ≠ fd := by
      rintro rfl
      rw [htimer] at hfile
      cases hfile
    rw [Function.update_of_ne hne]
    exact htimer
  · have hlive : cons p' ≠ none ↔ p' = p ∨ p' ∈ rs.filterMap Registration.pd :=
      (h.live p').trans List.mem_cons
    rcases eq_or_ne p' p with rfl | hne
    · simpa using hpds.1
    · rw [Function.update_of_ne hne, hlive]
      exact ⟨fun hmem => hmem.resolve_left hne, .inr⟩

theorem Registered.removeTimer
    (h : Registered cfg files cons timerFd (⟨timerFd, some .timer, none⟩ :: rs))
    (hfd : 0 ≤ timerFd) :
    Registered cfg (Function.update files timerFd none) cons (-1) rs := by
  obtain ⟨hdistinct, hbehind, hcovered⟩ := h.distinct_tail hfd
  have hfile : files timerFd = some .timer := h.behind _ List.mem_cons_self
  refine ⟨fun r hr => ?_, hbehind, hdistinct, hcovered, ?_, .inl rfl, h.pds, h.live⟩
  · have hne := h.fd_ne_of_cons hfd r hr
    cases h.made r (List.mem_cons_of_mem _ hr) with
    | listening => exact .listening
    | timer hfd => exact absurd rfl hne
    | client fd c p hfd => exact .client fd c p hfd
    | lost p => exact .lost p
  · have hne : cfg.listeningSocket ≠ timerFd := by
      intro heq
      rw [← heq, h.listening] at hfile
      cases hfile
    rw [Function.update_of_ne hne]
    exact h.listening

/-- Before any other file is opened. -/
theorem registered_listening (cfg : ServerConfig) :
    Registered cfg (Function.update (fun _ => none) cfg.listeningSocket (some .listening))
      (fun _ => none) (-1) [⟨cfg.listeningSocket, some .listening, none⟩] := by
  have hself : Function.update (fun _ => none) cfg.listeningSocket (some File.listening)
      cfg.listeningSocket = some .listening := Function.update_self ..
  refine ⟨fun r hr => ?_, fun r hr => ?_, ?_, fun fd hopen => ?_, hself, .inl rfl,
    List.nodup_nil, fun p => by simp⟩
  · rw [List.mem_singleton.mp hr]
    exact .listening
  · rw [List.mem_singleton.mp hr]
    exact hself
  · exact (List.nodup_singleton _).sublist List.filter_sublist
  · rcases update_ne_none_iff.mp hopen with rfl | hopen
    · exact ⟨cfg.listeningSocket_nonneg, List.mem_singleton_self _⟩
    · exact absurd rfl hopen

theorem Registered.addTimer (h : Registered cfg files cons (-1) rs) (hfd : 0 ≤ fd)
    (hfree : files fd = none) :
    Registered cfg (Function.update files fd (some .timer)) cons fd
      (⟨fd, some .timer, none⟩ :: rs) := by
  have hne : fd ≠ -1 := ne_of_fd_nonneg hfd
  have hfds : ∀ r ∈ rs, r.fd ≠ fd := fun r hr => h.fd_ne hfree hne hr
  constructor
  · intro r hr
    rcases List.mem_cons.mp hr with rfl | hr
    · exact .timer hfd
    · cases h.made r hr with
      | listening => exact .listening
      | timer hnonneg => exact absurd hnonneg (by decide)
      | client fd c p hnonneg => exact .client fd c p hnonneg
      | lost p => exact .lost p
  · intro r hr
    rcases List.mem_cons.mp hr with rfl | hr
    · exact Function.update_self ..
    · rw [Function.update_of_ne (hfds r hr)]
      exact h.behind r hr
  · rw [List.map_cons, List.filter_cons_of_pos (by simpa using hne), List.nodup_cons]
    refine ⟨fun hmem => ?_, h.distinct⟩
    obtain ⟨r, hr, heq⟩ := List.mem_map.mp (List.mem_filter.mp hmem).1
    exact hfds r hr heq
  · intro fd' hopen
    rw [List.map_cons, List.mem_cons]
    rcases update_ne_none_iff.mp hopen with rfl | hopen
    · exact ⟨hfd, .inl rfl⟩
    · exact ⟨(h.covered fd' hopen).1, .inr (h.covered fd' hopen).2⟩
  · have hls : cfg.listeningSocket ≠ fd := by
      rintro rfl
      rw [h.listening] at hfree
      cases hfree
    rw [Function.update_of_ne hls]
    exact h.listening
  · exact .inr (Function.update_self ..)
  · exact h.pds
  · exact h.live

end Registered

section Handlers

/-- The contents of the buffers do not matter. -/
def pollShape : PdEchoConnection → Unit :=
  fun _ => ()

abbrev PollLedger := Ledger Unit PollApp

variable {cfg : ServerConfig} {l : PollLedger} {i : UInt32} {p : Ptr}

/-- The ledger with another vector. -/
def withVector (l : PollLedger) (v : PollfdVector) : PollLedger :=
  l.withApp { l.app with pollfdv := v }

/-- The vector is read, whatever of the connections is accounted for. -/
theorem meets_getVector {χ : Type} {shape : PdEchoConnection → χ} {l : Ledger χ PollApp}
    {E : Stop → Prop} :
    Meets (Booked shape l) getVector (fun v w => v = l.app.pollfdv ∧ Booked shape l w) E := by
  refine ⟨Stops.of_returns (Returns.get_bind fun _ => Returns.pure _), ?_⟩
  refine Triple.get_bind fun w h => Triple.pure _ ?_
  rintro w' rfl
  exact ⟨congrArg (fun l' => l'.app.pollfdv) h, h⟩

theorem booked_getVector :
    Triple (Booked pollShape l) getVector fun v w =>
      v = l.app.pollfdv ∧ Booked pollShape l w :=
  (meets_getVector (E := fun _ => True)).post

theorem booked_setVector (v : PollfdVector) :
    Triple (Booked pollShape l) (setVector v) fun _ => Booked pollShape (withVector l v) := by
  apply Triple.modify
  rintro w rfl
  rfl

/-- The entry and its client are gone. -/
def clientClosed (l : PollLedger) (i : UInt32) (f : File) (p : Ptr) : PollLedger :=
  withVector ((l.closed (l.app.pollfdv.readData i).fd f).released p)
    (pollfdvRemoveIndex l.app.pollfdv i)

theorem booked_closeClient (hpd : l.app.pollfdv.readPd i = some p) (hlive : l.cons p = some ()) :
    Triple (Booked pollShape l) (closeClient i) fun _ w =>
      ∃ f, l.files (l.app.pollfdv.readData i).fd = some f ∧
        Booked pollShape (clientClosed l i f p) w := by
  refine booked_getVector.bind fun v => Triple.and_pre ?_
  rintro rfl
  refine (booked_hostClose _).bind fun rc => booked_assertClosed.bind fun _ =>
    Triple.exists_pre fun f => Triple.and_pre fun hfile => ?_
  refine booked_getVector.bind fun v => Triple.and_pre ?_
  rintro rfl
  have hfreed : Triple (Booked pollShape (l.closed (l.app.pollfdv.readData i).fd f))
      (freePd ((l.closed (l.app.pollfdv.readData i).fd f).app.pollfdv.readPd i)) fun _ =>
        Booked pollShape ((l.closed (l.app.pollfdv.readData i).fd f).released p) := by
    have hpd' : (l.closed (l.app.pollfdv.readData i).fd f).app.pollfdv.readPd i = some p := hpd
    rw [hpd']
    exact booked_freeCon hlive
  refine hfreed.bind fun _ => booked_getVector.bind fun v => Triple.and_pre ?_
  rintro rfl
  refine (booked_setVector _).post fun _ w h => ⟨f, hfile, h⟩

/-- A client is left alone, or closed and removed. -/
def Handled (l : PollLedger) (i : UInt32) (p : Ptr) (removed : Bool) (l' : PollLedger) : Prop :=
  (removed = false ∧ l' = l) ∨
    (removed = true ∧ ∃ f, l.files (l.app.pollfdv.readData i).fd = some f ∧
      l' = clientClosed l i f p)

theorem triple_removed (hpd : l.app.pollfdv.readPd i = some p) (hlive : l.cons p = some ()) :
    Triple (Booked pollShape l) (do closeClient i; return true) fun removed w =>
      Handled l i p removed (ledger pollShape w) := by
  refine (booked_closeClient hpd hlive).bind fun _ => Triple.pure _ ?_
  rintro w ⟨f, hfile, hbooked⟩
  exact .inr ⟨rfl, f, hfile, hbooked⟩

theorem booked_readBuf (hlive : l.cons p = some ()) :
    Triple (Booked pollShape l) (readBuf (some p)) fun _ => Booked pollShape l := by
  refine Triple.get_bind fun w hw => ?_
  have hcon : (w.cons p).map pollShape = some () := by
    rw [← hlive, ← hw]
    rfl
  obtain ⟨con, hcon, -⟩ := Option.map_eq_some_iff.mp hcon
  rw [hcon]
  apply Triple.pure
  rintro w' rfl
  exact hw

theorem triple_handleClientData (hpd : l.app.pollfdv.readPd i = some p)
    (hlive : l.cons p = some ()) :
    Triple (Booked pollShape l) (handleClientData cfg i) fun removed w =>
      Handled l i p removed (ledger pollShape w) := by
  refine (triple_of_keepsLedger (keepsLedger_hostStart cfg)).bind fun start => ?_
  refine booked_getVector.bind fun v => Triple.and_pre ?_
  rintro rfl
  rw [hpd]
  refine (booked_readBuf hlive).bind fun buf => booked_getVector.bind fun v => Triple.and_pre ?_
  rintro rfl
  refine (booked_readNEcho cfg _ buf).bind fun read => ?_
  refine Triple.bind (Q := fun _ => Booked pollShape l)
    (booked_modifyCon_same (fun _ => rfl) hlive) fun _ => ?_
  refine Triple.bind (Q := fun _ => Booked pollShape l) ?_ fun _ => ?_
  · refine triple_whenTrue (fun _ => ?_) fun _ hw _ => hw
    refine (triple_of_keepsLedger keepsLedger_hostNow).bind fun _ => ?_
    refine (triple_of_keepsLedger keepsLedger_hostNow).bind fun _ => ?_
    exact triple_of_keepsLedger (keepsLedger_modifyHostBench _)
  · exact Triple.ite (fun _ => triple_removed hpd hlive) fun _ =>
      Triple.pure _ fun w hw => .inl ⟨rfl, hw⟩

theorem triple_handleClientEvent (hpd : l.app.pollfdv.readPd i = some p)
    (hlive : l.cons p = some ()) :
    Triple (Booked pollShape l) (handleClientEvent cfg i) fun removed w =>
      Handled l i p removed (ledger pollShape w) := by
  refine booked_getVector.bind fun v => Triple.and_pre ?_
  rintro rfl
  refine Triple.ite (fun _ => triple_removed hpd hlive) fun _ =>
    Triple.ite (fun _ => triple_handleClientData hpd hlive) fun _ => ?_
  exact Triple.pure _ fun w hw => .inl ⟨rfl, hw⟩

theorem booked_closeTimer (timerFd : Fd) :
    Triple (Booked pollShape l) (closeTimer timerFd) fun _ w =>
      ∃ f, l.files timerFd = some f ∧ Booked pollShape (l.closed timerFd f) w :=
  (booked_hostClose _).bind fun _ => booked_assertClosed

theorem booked_timerExpired (timerFd : Fd) :
    Triple (Booked pollShape l) (timerExpired cfg timerFd) fun _ w =>
      ∃ f, l.files timerFd = some f ∧ Booked pollShape (l.closed timerFd f) w := by
  refine (booked_closeTimer timerFd).bind fun _ => Triple.exists_pre fun f =>
    Triple.and_pre fun hfile => ?_
  refine Triple.post (Q := fun _ => Booked pollShape (l.closed timerFd f)) ?_
    fun _ w h => ⟨f, hfile, h⟩
  refine triple_whenTrue (fun _ => ?_) fun _ hw _ => hw
  exact (triple_of_keepsLedger keepsLedger_hostNow).bind fun _ =>
    triple_of_keepsLedger (keepsLedger_modifyHostBench _)

/-- The new entry, and what is then behind its descriptor. -/
theorem booked_pollAddFd (fd : Fd) (pollEvents : UInt16) (privateData : Option Ptr) :
    Triple (Booked pollShape l) (pollAddFd fd pollEvents privateData) fun _ w =>
      ∃ g v, pollfdvAdd l.app.pollfdv
          { fd := fd, events := pollEvents, revents := 0, object := l.files fd }
          privateData g = .ok v ∧ Booked pollShape (withVector l v) w := by
  refine (triple_of_keepsLedger keepsLedger_hostYield).bind fun t => ?_
  refine Triple.get_bind fun w h => ?_
  have hvector : Triple (fun w' => w' = w) getVector fun v w' =>
      v = l.app.pollfdv ∧ Booked pollShape l w' :=
    booked_getVector.pre fun w' heq => heq ▸ h
  refine hvector.bind fun v => Triple.and_pre ?_
  rintro rfl
  have hfile : w.kernel.files fd = l.files fd := congrArg (fun l' => l'.files fd) h
  rw [hfile]
  cases hadd : pollfdvAdd l.app.pollfdv
      { fd := fd, events := pollEvents, revents := 0, object := l.files fd }
      privateData t.answer with
  | error e => exact Triple.throw _
  | ok v => exact (booked_setVector v).post fun _ w h => ⟨t.answer, v, hadd, h⟩

/-- A client was accepted, or there was none left to accept. -/
inductive Joined (l : PollLedger) : PollLedger → Prop where
  | client (fd : Fd) (c : ConnId) (p : Ptr) (g : Growth) (v : PollfdVector) (hfd : 0 ≤ fd)
      (hfree : l.files fd = none) (hnew : l.cons p = none)
      (hadd : pollfdvAdd l.app.pollfdv
        { fd := fd, events := pollin, revents := 0, object := some (.socket c) } (some p) g =
          .ok v) :
      Joined l (withVector (((l.opened fd (.socket c)).answered fd).stored p ()) v)
  | lost (p : Ptr) (g : Growth) (v : PollfdVector) (hnew : l.cons p = none)
      (hadd : pollfdvAdd l.app.pollfdv
        { fd := -1, events := pollin, revents := 0, object := l.files (-1) } (some p) g =
          .ok v) :
      Joined l (withVector ((l.answered (-1)).stored p ()) v)

/-- The second part of `poll_handle_new_client`. -/
theorem booked_addClient (clientFd : Fd) :
    Triple (Booked pollShape l) (do
      let con ← allocCon { buf := List.replicate cfg.defaultServerBufferSize {} }
      assertNnull (con = 0) "malloc"
      modifyCon con fun c => { c with bufSize := 0 }
      pollAddFd clientFd pollin (some con)
      whenTrue cfg.doServerSideBenchmarking do
        modifyHostBench sbClientConnected) fun _ w =>
      ∃ p g v, l.cons p = none ∧ pollfdvAdd l.app.pollfdv
          { fd := clientFd, events := pollin, revents := 0, object := l.files clientFd }
          (some p) g = .ok v ∧ Booked pollShape (withVector (l.stored p ()) v) w := by
  refine (booked_allocCon _).bind fun p => booked_assertAllocated.bind fun _ =>
    Triple.and_pre fun _ => Triple.and_pre fun hnew => ?_
  have hlive : (l.stored p ()).cons p = some () := Function.update_self ..
  refine Triple.bind (Q := fun _ => Booked pollShape (l.stored p ()))
    (booked_modifyCon_same (fun _ => rfl) hlive) fun _ => ?_
  refine (booked_pollAddFd clientFd pollin (some p)).bind fun _ => Triple.exists_pre fun g =>
    Triple.exists_pre fun v => Triple.and_pre fun hadd => ?_
  refine Triple.post (Q := fun _ => Booked pollShape (withVector (l.stored p ()) v)) ?_
    fun _ w h => ⟨p, g, v, hnew, hadd, h⟩
  exact triple_whenTrue (fun _ => triple_of_keepsLedger (keepsLedger_modifyHostBench _))
    fun _ hw _ => hw

theorem triple_pollHandleNewClient (ls : Fd) :
    Triple (Booked pollShape l) (pollHandleNewClient cfg ls) fun _ w =>
      Joined l (ledger pollShape w) := by
  refine (booked_acceptClient ls).bind fun clientFd => Triple.or_pre ?_ ?_
  · refine Triple.and_pre ?_
    rintro rfl
    refine (booked_addClient (-1)).post ?_
    rintro _ w ⟨p, g, v, hnew, hadd, hbooked⟩
    rw [Booked] at hbooked
    rw [hbooked]
    exact .lost p g v hnew hadd
  · refine Triple.and_pre fun hfd => Triple.and_pre fun hfree => Triple.exists_pre fun c => ?_
    refine (booked_addClient clientFd).post ?_
    rintro _ w ⟨p, g, v, hnew, hadd, hbooked⟩
    rw [Booked] at hbooked
    rw [hbooked]
    refine .client clientFd c p g v hfd hfree hnew ?_
    have hfile : ((l.opened clientFd (.socket c)).answered clientFd).files clientFd =
        some (.socket c) := Function.update_self ..
    rwa [hfile] at hadd

theorem booked_clearRevents (moves : Nat) :
    Triple (Booked pollShape l) (clearRevents moves i) fun _ =>
      Booked pollShape (l.withApp (clearedSlot l.app moves i)) := by
  refine booked_getVector.bind fun v => Triple.and_pre ?_
  rintro rfl
  unfold clearedSlot
  apply Triple.ite
  · intro hmoves
    rw [if_pos hmoves]
    exact booked_setVector _
  · intro hmoves
    rw [if_neg hmoves]
    apply Triple.modify
    rintro w rfl
    rfl

end Handlers

section Branches

variable {cfg : ServerConfig} {l : PollLedger} {i : UInt32}

/-- The branch that the comparisons in the loop body choose. -/
def branchTaken (cfg : ServerConfig) (a : PollApp) (i : UInt32) : Branch :=
  let ev := a.pollfdv.readData i
  if ev.fd = cfg.listeningSocket ∧ ev.revents &&& pollin ≠ 0 then .newClient
  else if ev.fd = a.timerFd ∧ ev.revents &&& pollin ≠ 0 then .timer
  else .client

/-- The loop body by its branches. -/
theorem serviceEvent_eq (cfg : ServerConfig) (i : UInt32) :
    serviceEvent cfg i = do
      let w ← get
      match branchTaken cfg w.app i with
      | .newClient =>
          record .newClient i
          pollHandleNewClient cfg cfg.listeningSocket
          clearRevents w.app.pollfdv.moves i
          return false
      | .timer =>
          record .timer i
          timerExpired cfg w.app.timerFd
          setVector (pollfdvRemoveIndex (← getVector) i)
          modify fun w => { w with app := { w.app with timerFd := -1 } }
          return true
      | .client =>
          record .client i
          let removedClient ← handleClientEvent cfg i
          if removedClient then
            return true
          else
            clearRevents w.app.pollfdv.moves i
            return false := by
  unfold serviceEvent
  congr 1
  funext w
  unfold branchTaken
  dsimp only
  split_ifs <;> rfl

/-- What an entry may report. -/
def Plausible (e : Entry) : Prop :=
  e.1.revents = 0 ∨ (0 ≤ e.1.fd ∧
    (e.1.object = some .listening ∨ e.1.object = some .timer → e.1.revents = pollin))

/-- What holds of the ledger whenever the server looks at an entry. -/
structure Orderly (cfg : ServerConfig) (l : PollLedger) : Prop where
  sound : Sound l.app.pollfdv
  registered : Registered cfg l.files l.cons l.app.timerFd (registrations l.app.pollfdv)
  reports : ∀ e ∈ l.app.pollfdv.entries, Plausible e
  expired : l.app.timerFd ≠ -1 → ∀ d ∈ l.app.dispatched, d.branch ≠ .timer
  lost : -1 ∈ (registrations l.app.pollfdv).map Registration.fd ↔ -1 ∈ l.accepts
  faults : l.faults = []

/-- What the slot `i` holds when it is ready, and the branch that is then taken. -/
inductive Ready (cfg : ServerConfig) (l : PollLedger) (i : UInt32) : Branch → Prop where
  | newClient (hfd : (l.app.pollfdv.readData i).fd = cfg.listeningSocket)
      (hobject : (l.app.pollfdv.readData i).object = some .listening)
      (hpd : l.app.pollfdv.readPd i = none) : Ready cfg l i .newClient
  | timer (hfd : (l.app.pollfdv.readData i).fd = l.app.timerFd) (hnonneg : 0 ≤ l.app.timerFd)
      (hobject : (l.app.pollfdv.readData i).object = some .timer)
      (hpd : l.app.pollfdv.readPd i = none) : Ready cfg l i .timer
  | client (c : ConnId) (p : Ptr) (hfd : 0 ≤ (l.app.pollfdv.readData i).fd)
      (hobject : (l.app.pollfdv.readData i).object = some (.socket c))
      (hpd : l.app.pollfdv.readPd i = some p) (hlive : l.cons p = some ()) :
      Ready cfg l i .client

theorem Orderly.mem_registrations (hi : i.toNat < l.app.pollfdv.size.toNat) :
    registration (l.app.pollfdv.slot i.toNat) ∈ registrations l.app.pollfdv :=
  List.mem_map_of_mem (List.mem_of_getElem? (getElem?_entries hi))

theorem Orderly.behind (h : Orderly cfg l) (hi : i.toNat < l.app.pollfdv.size.toNat) :
    l.files (l.app.pollfdv.readData i).fd = (l.app.pollfdv.readData i).object :=
  h.registered.behind _ (Orderly.mem_registrations hi)

theorem Orderly.live_of_pd (h : Orderly cfg l) {p : Ptr}
    (hi : i.toNat < l.app.pollfdv.size.toNat) (hpd : l.app.pollfdv.readPd i = some p) :
    l.cons p = some () := by
  have hmem : p ∈ (registrations l.app.pollfdv).filterMap Registration.pd :=
    List.mem_filterMap.mpr ⟨_, Orderly.mem_registrations hi, hpd⟩
  cases hcon : l.cons p with
  | none => exact absurd hcon ((h.registered.live p).mpr hmem)
  | some x => rfl

/-- The branch is that of the file which the entry was made for. -/
theorem Orderly.ready (h : Orderly cfg l) (hi : i.toNat < l.app.pollfdv.size.toNat)
    (hne : (l.app.pollfdv.readData i).revents ≠ 0) :
    Ready cfg l i (branchTaken cfg l.app i) := by
  have hpollin : pollin &&& pollin ≠ 0 := by decide
  have hreport := (h.reports _ (List.mem_of_getElem? (getElem?_entries hi))).resolve_left hne
  have hbehind := h.behind hi
  have hmade := h.registered.made _ (Orderly.mem_registrations hi)
  obtain ⟨hnonneg, honly⟩ := hreport
  generalize hr : registration (l.app.pollfdv.slot i.toNat) = r at hmade
  have hfd : (l.app.pollfdv.readData i).fd = r.fd := congrArg Registration.fd hr
  have hobject : (l.app.pollfdv.readData i).object = r.object := congrArg Registration.object hr
  have hpd : l.app.pollfdv.readPd i = r.pd := congrArg Registration.pd hr
  have honly : (l.app.pollfdv.readData i).object = some .listening ∨
      (l.app.pollfdv.readData i).object = some .timer →
        (l.app.pollfdv.readData i).revents = pollin := honly
  unfold branchTaken
  cases hmade with
  | listening =>
      have hrevents := honly (.inl hobject)
      rw [if_pos ⟨hfd, hrevents.symm ▸ hpollin⟩]
      exact .newClient hfd hobject hpd
  | timer hnonneg =>
      have hrevents := honly (.inr hobject)
      have hls : (l.app.pollfdv.readData i).fd ≠ cfg.listeningSocket := by
        intro heq
        rw [heq, h.registered.listening, hobject] at hbehind
        cases hbehind
      rw [if_neg fun hand => hls hand.1, if_pos ⟨hfd, hrevents.symm ▸ hpollin⟩]
      exact .timer hfd hnonneg hobject hpd
  | client fd c p hnonneg =>
      have hls : (l.app.pollfdv.readData i).fd ≠ cfg.listeningSocket := by
        intro heq
        rw [heq, h.registered.listening, hobject] at hbehind
        cases hbehind
      have htimer : (l.app.pollfdv.readData i).fd ≠ l.app.timerFd := by
        intro heq
        rcases h.registered.timer with hnone | hfile
        · have hminus : fd = -1 := hfd.symm.trans (heq.trans hnone)
          exact absurd hminus (ne_of_fd_nonneg hnonneg)
        · rw [heq, hfile, hobject] at hbehind
          cases hbehind
      rw [if_neg fun hand => hls hand.1, if_neg fun hand => htimer hand.1]
      exact .client c p (hfd ▸ hnonneg) hobject hpd (h.live_of_pd hi hpd)
  | lost p =>
      have hnonneg : 0 ≤ (l.app.pollfdv.readData i).fd := hnonneg
      exact absurd hfd (ne_of_fd_nonneg hnonneg)

end Branches

section Preservation

variable {cfg : ServerConfig} {l l' : PollLedger} {i : UInt32} {p : Ptr}

theorem registrations_set {v v' : PollfdVector} {k : Nat} {e : Entry}
    (hentries : v'.entries = v.entries.set k e)
    (hsame : ∀ e', v.entries[k]? = some e' → registration e = registration e') :
    registrations v' = registrations v := by
  rw [registrations, hentries, List.map_set, registrations]
  rcases Nat.lt_or_ge k v.entries.length with hk | hk
  · rw [hsame _ (List.getElem?_eq_getElem hk), ← List.getElem_map registration]
    · exact List.set_getElem_self _
    · rw [List.length_map]
      exact hk
  · rw [List.set_eq_of_length_le (by rw [List.length_map]; exact hk)]

theorem Orderly.withVector {v : PollfdVector} (h : Orderly cfg l) (hsound : Sound v)
    (hsame : registrations v = registrations l.app.pollfdv)
    (hreports : ∀ e ∈ v.entries, Plausible e) : Orderly cfg (withVector l v) := by
  have hregistered := h.registered
  have hlost := h.lost
  rw [← hsame] at hregistered hlost
  exact ⟨hsound, hregistered, hreports, h.expired, hlost, h.faults⟩

/-- The report of an entry is cleared, or the write is lost. -/
theorem Orderly.cleared (h : Orderly cfg l) (hi : i.toNat < l.app.pollfdv.size.toNat)
    (moves : Nat) : Orderly cfg (l.withApp (clearedSlot l.app moves i)) := by
  unfold clearedSlot
  split
  · obtain ⟨hsound, -, -, hentries⟩ :=
      writeData_spec h.sound hi { l.app.pollfdv.readData i with revents := 0 }
    refine h.withVector hsound (registrations_set hentries fun e' he' => ?_) fun e he => ?_
    · rw [getElem?_entries hi] at he'
      rw [← Option.some.inj he']
      rfl
    · rw [hentries] at he
      rcases List.mem_or_eq_of_mem_set he with he | rfl
      · exact h.reports e he
      · exact .inl rfl
  · exact ⟨h.sound, h.registered, h.reports, h.expired, h.lost, h.faults⟩

theorem newClient_ne_timer : Branch.newClient ≠ .timer := by decide

theorem client_ne_timer : Branch.client ≠ .timer := by decide

/-- Any event but that of the timer is recorded. -/
theorem Orderly.recorded (h : Orderly cfg l) {branch : Branch} (hbranch : branch ≠ .timer)
    (object : Option File) : Orderly cfg (l.withApp (recorded l.app branch i object)) := by
  refine ⟨h.sound, h.registered, h.reports, fun htimer d hd => ?_, h.lost, h.faults⟩
  rcases List.mem_append.mp hd with hd | hd
  · exact h.expired htimer d hd
  · rw [List.mem_singleton.mp hd]
    exact hbranch

theorem registrations_append {v v' : PollfdVector} {e : Entry}
    (hentries : v'.entries = v.entries ++ [e]) :
    (registration e :: registrations v).Perm (registrations v') := by
  rw [registrations, registrations, hentries, List.map_append, List.map_singleton]
  exact (List.perm_append_singleton _ _).symm

theorem registrations_removeIndex {v : PollfdVector} (hsound : Sound v)
    (hi : i.toNat < v.size.toNat) (hfd : (v.readData i).fd ≠ -1) :
    (registrations v).Perm
      (registration (v.slot i.toNat) :: registrations (pollfdvRemoveIndex v i)) := by
  obtain ⟨-, -, hentries⟩ := pollfdvRemoveIndex_spec hsound hi hfd
  rw [registrations, registrations, hentries]
  exact (perm_cons_swapRemove (getElem?_entries hi)).map registration

/-- An entry without a report is added to entries with plausible reports. -/
theorem plausible_add {v v' : PollfdVector} {e : Entry}
    (hentries : v'.entries = v.entries ++ [e]) (hreports : ∀ e ∈ v.entries, Plausible e)
    (hzero : e.1.revents = 0) : ∀ e ∈ v'.entries, Plausible e := by
  intro e' he'
  rw [hentries, List.mem_append, List.mem_singleton] at he'
  rcases he' with he' | rfl
  · exact hreports e' he'
  · exact .inl hzero

theorem plausible_removeIndex {v : PollfdVector} (hsound : Sound v)
    (hi : i.toNat < v.size.toNat) (hfd : (v.readData i).fd ≠ -1)
    (hreports : ∀ e ∈ v.entries, Plausible e) :
    ∀ e ∈ (pollfdvRemoveIndex v i).entries, Plausible e := by
  obtain ⟨-, -, hentries⟩ := pollfdvRemoveIndex_spec hsound hi hfd
  intro e he
  rw [hentries] at he
  exact hreports e (mem_of_mem_swapRemove he)

theorem Orderly.joined (h : Orderly cfg l) (hjoined : Joined l l') : Orderly cfg l' := by
  cases hjoined with
  | client fd c p g v hfd hfree hnew hadd =>
      obtain ⟨hsound, -, hentries⟩ := pollfdvAdd_spec h.sound hadd
      have hperm := registrations_append hentries
      have hfds := (hperm.map Registration.fd).mem_iff (a := -1)
      refine ⟨hsound, (h.registered.addClient hfd hfree hnew c).perm hperm,
        plausible_add hentries h.reports rfl, h.expired, ?_, h.faults⟩
      have hne : -1 ≠ fd := (ne_of_fd_nonneg hfd).symm
      change -1 ∈ (registrations v).map Registration.fd ↔ -1 ∈ l.accepts ++ [fd]
      rw [← hfds, List.map_cons, List.mem_cons, List.mem_append, List.mem_singleton, h.lost]
      exact ⟨fun hmem => .inl (hmem.resolve_left hne), fun hmem => .inr (hmem.resolve_right hne)⟩
  | lost p g v hnew hadd =>
      obtain ⟨hsound, -, hentries⟩ := pollfdvAdd_spec h.sound hadd
      have hclosed : l.files (-1) = none := by
        by_contra hopen
        exact absurd (h.registered.covered _ hopen).1 (by decide)
      have hperm := registrations_append hentries
      rw [registration, hclosed] at hperm
      have hfds := (hperm.map Registration.fd).mem_iff (a := -1)
      refine ⟨hsound, (h.registered.addLost hnew).perm hperm,
        plausible_add hentries h.reports rfl, h.expired, ?_, h.faults⟩
      change -1 ∈ (registrations v).map Registration.fd ↔ -1 ∈ l.accepts ++ [-1]
      rw [← hfds]
      simp

theorem Orderly.clientClosed (h : Orderly cfg l) (hi : i.toNat < l.app.pollfdv.size.toNat)
    {c : ConnId} {f : File} (hfd : 0 ≤ (l.app.pollfdv.readData i).fd)
    (hobject : (l.app.pollfdv.readData i).object = some (.socket c))
    (hpd : l.app.pollfdv.readPd i = some p) : Orderly cfg (clientClosed l i f p) := by
  have hne := ne_of_fd_nonneg hfd
  have hperm := registrations_removeIndex h.sound hi hne
  have hslot : registration (l.app.pollfdv.slot i.toNat) =
      ⟨(l.app.pollfdv.readData i).fd, some (.socket c), some p⟩ := by
    rw [← hobject, ← hpd]
    rfl
  rw [hslot] at hperm
  have hfds := (hperm.map Registration.fd).mem_iff (a := -1)
  refine ⟨(pollfdvRemoveIndex_spec h.sound hi hne).1, (h.registered.perm hperm).removeClient hfd,
    plausible_removeIndex h.sound hi hne h.reports, h.expired, ?_, h.faults⟩
  change -1 ∈ (registrations (pollfdvRemoveIndex l.app.pollfdv i)).map Registration.fd ↔
    -1 ∈ l.accepts
  rw [← h.lost, hfds, List.map_cons, List.mem_cons]
  exact ⟨.inr, fun hmem => hmem.resolve_left hne.symm⟩

/-- The timer is closed, its entry taken out and the variable reset. -/
theorem Orderly.timerExpired (h : Orderly cfg l) (hi : i.toNat < l.app.pollfdv.size.toNat)
    {f : File} (hfd : (l.app.pollfdv.readData i).fd = l.app.timerFd) (hnonneg : 0 ≤ l.app.timerFd)
    (hobject : (l.app.pollfdv.readData i).object = some .timer)
    (hpd : l.app.pollfdv.readPd i = none) (dispatched : List Dispatch) :
    Orderly cfg ((l.closed l.app.timerFd f).withApp
      { l.app with
        pollfdv := pollfdvRemoveIndex l.app.pollfdv i, timerFd := -1,
        dispatched := dispatched }) := by
  have hne : (l.app.pollfdv.readData i).fd ≠ -1 := hfd ▸ ne_of_fd_nonneg hnonneg
  have hperm := registrations_removeIndex h.sound hi hne
  have hslot : registration (l.app.pollfdv.slot i.toNat) = ⟨l.app.timerFd, some .timer, none⟩ := by
    rw [← hobject, ← hpd, ← hfd]
    rfl
  rw [hslot] at hperm
  have hfds := (hperm.map Registration.fd).mem_iff (a := -1)
  refine ⟨(pollfdvRemoveIndex_spec h.sound hi hne).1,
    (h.registered.perm hperm).removeTimer hnonneg,
    plausible_removeIndex h.sound hi hne h.reports, fun hopen => absurd rfl hopen, ?_, h.faults⟩
  change -1 ∈ (registrations (pollfdvRemoveIndex l.app.pollfdv i)).map Registration.fd ↔
    -1 ∈ l.accepts
  rw [← h.lost, hfds, List.map_cons, List.mem_cons]
  exact ⟨.inr, fun hmem => hmem.resolve_left (ne_of_fd_nonneg hnonneg).symm⟩

theorem size_of_joined (hsound : Sound l.app.pollfdv) (hjoined : Joined l l') :
    l.app.pollfdv.size.toNat ≤ l'.app.pollfdv.size.toNat := by
  cases hjoined with
  | client fd c p g v hfd hfree hnew hadd =>
      have hsize := (pollfdvAdd_spec hsound hadd).2.1
      change _ ≤ v.size.toNat
      omega
  | lost p g v hnew hadd =>
      have hsize := (pollfdvAdd_spec hsound hadd).2.1
      change _ ≤ v.size.toNat
      omega

theorem orderly_clearRevents (h : Orderly cfg l) (hi : i.toNat < l.app.pollfdv.size.toNat)
    (moves : Nat) :
    Triple (Booked pollShape l) (do clearRevents moves i; return false) fun _ w =>
      Orderly cfg (ledger pollShape w) := by
  refine (booked_clearRevents moves).bind fun _ => Triple.pure _ fun w hw => ?_
  rw [Booked] at hw
  rw [hw]
  exact h.cleared hi moves

/-- Servicing an entry that is ready keeps the order. -/
theorem orderly_serviceEvent (h : Orderly cfg l) (hi : i.toNat < l.app.pollfdv.size.toNat)
    (hne : (l.app.pollfdv.readData i).revents ≠ 0) :
    Triple (Booked pollShape l) (serviceEvent cfg i) fun _ w =>
      Orderly cfg (ledger pollShape w) := by
  rw [serviceEvent_eq]
  refine Triple.get_bind fun w hw => ?_
  have happ : w.app = l.app := congrArg Ledger.app hw
  have hfile : w.kernel.files (w.app.pollfdv.readData i).fd =
      l.files (l.app.pollfdv.readData i).fd := by
    rw [happ]
    exact congrFun (congrArg Ledger.files hw) _
  rw [happ]
  have hready := h.ready hi hne
  have hrecord : ∀ branch, Triple (fun w' => w' = w) (record branch i) fun _ =>
      Booked pollShape (l.withApp
        (recorded l.app branch i (l.files (l.app.pollfdv.readData i).fd))) := by
    intro branch
    apply Triple.modify
    rintro w' rfl
    rw [← hfile, ← hw]
    rfl
  generalize branchTaken cfg l.app i = branch at hready ⊢
  cases hready with
  | newClient hfd hobject hpd =>
      have hrecorded := h.recorded (i := i) newClient_ne_timer
        (l.files (l.app.pollfdv.readData i).fd)
      refine (hrecord .newClient).bind fun _ => (triple_pollHandleNewClient _).bind fun _ =>
        triple_of_ledger fun l₂ hjoined => ?_
      have hsize := size_of_joined hrecorded.sound hjoined
      exact orderly_clearRevents (hrecorded.joined hjoined) (Nat.lt_of_lt_of_le hi hsize) _
  | timer hfd hnonneg hobject hpd =>
      refine (hrecord .timer).bind fun _ => (booked_timerExpired _).bind fun _ =>
        Triple.exists_pre fun f => Triple.and_pre fun _ => ?_
      refine booked_getVector.bind fun v => Triple.and_pre ?_
      rintro rfl
      have hexpired := h.timerExpired (f := f) hi hfd hnonneg hobject hpd
        (recorded l.app .timer i
          (l.files (l.app.pollfdv.readData i).fd)).dispatched
      refine (booked_setVector _).bind fun _ =>
        Triple.bind (Q := fun _ w => Orderly cfg (ledger pollShape w)) ?_ fun _ =>
          Triple.pure _ fun w hw => hw
      apply Triple.modify
      intro w₂ h₂
      have htimer : ledger pollShape { w₂ with app := { w₂.app with timerFd := -1 } } =
          (ledger pollShape w₂).withApp { (ledger pollShape w₂).app with timerFd := -1 } := rfl
      rw [Booked] at h₂
      rw [htimer, h₂]
      exact hexpired
  | client c p hfd hobject hpd hlive =>
      have hrecorded := h.recorded (i := i) client_ne_timer
        (l.files (l.app.pollfdv.readData i).fd)
      have hevent : Triple (Booked pollShape (l.withApp (recorded l.app .client i
          (l.files (l.app.pollfdv.readData i).fd)))) (handleClientEvent cfg i) fun removed w =>
            Handled (l.withApp (recorded l.app .client i
              (l.files (l.app.pollfdv.readData i).fd))) i p removed (ledger pollShape w) :=
        triple_handleClientEvent hpd hlive
      refine (hrecord .client).bind fun _ => hevent.bind fun removed => ?_
      cases removed with
      | true =>
          apply Triple.pure
          rintro w₂ (⟨hfalse, -⟩ | ⟨-, f, -, hclosed⟩)
          · cases hfalse
          · rw [hclosed]
            exact hrecorded.clientClosed hi hfd hobject hpd
      | false =>
          refine triple_of_ledger fun l₂ hkept => ?_
          rcases hkept with ⟨-, rfl⟩ | ⟨htrue, -⟩
          · exact orderly_clearRevents hrecorded hi _
          · cases htrue

end Preservation

end EchoServers.PollRegistry
