import Mathlib.Data.List.Dedup
import Mathlib.Data.List.Nodup
import Mathlib.Logic.Function.Basic

/-!
The part of the operating system the servers talk to: open files, TCP
connections with their unread bytes, and the edges of one epoll instance.
Nothing here is translated from the servers; it is the kernel side of the
calls they make.
-/

namespace EchoServers.SocketKernel

abbrev Fd := Int

abbrev Ptr := Nat

/-- Connections are numbered in the order in which they are established.
Unlike a file descriptor, the number of a connection is never reused. -/
abbrev ConnId := Nat

/-- A byte together with the connection it was received on; `none` for a byte
that was never received. -/
structure Octet where
  value : UInt8 := 0
  origin : Option ConnId := none
  deriving DecidableEq, Repr

structure Conn where
  unread : List Octet := []
  /-- The peer has shut down its write side. -/
  eos : Bool := false
  err : Bool := false
  hup : Bool := false
  /-- Everything that has arrived from the peer. -/
  sent : List Octet := []
  /-- Everything the server has transmitted to the peer. -/
  transmitted : List Octet := []
  deriving DecidableEq, Repr

inductive File where
  | listening
  | timer
  | socket (c : ConnId)
  | epoll
  deriving DecidableEq, Repr

structure Kernel where
  files : Fd → Option File := fun _ => none
  conns : ConnId → Conn := fun _ => {}
  /-- Established connections that were not accepted yet. -/
  backlog : List ConnId := []
  /-- The number of connections established so far. -/
  connected : ConnId := 0
  /-- The connections that were reset before they were accepted. -/
  vanished : List ConnId := []
  timerExpired : Bool := false
  /-- The calls of `close` that closed a file, in order. -/
  closes : List (Fd × File) := []
  /-- What each registered descriptor of the epoll instance was registered with. -/
  interest : Fd → Option Ptr := fun _ => none
  /-- The descriptors with a pending edge. -/
  edges : Fd → Bool := fun _ => false

/-- What the network and the clock do to the server's sockets. -/
inductive Arrival where
  | connect
  | vanish
  | bytes (c : ConnId) (data : List UInt8)
  | eos (c : ConnId)
  | fail (c : ConnId) (err hup : Bool)
  | expire
  deriving DecidableEq, Repr

/-- An event on the file `f` makes an edge pending where it is registered. -/
def Kernel.raise (k : Kernel) (f : File) : Kernel :=
  { k with
    edges := fun fd => k.edges fd ||
      (decide (k.files fd = some f) && (k.interest fd).isSome) }

def Kernel.updateConn (k : Kernel) (c : ConnId) (f : Conn → Conn) : Kernel :=
  { k with conns := Function.update k.conns c (f (k.conns c)) }

def tag (c : ConnId) (data : List UInt8) : List Octet :=
  data.map fun value => { value := value, origin := some c }

/-- Arrivals on connections that do not exist or that the peer has already
finished change nothing. -/
def Kernel.arrive (k : Kernel) : Arrival → Kernel
  | .connect =>
      { k with
        backlog := k.backlog ++ [k.connected]
        connected := k.connected + 1 }.raise .listening
  | .vanish =>
      { k with
        backlog := k.backlog.tail
        vanished := k.vanished ++ k.backlog.head?.toList }
  | .bytes c data =>
      if c < k.connected ∧ (k.conns c).eos = false then
        (k.updateConn c fun con =>
          { con with
            unread := con.unread ++ tag c data
            sent := con.sent ++ tag c data }).raise (.socket c)
      else k
  | .eos c =>
      if c < k.connected then
        (k.updateConn c fun con => { con with eos := true }).raise (.socket c)
      else k
  | .fail c err hup =>
      if c < k.connected then
        (k.updateConn c fun con =>
          { con with err := con.err || err, hup := con.hup || hup }).raise (.socket c)
      else k
  | .expire => { k with timerExpired := true }.raise .timer

inductive Errno where
  | eagain
  | emfile
  | econnreset
  | epipe
  | ebadf
  deriving DecidableEq, Repr

/-- `accept4` hands out the number `choice`, which the kernel takes among those
that are not open. -/
def Kernel.accept4 (k : Kernel) (choice : Fd) : Except Errno Fd × Kernel :=
  match k.backlog with
  | [] => (.error .eagain, k)
  | c :: rest =>
      if 0 ≤ choice ∧ k.files choice = none then
        (.ok choice,
          { k with
            files := Function.update k.files choice (some (.socket c))
            backlog := rest })
      else (.error .emfile, k)

/-- Unread bytes are returned before the end of the stream is reported. -/
def Kernel.read (k : Kernel) (fd : Fd) (size : Nat) :
    Except Errno (List Octet) × Kernel :=
  match k.files fd with
  | some (.socket c) =>
      let con := k.conns c
      if con.unread ≠ [] then
        (.ok (con.unread.take size),
          k.updateConn c fun con => { con with unread := con.unread.drop size })
      else if con.err then (.error .econnreset, k)
      else if con.eos then (.ok [], k)
      else (.error .eagain, k)
  | _ => (.error .ebadf, k)

/-- At most `limit` bytes fit the send buffer. -/
def Kernel.write (k : Kernel) (fd : Fd) (data : List Octet) (limit : Nat) :
    Except Errno Nat × Kernel :=
  match k.files fd with
  | some (.socket c) =>
      if (k.conns c).err then (.error .epipe, k)
      else
        (.ok (data.take limit).length,
          k.updateConn c fun con =>
            { con with transmitted := con.transmitted ++ data.take limit })
  | _ => (.error .ebadf, k)

/-- Closing a file also removes it from the epoll instance. -/
def Kernel.close (k : Kernel) (fd : Fd) : Int × Kernel :=
  match k.files fd with
  | none => (-1, k)
  | some f =>
      (0, { k with
        files := Function.update k.files fd none
        closes := k.closes ++ [(fd, f)]
        interest := Function.update k.interest fd none
        edges := Function.update k.edges fd false })

/-- What `poll` and `epoll` see of a file. -/
structure Readiness where
  readable : Bool := false
  rdhup : Bool := false
  err : Bool := false
  hup : Bool := false
  deriving DecidableEq, Repr

def Kernel.readiness (k : Kernel) : File → Readiness
  | .listening => { readable := !k.backlog.isEmpty }
  | .timer => { readable := k.timerExpired }
  | .socket c =>
      let con := k.conns c
      { readable := !con.unread.isEmpty || con.eos
        rdhup := con.eos
        err := con.err
        hup := con.hup }
  | .epoll => {}

def Readiness.any (r : Readiness) : Bool :=
  r.readable || r.rdhup || r.err || r.hup

/-- `EPOLL_CTL_ADD`; a file that is ready already makes an edge pending. -/
def Kernel.epollAdd (k : Kernel) (fd : Fd) (data : Ptr) : Int × Kernel :=
  match k.files fd with
  | none => (-1, k)
  | some f =>
      if (k.interest fd).isSome then (-1, k)
      else
        (0, { k with
          interest := Function.update k.interest fd (some data)
          edges := Function.update k.edges fd (k.readiness f).any })

/-- `struct epoll_event`.  The descriptor and the file it is about are kept
beside it for the statements; the kernel does not report them. -/
structure EpollEvent where
  events : Readiness
  data : Ptr
  fd : Fd
  object : File
  deriving DecidableEq, Repr

def Kernel.epollEvent (k : Kernel) (fd : Fd) : Option EpollEvent :=
  match k.files fd, k.interest fd with
  | some f, some data => some { events := k.readiness f, data := data, fd := fd, object := f }
  | _, _ => none

/-- The pending edges of the descriptors `chosen`, at most `maxEvents` of them,
are delivered with the readiness of the moment and cleared. -/
def Kernel.epollWait (k : Kernel) (maxEvents : Nat) (chosen : List Fd) :
    List EpollEvent × Kernel :=
  let delivered := (chosen.dedup.filter k.edges).take maxEvents
  (delivered.filterMap k.epollEvent,
    { k with edges := fun fd => k.edges fd && !delivered.contains fd })

section Lemmas

variable {k : Kernel} {fd fd' : Fd} {c c' : ConnId}

theorem ne_of_fd_nonneg {fd : Fd} (h : 0 ≤ fd) : fd ≠ -1 := by
  rintro rfl
  exact absurd h (by decide)

@[simp] theorem raise_files (f : File) : (k.raise f).files = k.files := rfl
@[simp] theorem raise_conns (f : File) : (k.raise f).conns = k.conns := rfl
@[simp] theorem raise_backlog (f : File) : (k.raise f).backlog = k.backlog := rfl
@[simp] theorem raise_connected (f : File) : (k.raise f).connected = k.connected := rfl
@[simp] theorem raise_closes (f : File) : (k.raise f).closes = k.closes := rfl
@[simp] theorem raise_interest (f : File) : (k.raise f).interest = k.interest := rfl

@[simp] theorem updateConn_files (f : Conn → Conn) :
    (k.updateConn c f).files = k.files := rfl
@[simp] theorem updateConn_backlog (f : Conn → Conn) :
    (k.updateConn c f).backlog = k.backlog := rfl
@[simp] theorem updateConn_connected (f : Conn → Conn) :
    (k.updateConn c f).connected = k.connected := rfl
@[simp] theorem updateConn_closes (f : Conn → Conn) :
    (k.updateConn c f).closes = k.closes := rfl
@[simp] theorem updateConn_interest (f : Conn → Conn) :
    (k.updateConn c f).interest = k.interest := rfl
@[simp] theorem updateConn_edges (f : Conn → Conn) :
    (k.updateConn c f).edges = k.edges := rfl

@[simp] theorem updateConn_conns_self (f : Conn → Conn) :
    (k.updateConn c f).conns c = f (k.conns c) := by
  simp [Kernel.updateConn]

theorem updateConn_conns_of_ne (f : Conn → Conn) (hne : c' ≠ c) :
    (k.updateConn c f).conns c' = k.conns c' := by
  simp [Kernel.updateConn, hne]

/-- A `read` that succeeds takes the first unread bytes; there are none only at
the end of the stream. -/
theorem read_eq_ok {k' : Kernel} {size : Nat} {data : List Octet}
    (h : k.read fd size = (.ok data, k')) :
    ∃ c, k.files fd = some (.socket c) ∧ data = (k.conns c).unread.take size ∧
      ((k.conns c).unread = [] → (k.conns c).eos = true) ∧
      k' = k.updateConn c fun con => { con with unread := con.unread.drop size } := by
  unfold Kernel.read at h
  split at h
  · rename_i c hfile
    refine ⟨c, hfile, ?_⟩
    dsimp only at h
    split_ifs at h with hunread herr heos
    · obtain ⟨rfl, rfl⟩ := h
      exact ⟨rfl, fun hnil => absurd hnil hunread, rfl⟩
    · cases h
    · rw [ne_eq, not_not] at hunread
      obtain ⟨rfl, rfl⟩ := h
      refine ⟨by rw [hunread, List.take_nil], fun _ => heos, ?_⟩
      have hsame : { k.conns c with unread := (k.conns c).unread.drop size } = k.conns c := by
        rw [hunread, List.drop_nil, ← hunread]
      simp only [Kernel.updateConn, hsame, Function.update_eq_self]
    · cases h
  · cases h

theorem write_eq_ok {k' : Kernel} {data : List Octet} {limit sent : Nat}
    (h : k.write fd data limit = (.ok sent, k')) :
    ∃ c, k.files fd = some (.socket c) ∧ sent = (data.take limit).length ∧
      k' = k.updateConn c fun con =>
        { con with transmitted := con.transmitted ++ data.take limit } := by
  unfold Kernel.write at h
  split at h
  · rename_i c hfile
    refine ⟨c, hfile, ?_⟩
    split_ifs at h with herr
    · cases h
    · obtain ⟨rfl, rfl⟩ := h
      exact ⟨rfl, rfl⟩
  · cases h

/-- An event is that of a registered descriptor, with the readiness of the moment. -/
theorem epollEvent_eq_some {ev : EpollEvent} (h : k.epollEvent fd = some ev) :
    ev.fd = fd ∧ k.files fd = some ev.object ∧ k.interest fd = some ev.data ∧
      ev.events = k.readiness ev.object := by
  unfold Kernel.epollEvent at h
  split at h
  · rename_i f data hfile hinterest
    cases h
    exact ⟨rfl, hfile, hinterest, rfl⟩
  · cases h

theorem map_fd_filterMap_epollEvent (fds : List Fd) :
    ((fds.filterMap k.epollEvent).map EpollEvent.fd).Sublist fds := by
  induction fds with
  | nil => exact List.Sublist.refl _
  | cons fd fds ih =>
      cases hevent : k.epollEvent fd with
      | none =>
          rw [List.filterMap_cons_none hevent]
          exact ih.cons _
      | some ev =>
          rw [List.filterMap_cons_some hevent, List.map_cons, (epollEvent_eq_some hevent).1]
          exact ih.cons_cons _

/-- There is at most one event for a descriptor. -/
theorem nodup_epollWait (maxEvents : Nat) (chosen : List Fd) :
    ((k.epollWait maxEvents chosen).1.map EpollEvent.fd).Nodup := by
  apply List.Nodup.sublist (map_fd_filterMap_epollEvent _)
  exact ((chosen.nodup_dedup.filter _).sublist (List.take_sublist _ _))

theorem mem_epollWait {maxEvents : Nat} {chosen : List Fd} {ev : EpollEvent}
    (h : ev ∈ (k.epollWait maxEvents chosen).1) :
    k.files ev.fd = some ev.object ∧ k.interest ev.fd = some ev.data ∧
      ev.events = k.readiness ev.object := by
  obtain ⟨fd, -, hevent⟩ := List.mem_filterMap.mp h
  obtain ⟨rfl, hfile, hinterest, hready⟩ := epollEvent_eq_some hevent
  exact ⟨hfile, hinterest, hready⟩

theorem arrive_files (a : Arrival) : (k.arrive a).files = k.files := by
  cases a <;> simp only [Kernel.arrive] <;> (try split) <;> rfl

theorem arrive_closes (a : Arrival) : (k.arrive a).closes = k.closes := by
  cases a <;> simp only [Kernel.arrive] <;> (try split) <;> rfl

theorem arrive_interest (a : Arrival) : (k.arrive a).interest = k.interest := by
  cases a <;> simp only [Kernel.arrive] <;> (try split) <;> rfl

theorem arrive_transmitted (a : Arrival) :
    ((k.arrive a).conns c).transmitted = (k.conns c).transmitted := by
  cases a with
  | connect => rfl
  | vanish => rfl
  | expire => rfl
  | bytes c' data | eos c' | fail c' err hup =>
      simp only [Kernel.arrive]
      split
      · rcases eq_or_ne c c' with rfl | hne
        · simp
        · simp [updateConn_conns_of_ne _ hne]
      · rfl

end Lemmas

/-- What the kernel keeps to whatever the server does: a connection belongs to
one descriptor at most, and to none while it waits to be accepted; the unread
bytes of a connection are its own. -/
structure Kernel.Consistent (k : Kernel) : Prop where
  unique : ∀ fd fd' c, k.files fd = some (.socket c) →
    k.files fd' = some (.socket c) → fd = fd'
  known : ∀ fd c, k.files fd = some (.socket c) → c < k.connected
  waiting : ∀ c ∈ k.backlog, c < k.connected ∧ ∀ fd, k.files fd ≠ some (.socket c)
  backlogNodup : k.backlog.Nodup
  origin : ∀ c, ∀ x ∈ (k.conns c).unread, x.origin = some c
  whereabouts : ∀ c < k.connected, c ∈ k.backlog ∨ (∃ fd, k.files fd = some (.socket c)) ∨
    c ∈ k.vanished ∨ ∃ fd, (fd, .socket c) ∈ k.closes

section Consistent

variable {k k' : Kernel}

/-- Only the files, the connections that wait or are gone, and the unread bytes
matter. -/
theorem Kernel.Consistent.congr (h : k.Consistent) (hfiles : k'.files = k.files)
    (hbacklog : k'.backlog = k.backlog) (hconnected : k'.connected = k.connected)
    (hvanished : k'.vanished = k.vanished) (hcloses : k'.closes = k.closes)
    (hunread : ∀ c, (k'.conns c).unread ⊆ (k.conns c).unread) : k'.Consistent := by
  refine ⟨?_, ?_, ?_, hbacklog ▸ h.backlogNodup, fun c x hx => h.origin c x (hunread c hx), ?_⟩
  · rw [hfiles]
    exact h.unique
  · rw [hfiles, hconnected]
    exact h.known
  · rw [hfiles, hbacklog, hconnected]
    exact h.waiting
  · rw [hfiles, hbacklog, hconnected, hvanished, hcloses]
    exact h.whereabouts

theorem Kernel.Consistent.updateConn (h : k.Consistent) {c : ConnId} {f : Conn → Conn}
    (hunread : (f (k.conns c)).unread ⊆ (k.conns c).unread) :
    (k.updateConn c f).Consistent := by
  refine h.congr rfl rfl rfl rfl rfl fun c' => ?_
  rcases eq_or_ne c' c with rfl | hne
  · simpa using hunread
  · rw [updateConn_conns_of_ne _ hne]
    exact List.Subset.refl _

theorem Kernel.Consistent.raise (h : k.Consistent) (f : File) : (k.raise f).Consistent :=
  ⟨h.unique, h.known, h.waiting, h.backlogNodup, h.origin, h.whereabouts⟩

theorem Kernel.Consistent.arrive (h : k.Consistent) (a : Arrival) :
    (k.arrive a).Consistent := by
  cases a with
  | connect =>
      refine ⟨h.unique, fun fd c hfd => Nat.lt_succ_of_lt (h.known fd c hfd), ?_, ?_, h.origin, ?_⟩
      · intro c hc
        simp only [Kernel.arrive, raise_backlog, List.mem_append, List.mem_singleton] at hc
        rcases hc with hc | rfl
        · exact ⟨Nat.lt_succ_of_lt (h.waiting c hc).1, (h.waiting c hc).2⟩
        · exact ⟨Nat.lt_succ_self _, fun fd hfd => Nat.lt_irrefl _ (h.known fd _ hfd)⟩
      · simp only [Kernel.arrive, raise_backlog]
        refine List.nodup_append.mpr ⟨h.backlogNodup, by simp, ?_⟩
        rintro c hc c' hc' rfl
        rw [List.mem_singleton.mp hc'] at hc
        exact Nat.lt_irrefl _ (h.waiting _ hc).1
      · intro c hc
        rcases Nat.lt_succ_iff_lt_or_eq.mp hc with hc | rfl
        · exact (h.whereabouts c hc).imp (fun hmem => List.mem_append_left _ hmem)
            fun hgone => hgone
        · exact .inl (List.mem_append_right _ List.mem_cons_self)
  | vanish =>
      refine ⟨h.unique, h.known, fun c hc => h.waiting c (List.mem_of_mem_tail hc),
        h.backlogNodup.tail, h.origin, fun c hc => ?_⟩
      rcases h.whereabouts c hc with hmem | hopen | hvanished | hclosed
      · simp only [Kernel.arrive]
        cases hbacklog : k.backlog with
        | nil =>
            rw [hbacklog] at hmem
            cases hmem
        | cons c' rest =>
            rw [hbacklog] at hmem
            rcases List.mem_cons.mp hmem with rfl | hmem
            · exact .inr (.inr (.inl (List.mem_append_right _ List.mem_cons_self)))
            · exact .inl hmem
      · exact .inr (.inl hopen)
      · exact .inr (.inr (.inl (List.mem_append_left _ hvanished)))
      · exact .inr (.inr (.inr hclosed))
  | expire => exact h.congr rfl rfl rfl rfl rfl fun c => List.Subset.refl _
  | bytes c data =>
      simp only [Kernel.arrive]
      split
      · refine ⟨h.unique, h.known, h.waiting, h.backlogNodup, fun c' x hx => ?_, h.whereabouts⟩
        rcases eq_or_ne c' c with rfl | hne
        · simp only [raise_conns, updateConn_conns_self, List.mem_append] at hx
          rcases hx with hx | hx
          · exact h.origin _ x hx
          · obtain ⟨value, -, rfl⟩ := List.mem_map.mp hx
            rfl
        · rw [raise_conns, updateConn_conns_of_ne _ hne] at hx
          exact h.origin c' x hx
      · exact h
  | eos c | fail c err hup =>
      simp only [Kernel.arrive]
      split
      · exact Kernel.Consistent.raise (h.updateConn (List.Subset.refl _)) _
      · exact h

/-- Accepting the oldest waiting connection under a number that is not open. -/
theorem Kernel.Consistent.accept (h : k.Consistent) {c : ConnId} {backlog : List ConnId}
    (hbacklog : k.backlog = c :: backlog) (fd : Fd) (hfree : k.files fd = none) :
    Kernel.Consistent { k with
      files := Function.update k.files fd (some (.socket c))
      backlog := backlog } := by
  have hwaiting := h.waiting
  have hnodup := h.backlogNodup
  rw [hbacklog] at hwaiting hnodup
  have hc := hwaiting c (by simp)
  refine ⟨fun fd₁ fd₂ c' h₁ h₂ => ?_, fun fd₁ c' h₁ => ?_, fun c' hc' => ?_,
    (List.nodup_cons.mp hnodup).2, h.origin, fun c' hc' => ?_⟩
  · rcases eq_or_ne fd₁ fd with rfl | hne₁ <;> rcases eq_or_ne fd₂ fd₁ with rfl | hne₂
    · rfl
    · simp only [Function.update_self, Function.update_of_ne hne₂, Option.some.injEq,
        File.socket.injEq] at h₁ h₂
      exact absurd h₂ (h₁ ▸ hc.2 fd₂)
    · rfl
    · rcases eq_or_ne fd₂ fd with rfl | hne₃
      · simp only [Function.update_self, Function.update_of_ne hne₁, Option.some.injEq,
          File.socket.injEq] at h₁ h₂
        exact absurd h₁ (h₂ ▸ hc.2 fd₁)
      · simp only [Function.update_of_ne hne₁, Function.update_of_ne hne₃] at h₁ h₂
        exact h.unique fd₁ fd₂ c' h₁ h₂
  · rcases eq_or_ne fd₁ fd with rfl | hne
    · simp only [Function.update_self, Option.some.injEq, File.socket.injEq] at h₁
      exact h₁ ▸ hc.1
    · simp only [Function.update_of_ne hne] at h₁
      exact h.known fd₁ c' h₁
  · obtain ⟨hlt, hnot⟩ := hwaiting c' (by simp [hc'])
    refine ⟨hlt, fun fd₁ => ?_⟩
    rcases eq_or_ne fd₁ fd with rfl | hne
    · simp only [Function.update_self, ne_eq, Option.some.injEq, File.socket.injEq]
      rintro rfl
      exact (List.nodup_cons.mp hnodup).1 hc'
    · simp only [Function.update_of_ne hne]
      exact hnot fd₁
  · have hplace := h.whereabouts c' hc'
    rw [hbacklog, List.mem_cons] at hplace
    rcases hplace with (rfl | hmem) | ⟨fd₁, hopen⟩ | hgone
    · exact .inr (.inl ⟨fd, Function.update_self ..⟩)
    · exact .inl hmem
    · refine .inr (.inl ⟨fd₁, ?_⟩)
      have hne : fd₁ ≠ fd := by
        rintro rfl
        rw [hfree] at hopen
        cases hopen
      exact (Function.update_of_ne hne ..).trans hopen
    · exact .inr (.inr hgone)

theorem close_files {fd : Fd} : (k.close fd).2.files = Function.update k.files fd none := by
  unfold Kernel.close
  split
  · rename_i hnone
    rw [← hnone, Function.update_eq_self]
  · rfl

theorem close_conns {fd : Fd} : (k.close fd).2.conns = k.conns := by
  unfold Kernel.close
  split <;> rfl

theorem Kernel.Consistent.close (h : k.Consistent) (fd : Fd) :
    (k.close fd).2.Consistent := by
  have hsub : ∀ fd' c, (k.close fd).2.files fd' = some (.socket c) →
      k.files fd' = some (.socket c) := by
    intro fd' c hfd'
    rw [close_files] at hfd'
    rcases eq_or_ne fd' fd with rfl | hne
    · simp at hfd'
    · rwa [Function.update_of_ne hne] at hfd'
  have hbacklog : (k.close fd).2.backlog = k.backlog := by
    unfold Kernel.close
    split <;> rfl
  have hconnected : (k.close fd).2.connected = k.connected := by
    unfold Kernel.close
    split <;> rfl
  refine ⟨fun fd₁ fd₂ c h₁ h₂ => h.unique fd₁ fd₂ c (hsub _ _ h₁) (hsub _ _ h₂), ?_, ?_,
    hbacklog ▸ h.backlogNodup, ?_, fun c hc => ?_⟩
  · rw [hconnected]
    exact fun fd₁ c h₁ => h.known fd₁ c (hsub _ _ h₁)
  · rw [hbacklog, hconnected]
    exact fun c hc => ⟨(h.waiting c hc).1, fun fd₁ h₁ => (h.waiting c hc).2 fd₁ (hsub _ _ h₁)⟩
  · rw [close_conns]
    exact h.origin
  · rw [hconnected] at hc
    have hplace := h.whereabouts c hc
    rw [hbacklog, close_files]
    cases hfile : k.files fd with
    | none =>
        rw [← hfile, Function.update_eq_self]
        simp only [Kernel.close, hfile]
        exact hplace
    | some f =>
        simp only [Kernel.close, hfile]
        rcases hplace with hmem | ⟨fd₁, hopen⟩ | hvanished | ⟨fd₁, hclosed⟩
        · exact .inl hmem
        · rcases eq_or_ne fd₁ fd with rfl | hne
          · rw [hfile] at hopen
            cases hopen
            exact .inr (.inr (.inr ⟨fd₁, List.mem_append_right _ List.mem_cons_self⟩))
          · exact .inr (.inl ⟨fd₁, (Function.update_of_ne hne ..).trans hopen⟩)
        · exact .inr (.inr (.inl hvanished))
        · exact .inr (.inr (.inr ⟨fd₁, List.mem_append_left _ hclosed⟩))

end Consistent

end EchoServers.SocketKernel
