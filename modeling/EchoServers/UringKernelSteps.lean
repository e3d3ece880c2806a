import EchoServers.UringServer

namespace EchoServers.UringKernelSteps

open EchoServers.RingCounters
open EchoServers.ServerUtils
open EchoServers.SocketKernel
open EchoServers.StateTriples
open EchoServers.UringMemory
open EchoServers.UringQueues
open EchoServers.UringServer
open EchoServers.Utils

/-- The server as its rings present it: two queues in place of the memory that
holds them. -/
structure View extends Server where
  ringSize : UInt32
  pending : List Sqe
  unreaped : List Cqe

def view (w : World) : View :=
  { w.toServer with
    ringSize := w.iou.ringSize
    pending := w.iou.pending
    unreaped := w.iou.unreaped }

def View.withOp (v : View) (p : Ptr) (o : Option IouOp) : View :=
  { v with ops := Function.update v.ops p o }

/-- The kernel completes the request `r`, which stands between `before` and
`after`. -/
def View.complete (v : View) (before after : List Request) (r : Request)
    (res : Int) : View :=
  { v with
    inflight := before ++ after
    unreaped := v.unreaped ++ [{ userData := r.sqe.userData, res := res, request := r }] }

def setBuf (o : IouOp) (buf : List Octet) : IouOp :=
  { o with infoCon := { o.infoCon with buf := buf } }

/-- The steps of the kernel, one constructor for each thing it can do. -/
inductive KernelStep : View → View → Prop where
  | network (v : View) (a : Arrival) :
      KernelStep v { v with kernel := v.kernel.arrive a }
  | consume (v : View) (sqe : Sqe) (rest : List Sqe) (hpending : v.pending = sqe :: rest) :
      KernelStep v
        { v with
          pending := rest
          inflight := v.inflight ++ [{ sqe := sqe, conn := connOf v.kernel sqe.fd }]
          consumed := v.consumed ++ [sqe] }
  | accept (v : View) (before after : List Request) (r : Request)
      (hinflight : v.inflight = before ++ r :: after) (hkind : r.sqe.opcode = .accept)
      (fd : Fd) (c : ConnId) (backlog : List ConnId)
      (hbacklog : v.kernel.backlog = c :: backlog)
      (hfd : 0 ≤ fd) (hfree : v.kernel.files fd = none) :
      KernelStep v
        ({ v with
          kernel := { v.kernel with
            files := Function.update v.kernel.files fd (some (.socket c))
            backlog := backlog } }.complete before after r fd)
  | deliver (v : View) (before after : List Request) (r : Request)
      (hinflight : v.inflight = before ++ r :: after) (hkind : r.sqe.opcode = .recv)
      (c : ConnId) (hconn : r.conn = some c) (data rest : List Octet)
      (hunread : (v.kernel.conns c).unread = data ++ rest) (hdata : data ≠ [])
      (hlen : data.length ≤ r.sqe.len.toNat)
      (p : Ptr) (haddr : r.sqe.addr = .conBuf p) (o : IouOp) (hop : v.ops p = some o) :
      KernelStep v
        (({ v with
          kernel := v.kernel.updateConn c fun con =>
            { con with unread := rest } }.withOp p
              (some (setBuf o (overwrite o.infoCon.buf data)))).complete before after
          { r with moved := data } data.length)
  | eof (v : View) (before after : List Request) (r : Request)
      (hinflight : v.inflight = before ++ r :: after) (hkind : r.sqe.opcode = .recv)
      (c : ConnId) (hconn : r.conn = some c)
      (hunread : (v.kernel.conns c).unread = []) (heos : (v.kernel.conns c).eos = true) :
      KernelStep v (v.complete before after r 0)
  | scribble (v : View) (r : Request) (hmem : r ∈ v.inflight)
      (hkind : r.sqe.opcode = .recv) (data : List Octet)
      (hlen : data.length ≤ r.sqe.len.toNat)
      (p : Ptr) (haddr : r.sqe.addr = .conBuf p) (o : IouOp) (hop : v.ops p = some o) :
      KernelStep v (v.withOp p (some (setBuf o (overwrite o.infoCon.buf data))))
  | transmit (v : View) (before after : List Request) (r : Request)
      (hinflight : v.inflight = before ++ r :: after) (hkind : r.sqe.opcode = .send)
      (c : ConnId) (hconn : r.conn = some c) (p : Ptr) (haddr : r.sqe.addr = .conBuf p)
      (o : IouOp) (hop : v.ops p = some o) (data : List Octet)
      (hdata : data <+: (o.infoCon.buf.take r.sqe.len.toNat).drop r.moved.length) :
      KernelStep v
        { v with
          kernel := v.kernel.updateConn c fun con =>
            { con with transmitted := con.transmitted ++ data }
          inflight := before ++ { r with moved := r.moved ++ data } :: after }
  | sent (v : View) (before after : List Request) (r : Request)
      (hinflight : v.inflight = before ++ r :: after) (hkind : r.sqe.opcode = .send) :
      KernelStep v (v.complete before after r r.moved.length)
  | close (v : View) (before after : List Request) (r : Request)
      (hinflight : v.inflight = before ++ r :: after) (hkind : r.sqe.opcode = .close)
      (f : File) (hopen : v.kernel.files r.sqe.fd = some f) :
      KernelStep v
        ({ v with kernel := (v.kernel.close r.sqe.fd).2 }.complete before after r 0)
  | answer (v : View) (before after : List Request) (r : Request)
      (hinflight : v.inflight = before ++ r :: after) (res : Int)
      (hres : v.faithful = true → res < 0) :
      KernelStep v (v.complete before after r res)
  /-- The kernel follows an address of a request that is not that of a live
  buffer. -/
  | stray (v : View) (r : Request) (hmem : r ∈ v.inflight)
      (hkind : r.sqe.opcode = .recv ∨ r.sqe.opcode = .send)
      (hstray : ∀ p, r.sqe.addr = .conBuf p → v.ops p = none) (v' : View) :
      KernelStep v v'

/-- What the server maintains about its rings. -/
structure WellFormed (iou : Iou) : Prop where
  sqMask : ∃ k, IsMask iou.sqRing.ringMask k ∧ iou.ringSize.toNat ≤ 2 ^ k
  sqBound : distance iou.sqRing.head iou.sqRing.tail ≤ iou.ringSize.toNat
  identity : ∀ c ∈ window iou.sqRing.head (distance iou.sqRing.head iou.sqRing.tail),
    iou.sqRing.array (c &&& iou.sqRing.ringMask) = c &&& iou.sqRing.ringMask
  cqMask : ∃ k, IsMask iou.cqRing.ringMask k
  cqBound : distance iou.cqRing.head iou.cqRing.tail ≤ iou.cqRing.ringMask.toNat + 1

section Create

variable {cfg : Config}

theorem wellFormed_iouCreate (s : RingSetup cfg) (useKernelPooling : Bool) :
    WellFormed (iouCreate cfg s useKernelPooling) := by
  refine ⟨⟨s.sqBits, isMask_ofNat s.sqBits_le, s.ringSize_le⟩, ?_, ?_,
    ⟨s.cqBits, isMask_ofNat s.cqBits_le⟩, ?_⟩
  · simp [iouCreate]
  · simp [iouCreate, window]
  · simp [iouCreate]

theorem pending_iouCreate (s : RingSetup cfg) (useKernelPooling : Bool) :
    (iouCreate cfg s useKernelPooling).pending = [] :=
  entries_eq_nil_iff.mpr rfl

theorem unreaped_iouCreate (s : RingSetup cfg) (useKernelPooling : Bool) :
    (iouCreate cfg s useKernelPooling).unreaped = [] :=
  entries_eq_nil_iff.mpr rfl

end Create

section Rings

variable {iou iou' : Iou}

theorem mask_lt {mask : UInt32} {k : Nat} (hmask : IsMask mask k) :
    mask.toNat + 1 = 2 ^ k ∧ 2 ^ k ≤ 2 ^ 31 := by
  have hpos := Nat.two_pow_pos k
  refine ⟨by rw [hmask.2]; omega, Nat.pow_le_pow_right (by decide) hmask.1⟩

/-- Posting a CQE appends it behind the unreaped ones and alters none of them. -/
theorem unreaped_post_of_mask {k : Nat} (hmask : IsMask iou.cqRing.ringMask k)
    (hroom : iou.cqRing.hasRoom = true) (c : Cqe) :
    Iou.unreaped { iou with cqRing := iou.cqRing.post c } = iou.unreaped ++ [c] := by
  have hlt := mask_lt hmask
  have hdist : distance iou.cqRing.head iou.cqRing.tail < 2 ^ k := by
    have := of_decide_eq_true hroom
    omega
  rw [Iou.unreaped, IouCqRing.post]
  rw [entries_push (by dsimp only; omega)]
  congr 1
  · refine entries_congr fun x hx => ?_
    have hne := slot_ne_of_mem_window hmask hdist hx
    rw [head_add_distance] at hne
    simp [Iou.cqeAt, hne]
  · simp [Iou.cqeAt]

theorem unreaped_post (hwf : WellFormed iou) (hroom : iou.cqRing.hasRoom = true)
    (c : Cqe) :
    Iou.unreaped { iou with cqRing := iou.cqRing.post c } = iou.unreaped ++ [c] := by
  obtain ⟨k, hmask⟩ := hwf.cqMask
  exact unreaped_post_of_mask hmask hroom c

theorem wellFormed_post (hwf : WellFormed iou) (hroom : iou.cqRing.hasRoom = true)
    (c : Cqe) : WellFormed { iou with cqRing := iou.cqRing.post c } := by
  obtain ⟨k, hmask⟩ := hwf.cqMask
  have hlt := mask_lt hmask
  have hdist := of_decide_eq_true hroom
  refine ⟨hwf.sqMask, hwf.sqBound, hwf.identity, ⟨k, hmask⟩, ?_⟩
  simp only [IouCqRing.post]
  rw [distance_tail_succ (by omega)]
  omega

/-- Consuming takes the oldest published SQE. -/
theorem pending_consume (hne : iou.sqRing.head ≠ iou.sqRing.tail) :
    iou.pending = iou.sqeAt iou.sqRing.head ::
      Iou.pending { iou with
        sqRing := { iou.sqRing with head := iou.sqRing.head + 1 } } :=
  entries_pop hne

theorem wellFormed_consume (hwf : WellFormed iou)
    (hne : iou.sqRing.head ≠ iou.sqRing.tail) :
    WellFormed { iou with sqRing := { iou.sqRing with head := iou.sqRing.head + 1 } } := by
  have hdist := distance_head_succ hne
  have hbound := hwf.sqBound
  refine ⟨hwf.sqMask, by dsimp only; omega, fun c hc => hwf.identity c ?_, hwf.cqMask,
    hwf.cqBound⟩
  rw [hdist, window]
  exact List.mem_cons_of_mem _ hc

/-- What the kernel does to the memory of the rings in one step. -/
inductive RingStep (iou : Iou) : Iou → Prop where
  | same : RingStep iou iou
  | flags (flags : UInt32) :
      RingStep iou { iou with sqRing := { iou.sqRing with flags := flags } }
  | post (c : Cqe) (hroom : iou.cqRing.hasRoom = true) :
      RingStep iou { iou with cqRing := iou.cqRing.post c }
  | consume (hne : iou.sqRing.head ≠ iou.sqRing.tail) :
      RingStep iou
        { iou with sqRing := { iou.sqRing with head := iou.sqRing.head + 1 } }

theorem RingStep.tail_eq (h : RingStep iou iou') :
    iou'.sqRing.tail = iou.sqRing.tail ∧ iou'.ringSize = iou.ringSize := by
  cases h <;> exact ⟨rfl, rfl⟩

theorem RingStep.wellFormed (h : RingStep iou iou') (hwf : WellFormed iou) :
    WellFormed iou' := by
  cases h with
  | same => exact hwf
  | flags f => exact ⟨hwf.1, hwf.2, hwf.3, hwf.4, hwf.5⟩
  | post c hroom => exact wellFormed_post hwf hroom c
  | consume hne => exact wellFormed_consume hwf hne

end Rings

section Inversion

theorem take_drop_of_getElem? {α : Type} {l : List α} {i : Nat} {x : α}
    (h : l[i]? = some x) :
    l = l.take i ++ x :: l.drop (i + 1) ∧
      l.eraseIdx i = l.take i ++ l.drop (i + 1) ∧
      ∀ y, l.set i y = l.take i ++ y :: l.drop (i + 1) := by
  obtain ⟨hi, rfl⟩ := List.getElem?_eq_some_iff.mp h
  refine ⟨by simp, List.eraseIdx_eq_take_drop_succ l i, fun y => ?_⟩
  rw [List.set_eq_take_append_cons_drop, if_pos hi]

/-- What a step of the executable kernel is in terms of the two queues. -/
def Steps (w w' : World) : Prop :=
  RingStep w.iou w'.iou ∧ (view w' = view w ∨ KernelStep (view w) (view w'))

theorem Steps.refl (w : World) : Steps w w :=
  ⟨.same, .inl rfl⟩

theorem steps_onRequest {w : World} {i : Nat} {kind : Opcode}
    {f : Request → World}
    (h : ∀ r, w.inflight[i]? = some r → r.sqe.opcode = kind → Steps w (f r)) :
    Steps w (w.onRequest i kind f) := by
  unfold World.onRequest
  split
  · rename_i r hr
    split
    · rename_i hkind
      exact h r hr hkind
    · exact .refl _
  · exact .refl _

theorem steps_onCompletion {w : World} {i : Nat}
    {kind : Opcode} {f : Request → World}
    (h : ∀ r, w.iou.cqRing.hasRoom = true → w.inflight[i]? = some r →
      r.sqe.opcode = kind → Steps w (f r)) :
    Steps w (w.onCompletion i kind f) := by
  unfold World.onCompletion
  split
  · rename_i hroom
    exact steps_onRequest fun r => h r hroom
  · exact .refl _

/-- Completing a request in a state that differs from `w` outside the rings and
the requests in flight only. -/
theorem view_complete {w : World} (w' : World) (r' : Request) (res : Int)
    (hwf : WellFormed w.iou) (hroom : w.iou.cqRing.hasRoom = true) {i : Nat} {r : Request}
    (hr : w.inflight[i]? = some r) (hiou : w'.iou = w.iou)
    (hinflight : w'.inflight = w.inflight) :
    RingStep w.iou (w'.complete i r' res).iou ∧
      view (w'.complete i r' res) =
        (view w').complete (w.inflight.take i) (w.inflight.drop (i + 1)) r' res := by
  refine ⟨?_, ?_⟩
  · simp only [World.complete, hiou]
    exact .post _ hroom
  · have hpost := unreaped_post hwf hroom
      { userData := r'.sqe.userData, res := res, request := r' }
    simp only [view, World.complete, View.complete, hiou, hinflight, hpost,
      (take_drop_of_getElem? hr).2.1]
    rfl

theorem steps_accept {w : World} (hwf : WellFormed w.iou) (i : Nat) (fd : Fd) :
    Steps w (w.act (.accept i fd)) := by
  refine steps_onCompletion fun r hroom hr hkind => ?_
  unfold Kernel.accept4
  cases hbacklog : w.kernel.backlog with
  | nil => exact .refl _
  | cons c backlog =>
      by_cases hfd : 0 ≤ fd ∧ w.kernel.files fd = none
      · simp only [hfd, and_self, if_true]
        obtain ⟨hring, hview⟩ := view_complete { w with kernel := { w.kernel with
          files := Function.update w.kernel.files fd (some (.socket c))
          backlog := backlog } } r fd hwf hroom hr rfl rfl
        refine ⟨hring, .inr ?_⟩
        rw [hview]
        exact KernelStep.accept (view w) _ _ r (take_drop_of_getElem? hr).1 hkind fd c
          backlog hbacklog hfd.1 hfd.2
      · simp only [hfd, if_false]
        exact .refl _

theorem steps_consume (w : World) : Steps w w.consume := by
  by_cases hne : w.iou.sqRing.head = w.iou.sqRing.tail
  · rw [show w.consume = w by simp [World.consume, hne]]
    exact .refl _
  · simp only [World.consume, hne, if_false]
    refine ⟨.consume hne, .inr ?_⟩
    exact KernelStep.consume (view w) _ _ (pending_consume hne)

theorem writeBuf_iou (w : World) (a : Addr) (data : List Octet) :
    (w.writeBuf a data).iou = w.iou ∧ (w.writeBuf a data).inflight = w.inflight := by
  unfold World.writeBuf
  split
  · split <;> exact ⟨rfl, rfl⟩
  · exact ⟨rfl, rfl⟩

theorem writeBuf_conBuf {w : World} {p : Ptr} {o : IouOp} (hop : w.ops p = some o)
    (data : List Octet) :
    view (w.writeBuf (.conBuf p) data) =
      (view w).withOp p (some (setBuf o (overwrite o.infoCon.buf data))) := by
  simp [World.writeBuf, hop, view, View.withOp, setBuf]

/-- An address of a request either is that of a live buffer or is stray. -/
theorem live_or_stray (w : World) (a : Addr) :
    (∃ p o, a = .conBuf p ∧ w.ops p = some o) ∨
      ∀ p, a = .conBuf p → w.ops p = none := by
  cases a with
  | conBuf p =>
      cases hop : w.ops p with
      | none => exact .inr fun q hq => by cases hq; exact hop
      | some o => exact .inl ⟨p, o, rfl, hop⟩
  | null | acceptAddr p | acceptAddrlen p | timer p => exact .inr fun q hq => by cases hq

theorem steps_deliver {w : World} (hwf : WellFormed w.iou) (i size : Nat) :
    Steps w (w.act (.deliver i size)) := by
  refine steps_onCompletion fun ⟨sqe, conn, moved⟩ hroom hr hkind => ?_
  cases conn with
  | none => exact .refl _
  | some c =>
      dsimp only at hkind ⊢
      generalize hdata : ((w.kernel.conns c).unread.take size).take sqe.len.toNat = data
      by_cases hnil : data = []
      · simp only [hnil, if_true]
        exact .refl _
      · simp only [hnil, if_false]
        have hpre : data <+: (w.kernel.conns c).unread :=
          hdata ▸ (List.take_prefix _ _).trans (List.take_prefix _ _)
        obtain ⟨rest, hrest⟩ := hpre
        have hdrop : (w.kernel.conns c).unread.drop data.length = rest := by
          rw [← hrest, List.drop_left]
        have hlen : data.length ≤ sqe.len.toNat := by
          rw [← hdata]
          exact List.length_take_le _ _
        have hbuf := writeBuf_iou { w with kernel := w.kernel.updateConn c fun con =>
          { con with unread := con.unread.drop data.length } } sqe.addr data
        obtain ⟨hring, hview⟩ :=
          view_complete _ ⟨sqe, some c, data⟩ data.length hwf hroom hr hbuf.1 hbuf.2
        refine ⟨hring, .inr ?_⟩
        have hsplit := (take_drop_of_getElem? hr).1
        rcases live_or_stray w sqe.addr with ⟨p, o, haddr, hop⟩ | hstray
        · have hwrite := writeBuf_conBuf
            (w := { w with
              kernel := w.kernel.updateConn c fun con =>
                { con with unread := con.unread.drop data.length } }) hop data
          rw [hview, haddr, hwrite]
          have hstep := KernelStep.deliver (view w) _ _ _ hsplit hkind c rfl data rest
            hrest.symm hnil hlen p haddr o hop
          rw [← hdrop] at hstep
          exact hstep
        · exact .stray _ _ (List.mem_of_getElem? hr) (.inl hkind) hstray _

theorem steps_scribble (w : World) (i : Nat)
    (data : List UInt8) : Steps w (w.act (.scribble i data)) := by
  refine steps_onRequest fun r hr hkind => ?_
  have hbuf := writeBuf_iou w r.sqe.addr
    ((data.take r.sqe.len.toNat).map fun value => { value := value })
  refine ⟨hbuf.1 ▸ .same, .inr ?_⟩
  rcases live_or_stray w r.sqe.addr with ⟨p, o, haddr, hop⟩ | hstray
  · rw [haddr, writeBuf_conBuf hop]
    exact .scribble (view w) r (List.mem_of_getElem? hr) hkind _
      (by simp) p haddr o hop
  · exact .stray _ r (List.mem_of_getElem? hr) (.inl hkind) hstray _

theorem readBuf_of_stray {w : World} {a : Addr}
    (hstray : ∀ p, a = .conBuf p → w.ops p = none) : w.readBuf a = none := by
  cases a with
  | conBuf p => simp [World.readBuf, hstray p rfl]
  | null | acceptAddr p | acceptAddrlen p | timer p => rfl

theorem steps_transmit (w : World) (i size : Nat) :
    Steps w (w.act (.transmit i size)) := by
  refine steps_onRequest fun ⟨sqe, conn, moved⟩ hr hkind => ?_
  cases conn with
  | none => exact .refl _
  | some c =>
      rcases live_or_stray w sqe.addr with ⟨p, o, haddr, hop⟩ | hstray
      · simp only [haddr, World.readBuf, hop, Option.map_some]
        refine ⟨.same, .inr ?_⟩
        have hsplit := take_drop_of_getElem? hr
        have hstep := KernelStep.transmit (view w) _ _ _ hsplit.1 hkind c rfl p haddr o
          hop _ (List.take_prefix size _)
        rw [← hsplit.2.2] at hstep
        exact hstep
      · simp only [readBuf_of_stray hstray]
        exact ⟨.same, .inr (.stray _ _ (List.mem_of_getElem? hr) (.inr hkind) hstray _)⟩

theorem steps_completion {w : World} (hwf : WellFormed w.iou)
    (hroom : w.iou.cqRing.hasRoom = true) {i : Nat} {r : Request} {res : Int}
    (hr : w.inflight[i]? = some r)
    (hstep : w.inflight = w.inflight.take i ++ r :: w.inflight.drop (i + 1) →
      KernelStep (view w) ((view w).complete (w.inflight.take i)
        (w.inflight.drop (i + 1)) r res)) :
    Steps w (w.complete i r res) := by
  obtain ⟨hring, hview⟩ := view_complete w r res hwf hroom hr rfl rfl
  exact ⟨hring, .inr (by rw [hview]; exact hstep (take_drop_of_getElem? hr).1)⟩

theorem steps_close {w : World} (hwf : WellFormed w.iou) (i : Nat) :
    Steps w (w.act (.close i)) := by
  refine steps_onCompletion fun r hroom hr hkind => ?_
  dsimp only
  cases hopen : w.kernel.files r.sqe.fd with
  | none =>
      have hclose : w.kernel.close r.sqe.fd = (-1, w.kernel) := by
        simp [Kernel.close, hopen]
      rw [hclose]
      exact steps_completion hwf hroom hr fun hsplit =>
        .answer (view w) _ _ r hsplit (-9) fun _ => by decide
  | some f =>
      have hclose : (w.kernel.close r.sqe.fd).1 = 0 := by
        simp [Kernel.close, hopen]
      rw [hclose]
      obtain ⟨hring, hview⟩ := view_complete
        { w with kernel := (w.kernel.close r.sqe.fd).2 } r 0 hwf hroom hr rfl rfl
      refine ⟨hring, .inr ?_⟩
      rw [if_pos rfl, hview]
      exact .close (view w) _ _ r (take_drop_of_getElem? hr).1 hkind f hopen

theorem steps_answer {w : World} (hwf : WellFormed w.iou) (i : Nat) (res : Int) :
    Steps w (w.act (.answer i res)) := by
  simp only [World.act]
  split
  · rename_i hcan
    cases hr : w.inflight[i]? with
    | none => exact .refl _
    | some r =>
        exact steps_completion hwf hcan.1 hr fun hsplit =>
          .answer (view w) _ _ r hsplit res hcan.2
  · exact .refl _

/-- Every act of the executable kernel is a step of the kernel on the queues. -/
theorem steps_act {w : World} (hwf : WellFormed w.iou) (a : KernelAct) :
    Steps w (w.act a) := by
  cases a with
  | network a => exact ⟨.same, .inr (.network (view w) a)⟩
  | consume =>
      simp only [World.act]
      split
      · exact steps_consume w
      · exact .refl _
  | needWakeup asleep => exact ⟨.flags _, .inl rfl⟩
  | accept i fd => exact steps_accept hwf i fd
  | deliver i size => exact steps_deliver hwf i size
  | eof i =>
      refine steps_onCompletion fun r hroom hr hkind => ?_
      cases hconn : r.conn with
      | none => exact .refl _
      | some c =>
          dsimp only
          split
          · rename_i heof
            exact steps_completion hwf hroom hr fun hsplit =>
              .eof (view w) _ _ r hsplit hkind c hconn heof.1 heof.2
          · exact .refl _
  | scribble i data => exact steps_scribble w i data
  | transmit i size => exact steps_transmit w i size
  | sent i =>
      exact steps_onCompletion fun r hroom hr hkind =>
        steps_completion hwf hroom hr fun hsplit => .sent (view w) _ _ r hsplit hkind
  | close i => exact steps_close hwf i
  | expire i =>
      exact steps_onCompletion fun r hroom hr _ =>
        steps_completion hwf hroom hr fun hsplit =>
          .answer (view w) _ _ r hsplit _ fun _ => by decide
  | answer i res => exact steps_answer hwf i res

end Inversion

end EchoServers.UringKernelSteps
