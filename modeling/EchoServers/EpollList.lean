import EchoServers.EpollServer
import EchoServers.HostLedger

namespace EchoServers.EpollList

open EchoServers.EpollServer
open EchoServers.HostLedger
open EchoServers.ServerUtils
open EchoServers.SocketKernel
open EchoServers.StateTriples
open EchoServers.Utils

/-- The contents of the buffers do not matter. -/
def epollShape (con : PdEchoConnection) : PdEchoConnection :=
  { con with buf := [], bufSize := 0 }

abbrev EpollLedger := Ledger PdEchoConnection EpollApp

section Effects

variable (l : EpollLedger)

def conAt (p : Ptr) : PdEchoConnection :=
  (l.cons p).getD {}

/-- A write through a link, and whether the link was dangling. -/
def wroteThrough (link : Link) (f : PdEchoConnection → PdEchoConnection) : EpollLedger :=
  match l.cons link.ptr with
  | some con =>
      { l.stored link.ptr (f con) with
        faults := l.faults ++
          if con.object ≠ link.object then [.useAfterFree link.ptr] else [] }
  | none => { l with faults := l.faults ++ [.useAfterFree link.ptr] }

def wroteIf (link : Option Link) (f : PdEchoConnection → PdEchoConnection) : EpollLedger :=
  match link with
  | some link => wroteThrough l link f
  | none => l

/-- The two ends of the list. -/
def withEnds (head tail : Option Link) : EpollLedger :=
  l.withApp { l.app with dllHead := head, dllTail := tail }

def linkOf (p : Ptr) : Link where
  ptr := p
  object := (conAt l p).object

/-- The ledger after `dll_connect_back`. -/
def connected (p : Ptr) : EpollLedger :=
  if l.app.dllHead = none then withEnds l (some (linkOf l p)) (some (linkOf l p))
  else
    withEnds (l.stored p { conAt l p with prev := l.app.dllTail }) l.app.dllHead
      (some (linkOf l p))

/-- The neighbours of a connection are linked to each other. -/
def bridged (p : Ptr) : EpollLedger :=
  let l₁ := wroteIf l (conAt l p).next fun n => { n with prev := (conAt l p).prev }
  wroteIf l₁ (conAt l₁ p).prev fun q => { q with next := (conAt l₁ p).next }

/-- The ledger after `dll_remove`. -/
def unlinked (p : Ptr) : EpollLedger :=
  let l₂ := bridged l p
  withEnds l₂
    (if l₂.app.dllHead.map Link.ptr = some p then (conAt l₂ p).next else l₂.app.dllHead)
    (if l₂.app.dllTail.map Link.ptr = some p then (conAt l₂ p).prev else l₂.app.dllTail)

end Effects

section Triples

variable {l : EpollLedger} {p : Ptr} {con : PdEchoConnection}

theorem cons_of_booked {w : EpollWorld} (hw : Booked epollShape l w) (p : Ptr) :
    (w.cons p).map epollShape = l.cons p :=
  congrFun (congrArg Ledger.cons hw) p

theorem booked_hostFault (f : Fault) :
    Triple (Booked epollShape l) (hostFault f : Program EpollWorld PUnit) fun _ =>
      Booked epollShape { l with faults := l.faults ++ [f] } := by
  apply Triple.modify
  rintro w rfl
  rfl

theorem booked_readCon (hlive : l.cons p = some con) :
    Triple (Booked epollShape l) (readCon p) fun c w =>
      epollShape c = con ∧ Booked epollShape l w := by
  refine Triple.get_bind fun w hw => ?_
  have hcons := (cons_of_booked hw p).trans hlive
  obtain ⟨c, hc, hshape⟩ := Option.map_eq_some_iff.mp hcons
  rw [hc]
  apply Triple.pure
  rintro w' rfl
  exact ⟨hshape, hw⟩

theorem conAt_eq (hlive : l.cons p ≠ none) : l.cons p = some (conAt l p) := by
  obtain ⟨c, hc⟩ := Option.ne_none_iff_exists'.mp hlive
  rw [conAt, hc]
  rfl

/-- The links of a live connection are read. -/
theorem booked_readLinks (hlive : l.cons p ≠ none) :
    Triple (Booked epollShape l) (readCon p) fun c w =>
      c.next = (conAt l p).next ∧ c.prev = (conAt l p).prev ∧ Booked epollShape l w := by
  refine (booked_readCon (conAt_eq hlive)).post ?_
  rintro c w ⟨hshape, hw⟩
  rw [← hshape]
  exact ⟨rfl, rfl, hw⟩

theorem booked_epollApp (f : EpollApp → EpollApp) :
    Triple (Booked epollShape l) (modifyApp f) fun _ =>
      Booked epollShape (l.withApp (f l.app)) :=
  booked_modifyApp f

/-- A function that only writes a link. -/
def WritesLink (f : PdEchoConnection → PdEchoConnection) : Prop :=
  ∀ c, epollShape (f c) = f (epollShape c)

theorem writesLink_next (next : Option Link) :
    WritesLink fun c => { c with next := next } :=
  fun _ => rfl

theorem writesLink_prev (prev : Option Link) :
    WritesLink fun c => { c with prev := prev } :=
  fun _ => rfl

theorem booked_writeLink {f : PdEchoConnection → PdEchoConnection} (hf : WritesLink f)
    (hlive : l.cons p = some con) :
    Triple (Booked epollShape l) (modifyCon p f : Program EpollWorld PUnit) fun _ =>
      Booked epollShape (l.stored p (f con)) :=
  booked_modifyCon hf hlive

theorem booked_writeThrough (link : Link) {f : PdEchoConnection → PdEchoConnection}
    (hf : WritesLink f) :
    Triple (Booked epollShape l) (writeThrough link f) fun _ =>
      Booked epollShape (wroteThrough l link f) := by
  refine Triple.get_bind fun w hw => ?_
  have hcons := cons_of_booked hw link.ptr
  cases hc : w.cons link.ptr with
  | none =>
      have hnone : l.cons link.ptr = none := by
        rw [← hcons, hc]
        rfl
      have hwrote : wroteThrough l link f =
          { l with faults := l.faults ++ [.useAfterFree link.ptr] } := by
        rw [wroteThrough, hnone]
      rw [hwrote]
      exact triple_of_booked hw (booked_hostFault _)
  | some c =>
      have hlive : l.cons link.ptr = some (epollShape c) := by
        rw [← hcons, hc]
        rfl
      have hwrote : wroteThrough l link f = { l.stored link.ptr (f (epollShape c)) with
          faults := l.faults ++
            if c.object ≠ link.object then [.useAfterFree link.ptr] else [] } := by
        rw [wroteThrough, hlive]
        rfl
      rw [hwrote]
      refine Triple.bind (Q := fun _ => Booked epollShape { l with faults := l.faults ++
        if c.object ≠ link.object then [.useAfterFree link.ptr] else [] }) ?_ fun _ => ?_
      · apply triple_whenTrue
        · intro hne
          rw [if_pos hne]
          exact triple_of_booked hw (booked_hostFault _)
        · rintro w' rfl heq
          rw [if_neg heq, List.append_nil]
          exact hw
      · exact booked_modifyCon hf hlive

theorem booked_writeIf (link : Option Link) {f : PdEchoConnection → PdEchoConnection}
    (hf : WritesLink f) :
    Triple (Booked epollShape l) (whenNonNull link fun link => writeThrough link f) fun _ =>
      Booked epollShape (wroteIf l link f) := by
  cases link with
  | none => exact Triple.pure _ fun w h => h
  | some link => exact booked_writeThrough link hf

theorem live_wroteIf {link : Option Link} {f : PdEchoConnection → PdEchoConnection}
    (hlive : l.cons p ≠ none) : (wroteIf l link f).cons p ≠ none := by
  cases link with
  | none => exact hlive
  | some link =>
      unfold wroteIf wroteThrough
      dsimp only
      cases hc : l.cons link.ptr with
      | none => exact hlive
      | some c =>
          change Function.update l.cons link.ptr _ p ≠ none
          rcases eq_or_ne p link.ptr with rfl | hne
          · simp
          · rwa [Function.update_of_ne hne]

theorem booked_dllConnectBack (hlive : l.cons p ≠ none) :
    Triple (Booked epollShape l) (dllConnectBack p) fun _ =>
      Booked epollShape (connected l p) := by
  have hcon := conAt_eq hlive
  have hlink : Triple (Booked epollShape l) (linkTo p) fun link w =>
      link = linkOf l p ∧ Booked epollShape l w := by
    refine (booked_readCon hcon).bind fun c => Triple.pure _ ?_
    rintro w ⟨hshape, hw⟩
    rw [linkOf, ← hshape]
    exact ⟨rfl, hw⟩
  refine hlink.bind fun link => Triple.and_pre ?_
  rintro rfl
  refine Triple.get_bind fun w hw => ?_
  have happ : w.app = l.app := congrArg Ledger.app hw
  rw [happ]
  unfold connected
  apply Triple.ite
  · intro hempty
    rw [if_pos hempty]
    refine (triple_of_booked hw (booked_epollApp _)).bind fun _ => ?_
    exact booked_epollApp _
  · intro hne
    rw [if_neg hne]
    refine (triple_of_booked hw (booked_writeLink (writesLink_prev _) hcon)).bind fun _ => ?_
    exact booked_epollApp _

theorem live_bridged (hlive : l.cons p ≠ none) : (bridged l p).cons p ≠ none :=
  live_wroteIf (live_wroteIf hlive)

/-- The first half of `dll_remove`. -/
theorem booked_bridge {R : PUnit → EpollWorld → Prop} {rest : Program EpollWorld PUnit}
    (hlive : l.cons p ≠ none) (hrest : Triple (Booked epollShape (bridged l p)) rest R) :
    Triple (Booked epollShape l) (do
      let c ← readCon p
      whenNonNull c.next fun next => writeThrough next fun n => { n with prev := c.prev }
      let c ← readCon p
      whenNonNull c.prev fun prev => writeThrough prev fun p => { p with next := c.next }
      rest) R := by
  refine (booked_readLinks hlive).bind fun c => Triple.and_pre fun hnext =>
    Triple.and_pre fun hprev => ?_
  rw [hnext, hprev]
  refine (booked_writeIf _ (writesLink_prev _)).bind fun _ => ?_
  refine (booked_readLinks (live_wroteIf hlive)).bind fun c₁ => Triple.and_pre fun hnext₁ =>
    Triple.and_pre fun hprev₁ => ?_
  rw [hnext₁, hprev₁]
  exact (booked_writeIf _ (writesLink_next _)).bind fun _ => hrest

/-- An end of the list that was the connection is moved. -/
theorem booked_moveEnds (c : PdEchoConnection) :
    Triple (Booked epollShape l) (do
      whenTrue ((← get).app.dllHead.map Link.ptr = some p) do
        modifyApp fun a => { a with dllHead := c.next }
      whenTrue ((← get).app.dllTail.map Link.ptr = some p) do
        modifyApp fun a => { a with dllTail := c.prev }) fun _ =>
      Booked epollShape (withEnds l
        (if l.app.dllHead.map Link.ptr = some p then c.next else l.app.dllHead)
        (if l.app.dllTail.map Link.ptr = some p then c.prev else l.app.dllTail)) := by
  refine Triple.get_bind fun w hw => ?_
  have happ : w.app = l.app := congrArg Ledger.app hw
  rw [happ]
  refine Triple.bind (Q := fun _ => Booked epollShape (withEnds l
    (if l.app.dllHead.map Link.ptr = some p then c.next else l.app.dllHead) l.app.dllTail))
    ?_ fun _ => Triple.get_bind fun w₁ hw₁ => ?_
  · apply triple_whenTrue
    · intro hhead
      rw [if_pos hhead]
      exact triple_of_booked hw (booked_epollApp _)
    · rintro w' rfl hhead
      rw [if_neg hhead]
      exact hw
  · have htail : w₁.app.dllTail = l.app.dllTail := by
      change (ledger epollShape w₁).app.dllTail = _
      rw [show ledger epollShape w₁ = _ from hw₁]
      rfl
    rw [htail]
    apply triple_whenTrue
    · intro hlast
      rw [if_pos hlast]
      exact triple_of_booked hw₁ (booked_epollApp _)
    · rintro w' rfl hlast
      rw [if_neg hlast]
      exact hw₁

theorem booked_dllRemove (hlive : l.cons p ≠ none) :
    Triple (Booked epollShape l) (dllRemove p) fun _ =>
      Booked epollShape (unlinked l p) := by
  refine booked_bridge hlive ?_
  refine (booked_readLinks (live_bridged hlive)).bind fun c => Triple.and_pre fun hnext =>
    Triple.and_pre fun hprev => ?_
  refine (booked_moveEnds c).post fun _ w hw => ?_
  rw [hnext, hprev] at hw
  exact hw

end Triples

end EchoServers.EpollList
