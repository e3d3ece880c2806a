import EchoServers.EpollList
import EchoServers.LinkedChains

namespace EchoServers.EpollListRuns

open EchoServers.EpollList
open EchoServers.EpollServer
open EchoServers.HostLedger
open EchoServers.LinkedChains
open EchoServers.ServerUtils
open EchoServers.SocketKernel
open EchoServers.StateTriples
open EchoServers.Utils

/-- A call of the list functions; a connection is made by `calloc` before it is
connected. -/
inductive ListCall where
  | connectBack (p : Ptr) (con : PdEchoConnection)
  | remove (p : Ptr)

/-- Both links are null, as `calloc` leaves them. -/
def freshCon (con : PdEchoConnection) : PdEchoConnection :=
  { con with next := none, prev := none }

def performCall : ListCall → Program EpollWorld PUnit
  | .connectBack p con => do
      modify fun w => { w with cons := Function.update w.cons p (some (freshCon con)) }
      dllConnectBack p
  | .remove p => dllRemove p

/-- The connections in the list, in the order in which they were inserted. -/
def listed (xs : List Ptr) : ListCall → List Ptr
  | .connectBack p _ => xs ++ [p]
  | .remove p => xs.erase p

def Allows (xs : List Ptr) : ListCall → Prop
  | .connectBack p _ => p ∉ xs
  | .remove p => p ∈ xs

def Allowed (xs : List Ptr) : List ListCall → Prop
  | [] => True
  | c :: cs => Allows xs c ∧ Allowed (listed xs c) cs

def nextOf (w : EpollWorld) (p : Ptr) : Option Ptr :=
  (w.cons p).bind fun con => con.next.map Link.ptr

def prevOf (w : EpollWorld) (p : Ptr) : Option Ptr :=
  (w.cons p).bind fun con => con.prev.map Link.ptr

/-- The list holds the connections `xs`, linked in both directions. -/
structure RefinesList (xs : List Ptr) (w : EpollWorld) : Prop where
  linked : DoublyLinked (nextOf w) (prevOf w) (w.app.dllHead.map Link.ptr)
    (w.app.dllTail.map Link.ptr) xs
  head_iff : w.app.dllHead = none ↔ xs = []
  tail_iff : w.app.dllTail = none ↔ xs = []

/-- After each call the list holds the connections inserted and not removed. -/
def RefinesAlong (xs : List Ptr) : List ListCall → EpollWorld → Prop
  | [], w => RefinesList xs w
  | c :: cs, w => RefinesList xs w ∧
      ∃ w', performCall c w = .ok (⟨⟩, w') ∧ RefinesAlong (listed xs c) cs w'

/-- The list never holds two connections at once. -/
def NeverTwo (xs : List Ptr) : List ListCall → Prop
  | [] => xs.length ≤ 1
  | c :: cs => xs.length ≤ 1 ∧ NeverTwo (listed xs c) cs

section Runs

variable {xs : List Ptr} {w w' : EpollWorld} {l : EpollLedger} {p q : Ptr}
  {calls : List ListCall}

theorem returns_readCon (p : Ptr) : Returns (readCon p) := by
  apply Returns.get_bind
  intro w
  cases w.cons p with
  | some con => exact Returns.pure _
  | none => exact (Returns.modify _).bind fun _ => Returns.pure _

theorem returns_modifyCon (p : Ptr) (f : PdEchoConnection → PdEchoConnection) :
    Returns (modifyCon p f : Program EpollWorld PUnit) := by
  apply Returns.get_bind
  intro w
  cases w.cons p with
  | some con => exact Returns.modify _
  | none => exact Returns.modify _

theorem returns_whenTrue {c : Prop} [Decidable c] {x : Program EpollWorld PUnit}
    (hx : Returns x) : Returns (whenTrue c x) :=
  Returns.ite hx (Returns.pure _)

theorem returns_writeThrough (link : Link) (f : PdEchoConnection → PdEchoConnection) :
    Returns (writeThrough link f) := by
  apply Returns.get_bind
  intro w
  cases w.cons link.ptr with
  | some con =>
      exact (returns_whenTrue (Returns.modify _)).bind fun _ => returns_modifyCon _ _
  | none => exact Returns.modify _

theorem returns_writeIf (link : Option Link) (f : PdEchoConnection → PdEchoConnection) :
    Returns (whenNonNull link fun link => writeThrough link f) := by
  cases link with
  | some link => exact returns_writeThrough link f
  | none => exact Returns.pure _

/-- The list functions always come to their end. -/
theorem returns_performCall (c : ListCall) : Returns (performCall c) := by
  cases c with
  | connectBack p con =>
      refine (Returns.modify _).bind fun _ => ?_
      refine ((returns_readCon p).bind fun _ => Returns.pure _).bind fun _ =>
        Returns.get_bind fun w => Returns.ite ?_ ?_
      · exact (Returns.modify _).bind fun _ => Returns.modify _
      · exact (returns_modifyCon _ _).bind fun _ => Returns.modify _
  | remove p =>
      refine (returns_readCon p).bind fun c => (returns_writeIf _ _).bind fun _ => ?_
      refine (returns_readCon p).bind fun c => (returns_writeIf _ _).bind fun _ => ?_
      refine (returns_readCon p).bind fun c => Returns.get_bind fun w => ?_
      exact (returns_whenTrue (Returns.modify _)).bind fun _ =>
        Returns.get_bind fun w => returns_whenTrue (Returns.modify _)

/-- The list while it holds one connection at most. -/
inductive Short (l : EpollLedger) : List Ptr → Prop where
  | nil (hhead : l.app.dllHead = none) (htail : l.app.dllTail = none) : Short l []
  | one (p : Ptr) (con : PdEchoConnection) (head tail : Link) (hcon : l.cons p = some con)
      (hnext : con.next = none) (hprev : con.prev = none)
      (hhead : l.app.dllHead = some head) (hheadPtr : head.ptr = p)
      (htail : l.app.dllTail = some tail) (htailPtr : tail.ptr = p) : Short l [p]

theorem nextOf_of_booked (hw : Booked epollShape l w) (p : Ptr) :
    nextOf w p = (l.cons p).bind fun con => con.next.map Link.ptr := by
  rw [← cons_of_booked hw p, nextOf, Option.bind_map]
  rfl

theorem prevOf_of_booked (hw : Booked epollShape l w) (p : Ptr) :
    prevOf w p = (l.cons p).bind fun con => con.prev.map Link.ptr := by
  rw [← cons_of_booked hw p, prevOf, Option.bind_map]
  rfl

theorem Short.refines (h : Short l xs) (hw : Booked epollShape l w) : RefinesList xs w := by
  have happ : w.app = l.app := congrArg Ledger.app hw
  cases h with
  | nil hhead htail =>
      rw [← happ] at hhead htail
      refine ⟨?_, by simp [hhead], by simp [htail]⟩
      rw [hhead, htail]
      exact DoublyLinked.empty _ _
  | one p con head tail hcon hnext hprev hhead hheadPtr htail htailPtr =>
      have hnextOf : nextOf w p = none := by simp [nextOf_of_booked hw, hcon, hnext]
      have hprevOf : prevOf w p = none := by simp [prevOf_of_booked hw, hcon, hprev]
      rw [← happ] at hhead htail
      refine ⟨⟨List.nodup_singleton p, ?_, ?_⟩, by simp [hhead], by simp [htail]⟩
      · rw [hhead]
        exact ⟨congrArg some hheadPtr, hnextOf⟩
      · rw [htail]
        exact ⟨congrArg some htailPtr, hprevOf⟩

theorem booked_performConnect (p : Ptr) (con : PdEchoConnection) :
    Triple (Booked epollShape l) (performCall (.connectBack p con)) fun _ =>
      Booked epollShape (connected (l.stored p (epollShape (freshCon con))) p) := by
  have hlive : (l.stored p (epollShape (freshCon con))).cons p ≠ none := by
    simp [Ledger.stored]
  refine Triple.bind (Q := fun _ => Booked epollShape (l.stored p (epollShape (freshCon con))))
    ?_ fun _ => booked_dllConnectBack hlive
  apply Triple.modify
  rintro w rfl
  simp only [Booked, ledger, Ledger.stored]
  congr 1
  funext k
  rcases eq_or_ne k p with rfl | hne
  · simp
  · simp [hne]

/-- A connection is put into the empty list. -/
theorem Short.connect (h : Short l []) (p : Ptr) (con : PdEchoConnection) :
    Short (connected (l.stored p (epollShape (freshCon con))) p) [p] := by
  obtain ⟨hhead, htail⟩ | _ := h
  have hempty : (l.stored p (epollShape (freshCon con))).app.dllHead = none := hhead
  rw [connected, if_pos hempty]
  exact .one p (epollShape (freshCon con)) _ _ (Function.update_self ..) rfl rfl rfl rfl rfl rfl

/-- The only connection is taken out. -/
theorem Short.remove (h : Short l [p]) : Short (unlinked l p) [] := by
  cases h with
  | one _ con head tail hcon hnext hprev hhead hheadPtr htail htailPtr =>
      have hat : conAt l p = con := by rw [conAt, hcon]; rfl
      have hbridged : bridged l p = l := by
        simp only [bridged, hat, hnext, wroteIf, hprev]
      have hends : unlinked l p = withEnds l none none := by
        simp [unlinked, hbridged, hat, hnext, hprev, hhead, htail, hheadPtr, htailPtr]
      rw [hends]
      exact .nil rfl rfl

/-- With a second connection the first one is not linked to it. -/
theorem not_refines_second (h : Short l [p]) (hne : q ≠ p) (con : PdEchoConnection)
    (hw : Booked epollShape (connected (l.stored q (epollShape (freshCon con))) q) w) :
    ¬ RefinesList [p, q] w := by
  intro hrefines
  have hvisits := hrefines.linked.forward
  have hnext : nextOf w p = some q := hvisits.2.1
  cases h with
  | one _ con' head tail hcon hnone hprev hhead hheadPtr htail htailPtr =>
      have hfull : (l.stored q (epollShape (freshCon con))).app.dllHead ≠ none := by
        change l.app.dllHead ≠ none
        rw [hhead]
        exact Option.some_ne_none _
      have hcons : (connected (l.stored q (epollShape (freshCon con))) q).cons p = some con' := by
        rw [connected, if_neg hfull]
        simp [withEnds, Ledger.withApp, Ledger.stored, hne.symm, hcon]
      rw [nextOf_of_booked hw, hcons] at hnext
      simp [hnone] at hnext

theorem refinesList_of_along (h : RefinesAlong xs calls w) : RefinesList xs w := by
  cases calls with
  | nil => exact h
  | cons c cs => exact h.1

theorem short_of_neverTwo (h : NeverTwo xs calls) : xs.length ≤ 1 := by
  cases calls with
  | nil => exact h
  | cons c cs => exact h.1

theorem Short.length_le (h : Short l xs) : xs.length ≤ 1 := by
  cases h with
  | nil hhead htail => exact Nat.zero_le _
  | one p con head tail hcon hnext hprev hhead hheadPtr htail htailPtr => exact Nat.le_refl _

/-- The step of the equivalence: a call that keeps the list short. -/
theorem along_cons_iff {c : ListCall} {cs : List ListCall} {l' : EpollLedger}
    (h : Short l xs) (hw : Booked epollShape l w)
    (hcall : Triple (Booked epollShape l) (performCall c) fun _ => Booked epollShape l')
    (hrest : ∀ w', Booked epollShape l' w' →
      (RefinesAlong (listed xs c) cs w' ↔ NeverTwo (listed xs c) cs)) :
    RefinesAlong xs (c :: cs) w ↔ NeverTwo xs (c :: cs) := by
  constructor
  · rintro ⟨-, w', hrun, hafter⟩
    exact ⟨h.length_le, (hrest w' (hcall w hw _ w' hrun)).mp hafter⟩
  · rintro ⟨-, hafter⟩
    obtain ⟨⟨⟩, w', hrun⟩ := returns_performCall c w
    exact ⟨h.refines hw, w', hrun, (hrest w' (hcall w hw _ w' hrun)).mpr hafter⟩

theorem refinesAlong_iff (h : Short l xs) (hw : Booked epollShape l w)
    (hallowed : Allowed xs calls) : RefinesAlong xs calls w ↔ NeverTwo xs calls := by
  induction calls generalizing xs l w with
  | nil => exact ⟨fun _ => h.length_le, fun _ => h.refines hw⟩
  | cons c cs ih =>
      obtain ⟨hallows, hallowed⟩ := hallowed
      cases c with
      | connectBack q con =>
          have hcall := booked_performConnect (l := l) q con
          apply along_cons_iff h hw hcall
          intro w' hw'
          cases h with
          | nil hhead htail =>
              exact ih ((Short.nil hhead htail).connect q con) hw' hallowed
          | one p con' head tail hcon hnext hprev hhead hheadPtr htail htailPtr =>
              have hne : q ≠ p := fun heq => hallows (heq ▸ List.mem_singleton_self p)
              have hshort : Short l [p] :=
                .one p con' head tail hcon hnext hprev hhead hheadPtr htail htailPtr
              constructor
              · intro halong
                exact absurd (refinesList_of_along halong)
                  (not_refines_second hshort hne con hw')
              · intro hnever
                exact absurd (short_of_neverTwo hnever) (by simp [listed])
      | remove p =>
          cases h with
          | nil hhead htail => cases hallows
          | one p' con' head tail hcon hnext hprev hhead hheadPtr htail htailPtr =>
              obtain rfl : p = p' := List.mem_singleton.mp hallows
              have hshort : Short l [p] :=
                .one p con' head tail hcon hnext hprev hhead hheadPtr htail htailPtr
              have hlive : l.cons p ≠ none := by
                rw [hcon]
                exact Option.some_ne_none _
              have hlisted : listed [p] (.remove p) = [] := by simp [listed]
              apply along_cons_iff (c := .remove p) hshort hw (booked_dllRemove hlive)
              intro w' hw'
              rw [hlisted] at hallowed ⊢
              exact ih hshort.remove hw' hallowed

/-- From an empty list, the calls leave the sequence of the connections after
each of them exactly when there are never two of them. -/
theorem list_refines_iff (hhead : w.app.dllHead = none) (htail : w.app.dllTail = none)
    (hallowed : Allowed [] calls) : RefinesAlong [] calls w ↔ NeverTwo [] calls :=
  refinesAlong_iff (.nil hhead htail : Short (ledger epollShape w) []) rfl hallowed

instance (xs : List Ptr) (c : ListCall) : Decidable (Allows xs c) :=
  match c with
  | .connectBack _ _ => inferInstanceAs (Decidable (_ ∉ _))
  | .remove _ => inferInstanceAs (Decidable (_ ∈ _))

theorem list_refines_iff_reused :
    RefinesAlong [] [.connectBack 5 { fd := 5 }, .remove 5, .connectBack 5 { fd := 6 }]
        ({ app := {} } : EpollWorld) ↔
      NeverTwo [] [.connectBack 5 { fd := 5 }, .remove 5, .connectBack 5 { fd := 6 }] :=
  list_refines_iff rfl rfl ⟨by decide, by decide, by decide, trivial⟩

/-- Two clients are enough. -/
theorem not_list_refines :
    ¬ ∀ (calls : List ListCall) (w : EpollWorld), w.app.dllHead = none →
      w.app.dllTail = none → Allowed [] calls → RefinesAlong [] calls w := by
  intro h
  have hallowed : Allowed [] [.connectBack 5 {}, .connectBack 6 {}] :=
    ⟨by decide, by decide, trivial⟩
  have halong := h _ { app := {} } rfl rfl hallowed
  have hshort : Short (ledger epollShape ({ app := {} } : EpollWorld)) [] := .nil rfl rfl
  have hnever := (refinesAlong_iff hshort rfl hallowed).mp halong
  exact absurd (short_of_neverTwo hnever.2.2) (by decide)

end Runs

end EchoServers.EpollListRuns
