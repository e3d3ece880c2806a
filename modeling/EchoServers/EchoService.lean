import Mathlib.Algebra.BigOperators.Ring.List
import Mathlib.Algebra.Ring.Nat
import Mathlib.Data.List.Nodup
import Mathlib.Logic.Function.Basic

/-!
A service that sends every message of its peers back to them, seen from the
network: which connections there are, what has arrived on them, and what went
back.  A trace of actions leads from the start to each of its states.
-/

namespace EchoServers.EchoService

/-- What is exchanged over one connection. -/
structure Stream (β : Type) where
  /-- All that has arrived from the peer. -/
  received : List β := []
  /-- All that was sent back. -/
  echoed : List β := []
  /-- What has arrived and was not sent back yet. -/
  pending : List β := []
  /-- Nothing more will arrive. -/
  ended : Bool := false
  failed : Bool := false

/-- A connection is established, accepted by the service, and gone in the end. -/
inductive Phase where
  | unborn
  | waiting
  | served
  | gone
  deriving DecidableEq

structure Service (ι β : Type) where
  phase : ι → Phase := fun _ => .unborn
  stream : ι → Stream β := fun _ => {}

inductive Action (ι β : Type) where
  | connect (c : ι)
  | vanish (c : ι)
  | receive (c : ι) (data : List β)
  | finish (c : ι)
  | fail (c : ι)
  | accept (c : ι)
  | echo (c : ι) (message : List β)
  | close (c : ι)

variable {ι β : Type}

section Trace

/-- The messages sent back, in order. -/
def messages (trace : List (Action ι β)) : List (List β) :=
  trace.filterMap fun
    | .echo _ message => some message
    | _ => none

/-- The connections accepted, in order. -/
def acceptances (trace : List (Action ι β)) : List ι :=
  trace.filterMap fun
    | .accept c => some c
    | _ => none

/-- The connections that the service closed, in order. -/
def closings (trace : List (Action ι β)) : List ι :=
  trace.filterMap fun
    | .close c => some c
    | _ => none

theorem messages_append (trace : List (Action ι β)) (a : Action ι β) :
    messages (trace ++ [a]) = messages trace ++ messages [a] :=
  List.filterMap_append ..

theorem acceptances_append (trace : List (Action ι β)) (a : Action ι β) :
    acceptances (trace ++ [a]) = acceptances trace ++ acceptances [a] :=
  List.filterMap_append ..

theorem closings_append (trace : List (Action ι β)) (a : Action ι β) :
    closings (trace ++ [a]) = closings trace ++ closings [a] :=
  List.filterMap_append ..

/-- The messages sent back on one connection. -/
def messagesOn [DecidableEq ι] (c : ι) (trace : List (Action ι β)) : List (List β) :=
  trace.filterMap fun
    | .echo c' message => if c' = c then some message else none
    | _ => none

theorem messagesOn_append [DecidableEq ι] (c : ι) (trace : List (Action ι β)) (a : Action ι β) :
    messagesOn c (trace ++ [a]) = messagesOn c trace ++ messagesOn c [a] :=
  List.filterMap_append ..

theorem messagesOn_cons_self [DecidableEq ι] (c : ι) (message : List β)
    (trace : List (Action ι β)) :
    messagesOn c (.echo c message :: trace) = message :: messagesOn c trace :=
  List.filterMap_cons_some (if_pos rfl)

theorem messagesOn_cons_of_ne [DecidableEq ι] {c c' : ι} (hne : c' ≠ c) (message : List β)
    (trace : List (Action ι β)) :
    messagesOn c (.echo c' message :: trace) = messagesOn c trace :=
  List.filterMap_cons_none (if_neg hne)

end Trace

variable [DecidableEq ι]

def Service.move (s : Service ι β) (c : ι) (p : Phase) : Service ι β :=
  { s with phase := Function.update s.phase c p }

def Service.change (s : Service ι β) (c : ι) (f : Stream β → Stream β) : Service ι β :=
  { s with stream := Function.update s.stream c (f (s.stream c)) }

/-- One action of the service or of its environment.  Messages have the length
`size`, and a connection may be closed when `mayClose` holds of its stream. -/
inductive Step (size : Nat) (mayClose : Stream β → Prop) :
    Service ι β → Action ι β → Service ι β → Prop where
  | connect {s : Service ι β} {c : ι} (hphase : s.phase c = .unborn) :
      Step size mayClose s (.connect c) (s.move c .waiting)
  | vanish {s : Service ι β} {c : ι} (hphase : s.phase c = .waiting) :
      Step size mayClose s (.vanish c) (s.move c .gone)
  | receive {s : Service ι β} {c : ι} (data : List β) (hphase : s.phase c ≠ .unborn)
      (hopen : (s.stream c).ended = false) :
      Step size mayClose s (.receive c data) (s.change c fun x =>
        { x with received := x.received ++ data, pending := x.pending ++ data })
  | finish {s : Service ι β} {c : ι} (hphase : s.phase c ≠ .unborn) :
      Step size mayClose s (.finish c) (s.change c fun x => { x with ended := true })
  | fail {s : Service ι β} {c : ι} (hphase : s.phase c ≠ .unborn) :
      Step size mayClose s (.fail c) (s.change c fun x => { x with failed := true })
  | accept {s : Service ι β} {c : ι} (hphase : s.phase c = .waiting) :
      Step size mayClose s (.accept c) (s.move c .served)
  | echo {s : Service ι β} {c : ι} {message rest : List β} (hphase : s.phase c = .served)
      (hlength : message.length = size) (hpending : (s.stream c).pending = message ++ rest) :
      Step size mayClose s (.echo c message) (s.change c fun x =>
        { x with echoed := x.echoed ++ message, pending := rest })
  | close {s : Service ι β} {c : ι} (hphase : s.phase c = .served)
      (hmay : mayClose (s.stream c)) : Step size mayClose s (.close c) (s.move c .gone)

/-- The trace leads from the start, where there are no connections, to `s`. -/
inductive Runs (size : Nat) (mayClose : Stream β → Prop) :
    List (Action ι β) → Service ι β → Prop where
  | start : Runs size mayClose [] {}
  | step {trace : List (Action ι β)} {s s' : Service ι β} {a : Action ι β}
      (h : Runs size mayClose trace s) (hstep : Step size mayClose s a s') :
      Runs size mayClose (trace ++ [a]) s'

section Lemmas

variable {size : Nat} {mayClose : Stream β → Prop} {trace : List (Action ι β)}
  {s s' : Service ι β} {a : Action ι β} {c c' : ι} {f : Stream β → Stream β} {p : Phase}

@[simp] theorem move_stream : (s.move c p).stream = s.stream := rfl
@[simp] theorem change_phase : (s.change c f).phase = s.phase := rfl

@[simp] theorem move_phase_self : (s.move c p).phase c = p :=
  Function.update_self ..

theorem move_phase_of_ne (hne : c' ≠ c) : (s.move c p).phase c' = s.phase c' :=
  Function.update_of_ne hne ..

@[simp] theorem change_stream_self : (s.change c f).stream c = f (s.stream c) :=
  Function.update_self ..

theorem change_stream_of_ne (hne : c' ≠ c) : (s.change c f).stream c' = s.stream c' :=
  Function.update_of_ne hne ..

/-- A property of every stream is kept by a change of one. -/
theorem forall_change {P : Stream β → Prop} (h : ∀ c, P (s.stream c)) (hf : P (f (s.stream c))) :
    ∀ c', P ((s.change c f).stream c') := by
  intro c'
  rcases eq_or_ne c' c with rfl | hne
  · rw [change_stream_self]
    exact hf
  · rw [change_stream_of_ne hne]
    exact h c'

/-- Nothing is lost, doubled or reordered. -/
def Stream.Conserved (x : Stream β) : Prop :=
  x.received = x.echoed ++ x.pending

theorem Step.conserved (hstep : Step size mayClose s a s') (h : ∀ c, (s.stream c).Conserved) :
    ∀ c, (s'.stream c).Conserved := by
  cases hstep with
  | connect hphase | vanish hphase | accept hphase | close hphase hmay => exact h
  | @receive c data hphase hopen =>
      apply forall_change (P := Stream.Conserved) h
      change _ ++ data = _ ++ (_ ++ data)
      rw [h c, List.append_assoc]
  | @finish c hphase | @fail c hphase => exact forall_change (P := Stream.Conserved) h (h c)
  | @echo c message rest hphase hlength hpending =>
      apply forall_change (P := Stream.Conserved) h
      change _ = (_ ++ message) ++ rest
      rw [h c, hpending, List.append_assoc]

theorem Runs.conserved (h : Runs size mayClose trace s) (c : ι) : (s.stream c).Conserved := by
  revert c
  induction h with
  | start => exact fun _ => rfl
  | step _ hstep ih => exact hstep.conserved ih

/-- What was sent back on a connection are its messages of the trace. -/
theorem Runs.echoed_eq (h : Runs size mayClose trace s) (c : ι) :
    (s.stream c).echoed = (messagesOn c trace).flatten := by
  induction h with
  | start => rfl
  | @step trace s s' a h hstep ih =>
      rw [messagesOn_append, List.flatten_append, ← ih]
      cases hstep with
      | connect hphase | vanish hphase | accept hphase | close hphase hmay =>
          exact (List.append_nil _).symm
      | @receive c' _ _ _ | @finish c' _ | @fail c' _ =>
          rcases eq_or_ne c c' with rfl | hne
          · rw [change_stream_self]
            exact (List.append_nil _).symm
          · rw [change_stream_of_ne hne]
            exact (List.append_nil _).symm
      | @echo c' message rest hphase hlength hpending =>
          rcases eq_or_ne c' c with rfl | hne
          · rw [change_stream_self]
            simp [messagesOn]
          · rw [change_stream_of_ne hne.symm]
            simp [messagesOn, hne]

theorem Runs.length_of_mem_messages (h : Runs size mayClose trace s) {message : List β}
    (hmessage : message ∈ messages trace) : message.length = size := by
  induction h with
  | start => cases hmessage
  | @step trace s s' a h hstep ih =>
      rw [messages_append, List.mem_append] at hmessage
      rcases hmessage with hmessage | hmessage
      · exact ih hmessage
      · cases hstep with
        | echo hphase hlength hpending =>
            rw [List.mem_singleton.mp hmessage]
            exact hlength
        | _ => cases hmessage

theorem mem_messages_of_on {message : List β} (h : message ∈ messagesOn c trace) :
    message ∈ messages trace := by
  obtain ⟨a, ha, hmessage⟩ := List.mem_filterMap.mp h
  refine List.mem_filterMap.mpr ⟨a, ha, ?_⟩
  cases a with
  | echo c' message' =>
      rw [Option.ite_none_right_eq_some] at hmessage
      exact hmessage.2
  | _ => cases hmessage

theorem Runs.length_of_mem (h : Runs size mayClose trace s) :
    ∀ message ∈ messagesOn c trace, message.length = size :=
  fun _ hmessage => h.length_of_mem_messages (mem_messages_of_on hmessage)

/-- Whole messages were sent back. -/
theorem Runs.dvd_echoed (h : Runs size mayClose trace s) (c : ι) :
    size ∣ (s.stream c).echoed.length := by
  rw [h.echoed_eq, List.length_flatten]
  apply List.dvd_sum
  intro n hn
  obtain ⟨message, hmessage, rfl⟩ := List.mem_map.mp hn
  rw [h.length_of_mem message hmessage]

/-- What a message of the trace consists of was received. -/
theorem Runs.received_of_echo (h : Runs size mayClose trace s) {message : List β}
    (hmessage : .echo c message ∈ trace) : ∀ x ∈ message, x ∈ (s.stream c).received := by
  intro x hx
  rw [h.conserved c, h.echoed_eq]
  apply List.mem_append_left
  have hon : message ∈ messagesOn c trace :=
    List.mem_filterMap.mpr ⟨_, hmessage, if_pos rfl⟩
  exact List.mem_flatten_of_mem hon hx

/-- When everything received tells its connection, the messages tell theirs. -/
theorem Runs.messagesOn_eq (h : Runs size mayClose trace s) (hsize : 0 < size)
    {owner : β → Option ι} (howner : ∀ c, ∀ x ∈ (s.stream c).received, owner x = some c) (c : ι) :
    messagesOn c trace =
      (messages trace).filter fun message => ∀ x ∈ message, owner x = some c := by
  have htold : ∀ c' message, .echo c' message ∈ trace →
      ((∀ x ∈ message, owner x = some c) ↔ c' = c) := by
    intro c' message hmessage
    have hown : ∀ x ∈ message, owner x = some c' := fun x hx =>
      howner c' x (h.received_of_echo hmessage x hx)
    have hlength := h.length_of_mem_messages (List.mem_filterMap.mpr ⟨_, hmessage, rfl⟩)
    refine ⟨fun hall => ?_, fun heq => heq ▸ hown⟩
    obtain ⟨x, hx⟩ := List.exists_mem_of_length_pos (hlength ▸ hsize)
    exact Option.some.inj ((hown x hx).symm.trans (hall x hx))
  clear h howner
  induction trace with
  | nil => rfl
  | cons a trace ih =>
      have hrest := ih fun c' message hmessage => htold c' message (List.mem_cons_of_mem _ hmessage)
      cases a with
      | echo c' message =>
          have htold := htold c' message List.mem_cons_self
          change _ = (message :: messages trace).filter _
          rw [List.filter_cons, ← hrest]
          rcases eq_or_ne c' c with rfl | hne
          · rw [messagesOn_cons_self, if_pos (decide_eq_true (htold.mpr rfl))]
          · rw [messagesOn_cons_of_ne hne, if_neg (by simpa using mt htold.mp hne)]
      | _ => exact hrest

end Lemmas

section Life

variable {size : Nat} {mayClose : Stream β → Prop} {trace : List (Action ι β)}
  {s s' : Service ι β} {a : Action ι β} {c : ι}

/-- What the trace tells about the life of the connections. -/
structure Lived (trace : List (Action ι β)) (s : Service ι β) : Prop where
  accepted : ∀ c ∈ acceptances trace, s.phase c = .served ∨ s.phase c = .gone
  served : ∀ c, s.phase c = .served → c ∈ acceptances trace
  closed : ∀ c ∈ closings trace, s.phase c = .gone ∧ c ∈ acceptances trace
  acceptedOnce : (acceptances trace).Nodup
  closedOnce : (closings trace).Nodup

omit [DecidableEq ι] in
/-- An action that neither accepts nor closes keeps the phases it must keep. -/
theorem Lived.other (h : Lived trace s) (haccept : acceptances [a] = [])
    (hclose : closings [a] = [])
    (hphase : ∀ c, s'.phase c = s.phase c ∨
      (s.phase c = .unborn ∨ s.phase c = .waiting) ∧ s'.phase c ≠ .served) :
    Lived (trace ++ [a]) s' := by
  have hkept : ∀ c, s.phase c = .served ∨ s.phase c = .gone → s'.phase c = s.phase c := by
    intro c hc
    rcases hphase c with hsame | ⟨hbefore, -⟩
    · exact hsame
    · rcases hbefore with hbefore | hbefore <;> rcases hc with hc | hc <;>
        exact absurd (hbefore.symm.trans hc) (by simp)
  have haccepts : acceptances (trace ++ [a]) = acceptances trace := by
    rw [acceptances_append, haccept, List.append_nil]
  have hcloses : closings (trace ++ [a]) = closings trace := by
    rw [closings_append, hclose, List.append_nil]
  constructor
  · rw [haccepts]
    intro c hc
    rw [hkept c (h.accepted c hc)]
    exact h.accepted c hc
  · rw [haccepts]
    intro c hc
    rcases hphase c with hsame | ⟨-, hne⟩
    · exact h.served c (hsame.symm.trans hc)
    · exact absurd hc hne
  · rw [haccepts, hcloses]
    intro c hc
    obtain ⟨hgone, haccepted⟩ := h.closed c hc
    exact ⟨(hkept c (.inr hgone)).trans hgone, haccepted⟩
  · rw [haccepts]
    exact h.acceptedOnce
  · rw [hcloses]
    exact h.closedOnce

theorem Lived.accept (h : Lived trace s) (hphase : s.phase c = .waiting) :
    Lived (trace ++ [.accept c]) (s.move c .served) := by
  have hfresh : c ∉ acceptances trace := by
    intro hc
    rcases h.accepted c hc with hserved | hgone
    · exact absurd (hphase.symm.trans hserved) (by simp)
    · exact absurd (hphase.symm.trans hgone) (by simp)
  have haccepts : acceptances (trace ++ [.accept c]) = acceptances trace ++ [c] :=
    acceptances_append ..
  have hcloses : closings (trace ++ [.accept c]) = closings trace := by
    rw [closings_append]
    exact List.append_nil _
  constructor
  · rw [haccepts]
    intro c' hc'
    rcases eq_or_ne c' c with rfl | hne
    · exact .inl move_phase_self
    · rw [move_phase_of_ne hne]
      rw [List.mem_append, List.mem_singleton] at hc'
      exact h.accepted c' (hc'.resolve_right hne)
  · rw [haccepts]
    intro c' hc'
    rw [List.mem_append, List.mem_singleton]
    rcases eq_or_ne c' c with rfl | hne
    · exact .inr rfl
    · rw [move_phase_of_ne hne] at hc'
      exact .inl (h.served c' hc')
  · rw [haccepts, hcloses]
    intro c' hc'
    obtain ⟨hgone, haccepted⟩ := h.closed c' hc'
    have hne : c' ≠ c := by
      rintro rfl
      exact hfresh haccepted
    rw [move_phase_of_ne hne]
    exact ⟨hgone, List.mem_append_left _ haccepted⟩
  · rw [haccepts]
    rw [← List.concat_eq_append]
    exact h.acceptedOnce.concat hfresh
  · rw [hcloses]
    exact h.closedOnce

theorem Lived.close (h : Lived trace s) (hphase : s.phase c = .served) :
    Lived (trace ++ [.close c]) (s.move c .gone) := by
  have hfresh : c ∉ closings trace := by
    intro hc
    exact absurd (hphase.symm.trans (h.closed c hc).1) (by simp)
  have haccepts : acceptances (trace ++ [.close c]) = acceptances trace := by
    rw [acceptances_append]
    exact List.append_nil _
  have hcloses : closings (trace ++ [.close c]) = closings trace ++ [c] := closings_append ..
  constructor
  · rw [haccepts]
    intro c' hc'
    rcases eq_or_ne c' c with rfl | hne
    · exact .inr move_phase_self
    · rw [move_phase_of_ne hne]
      exact h.accepted c' hc'
  · rw [haccepts]
    intro c' hc'
    rcases eq_or_ne c' c with rfl | hne
    · rw [move_phase_self] at hc'
      cases hc'
    · rw [move_phase_of_ne hne] at hc'
      exact h.served c' hc'
  · rw [haccepts, hcloses]
    intro c' hc'
    rcases eq_or_ne c' c with rfl | hne
    · exact ⟨move_phase_self, h.served c' hphase⟩
    · rw [move_phase_of_ne hne]
      rw [List.mem_append, List.mem_singleton] at hc'
      exact h.closed c' (hc'.resolve_right hne)
  · rw [haccepts]
    exact h.acceptedOnce
  · rw [hcloses]
    rw [← List.concat_eq_append]
    exact h.closedOnce.concat hfresh

/-- A connection is accepted once and then closed once at most. -/
theorem Runs.lived (h : Runs size mayClose trace s) : Lived trace s := by
  induction h with
  | start =>
      constructor
      · simp [acceptances]
      · simp
      · simp [closings]
      · exact List.nodup_nil
      · exact List.nodup_nil
  | @step trace s s' a h hstep ih =>
      cases hstep with
      | @connect c hphase | @vanish c hphase =>
          refine ih.other rfl rfl fun c' => ?_
          rcases eq_or_ne c' c with rfl | hne
          · rw [move_phase_self, hphase]
            exact .inr ⟨by simp, by simp⟩
          · exact .inl (move_phase_of_ne hne)
      | receive data hphase hopen => exact ih.other rfl rfl fun c' => .inl rfl
      | finish hphase | fail hphase => exact ih.other rfl rfl fun c' => .inl rfl
      | accept hphase => exact ih.accept hphase
      | echo hphase hlength hpending => exact ih.other rfl rfl fun c' => .inl rfl
      | close hphase hmay => exact ih.close hphase

end Life

section Closing

variable {size : Nat} {mayClose : Stream β → Prop} {trace : List (Action ι β)}
  {s : Service ι β} {P : Stream β → Prop}

/-- What a connection must satisfy to be closed holds of it ever after, if what
still can arrive does not change that. -/
theorem Runs.of_mem_closings (h : Runs size mayClose trace s) (hmay : ∀ x, mayClose x → P x)
    (hreceive : ∀ (x : Stream β) (data : List β), P x → x.ended = false →
      P { x with received := x.received ++ data, pending := x.pending ++ data })
    (hfinish : ∀ x : Stream β, P x → P { x with ended := true })
    (hfail : ∀ x : Stream β, P x → P { x with failed := true }) :
    ∀ c ∈ closings trace, P (s.stream c) := by
  induction h with
  | start => simp [closings]
  | @step trace s s' a h hstep ih =>
      intro c hc
      rw [closings_append, List.mem_append] at hc
      cases hstep with
      | connect hphase | vanish hphase | accept hphase =>
          exact ih c (hc.resolve_right (by simp [closings]))
      | @receive c' data hphase hopen =>
          have hbefore := ih c (hc.resolve_right (by simp [closings]))
          rcases eq_or_ne c c' with rfl | hne
          · rw [change_stream_self]
            exact hreceive _ data hbefore hopen
          · rw [change_stream_of_ne hne]
            exact hbefore
      | @finish c' hphase =>
          have hbefore := ih c (hc.resolve_right (by simp [closings]))
          rcases eq_or_ne c c' with rfl | hne
          · rw [change_stream_self]
            exact hfinish _ hbefore
          · rw [change_stream_of_ne hne]
            exact hbefore
      | @fail c' hphase =>
          have hbefore := ih c (hc.resolve_right (by simp [closings]))
          rcases eq_or_ne c c' with rfl | hne
          · rw [change_stream_self]
            exact hfail _ hbefore
          · rw [change_stream_of_ne hne]
            exact hbefore
      | @echo c' message rest hphase hlength hpending =>
          have hclosed := hc.resolve_right (by simp [closings])
          have hne : c ≠ c' := by
            rintro rfl
            exact absurd (hphase.symm.trans (h.lived.closed c hclosed).1) (by simp)
          rw [change_stream_of_ne hne]
          exact ih c hclosed
      | @close c' hphase hclosable =>
          rcases hc with hc | hc
          · exact ih c hc
          · have heq : c = c' := by simpa [closings] using hc
            rw [heq]
            exact hmay _ hclosable

/-- All that has arrived on a connection that was closed at its end was sent back. -/
theorem Runs.echoed_of_exhausted (h : Runs size mayClose trace s)
    (hmay : ∀ x, mayClose x → x.pending = [] ∧ x.ended = true) :
    ∀ c ∈ closings trace, (s.stream c).echoed = (s.stream c).received := by
  intro c hc
  have hafter := h.of_mem_closings (P := fun x => x.pending = [] ∧ x.ended = true) hmay ?_ ?_ ?_
    c hc
  · rw [h.conserved c, hafter.1, List.append_nil]
  · intro x data hx hopen
    rw [hx.2] at hopen
    cases hopen
  · exact fun _ hx => ⟨hx.1, rfl⟩
  · exact fun _ hx => hx

/-- A service that closes a connection only at its end, with nothing left to
send back, has sent back all that the peer has sent. -/
theorem Runs.echoed_of_closed (h : Runs size mayClose trace s)
    (hmay : ∀ x, mayClose x → x.failed = true ∨ x.pending = [] ∧ x.ended = true) :
    ∀ c ∈ closings trace,
      (s.stream c).failed = true ∨ (s.stream c).echoed = (s.stream c).received := by
  intro c hc
  have hafter := h.of_mem_closings (P := fun x => x.failed = true ∨ x.pending = [] ∧ x.ended = true)
    hmay ?_ ?_ ?_ c hc
  · rcases hafter with hfailed | ⟨hpending, -⟩
    · exact .inl hfailed
    · right
      rw [h.conserved c, hpending, List.append_nil]
  · rintro x data (hfailed | ⟨-, hended⟩) hopen
    · exact .inl hfailed
    · rw [hended] at hopen
      cases hopen
  · rintro x (hfailed | ⟨hpending, -⟩)
    · exact .inl hfailed
    · exact .inr ⟨hpending, rfl⟩
  · rintro x -
    exact .inl rfl

end Closing

end EchoServers.EchoService
