import EchoServers.StateTriples

namespace EchoServers.Utils

open EchoServers.StateTriples

/-- How a run ends before its last statement: the program calls `exit` after
logging a text, or the bound given to one of its loops is used up. -/
inductive Stop where
  | exit (text : String)
  | diverged
  deriving DecidableEq, Repr

/-- Code that works on a state `σ` and may exit. -/
abbrev Program (σ α : Type) := StateT σ (Except Stop) α

variable {σ α : Type} {P : σ → Prop} {Q : PUnit → σ → Prop}

def exitFailure (text : String) : Program σ α :=
  throw (.exit text)

/-- An `if` without an `else`. -/
def whenTrue (c : Prop) [Decidable c] (x : Program σ PUnit) : Program σ PUnit :=
  if c then x else pure ⟨⟩

/-- A pointer tested before it is followed. -/
def whenNonNull {π : Type} (p : Option π) (x : π → Program σ PUnit) : Program σ PUnit :=
  match p with
  | some p => x p
  | none => pure ⟨⟩

def assertZero (code : Int) (text : String) : Program σ PUnit :=
  if code ≠ 0 then exitFailure text else pure ⟨⟩

def assertNonn (code : Int) (text : String) : Program σ PUnit :=
  if code < 0 then exitFailure text else pure ⟨⟩

def assertNnull (isNull : Bool) (text : String) : Program σ PUnit :=
  if isNull then exitFailure text else pure ⟨⟩

def ioUringAssertZero (code : Int) (text : String) : Program σ PUnit :=
  if code ≠ 0 then exitFailure text else pure ⟨⟩

def ioUringAssertNonn (code : Int) (text : String) : Program σ PUnit :=
  if code < 0 then exitFailure text else pure ⟨⟩

def ioUringAssert (condition : Bool) (text : String) : Program σ PUnit :=
  if !condition then exitFailure text else pure ⟨⟩

theorem triple_exitFailure {R : α → σ → Prop} (text : String) :
    Triple P (exitFailure text) R :=
  Triple.throw _

theorem triple_whenTrue {c : Prop} [Decidable c] {x : Program σ PUnit}
    (hx : c → Triple P x Q) (h : ∀ s, P s → ¬ c → Q ⟨⟩ s) :
    Triple P (whenTrue c x) Q :=
  Triple.ite hx fun hc => Triple.pure _ fun s hs => h s hs hc

theorem whenTrue_of {c : Prop} [Decidable c] (hc : c) (x : Program σ PUnit) :
    whenTrue c x = x :=
  if_pos hc

theorem whenTrue_of_not {c : Prop} [Decidable c] (hc : ¬ c) (x : Program σ PUnit) :
    whenTrue c x = pure ⟨⟩ :=
  if_neg hc

/-- A test that exits unless `c` holds. -/
theorem triple_assert {c : Prop} [Decidable c] {x : Program σ PUnit}
    (hx : Triple P x Q) (h : ∀ s, P s → ¬ c → Q ⟨⟩ s) :
    Triple P (if c then x else pure ⟨⟩) Q :=
  triple_whenTrue (fun _ => hx) h

theorem triple_assertZero {code : Int} {text : String} :
    Triple P (assertZero code text) fun _ s => P s ∧ code = 0 :=
  triple_assert (triple_exitFailure _) fun _ hs hc => ⟨hs, by omega⟩

theorem meets_assertZero {E : Stop → Prop} {text : String} :
    Meets P (assertZero 0 text) (fun _ => P) E :=
  Meets.ite (fun hne => absurd rfl hne) fun _ => Meets.pure _ fun _ hs => hs

theorem triple_assertNonn {code : Int} {text : String} :
    Triple P (assertNonn code text) fun _ s => P s ∧ 0 ≤ code :=
  triple_assert (triple_exitFailure _) fun _ hs hc => ⟨hs, by omega⟩

theorem triple_assertNnull {isNull : Bool} {text : String} :
    Triple P (assertNnull isNull text) fun _ s => P s ∧ isNull = false :=
  triple_assert (triple_exitFailure _) fun _ hs hc => ⟨hs, by simpa using hc⟩

theorem triple_ioUringAssertZero {code : Int} {text : String} :
    Triple P (ioUringAssertZero code text) fun _ s => P s ∧ code = 0 :=
  triple_assert (triple_exitFailure _) fun _ hs hc => ⟨hs, by omega⟩

theorem triple_ioUringAssertNonn {code : Int} {text : String} :
    Triple P (ioUringAssertNonn code text) fun _ s => P s ∧ 0 ≤ code :=
  triple_assert (triple_exitFailure _) fun _ hs hc => ⟨hs, by omega⟩

theorem triple_ioUringAssert {condition : Bool} {text : String} :
    Triple P (ioUringAssert condition text) fun _ s => P s ∧ condition = true :=
  triple_assert (triple_exitFailure _) fun _ hs hc => ⟨hs, by simpa using hc⟩

section Settled

/-- What a program returns, or `a` where it stops. -/
def settled (x : Program σ α) (s : σ) (a : α) : α × σ :=
  match x s with
  | .ok r => r
  | .error _ => (a, s)

theorem run_settled {x : Program σ α} {s : σ} {a : α}
    (h : (x s).isOk = true) : x s = .ok ((settled x s a).1, (settled x s a).2) := by
  cases hrun : x s with
  | error e => simp [hrun, Except.isOk, Except.toBool] at h
  | ok r => simp [settled, hrun]

end Settled

end EchoServers.Utils
