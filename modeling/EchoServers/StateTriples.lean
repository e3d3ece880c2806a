import Mathlib.Logic.Basic

namespace EchoServers.StateTriples

variable {σ ε α β : Type}

/-- Started in a state with `P`, the program `x` either stops by an error or
returns a result and a state related by `Q`. -/
def Triple (P : σ → Prop) (x : StateT σ (Except ε) α) (Q : α → σ → Prop) : Prop :=
  ∀ s, P s → ∀ a t, x s = .ok (a, t) → Q a t

theorem bind_eq_ok {x : StateT σ (Except ε) α} {f : α → StateT σ (Except ε) β}
    {s u : σ} {b : β} (h : (x >>= f) s = .ok (b, u)) :
    ∃ a t, x s = .ok (a, t) ∧ f a t = .ok (b, u) := by
  change (x s >>= fun p => f p.1 p.2) = .ok (b, u) at h
  cases hx : x s with
  | error e =>
      rw [hx] at h
      cases h
  | ok p => exact ⟨p.1, p.2, rfl, by rw [hx] at h; exact h⟩

theorem bind_run {x : StateT σ (Except ε) α} {f : α → StateT σ (Except ε) β}
    {s t : σ} {a : α} (h : x s = .ok (a, t)) : (x >>= f) s = f a t := by
  change (x s >>= fun p => f p.1 p.2) = f a t
  rw [h]
  rfl

theorem Triple.bind {P : σ → Prop} {x : StateT σ (Except ε) α} {Q : α → σ → Prop}
    {f : α → StateT σ (Except ε) β} {R : β → σ → Prop}
    (hx : Triple P x Q) (hf : ∀ a, Triple (Q a) (f a) R) :
    Triple P (x >>= f) R := by
  intro s hs b u h
  obtain ⟨a, t, hxs, hft⟩ := bind_eq_ok h
  exact hf a t (hx s hs a t hxs) b u hft

theorem Triple.pure {P : σ → Prop} (a : α) {Q : α → σ → Prop}
    (h : ∀ s, P s → Q a s) :
    Triple P (Pure.pure a : StateT σ (Except ε) α) Q := by
  intro s hs b t hrun
  cases hrun
  exact h s hs

theorem Triple.throw {P : σ → Prop} (e : ε) {Q : α → σ → Prop} :
    Triple P (MonadExcept.throw e : StateT σ (Except ε) α) Q := by
  intro s _ a t hrun
  cases hrun

/-- Reading the state hands it to the continuation as a known value. -/
theorem Triple.get_bind {P : σ → Prop} {f : σ → StateT σ (Except ε) β}
    {R : β → σ → Prop}
    (h : ∀ s, P s → Triple (fun t => t = s) (f s) R) :
    Triple P (MonadState.get >>= f) R := by
  intro s hs b u hrun
  exact h s hs s rfl b u hrun

theorem Triple.modify {P : σ → Prop} {g : σ → σ} {Q : PUnit → σ → Prop}
    (h : ∀ s, P s → Q ⟨⟩ (g s)) :
    Triple P (modifyThe σ g : StateT σ (Except ε) PUnit) Q := by
  intro s hs a t hrun
  cases hrun
  exact h s hs

/-- From a known state, a change of it leads to a known state. -/
theorem Triple.modify_bind {s : σ} {g : σ → σ} {f : PUnit → StateT σ (Except ε) β}
    {R : β → σ → Prop} (h : Triple (fun t => t = g s) (f ⟨⟩) R) :
    Triple (fun t => t = s) (modifyThe σ g >>= f) R := by
  rintro t rfl b u hrun
  exact h (g t) rfl b u hrun

theorem Triple.modifyGet {P : σ → Prop} {g : σ → α × σ} {Q : α → σ → Prop}
    (h : ∀ s, P s → Q (g s).1 (g s).2) :
    Triple P (MonadStateOf.modifyGet g : StateT σ (Except ε) α) Q := by
  intro s hs a t hrun
  have hg : g s = (a, t) := Except.ok.inj hrun
  simpa [hg] using h s hs

theorem Triple.conseq {P P' : σ → Prop} {x : StateT σ (Except ε) α}
    {Q Q' : α → σ → Prop} (hx : Triple P x Q)
    (hP : ∀ s, P' s → P s) (hQ : ∀ a s, Q a s → Q' a s) : Triple P' x Q' :=
  fun s hs a t hrun => hQ a t (hx s (hP s hs) a t hrun)

theorem Triple.post {P : σ → Prop} {x : StateT σ (Except ε) α}
    {Q Q' : α → σ → Prop} (hx : Triple P x Q) (hQ : ∀ a s, Q a s → Q' a s) :
    Triple P x Q' :=
  hx.conseq (fun _ hs => hs) hQ

theorem Triple.pre {P P' : σ → Prop} {x : StateT σ (Except ε) α}
    {Q : α → σ → Prop} (hx : Triple P x Q) (hP : ∀ s, P' s → P s) :
    Triple P' x Q :=
  hx.conseq hP fun _ _ h => h

theorem Triple.and {P P' : σ → Prop} {x : StateT σ (Except ε) α} {Q Q' : α → σ → Prop}
    (hx : Triple P x Q) (hy : Triple P' x Q') :
    Triple (fun s => P s ∧ P' s) x fun a s => Q a s ∧ Q' a s :=
  fun s hs a t hrun => ⟨hx s hs.1 a t hrun, hy s hs.2 a t hrun⟩

theorem Triple.ite {c : Prop} [Decidable c] {P : σ → Prop}
    {x y : StateT σ (Except ε) α} {Q : α → σ → Prop}
    (hx : c → Triple P x Q) (hy : ¬ c → Triple P y Q) :
    Triple P (if c then x else y) Q := by
  by_cases hc : c
  · simpa [hc] using hx hc
  · simpa [hc] using hy hc

/-- A pure part of the precondition becomes a hypothesis. -/
theorem Triple.of_pre {P : σ → Prop} {x : StateT σ (Except ε) α}
    {Q : α → σ → Prop} (h : ∀ s, P s → Triple (fun t => t = s) x Q) :
    Triple P x Q :=
  fun s hs a t hrun => h s hs s rfl a t hrun

theorem Triple.exists_pre {ι : Type} {P : ι → σ → Prop} {x : StateT σ (Except ε) α}
    {Q : α → σ → Prop} (h : ∀ i, Triple (P i) x Q) : Triple (fun s => ∃ i, P i s) x Q := by
  rintro s ⟨i, hs⟩
  exact h i s hs

theorem Triple.and_pre {p : Prop} {P : σ → Prop} {x : StateT σ (Except ε) α}
    {Q : α → σ → Prop} (h : p → Triple P x Q) : Triple (fun s => p ∧ P s) x Q := by
  rintro s ⟨hp, hs⟩
  exact h hp s hs

theorem Triple.or_pre {P P' : σ → Prop} {x : StateT σ (Except ε) α} {Q : α → σ → Prop}
    (hl : Triple P x Q) (hr : Triple P' x Q) : Triple (fun s => P s ∨ P' s) x Q := by
  rintro s (hs | hs)
  · exact hl s hs
  · exact hr s hs

/-- `n` turns of a loop whose body carries a value from one turn to the next. -/
def turns (body : α → StateT σ (Except ε) α) : Nat → α → StateT σ (Except ε) α
  | 0, a => Pure.pure a
  | n + 1, a => turns body n a >>= body

theorem Triple.turns {I : α → σ → Prop} {body : α → StateT σ (Except ε) α}
    (hbody : ∀ a, Triple (I a) (body a) I) (n : Nat) (a : α) :
    Triple (I a) (StateTriples.turns body n a) I := by
  induction n with
  | zero => exact Triple.pure a fun _ h => h
  | succ n ih => exact ih.bind hbody

section Returns

/-- The program comes to its end from every state. -/
def Returns (x : StateT σ (Except ε) α) : Prop :=
  ∀ s, ∃ a t, x s = .ok (a, t)

theorem Returns.pure (a : α) : Returns (Pure.pure a : StateT σ (Except ε) α) :=
  fun s => ⟨a, s, rfl⟩

theorem Returns.bind {x : StateT σ (Except ε) α} {f : α → StateT σ (Except ε) β}
    (hx : Returns x) (hf : ∀ a, Returns (f a)) : Returns (x >>= f) := by
  intro s
  obtain ⟨a, t, hrun⟩ := hx s
  obtain ⟨b, u, hrun'⟩ := hf a t
  exact ⟨b, u, (bind_run hrun).trans hrun'⟩

theorem Returns.get_bind {f : σ → StateT σ (Except ε) β} (hf : ∀ s, Returns (f s)) :
    Returns (MonadState.get >>= f) :=
  Returns.bind (fun s => ⟨s, s, rfl⟩) hf

theorem Returns.modify (g : σ → σ) :
    Returns (modifyThe σ g : StateT σ (Except ε) PUnit) :=
  fun s => ⟨⟨⟩, g s, rfl⟩

theorem Returns.modifyGet (g : σ → α × σ) :
    Returns (MonadStateOf.modifyGet g : StateT σ (Except ε) α) :=
  fun s => ⟨(g s).1, (g s).2, rfl⟩

theorem Returns.ite {c : Prop} [Decidable c] {x y : StateT σ (Except ε) α}
    (hx : Returns x) (hy : Returns y) : Returns (if c then x else y) := by
  by_cases hc : c
  · simpa [hc] using hx
  · simpa [hc] using hy

end Returns

section Stops

variable {P : σ → Prop} {E : ε → Prop}

/-- Started in a state with `P`, the program can only stop by an error with `E`. -/
def Stops (P : σ → Prop) (x : StateT σ (Except ε) α) (E : ε → Prop) : Prop :=
  ∀ s, P s → ∀ e, x s = .error e → E e

theorem Stops.of_returns {x : StateT σ (Except ε) α} (h : Returns x) : Stops P x E := by
  intro s _ e hrun
  obtain ⟨a, t, hok⟩ := h s
  rw [hok] at hrun
  cases hrun

theorem Stops.throw {e : ε} (h : E e) :
    Stops P (MonadExcept.throw e : StateT σ (Except ε) α) E := by
  intro s _ e' hrun
  cases hrun
  exact h

theorem Stops.bind {x : StateT σ (Except ε) α} {Q : α → σ → Prop}
    {f : α → StateT σ (Except ε) β} (hx : Stops P x E) (hpost : Triple P x Q)
    (hf : ∀ a, Stops (Q a) (f a) E) : Stops P (x >>= f) E := by
  intro s hs e hrun
  cases hxs : x s with
  | error e' =>
      have herror : (x >>= f) s = .error e' := by
        change (x s >>= fun p => f p.1 p.2) = .error e'
        rw [hxs]
        rfl
      rw [herror] at hrun
      cases hrun
      exact hx s hs e hxs
  | ok p =>
      rw [bind_run hxs] at hrun
      exact hf p.1 p.2 (hpost s hs p.1 p.2 hxs) e hrun

theorem Stops.get_bind {f : σ → StateT σ (Except ε) β}
    (h : ∀ s, P s → Stops (fun t => t = s) (f s) E) : Stops P (MonadState.get >>= f) E :=
  fun s hs e hrun => h s hs s rfl e hrun

theorem Stops.pre {P' : σ → Prop} {x : StateT σ (Except ε) α} (hx : Stops P x E)
    (hP : ∀ s, P' s → P s) : Stops P' x E :=
  fun s hs e hrun => hx s (hP s hs) e hrun

theorem Stops.ite {c : Prop} [Decidable c] {x y : StateT σ (Except ε) α}
    (hx : c → Stops P x E) (hy : ¬ c → Stops P y E) : Stops P (if c then x else y) E := by
  by_cases hc : c
  · simpa [hc] using hx hc
  · simpa [hc] using hy hc

/-- A pure part of the precondition becomes a hypothesis. -/
theorem Stops.of_pre {x : StateT σ (Except ε) α}
    (h : ∀ s, P s → Stops (fun t => t = s) x E) : Stops P x E :=
  fun s hs e hrun => h s hs s rfl e hrun

/-- When the state does not matter for how either part stops. -/
theorem Stops.seq {x : StateT σ (Except ε) α} {f : α → StateT σ (Except ε) β}
    (hx : Stops (fun _ => True) x E) (hf : ∀ a, Stops (fun _ => True) (f a) E) :
    Stops (fun _ => True) (x >>= f) E :=
  hx.bind (fun _ _ _ _ _ => trivial) hf

end Stops

section Meets

variable {P : σ → Prop} {E : ε → Prop}

/-- A triple that also says by which errors the program can stop. -/
structure Meets (P : σ → Prop) (x : StateT σ (Except ε) α) (Q : α → σ → Prop)
    (E : ε → Prop) : Prop where
  stops : Stops P x E
  post : Triple P x Q

theorem Meets.bind {x : StateT σ (Except ε) α} {Q : α → σ → Prop}
    {f : α → StateT σ (Except ε) β} {R : β → σ → Prop} (hx : Meets P x Q E)
    (hf : ∀ a, Meets (Q a) (f a) R E) : Meets P (x >>= f) R E :=
  ⟨hx.stops.bind hx.post fun a => (hf a).stops, hx.post.bind fun a => (hf a).post⟩

theorem Meets.pure (a : α) {Q : α → σ → Prop} (h : ∀ s, P s → Q a s) :
    Meets P (Pure.pure a : StateT σ (Except ε) α) Q E :=
  ⟨Stops.of_returns (Returns.pure a), Triple.pure a h⟩

theorem Meets.ite {c : Prop} [Decidable c] {x y : StateT σ (Except ε) α} {Q : α → σ → Prop}
    (hx : c → Meets P x Q E) (hy : ¬ c → Meets P y Q E) :
    Meets P (if c then x else y) Q E :=
  ⟨Stops.ite (fun hc => (hx hc).stops) fun hc => (hy hc).stops,
    Triple.ite (fun hc => (hx hc).post) fun hc => (hy hc).post⟩

theorem Meets.get_bind {f : σ → StateT σ (Except ε) β} {R : β → σ → Prop}
    (h : ∀ s, P s → Meets (fun t => t = s) (f s) R E) : Meets P (MonadState.get >>= f) R E :=
  ⟨Stops.get_bind fun s hs => (h s hs).stops, Triple.get_bind fun s hs => (h s hs).post⟩

theorem Meets.of_pre {x : StateT σ (Except ε) α} {Q : α → σ → Prop}
    (h : ∀ s, P s → Meets (fun t => t = s) x Q E) : Meets P x Q E :=
  ⟨Stops.of_pre fun s hs => (h s hs).stops, Triple.of_pre fun s hs => (h s hs).post⟩

theorem Meets.pre {P' : σ → Prop} {x : StateT σ (Except ε) α} {Q : α → σ → Prop}
    (hx : Meets P x Q E) (hP : ∀ s, P' s → P s) : Meets P' x Q E :=
  ⟨hx.stops.pre hP, hx.post.pre hP⟩

theorem Meets.and_pre {p : Prop} {x : StateT σ (Except ε) α} {Q : α → σ → Prop}
    (h : p → Meets P x Q E) : Meets (fun s => p ∧ P s) x Q E :=
  ⟨fun s hs => (h hs.1).stops s hs.2, fun s hs => (h hs.1).post s hs.2⟩

/-- A program that no error stops comes to its end. -/
theorem Meets.runs {x : StateT σ (Except ε) α} {Q : α → σ → Prop}
    (hx : Meets P x Q fun _ => False) {s : σ} (hs : P s) : ∃ a t, x s = .ok (a, t) ∧ Q a t := by
  cases hrun : x s with
  | error e => exact (hx.stops s hs e hrun).elim
  | ok r => exact ⟨r.1, r.2, rfl, hx.post s hs r.1 r.2 hrun⟩

end Meets

section Preserves

variable {τ : Type} {f : σ → τ} {E : ε → Prop}

/-- The program does not change the part `f` of the state, and can only stop by
an error with `E`. -/
structure Preserves (f : σ → τ) (E : ε → Prop) (x : StateT σ (Except ε) α) : Prop where
  stops : Stops (fun _ => True) x E
  keeps : ∀ P : τ → Prop, Triple (fun s => P (f s)) x fun _ s => P (f s)

theorem Preserves.pure (a : α) :
    Preserves f E (Pure.pure a : StateT σ (Except ε) α) :=
  ⟨Stops.of_returns (Returns.pure a), fun _ => Triple.pure a fun _ h => h⟩

theorem Preserves.bind {x : StateT σ (Except ε) α} {g : α → StateT σ (Except ε) β}
    (hx : Preserves f E x) (hg : ∀ a, Preserves f E (g a)) : Preserves f E (x >>= g) :=
  ⟨hx.stops.seq fun a => (hg a).stops, fun P => (hx.keeps P).bind fun a => (hg a).keeps P⟩

theorem Preserves.get_bind {g : σ → StateT σ (Except ε) β} (hg : ∀ s, Preserves f E (g s)) :
    Preserves f E (MonadState.get >>= g) := by
  constructor
  · exact Stops.get_bind fun s _ => (hg s).stops.pre fun _ _ => trivial
  · intro P
    exact Triple.get_bind fun s hs => ((hg s).keeps P).pre fun _ heq => heq ▸ hs

theorem Preserves.modify {g : σ → σ} (hg : ∀ s, f (g s) = f s) :
    Preserves f E (modifyThe σ g : StateT σ (Except ε) PUnit) := by
  constructor
  · exact Stops.of_returns (Returns.modify g)
  · intro P
    exact Triple.modify fun s hs => (hg s).symm ▸ hs

theorem Preserves.modifyGet {g : σ → α × σ} (hg : ∀ s, f (g s).2 = f s) :
    Preserves f E (MonadStateOf.modifyGet g : StateT σ (Except ε) α) := by
  constructor
  · exact Stops.of_returns (Returns.modifyGet g)
  · intro P
    exact Triple.modifyGet fun s hs => (hg s).symm ▸ hs

theorem Preserves.throw {e : ε} (he : E e) :
    Preserves f E (MonadExcept.throw e : StateT σ (Except ε) α) :=
  ⟨Stops.throw he, fun _ => Triple.throw e⟩

theorem Preserves.ite {c : Prop} [Decidable c] {x y : StateT σ (Except ε) α}
    (hx : Preserves f E x) (hy : Preserves f E y) : Preserves f E (if c then x else y) :=
  ⟨Stops.ite (fun _ => hx.stops) fun _ => hy.stops,
    fun P => Triple.ite (fun _ => hx.keeps P) fun _ => hy.keeps P⟩

end Preserves

end EchoServers.StateTriples
