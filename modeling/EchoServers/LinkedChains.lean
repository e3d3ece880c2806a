import Mathlib.Data.List.Nodup

namespace EchoServers.LinkedChains

variable {α : Type} {next next' prev prev' : α → Option α}
  {start head tail : Option α} {x y : α} {xs ys zs : List α}

/-- Following `next` from `start` visits exactly the nodes `xs`, in their
order, and ends at a null link. -/
def Visits (next : α → Option α) : Option α → List α → Prop
  | start, [] => start = none
  | start, x :: xs => start = some x ∧ Visits next (next x) xs

theorem Visits.start_eq (h : Visits next start xs) : start = xs.head? := by
  cases xs with
  | nil => exact h
  | cons x xs => exact h.1

theorem Visits.suffix (h : Visits next start (ys ++ x :: zs)) :
    Visits next (next x) zs := by
  induction ys generalizing start with
  | nil => exact h.2
  | cons y ys ih => exact ih h.2

theorem Visits.next_eq (h : Visits next start (ys ++ x :: zs)) :
    next x = zs.head? :=
  h.suffix.start_eq

/-- The part of a chain behind one of its nodes can be exchanged, as long as
the links in front of that node stay. -/
theorem Visits.splice (h : Visits next start (ys ++ y :: zs)) (zs' : List α)
    (hagree : ∀ z ∈ ys, next' z = next z) (hrest : Visits next' (next' y) zs') :
    Visits next' start (ys ++ y :: zs') := by
  induction ys generalizing start with
  | nil => exact ⟨h.1, hrest⟩
  | cons z ys ih =>
      refine ⟨h.1, ?_⟩
      rw [hagree z (by simp)]
      exact ih h.2 fun w hw => hagree w (by simp [hw])

theorem Visits.congr (h : Visits next start xs)
    (hagree : ∀ z ∈ xs, next' z = next z) : Visits next' start xs := by
  induction xs generalizing start with
  | nil => exact h
  | cons z xs ih =>
      refine ⟨h.1, ?_⟩
      rw [hagree z (by simp)]
      exact ih h.2 fun w hw => hagree w (by simp [hw])

/-- A chain has one sequence of nodes only. -/
theorem Visits.unique (hxs : Visits next start xs) (hys : Visits next start ys) :
    xs = ys := by
  induction xs generalizing start ys with
  | nil =>
      cases ys with
      | nil => rfl
      | cons y ys =>
          have hnone : start = none := hxs
          exact absurd (hnone.symm.trans hys.1) (by simp)
  | cons x xs ih =>
      cases ys with
      | nil =>
          have hnone : start = none := hys
          exact absurd (hnone.symm.trans hxs.1) (by simp)
      | cons y ys =>
          obtain rfl : x = y := Option.some.inj (hxs.1.symm.trans hys.1)
          rw [ih hxs.2 hys.2]

/-- The nodes `xs` are linked in both directions between `head` and `tail`. -/
structure DoublyLinked (next prev : α → Option α) (head tail : Option α)
    (xs : List α) : Prop where
  nodup : xs.Nodup
  forward : Visits next head xs
  backward : Visits prev tail xs.reverse

theorem DoublyLinked.empty (next prev : α → Option α) :
    DoublyLinked next prev none none [] :=
  ⟨List.nodup_nil, rfl, rfl⟩

theorem DoublyLinked.reverse (h : DoublyLinked next prev head tail xs) :
    DoublyLinked prev next tail head xs.reverse :=
  ⟨List.nodup_reverse.mpr h.nodup, h.backward, by simpa using h.forward⟩

theorem DoublyLinked.head_eq (h : DoublyLinked next prev head tail xs) :
    head = xs.head? :=
  h.forward.start_eq

theorem DoublyLinked.tail_eq (h : DoublyLinked next prev head tail xs) :
    tail = xs.getLast? := by
  simpa using h.backward.start_eq

theorem DoublyLinked.next_eq (h : DoublyLinked next prev head tail (ys ++ x :: zs)) :
    next x = zs.head? :=
  h.forward.next_eq

theorem DoublyLinked.prev_eq (h : DoublyLinked next prev head tail (ys ++ x :: zs)) :
    prev x = ys.getLast? := by
  have hback : Visits prev tail (zs.reverse ++ x :: ys.reverse) := by
    simpa using h.backward
  simpa using hback.next_eq

theorem DoublyLinked.congr (h : DoublyLinked next prev head tail xs)
    (hnext : ∀ z ∈ xs, next' z = next z) (hprev : ∀ z ∈ xs, prev' z = prev z) :
    DoublyLinked next' prev' head tail xs :=
  ⟨h.nodup, h.forward.congr hnext,
    h.backward.congr fun z hz => hprev z (List.mem_reverse.mp hz)⟩

section Updates

variable [DecidableEq α]

/-- Linking a new node behind the last one. -/
theorem DoublyLinked.pushBack (h : DoublyLinked next prev head tail xs)
    (next' prev' : α → Option α) (hx : x ∉ xs)
    (hnext : ∀ z ∈ xs, next' z = if some z = tail then some x else next z)
    (hnextx : next' x = none)
    (hprev : ∀ z ∈ xs, prev' z = prev z) (hprevx : prev' x = tail) :
    DoublyLinked next' prev' (if head = none then some x else head) (some x)
      (xs ++ [x]) := by
  have hnodup : (xs ++ [x]).Nodup := by
    rw [List.nodup_append]
    refine ⟨h.nodup, by simp, ?_⟩
    rintro y hy z hz rfl
    exact hx (List.mem_singleton.mp hz ▸ hy)
  refine ⟨hnodup, ?_, ?_⟩
  · rcases List.eq_nil_or_concat xs with rfl | ⟨ys, y, rfl⟩
    · have hhead : head = none := h.forward
      simp [Visits, hhead, hnextx]
    · have hhead : head ≠ none := by
        rw [h.head_eq]
        cases ys <;> simp
      have htail : tail = some y := by simpa using h.tail_eq
      have hforward : Visits next head (ys ++ y :: []) := by simpa using h.forward
      rw [if_neg hhead]
      have hyx : next' y = some x := by simpa [htail] using hnext y (by simp)
      simpa using hforward.splice [x]
        (fun z hz => by
          have hzy : z ≠ y := by
            rintro rfl
            have := h.nodup
            simp only [List.concat_eq_append, List.nodup_append] at this
            exact this.2.2 z hz z (by simp) rfl
          simpa [htail, hzy] using hnext z (by simp [hz]))
        (show Visits next' (next' y) [x] from ⟨hyx, hnextx⟩)
  · rw [List.reverse_append]
    refine ⟨rfl, ?_⟩
    rw [hprevx]
    exact h.backward.congr fun z hz => hprev z (List.mem_reverse.mp hz)

/-- The forward half of taking a node out: its predecessor, or the head when
there is none, is linked to its successor. -/
theorem Visits.unlink (h : Visits next head (ys ++ x :: zs))
    (hnodup : (ys ++ x :: zs).Nodup) {pred : Option α} (hpred : pred = ys.getLast?)
    (hnext : ∀ z ∈ ys ++ zs, next' z = if some z = pred then next x else next z) :
    Visits next' (if head = some x then next x else head) (ys ++ zs) := by
  have hsuffix : Visits next' (next x) zs := by
    refine h.suffix.congr fun z hz => ?_
    have hzpred : some z ≠ pred := by
      rw [hpred]
      intro heq
      have hmem := List.mem_of_getLast? heq.symm
      rw [List.nodup_append] at hnodup
      exact hnodup.2.2 z hmem z (by simp [hz]) rfl
    simpa [hzpred] using hnext z (by simp [hz])
  rcases List.eq_nil_or_concat ys with rfl | ⟨ws, w, rfl⟩
  · simpa [h.1] using hsuffix
  · have hpredw : pred = some w := by simpa using hpred
    have hhead : head ≠ some x := by
      rw [h.start_eq]
      rw [List.nodup_append] at hnodup
      cases ws with
      | nil =>
          simp only [List.concat_eq_append, List.nil_append, List.cons_append,
            List.head?_cons, ne_eq, Option.some.injEq]
          exact hnodup.2.2 w (by simp) x (by simp)
      | cons v ws =>
          simp only [List.concat_eq_append, List.cons_append, List.head?_cons,
            ne_eq, Option.some.injEq]
          exact hnodup.2.2 v (by simp) x (by simp)
    rw [if_neg hhead]
    have hw : next' w = next x := by simpa [hpredw] using hnext w (by simp)
    have hforward : Visits next head (ws ++ w :: (x :: zs)) := by simpa using h
    simpa using hforward.splice zs
      (fun z hz => by
        have hzw : z ≠ w := by
          rintro rfl
          have hnodup' := (List.nodup_append.mp hnodup).1
          simp only [List.concat_eq_append, List.nodup_append] at hnodup'
          exact hnodup'.2.2 z hz z (by simp) rfl
        simpa [hpredw, hzw] using hnext z (by simp [hz]))
      (by rw [hw]; exact hsuffix)

/-- Taking a node out repairs its two neighbours and the two ends. -/
theorem DoublyLinked.unlink
    (h : DoublyLinked next prev head tail (ys ++ x :: zs)) (next' prev' : α → Option α)
    (hnext : ∀ z ∈ ys ++ zs, next' z = if some z = prev x then next x else next z)
    (hprev : ∀ z ∈ ys ++ zs, prev' z = if some z = next x then prev x else prev z) :
    DoublyLinked next' prev' (if head = some x then next x else head)
      (if tail = some x then prev x else tail) (ys ++ zs) := by
  have hnodup : (ys ++ zs).Nodup := by
    have := List.nodup_middle.mp h.nodup
    exact (List.nodup_cons.mp this).2
  have hreverse : DoublyLinked prev next tail head (zs.reverse ++ x :: ys.reverse) := by
    simpa using h.reverse
  refine ⟨hnodup, h.forward.unlink h.nodup h.prev_eq hnext, ?_⟩
  rw [List.reverse_append]
  refine hreverse.forward.unlink hreverse.nodup ?_ fun z hz => hprev z ?_
  · rw [h.next_eq]
    simp
  · simpa [or_comm] using hz

end Updates

end EchoServers.LinkedChains
