import Mathlib.Data.List.Basic

namespace EchoServers.BoundedFifos

variable {α : Type} {capacity : Nat} {pushed : List α}

/-- A queue with a record of what has been taken out of it, oldest first. -/
structure Fifo (α : Type) where
  taken : List α
  waiting : List α

/-- The states of a queue of bounded capacity into which `pushed` has been put,
in this order. -/
inductive Fifo.Run (capacity : Nat) : List α → Fifo α → Prop where
  | empty : Run capacity [] ⟨[], []⟩
  | push {pushed : List α} {f : Fifo α} (h : Run capacity pushed f) (x : α)
      (hroom : f.waiting.length < capacity) :
      Run capacity (pushed ++ [x]) ⟨f.taken, f.waiting ++ [x]⟩
  | take {pushed : List α} {x : α} {taken rest : List α}
      (h : Run capacity pushed ⟨taken, x :: rest⟩) :
      Run capacity pushed ⟨taken ++ [x], rest⟩

/-- What was taken out, followed by what waits, is what was put in. -/
theorem Fifo.Run.conservation {f : Fifo α} (h : Fifo.Run capacity pushed f) :
    f.taken ++ f.waiting = pushed := by
  induction h with
  | empty => rfl
  | push h x hroom ih => rw [← ih, List.append_assoc]
  | take h ih => exact (List.append_assoc _ _ _).trans ih

theorem Fifo.Run.length_le {f : Fifo α} (h : Fifo.Run capacity pushed f) :
    f.waiting.length ≤ capacity := by
  induction h with
  | empty => exact Nat.zero_le _
  | push h x hroom ih =>
      rw [List.length_append]
      exact hroom
  | take h ih => exact Nat.le_of_succ_le ih

/-- What has been taken out was put in. -/
theorem Fifo.Run.taken_subset {f : Fifo α} (h : Fifo.Run capacity pushed f) :
    f.taken ⊆ pushed := by
  rw [← h.conservation]
  exact List.subset_append_left _ _

end EchoServers.BoundedFifos
