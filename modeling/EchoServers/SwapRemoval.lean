import Mathlib.Data.List.Induction
import Mathlib.Data.List.Perm.Basic

namespace EchoServers.SwapRemoval

variable {α β : Type} {xs : List α} {x : α} {i j : Nat}

/-- The sequence without its entry `i`, whose place the last entry takes. -/
def swapRemove (xs : List α) (i : Nat) : List α :=
  match xs.getLast? with
  | none => []
  | some x => (xs.set i x).dropLast

theorem swapRemove_concat (xs : List α) (x : α) (i : Nat) :
    swapRemove (xs ++ [x]) i = xs.set i x := by
  rw [swapRemove, List.getLast?_concat]
  dsimp only
  rcases Nat.lt_or_ge i xs.length with hi | hi
  · rw [List.set_append_left _ _ hi, List.dropLast_concat]
  · rw [List.set_append_right _ _ hi, List.set_eq_of_length_le hi]
    cases i - xs.length with
    | zero => rw [List.set_cons_zero, List.dropLast_concat]
    | succ k => rw [List.set_cons_succ, List.set_nil, List.dropLast_concat]

theorem eq_concat_of_lt (hi : i < xs.length) : ∃ ys y, xs = ys ++ [y] := by
  have hne : xs ≠ [] := List.ne_nil_of_length_pos (Nat.zero_lt_of_lt hi)
  exact ⟨xs.dropLast, xs.getLast hne, (List.dropLast_append_getLast hne).symm⟩

theorem length_swapRemove (xs : List α) (i : Nat) :
    (swapRemove xs i).length = xs.length - 1 := by
  induction xs using List.reverseRecOn with
  | nil => rfl
  | append_singleton xs x _ =>
      rw [swapRemove_concat, List.length_set, List.length_append]
      rfl

/-- The last entry takes the place `i`; all others stay. -/
theorem getElem?_swapRemove (hj : j + 1 < xs.length) :
    (swapRemove xs i)[j]? = if j = i then xs.getLast? else xs[j]? := by
  obtain ⟨ys, y, rfl⟩ := eq_concat_of_lt hj
  rw [List.length_append, List.length_singleton] at hj
  have hlt : j < ys.length := by omega
  rw [swapRemove_concat, List.getLast?_concat, List.getElem?_append_left hlt]
  rcases eq_or_ne j i with rfl | hne
  · rw [if_pos rfl, List.getElem?_set_self hlt]
  · rw [if_neg hne, List.getElem?_set_ne hne.symm]

theorem take_swapRemove (hi : i < xs.length) :
    (swapRemove xs i).take i = xs.take i := by
  obtain ⟨ys, y, rfl⟩ := eq_concat_of_lt hi
  rw [List.length_append, List.length_singleton] at hi
  rw [swapRemove_concat, List.take_set_of_le (Nat.le_refl i),
    List.take_append_of_le_length (by omega)]

/-- What is found from the place `i` on, but in another order. -/
theorem drop_swapRemove (hi : i < xs.length) :
    ((swapRemove xs i).drop i).Perm (xs.drop (i + 1)) := by
  obtain ⟨ys, y, rfl⟩ := eq_concat_of_lt hi
  rw [List.length_append, List.length_singleton] at hi
  rw [swapRemove_concat]
  rcases Nat.lt_or_ge i ys.length with hlt | hge
  · rw [List.drop_append_of_le_length hlt, List.drop_eq_getElem_cons (by simpa using hlt),
      List.getElem_set_self, List.drop_set_of_lt (Nat.lt_succ_self i)]
    exact (List.perm_append_singleton y (ys.drop (i + 1))).symm
  · rw [List.set_eq_of_length_le hge, List.drop_eq_nil_of_le hge,
      List.drop_eq_nil_of_le (by simpa using hge)]

/-- Exactly the entry `i` is gone. -/
theorem perm_cons_swapRemove (hi : xs[i]? = some x) :
    xs.Perm (x :: swapRemove xs i) := by
  obtain ⟨hlt, hx⟩ := List.getElem?_eq_some_iff.mp hi
  have hsplit : xs = xs.take i ++ x :: xs.drop (i + 1) := by
    rw [← hx, ← List.drop_eq_getElem_cons hlt, List.take_append_drop]
  have hrest : (xs.take i ++ xs.drop (i + 1)).Perm (swapRemove xs i) := by
    have hdrop := (drop_swapRemove hlt).symm.append_left ((swapRemove xs i).take i)
    rwa [List.take_append_drop, take_swapRemove hlt] at hdrop
  conv_lhs => rw [hsplit]
  exact List.perm_middle.trans (hrest.cons x)

theorem mem_of_mem_swapRemove (h : x ∈ swapRemove xs i) : x ∈ xs := by
  induction xs using List.reverseRecOn with
  | nil => exact h
  | append_singleton xs y _ =>
      rw [swapRemove_concat] at h
      rcases List.mem_or_eq_of_mem_set h with hx | rfl
      · exact List.mem_append_left _ hx
      · exact List.mem_append_right _ List.mem_cons_self

/-- Behind the removed entry nothing new appears. -/
theorem mem_drop_of_swapRemove (hij : i < j) (h : x ∈ (swapRemove xs i).drop j) :
    x ∈ xs.drop j := by
  induction xs using List.reverseRecOn with
  | nil => exact h
  | append_singleton xs y _ =>
      rw [swapRemove_concat, List.drop_set_of_lt hij] at h
      rw [List.drop_append]
      exact List.mem_append_left _ h

end EchoServers.SwapRemoval
