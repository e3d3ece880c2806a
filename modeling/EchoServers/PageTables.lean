import Mathlib.Data.List.Perm.Basic

/-!
Page tables: which page of an address space is backed by what.  Regions of pages
are mapped where nothing was, and unmapped in any order.
-/

namespace EchoServers.PageTables

variable {β : Type}

/-- The backing of every page that is mapped. -/
abbrev PageTable (β : Type) := Nat → Option β

/-- Consecutive pages from `start` on; the `i`-th is backed by `backing i`. -/
structure Region (β : Type) where
  start : Nat
  pages : Nat
  backing : Nat → β

/-- The page lies in the region. -/
def Region.Has (r : Region β) (page : Nat) : Prop :=
  r.start ≤ page ∧ page < r.start + r.pages

instance (r : Region β) (page : Nat) : Decidable (r.Has page) :=
  inferInstanceAs (Decidable (_ ∧ _))

/-- Nothing is mapped where the region is to be. -/
def Free (t : PageTable β) (r : Region β) : Prop :=
  ∀ page, r.Has page → t page = none

/-- The region is mapped. -/
def Backed (t : PageTable β) (r : Region β) : Prop :=
  ∀ page, r.Has page → t page = some (r.backing (page - r.start))

def map (t : PageTable β) (r : Region β) : PageTable β := fun page =>
  if r.Has page then some (r.backing (page - r.start)) else t page

def unmap (t : PageTable β) (r : Region β) : PageTable β := fun page =>
  if r.Has page then none else t page

def Disjoint (r s : Region β) : Prop :=
  ∀ page, r.Has page → ¬ s.Has page

section Single

variable {t : PageTable β} {r s : Region β} {page : Nat}

@[simp] theorem map_of_has (h : r.Has page) :
    map t r page = some (r.backing (page - r.start)) :=
  if_pos h

@[simp] theorem map_of_not_has (h : ¬ r.Has page) : map t r page = t page :=
  if_neg h

@[simp] theorem unmap_of_has (h : r.Has page) : unmap t r page = none :=
  if_pos h

@[simp] theorem unmap_of_not_has (h : ¬ r.Has page) : unmap t r page = t page :=
  if_neg h

theorem backed_map : Backed (map t r) r :=
  fun _ h => map_of_has h

/-- What is mapped keeps clear of what is free. -/
theorem Backed.disjoint (hr : Backed t r) (hs : Free t s) : Disjoint r s := by
  intro page hin hfree
  have hmapped := hr page hin
  rw [hs page hfree] at hmapped
  cases hmapped

theorem Backed.map (hr : Backed t r) (hs : Free t s) : Backed (map t s) r := by
  intro page hin
  rw [map_of_not_has (hr.disjoint hs page hin)]
  exact hr page hin

end Single

/-- Each region is free when its turn comes. -/
def Placed (t : PageTable β) : List (Region β) → Prop
  | [] => True
  | r :: rs => Free t r ∧ Placed (map t r) rs

def mapAll (t : PageTable β) (rs : List (Region β)) : PageTable β :=
  rs.foldl map t

def unmapAll (t : PageTable β) (rs : List (Region β)) : PageTable β :=
  rs.foldl unmap t

section Several

variable {t t' : PageTable β} {rs rs' : List (Region β)} {r : Region β} {page : Nat}

theorem unmapAll_of_has (hmem : r ∈ rs) (h : r.Has page) : unmapAll t rs page = none := by
  have hnone : ∀ (rs : List (Region β)) (t : PageTable β), t page = none →
      unmapAll t rs page = none := by
    intro rs
    induction rs with
    | nil => exact fun _ ht => ht
    | cons s rs ih =>
        intro t ht
        apply ih
        by_cases hs : s.Has page
        · exact unmap_of_has hs
        · rw [unmap_of_not_has hs]
          exact ht
  induction rs generalizing t with
  | nil => cases hmem
  | cons s rs ih =>
      rcases List.mem_cons.mp hmem with rfl | hmem
      · exact hnone rs _ (unmap_of_has h)
      · exact ih hmem

theorem unmapAll_of_not_has (h : ∀ r ∈ rs, ¬ r.Has page) : unmapAll t rs page = t page := by
  induction rs generalizing t with
  | nil => rfl
  | cons s rs ih =>
      obtain ⟨hs, hrs⟩ := List.forall_mem_cons.mp h
      exact (ih hrs).trans (unmap_of_not_has hs)

/-- A region that was mapped is still mapped when others got their place. -/
theorem Backed.mapAll (hr : Backed t r) (h : Placed t rs) : Backed (mapAll t rs) r := by
  induction rs generalizing t with
  | nil => exact hr
  | cons s rs ih => exact ih (hr.map h.1) h.2

theorem Placed.backed (h : Placed t rs) : ∀ r ∈ rs, Backed (mapAll t rs) r := by
  induction rs generalizing t with
  | nil => exact fun _ hr => absurd hr List.not_mem_nil
  | cons s rs ih =>
      intro r hr
      rcases List.mem_cons.mp hr with rfl | hr
      · exact backed_map.mapAll h.2
      · exact ih h.2 r hr

/-- A region clear of what is mapped is disjoint from the regions that get their
place. -/
theorem Placed.disjoint (hr : Backed t r) (h : Placed t rs) : ∀ s ∈ rs, Disjoint r s := by
  induction rs generalizing t with
  | nil => exact fun _ hs => absurd hs List.not_mem_nil
  | cons s' rs ih =>
      intro s hs
      rcases List.mem_cons.mp hs with rfl | hs
      · exact hr.disjoint h.1
      · exact ih (hr.map h.1) h.2 s hs

/-- No page is in two regions. -/
theorem Placed.pairwise (h : Placed t rs) : rs.Pairwise Disjoint := by
  induction rs generalizing t with
  | nil => exact List.Pairwise.nil
  | cons s rs ih => exact List.pairwise_cons.mpr ⟨Placed.disjoint backed_map h.2, ih h.2⟩

theorem Placed.free (h : Placed t rs) : ∀ r ∈ rs, Free t r := by
  induction rs generalizing t with
  | nil => exact fun _ hr => absurd hr List.not_mem_nil
  | cons s rs ih =>
      intro r hr
      rcases List.mem_cons.mp hr with rfl | hr
      · exact h.1
      · intro page hpage
        have hnone := ih h.2 r hr page hpage
        by_cases hs : s.Has page
        · exact h.1 page hs
        · rw [map_of_not_has hs] at hnone
          exact hnone

/-- The order of unmapping does not matter, and what it leaves is what there was
before, as long as nothing else has changed. -/
theorem Placed.unmapAll (h : Placed t rs) (hperm : rs'.Perm rs)
    (hother : ∀ page, (∀ r ∈ rs, ¬ r.Has page) → t' page = t page) : unmapAll t' rs' = t := by
  funext page
  by_cases hin : ∃ r ∈ rs, r.Has page
  · obtain ⟨r, hr, hpage⟩ := hin
    rw [unmapAll_of_has (hperm.mem_iff.mpr hr) hpage]
    exact (h.free r hr page hpage).symm
  · have hnone : ∀ r ∈ rs, ¬ r.Has page := fun r hr hpage => hin ⟨r, hr, hpage⟩
    rw [unmapAll_of_not_has fun r hr => hnone r (hperm.mem_iff.mp hr)]
    exact hother page hnone

end Several

end EchoServers.PageTables
