import Mathlib.Data.Finset.Card
import Mathlib.Data.List.NodupEquivFin
import Mathlib.Data.List.Perm.Subperm

/-!
# Partial assignments

An assignment of the numbers below `n` to some of the numbers below `n` that is made step by step,
no number being given away twice. As long as it is not complete, a number is left; a complete one
is a permutation.

## Main definitions

* `IsAssignment` — no number is given away twice

## Main results

* `IsAssignment.update` — a further number is given away
* `IsAssignment.exists_free` — a number is left
* `IsAssignment.perm` — a complete assignment is a permutation
-/

/-- The numbers below `n` that `f` gives away are below `n`, and none is given away twice. -/
structure IsAssignment (n : ℕ) (f : ℕ → Option ℕ) : Prop where
  lt : ∀ i < n, ∀ j, f i = some j → j < n
  inj : ∀ i < n, ∀ i' < n, ∀ j, f i = some j → f i' = some j → i = i'

namespace IsAssignment

variable {n : ℕ} {f : ℕ → Option ℕ} {i j : ℕ}

theorem none (n : ℕ) : IsAssignment n fun _ => none := ⟨nofun, nofun⟩

/-- A number that is left is given away. -/
theorem update (h : IsAssignment n f) (hj : j < n) (hfree : ∀ i' < n, f i' ≠ some j) :
    IsAssignment n (Function.update f i (some j)) where
  lt k hk l hl := by
    obtain rfl | hne := eq_or_ne k i
    · rw [Function.update_self, Option.some.injEq] at hl
      rwa [← hl]
    · rw [Function.update_of_ne hne] at hl
      exact h.lt k hk l hl
  inj k hk k' hk' l hl hl' := by
    obtain rfl | hne := eq_or_ne k i
    · obtain rfl | hne' := eq_or_ne k' k
      · rfl
      · rw [Function.update_self] at hl
        rw [Function.update_of_ne hne', ← hl] at hl'
        exact absurd hl' (hfree k' hk')
    · obtain rfl | hne' := eq_or_ne k' i
      · rw [Function.update_self] at hl'
        rw [Function.update_of_ne hne, ← hl'] at hl
        exact absurd hl (hfree k hk)
      · rw [Function.update_of_ne hne] at hl
        rw [Function.update_of_ne hne'] at hl'
        exact h.inj k hk k' hk' l hl hl'

/-- **A number is left** as long as the assignment is not complete. -/
theorem exists_free (hi : i < n) (hnone : f i = Option.none) : ∃ j < n, ∀ i' < n, f i' ≠ some j := by
  by_contra hall
  have hsub : (Finset.range n).image some ⊆ ((Finset.range n).erase i).image f := by
    intro x hx
    obtain ⟨j, hj, rfl⟩ := Finset.mem_image.1 hx
    by_contra hnot
    refine hall ⟨j, Finset.mem_range.1 hj, fun i' hi' heq => hnot ?_⟩
    refine Finset.mem_image.2 ⟨i', Finset.mem_erase.2 ⟨?_, Finset.mem_range.2 hi'⟩, heq⟩
    rintro rfl
    rw [hnone] at heq
    cases heq
  have hcard := (Finset.card_le_card hsub).trans Finset.card_image_le
  rw [Finset.card_image_of_injective _ (Option.some_injective ℕ), Finset.card_erase_of_mem
    (Finset.mem_range.2 hi), Finset.card_range] at hcard
  omega

/-- **A complete assignment is a permutation.** -/
theorem perm (h : IsAssignment n f) (hsome : ∀ i < n, f i ≠ Option.none) :
    ((List.range n).map f).Perm ((List.range n).map some) := by
  have hnodup : ((List.range n).map f).Nodup := by
    refine List.Nodup.map_on (fun i hi i' hi' heq => ?_) List.nodup_range
    obtain ⟨j, hj⟩ := Option.ne_none_iff_exists'.1 (hsome i (List.mem_range.1 hi))
    exact h.inj i (List.mem_range.1 hi) i' (List.mem_range.1 hi') j hj (heq ▸ hj)
  have hsub : (List.range n).map f ⊆ (List.range n).map some := by
    intro x hx
    obtain ⟨i, hi, rfl⟩ := List.mem_map.1 hx
    obtain ⟨j, hj⟩ := Option.ne_none_iff_exists'.1 (hsome i (List.mem_range.1 hi))
    rw [hj]
    exact List.mem_map_of_mem (List.mem_range.2 (h.lt i (List.mem_range.1 hi) j hj))
  refine (List.subperm_of_subset hnodup hsub).perm_of_length_le ?_
  rw [List.length_map, List.length_map]

end IsAssignment
