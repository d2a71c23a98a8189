import Mathlib.Data.List.Sort
import Mathlib.Order.Lattice

/-!
# The values of a list by rank

The value of rank `k` is what is at index `k` when the list is sorted in descending order; it is
what a selection algorithm finds without sorting. At most `k` values are above it, and exactly `k`
iff it is below the one of the rank before.

## Main definitions

* `ranked` — the value of a rank

## Main results

* `le_ranked_zero` — the first rank has the largest value
* `ranked_le_of_lt` — what is above the next rank is at least the value of this one
* `countP_ranked_lt_iff` — when fewer values are above a rank than there are ranks before it
-/

namespace Ranks

variable {α : Type*} [LinearOrder α] {xs : List α} {k : ℕ} {x : α}

/-- The list in descending order. -/
def descending (xs : List α) : List α := xs.insertionSort (· ≥ ·)

theorem length_descending (xs : List α) : (descending xs).length = xs.length :=
  List.length_insertionSort _ xs

theorem mem_descending : x ∈ descending xs ↔ x ∈ xs := List.mem_insertionSort _

theorem perm_descending (xs : List α) : (descending xs).Perm xs := List.perm_insertionSort _ xs

theorem pairwise_descending (xs : List α) : (descending xs).Pairwise (· ≥ ·) :=
  List.pairwise_insertionSort _ xs

variable [Inhabited α]

/-- The value of rank `k`, from zero. -/
def ranked (xs : List α) (k : ℕ) : α := (descending xs)[k]?.getD default

theorem getElem_descending (hk : k < (descending xs).length) :
    (descending xs)[k] = ranked xs k := by
  rw [ranked, List.getElem?_eq_getElem hk, Option.getD_some]

theorem ranked_mem (hk : k < xs.length) : ranked xs k ∈ xs := by
  rw [← length_descending] at hk
  rw [← getElem_descending hk, ← mem_descending]
  exact List.getElem_mem _

/-- A higher rank has a lower value. -/
theorem ranked_le_ranked {j : ℕ} (hjk : j ≤ k) (hk : k < xs.length) :
    ranked xs k ≤ ranked xs j := by
  rw [← length_descending] at hk
  rw [← getElem_descending hk, ← getElem_descending (hjk.trans_lt hk)]
  obtain rfl | hlt := hjk.eq_or_lt
  · exact le_rfl
  · exact List.pairwise_iff_getElem.1 (pairwise_descending xs) _ _ _ _ hlt

/-- Every value has a rank. -/
theorem exists_ranked_eq (hx : x ∈ xs) : ∃ k < xs.length, ranked xs k = x := by
  obtain ⟨k, hk, hget⟩ := List.getElem_of_mem (mem_descending.2 hx)
  rw [getElem_descending] at hget
  exact ⟨k, length_descending xs ▸ hk, hget⟩

/-- The first rank has the largest value. -/
theorem le_ranked_zero (hx : x ∈ xs) : x ≤ ranked xs 0 := by
  obtain ⟨k, hk, rfl⟩ := exists_ranked_eq hx
  exact ranked_le_ranked k.zero_le hk

/-- What is above a value has a rank before its rank. -/
theorem ranked_le_of_lt (hx : x ∈ xs) (hk : k + 1 < xs.length) (hlt : ranked xs (k + 1) < x) :
    ranked xs k ≤ x := by
  obtain ⟨j, hj, rfl⟩ := exists_ranked_eq hx
  by_contra hnot
  have hkj : k < j := by
    by_contra hle
    exact hnot (ranked_le_ranked (not_lt.1 hle) (by omega))
  exact absurd (ranked_le_ranked hkj hj) (not_le.2 hlt)

/-- **Fewer than `k + 1` values are above the next rank** iff its value is the same. -/
theorem countP_ranked_lt_iff (hk : k + 1 < xs.length) :
    xs.countP (fun x => decide (ranked xs (k + 1) < x)) < k + 1 ↔
      ranked xs k = ranked xs (k + 1) := by
  have hlength := length_descending xs
  have hback : ((descending xs).drop (k + 1)).countP
      (fun x => decide (ranked xs (k + 1) < x)) = 0 := by
    rw [List.countP_eq_zero]
    intro x hx
    obtain ⟨i, hi, rfl⟩ := List.getElem_of_mem hx
    rw [List.length_drop, hlength] at hi
    rw [List.getElem_drop, getElem_descending]
    simpa using ranked_le_ranked (Nat.le_add_right _ i) (by omega : k + 1 + i < xs.length)
  have hcount : xs.countP (fun x => decide (ranked xs (k + 1) < x)) =
      ((descending xs).take (k + 1)).countP (fun x => decide (ranked xs (k + 1) < x)) := by
    rw [← (perm_descending xs).countP_eq]
    conv_lhs => rw [← List.take_append_drop (k + 1) (descending xs)]
    rw [List.countP_append, hback, Nat.add_zero]
  have htake : ((descending xs).take (k + 1)).length = k + 1 := by
    rw [List.length_take, hlength]
    omega
  have hle : ((descending xs).take (k + 1)).countP (fun x => decide (ranked xs (k + 1) < x)) ≤
      k + 1 := List.countP_le_length.trans htake.le
  have hall : ((descending xs).take (k + 1)).countP (fun x => decide (ranked xs (k + 1) < x)) =
      k + 1 ↔ ∀ x ∈ (descending xs).take (k + 1), decide (ranked xs (k + 1) < x) = true := by
    rw [← List.countP_eq_length, htake]
  rw [hcount, Nat.lt_iff_le_and_ne, and_iff_right hle, ne_eq, hall]
  constructor
  · intro hnot
    by_contra hne
    refine hnot fun x hx => ?_
    obtain ⟨i, hi, rfl⟩ := List.getElem_of_mem hx
    rw [htake] at hi
    rw [List.getElem_take, getElem_descending]
    have hlt : ranked xs (k + 1) < ranked xs k :=
      lt_of_le_of_ne (ranked_le_ranked k.le_succ hk) (Ne.symm hne)
    simpa using hlt.trans_le (ranked_le_ranked (by omega) (by omega))
  · intro heq hall
    have hlast := hall (ranked xs k) (by
      rw [List.mem_take_iff_getElem]
      exact ⟨k, by rw [hlength]; omega, getElem_descending _⟩)
    rw [heq] at hlast
    simp at hlast

end Ranks
