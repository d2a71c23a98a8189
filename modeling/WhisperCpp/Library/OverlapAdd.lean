import Mathlib.Algebra.BigOperators.Group.Finset.Basic
import Mathlib.Algebra.BigOperators.Ring.Finset
import Mathlib.Algebra.Order.BigOperators.Group.Finset
import Mathlib.Logic.Function.Basic

/-!
# Overlap-add

Frames of a fixed width are added to a memory, each `hop` cells behind the last one.

## Main definitions

* `OverlapAdd.scatter` — numbers are added to cells of a memory
* `OverlapAdd.overlapAdd` — the frames

## Main results

* `overlapAdd_apply` — a cell holds the sum of what the frames have for it
* `overlapAdd_mul` — frames that are cut from one signal
* `overlapAdd_pos` — a cell that some frame reaches
-/

namespace OverlapAdd

variable {R : Type*}

/-- `mem[a] += v`, for one pair after another. -/
def scatter [Add R] (l : List (ℕ × R)) (mem : ℕ → R) : ℕ → R :=
  l.foldl (fun mem w => Function.update mem w.1 (mem w.1 + w.2)) mem

theorem scatter_apply [AddCommMonoid R] (l : List (ℕ × R)) (mem : ℕ → R) (a : ℕ) :
    scatter l mem a = mem a + (l.map fun w => if w.1 = a then w.2 else 0).sum := by
  induction l generalizing mem with
  | nil => simp [scatter]
  | cons w l ih =>
    rw [List.map_cons, List.sum_cons, ← add_assoc]
    refine (ih _).trans (congrArg (· + _) ?_)
    show Function.update mem w.1 (mem w.1 + w.2) a = _
    by_cases ha : w.1 = a
    · rw [if_pos ha, ha, Function.update_self]
    · rw [if_neg ha, add_zero, Function.update_of_ne (Ne.symm ha)]

/-- `count` frames of `width` cells. -/
def overlapAdd [Add R] [Zero R] (count hop width : ℕ) (frame : ℕ → ℕ → R) : ℕ → R :=
  scatter ((List.range count).flatMap fun t => (List.range width).map fun k => (t * hop + k, frame t k))
    fun _ => 0

variable {count hop width : ℕ}

/-- **A cell holds the sum of what the frames have for it.** -/
theorem overlapAdd_apply [AddCommMonoid R] (frame : ℕ → ℕ → R) (a : ℕ) :
    overlapAdd count hop width frame a = ∑ t ∈ Finset.range count, ∑ k ∈ Finset.range width,
      if t * hop + k = a then frame t k else 0 := by
  rw [overlapAdd, scatter_apply, zero_add, List.map_flatMap, List.flatMap_def, List.sum_flatten,
    List.map_map]
  refine congrArg List.sum (List.map_congr_left fun t _ => ?_)
  rw [Function.comp_apply, List.map_map]
  rfl

/-- **Frames that are cut from one signal** and weighted give that signal, with the sum of the weights. -/
theorem overlapAdd_mul [CommSemiring R] {frame weight : ℕ → ℕ → R} {x : ℕ → R}
    (h : ∀ t < count, ∀ k < width, frame t k = weight t k * x (t * hop + k)) (a : ℕ) :
    overlapAdd count hop width frame a = overlapAdd count hop width weight a * x a := by
  rw [overlapAdd_apply, overlapAdd_apply, Finset.sum_mul]
  refine Finset.sum_congr rfl fun t ht => ?_
  rw [Finset.sum_mul]
  refine Finset.sum_congr rfl fun k hk => ?_
  split_ifs with ha
  · rw [h t (Finset.mem_range.mp ht) k (Finset.mem_range.mp hk), ha]
  · rw [zero_mul]

/-- **A cell that some frame reaches with a positive weight**, if none is negative. -/
theorem overlapAdd_pos [AddCommMonoid R] [PartialOrder R] [IsOrderedCancelAddMonoid R]
    {weight : ℕ → ℕ → R} (h0 : ∀ t < count, ∀ k < width, 0 ≤ weight t k) {t k : ℕ} (ht : t < count)
    (hk : k < width) (hpos : 0 < weight t k) :
    0 < overlapAdd count hop width weight (t * hop + k) := by
  have hcell : ∀ t' ∈ Finset.range count, ∀ k' ∈ Finset.range width,
      0 ≤ if t' * hop + k' = t * hop + k then weight t' k' else 0 := by
    intro t' ht' k' hk'
    split_ifs
    · exact h0 t' (Finset.mem_range.mp ht') k' (Finset.mem_range.mp hk')
    · exact le_rfl
  rw [overlapAdd_apply]
  refine Finset.sum_pos' (fun t' ht' => Finset.sum_nonneg (hcell t' ht')) ⟨t, Finset.mem_range.mpr ht, ?_⟩
  refine Finset.sum_pos' (hcell t (Finset.mem_range.mpr ht)) ⟨k, Finset.mem_range.mpr hk, ?_⟩
  rwa [if_pos rfl]

end OverlapAdd
