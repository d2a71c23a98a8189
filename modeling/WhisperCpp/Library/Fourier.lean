import Mathlib.Algebra.BigOperators.Intervals
import Mathlib.Algebra.BigOperators.Ring.Finset
import Mathlib.Tactic.Ring

/-!
# The discrete Fourier transform by halves

The transform of a sequence of even length is put together from those of its entries with even and
with odd numbers, taken with the square of the root.

## Main definitions

* `Fourier.transform` — the transform of a sequence

## Main results

* `transform_two_mul`, `transform_two_mul_add` — the first and the second half of the frequencies
-/

namespace Fourier

variable {R : Type*} [CommRing R] (w : R) (x : ℕ → R)

/-- The transform of the first `n` entries of `x`, at frequency `k`. -/
def transform (n k : ℕ) : R := ∑ i ∈ Finset.range n, x i * w ^ (k * i)

theorem transform_congr {x y : ℕ → R} {n : ℕ} (h : ∀ i < n, x i = y i) (k : ℕ) :
    transform w x n k = transform w y n k :=
  Finset.sum_congr rfl fun i hi => by rw [h i (Finset.mem_range.1 hi)]

theorem transform_one (k : ℕ) : transform w x 1 k = x 0 := by
  simp [transform]

/-- A sum over an even number of entries. -/
theorem sum_range_two_mul (f : ℕ → R) (h : ℕ) :
    ∑ i ∈ Finset.range (2 * h), f i =
      ∑ i ∈ Finset.range h, f (2 * i) + ∑ i ∈ Finset.range h, f (2 * i + 1) := by
  induction h with
  | zero => simp
  | succ h ih =>
    rw [Nat.mul_succ, Finset.sum_range_succ, Finset.sum_range_succ, ih, Finset.sum_range_succ,
      Finset.sum_range_succ]
    ring

/-- **The transform by halves.** -/
theorem transform_two_mul (h k : ℕ) :
    transform w x (2 * h) k =
      transform (w ^ 2) (fun i => x (2 * i)) h k +
        w ^ k * transform (w ^ 2) (fun i => x (2 * i + 1)) h k := by
  rw [transform, transform, transform, sum_range_two_mul, Finset.mul_sum]
  congr 1
  · refine Finset.sum_congr rfl fun i _ => ?_
    rw [← pow_mul]
    ring
  · refine Finset.sum_congr rfl fun i _ => ?_
    rw [← pow_mul]
    ring

/-- The frequencies repeat. -/
theorem transform_add {n : ℕ} (hw : w ^ n = 1) (k : ℕ) :
    transform w x n (k + n) = transform w x n k := by
  rw [transform, transform]
  refine Finset.sum_congr rfl fun i _ => ?_
  rw [Nat.add_mul, pow_add, pow_mul w n, hw, one_pow, mul_one]

/-- **The second half of the frequencies**, with the other sign. -/
theorem transform_two_mul_add {h : ℕ} (hw : w ^ h = -1) (k : ℕ) :
    transform w x (2 * h) (k + h) =
      transform (w ^ 2) (fun i => x (2 * i)) h k -
        w ^ k * transform (w ^ 2) (fun i => x (2 * i + 1)) h k := by
  have hsq : (w ^ 2) ^ h = 1 := by rw [← pow_mul, Nat.mul_comm, pow_mul, hw, neg_one_sq]
  rw [transform_two_mul, transform_add _ _ hsq, transform_add _ _ hsq, pow_add, hw]
  ring

end Fourier
