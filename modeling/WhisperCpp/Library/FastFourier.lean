import Mathlib.Algebra.Star.BigOperators
import WhisperCpp.Library.BitReversal
import WhisperCpp.Library.Fourier

/-!
# The fast Fourier transform in place

The input is put into bit-reversed order. Then blocks of two, of four and so on are transformed,
each from the two blocks of half the length that it consists of. A real input of even length is
transformed as a complex one of half the length.

## Main definitions

* `Blocks` — every block of a length holds a transform
* `ButterfliesOf` — a stage has put neighbouring blocks together
* `packed` — a real sequence as a complex one of half the length

## Main results

* `Blocks.succ` — what a stage does
* `Blocks.whole` — after the last stage there is one block
* `packed_add_star`, `packed_sub_star` — the transforms of the entries with even and with
  odd numbers
-/

namespace Fourier

open BitReversal (rev)

section Stages

variable {R : Type*} [CommRing R] {root : ℕ → R} {y : ℕ → R} {m q : ℕ} {data data' : ℕ → R}

/-- There are `2 ^ m` blocks of length `2 ^ q`. Block `b` holds the transform of the entries whose
numbers end, in binary, in the reversed bits of `b`. -/
def Blocks (root : ℕ → R) (y : ℕ → R) (m q : ℕ) (data : ℕ → R) : Prop :=
  ∀ b < 2 ^ m, ∀ k < 2 ^ q, data (b * 2 ^ q + k) =
    transform (root q) (fun j => y (j * 2 ^ m + rev m b)) (2 ^ q) k

/-- In front of the first stage a block is an entry, and the entries are in bit-reversed order. -/
theorem Blocks.zero (h : ∀ a < 2 ^ m, data a = y (rev m a)) : Blocks root y m 0 data := by
  intro b hb k hk
  obtain rfl : k = 0 := by simpa using hk
  rw [pow_zero, transform_one, Nat.mul_one, Nat.add_zero, Nat.zero_mul, Nat.zero_add]
  exact h b hb

/-- Each two neighbouring blocks of length `h` have been put together. -/
def ButterfliesOf (w : R) (blocks h : ℕ) (data data' : ℕ → R) : Prop :=
  ∀ b < blocks, ∀ k < h,
    data' (b * (2 * h) + k) =
      data (b * (2 * h) + k) + data (b * (2 * h) + k + h) * w ^ k ∧
    data' (b * (2 * h) + k + h) =
      data (b * (2 * h) + k) - data (b * (2 * h) + k + h) * w ^ k

/-- **A stage puts neighbouring blocks together.** -/
theorem Blocks.succ (hsq : root (q + 1) ^ 2 = root q) (hhalf : root (q + 1) ^ 2 ^ q = -1)
    (h : Blocks root y (m + 1) q data)
    (hstage : ButterfliesOf (root (q + 1)) (2 ^ m) (2 ^ q) data data') :
    Blocks root y m (q + 1) data' := by
  intro b hb k hk
  have htwo : (2 : ℕ) ^ (q + 1) = 2 * 2 ^ q := pow_succ' 2 q
  -- the first of the two blocks has the entries with even numbers, the second the others
  have heven (j : ℕ) : j * 2 ^ (m + 1) + rev (m + 1) (2 * b) = 2 * j * 2 ^ m + rev m b := by
    rw [BitReversal.rev_two_mul, pow_succ]
    ring
  have hodd (j : ℕ) :
      j * 2 ^ (m + 1) + rev (m + 1) (2 * b + 1) = (2 * j + 1) * 2 ^ m + rev m b := by
    rw [BitReversal.rev_two_mul_add_one, pow_succ]
    ring
  have hfirst (k : ℕ) (hk : k < 2 ^ q) : data (b * (2 * 2 ^ q) + k) =
      transform (root (q + 1) ^ 2) (fun j => y (2 * j * 2 ^ m + rev m b)) (2 ^ q) k := by
    have hblock := h (2 * b) (by rw [pow_succ]; omega) k hk
    simp only [heven] at hblock
    rw [hsq, ← hblock]
    congr 1
    ring
  have hsecond (k : ℕ) (hk : k < 2 ^ q) : data (b * (2 * 2 ^ q) + k + 2 ^ q) =
      transform (root (q + 1) ^ 2) (fun j => y ((2 * j + 1) * 2 ^ m + rev m b)) (2 ^ q) k := by
    have hblock := h (2 * b + 1) (by rw [pow_succ]; omega) k hk
    simp only [hodd] at hblock
    rw [hsq, ← hblock]
    congr 1
    ring
  rw [htwo] at hk ⊢
  obtain hlt | hge := Nat.lt_or_ge k (2 ^ q)
  · rw [transform_two_mul, (hstage b hb k hlt).1, hfirst k hlt, hsecond k hlt, mul_comm]
  · obtain ⟨i, rfl⟩ := Nat.exists_eq_add_of_le' hge
    have hi : i < 2 ^ q := by omega
    rw [transform_two_mul_add _ _ hhalf, ← Nat.add_assoc, (hstage b hb i hi).2, hfirst i hi,
      hsecond i hi, mul_comm]

/-- **After the last stage there is one block.** -/
theorem Blocks.whole (h : Blocks root y 0 q data) {k : ℕ} (hk : k < 2 ^ q) :
    data k = transform (root q) y (2 ^ q) k := by
  have hblock := h 0 (by simp) k hk
  simpa [BitReversal.rev] using hblock

end Stages

/-! ### Real input -/

section Packing

variable {R : Type*} [CommRing R] [StarRing R] {w i : R} {x : ℕ → R} {h k : ℕ}

/-- The entries with even numbers are the real parts, the others the imaginary ones. -/
def packed (i : R) (x : ℕ → R) (k : ℕ) : R := x (2 * k) + i * x (2 * k + 1)

omit [StarRing R] in
theorem transform_packed : transform w (packed i x) h k =
    transform w (fun j => x (2 * j)) h k + i * transform w (fun j => x (2 * j + 1)) h k := by
  rw [transform, transform, transform, Finset.mul_sum, ← Finset.sum_add_distrib]
  refine Finset.sum_congr rfl fun j _ => ?_
  rw [packed]
  ring

/-- The transform of a real sequence at the negative frequency is conjugate. -/
theorem star_transform (hstar : star w * w = 1) (hw : w ^ h = 1) (hreal : ∀ j, star (x j) = x j)
    (hk : k ≤ h) : star (transform w x h (h - k)) = transform w x h k := by
  rw [transform, transform, star_sum]
  refine Finset.sum_congr rfl fun j _ => ?_
  have hpow : star w ^ ((h - k) * j) = w ^ (k * j) := by
    calc star w ^ ((h - k) * j)
        = star w ^ ((h - k) * j) * (w ^ h) ^ j := by rw [hw, one_pow, mul_one]
      _ = star w ^ ((h - k) * j) * (w ^ ((h - k) * j) * w ^ (k * j)) := by
          rw [← pow_mul, ← pow_add, ← Nat.add_mul, Nat.sub_add_cancel hk]
      _ = w ^ (k * j) := by rw [← mul_assoc, ← mul_pow, hstar, one_pow, one_mul]
  rw [star_mul', hreal, star_pow, hpow]

variable (hstar : star w * w = 1) (hw : w ^ h = 1) (hreal : ∀ j, star (x j) = x j) (hk : k ≤ h)
  (hi : star i = -i)

include hstar hw hreal hk hi

/-- **The transform of the entries with even numbers**, twice. -/
theorem packed_add_star :
    transform w (packed i x) h k + star (transform w (packed i x) h (h - k)) =
      2 * transform w (fun j => x (2 * j)) h k := by
  rw [transform_packed, transform_packed, star_add, star_mul', hi,
    star_transform hstar hw (fun j => hreal (2 * j)) hk,
    star_transform hstar hw (fun j => hreal (2 * j + 1)) hk]
  ring

/-- **The transform of the entries with odd numbers**, twice and turned. -/
theorem packed_sub_star :
    transform w (packed i x) h k - star (transform w (packed i x) h (h - k)) =
      2 * (i * transform w (fun j => x (2 * j + 1)) h k) := by
  rw [transform_packed, transform_packed, star_add, star_mul', hi,
    star_transform hstar hw (fun j => hreal (2 * j)) hk,
    star_transform hstar hw (fun j => hreal (2 * j + 1)) hk]
  ring

end Packing

end Fourier
