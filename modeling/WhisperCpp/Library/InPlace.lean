import Mathlib.Data.Fin.Basic
import Mathlib.Logic.Function.Basic

/-!
# A recurrence in a ring of cells

A sequence whose every term is made of the term `N` back and of later ones can be kept in `N` cells,
where each new term overwrites the one that it is made of. On the way the cells in front hold new
terms and the others old ones, so that what is read behind the end has to be new already.

## Main definitions

* `Follows` — the recurrence
* `Holds` — the cells some steps into a block

## Main results

* `Holds.update` — one step
* `Holds.wrap` — the end of a block
-/

namespace InPlace

variable {α : Type*} {N M : ℕ} {g : α → α → α → α} {x : ℕ → α} {mt : Fin N → α} {b k : ℕ}

/-- Every term is made of the one `M` behind the one that it takes the place of, of that one and of its
successor. -/
def Follows (N M : ℕ) (g : α → α → α → α) (x : ℕ → α) : Prop :=
  ∀ k, x (k + N) = g (x (k + M)) (x k) (x (k + 1))

/-- The first `k` cells are those of the next block. -/
def Holds (x : ℕ → α) (b k : ℕ) (mt : Fin N → α) : Prop :=
  ∀ i : Fin N, mt i = if i < k then x (b + N + i) else x (b + i)

theorem Holds.wrap (h : Holds x b N mt) : Holds x (b + N) 0 mt := by
  intro i
  rw [h i, if_pos i.isLt, if_neg (Nat.not_lt_zero i)]

/-- **A cell that has been reached** is new, and the others are old, read around the end. -/
theorem Holds.read (h : Holds x b k mt) {i : Fin N} {j : ℕ} (hk : k < N) (hj : k ≤ j)
    (hjk : j < k + N) (hi : i.val = j % N) : mt i = x (b + j) := by
  rw [h i]
  by_cases hlt : j < N
  · rw [Nat.mod_eq_of_lt hlt] at hi
    rw [if_neg (by omega), hi]
  · have hmod : j % N = j - N := by
      rw [Nat.mod_eq_sub_mod (by omega), Nat.mod_eq_of_lt (by omega)]
    rw [if_pos (by omega)]
    congr 1
    omega

/-- **One step.** -/
theorem Holds.update (hx : Follows N M g x) (hM : M < N) (hN : 1 < N) (h : Holds x b k mt)
    {cur next far : Fin N} (hcur : cur.val = k) (hnext : next.val = (k + 1) % N)
    (hfar : far.val = (k + M) % N) :
    Holds x b (k + 1) (Function.update mt cur (g (mt far) (mt cur) (mt next))) := by
  have hk : k < N := hcur ▸ cur.isLt
  have hcell : g (mt far) (mt cur) (mt next) = x (b + N + k) := by
    rw [h.read hk (show k ≤ k + M by omega) (by omega) hfar,
      h.read hk le_rfl (by omega) (by rw [hcur, Nat.mod_eq_of_lt hk]),
      h.read hk (Nat.le_succ k) (by omega) hnext]
    have hrec := hx (b + k)
    rw [show b + k + N = b + N + k by omega, Nat.add_assoc b k M] at hrec
    exact hrec.symm
  intro i
  by_cases hi : i = cur
  · rw [hi, Function.update_self, if_pos (by omega), hcell, hcur]
  · have hne : i.val ≠ k := fun heq => hi (Fin.ext (heq.trans hcur.symm))
    rw [Function.update_of_ne hi, h i]
    by_cases hlt : i.val < k
    · rw [if_pos hlt, if_pos (by omega)]
    · rw [if_neg hlt, if_neg (by omega)]

end InPlace
