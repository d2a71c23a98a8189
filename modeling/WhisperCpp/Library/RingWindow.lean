import Mathlib.Algebra.BigOperators.Group.List.Basic
import Mathlib.Algebra.Group.Basic
import Mathlib.Data.Nat.ModEq

/-!
# The last values of a stream in a ring

A ring of `size` places keeps the last values of a stream: each new one is written behind the one
before, over the oldest one. A sum that is updated by the value that goes and the value that comes
is the sum of what the ring holds.

## Main definitions

* `HoldsLast` — the ring holds the last values
* `lastValues` — these values

## Main results

* `HoldsLast.push`, `HoldsLast.oldest` — one more value, and the one that it replaces
* `sum_lastValues_append` — the sum is updated
-/

namespace RingWindow

variable {α : Type*} {size : ℕ} {ring : ℕ → α} {xs : List α} {a : α}

/-- Each of the last `size` values is at its index modulo the size. -/
def HoldsLast (size : ℕ) (ring : ℕ → α) (xs : List α) : Prop :=
  ∀ (j : ℕ) (h : j < xs.length), xs.length ≤ j + size → ring (j % size) = xs[j]

/-- The last `size` values of a stream. -/
def lastValues (size : ℕ) (xs : List α) : List α := xs.drop (xs.length - size)

/-- The place behind another one. -/
theorem succ_mod (hsize : 0 < size) (n : ℕ) :
    (n + 1) % size = if size ≤ n % size + 1 then 0 else n % size + 1 := by
  have hlt : n % size + 1 ≤ size := Nat.mod_lt n hsize
  rw [← Nat.mod_add_mod n size 1]
  split_ifs with hwrap
  · rw [Nat.le_antisymm hlt hwrap, Nat.mod_self]
  · exact Nat.mod_eq_of_lt (Nat.lt_of_not_le hwrap)

theorem holdsLast_nil : HoldsLast size ring [] := by
  intro j h
  cases h

/-- Two of the last values have places of their own. -/
theorem mod_ne_mod {i j : ℕ} (hij : i < j) (hsize : j < i + size) : i % size ≠ j % size := by
  intro heq
  have hdvd : size ∣ j - i := (Nat.modEq_iff_dvd' hij.le).1 heq
  have := Nat.le_of_dvd (Nat.sub_pos_of_lt hij) hdvd
  omega

/-- The next value is written behind the last one. -/
theorem HoldsLast.push (h : HoldsLast size ring xs) (a : α) :
    HoldsLast size (fun i => if i = xs.length % size then a else ring i) (xs ++ [a]) := by
  intro j hj hlast
  have hj' : j < xs.length + 1 := by simpa using hj
  have hlast' : xs.length + 1 ≤ j + size := by simpa using hlast
  simp only
  obtain hlt | rfl := Nat.lt_succ_iff_lt_or_eq.1 hj'
  · rw [if_neg (mod_ne_mod hlt (by omega)), List.getElem_append_left hlt]
    exact h j hlt (by omega)
  · rw [if_pos rfl, List.getElem_concat_length rfl]

/-- Where the next value goes the oldest one is. -/
theorem HoldsLast.oldest (h : HoldsLast size ring xs) (hsize : 0 < size)
    (hfull : size ≤ xs.length) :
    ring (xs.length % size) = xs[xs.length - size] := by
  rw [← h (xs.length - size) (by omega) (by omega), Nat.mod_eq_sub_mod hfull]

theorem lastValues_append_of_lt (hfull : xs.length < size) :
    lastValues size (xs ++ [a]) = lastValues size xs ++ [a] := by
  rw [lastValues, lastValues, List.length_append, List.length_singleton,
    Nat.sub_eq_zero_of_le hfull, Nat.sub_eq_zero_of_le hfull.le, List.drop_zero, List.drop_zero]

theorem lastValues_eq_cons (hsize : 0 < size) (hfull : size ≤ xs.length) :
    lastValues size xs = xs[xs.length - size] :: xs.drop (xs.length - size + 1) :=
  List.drop_eq_getElem_cons _

theorem lastValues_append_of_le (hsize : 0 < size) (hfull : size ≤ xs.length) :
    lastValues size (xs ++ [a]) = xs.drop (xs.length - size + 1) ++ [a] := by
  rw [lastValues, List.length_append, List.length_singleton, Nat.sub_add_comm hfull,
    List.drop_append_of_le_length (by omega)]

section Sum

variable {G : Type*} [AddCommGroup G] {xs : List G} {a : G}

/-- The value that comes is added while the ring fills. -/
theorem sum_lastValues_append_of_lt (hfull : xs.length < size) :
    (lastValues size (xs ++ [a])).sum = (lastValues size xs).sum + a := by
  rw [lastValues_append_of_lt hfull, List.sum_append, List.sum_singleton]

/-- **The sum is updated**: the oldest value goes, the new one comes. -/
theorem sum_lastValues_append (hsize : 0 < size) (hfull : size ≤ xs.length) :
    (lastValues size (xs ++ [a])).sum =
      (lastValues size xs).sum - xs[xs.length - size] + a := by
  rw [lastValues_append_of_le hsize hfull, lastValues_eq_cons hsize hfull, List.sum_append,
    List.sum_singleton, List.sum_cons, add_sub_cancel_left]

end Sum

end RingWindow
