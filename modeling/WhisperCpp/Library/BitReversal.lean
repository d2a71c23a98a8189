import Mathlib.Data.Nat.Bitwise
import Mathlib.Logic.Function.Basic
import Mathlib.Tactic.Ring

/-!
# Bit reversal

The bits of a number in reverse, and the loop that puts the entries of a memory into the order of an
involution by exchanging each pair once.

## Main definitions

* `rev` — the number with the reversed bits
* `exchange` — two entries change places
* `exchanged` — the entries in front of a bound have changed places with their partners

## Main results

* `rev_rev` — reversing twice
* `exchange_exchanged` — one more pair is exchanged
-/

namespace BitReversal

/-- The number whose `p` bits are those of `i` in reverse. -/
def rev : ℕ → ℕ → ℕ
  | 0, _ => 0
  | p + 1, i => 2 ^ p * (i % 2) + rev p (i / 2)

theorem rev_succ (p i : ℕ) : rev (p + 1) i = 2 ^ p * (i % 2) + rev p (i / 2) := rfl

@[simp] theorem rev_zero_right (p : ℕ) : rev p 0 = 0 := by
  induction p with
  | zero => rfl
  | succ p ih => simpa [rev_succ] using ih

theorem rev_two_mul (p b : ℕ) : rev (p + 1) (2 * b) = rev p b := by
  simp [rev_succ]

theorem rev_two_mul_add_one (p b : ℕ) : rev (p + 1) (2 * b + 1) = 2 ^ p + rev p b := by
  rw [rev_succ, show (2 * b + 1) % 2 = 1 by omega, show (2 * b + 1) / 2 = b by omega, Nat.mul_one]

theorem rev_lt (p i : ℕ) : rev p i < 2 ^ p := by
  induction p generalizing i with
  | zero => simp [rev]
  | succ p ih =>
    rw [rev_succ, pow_succ]
    obtain h | h := Nat.mod_two_eq_zero_or_one i
    · have hlt := ih (i / 2)
      simp [h]
      omega
    · have hlt := ih (i / 2)
      simp [h]
      omega

/-- The highest bit becomes the lowest. -/
theorem rev_two_pow_mul_add {p e i : ℕ} (he : e < 2) (hi : i < 2 ^ p) :
    rev (p + 1) (2 ^ p * e + i) = 2 * rev p i + e := by
  induction p generalizing i with
  | zero =>
    obtain rfl : i = 0 := by simpa using hi
    simp [rev, Nat.mod_eq_of_lt he]
  | succ p ih =>
    have hhalf : (2 ^ (p + 1) * e + i) / 2 = 2 ^ p * e + i / 2 := by
      rw [pow_succ', Nat.mul_assoc]
      omega
    have hmod : (2 ^ (p + 1) * e + i) % 2 = i % 2 := by
      rw [pow_succ', Nat.mul_assoc]
      omega
    rw [rev_succ, hhalf, hmod, ih (by rw [pow_succ] at hi; omega), rev_succ p i, pow_succ]
    ring

/-- **Reversing twice.** -/
theorem rev_rev {p i : ℕ} (hi : i < 2 ^ p) : rev p (rev p i) = i := by
  induction p generalizing i with
  | zero =>
    obtain rfl : i = 0 := by simpa using hi
    rfl
  | succ p ih =>
    rw [rev_succ p i, rev_two_pow_mul_add (Nat.mod_lt i two_pos) (rev_lt p _),
      ih (by rw [pow_succ] at hi; omega)]
    omega

/-! ### Exchanges -/

section Exchanges

variable {α : Type*} {data : ℕ → α} {f : ℕ → ℕ} {n t a i j : ℕ}

/-- Two entries change places. -/
def exchange (data : ℕ → α) (i j : ℕ) : ℕ → α :=
  Function.update (Function.update data i (data j)) j (data i)

theorem exchange_right : exchange data i j j = data i := by
  rw [exchange, Function.update_self]

theorem exchange_left : exchange data i j i = data j := by
  obtain rfl | hne := eq_or_ne i j
  · rw [exchange_right]
  · rw [exchange, Function.update_of_ne hne, Function.update_self]

theorem exchange_of_ne (hi : a ≠ i) (hj : a ≠ j) : exchange data i j a = data a := by
  rw [exchange, Function.update_of_ne hj, Function.update_of_ne hi]

/-- Of the entries in front of `n`, those that are up to `t`, or whose partner is, have changed
places with their partner. -/
def exchanged (f : ℕ → ℕ) (n t : ℕ) (data : ℕ → α) (a : ℕ) : α :=
  if a < n ∧ min a (f a) ≤ t then data (f a) else data a

theorem exchanged_of_le (ha : a < n) (hle : min a (f a) ≤ t) :
    exchanged f n t data a = data (f a) := if_pos ⟨ha, hle⟩

theorem exchanged_of_lt (hlt : t < min a (f a)) : exchanged f n t data a = data a :=
  if_neg fun h => absurd h.2 (not_le.2 hlt)

/-- At the end everything has its place. -/
theorem exchanged_eq (ht : n ≤ t + 1) (ha : a < n) : exchanged f n t data a = data (f a) :=
  exchanged_of_le ha ((min_le_left _ _).trans (by omega))

/-- Only the first entry is up to zero. -/
theorem exchanged_zero (hzero : f 0 = 0) (hinv : ∀ a < n, f (f a) = a) :
    exchanged f n 0 data = data := by
  funext a
  rw [exchanged]
  split_ifs with h
  · obtain ⟨ha, hmin⟩ := h
    have hfix : f a = a := by
      obtain rfl | hpos := Nat.eq_zero_or_pos a
      · exact hzero
      · have hpartner : f a = 0 := by omega
        rw [← hinv a ha, hpartner, hzero, hzero]
    rw [hfix]
  · rfl

/-- **One more pair is exchanged**, unless it has been already. -/
theorem exchange_exchanged (hinv : ∀ a < n, f (f a) = a) (hlt : ∀ a < n, f a < n)
    (ht : t + 1 < n) :
    (if t + 1 < f (t + 1) then exchange (exchanged f n t data) (t + 1) (f (t + 1))
      else exchanged f n t data) = exchanged f n (t + 1) data := by
  have hback := hinv (t + 1) ht
  -- what is neither of the two has been exchanged after this pass iff it was before
  have hother (a : ℕ) (ha : a ≠ t + 1) (ha' : a ≠ f (t + 1)) :
      exchanged f n t data a = exchanged f n (t + 1) data a := by
    have hiff : a < n ∧ min a (f a) ≤ t ↔ a < n ∧ min a (f a) ≤ t + 1 := by
      refine and_congr_right fun hn => ?_
      have hne : f a ≠ t + 1 := by
        intro heq
        exact ha' (by rw [← heq, hinv a hn])
      omega
    simp only [exchanged, hiff]
  funext a
  split_ifs with hlt'
  · obtain rfl | hne := eq_or_ne a (t + 1)
    · rw [exchange_left, exchanged_of_lt (by omega), exchanged_of_le ht (by omega)]
    · obtain rfl | hne' := eq_or_ne a (f (t + 1))
      · rw [exchange_right, exchanged_of_lt (by omega), exchanged_of_le (hlt _ ht) (by omega), hback]
      · rw [exchange_of_ne hne hne', hother a hne hne']
  · obtain rfl | hne := eq_or_ne a (t + 1)
    · rw [exchanged_of_le (t := t + 1) ht (min_le_left _ _)]
      obtain heq | hlow := (not_lt.1 hlt').eq_or_lt
      · rw [exchanged_of_lt (by omega), heq]
      · exact exchanged_of_le ht (by omega)
    · obtain rfl | hne' := eq_or_ne a (f (t + 1))
      · rw [exchanged_of_le (hlt _ ht) (by omega), exchanged_of_le (hlt _ ht) (by omega)]
      · exact hother a hne hne'

end Exchanges

end BitReversal
