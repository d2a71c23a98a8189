import Mathlib.Algebra.Order.Floor.Ring
import Mathlib.Data.Int.Log
import Mathlib.Data.Rat.Floor
import Mathlib.Tactic.FieldSimp
import Mathlib.Tactic.GCongr
import Mathlib.Tactic.Linarith
import Mathlib.Tactic.Positivity

/-!
# Rounding to a fixed number of binary digits

What a floating-point operation returns, as long as it neither overflows nor underflows: the exact
result, rounded to the nearest number of `p` significant binary digits, ties to even.

## Main definitions

* `Rounding.nearestEven` — the nearest integer
* `Rounding.fl p` — the nearest number with `p` significant digits
* `Rounding.float32` — the nearest single-precision number
* `Rounding.trunc` — the conversion to an integer type, towards zero
* `Rounding.roundAway` — the nearest integer, ties away from zero

## Main results

* `Rounding.abs_fl_sub_le` — the relative error of one operation
* `Rounding.fl_intCast` — integers with at most `p` digits are exact
* `Rounding.le_fl` — what is on the grid is not rounded past
-/

namespace Rounding

/-- The nearest integer, ties to even. -/
def nearestEven (x : ℚ) : ℤ :=
  if Int.fract x < 1 / 2 ∨ Int.fract x = 1 / 2 ∧ ⌊x⌋ % 2 = 0 then ⌊x⌋ else ⌊x⌋ + 1

/-- The distance between the numbers with `p` digits around `x`. -/
def ulp (p : ℕ) (x : ℚ) : ℚ := 2 ^ (Int.log 2 |x| + 1 - p)

/-- The nearest number with `p` significant digits, ties to even. -/
def fl (p : ℕ) (x : ℚ) : ℚ := nearestEven (x / ulp p x) * ulp p x

/-- What an operation on single-precision numbers returns: there are 24 digits, but none below
`2 ^ (-149)`. It returns nothing where it overflows. -/
def float32 (x : ℚ) : Option ℚ :=
  let unit := max (ulp 24 x) (2 ^ (-149 : ℤ))
  let y := nearestEven (x / unit) * unit
  if |y| < 2 ^ 128 then some y else none

/-- Rounding towards zero. -/
def trunc (x : ℚ) : ℤ := if 0 ≤ x then ⌊x⌋ else ⌈x⌉

/-- The nearest integer, ties away from zero. -/
def roundAway (x : ℚ) : ℤ := if 0 ≤ x then ⌊x + 1 / 2⌋ else ⌈x - 1 / 2⌉

theorem abs_nearestEven_sub_le (x : ℚ) : |(nearestEven x : ℚ) - x| ≤ 1 / 2 := by
  have hsplit : x = ⌊x⌋ + Int.fract x := (Int.floor_add_fract x).symm
  have h0 := Int.fract_nonneg x
  have h1 := Int.fract_lt_one x
  unfold nearestEven
  split
  · rename_i hlow
    have hle : Int.fract x ≤ 1 / 2 := by
      rcases hlow with hlt | ⟨heq, -⟩
      · exact hlt.le
      · exact heq.le
    rw [abs_le]
    constructor <;> linarith
  · rename_i hhigh
    push Not at hhigh
    have hle := hhigh.1
    push_cast
    rw [abs_le]
    constructor <;> linarith

theorem ulp_pos (p : ℕ) (x : ℚ) : 0 < ulp p x := zpow_pos (by norm_num) _

/-- Half the distance to the neighbours, relative to the number itself. -/
theorem ulp_le (p : ℕ) {x : ℚ} (hx : x ≠ 0) : ulp p x / 2 ≤ |x| / 2 ^ p := by
  have hlog : (2 : ℚ) ^ Int.log 2 |x| ≤ |x| := by
    exact_mod_cast Int.zpow_log_le_self Nat.one_lt_two (abs_pos.mpr hx)
  have hulp : ulp p x / 2 = (2 : ℚ) ^ Int.log 2 |x| / 2 ^ p := by
    rw [ulp, zpow_sub₀ (by norm_num), zpow_add₀ (by norm_num), zpow_one, zpow_natCast]
    field_simp
  rw [hulp]
  gcongr

/-- **The relative error of a rounded operation.** -/
theorem abs_fl_sub_le (p : ℕ) (x : ℚ) : |fl p x - x| ≤ |x| / 2 ^ p := by
  by_cases hx : x = 0
  · subst hx
    simp [fl, nearestEven]
  have hpos := ulp_pos p x
  have hscale : fl p x - x = (nearestEven (x / ulp p x) - x / ulp p x) * ulp p x := by
    rw [fl, sub_mul, div_mul_cancel₀ _ hpos.ne']
  calc |fl p x - x| = |(nearestEven (x / ulp p x) : ℚ) - x / ulp p x| * ulp p x := by
        rw [hscale, abs_mul, abs_of_pos hpos]
    _ ≤ 1 / 2 * ulp p x := by
        gcongr
        exact abs_nearestEven_sub_le _
    _ = ulp p x / 2 := by ring
    _ ≤ |x| / 2 ^ p := ulp_le p hx

theorem fl_nonneg (p : ℕ) {x : ℚ} (hx : 0 ≤ x) : 0 ≤ fl p x := by
  have herr := (abs_le.mp (abs_fl_sub_le p x)).1
  have hle : |x| / 2 ^ p ≤ x := by
    rw [abs_of_nonneg hx]
    exact div_le_self hx (one_le_pow₀ (by norm_num))
  linarith

@[simp] theorem nearestEven_intCast (m : ℤ) : nearestEven m = m := by
  simp [nearestEven]

/-- **Integers with at most `p` digits are exact.** -/
theorem fl_intCast {p : ℕ} {m : ℤ} (h : |m| < 2 ^ p) : fl p m = m := by
  by_cases hm : m = 0
  · simp [hm, fl, nearestEven]
  have hpos : (0 : ℚ) < |(m : ℚ)| := abs_pos.mpr (Int.cast_ne_zero.mpr hm)
  have hlog : Int.log 2 |(m : ℚ)| < p := by
    rw [← Int.lt_zpow_iff_log_lt Nat.one_lt_two hpos]
    exact_mod_cast h
  obtain ⟨e, he⟩ : ∃ e : ℕ, Int.log 2 |(m : ℚ)| + 1 - p = -(e : ℤ) :=
    ⟨(p - 1 - Int.log 2 |(m : ℚ)|).toNat, by omega⟩
  have hscale : (m : ℚ) / ulp p m = (m * 2 ^ e : ℤ) := by
    rw [ulp, he, zpow_neg, div_inv_eq_mul, zpow_natCast]
    push_cast
    rfl
  rw [fl, hscale, nearestEven_intCast, ← hscale, div_mul_cancel₀ _ (ulp_pos p _).ne']

theorem le_nearestEven {m : ℤ} {x : ℚ} (h : (m : ℚ) ≤ x) : m ≤ nearestEven x := by
  have hfloor := Int.le_floor.mpr h
  unfold nearestEven
  split_ifs <;> omega

/-- **What is on the grid is not rounded past.** -/
theorem le_fl {p : ℕ} {x y : ℚ} {m : ℤ} (hy : y = m * ulp p x) (hle : y ≤ x) : y ≤ fl p x := by
  have hpos := ulp_pos p x
  have hm : (m : ℚ) ≤ x / ulp p x := by rwa [le_div_iff₀ hpos, ← hy]
  have hround : (m : ℚ) ≤ nearestEven (x / ulp p x) := by exact_mod_cast le_nearestEven hm
  rw [hy, fl]
  gcongr

/-- The grid of a number below `2 ^ p` has all integers, and below half of it all halves, and so on. -/
theorem exists_eq_mul_ulp {p k : ℕ} {x : ℚ} (hx : x ≠ 0) (h : |x| < 2 ^ (p - k : ℤ)) (n : ℤ) :
    ∃ m : ℤ, (n : ℚ) / 2 ^ k = m * ulp p x := by
  have hlog : Int.log 2 |x| < p - k := by
    rw [← Int.lt_zpow_iff_log_lt Nat.one_lt_two (abs_pos.mpr hx)]
    exact_mod_cast h
  obtain ⟨e, he⟩ : ∃ e : ℕ, Int.log 2 |x| + 1 - p = -((k + e : ℕ) : ℤ) :=
    ⟨(p - k - 1 - Int.log 2 |x|).toNat, by omega⟩
  refine ⟨n * 2 ^ e, ?_⟩
  rw [ulp, he, zpow_neg, zpow_natCast, pow_add]
  push_cast
  field_simp

theorem trunc_nonneg {x : ℚ} (hx : 0 ≤ x) : 0 ≤ trunc x := by
  rw [trunc, if_pos hx]
  exact Int.floor_nonneg.mpr hx

end Rounding
