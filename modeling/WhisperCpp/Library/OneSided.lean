import Mathlib.Analysis.SpecialFunctions.Trigonometric.Basic
import WhisperCpp.Library.Literals

/-!
# One-sided spectra

The spectrum of a real signal of even length is determined by half of it. The transform back counts
every frequency twice, but for the first and the last one.

## Main definitions

* `OneSided.angle` — the angles of the transform
* `OneSided.weightRe`, `OneSided.weightIm` — how often a frequency counts

## Main results

* `sum_cos_angle` — the frequencies cancel
* `sum_weightRe` — the half for the whole
* `sum_weight_mul` — the transform and back
-/

namespace OneSided

open Finset Real

attribute [local instance] Literals.atLeastTwo_two

/-- The angle of sample `n` at frequency `f`. -/
noncomputable def angle (N f n : ℕ) : ℝ := 2 * π * f * n / N

/-- How often the cosine of a frequency counts. -/
def weightRe (h f : ℕ) : ℝ := if f = 0 ∨ f = h then 1 else 2

/-- How often the sine of a frequency counts. -/
def weightIm (h f : ℕ) : ℝ := if f = 0 ∨ f = h then 0 else 2

/-- A sum of cosines, telescoped. -/
theorem two_sin_mul_sum_cos (θ : ℝ) (n : ℕ) :
    2 * sin (θ / 2) * ∑ f ∈ range n, cos (f * θ) = sin ((n - 1 / 2) * θ) + sin (θ / 2) := by
  induction n with
  | zero =>
    have hneg : ((0 : ℕ) - 1 / 2 : ℝ) * θ = -(θ / 2) := by
      push_cast
      ring
    rw [hneg, sin_neg]
    simp
  | succ n ih =>
    have hhigh : ((n + 1 : ℕ) - 1 / 2 : ℝ) * θ = n * θ + θ / 2 := by
      push_cast
      ring
    have hlow : ((n : ℝ) - 1 / 2) * θ = n * θ - θ / 2 := by ring
    rw [sum_range_succ, mul_add, ih, hhigh, hlow, sin_add, sin_sub]
    ring

/-- **The frequencies cancel** at a distance below the length. -/
theorem sum_cos_angle {N m : ℕ} (h0 : 0 < m) (hm : m < N) : ∑ f ∈ range N, cos (angle N f m) = 0 := by
  have hN : (0 : ℝ) < N := by exact_mod_cast h0.trans hm
  set θ : ℝ := 2 * π * m / N with hθ
  have hsin : 0 < sin (θ / 2) := by
    have hhalf : θ / 2 = π * (m / N) := by
      rw [hθ]
      ring
    have hlt : (m : ℝ) / N < 1 := by
      rw [div_lt_one hN]
      exact_mod_cast hm
    have hpos : (0 : ℝ) < m / N := div_pos (by exact_mod_cast h0) hN
    rw [hhalf]
    refine sin_pos_of_pos_of_lt_pi (mul_pos pi_pos hpos) ?_
    calc π * (m / N) < π * 1 := mul_lt_mul_of_pos_left hlt pi_pos
      _ = π := mul_one π
  have htele := two_sin_mul_sum_cos θ N
  have hend : ((N : ℝ) - 1 / 2) * θ = m * (2 * π) - θ / 2 := by
    rw [hθ]
    field_simp
  rw [hend, sin_nat_mul_two_pi_sub, neg_add_cancel] at htele
  have hsum := (mul_eq_zero.mp htele).resolve_left (by positivity)
  rw [← hsum]
  refine sum_congr rfl fun f _ => congrArg cos ?_
  rw [angle, hθ]
  ring

/-- **The half for the whole**: a sum over all frequencies whose second half mirrors the first. -/
theorem sum_weightRe {h : ℕ} (hh : 0 < h) {c : ℕ → ℝ} (hc : ∀ f, 0 < f → f < h → c (2 * h - f) = c f) :
    ∑ f ∈ range (h + 1), weightRe h f * c f = ∑ f ∈ range (2 * h), c f := by
  cases h with
  | zero => exact absurd hh (Nat.lt_irrefl 0)
  | succ k =>
    have hmirror : ∑ j ∈ range k, c (k + 2 + j) = ∑ j ∈ range k, c (j + 1) := by
      rw [← sum_range_reflect]
      refine sum_congr rfl fun j hj => ?_
      have hj := mem_range.mp hj
      have hindex : k + 2 + (k - 1 - j) = 2 * (k + 1) - (j + 1) := by omega
      rw [hindex, hc (j + 1) (by omega) (by omega)]
    have hinner : ∑ j ∈ range k, weightRe (k + 1) (j + 1) * c (j + 1) =
        2 * ∑ j ∈ range k, c (j + 1) := by
      rw [mul_sum]
      refine sum_congr rfl fun j hj => ?_
      have hj := mem_range.mp hj
      rw [weightRe, if_neg (by omega)]
    have hlen : 2 * (k + 1) = k + 1 + 1 + k := by ring
    have hhalf : ∑ f ∈ range (k + 1 + 1), c f = ∑ j ∈ range k, c (j + 1) + c 0 + c (k + 1) := by
      rw [sum_range_succ, sum_range_succ']
    rw [hlen, sum_range_add _ (k + 1 + 1), hmirror, hhalf, sum_range_succ, sum_range_succ', hinner]
    simp only [weightRe, true_or, or_true, if_true]
    ring

/-- The sines of the first and the last frequency vanish. -/
theorem weightIm_mul_sin (h f n : ℕ) :
    weightIm h f * sin (angle (2 * h) f n) = weightRe h f * sin (angle (2 * h) f n) := by
  rw [weightIm, weightRe]
  split_ifs with hend
  · rcases hend with rfl | rfl
    · simp [angle]
    · by_cases hf : f = 0
      · simp [angle, hf]
      · have hpi : angle (2 * f) f n = n * π := by
          have hne : (f : ℝ) ≠ 0 := by exact_mod_cast hf
          rw [angle]
          push_cast
          field_simp
        rw [hpi, sin_nat_mul_pi, mul_zero, mul_zero]
  · rfl

theorem angle_mirror {h f d : ℕ} (hf : f < h) :
    cos (angle (2 * h) (2 * h - f) d) = cos (angle (2 * h) f d) := by
  have hne : (h : ℝ) ≠ 0 := by
    have : h ≠ 0 := by omega
    exact_mod_cast this
  have hangle : angle (2 * h) (2 * h - f) d = d * (2 * π) - angle (2 * h) f d := by
    rw [angle, angle, Nat.cast_sub (by omega)]
    push_cast
    field_simp
  rw [hangle, cos_nat_mul_two_pi_sub]

/-- **The transform and back**, for one sample of the signal and one of the result. -/
theorem sum_weight_mul {h n m : ℕ} (hn : n < 2 * h) (hm : m < 2 * h) :
    ∑ f ∈ range (h + 1),
      (weightRe h f * (cos (angle (2 * h) f n) * cos (angle (2 * h) f m)) +
        weightIm h f * (sin (angle (2 * h) f n) * sin (angle (2 * h) f m))) =
      if n = m then ((2 * h : ℕ) : ℝ) else 0 := by
  have hh : 0 < h := by omega
  -- only the distance of the two samples matters
  obtain ⟨d, hd, hdist⟩ : ∃ d : ℕ, (d < 2 * h ∧ (d = 0 ↔ n = m)) ∧
      ∀ f, cos (angle (2 * h) f n - angle (2 * h) f m) = cos (angle (2 * h) f d) := by
    have hsub : ∀ {n m : ℕ}, m ≤ n → ∀ f,
        angle (2 * h) f n - angle (2 * h) f m = angle (2 * h) f (n - m) := by
      intro n m hle f
      rw [angle, angle, angle, Nat.cast_sub hle]
      ring
    rcases le_total m n with hle | hle
    · exact ⟨n - m, by omega, fun f => by rw [hsub hle]⟩
    · refine ⟨m - n, by omega, fun f => ?_⟩
      rw [← cos_neg, neg_sub, hsub hle]
  have hterm : ∀ f, weightRe h f * (cos (angle (2 * h) f n) * cos (angle (2 * h) f m)) +
      weightIm h f * (sin (angle (2 * h) f n) * sin (angle (2 * h) f m)) =
      weightRe h f * cos (angle (2 * h) f d) := by
    intro f
    rw [← hdist, cos_sub, ← mul_assoc (weightIm h f), weightIm_mul_sin]
    ring
  simp only [hterm]
  rw [sum_weightRe hh fun f _ hf => angle_mirror hf]
  split_ifs with heq
  · obtain rfl := hd.2.mpr heq
    simp [angle]
  · exact sum_cos_angle (Nat.pos_of_ne_zero fun h0 => heq (hd.2.mp h0)) hd.1

end OneSided
