import WhisperCpp.Ggml.Values
import WhisperCpp.Library.Literals
import WhisperCpp.Library.OneSided

/-!
# The transforms of the vocoder

HiFT takes the spectra of frames of 16 samples, 4 samples apart, and turns spectra back into a signal:
a transposed convolution adds up the frames, and the sum of the squared windows divides them. Arithmetic is
exact, over the reals.

## Main definitions

* `buildHannWindow`, `buildStftKernel`, `buildIstftKernel`, `buildWindowSum` — the tables
* `stft` — the convolution of `run_stft`
* `istft` — the end of `run_hift_decode`
* `Reconstructs` — what is promised of both

## Main results

* `synthesis_frame` — a frame comes back, with its window squared
* `windowSum_pos` — every kept sample is in a frame
* `reconstructs` — the signal comes back
-/

namespace WhisperCpp

namespace Chatterbox

namespace Hift

open Compute Compute.Tensor OneSided

attribute [local instance] Literals.atLeastTwo_two

/-! ### The code -/

/-- `build_hann_window`. -/
noncomputable def buildHannWindow (n : ℕ) (periodic : Bool) : ℕ → ℝ := fun i =>
  0.5 * (1 - Real.cos (2 * Real.pi * i / (if periodic then (n : ℝ) else (n : ℝ) - 1)))

/-- `build_stft_kernel`: the cosines, and behind them the sines. -/
noncomputable def buildStftKernel (nFft : ℕ) (window : ℕ → ℝ) : ℕ → ℝ := fun a =>
  let F := nFft / 2 + 1
  let n := a % nFft
  let w := window n
  if a / nFft < F then
    let f := a / nFft
    Real.cos (2 * Real.pi * f * n / nFft) * w
  else
    let f := a / nFft - F;
    -Real.sin (2 * Real.pi * f * n / nFft) * w

/-- `build_istft_kernel`. -/
noncomputable def buildIstftKernel (nFft : ℕ) (window : ℕ → ℝ) : ℕ → ℝ := fun a =>
  let F := nFft / 2 + 1
  let invN := 1 / (nFft : ℝ)
  let n := a % nFft
  let w := window n
  if a / nFft < F then
    let f := a / nFft
    let coefRe : ℝ := if f = 0 ∨ f = nFft / 2 then 1 else 2
    coefRe * Real.cos (2 * Real.pi * f * n / nFft) * w * invN
  else
    let f := a / nFft - F
    let coefIm : ℝ := if f = 0 ∨ f = nFft / 2 then 0 else 2;
    -coefIm * Real.sin (2 * Real.pi * f * n / nFft) * w * invN

/-- `build_window_sum`. -/
noncomputable def buildWindowSum (tStft nFft hop : ℕ) (window : ℕ → ℝ) : ℕ → ℝ :=
  OverlapAdd.overlapAdd tStft hop nFft fun _ n => window n * window n

/-- The window of `n_fft = 16` samples. -/
noncomputable def hann : ℕ → ℝ := buildHannWindow 16 true

/-- `run_stft`, from the padded signal on. -/
noncomputable def stft (sPad : Tensor ℝ) : Option (Tensor ℝ) :=
  conv1dF32 (source 16 1 18 1 (buildStftKernel 16 hann)) sPad 4 0 1

/-- The ISTFT of `run_hift_decode`, up to the view that trims it. -/
noncomputable def istft (spec : Tensor ℝ) (tStft : ℕ) : Option (Tensor ℝ) := do
  let wsSize := (tStft - 1) * 4 + 16
  let y ← convTranspose1d (source 16 1 18 1 (buildIstftKernel 16 hann)) spec 4
  let y ← y.div (source wsSize 1 1 1 (buildWindowSum tStft 16 4 hann))
  return y.view2d (wsSize - 16) y.ne1 y.nb1 (8 * y.nb0)

/-- What is divided by is positive at every sample that is kept, and the synthesis of the analysis has
the padded signal there. -/
structure Reconstructs (tStft n : ℕ) (s : ℕ → ℝ) : Prop where
  positive : ∀ j < (tStft - 1) * 4, 0 < buildWindowSum tStft 16 4 hann (8 + j)
  signal : ∃ spec y, stft (source n 1 1 1 s) = some spec ∧ spec.ne0 = tStft ∧
    istft spec tStft = some y ∧ y.ne0 = (tStft - 1) * 4 ∧
      ∀ j < (tStft - 1) * 4, y.get j 0 0 0 = s (8 + j)

/-! ### One frame -/

section Frame

variable {n m : ℕ}

theorem buildStftKernel_re {f : ℕ} (hf : f < 9) (hn : n < 16) (window : ℕ → ℝ) :
    buildStftKernel 16 window (n + 16 * f) = Real.cos (angle 16 f n) * window n := by
  have hmod : (n + 16 * f) % 16 = n := by omega
  have hdiv : (n + 16 * f) / 16 = f := by omega
  simp only [buildStftKernel, hmod, hdiv, angle]
  rw [if_pos hf, Nat.cast_ofNat]

theorem buildStftKernel_im {f : ℕ} (hn : n < 16) (window : ℕ → ℝ) :
    buildStftKernel 16 window (n + 16 * (9 + f)) = -Real.sin (angle 16 f n) * window n := by
  have hmod : (n + 16 * (9 + f)) % 16 = n := by omega
  have hdiv : (n + 16 * (9 + f)) / 16 = 9 + f := by omega
  simp only [buildStftKernel, hmod, hdiv, angle]
  rw [if_neg (by omega), Nat.add_sub_cancel_left, Nat.cast_ofNat]

theorem buildIstftKernel_re {f : ℕ} (hf : f < 9) (hn : n < 16) (window : ℕ → ℝ) :
    buildIstftKernel 16 window (n + 16 * f) =
      weightRe 8 f * Real.cos (angle 16 f n) * window n * (1 / 16) := by
  have hmod : (n + 16 * f) % 16 = n := by omega
  have hdiv : (n + 16 * f) / 16 = f := by omega
  simp only [buildIstftKernel, hmod, hdiv, angle, weightRe]
  rw [if_pos hf]
  norm_num

theorem buildIstftKernel_im {f : ℕ} (hn : n < 16) (window : ℕ → ℝ) :
    buildIstftKernel 16 window (n + 16 * (9 + f)) =
      -weightIm 8 f * Real.sin (angle 16 f n) * window n * (1 / 16) := by
  have hmod : (n + 16 * (9 + f)) % 16 = n := by omega
  have hdiv : (n + 16 * (9 + f)) / 16 = 9 + f := by omega
  simp only [buildIstftKernel, hmod, hdiv, angle, weightIm]
  rw [if_neg (by omega), Nat.add_sub_cancel_left]
  norm_num

/-- **A frame comes back**, with its window squared. -/
theorem synthesis_frame (x window : ℕ → ℝ) (hm : m < 16) :
    ∑ c ∈ Finset.range 18,
      (∑ i ∈ Finset.range 16, x i * buildStftKernel 16 window (i + 16 * c)) *
        buildIstftKernel 16 window (m + 16 * c) = window m * window m * x m := by
  have hpair : ∀ f < 9,
      (∑ i ∈ Finset.range 16, x i * buildStftKernel 16 window (i + 16 * f)) *
          buildIstftKernel 16 window (m + 16 * f) +
        (∑ i ∈ Finset.range 16, x i * buildStftKernel 16 window (i + 16 * (9 + f))) *
          buildIstftKernel 16 window (m + 16 * (9 + f)) =
      ∑ i ∈ Finset.range 16, x i * window i * window m * (1 / 16) *
        (weightRe 8 f * (Real.cos (angle 16 f i) * Real.cos (angle 16 f m)) +
          weightIm 8 f * (Real.sin (angle 16 f i) * Real.sin (angle 16 f m))) := by
    intro f hf
    rw [buildIstftKernel_re hf hm, buildIstftKernel_im hm, Finset.sum_mul, Finset.sum_mul,
      ← Finset.sum_add_distrib]
    refine Finset.sum_congr rfl fun i hi => ?_
    have hi := Finset.mem_range.mp hi
    rw [buildStftKernel_re hf hi, buildStftKernel_im hi]
    ring
  have hback : ∀ i ∈ Finset.range 16, ∑ f ∈ Finset.range 9,
      x i * window i * window m * (1 / 16) *
        (weightRe 8 f * (Real.cos (angle 16 f i) * Real.cos (angle 16 f m)) +
          weightIm 8 f * (Real.sin (angle 16 f i) * Real.sin (angle 16 f m))) =
      if i = m then window m * window m * x m else 0 := by
    intro i hi
    have hsum := @sum_weight_mul 8 i m (Finset.mem_range.mp hi) hm
    rw [← Finset.mul_sum, hsum]
    split_ifs with heq
    · rw [heq]
      push_cast
      ring
    · rw [mul_zero]
  calc ∑ c ∈ Finset.range (9 + 9),
      (∑ i ∈ Finset.range 16, x i * buildStftKernel 16 window (i + 16 * c)) *
        buildIstftKernel 16 window (m + 16 * c)
      = ∑ f ∈ Finset.range 9, ∑ i ∈ Finset.range 16, x i * window i * window m * (1 / 16) *
          (weightRe 8 f * (Real.cos (angle 16 f i) * Real.cos (angle 16 f m)) +
            weightIm 8 f * (Real.sin (angle 16 f i) * Real.sin (angle 16 f m))) := by
        rw [Finset.sum_range_add, ← Finset.sum_add_distrib]
        exact Finset.sum_congr rfl fun f hf => hpair f (Finset.mem_range.mp hf)
    _ = ∑ i ∈ Finset.range 16, if i = m then window m * window m * x m else 0 := by
        rw [Finset.sum_comm]
        exact Finset.sum_congr rfl hback
    _ = window m * window m * x m := by
        rw [Finset.sum_ite_eq', if_pos (Finset.mem_range.mpr hm)]

/-- Only the first sample of the window is zero. -/
theorem hann_pos {i : ℕ} (h0 : 0 < i) (h : i < 16) : 0 < hann i := by
  have hangle : 2 * Real.pi * (i : ℝ) / 16 = 2 * (Real.pi * (i / 16)) := by ring
  have hlt : (i : ℝ) / 16 < 1 := by
    rw [div_lt_one (by norm_num)]
    exact_mod_cast h
  have hpos : (0 : ℝ) < i / 16 := div_pos (by exact_mod_cast h0) (by norm_num)
  have hsin : 0 < Real.sin (Real.pi * (i / 16)) := by
    refine Real.sin_pos_of_pos_of_lt_pi (mul_pos Real.pi_pos hpos) ?_
    calc Real.pi * (i / 16) < Real.pi * 1 := mul_lt_mul_of_pos_left hlt Real.pi_pos
      _ = Real.pi := mul_one _
  have hsq := Real.sin_sq_eq_half_sub (Real.pi * (i / 16))
  have hpow : 0 < Real.sin (Real.pi * (i / 16)) ^ 2 := pow_pos hsin 2
  simp only [hann, buildHannWindow, if_true, Nat.cast_ofNat, hangle]
  linarith

end Frame

/-! ### All frames -/

section Frames

variable {tStft : ℕ}

/-- **Every kept sample is in a frame** where the window is not zero: the first four samples of the
frame that it begins, or the middle of the last frame. -/
theorem windowSum_pos {j : ℕ} (hj : j < (tStft - 1) * 4) :
    0 < buildWindowSum tStft 16 4 hann (8 + j) := by
  have hweight : ∀ t < tStft, ∀ k < 16, 0 ≤ hann k * hann k := fun _ _ k _ => mul_self_nonneg _
  have hreach : ∀ t k, t < tStft → 0 < k → k < 16 → t * 4 + k = 8 + j →
      0 < buildWindowSum tStft 16 4 hann (8 + j) := by
    intro t k ht h0 hk heq
    have hpos : 0 < buildWindowSum tStft 16 4 hann (t * 4 + k) :=
      OverlapAdd.overlapAdd_pos hweight ht hk (mul_pos (hann_pos h0 hk) (hann_pos h0 hk))
    rwa [heq] at hpos
  by_cases hlast : (7 + j) / 4 < tStft
  · exact hreach ((7 + j) / 4) (8 + j - (7 + j) / 4 * 4) hlast (by omega) (by omega) (by omega)
  · exact hreach (tStft - 1) (8 + j - (tStft - 1) * 4) (by omega) (by omega) (by omega) (by omega)

/-- **The signal comes back**: with `tStft` frames the padded signal has up to three samples behind the
last one. -/
theorem reconstructs {n : ℕ} (hT : 2 ≤ tStft) (hlow : (tStft - 1) * 4 + 16 ≤ n)
    (hhigh : n < tStft * 4 + 16) (s : ℕ → ℝ) : Reconstructs tStft n s := by
  have hspec : Gives (stft (source n 1 1 1 s)) tStft 18 1 1 fun t c _ _ =>
      ∑ i ∈ Finset.range 16, s (t * 4 + i) * buildStftKernel 16 hann (i + 16 * c) := by
    have how : tStft = (n - 1 * (16 - 1) - 1) / 4 + 1 := by omega
    refine (gives_conv1dF32 (by omega) Nat.one_pos (by omega) how (dense_source ..)
      (reads_source s)).congr fun {t c _ _} _ _ _ _ => Finset.sum_congr rfl fun i hi => ?_
    have hi : i < 16 := Finset.mem_range.mp hi
    rw [Nat.mod_eq_of_lt hi, Nat.div_eq_of_lt hi, Nat.mul_one, Nat.one_mul]
    simp
  obtain ⟨spec, hstft, hspecd, hspec⟩ := hspec
  have hy : Gives (convTranspose1d (source 16 1 18 1 (buildIstftKernel 16 hann)) spec 4)
      ((tStft - 1) * 4 + 16) 1 1 1 fun j _ _ _ => buildWindowSum tStft 16 4 hann j * s j := by
    refine (gives_convTranspose1d (reads_source _) hspec rfl hspecd.nb0 rfl).congr ?_
    intro j _ _ _ _ _ _ _
    refine OverlapAdd.overlapAdd_mul (fun t _ m hm => ?_) j
    rw [← synthesis_frame (fun i => s (t * 4 + i)) hann hm]
    refine Finset.sum_congr rfl fun c _ => congrArg (_ * buildIstftKernel 16 hann ·) ?_
    simp
  obtain ⟨y, hconv, hyd, hy⟩ := hy
  have hquot := gives_binary (· / ·) hy (reads_source (buildWindowSum tStft 16 4 hann))
  obtain ⟨q, hdiv, hqd, hq⟩ := hquot
  refine ⟨fun j hj => windowSum_pos hj, spec, q.view2d ((tStft - 1) * 4 + 16 - 16) q.ne1 q.nb1
    (8 * q.nb0), hstft, hspec.ne0, ?_, Nat.add_sub_cancel _ _, fun j hj => ?_⟩
  · have hdiv' : y.div (source ((tStft - 1) * 4 + 16) 1 1 1 (buildWindowSum tStft 16 4 hann)) =
        some q := hdiv
    simp only [istft, hconv, Option.bind_eq_bind, Option.bind_some, hdiv']
    rfl
  · have hview : (q.view2d ((tStft - 1) * 4 + 16 - 16) q.ne1 q.nb1 (8 * q.nb0)).Reads
        ((tStft - 1) * 4 + 16 - 16) 1 1 1 fun j _ _ _ => s (8 + j) := by
      rw [hq.ne1]
      refine reads_view2d fun {i0 i1} h0 h1 => ?_
      have hin : 8 + i0 < (tStft - 1) * 4 + 16 := by omega
      have hget := hq.data hqd hin Nat.one_pos Nat.one_pos Nat.one_pos
      rw [Nat.lt_one_iff.mp h1, hqd.nb0]
      simp only [Nat.mul_zero, Nat.zero_mul, Nat.add_zero, Nat.mul_one] at hget ⊢
      rw [hget]
      exact mul_div_cancel_left₀ _ (windowSum_pos (by omega)).ne'
    exact hview.get (by omega) Nat.one_pos Nat.one_pos Nat.one_pos

theorem reconstructs_threeFrames : Reconstructs 3 25 fun n => (n : ℝ) :=
  reconstructs (by decide) (by decide) (by decide) _

end Frames

end Hift

end Chatterbox

end WhisperCpp
