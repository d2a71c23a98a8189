import WhisperCpp.Library.Rounding

/-!
# The windows of the voice encoder

`voice_encoder_embed` cuts a spectrogram into overlapping windows and runs an LSTM on each. Where they
start is computed by `compute_partials`, which is given the sample rate among its arguments. The caller
gives it the length of a window in its place.

## Main definitions

* `computePartials`, `embedLayout` — the layout that the code comes to
* `inferenceLayout` — the layout of `VoiceEncoder.inference`
* `AsInference` — what is promised of the windows
* `StepsAgree`

## Main results

* `LayoutOk.of_step` — what holds for every step
* `asInference_iff` — when the windows are those of the reference
-/

namespace WhisperCpp

namespace Chatterbox

namespace VoiceEncoder

open Rounding

/-! ### The code -/

/-- The inference knobs of `voice_encoder_weights`. -/
structure VoiceEncoderWeights where
  partialFrames : ℤ
  overlap : ℚ
  rate : ℚ
  minCoverage : ℚ

/-- How many windows there are, how far they are apart, and how many frames they need. -/
structure Layout where
  nWins : ℤ
  step : ℤ
  targetN : ℤ
  deriving DecidableEq

/-- `std::lround`, of which nothing is known where a `long` is too small. -/
def lround (outside : ℚ → ℤ) (x : ℚ) : ℤ :=
  if |roundAway x| < 2 ^ 63 then roundAway x else outside x

/-- `((double)sample_rate_hz / (double)rate) / (double)partial`. -/
def stepOfRate (sampleRateHz rate partialFrames : ℚ) : ℚ :=
  fl 53 (fl 53 (sampleRateHz / rate) / partialFrames)

/-- `(double)partial * (1.0 - overlap)`. -/
def stepOfOverlap (overlap partialFrames : ℚ) : ℚ := fl 53 (partialFrames * fl 53 (1 - overlap))

/-- The clamps. -/
def clampStep (partialFrames step : ℤ) : ℤ :=
  let step := if step ≤ 0 then 1 else step
  if partialFrames < step then partialFrames else step

/-- The part of `compute_partials` that is `get_num_wins`. -/
def layoutOf (nFrames partialFrames : ℤ) (minCoverage : ℚ) (step : ℤ) : Layout :=
  let a := max (nFrames - partialFrames + step) 0
  let nw := a / step
  let remainder := a - nw * step
  let nw :=
    if nw = 0 ∨ minCoverage ≤ fl 53 ((remainder + (partialFrames - step) : ℤ) / partialFrames) then
      nw + 1
    else nw
  { nWins := nw, step, targetN := partialFrames + step * (nw - 1) }

/-- `compute_partials`. -/
def computePartials (outside : ℚ → ℤ) (nFrames partialFrames : ℤ) (rate : ℚ) (sampleRateHz : ℤ)
    (overlap minCoverage : ℚ) : Layout :=
  let step :=
    if 0 < rate then
      (lround outside (stepOfRate sampleRateHz rate partialFrames)).bmod 4294967296
    else (lround outside (stepOfOverlap overlap partialFrames)).bmod 4294967296
  layoutOf nFrames partialFrames minCoverage (clampStep partialFrames step)

/-- The call in `voice_encoder_embed`: the sample rate that it gives is `partial_frames`. -/
def embedLayout (outside : ℚ → ℤ) (w : VoiceEncoderWeights) (nFrames : ℤ) : Layout :=
  computePartials outside nFrames w.partialFrames w.rate w.partialFrames w.overlap w.minCoverage

/-- Where the windows start. -/
def Layout.starts (l : Layout) : List ℤ := (List.range l.nWins.toNat).map fun wi : ℕ => wi * l.step

/-- `mel.resize`: cut off, or filled with zeros. -/
def resizeMel {Frame : Type} (zero : Frame) (mel : List Frame) (targetN : ℤ) : List Frame :=
  mel.take targetN.toNat ++ List.replicate (targetN.toNat - mel.length) zero

/-- What the LSTM is run on. -/
def embedWindows {Frame : Type} (outside : ℚ → ℤ) (w : VoiceEncoderWeights) (zero : Frame)
    (mel : List Frame) : List (List Frame) :=
  let l := embedLayout outside w mel.length
  l.starts.map fun t0 => ((resizeMel zero mel l.targetN).drop t0.toNat).take w.partialFrames.toNat

/-! ### The reference -/

section Inference

variable (round : ℚ → ℤ)

/-- The step that the comments of `compute_partials` give: the sample rate is that of the signal. What
their `round` does with a tie is left open. -/
def frameStep (w : VoiceEncoderWeights) : ℤ :=
  clampStep w.partialFrames
    (if 0 < w.rate then round (stepOfRate 16000 w.rate w.partialFrames)
    else round (stepOfOverlap w.overlap w.partialFrames))

/-- `get_num_wins`: the quotient and the remainder, and one window more if there is none or if enough of
it is covered. -/
def inferenceLayout (w : VoiceEncoderWeights) (nFrames : ℤ) : Layout :=
  let step := frameStep round w
  let total := max (nFrames - w.partialFrames + step) 0
  let extra : ℤ :=
    if total / step = 0 ∨
        w.minCoverage ≤ fl 53 ((total % step + (w.partialFrames - step) : ℤ) / w.partialFrames) then 1
    else 0
  let nWins := total / step + extra
  { nWins, step, targetN := w.partialFrames + step * (nWins - 1) }

/-- The windows are those of the reference and inside the frames that there are made; there are no
frames between them, none behind them but what the coverage leaves out, and only what is behind the
spectrogram is zero. -/
structure AsInference {Frame : Type} (w : VoiceEncoderWeights) (zero : Frame) (mel : List Frame)
    (l : Layout) : Prop where
  starts : l.starts = (inferenceLayout round w mel.length).starts
  targetN : l.targetN = (inferenceLayout round w mel.length).targetN
  inside : ∀ t0 ∈ l.starts, 0 ≤ t0 ∧ t0 + w.partialFrames ≤ l.targetN
  covered : ∀ f, 0 ≤ f → f < l.targetN → ∃ t0 ∈ l.starts, t0 ≤ f ∧ f < t0 + w.partialFrames
  discarded : l.targetN < mel.length →
    fl 53 ((mel.length - l.nWins * l.step : ℤ) / w.partialFrames) < w.minCoverage
  length : ((resizeMel zero mel l.targetN).length : ℤ) = l.targetN
  filled : ∀ f : ℕ, f < l.targetN → (resizeMel zero mel l.targetN)[f]? =
    if f < mel.length then mel[f]? else some zero

end Inference

/-! ### For every step -/

section Steps

variable {n p step s : ℤ} {cov : ℚ}

theorem clampStep_bounds (hp : 0 < p) (step : ℤ) :
    1 ≤ clampStep p step ∧ clampStep p step ≤ p := by
  rw [clampStep]
  split_ifs <;> omega

/-- Up to one window there is one. Otherwise the last one is inside the frames, and what is behind it
covers too little of another; or the last one ends behind the frames, and covers enough of them. -/
theorem layoutOf_cases (h1 : 1 ≤ step) :
    (n < p ∧ (layoutOf n p cov step).nWins = 1) ∨ ∃ q, 1 ≤ q ∧ p + step * (q - 1) ≤ n ∧
      n < p + step * q ∧ (layoutOf n p cov step).nWins =
        if cov ≤ fl 53 ((n - q * step : ℤ) / p) then q + 1 else q := by
  have hpos : 0 < step := by omega
  by_cases hshort : n < p
  · left
    have hzero : max (n - p + step) 0 / step = 0 :=
      Int.ediv_eq_zero_of_lt (le_max_right _ _) (max_lt (by omega) hpos)
    refine ⟨hshort, ?_⟩
    simp [layoutOf, hzero]
  · right
    have ha : max (n - p + step) 0 = n - p + step := max_eq_left (by omega)
    set q := (n - p + step) / step with hq
    have hqstep : q * step ≤ n - p + step := Int.ediv_mul_le _ hpos.ne'
    have hlt : n - p + step < (q + 1) * step := Int.lt_ediv_add_one_mul_self _ hpos
    have hq1 : 1 ≤ q := (Int.le_ediv_iff_mul_le hpos).mpr (by omega)
    refine ⟨q, hq1, by linarith, by linarith, ?_⟩
    have hrest : n - p + step - q * step + (p - step) = n - q * step := by ring
    simp only [layoutOf, ha, ← hq, hrest]
    have hne : q ≠ 0 := by omega
    simp only [hne, false_or]

/-- **The layout for a step**: the windows are inside the frames that they need, with none between them,
and a frame behind them is one of a window of which too little would be covered. -/
structure LayoutOk (n p step : ℤ) (cov : ℚ) (l : Layout) : Prop where
  step_eq : l.step = step
  one_le : 1 ≤ l.nWins
  targetN_eq : l.targetN = p + step * (l.nWins - 1)
  discarded : l.targetN < n → fl 53 ((n - l.nWins * step : ℤ) / p) < cov

theorem layoutOk_layoutOf (h1 : 1 ≤ step) :
    LayoutOk n p step cov (layoutOf n p cov step) := by
  have htarget : (layoutOf n p cov step).targetN =
      p + step * ((layoutOf n p cov step).nWins - 1) := rfl
  rcases @layoutOf_cases n p step cov h1 with ⟨hshort, hone⟩ | ⟨q, hq, hlow, hhigh, hwins⟩
  · refine ⟨rfl, hone.ge, htarget, fun hlt => ?_⟩
    rw [htarget, hone] at hlt
    omega
  · split_ifs at hwins with hcov
    · refine ⟨rfl, by omega, htarget, fun hlt => ?_⟩
      rw [htarget, hwins, add_sub_cancel_right] at hlt
      omega
    · refine ⟨rfl, by omega, htarget, fun _ => ?_⟩
      rw [hwins]
      exact not_le.mp hcov

section Ok

variable {l : Layout} (h : LayoutOk n p step cov l)

include h

theorem LayoutOk.mem_starts_iff {t0 : ℤ} :
    t0 ∈ l.starts ↔ ∃ wi : ℕ, (wi : ℤ) < l.nWins ∧ wi * step = t0 := by
  have hone := h.one_le
  rw [Layout.starts, List.mem_map, h.step_eq]
  refine exists_congr fun wi => and_congr_left fun _ => ?_
  rw [List.mem_range]
  omega

theorem LayoutOk.inside (h0 : 0 ≤ step) {t0 : ℤ} (ht0 : t0 ∈ l.starts) :
    0 ≤ t0 ∧ t0 + p ≤ l.targetN := by
  obtain ⟨wi, hwi, rfl⟩ := h.mem_starts_iff.mp ht0
  refine ⟨by positivity, ?_⟩
  have hmul : (wi : ℤ) * step ≤ (l.nWins - 1) * step := mul_le_mul_of_nonneg_right (by omega) h0
  rw [h.targetN_eq]
  linarith

/-- **No frame is between two windows.** -/
theorem LayoutOk.covered (h1 : 1 ≤ step) (hle : step ≤ p) {f : ℤ} (hf : 0 ≤ f)
    (hlt : f < l.targetN) : ∃ t0 ∈ l.starts, t0 ≤ f ∧ f < t0 + p := by
  have hpos : 0 < step := by omega
  have hone := h.one_le
  rw [h.targetN_eq] at hlt
  by_cases hlast : f / step < l.nWins
  · have hnonneg : 0 ≤ f / step := Int.ediv_nonneg hf hpos.le
    refine ⟨f / step * step, h.mem_starts_iff.mpr ⟨(f / step).toNat, ?_, ?_⟩, ?_, ?_⟩
    · rwa [Int.toNat_of_nonneg hnonneg]
    · rw [Int.toNat_of_nonneg hnonneg]
    · exact Int.ediv_mul_le f hpos.ne'
    · have hend := Int.lt_ediv_add_one_mul_self f hpos
      linarith
  · refine ⟨(l.nWins - 1) * step, h.mem_starts_iff.mpr ⟨(l.nWins - 1).toNat, ?_, ?_⟩, ?_, ?_⟩
    · omega
    · rw [Int.toNat_of_nonneg (by omega)]
    · have hge := (Int.le_ediv_iff_mul_le hpos).mp (not_lt.mp hlast)
      linarith
    · linarith

theorem LayoutOk.le_targetN (h0 : 0 ≤ step) (hp : 0 ≤ p) : 0 ≤ l.targetN := by
  have hone := h.one_le
  have hmul : 0 ≤ step * (l.nWins - 1) := mul_nonneg h0 (by omega)
  rw [h.targetN_eq]
  linarith

end Ok

end Steps

/-- The frames that are made are those of the spectrogram, and zeros. -/
theorem length_resizeMel {Frame : Type} (zero : Frame) (mel : List Frame) (targetN : ℤ) :
    (resizeMel zero mel targetN).length = targetN.toNat := by
  rw [resizeMel, List.length_append, List.length_take, List.length_replicate]
  omega

theorem getElem?_resizeMel {Frame : Type} (zero : Frame) (mel : List Frame) {targetN : ℤ} {f : ℕ}
    (hf : f < targetN) : (resizeMel zero mel targetN)[f]? =
      if f < mel.length then mel[f]? else some zero := by
  rw [resizeMel]
  split_ifs with hlt
  · rw [List.getElem?_append_left (by rw [List.length_take]; omega), List.getElem?_take_of_lt (by omega)]
  · rw [List.getElem?_append_right (by rw [List.length_take]; omega), List.getElem?_replicate_of_lt]
    rw [List.length_take]
    omega

/-! ### Against the reference -/

section Reference

variable {n p step step' : ℤ} {cov : ℚ}

/-- There is one window for a step: all of it is needed, or too little of a second one is covered. -/
def OneWindow (n p : ℤ) (cov : ℚ) (step : ℤ) : Prop :=
  n < p ∨ n < p + step ∧ fl 53 ((n - step : ℤ) / p) < cov

theorem nWins_eq_one_iff (h1 : 1 ≤ step) :
    (layoutOf n p cov step).nWins = 1 ↔ OneWindow n p cov step := by
  rcases @layoutOf_cases n p step cov h1 with ⟨hshort, hone⟩ | ⟨q, hq, hlow, hhigh, hwins⟩
  · exact iff_of_true hone (.inl hshort)
  · have hnonneg : 0 ≤ step * (q - 1) := mul_nonneg (by omega) (by omega)
    rw [hwins, OneWindow, or_iff_right (by omega)]
    by_cases hone : q = 1
    · subst hone
      rw [one_mul, mul_one] at *
      rw [and_iff_right hhigh, ← not_le]
      split_ifs with hcov
      · exact iff_of_false (by omega) (not_not.mpr hcov)
      · exact iff_of_true rfl hcov
    · have hmul : step * 1 ≤ step * (q - 1) := mul_le_mul_of_nonneg_left (by omega) (by omega)
      refine iff_of_false (fun h => ?_) fun h => ?_
      · split_ifs at h <;> omega
      · have hlt := h.1
        omega

/-- Two layouts have the same windows if they have as many, and the same step if there are several. -/
theorem starts_eq_iff {l l' : Layout} (h : LayoutOk n p step cov l) (h' : LayoutOk n p step' cov l') :
    l.starts = l'.starts ↔ l.nWins = l'.nWins ∧ (l.nWins = 1 ∨ step = step') := by
  have hone := h.one_le
  have hone' := h'.one_le
  constructor
  · intro heq
    have hlen := congrArg List.length heq
    rw [Layout.starts, Layout.starts, List.length_map, List.length_map, List.length_range,
      List.length_range] at hlen
    refine ⟨by omega, ?_⟩
    by_cases hmany : 2 ≤ l.nWins
    · right
      have hsecond := congrArg (·[1]?) heq
      have hget : ∀ {l : Layout}, 2 ≤ l.nWins → l.starts[1]? = some l.step := by
        intro l hl
        rw [Layout.starts, List.getElem?_map, List.getElem?_range (by omega)]
        simp
      simp only [hget hmany, hget (show 2 ≤ l'.nWins by omega), Option.some.injEq] at hsecond
      rwa [h.step_eq, h'.step_eq] at hsecond
    · left
      omega
  · rintro ⟨hwins, hone | rfl⟩
    · rw [Layout.starts, Layout.starts, ← hwins, hone]
      simp
    · rw [Layout.starts, Layout.starts, hwins, h.step_eq, h'.step_eq]

theorem inferenceLayout_eq (round : ℚ → ℤ) (w : VoiceEncoderWeights) (n : ℤ) :
    inferenceLayout round w n = layoutOf n w.partialFrames w.minCoverage (frameStep round w) := by
  simp only [inferenceLayout, layoutOf, Int.emod_def, mul_comm (frameStep round w)]
  split_ifs <;> simp

end Reference

/-! ### Without a rate -/

section NoRate

variable {overlap : ℚ} {p : ℤ}

/-- The step of an overlap fits into an `int`. -/
theorem roundAway_stepOfOverlap (h0 : 0 ≤ overlap) (h1 : overlap < 1) (hp : 0 < p)
    (hp' : p < 2147483648) : 0 ≤ roundAway (stepOfOverlap overlap p) ∧
      roundAway (stepOfOverlap overlap p) ≤ p := by
  have hpq : (0 : ℚ) < p := by exact_mod_cast hp
  have hpq' : (p : ℚ) ≤ 2 ^ 31 := by exact_mod_cast hp'.le
  have hu := (abs_le.mp (abs_fl_sub_le 53 (1 - overlap))).2
  have hu0 : 0 ≤ fl 53 (1 - overlap) := fl_nonneg 53 (by linarith)
  rw [abs_of_pos (by linarith)] at hu
  have hule : fl 53 (1 - overlap) ≤ 1 + 1 / 2 ^ 53 := by
    have hdiv : (1 - overlap) / 2 ^ 53 ≤ 1 / 2 ^ 53 := by gcongr; linarith
    linarith
  have hx0 : 0 ≤ p * fl 53 (1 - overlap) := mul_nonneg hpq.le hu0
  have hx : p * fl 53 (1 - overlap) ≤ p + 1 / 2 ^ 20 := by
    calc p * fl 53 (1 - overlap) ≤ p * (1 + 1 / 2 ^ 53) := by gcongr
      _ = p + p * (1 / 2 ^ 53) := by ring
      _ ≤ p + 2 ^ 31 * (1 / 2 ^ 53) := by gcongr
      _ ≤ p + 1 / 2 ^ 20 := by norm_num
  have herr := (abs_le.mp (abs_fl_sub_le 53 (p * fl 53 (1 - overlap)))).2
  rw [abs_of_nonneg hx0] at herr
  have hsmall : p * fl 53 (1 - overlap) / 2 ^ 53 ≤ 1 / 2 ^ 20 := by
    rw [div_le_iff₀ (by positivity)]
    refine le_trans hx ?_
    linarith
  have hnonneg : 0 ≤ stepOfOverlap overlap p := fl_nonneg 53 hx0
  have hle : stepOfOverlap overlap p + 1 / 2 < p + 1 := by
    have hsum : (1 : ℚ) / 2 ^ 20 + 1 / 2 ^ 20 < 1 / 2 := by norm_num
    rw [stepOfOverlap]
    linarith
  rw [roundAway, if_pos hnonneg]
  refine ⟨Int.floor_nonneg.mpr (by linarith), Int.lt_add_one_iff.mp (Int.floor_lt.mpr ?_)⟩
  exact_mod_cast hle

/-- The conversions leave such a step as it is. -/
theorem lround_stepOfOverlap (outside : ℚ → ℤ) (h0 : 0 ≤ overlap) (h1 : overlap < 1) (hp : 0 < p)
    (hp' : p < 2147483648) : (lround outside (stepOfOverlap overlap p)).bmod 4294967296 =
      roundAway (stepOfOverlap overlap p) := by
  obtain ⟨hlow, hhigh⟩ := roundAway_stepOfOverlap h0 h1 hp hp'
  have hin : |roundAway (stepOfOverlap overlap p)| < 2 ^ 63 := by
    rw [abs_of_nonneg hlow]
    omega
  rw [lround, if_pos hin, Int.bmod_eq_of_le (by omega) (by omega)]

end NoRate

/-! ### The windows of the code -/

/-- The step that the code comes to: when there is a rate, the length of a window is divided by the rate
and by itself. -/
def takenStep (outside : ℚ → ℤ) (w : VoiceEncoderWeights) : ℤ :=
  clampStep w.partialFrames
    (if 0 < w.rate then
      (lround outside (stepOfRate w.partialFrames w.rate w.partialFrames)).bmod 4294967296
    else roundAway (stepOfOverlap w.overlap w.partialFrames))

/-- The quotient for the length of a window rounds to the same step as that for the sample rate, or
there is one window for both steps. -/
def StepsAgree (round outside : ℚ → ℤ) (w : VoiceEncoderWeights) (n : ℤ) : Prop :=
  takenStep outside w = frameStep round w ∨
    OneWindow n w.partialFrames w.minCoverage (takenStep outside w) ∧
      OneWindow n w.partialFrames w.minCoverage (frameStep round w)

/-- Without a rate the steps agree unless the reference rounds a tie the other way. -/
theorem stepsAgree_of_rate_le {round outside : ℚ → ℤ} {w : VoiceEncoderWeights} (n : ℤ)
    (hrate : w.rate ≤ 0) (hround : round (stepOfOverlap w.overlap w.partialFrames) =
      roundAway (stepOfOverlap w.overlap w.partialFrames)) : StepsAgree round outside w n := by
  left
  rw [takenStep, frameStep, if_neg hrate.not_gt, if_neg hrate.not_gt, hround]

theorem embedLayout_eq (outside : ℚ → ℤ) (w : VoiceEncoderWeights) (n : ℤ)
    (hp : 0 < w.partialFrames) (hp' : w.partialFrames < 2147483648) (h0 : 0 ≤ w.overlap)
    (h1 : w.overlap < 1) : embedLayout outside w n =
      layoutOf n w.partialFrames w.minCoverage (takenStep outside w) := by
  rw [embedLayout, computePartials, takenStep, lround_stepOfOverlap outside h0 h1 hp hp']

/-- **The windows are those of the reference** if and only if the steps agree. -/
theorem asInference_iff {Frame : Type} (round outside : ℚ → ℤ) (w : VoiceEncoderWeights)
    (zero : Frame) (mel : List Frame) (hp : 0 < w.partialFrames) (hp' : w.partialFrames < 2147483648)
    (h0 : 0 ≤ w.overlap) (h1 : w.overlap < 1) :
    AsInference round w zero mel (embedLayout outside w mel.length) ↔
      StepsAgree round outside w mel.length := by
  obtain ⟨hge, hle⟩ := clampStep_bounds hp (if 0 < w.rate then
    (lround outside (stepOfRate w.partialFrames w.rate w.partialFrames)).bmod 4294967296
    else roundAway (stepOfOverlap w.overlap w.partialFrames))
  have hge' : 1 ≤ frameStep round w := (clampStep_bounds hp _).1
  change 1 ≤ takenStep outside w at hge
  change takenStep outside w ≤ w.partialFrames at hle
  have hok := @layoutOk_layoutOf mel.length w.partialFrames _ w.minCoverage hge
  have hok' := @layoutOk_layoutOf mel.length w.partialFrames _ w.minCoverage hge'
  have hstarts := starts_eq_iff hok hok'
  have hone := @nWins_eq_one_iff mel.length w.partialFrames _ w.minCoverage hge
  have hone' := @nWins_eq_one_iff mel.length w.partialFrames _ w.minCoverage hge'
  rw [embedLayout_eq outside w _ hp hp' h0 h1]
  constructor
  · intro h
    have heq := h.starts
    rw [inferenceLayout_eq, hstarts] at heq
    obtain ⟨hwins, hsingle | hstep⟩ := heq
    · exact .inr ⟨hone.mp hsingle, hone'.mp (hwins ▸ hsingle)⟩
    · exact .inl hstep
  · intro h
    have hwins : (layoutOf mel.length w.partialFrames w.minCoverage (takenStep outside w)).starts =
          (inferenceLayout round w mel.length).starts ∧
        (layoutOf mel.length w.partialFrames w.minCoverage (takenStep outside w)).targetN =
          (inferenceLayout round w mel.length).targetN := by
      rw [inferenceLayout_eq]
      rcases h with hstep | ⟨hsingle, hsingle'⟩
      · rw [hstep]
        exact ⟨rfl, rfl⟩
      · rw [← hone] at hsingle
        rw [← hone'] at hsingle'
        refine ⟨hstarts.mpr ⟨hsingle.trans hsingle'.symm, .inl hsingle⟩, ?_⟩
        rw [hok.targetN_eq, hok'.targetN_eq, hsingle, hsingle', sub_self, mul_zero, mul_zero]
    have htarget := hok.le_targetN (by omega) hp.le
    refine ⟨hwins.1, hwins.2, fun t0 ht0 => hok.inside (by omega) ht0,
      fun f hf hlt => hok.covered hge hle hf hlt, fun hlt => ?_, ?_, ?_⟩
    · have hstep := hok.step_eq
      rw [hstep]
      exact hok.discarded hlt
    · rw [length_resizeMel, Int.toNat_of_nonneg htarget]
    · intro f hf
      exact getElem?_resizeMel zero mel hf

/-- The knobs that `voice_encoder_weights` starts with. -/
def defaultWeights : VoiceEncoderWeights where
  partialFrames := 160
  overlap := 1 / 2
  rate := 10905190 / 8388608
  minCoverage := 13421773 / 16777216

/-- Without a rate the reference rounds 80. -/
theorem asInference_overlap : AsInference roundAway { defaultWeights with rate := 0 } ()
    (List.replicate 250 ())
    (embedLayout (fun _ => 0) { defaultWeights with rate := 0 } (List.replicate 250 ()).length) :=
  (asInference_iff roundAway (fun _ => 0) { defaultWeights with rate := 0 } ()
    (List.replicate 250 ()) (by decide) (by decide) (by decide +kernel) (by decide +kernel)).mpr
    (stepsAgree_of_rate_le _ le_rfl rfl)

/-- With the knobs that it starts with the code goes on by one frame, and the reference by 77. -/
theorem not_forall_asInference : ¬ ∀ (outside : ℚ → ℤ) (w : VoiceEncoderWeights) (mel : List Unit),
    0 < w.partialFrames → w.partialFrames < 2147483648 → 0 ≤ w.overlap → w.overlap < 1 →
    0 < w.minCoverage → w.minCoverage ≤ 1 →
    AsInference roundAway w () mel (embedLayout outside w mel.length) := by
  intro h
  have hbad := (h (fun _ => 0) defaultWeights (List.replicate 161 ()) (by decide) (by decide)
    (by decide +kernel) (by decide +kernel) (by decide +kernel) (by decide +kernel)).starts
  revert hbad
  rw [List.length_replicate]
  decide +kernel

end VoiceEncoder

end Chatterbox

end WhisperCpp
