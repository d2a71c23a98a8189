import WhisperCpp.Library.Rounding

/-!
# Samples and centiseconds

The voice activity detection works on samples and reports centiseconds. The conversions are made
in double precision; their results are exact, but for the ties.

## Main definitions

* `samplesToCs`, `csToSamples`

## Main results

* `samplesToCs_cases` — the nearest centisecond, either one at a tie
* `csToSamples_eq` — there are 160 samples to a centisecond
-/

namespace WhisperCpp

namespace Vad

open Rounding

/-- `WHISPER_SAMPLE_RATE`. -/
def sampleRate : ℤ := 16000

/-- The largest `int`, plus one. -/
def intEnd : ℤ := 2147483648

/-- An arithmetic result in `int`. Where it does not fit, it wraps around. -/
def toInt (x : ℤ) : ℤ := Int.bmod x 4294967296

/-- `cs_to_samples`. -/
def csToSamples (cs : ℤ) : ℤ :=
  trunc (fl 53 (fl 53 (fl 53 (cs / 100) * sampleRate) + 1 / 2))

/-- `samples_to_cs`. -/
def samplesToCs (samples : ℤ) : ℤ :=
  trunc (fl 53 (fl 53 (fl 53 (samples / sampleRate) * 100) + 1 / 2))

theorem toInt_eq {x : ℤ} (h0 : -intEnd ≤ x) (h : x < intEnd) : toInt x = x := by
  rw [intEnd] at h0 h
  rw [toInt]
  rw [Int.bmod_eq_emod]
  split <;> omega

theorem csToSamples_nonneg {cs : ℤ} (h : 0 ≤ cs) : 0 ≤ csToSamples cs := by
  have hcs : (0 : ℚ) ≤ cs := by exact_mod_cast h
  have hrate : (0 : ℚ) ≤ sampleRate := by norm_num [sampleRate]
  exact trunc_nonneg (fl_nonneg 53 (add_nonneg (fl_nonneg 53
    (mul_nonneg (fl_nonneg 53 (by positivity)) hrate)) (by norm_num)))

theorem samplesToCs_nonneg {s : ℤ} (h : 0 ≤ s) : 0 ≤ samplesToCs s := by
  have hs : (0 : ℚ) ≤ s := by exact_mod_cast h
  have hrate : (0 : ℚ) ≤ sampleRate := by norm_num [sampleRate]
  exact trunc_nonneg (fl_nonneg 53 (add_nonneg (fl_nonneg 53
    (mul_nonneg (fl_nonneg 53 (div_nonneg hs hrate)) (by norm_num))) (by norm_num)))

/-- What three rounded operations make of a product and a half. -/
theorem abs_fl_fl_fl_sub_le {x k : ℚ} (hx : 0 ≤ x) (hk : 0 ≤ k) (h : x * k ≤ 2 ^ 31) :
    |fl 53 (fl 53 (fl 53 x * k) + 1 / 2) - (x * k + 1 / 2)| ≤ 1 / 1000 := by
  have hxk := mul_nonneg hx hk
  have h1 : |fl 53 x * k - x * k| ≤ x * k / 2 ^ 53 := by
    rw [← sub_mul, abs_mul, abs_of_nonneg hk, mul_div_right_comm]
    gcongr
    simpa [abs_of_nonneg hx] using abs_fl_sub_le 53 x
  have h2 := abs_fl_sub_le 53 (fl 53 x * k)
  have h3 := abs_fl_sub_le 53 (fl 53 (fl 53 x * k) + 1 / 2)
  generalize fl 53 (fl 53 (fl 53 x * k) + 1 / 2) = c at *
  generalize fl 53 (fl 53 x * k) = b at *
  generalize fl 53 x * k = a at *
  generalize x * k = y at *
  have ha : |a| ≤ 2 ^ 31 + 1 := by
    rw [abs_le] at h1 ⊢
    constructor <;> linarith [h1.1, h1.2]
  have hb : |b + 1 / 2| ≤ 2 ^ 31 + 3 := by
    have ha' := abs_le.mp ha
    rw [abs_le] at h2 ⊢
    constructor <;> linarith [h2.1, h2.2, ha'.1, ha'.2]
  rw [abs_le] at h1 h2 h3 ⊢
  constructor <;> linarith [h1.1, h1.2, h2.1, h2.2, h3.1, h3.2]

/-- **There are 160 samples to a centisecond.** -/
theorem csToSamples_eq {cs : ℤ} (h0 : 0 ≤ cs) (h : 160 * cs < intEnd) :
    csToSamples cs = 160 * cs := by
  have hpos : (0 : ℚ) ≤ cs := by exact_mod_cast h0
  have hlt : (160 : ℚ) * cs < 2 ^ 31 := by
    have : ((160 * cs : ℤ) : ℚ) < (intEnd : ℤ) := by exact_mod_cast h
    norm_num [intEnd] at this
    linarith
  have herr := abs_fl_fl_fl_sub_le (x := cs / 100) (k := sampleRate) (by positivity)
    (by norm_num [sampleRate]) (by norm_num [sampleRate]; linarith)
  rw [csToSamples]
  generalize fl 53 _ = c at *
  norm_num [sampleRate] at herr
  rw [abs_le] at herr
  rw [trunc]
  rw [if_pos (by linarith [herr.1]), Int.floor_eq_iff]
  push_cast
  constructor <;> linarith [herr.1, herr.2]

/-- **The nearest centisecond**, and one of the two nearest at a tie. -/
theorem samplesToCs_cases {s : ℤ} (h0 : 0 ≤ s) (h : s ≤ intEnd) :
    samplesToCs s = (s + 80) / 160 ∨ s % 160 = 80 ∧ samplesToCs s = (s + 80) / 160 - 1 := by
  have hpos : (0 : ℚ) ≤ s := by exact_mod_cast h0
  have hle : (s : ℚ) ≤ 2 ^ 31 := by
    have : (s : ℚ) ≤ (intEnd : ℤ) := by exact_mod_cast h
    norm_num [intEnd] at this
    linarith
  have herr := abs_fl_fl_fl_sub_le (x := s / sampleRate) (k := 100)
    (by norm_num [sampleRate]; positivity) (by norm_num) (by norm_num [sampleRate]; linarith)
  rw [samplesToCs]
  generalize fl 53 _ = c at *
  norm_num [sampleRate] at herr
  rw [abs_le] at herr
  have hdiv : (s : ℚ) + 80 = 160 * ((s + 80) / 160 : ℤ) + ((s + 80) % 160 : ℤ) := by
    exact_mod_cast (Int.mul_ediv_add_emod (s + 80) 160).symm
  rw [trunc]
  rw [if_pos (by linarith [herr.1])]
  by_cases htie : (s + 80) % 160 = 0
  · -- at a tie the sum may come out just below the integer
    rw [htie, Int.cast_zero] at hdiv
    have hlow : (s + 80) / 160 - 1 ≤ ⌊c⌋ := by
      rw [Int.le_floor]
      push_cast
      linarith [herr.1]
    have hhigh : ⌊c⌋ < (s + 80) / 160 + 1 := by
      rw [Int.floor_lt]
      push_cast
      linarith [herr.2]
    omega
  · left
    have hr : (1 : ℚ) ≤ ((s + 80) % 160 : ℤ) ∧ (((s + 80) % 160 : ℤ) : ℚ) ≤ 159 := by
      constructor
      · exact_mod_cast (by omega : 1 ≤ (s + 80) % 160)
      · exact_mod_cast (by omega : (s + 80) % 160 ≤ 159)
    rw [Int.floor_eq_iff]
    constructor <;> linarith [herr.1, herr.2, hr.1, hr.2]

/-- The conversion is off by half a centisecond at most. -/
theorem samplesToCs_near {s : ℤ} (h0 : 0 ≤ s) (h : s ≤ intEnd) :
    s - 80 ≤ 160 * samplesToCs s ∧ 160 * samplesToCs s ≤ s + 80 := by
  rcases samplesToCs_cases h0 h with heq | ⟨htie, heq⟩ <;> rw [heq] <;> omega

theorem samplesToCs_mono {s t : ℤ} (h0 : 0 ≤ s) (hst : s ≤ t) (h : t ≤ intEnd) :
    samplesToCs s ≤ samplesToCs t := by
  rcases eq_or_lt_of_le hst with rfl | hlt
  · exact le_rfl
  · rcases samplesToCs_cases h0 (hst.trans h) with hs | ⟨hs', hs⟩ <;>
      rcases samplesToCs_cases (h0.trans hst) h with ht | ⟨ht', ht⟩ <;> rw [hs, ht] <;> omega

/-- Whole centiseconds are converted exactly, also on top of something else. -/
theorem samplesToCs_add {s : ℤ} {cs : ℤ} (h0 : 0 ≤ s) (hcs : 0 ≤ cs) (h : s + 160 * cs ≤ intEnd) :
    samplesToCs s + cs - 1 ≤ samplesToCs (s + 160 * cs) := by
  rcases samplesToCs_cases h0 (by omega) with hs | ⟨-, hs⟩ <;>
    rcases samplesToCs_cases (by omega : 0 ≤ s + 160 * cs) h with ht | ⟨-, ht⟩ <;>
    rw [hs, ht] <;> omega

theorem samplesToCs_mul {cs : ℤ} (h0 : 0 ≤ cs) (h : 160 * cs ≤ intEnd) :
    samplesToCs (160 * cs) = cs := by
  have := samplesToCs_near (by omega : 0 ≤ 160 * cs) h
  omega

end Vad

end WhisperCpp
