import WhisperCpp.Library.Stretches
import WhisperCpp.Vad.Clock

/-!
# The chunks of `whisper_full_parallel`

The samples after the offset are split between the processors. The calling thread gets the first
chunk together with what is before it, and `offset_ms`; every worker gets its own samples, and the
times of its segments are shifted afterwards.

## Main definitions

* `chunks`, `shift`
* `NoOverflow` — no operation on `int` overflows
* `ChunksExact` — the chunks tile the samples after the offset, and the shifts are exact

## Main results

* `chunksExact_iff`
-/

namespace WhisperCpp

namespace Parallel

open Rounding Vad
open Stretch (Tiles)

section Definitions

variable (n offsetMs : ℤ) (np : ℕ)

/-- `offset_samples`. -/
def offsetSamples : ℤ := (sampleRate * offsetMs).tdiv 1000

/-- `n_samples_per_processor`. -/
def samplesPerProcessor : ℤ := (n - offsetSamples offsetMs).tdiv np

/-- `start_samples` of worker `i`. -/
def startSamples (i : ℕ) : ℤ :=
  offsetSamples offsetMs + (i + 1) * samplesPerProcessor n offsetMs np

/-- `n_samples_cur` of worker `i`. The last one gets what remains. -/
def samplesCur (i : ℕ) : ℤ :=
  if i + 2 = np then n - startSamples n offsetMs np i else samplesPerProcessor n offsetMs np

/-- The samples of worker `i`. -/
def workerChunk (i : ℕ) : Stretch :=
  ⟨startSamples n offsetMs np i, startSamples n offsetMs np i + samplesCur n offsetMs np i⟩

/-- The samples after the offset that the calling thread gets. -/
def firstChunk : Stretch :=
  ⟨max 0 (offsetSamples offsetMs), offsetSamples offsetMs + samplesPerProcessor n offsetMs np⟩

/-- All chunks. -/
def chunks : List Stretch :=
  firstChunk n offsetMs np :: (List.range (np - 1)).map (workerChunk n offsetMs np)

/-- `offset_t`: the quotient is a `double`, converted to an integer. -/
def offsetT : ℤ := trunc (fl 53 (offsetMs / 10))

/-- What is added to the times of the segments of worker `i`. -/
def shift (i : ℕ) : ℤ :=
  (100 * ((i + 1) * samplesPerProcessor n offsetMs np)).tdiv sampleRate + offsetT offsetMs

end Definitions

/-- A value of an `int`. -/
def IsInt (x : ℤ) : Prop := -intEnd ≤ x ∧ x < intEnd

instance (x : ℤ) : Decidable (IsInt x) := inferInstanceAs (Decidable (_ ∧ _))

/-- No operation on `int` overflows; the behaviour would be undefined. -/
structure NoOverflow (n offsetMs : ℤ) (np : ℕ) : Prop where
  offset : IsInt (sampleRate * offsetMs)
  rest : IsInt (n - offsetSamples offsetMs)
  distance : ∀ i < np - 1, IsInt ((i + 1) * samplesPerProcessor n offsetMs np)
  scaled : ∀ i < np - 1, IsInt (100 * ((i + 1) * samplesPerProcessor n offsetMs np))
  start : ∀ i < np - 1, IsInt (startSamples n offsetMs np i)
  last : IsInt (n - startSamples n offsetMs np (np - 2))

/-- The chunks tile the samples after the offset, and the times of every worker's segments are
shifted by the time of its first sample. -/
structure ChunksExact (n offsetMs : ℤ) (np : ℕ) : Prop where
  noOverflow : NoOverflow n offsetMs np
  tiles : Tiles (max 0 (offsetSamples offsetMs)) n (chunks n offsetMs np)
  shift_eq : ∀ i < np - 1,
    shift n offsetMs np i = 100 * startSamples n offsetMs np i / sampleRate

/-- The parts of a centisecond that are left of the distance `k` in samples and of the offset do not
add up to one; of a negative offset, which is rounded up, they do. -/
def NoCarry (offsetMs k : ℤ) : Prop :=
  k % 160 + 16 * (offsetMs % 10) < 160 ↔ 0 ≤ offsetMs ∨ offsetMs % 10 = 0

/-- The condition on the arguments: the offset in samples is in `int`, and within the audio up to
the length of a chunk before it; a hundred times the length of the chunks but one is in `int`; and
no worker loses a centisecond by rounding its distance and the offset separately. -/
structure ArgsFit (n offsetMs : ℤ) (np : ℕ) : Prop where
  offset : IsInt (16000 * offsetMs)
  le_end : 16 * offsetMs ≤ n
  rest : n - 16 * offsetMs < intEnd
  first : 0 ≤ 16 * offsetMs + (n - 16 * offsetMs).tdiv np
  scaled : 100 * ((np - 1) * (n - 16 * offsetMs).tdiv np) < intEnd
  noCarry : ∀ i < np - 1, NoCarry offsetMs ((i + 1) * (n - 16 * offsetMs).tdiv np)

section Lemmas

variable {n offsetMs : ℤ} {np i : ℕ}

theorem offsetSamples_eq (offsetMs : ℤ) : offsetSamples offsetMs = 16 * offsetMs := by
  rw [offsetSamples, show sampleRate * offsetMs = 1000 * (16 * offsetMs) by
    unfold sampleRate; omega]
  exact Int.mul_tdiv_cancel_left _ (by decide)

/-- The double division is exact enough for the truncation. -/
theorem offsetT_eq (h : IsInt offsetMs) : offsetT offsetMs = offsetMs.tdiv 10 := by
  obtain ⟨hlo, hhi⟩ := h
  rw [intEnd] at hlo hhi
  have hdiv : offsetMs = 10 * (offsetMs / 10) + offsetMs % 10 := (Int.mul_ediv_add_emod _ 10).symm
  have hcast : (offsetMs : ℚ) / 10 = (offsetMs / 10 : ℤ) + (offsetMs % 10 : ℤ) / 10 := by
    have : (offsetMs : ℚ) = 10 * (offsetMs / 10 : ℤ) + (offsetMs % 10 : ℤ) := by exact_mod_cast hdiv
    linarith
  rw [Int.tdiv_eq_ediv]
  by_cases hr : offsetMs % 10 = 0
  · rw [offsetT, hcast, hr, Int.cast_zero, zero_div, add_zero, fl_intCast (by rw [abs_lt]; omega)]
    rw [if_pos (.inr (Int.dvd_of_emod_eq_zero hr)), add_zero]
    simp [trunc]
  · have hr1 : (1 : ℚ) ≤ (offsetMs % 10 : ℤ) := by exact_mod_cast (by omega : 1 ≤ offsetMs % 10)
    have hr9 : ((offsetMs % 10 : ℤ) : ℚ) ≤ 9 := by exact_mod_cast (by omega : offsetMs % 10 ≤ 9)
    have herr := abs_fl_sub_le 53 ((offsetMs : ℚ) / 10)
    have hsmall : |(offsetMs : ℚ) / 10| ≤ 2 ^ 31 := by
      have h1 : (-2147483648 : ℚ) ≤ offsetMs := by exact_mod_cast hlo
      have h2 : (offsetMs : ℚ) ≤ 2147483648 := by exact_mod_cast hhi.le
      rw [abs_le]
      constructor <;> linarith
    have hnear : |fl 53 ((offsetMs : ℚ) / 10) - (offsetMs : ℚ) / 10| ≤ 1 / 100 := by linarith
    rw [offsetT]
    generalize fl 53 ((offsetMs : ℚ) / 10) = c at hnear
    rw [hcast, abs_le] at hnear
    have hfloor : ⌊c⌋ = offsetMs / 10 := by
      rw [Int.floor_eq_iff]
      constructor <;> linarith [hnear.1, hnear.2]
    have hceil : ⌈c⌉ = offsetMs / 10 + 1 := by
      rw [Int.ceil_eq_iff]
      push_cast
      constructor <;> linarith [hnear.1, hnear.2]
    have hdvd : ¬ (10 : ℤ) ∣ offsetMs := fun h => hr (Int.emod_eq_zero_of_dvd h)
    by_cases hpos : 0 ≤ offsetMs
    · have hc : 0 ≤ c := by
        have h0 : (0 : ℚ) ≤ (offsetMs / 10 : ℤ) := by exact_mod_cast (by omega : 0 ≤ offsetMs / 10)
        linarith [hnear.1]
      rw [trunc, if_pos hc, hfloor, if_pos (.inl hpos), add_zero]
    · have hc : ¬ 0 ≤ c := by
        have h0 : ((offsetMs / 10 : ℤ) : ℚ) ≤ -1 := by
          exact_mod_cast (by omega : offsetMs / 10 ≤ -1)
        intro hc
        linarith [hnear.2]
      rw [trunc, if_neg hc, hceil, if_neg (not_or.mpr ⟨hpos, hdvd⟩)]
      rfl

theorem samplesPerProcessor_eq (n offsetMs : ℤ) (np : ℕ) :
    samplesPerProcessor n offsetMs np = (n - 16 * offsetMs).tdiv np := by
  rw [samplesPerProcessor, offsetSamples_eq]

theorem startSamples_eq (n offsetMs : ℤ) (np i : ℕ) : startSamples n offsetMs np i =
    16 * offsetMs + (i + 1) * (n - 16 * offsetMs).tdiv np := by
  rw [startSamples, samplesPerProcessor_eq, offsetSamples_eq]

/-! ### Tiling -/

/-- The points between the chunks. -/
def bound (n offsetMs : ℤ) (np i : ℕ) : ℤ :=
  if i = 0 then max 0 (16 * offsetMs)
  else if i = np then n
  else 16 * offsetMs + i * (n - 16 * offsetMs).tdiv np

theorem chunks_eq (n offsetMs : ℤ) (hnp : 2 ≤ np) :
    chunks n offsetMs np = (List.range' 0 np).map fun i =>
      ⟨bound n offsetMs np i, bound n offsetMs np (i + 1)⟩ := by
  obtain ⟨m, rfl⟩ : ∃ m, np = m + 2 := ⟨np - 2, by omega⟩
  rw [List.range'_succ, List.map_cons, chunks]
  congr 1
  · rw [firstChunk, offsetSamples_eq, samplesPerProcessor_eq]
    simp [bound]
  · rw [List.range'_eq_map_range, List.map_map]
    refine List.map_congr_left fun i hi => ?_
    have hi := List.mem_range.mp hi
    have hstart : bound n offsetMs (m + 2) (0 + 1 + i) = startSamples n offsetMs (m + 2) i := by
      rw [bound, if_neg (by omega), if_neg (by omega), startSamples_eq]
      push_cast
      ring
    have hstop : bound n offsetMs (m + 2) (0 + 1 + i + 1) =
        startSamples n offsetMs (m + 2) i + samplesCur n offsetMs (m + 2) i := by
      rw [bound, if_neg (by omega), samplesCur]
      by_cases hlast : i + 2 = m + 2
      · rw [if_pos (by omega), if_pos hlast]
        ring
      · rw [if_neg (by omega), if_neg hlast, startSamples_eq, samplesPerProcessor_eq]
        push_cast
        ring
    show workerChunk n offsetMs (m + 2) i = ⟨_, _⟩
    rw [workerChunk]
    exact Stretch.ext hstart.symm hstop.symm

/-- The chunks but the last are not longer than the rest of the audio. -/
theorem mul_samplesPerProcessor_le (hnp : 2 ≤ np) (hle : 16 * offsetMs ≤ n) :
    0 ≤ (n - 16 * offsetMs).tdiv np ∧
      (np - 1 : ℤ) * (n - 16 * offsetMs).tdiv np ≤ n - 16 * offsetMs := by
  have h0 : (0 : ℤ) ≤ n - 16 * offsetMs := by omega
  have hnonneg : 0 ≤ (n - 16 * offsetMs).tdiv np := Int.tdiv_nonneg h0 (by omega)
  have hmul : (np : ℤ) * (n - 16 * offsetMs).tdiv np ≤ n - 16 * offsetMs := by
    rw [Int.tdiv_eq_ediv_of_nonneg h0]
    exact Int.mul_ediv_self_le (by omega)
  exact ⟨hnonneg, by rw [sub_mul]; omega⟩

/-- **When the chunks tile the samples after the offset.** -/
theorem tiles_iff (hnp : 2 ≤ np) :
    Tiles (max 0 (offsetSamples offsetMs)) n (chunks n offsetMs np) ↔
      16 * offsetMs ≤ n ∧ 0 ≤ 16 * offsetMs + (n - 16 * offsetMs).tdiv np := by
  have hfirst : bound n offsetMs np 0 = max 0 (offsetSamples offsetMs) := by
    rw [bound, if_pos rfl, offsetSamples_eq]
  have hlast : bound n offsetMs np (0 + np) = n := by
    rw [bound, if_neg (by omega), if_pos (by omega)]
  have hone : bound n offsetMs np 1 = 16 * offsetMs + (n - 16 * offsetMs).tdiv np := by
    rw [bound, if_neg (by omega), if_neg (by omega)]
    push_cast
    ring
  rw [chunks_eq n offsetMs hnp, ← hfirst]
  nth_rewrite 2 [← hlast]
  rw [Stretch.tiles_range']
  constructor
  · intro h
    have h0 := h 0 le_rfl (by omega)
    rw [hfirst, offsetSamples_eq, zero_add, hone] at h0
    have hsp : 0 ≤ (n - 16 * offsetMs).tdiv np := by omega
    refine ⟨?_, by omega⟩
    -- behind the end of the audio the last chunk would end before its start
    by_contra hlt
    have hle := h (np - 1) (by omega) (by omega)
    rw [show np - 1 + 1 = 0 + np by omega, hlast, bound, if_neg (by omega), if_neg (by omega)] at hle
    have := mul_nonneg (Int.natCast_nonneg (np - 1)) hsp
    omega
  · rintro ⟨hle, hpos⟩ i - hi
    obtain ⟨hsp, hmul⟩ := mul_samplesPerProcessor_le hnp hle
    by_cases h0 : i = 0
    · subst h0
      rw [hfirst, offsetSamples_eq, zero_add, hone]
      omega
    · rw [bound, if_neg h0, if_neg (by omega), bound, if_neg (by omega)]
      split
      · rename_i heq
        have hcast : (i : ℤ) = np - 1 := by omega
        rw [hcast]
        omega
      · push_cast
        rw [add_mul]
        omega

/-! ### Shifts -/

/-- **When a shift is exact.** -/
theorem shift_eq_iff {k : ℤ} (hk : 0 ≤ k) (o : ℤ) :
    (100 * k).tdiv sampleRate + o.tdiv 10 = 100 * (16 * o + k) / sampleRate ↔ NoCarry o k := by
  have hleft : (100 * k).tdiv sampleRate = k / 160 := by
    rw [Int.tdiv_eq_ediv_of_nonneg (by omega)]
    exact Int.mul_ediv_mul_of_pos k 160 (by decide : (0 : ℤ) < 100)
  have hright : 100 * (16 * o + k) / sampleRate = (16 * o + k) / 160 :=
    Int.mul_ediv_mul_of_pos _ 160 (by decide : (0 : ℤ) < 100)
  have htdiv : o.tdiv 10 = o / 10 + if 0 ≤ o ∨ o % 10 = 0 then 0 else 1 := by
    simp only [Int.tdiv_eq_ediv, Int.dvd_iff_emod_eq_zero]
    rfl
  rw [hleft, hright, htdiv, NoCarry]
  by_cases hround : 0 ≤ o ∨ o % 10 = 0
  · rw [if_pos hround, iff_true_right hround]
    omega
  · rw [if_neg hround, iff_false_right hround]
    omega

/-- **When the chunks tile the samples after the offset, and the shifts are exact**, for all
arguments in `int`. -/
theorem chunksExact_iff (n offsetMs : ℤ) (np : ℕ) (hn : IsInt n) (hoffset : IsInt offsetMs)
    (hnp : 2 ≤ np) : ChunksExact n offsetMs np ↔ ArgsFit n offsetMs np := by
  have hcast : ((np - 1 : ℕ) : ℤ) = np - 1 := by omega
  have hshift : ∀ i, 0 ≤ (n - 16 * offsetMs).tdiv np →
      (shift n offsetMs np i = 100 * startSamples n offsetMs np i / sampleRate ↔
        NoCarry offsetMs ((i + 1) * (n - 16 * offsetMs).tdiv np)) := by
    intro i hsp
    rw [shift, samplesPerProcessor_eq, offsetT_eq hoffset, startSamples_eq]
    exact shift_eq_iff (mul_nonneg (by omega) hsp) offsetMs
  constructor
  · intro h
    obtain ⟨hle, hfirst⟩ := (tiles_iff hnp).mp h.tiles
    obtain ⟨hsp, -⟩ := mul_samplesPerProcessor_le hnp hle
    have hover := h.noOverflow
    have hrest := hover.rest.2
    have hscaled := (hover.scaled (np - 2) (by omega)).2
    rw [offsetSamples_eq] at hrest
    rw [samplesPerProcessor_eq, show ((np - 2 : ℕ) : ℤ) + 1 = np - 1 by omega] at hscaled
    exact ⟨hover.offset, hle, hrest, hfirst, hscaled,
      fun i hi => (hshift i hsp).mp (h.shift_eq i hi)⟩
  · intro h
    obtain ⟨hsp, hmul⟩ := mul_samplesPerProcessor_le hnp h.le_end
    have hrest := h.rest
    have hfirst := h.first
    have hscaled := h.scaled
    obtain ⟨hlo, hhi⟩ := hn
    -- the distances grow from one chunk to all chunks but one
    have hdist : ∀ i < np - 1, (n - 16 * offsetMs).tdiv np ≤
        (i + 1) * (n - 16 * offsetMs).tdiv np ∧
          (i + 1) * (n - 16 * offsetMs).tdiv np ≤ (np - 1) * (n - 16 * offsetMs).tdiv np := by
      intro i hi
      refine ⟨le_mul_of_one_le_left hsp (by omega), mul_le_mul_of_nonneg_right (by omega) hsp⟩
    have hend : (0 : ℤ) ≤ intEnd := by decide
    refine ⟨⟨h.offset, ?_, fun i hi => ?_, fun i hi => ?_, fun i hi => ?_, ?_⟩,
      (tiles_iff hnp).mpr ⟨h.le_end, hfirst⟩, fun i hi => (hshift i hsp).mpr (h.noCarry i hi)⟩
    · rw [offsetSamples_eq]
      exact ⟨by have := h.le_end; omega, hrest⟩
    · obtain ⟨h1, h2⟩ := hdist i hi
      rw [samplesPerProcessor_eq]
      exact ⟨by omega, by omega⟩
    · obtain ⟨h1, h2⟩ := hdist i hi
      rw [samplesPerProcessor_eq]
      exact ⟨by omega, by omega⟩
    · obtain ⟨h1, h2⟩ := hdist i hi
      rw [startSamples_eq]
      exact ⟨by omega, by omega⟩
    · obtain ⟨h1, h2⟩ := hdist (np - 2) (by omega)
      rw [startSamples_eq]
      exact ⟨by omega, by omega⟩

end Lemmas

/-- Ten minutes of audio after an offset of one second, on four processors. -/
theorem chunksExact_iff_minutes : ChunksExact 9600000 1000 4 ↔ ArgsFit 9600000 1000 4 :=
  chunksExact_iff _ _ _ (by decide) (by decide) (by decide)

/-- **An hour of audio on two processors**: the product for the shift of the second half is not in
`int`. -/
theorem not_chunksExact_hour : ¬ ChunksExact 57600000 0 2 :=
  fun h => absurd (h.noOverflow.scaled 0 (by decide)) (by decide)

end Parallel

end WhisperCpp
