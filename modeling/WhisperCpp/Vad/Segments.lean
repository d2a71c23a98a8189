import Mathlib.Algebra.Order.Field.Basic
import Mathlib.Algebra.Order.Floor.Defs
import WhisperCpp.Library.Literals
import WhisperCpp.Library.Stretches
import WhisperCpp.Vad.Clock

/-!
# Speech segments from probabilities

`whisper_vad_segments_from_probs` turns the speech probability of every chunk into segments: a
scan over the chunks that finds the speech, a pass that merges neighbours, one that drops what is
too short, and one that pads. The scan works on samples; the result is in centiseconds.

The products with the sample rate are computed in `int` and may wrap around.

## Main definitions

* `VadParams` — `whisper_vad_params`
* `scanChunk`, `merge`, `pad` — the passes
* `segmentsFromProbs` — `whisper_vad_segments_from_probs`
-/

namespace WhisperCpp

namespace Vad

attribute [local instance] Literals.atLeastTwo_three Literals.atLeastTwo_twenty
  Literals.atLeastTwo_hundred

/-- `whisper_vad_params`. -/
structure VadParams (K : Type*) where
  threshold : K
  minSpeechDurationMs : ℤ
  minSilenceDurationMs : ℤ
  maxSpeechDurationS : K
  speechPadMs : ℤ
  samplesOverlap : K

/-- The part of `whisper_vad_context` that comes from the model: the samples of a chunk, which are
512 in the published models, and at least two centiseconds here. -/
structure VadContext where
  nWindow : ℤ
  le_nWindow : 320 ≤ nWindow

section Definitions

variable {K : Type*} [Field K] [LinearOrder K] (v : VadContext) (p : VadParams K)

/-- A duration in samples, `sample_rate * ms / 1000`. -/
def msToSamples (ms : ℤ) : ℤ := (toInt (sampleRate * ms)).tdiv 1000

/-- `max_speech_samples`. -/
def maxSpeechSamples [FloorRing K] : ℤ :=
  if 100000 < p.maxSpeechDurationS then intEnd / 2 - 1
  else
    let seconds := if 0 ≤ p.maxSpeechDurationS then ⌊p.maxSpeechDurationS⌋
      else ⌈p.maxSpeechDurationS⌉
    let temp := sampleRate * seconds - v.nWindow - 2 * msToSamples p.speechPadMs
    if intEnd ≤ temp ∨ temp < 0 then intEnd / 2 - 1 else temp

/-- `min_silence_samples_at_max_speech`. -/
def minSilenceAtMaxSpeech : ℤ := sampleRate * 98 / 1000

/-- `neg_threshold`, below which a chunk is silence. -/
def negThreshold : K := if p.threshold - 3 / 20 < 1 / 100 then 1 / 100 else p.threshold - 3 / 20

/-! ### The scan -/

/-- The local variables of the scan. A sample `0` in `temp_end` and `prev_end` means none. -/
structure Scan where
  speeches : List Stretch
  isSpeech : Bool
  tempEnd : ℤ
  prevEnd : ℤ
  nextStart : ℤ
  currSpeechStart : ℤ
  hasCurrSpeech : Bool

/-- Before the first chunk. -/
def Scan.start : Scan := ⟨[], false, 0, 0, 0, 0, false⟩

/-- The segment is left: `prev_end = next_start = temp_end = 0`. -/
def Scan.leave (s : Scan) : Scan :=
  { s with isSpeech := false, tempEnd := 0, prevEnd := 0, nextStart := 0, hasCurrSpeech := false }

/-- A speech is recorded. -/
def Scan.push (s : Scan) (stop : ℤ) : Scan :=
  { s with speeches := s.speeches ++ [⟨s.currSpeechStart, stop⟩] }

/-- `temp_end` is reset when there is speech again. -/
def backToSpeech (curr : ℤ) (prob : K) (s : Scan) : Scan :=
  if p.threshold ≤ prob ∧ s.tempEnd ≠ 0 then
    { s with tempEnd := 0, nextStart := if s.nextStart < s.prevEnd then curr else s.nextStart }
  else s

/-- A speech that is too long ends at the last long silence in it. -/
def splitAtSilence (s : Scan) : Scan :=
  if s.nextStart < s.prevEnd then (s.push s.prevEnd).leave
  else
    { s.push s.prevEnd with
      currSpeechStart := s.nextStart, prevEnd := 0, nextStart := 0, tempEnd := 0,
      hasCurrSpeech := true }

/-- `temp_end` and `prev_end` in a silence. -/
def inSilence (curr : ℤ) (s : Scan) : Scan :=
  let tempEnd := if s.tempEnd = 0 then curr else s.tempEnd
  { s with
    tempEnd := tempEnd
    prevEnd := if minSilenceAtMaxSpeech < curr - tempEnd then tempEnd else s.prevEnd }

/-- Silence after speech. -/
def handleSilence (curr : ℤ) (prob : K) (s : Scan) : Scan :=
  if prob < negThreshold p ∧ s.isSpeech then
    let s := inSilence curr s
    if curr - s.tempEnd < msToSamples p.minSilenceDurationMs then s
    else if msToSamples p.minSpeechDurationMs < s.tempEnd - s.currSpeechStart then
      (s.push s.tempEnd).leave
    else s.leave
  else s

/-- One round of the scan, for the chunk that begins at sample `curr`. -/
def scanChunk [FloorRing K] (curr : ℤ) (prob : K) (s : Scan) : Scan :=
  let s := backToSpeech p curr prob s
  if p.threshold ≤ prob ∧ s.isSpeech = false then
    { s with isSpeech := true, currSpeechStart := curr, hasCurrSpeech := true }
  else if s.isSpeech ∧ maxSpeechSamples v p < curr - s.currSpeechStart then
    if s.prevEnd ≠ 0 then handleSilence p curr prob (splitAtSilence s)
    else (s.push curr).leave
  else handleSilence p curr prob s

/-- The scan of the chunks from sample `curr` on. -/
def scanFrom [FloorRing K] : ℤ → List K → Scan → Scan
  | _, [], s => s
  | curr, prob :: probs, s => scanFrom (curr + v.nWindow) probs (scanChunk v p curr prob s)

/-- `audio_length_samples`. -/
def audioLength (probs : List K) : ℤ := probs.length * v.nWindow

/-- The speeches that the scan finds. -/
def speeches [FloorRing K] (probs : List K) : List Stretch :=
  let s := scanFrom v p 0 probs .start
  if s.hasCurrSpeech ∧ msToSamples p.minSpeechDurationMs <
      audioLength v probs - s.currSpeechStart then
    (s.push (audioLength v probs)).speeches
  else s.speeches

/-! ### The passes over the speeches -/

/-- `max_merge_gap_samples`. -/
def maxMergeGap : ℤ := sampleRate * 200 / 1000

/-- Neighbours with a small gap between them become one. -/
def merge : List Stretch → List Stretch
  | [] => []
  | [x] => [x]
  | x :: y :: rest =>
    if y.start - x.stop < maxMergeGap then merge (⟨x.start, y.stop⟩ :: rest)
    else x :: merge (y :: rest)
termination_by l => l.length

/-- What is too short is removed. -/
def dropShort (l : List Stretch) : List Stretch :=
  l.filter fun x => ¬ x.stop - x.start < msToSamples p.minSpeechDurationMs

/-- A start moved forward by `n` samples, but not before the audio. -/
def earlier (n start : ℤ) : ℤ := if n < start then start - n else 0

/-- An end moved back by `n` samples, but not behind the audio. -/
def later (audio n stop : ℤ) : ℤ := if stop + n < audio then stop + n else audio

/-- The padding loop. The start of the first segment is already padded. -/
def padLoop (pad audio : ℤ) : List Stretch → List Stretch
  | [] => []
  | [x] => [⟨x.start, later audio pad x.stop⟩]
  | x :: y :: rest =>
    let silence := y.start - x.stop
    if silence < 2 * pad then
      -- the segments are close: split the difference
      ⟨x.start, x.stop + silence.tdiv 2⟩ ::
        padLoop pad audio (⟨earlier (silence.tdiv 2) y.start, y.stop⟩ :: rest)
    else
      ⟨x.start, later audio pad x.stop⟩ ::
        padLoop pad audio (⟨earlier pad y.start, y.stop⟩ :: rest)
termination_by l => l.length

/-- The speeches with padding. -/
def pad (pad audio : ℤ) : List Stretch → List Stretch
  | [] => []
  | x :: rest => padLoop pad audio (⟨earlier pad x.start, x.stop⟩ :: rest)

/-- A segment in centiseconds. -/
def toCs (x : Stretch) : Stretch := ⟨samplesToCs x.start, samplesToCs x.stop⟩

/-- The segments in samples. -/
def sampleSegments [FloorRing K] (probs : List K) : List Stretch :=
  pad (msToSamples p.speechPadMs) (audioLength v probs) (dropShort p (merge (speeches v p probs)))

/-- `whisper_vad_segments_from_probs`. -/
def segmentsFromProbs [FloorRing K] (probs : List K) : List Stretch :=
  (sampleSegments v p probs).map toCs

end Definitions

end Vad

end WhisperCpp
