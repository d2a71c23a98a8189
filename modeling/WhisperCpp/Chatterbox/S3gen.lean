import Mathlib.Data.Int.Notation
import Mathlib.Data.List.Basic
import Mathlib.Data.Nat.Notation
import Mathlib.Tactic.SplitIfs

/-!
# One synthesis with S3Gen

`s3gen_synthesize_to_wav` turns speech tokens into samples. The stages (encoder with CFM, F0 with
SineGen, STFT with HiFT) are arbitrary functions; what the code does between them, the lengths and
the errors, is as in the source. A cancelled synthesis is left out.

## Main definitions

* `S3gen` — the stages, and the sizes of the voice
* `S3genOpts` — `s3gen_synthesize_opts`
* `S3gen.synthesize` — the synthesis

## Main results

* `synthesize_spec`, `synthesize_of_lt` — which frames a synthesis gives, and when it succeeds with
  a frame
-/

namespace WhisperCpp

namespace Chatterbox

/-- The voice and the stages. `C` is what all syntheses of an engine have in common: the file, the
voice, the seed. -/
structure S3gen (C Mel K : Type*) where
  /-- `pt_data.size()`. -/
  nPrompt : C → ℕ
  /-- `pf_rows`. -/
  melLen1 : C → ℕ
  /-- The encoder and CFM, by the number of steps, the padded tokens and `T_mu`: the frames of
  `z`. -/
  flow : C → ℤ → List ℤ → ℕ → ℕ → Mel
  /-- `run_f0_predictor` and `sinegen_source`. -/
  source : C → List Mel → ℕ → K
  /-- `run_stft` and `run_hift_decode`. -/
  hift : C → List Mel → List K → ℕ → K
  /-- The second half of the fade. -/
  fadeWeight : ℕ → K

/-- The fields of `s3gen_synthesize_opts` that the engine sets. `sourceTailOut` is whether there is a
`hift_source_tail_out`. -/
structure S3genOpts (C K : Type*) where
  common : C
  cfmSteps : ℤ
  finalize : Bool := true
  appendLookaheadSilence : Bool := true
  skipMelFrames : ℤ := 0
  applyTrimFade : Bool := true
  hiftCacheSource : List K := []
  sourceTailOut : Bool := false
  sourceTailSamples : ℕ := 480

/-- What a synthesis gives: the frames that it emits, with their first, the samples, and the tail of
the source. -/
structure S3genChunk (K : Type*) where
  melOff : ℕ
  tMel : ℕ
  pcm : List K
  sourceTail : List K

/-- `pre_lookahead_len` and `kS3GenLookaheadTokens`. -/
def lookahead : ℕ := 3

/-- `kS3GenSilenceToken`. -/
def silenceToken : ℤ := 4299

/-- `upsample`. -/
def upsample : ℕ := 480

/-- A token is below `VOCAB_SIZE`. -/
def inVocab (t : ℤ) : Bool := 0 ≤ t && t < 6561

namespace S3gen

variable {C Mel K : Type*}

/-- `padded`. -/
def padded (tokens : List ℤ) (append : Bool) : List ℤ :=
  tokens.filter inVocab ++ if append then List.replicate lookahead silenceToken else []

section Fade

variable [Zero K] [Mul K] (P : S3gen C Mel K)

/-- The fade of `apply_trim_fade`. -/
def trimFade (wav : List K) : List K :=
  if 960 ≤ wav.length then
    wav.mapIdx fun i x => if i < 480 then 0 else if i < 960 then x * P.fadeWeight (i - 480) else x
  else wav

/-- The head of the source, where `hift_cache_source` is spliced in. -/
def spliceSource (cache src : List K) : List K :=
  cache.take (min cache.length src.length) ++ src.drop (min cache.length src.length)

/-- From the slice of `z` to the samples. -/
def vocode (padded : List ℤ) (tMu skip tMel : ℕ) (o : S3genOpts C K) : S3genChunk K :=
  let mel := (List.range tMel).map fun t =>
    P.flow o.common o.cfmSteps padded tMu (P.melLen1 o.common + skip + t)
  let src := spliceSource o.hiftCacheSource
    ((List.range (tMel * upsample)).map (P.source o.common mel))
  let wav := (List.range (tMel * upsample)).map (P.hift o.common mel src)
  { melOff := skip
    tMel := tMel
    pcm := if o.applyTrimFade then P.trimFade wav else wav
    sourceTail := if o.sourceTailOut then
        src.drop (src.length - min src.length o.sourceTailSamples)
      else [] }

/-- `s3gen_synthesize_to_wav`, with its return code as the error. -/
def synthesize (tokens : List ℤ) (o : S3genOpts C K) : Except ℤ (S3genChunk K) :=
  if tokens.isEmpty then .error 1
  else
    let padded := padded tokens o.appendLookaheadSilence
    let tMu := 2 * (P.nPrompt o.common + padded.length)
    let trim := if o.finalize then 0 else 2 * lookahead
    if !o.finalize && tMu ≤ trim then .error 1
    else
      let tMu := tMu - trim
      if tMu < P.melLen1 o.common then .error 1
      else
        let tMelFull := tMu - P.melLen1 o.common
        let skip := o.skipMelFrames.toNat
        if tMelFull < skip then .error 1
        else .ok (P.vocode padded tMu skip (tMelFull - skip) o)

/-- What a synthesis leaves out of the frames of the encoder: the prompt, the frames that were
emitted, and the lookahead unless it finalizes. -/
def leftOut (o : S3genOpts C K) : ℕ :=
  P.melLen1 o.common + o.skipMelFrames.toNat + if o.finalize then 0 else 2 * lookahead

/-- The frames of the encoder. -/
def encoderFrames (tokens : List ℤ) (o : S3genOpts C K) : ℕ :=
  2 * (P.nPrompt o.common + (padded tokens o.appendLookaheadSilence).length)

theorem length_trimFade (wav : List K) : (P.trimFade wav).length = wav.length := by
  rw [trimFade]
  split_ifs
  · exact List.length_mapIdx
  · rfl

theorem length_vocode (padded : List ℤ) (tMu skip tMel : ℕ) (o : S3genOpts C K) :
    (P.vocode padded tMu skip tMel o).pcm.length = tMel * upsample := by
  rw [vocode]
  dsimp only
  split_ifs
  · rw [length_trimFade, List.length_map, List.length_range]
  · rw [List.length_map, List.length_range]

variable {P} {tokens : List ℤ} {o : S3genOpts C K}

/-- A synthesis gives the frames after those that were emitted. -/
theorem synthesize_spec {c : S3genChunk K} (h : P.synthesize tokens o = .ok c) :
    c.melOff = o.skipMelFrames.toNat ∧ P.leftOut o + c.tMel = P.encoderFrames tokens o ∧
      c.pcm.length = c.tMel * upsample := by
  rw [synthesize] at h
  dsimp only at h
  rw [leftOut, encoderFrames]
  cases hfin : o.finalize with
  | true =>
    simp only [hfin, if_true, Bool.not_true, Bool.false_and, Bool.false_eq_true, if_false] at h ⊢
    split_ifs at h with hempty hprompt hskip
    cases h
    refine ⟨rfl, ?_, P.length_vocode _ _ _ _ _⟩
    simp only [vocode]
    omega
  | false =>
    simp only [hfin, Bool.not_false, Bool.true_and, decide_eq_true_eq, Bool.false_eq_true,
      if_false] at h ⊢
    split_ifs at h with hempty htrim hprompt hskip
    cases h
    refine ⟨rfl, ?_, P.length_vocode _ _ _ _ _⟩
    simp only [vocode]
    omega

/-- Where there is a frame left, a synthesis succeeds. -/
theorem synthesize_of_lt (htokens : tokens ≠ []) (h : P.leftOut o < P.encoderFrames tokens o) :
    ∃ c, P.synthesize tokens o = .ok c ∧ 0 < c.tMel := by
  have hempty : tokens.isEmpty = false := by simpa using htokens
  rw [leftOut, encoderFrames] at h
  rw [synthesize, hempty, if_neg Bool.false_ne_true]
  dsimp only
  cases hfin : o.finalize with
  | true =>
    rw [hfin] at h
    simp only [if_true] at h
    simp only [Bool.not_true, Bool.false_and, if_true, Bool.false_eq_true, if_false]
    rw [if_neg (by omega), if_neg (by omega)]
    refine ⟨_, rfl, ?_⟩
    simp only [vocode]
    omega
  | false =>
    rw [hfin] at h
    simp only [Bool.false_eq_true, if_false] at h
    simp only [Bool.not_false, Bool.true_and, decide_eq_true_eq, Bool.false_eq_true, if_false]
    rw [if_neg (by omega), if_neg (by omega), if_neg (by omega)]
    refine ⟨_, rfl, ?_⟩
    simp only [vocode]
    omega

end Fade

end S3gen

end Chatterbox

end WhisperCpp
