import WhisperCpp.Chatterbox.Streaming

/-!
# An utterance in one chunk

Where one chunk covers the utterance, `synthesize_streaming` and `synthesize_batch` run the same
stages on the same tokens. The first chunk is always faded in; a batch is only for a voice that
comes from a recording.

## Main definitions

* `S3gen.streamedPcm`, `S3gen.batchPcm` — the samples of the two ways
* `S3gen.SameAudio` — the two ways give the same samples, whatever the stages do

## Main results

* `sameAudio_iff` — when they do
-/

namespace WhisperCpp

namespace Chatterbox

namespace S3gen

variable {C Mel K : Type*} [Zero K] [Mul K]

/-- What `synthesize_streaming` delivers, unless it throws. -/
def streamedPcm (P : S3gen C Mel K) (o : EngineOpts C) (tokens : List ℤ) : Option (List K) :=
  match P.synthesizeStreaming o tokens with
  | .ok (.ok cs) => some (cs.flatMap fun c => c.pcm)
  | _ => none

/-- What `synthesize_batch` returns, unless it throws. -/
def batchPcm (P : S3gen C Mel K) (o : EngineOpts C) (tokens : List ℤ) : Option (List K) :=
  match P.synthesizeBatch o tokens with
  | .ok c => some c.pcm
  | .error _ => none

/-- For the sizes of a voice, the two ways give the same samples, whatever the stages do. -/
def SameAudio (P : S3gen C Mel K) (o : EngineOpts C) (tokens : List ℤ) : Prop :=
  ∀ Q : S3gen C Mel K, Q.nPrompt = P.nPrompt → Q.melLen1 = P.melLen1 →
    Q.streamedPcm o tokens = Q.batchPcm o tokens

/-- The frames of the utterance, negative where the prompt is longer than what the encoder gives. -/
def frames (P : S3gen C Mel K) (common : C) (tokens : List ℤ) : ℤ :=
  2 * (P.nPrompt common + (tokens.countP inVocab + lookahead)) - P.melLen1 common

/-- The samples before the fade. -/
def unfaded (P : S3gen C Mel K) (o : EngineOpts C) (tokens : List ℤ) : List K :=
  let padded := padded tokens true
  let tMu := 2 * (P.nPrompt o.common + padded.length)
  (P.vocode padded tMu 0 (tMu - P.melLen1 o.common)
    { common := o.common, cfmSteps := o.cfmSteps, applyTrimFade := false }).pcm

section OneChunk

variable (P : S3gen C Mel K) (o : EngineOpts C) (tokens : List ℤ)

/-- The silence that streaming appends is the silence that a batch pads with. -/
theorem padded_segToks : padded (segToks tokens) false = padded tokens true := by
  rw [padded, padded, segToks, List.filter_append]
  exact List.append_nil _

theorem length_unfaded : (P.unfaded o tokens).length = (P.frames o.common tokens).toNat * 480 := by
  rw [unfaded, length_vocode, upsample, padded, frames, List.countP_eq_length_filter]
  simp only [if_true, List.length_append, List.length_replicate]
  congr 1
  omega

/-- A synthesis of the whole utterance from its start. -/
theorem synthesize_all {toks : List ℤ} (opts : S3genOpts C K) (htoks : toks ≠ [])
    (hcommon : opts.common = o.common) (hsteps : opts.cfmSteps = o.cfmSteps)
    (hfin : opts.finalize = true) (hskip : opts.skipMelFrames = 0)
    (hcache : opts.hiftCacheSource = [])
    (hpadded : padded toks opts.appendLookaheadSilence = padded tokens true) :
    P.synthesize toks opts = .error 1 ∧ P.frames o.common tokens < 0 ∨
      ∃ c, P.synthesize toks opts = .ok c ∧ 0 ≤ P.frames o.common tokens ∧
        c.pcm = if opts.applyTrimFade then P.trimFade (P.unfaded o tokens)
          else P.unfaded o tokens := by
  have hlen : (padded tokens true).length = tokens.countP inVocab + lookahead := by
    rw [padded, List.countP_eq_length_filter, if_pos rfl, List.length_append,
      List.length_replicate]
  rw [synthesize, if_neg (by simpa using htoks)]
  simp only [hfin, Bool.not_true, Bool.false_and, Bool.false_eq_true, if_false, if_true, hcommon,
    hskip, hpadded, Int.toNat_zero, Nat.not_lt_zero, Nat.sub_zero]
  by_cases hprompt : 2 * (P.nPrompt o.common + (padded tokens true).length) < P.melLen1 o.common
  · rw [if_pos hprompt]
    refine .inl ⟨rfl, ?_⟩
    rw [frames]
    omega
  · rw [if_neg hprompt]
    refine .inr ⟨_, rfl, ?_, ?_⟩
    · rw [frames]
      omega
    · rw [unfaded, vocode, vocode]
      simp only [hcommon, hsteps, hcache, Bool.false_eq_true, if_false]

theorem batchPcm_eq : P.batchPcm o tokens =
    if tokens = [] ∨ P.frames o.common tokens < 0 then none
    else some (if o.hasVoiceOverride then P.trimFade (P.unfaded o tokens)
      else P.unfaded o tokens) := by
  rw [batchPcm, synthesizeBatch]
  by_cases hempty : tokens = []
  · rw [if_pos (.inl hempty), hempty]
    rfl
  rcases P.synthesize_all o tokens (batchOpts o) hempty rfl rfl rfl rfl rfl rfl with
    ⟨herr, hneg⟩ | ⟨c, hc, hnonneg, hpcm⟩
  · rw [herr, if_pos (.inr hneg)]
  · rw [hc, if_neg (not_or.mpr ⟨hempty, hnonneg.not_gt⟩)]
    exact congrArg some hpcm

variable {o tokens}

theorem streamedPcm_eq
    (hone : boundaries o.firstChunkN o.chunkN (segToks tokens).length =
      .ok [0, (segToks tokens).length])
    (hsteps : o.streamCfmSteps = o.cfmSteps) :
    P.streamedPcm o tokens =
      if P.frames o.common tokens < 0 then none
      else some (P.trimFade (P.unfaded o tokens)) := by
  have hseg : segToks tokens ≠ [] := by
    rw [← List.length_pos_iff, length_segToks, lookahead]
    omega
  rw [streamedPcm, synthesizeStreaming, hone]
  dsimp only [List.tail_cons]
  rw [streamChunks, List.take_length, beq_self_eq_true]
  rcases P.synthesize_all o tokens (chunkOpts o true true [] 0) hseg rfl hsteps rfl rfl rfl
    (padded_segToks tokens) with ⟨herr, hneg⟩ | ⟨c, hc, hnonneg, hpcm⟩
  · rw [herr, if_pos hneg]
    rfl
  · rw [hc, if_neg hnonneg.not_gt, ← List.append_nil (P.trimFade _)]
    exact congrArg (fun l => some (l ++ [])) hpcm

theorem trimFade_of_lt {wav : List K} (hlen : wav.length < 960) : P.trimFade wav = wav := by
  rw [trimFade, if_neg (by omega)]

/-- The fade starts with silence. -/
theorem getElem?_trimFade_zero {wav : List K} (hlen : 960 ≤ wav.length) :
    (P.trimFade wav)[0]? = some 0 := by
  rw [trimFade, if_pos hlen, List.getElem?_mapIdx, List.getElem?_eq_getElem (by omega)]
  rfl

/-- Stages that give the same sample everywhere. -/
theorem getElem?_unfaded_zero (a : K) (hlen : 0 < P.frames o.common tokens) :
    (unfaded { P with hift := fun _ _ _ _ => a } o tokens)[0]? = some a := by
  have hlength := length_unfaded { P with hift := fun _ _ _ _ => a } o tokens
  have hframes : frames { P with hift := fun _ _ _ _ => a } o.common tokens =
      P.frames o.common tokens := rfl
  rw [hframes] at hlength
  rw [List.getElem?_eq_getElem (by omega)]
  simp [unfaded, vocode]

/-- Exactly when streaming in one chunk gives what a batch gives. -/
theorem sameAudio_iff [Nontrivial K]
    (hone : boundaries o.firstChunkN o.chunkN (segToks tokens).length =
      .ok [0, (segToks tokens).length])
    (hsteps : o.streamCfmSteps = o.cfmSteps) :
    P.SameAudio o tokens ↔ P.frames o.common tokens < 0 ∨
      tokens ≠ [] ∧ (o.hasVoiceOverride ∨ P.frames o.common tokens < 2) := by
  constructor
  · intro h
    by_contra hcond
    obtain ⟨hnonneg, hcond⟩ := not_or.mp hcond
    by_cases hempty : tokens = []
    · have hsame := h P rfl rfl
      rw [streamedPcm_eq P hone hsteps, batchPcm_eq, if_neg hnonneg, if_pos (.inl hempty)] at hsame
      exact nomatch hsame
    · obtain ⟨hvoice, hlong⟩ := not_or.mp (not_and.mp hcond hempty)
      obtain ⟨a, ha⟩ := exists_ne (0 : K)
      have hsame := h { P with hift := fun _ _ _ _ => a } rfl rfl
      set Q : S3gen C Mel K := { P with hift := fun _ _ _ _ => a }
      have hframes : Q.frames o.common tokens = P.frames o.common tokens := rfl
      have hlen : 960 ≤ (Q.unfaded o tokens).length := by
        rw [length_unfaded, hframes]
        omega
      rw [streamedPcm_eq Q hone hsteps, batchPcm_eq, hframes, if_neg hnonneg,
        if_neg (not_or.mpr ⟨hempty, hnonneg⟩), if_neg hvoice] at hsame
      -- The first sample is silent only where it is faded in.
      have hhead := congrArg (fun wav => wav[0]?) (Option.some.inj hsame)
      rw [Q.getElem?_trimFade_zero hlen, P.getElem?_unfaded_zero a (by omega)] at hhead
      exact ha (Option.some.inj hhead).symm
  · rintro hcond Q hprompt hmel
    have hframes : Q.frames o.common tokens = P.frames o.common tokens := by
      rw [frames, frames, hprompt, hmel]
    rw [streamedPcm_eq Q hone hsteps, batchPcm_eq, hframes]
    rcases hcond with hneg | ⟨hne, hvoice | hshort⟩
    · rw [if_pos hneg, if_pos (.inr hneg)]
    · simp only [hne, false_or, if_pos hvoice]
    · have hlen : (Q.unfaded o tokens).length < 960 := by
        rw [length_unfaded, hframes]
        omega
      simp only [hne, false_or, Q.trimFade_of_lt hlen, ite_self]

/-- A recorded voice and thirty tokens in one chunk. -/
theorem sameAudio_recorded : smallVoice.SameAudio
    { chunksOf25 40 with streamCfmSteps := 10, hasVoiceOverride := true } (List.replicate 30 7) :=
  (sameAudio_iff smallVoice rfl rfl).mpr (.inr ⟨by decide, .inl rfl⟩)

/-- Streaming fades the built-in voice in, and a batch does not. -/
theorem not_sameAudio : ¬∀ (P : S3gen Unit Unit ℤ) (o : EngineOpts Unit) (tokens : List ℤ),
    boundaries o.firstChunkN o.chunkN (segToks tokens).length =
      .ok [0, (segToks tokens).length] →
    o.streamCfmSteps = o.cfmSteps → P.streamedPcm o tokens = P.batchPcm o tokens := by
  intro h
  set P : S3gen Unit Unit ℤ := { smallVoice with hift := fun _ _ _ _ => 1 }
  set o : EngineOpts Unit := { chunksOf25 40 with streamCfmSteps := 10 }
  have hframes : P.frames o.common [7] = 8 := by decide
  have hlen : 960 ≤ (P.unfaded o [7]).length := by
    rw [length_unfaded, hframes]
    decide
  have hsame := h P o [7] rfl rfl
  rw [streamedPcm_eq P rfl rfl, batchPcm_eq, hframes, if_neg (by decide), if_neg (by decide),
    if_neg (by decide)] at hsame
  have hhead := congrArg (fun wav => wav[0]?) (Option.some.inj hsame)
  rw [P.getElem?_trimFade_zero hlen,
    smallVoice.getElem?_unfaded_zero 1 (by decide)] at hhead
  exact absurd hhead (by decide)

end OneChunk

end S3gen

end Chatterbox

end WhisperCpp
