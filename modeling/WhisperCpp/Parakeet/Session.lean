import WhisperCpp.Library.Pieces
import WhisperCpp.Parakeet.Detokenize
import WhisperCpp.Parakeet.Stream

/-!
# Whole streaming sessions

A `StreamSession` with its encoder, its decoder and what it delivers. Encoder and decoder are
parameters. The lengths that the source casts to `int` are cast here as well.

## Main definitions

* `StreamEngine` — the encoder, the decoder and the vocabulary
* `Session`, `processWindow`, `tryEmitChunks`, `flushRemainder` — `StreamSession::Impl`
* `Op`, `Session.step`, `Session.run` — what a caller does with it
-/

namespace WhisperCpp

namespace Parakeet

/-- `StreamingSegment`, without the times it took. -/
structure StreamingSegment (K : Type*) where
  text : Text
  tokenIds : List ℤ
  startS : K
  endS : K
  chunkIndex : ℕ
  isFinal : Bool
  startsWord : Bool
  isEouBoundary : Bool

/-- What a session uses of its engine. `encode` is `compute_log_mel` with `run_encoder`, and `decode`
goes over the encoder frames from `left_drop_frames` to `center_end_frame`; it returns tokens and the
number of ends of an utterance. -/
structure StreamEngine (σ E α : Type*) where
  vocab : BpeVocab
  frameSamples : ℕ
  /-- `static_cast<float>(sample) * (1.0f / 32768.0f)` -/
  ofInt16 : Int16 → α
  encode : List α → E
  nEncFrames : E → ℕ
  decode : σ → E → ℤ → ℤ → (List ℤ × ℕ) × σ
  initState : σ

/-- `left_drop_frames` and `center_end_frame` of `process_window`, for `T_enc` frames. -/
def centerFramesOf (tEnc frameSamples : ℕ) (centerStart centerEnd : ℤ) (isFinalChunk : Bool) : ℤ × ℤ :=
  let tEnc : ℤ := tEnc
  let leftDrop : ℤ := centerStart.tdiv frameSamples
  let centerCount : ℤ := (centerEnd - centerStart).tdiv frameSamples
  let rightDrop : ℤ := if isFinalChunk then 0 else tEnc - leftDrop - centerCount
  let leftDrop := if leftDrop < 0 then 0 else leftDrop
  let leftDrop := if tEnc < leftDrop then tEnc else leftDrop
  let rightDrop := if rightDrop < 0 then 0 else rightDrop
  let rightDrop := if tEnc - leftDrop < rightDrop then tEnc - leftDrop else rightDrop
  (leftDrop, tEnc - rightDrop)

/-- For the encoder of `EncoderFrames` these are its frames. -/
theorem centerFramesOf_eq (m : EncoderFrames) (windowN centerStart centerEnd : ℕ) (isFinalChunk : Bool)
    (h : centerStart ≤ centerEnd) :
    centerFramesOf (m.nEncFrames windowN) m.frameSamples centerStart centerEnd isFinalChunk =
      centerFrames m windowN centerStart centerEnd isFinalChunk := by
  rw [centerFramesOf, centerFrames, Int.tdiv_eq_ediv_of_nonneg (by omega),
    Int.tdiv_eq_ediv_of_nonneg (by omega)]

/-- `StreamSession::Impl`. -/
structure Session {σ E α : Type*} (K : Type*) (M : StreamEngine σ E α) where
  leftHistory : List α
  pending : List α
  chunkIndex : ℕ
  emittedSamples : ℤ
  /-- the state of the decoder that the model has -/
  decoder : σ
  transcript : Transcript M.vocab
  finalized : Bool
  cancelled : Bool
  /-- what `on_segment` was called with -/
  segments : List (StreamingSegment K)

namespace Session

variable {σ E α K : Type*} [IntCast K] [Div K] {M : StreamEngine σ E α} (sampleRate : ℤ)
  (cfg : StreamConfig)

/-- A session that has seen nothing. -/
def start (K : Type*) (M : StreamEngine σ E α) : Session K M where
  leftHistory := []
  pending := []
  chunkIndex := 0
  emittedSamples := 0
  decoder := M.initState
  transcript := .empty
  finalized := false
  cancelled := false
  segments := []

/-- `starts_word` of a segment with these tokens. -/
def startsWord (vocab : BpeVocab) : List ℤ → Bool
  | [] => true
  | id :: _ => tokenIsWordStart vocab id

/-- `process_window`: of `window`, the encoder is told that it has `windowN` samples. -/
def processWindow (s : Session K M) (window : List α) (windowN centerStart centerEnd : ℤ)
    (isFinalChunk : Bool) : Session K M :=
  if s.cancelled then s
  else if windowN ≤ 0 then s
  else
    let encOut := M.encode (window.take windowN.toNat)
    let frames :=
      centerFramesOf (M.nEncFrames encOut) M.frameSamples centerStart centerEnd isFinalChunk
    let decoded := M.decode s.decoder encOut frames.1 frames.2
    let winTokens := decoded.1.1
    let segment : StreamingSegment K :=
      { text := s.transcript.winText winTokens
        tokenIds := winTokens
        startS := ((s.emittedSamples : ℤ) : K) / (sampleRate : K)
        endS := ((s.emittedSamples + (centerEnd - centerStart) : ℤ) : K) / (sampleRate : K)
        chunkIndex := s.chunkIndex
        isFinal := true
        startsWord := startsWord M.vocab winTokens
        isEouBoundary := 0 < decoded.1.2 }
    { s with
      decoder := decoded.2
      transcript := s.transcript.extend winTokens
      segments := s.segments ++ [segment]
      emittedSamples := s.emittedSamples + (centerEnd - centerStart)
      chunkIndex := s.chunkIndex + 1 }

/-- The body of the loop of `try_emit_chunks`. -/
def emitChunk (s : Session K M) : Session K M :=
  let window := s.leftHistory ++ s.pending.take (cfg.chunkSamples + cfg.rightLookaheadSamples)
  let centerStart := castInt s.leftHistory.length
  let s := s.processWindow sampleRate window (castInt window.length) centerStart
    (centerStart + cfg.chunkSamples) false
  let leftHistory := s.leftHistory ++ s.pending.take cfg.chunkSamples
  { s with
    leftHistory :=
      if cfg.leftContextSamples < castInt leftHistory.length then
        leftHistory.drop (leftHistory.length - cfg.leftContextSamples)
      else leftHistory
    pending := s.pending.drop cfg.chunkSamples }

section Fields

variable (s : Session K M) (window : List α) (n i j : ℤ) (b : Bool)

@[simp] theorem processWindow_pending :
    (s.processWindow sampleRate window n i j b).pending = s.pending := by
  rw [processWindow]
  split_ifs <;> rfl

@[simp] theorem processWindow_leftHistory :
    (s.processWindow sampleRate window n i j b).leftHistory = s.leftHistory := by
  rw [processWindow]
  split_ifs <;> rfl

@[simp] theorem processWindow_cancelled :
    (s.processWindow sampleRate window n i j b).cancelled = s.cancelled := by
  rw [processWindow]
  split_ifs <;> rfl

@[simp] theorem processWindow_finalized :
    (s.processWindow sampleRate window n i j b).finalized = s.finalized := by
  rw [processWindow]
  split_ifs <;> rfl

@[simp] theorem emitChunk_pending :
    (s.emitChunk sampleRate cfg).pending = s.pending.drop cfg.chunkSamples := by
  simp [emitChunk]

@[simp] theorem emitChunk_cancelled : (s.emitChunk sampleRate cfg).cancelled = s.cancelled := by
  simp [emitChunk]

@[simp] theorem emitChunk_finalized : (s.emitChunk sampleRate cfg).finalized = s.finalized := by
  simp [emitChunk]

theorem emitChunk_leftHistory :
    (s.emitChunk sampleRate cfg).leftHistory =
      let leftHistory := s.leftHistory ++ s.pending.take cfg.chunkSamples
      if cfg.leftContextSamples < castInt leftHistory.length then
        leftHistory.drop (leftHistory.length - cfg.leftContextSamples)
      else leftHistory := by
  simp [emitChunk]

end Fields

/-- `try_emit_chunks`: the samples that wait are counted by an `int`. -/
def tryEmitChunks (hpos : 0 < cfg.chunkSamples) (s : Session K M) : Session K M :=
  if s.cancelled = false ∧
      ((cfg.chunkSamples + cfg.rightLookaheadSamples : ℕ) : ℤ) ≤ castInt s.pending.length then
    tryEmitChunks hpos (s.emitChunk sampleRate cfg)
  else s
termination_by s.pending.length
decreasing_by
  rename_i hready
  have hle := castInt_le s.pending.length
  rw [emitChunk_pending, List.length_drop]
  omega

/-- `flush_remainder`. -/
def flushRemainder (s : Session K M) : Session K M :=
  if s.cancelled then s
  else if s.pending = [] then s
  else
    let window := s.leftHistory ++ s.pending
    let centerStart := castInt s.leftHistory.length
    let s' := s.processWindow sampleRate window (castInt window.length) centerStart
      (centerStart + castInt s.pending.length) true
    { s' with pending := [], leftHistory := [] }

/-- `feed_pcm_f32`; it throws on a session that is finalized. -/
def feedPcmF32 (hpos : 0 < cfg.chunkSamples) (s : Session K M) (samples : List α) :
    Except String (Session K M) :=
  if s.finalized then .error "StreamSession::feed_pcm_f32: session already finalized"
  else if s.cancelled then .ok s
  else if samples = [] then .ok s
  else .ok ({ s with pending := s.pending ++ samples }.tryEmitChunks sampleRate cfg hpos)

/-- `feed_pcm_i16`. -/
def feedPcmI16 (hpos : 0 < cfg.chunkSamples) (s : Session K M) (samples : List Int16) :
    Except String (Session K M) :=
  if s.finalized then .error "StreamSession::feed_pcm_i16: session already finalized"
  else if s.cancelled then .ok s
  else if samples = [] then .ok s
  else
    .ok ({ s with pending := s.pending ++ samples.map M.ofInt16 }.tryEmitChunks sampleRate cfg hpos)

/-- `finalize`. -/
def finalize (hpos : 0 < cfg.chunkSamples) (s : Session K M) : Session K M :=
  if s.finalized then s
  else
    ({ s with finalized := true }.tryEmitChunks sampleRate cfg hpos).flushRemainder sampleRate

/-- `cancel`. -/
def cancel (s : Session K M) : Session K M := { s with cancelled := true }

end Session

/-- Samples that an `int` can count. -/
abbrev Pcm (β : Type*) := { samples : List β // samples.length < 2147483648 }

/-- A call of one of the two feed functions. -/
inductive Feed (α : Type*)
  | f32 (samples : Pcm α)
  | i16 (samples : Pcm Int16)

/-- The samples of a feed, as floats. -/
def Feed.samples {σ E α : Type*} (M : StreamEngine σ E α) : Feed α → List α
  | .f32 samples => samples.1
  | .i16 samples => samples.1.map M.ofInt16

/-- A call of the caller. -/
inductive Op (α : Type*)
  | feed (f : Feed α)
  | finalize
  | cancel

namespace Session

variable {σ E α K : Type*} [IntCast K] [Div K] {M : StreamEngine σ E α} (sampleRate : ℤ)
  (cfg : StreamConfig) (hpos : 0 < cfg.chunkSamples)

/-- A feed. -/
def feed (s : Session K M) : Feed α → Except String (Session K M)
  | .f32 samples => s.feedPcmF32 sampleRate cfg hpos samples.1
  | .i16 samples => s.feedPcmI16 sampleRate cfg hpos samples.1

/-- A call. One that throws leaves the session as it is. -/
def step (s : Session K M) : Op α → Session K M
  | .feed f => (s.feed sampleRate cfg hpos f).toOption.getD s
  | .finalize => s.finalize sampleRate cfg hpos
  | .cancel => s.cancel

/-- The calls one after the other. -/
def run (s : Session K M) (ops : List (Op α)) : Session K M :=
  ops.foldl (step sampleRate cfg hpos) s

end Session

end Parakeet

end WhisperCpp
