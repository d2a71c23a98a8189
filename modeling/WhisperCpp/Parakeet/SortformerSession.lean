import WhisperCpp.Fault
import WhisperCpp.Parakeet.Stream

/-!
# Streaming diarization

A `SortformerStreamSession` keeps the end of the signal in `ring` and diarizes a window of it for
every chunk that is complete. Without the speaker cache a window is the last `history_ms`; with it, a
window is the chunk with a context on both sides. Positions are absolute, in samples; none of them is
negative, and where the source takes the greater of `ring_origin_sample` and a difference, the
difference here ends at zero.

## Main definitions

* `diarizeStart` — `Engine::diarize_start`
* `Diarizer` — what diarizes a window
* `SortformerStreamSession`, `processChunk`, `tryEmitChunks`, `feed`, `finalize` — the session
* `SortformerStreamSession.run` — the feeds and `finalize`
-/

namespace WhisperCpp

namespace Parakeet

/-! ### Starting a session -/

/-- What `diarize_start` reads of the model. -/
structure SortformerModel where
  frames : EncoderFrames
  sortformerReady : Bool
  modelVariant : String
  nLayers : ℤ
  nMels : ℤ

/-- `SortformerStreamingOptions`, as far as they decide about windows. No product with the rate
overflows an `int`; the behaviour would be undefined. -/
structure SortformerStreamingOptions where
  sampleRate : ℤ
  chunkMs : ℤ
  historyMs : ℤ
  minSegmentMs : ℤ
  spkcacheEnable : Bool
  chunkLeftContextMs : ℤ
  chunkRightContextMs : ℤ
  chunk_lt : sampleRate * chunkMs < 2 ^ 31
  history_lt : sampleRate * historyMs < 2 ^ 31
  left_lt : sampleRate * max 0 chunkLeftContextMs < 2 ^ 31
  right_lt : sampleRate * max 0 chunkRightContextMs < 2 ^ 31

/-- The lengths of a session. -/
structure SortformerConfig where
  sampleRate : ℤ
  minSegmentMs : ℤ
  chunkSamples : ℕ
  historySamples : ℕ
  cacheActive : Bool
  chunkLeftContextSamples : ℕ
  chunkRightContextSamples : ℕ
  lcEncFramesExpected : ℕ
  rcEncFramesExpected : ℕ
  deriving DecidableEq, Repr

/-- `model_is_v2_1`. -/
def SortformerModel.isV21 (m : SortformerModel) : Bool :=
  if m.modelVariant ≠ "" then m.modelVariant == "sortformer-streaming-v2.1-aosc"
  else m.nLayers == 17 && m.nMels == 128

/-- `enc_frame_ms`, at least one. -/
def SortformerModel.encFrameMs (m : SortformerModel) : ℕ :=
  max 1 (1000 * m.frames.frameSamples / m.frames.sampleRate)

/-- `Engine::diarize_start`: the checks, with the text of the exception, and the lengths. -/
def diarizeStart (m : SortformerModel) (opts : SortformerStreamingOptions) :
    Except String SortformerConfig :=
  if m.frames.isSortformer = false ∨ m.sortformerReady = false then
    .error "Engine::diarize_start: loaded GGUF is not a Sortformer model"
  else if opts.sampleRate ≠ m.frames.sampleRate then
    .error "Engine::diarize_start: sample_rate mismatch"
  else if opts.chunkMs ≤ 0 then .error "Engine::diarize_start: chunk_ms must be > 0"
  else if opts.historyMs ≤ 0 then .error "Engine::diarize_start: history_ms must be > 0"
  else if opts.historyMs < opts.chunkMs then
    .error "Engine::diarize_start: history_ms must be >= chunk_ms"
  else
    let cacheActive := opts.spkcacheEnable && m.isV21
    let lcMs := max 0 opts.chunkLeftContextMs
    let rcMs := max 0 opts.chunkRightContextMs
    .ok
      { sampleRate := opts.sampleRate
        minSegmentMs := opts.minSegmentMs
        chunkSamples := samplesOf opts.sampleRate opts.chunkMs
        historySamples := samplesOf opts.sampleRate opts.historyMs
        cacheActive := cacheActive
        chunkLeftContextSamples := if cacheActive then samplesOf opts.sampleRate lcMs else 0
        chunkRightContextSamples := if cacheActive then samplesOf opts.sampleRate rcMs else 0
        lcEncFramesExpected := if cacheActive then lcMs.toNat / m.encFrameMs else 0
        rcEncFramesExpected := if cacheActive then rcMs.toNat / m.encFrameMs else 0 }

/-! ### Windows and segments -/

/-- A call of `process_chunk`, with the samples it reads. -/
structure ChunkWindow (α : Type*) where
  chunkIndex : ℕ
  windowStart : ℕ
  windowEnd : ℕ
  emitStart : ℕ
  emitEnd : ℕ
  isFinal : Bool
  samples : List α
  deriving DecidableEq, Repr

/-- The interval that a window emits. -/
def ChunkWindow.emits {α : Type*} (w : ChunkWindow α) : Stretch := ⟨w.emitStart, w.emitEnd⟩

/-- A segment of a window, `DiarizationSegment`. -/
structure LocalSegment (K : Type*) where
  speakerId : ℤ
  startS : K
  endS : K

/-- `StreamingDiarizationSegment`. -/
structure StreamingDiarizationSegment (K : Type*) where
  speakerId : ℤ
  startS : K
  endS : K
  chunkIndex : ℕ
  isFinal : Bool
  deriving DecidableEq, Repr

/-- What diarizes a window: the engine, with the speaker cache or with the segments of the window
before, from which it takes the speaker ids of the session. -/
structure Diarizer (σ α K : Type*) where
  diarize : σ → ChunkWindow α → List (LocalSegment K) × σ
  init : σ

section Clip

-- arithmetic of doubles: no law is used
variable {α K : Type*} [IntCast K] [Add K] [Sub K] [Div K] [Max K] [Min K] [LE K] [DecidableLE K]
  [LT K] [DecidableLT K]

/-- The segments of a window that reach into what it emits, clipped. -/
def clip (cfg : SortformerConfig) (w : ChunkWindow α) (diar : List (LocalSegment K)) :
    List (StreamingDiarizationSegment K) :=
  let emitLoS : K := ((w.emitStart : ℤ) : K) / (cfg.sampleRate : K)
  let emitHiS : K := ((w.emitEnd : ℤ) : K) / (cfg.sampleRate : K)
  let windowOffsetS : K :=
    if cfg.cacheActive then emitLoS else ((w.windowStart : ℤ) : K) / (cfg.sampleRate : K)
  diar.filterMap fun s =>
    let absStart := windowOffsetS + s.startS
    let absEnd := windowOffsetS + s.endS
    if absEnd ≤ emitLoS then none
    else if emitHiS ≤ absStart then none
    else
      let startS := max absStart emitLoS
      let endS := min absEnd emitHiS
      if endS - startS < (cfg.minSegmentMs : K) / ((1000 : ℤ) : K) then none
      else some ⟨s.speakerId, startS, endS, w.chunkIndex, w.isFinal⟩

end Clip

/-! ### The session -/

/-- `SortformerStreamSession::Impl`, with what it has done. -/
structure SortformerStreamSession (σ α K : Type*) where
  ring : List α
  ringOriginSample : ℕ
  emittedSamples : ℕ
  chunkIndex : ℕ
  finalized : Bool
  cancelled : Bool
  /-- what the diarizer remembers -/
  memory : σ
  /-- what `on_segment` was called with -/
  segments : List (StreamingDiarizationSegment K)
  /-- the windows that were diarized -/
  windows : List (ChunkWindow α)

namespace SortformerStreamSession

variable {σ α K : Type*}

/-- `available_end`. -/
def availableEnd (s : SortformerStreamSession σ α K) : ℕ := s.ringOriginSample + s.ring.length

/-- A session that has seen nothing. -/
def start (D : Diarizer σ α K) : SortformerStreamSession σ α K where
  ring := []
  ringOriginSample := 0
  emittedSamples := 0
  chunkIndex := 0
  finalized := false
  cancelled := false
  memory := D.init
  segments := []
  windows := []

/-- The ring is trimmed to what is from `keep_min_from` on. -/
def trim (keepFrom : ℕ) (s : SortformerStreamSession σ α K) :
    Except Fault (SortformerStreamSession σ α K) :=
  let keepMinFrom := max s.ringOriginSample keepFrom
  if s.ringOriginSample < keepMinFrom then
    -- the iterators of `erase` must be in the ring
    if s.availableEnd < keepMinFrom then .error .outOfBounds
    else
      .ok { s with
        ring := s.ring.drop (keepMinFrom - s.ringOriginSample)
        ringOriginSample := keepMinFrom }
  else .ok s

/-- There is a chunk, and its right context. -/
def Ready (cfg : SortformerConfig) (s : SortformerStreamSession σ α K) : Prop :=
  s.emittedSamples + cfg.chunkSamples ≤ s.availableEnd ∧
    (cfg.cacheActive → s.emittedSamples + cfg.chunkSamples + cfg.chunkRightContextSamples ≤
      s.availableEnd)

instance (cfg : SortformerConfig) (s : SortformerStreamSession σ α K) : Decidable (Ready cfg s) :=
  inferInstanceAs (Decidable (_ ∧ _))

variable [IntCast K] [Add K] [Sub K] [Div K] [Max K] [Min K] [LE K] [DecidableLE K] [LT K]
  [DecidableLT K] (cfg : SortformerConfig) (D : Diarizer σ α K)

/-- `process_chunk`, for a chunk from `emitted_samples` on. -/
def processChunk (s : SortformerStreamSession σ α K) (windowStart windowEnd emitEnd : ℕ)
    (isFinalChunk : Bool) : Except Fault (SortformerStreamSession σ α K) :=
  if s.cancelled then .ok s
  else if windowEnd ≤ windowStart then .ok s
  -- the window is read from the ring
  else if windowStart < s.ringOriginSample ∨ s.availableEnd < windowEnd then .error .outOfBounds
  else
    let window : ChunkWindow α :=
      { chunkIndex := s.chunkIndex
        windowStart := windowStart
        windowEnd := windowEnd
        emitStart := s.emittedSamples
        emitEnd := emitEnd
        isFinal := isFinalChunk
        samples := (s.ring.drop (windowStart - s.ringOriginSample)).take (windowEnd - windowStart) }
    let diar := D.diarize s.memory window
    .ok { s with
      memory := diar.2
      segments := s.segments ++ clip cfg window diar.1
      windows := s.windows ++ [window]
      emittedSamples := emitEnd
      chunkIndex := s.chunkIndex + 1 }

/-- The body of the loop of `try_emit_chunks`. -/
def emitChunk (s : SortformerStreamSession σ α K) : Except Fault (SortformerStreamSession σ α K) :=
  let emitEnd := s.emittedSamples + cfg.chunkSamples
  let windowEnd := if cfg.cacheActive then emitEnd + cfg.chunkRightContextSamples else emitEnd
  let windowStart :=
    if cfg.cacheActive then
      max s.ringOriginSample (s.emittedSamples - cfg.chunkLeftContextSamples)
    else max s.ringOriginSample (windowEnd - cfg.historySamples)
  let keepFrom :=
    if cfg.cacheActive then emitEnd - cfg.chunkLeftContextSamples
    else emitEnd - cfg.historySamples
  match s.processChunk cfg D windowStart windowEnd emitEnd false with
  | .error e => .error e
  | .ok s => s.trim keepFrom

/-- `try_emit_chunks`. A pass that emits nothing would be repeated for ever. -/
def tryEmitChunks (s : SortformerStreamSession σ α K) :
    Except Fault (SortformerStreamSession σ α K) :=
  if s.cancelled then .ok s
  else if Ready cfg s then
    match s.emitChunk cfg D with
    | .error e => .error e
    | .ok s' =>
      if s'.availableEnd - s'.emittedSamples < s.availableEnd - s.emittedSamples then
        tryEmitChunks s'
      else .error .outOfFuel
  else .ok s
termination_by s.availableEnd - s.emittedSamples

/-- `feed_pcm_f32`, and `feed_pcm_i16` with the samples it converts, on a session that is not
finalized. -/
def feed (s : SortformerStreamSession σ α K) (samples : List α) :
    Except Fault (SortformerStreamSession σ α K) :=
  if s.finalized then .error .uncaught
  else if s.cancelled then .ok s
  else if samples = [] then .ok s
  else { s with ring := s.ring ++ samples }.tryEmitChunks cfg D

/-- What is left is diarized at the end, or else a segment without a speaker ends the session. -/
def drain (s : SortformerStreamSession σ α K) : Except Fault (SortformerStreamSession σ α K) :=
  if s.emittedSamples < s.availableEnd then
    let windowStart :=
      if cfg.cacheActive then
        max s.ringOriginSample (s.emittedSamples - cfg.chunkLeftContextSamples)
      else max s.ringOriginSample (s.availableEnd - cfg.historySamples)
    s.processChunk cfg D windowStart s.availableEnd s.availableEnd true
  else if s.cancelled then .ok s
  else
    let atS : K := ((s.emittedSamples : ℤ) : K) / (cfg.sampleRate : K)
    .ok { s with segments := s.segments ++ [⟨-1, atS, atS, s.chunkIndex, true⟩] }

/-- `finalize`. -/
def finalize (s : SortformerStreamSession σ α K) : Except Fault (SortformerStreamSession σ α K) :=
  if s.finalized then .ok s
  else
    match { s with finalized := true }.tryEmitChunks cfg D with
    | .error e => .error e
    | .ok s => s.drain cfg D

/-- `cancel`. -/
def cancel (s : SortformerStreamSession σ α K) : SortformerStreamSession σ α K :=
  { s with cancelled := true }

/-- The feeds of a session, one after the other. -/
def feeds (samples : List (List α)) : Except Fault (SortformerStreamSession σ α K) :=
  samples.foldlM (feed cfg D) (start D)

/-- The feeds of a session, and then `finalize`. -/
def run (samples : List (List α)) : Except Fault (SortformerStreamSession σ α K) :=
  feeds cfg D samples >>= finalize cfg D

end SortformerStreamSession

end Parakeet

end WhisperCpp
