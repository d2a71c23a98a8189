import Mathlib.Logic.Function.Iterate
import WhisperCpp.Parakeet.Feeds
import WhisperCpp.Parakeet.SortformerWindows

/-!
# The lengths that a session starts with

`stream_start` and `diarize_start` check the milliseconds of their options and multiply them by the
sample rate in `int`. The rate of the model is what the file says. The product can overflow, and for
a low rate the length of a chunk can be zero; then the loop that emits chunks does not advance.

## Main definitions

* `lengthOf` — a length in samples, as the source computes it
* `streamLengths`, `diarizeLengths` — `Engine::stream_start` and `Engine::diarize_start`
* `LoopEnds` — the loop of `try_emit_chunks` ends

## Main results

* `streamLengths_eq`, `diarizeLengths_eq` — without overflow the lengths are those of the sessions
* `lengthOf_eq_some_iff` — when there is no overflow
* `loopEnds` — with a chunk the loop ends
* `start_sound_iff` — when the lengths are sound
-/

namespace WhisperCpp

namespace Parakeet

/-! ### Lengths -/

/-- A product of two `int`s. What is too large for one is undefined. -/
def mulInt (a b : ℤ) : Option ℤ :=
  if -2147483648 ≤ a * b ∧ a * b < 2147483648 then some (a * b) else none

/-- `sr * ms / 1000`. -/
def lengthOf (sr ms : ℤ) : Option ℤ := (mulInt sr ms).map fun n => n.tdiv 1000

/-- `chunk_samples`, `left_context_samples` and `right_lookahead_samples`. -/
structure StreamLengths where
  chunkSamples : ℤ
  leftContextSamples : ℤ
  rightLookaheadSamples : ℤ
  deriving DecidableEq, Repr

/-- `Engine::stream_start` for a model with this rate. Without a value a length is undefined. -/
def streamLengths (modelRate : ℤ) (isSortformer : Bool) (opts : StreamingOptions) :
    Except String (Option StreamLengths) :=
  if opts.sampleRate ≠ modelRate then
    .error ("Engine::stream_start: opts.sample_rate=" ++ toString opts.sampleRate ++
      " does not match model rate=" ++ toString modelRate)
  else if opts.chunkMs ≤ 0 then .error "Engine::stream_start: chunk_ms must be > 0"
  else if opts.leftContextMs < 0 ∨ opts.rightLookaheadMs < 0 then
    .error "Engine::stream_start: left_context_ms and right_lookahead_ms must be >= 0"
  else if isSortformer then
    .error ("Engine::stream_start: streaming is for transcription models only; " ++
      "Sortformer is a diarization model. Use Engine::diarize().")
  else
    .ok do
      let chunkSamples ← lengthOf opts.sampleRate opts.chunkMs
      let leftContextSamples ← lengthOf opts.sampleRate opts.leftContextMs
      let rightLookaheadSamples ← lengthOf opts.sampleRate opts.rightLookaheadMs
      return ⟨chunkSamples, leftContextSamples, rightLookaheadSamples⟩

/-- `SortformerStreamingOptions`, as far as they decide about lengths. -/
structure DiarizeOptions where
  sampleRate : ℤ
  chunkMs : ℤ
  historyMs : ℤ
  spkcacheEnable : Bool
  chunkLeftContextMs : ℤ
  chunkRightContextMs : ℤ

/-- The lengths of a diarization session. -/
structure DiarizeLengths where
  chunkSamples : ℤ
  historySamples : ℤ
  cacheActive : Bool
  chunkLeftContextSamples : ℤ
  chunkRightContextSamples : ℤ
  deriving DecidableEq, Repr

/-- The lengths of accepted options. -/
def lengthsOf (isV21 : Bool) (opts : DiarizeOptions) : Option DiarizeLengths := do
  let chunkSamples ← lengthOf opts.sampleRate opts.chunkMs
  let historySamples ← lengthOf opts.sampleRate opts.historyMs
  if opts.spkcacheEnable && isV21 then
    let lc ← lengthOf opts.sampleRate (max 0 opts.chunkLeftContextMs)
    let rc ← lengthOf opts.sampleRate (max 0 opts.chunkRightContextMs)
    return ⟨chunkSamples, historySamples, true, lc, rc⟩
  else return ⟨chunkSamples, historySamples, false, 0, 0⟩

/-- `Engine::diarize_start` for a model with this rate; `ready` says that it is a Sortformer model and
loaded, `isV21` is `model_is_v2_1`. -/
def diarizeLengths (modelRate : ℤ) (ready isV21 : Bool) (opts : DiarizeOptions) :
    Except String (Option DiarizeLengths) :=
  if ready = false then .error "Engine::diarize_start: loaded GGUF is not a Sortformer model"
  else if opts.sampleRate ≠ modelRate then .error "Engine::diarize_start: sample_rate mismatch"
  else if opts.chunkMs ≤ 0 then .error "Engine::diarize_start: chunk_ms must be > 0"
  else if opts.historyMs ≤ 0 then .error "Engine::diarize_start: history_ms must be > 0"
  else if opts.historyMs < opts.chunkMs then
    .error "Engine::diarize_start: history_ms must be >= chunk_ms"
  else .ok (lengthsOf isV21 opts)

theorem lengthOf_eq_some_iff {sr ms n : ℤ} :
    lengthOf sr ms = some n ↔
      (-2147483648 ≤ sr * ms ∧ sr * ms < 2147483648) ∧ (sr * ms).tdiv 1000 = n := by
  rw [lengthOf, mulInt]
  split_ifs with hfits
  · simp [hfits]
  · simp [hfits]

/-- A length that is not negative. -/
theorem lengthOf_of_lt {sr ms : ℤ} (hnonneg : 0 ≤ sr * ms) (hlt : sr * ms < 2147483648) :
    lengthOf sr ms = some (samplesOf sr ms : ℤ) := by
  rw [lengthOf_eq_some_iff, samplesOf, Int.toNat_of_nonneg (Int.tdiv_nonneg hnonneg (by decide))]
  exact ⟨⟨by omega, hlt⟩, rfl⟩

/-- The lengths of a session, as `int`s. -/
def StreamConfig.lengths (cfg : StreamConfig) : StreamLengths :=
  ⟨cfg.chunkSamples, cfg.leftContextSamples, cfg.rightLookaheadSamples⟩

/-- Without overflow the lengths are those of the session. -/
theorem streamLengths_eq {m : EncoderFrames} {opts : StreamingOptions} (h : opts.NoOverflow) :
    streamLengths m.sampleRate m.isSortformer opts =
      (streamStart m opts).map fun cfg => some cfg.lengths := by
  rw [streamLengths, streamStart]
  split_ifs with hrate hchunk hcontext hsort
  · rfl
  · rfl
  · rfl
  · rfl
  · have hrate : 0 ≤ opts.sampleRate := by omega
    have hchunk' := lengthOf_of_lt (mul_nonneg hrate (by omega)) h.chunk
    have hleft := lengthOf_of_lt (mul_nonneg hrate (by omega)) h.left
    have hright := lengthOf_of_lt (mul_nonneg hrate (by omega)) h.right
    rw [hchunk', hleft, hright]
    rfl

/-- The options of a session, without what is known of them. -/
abbrev SortformerStreamingOptions.toDiarizeOptions (opts : SortformerStreamingOptions) :
    DiarizeOptions :=
  ⟨opts.sampleRate, opts.chunkMs, opts.historyMs, opts.spkcacheEnable, opts.chunkLeftContextMs,
    opts.chunkRightContextMs⟩

/-- The lengths of a session, as `int`s. -/
def SortformerConfig.lengths (cfg : SortformerConfig) : DiarizeLengths :=
  ⟨cfg.chunkSamples, cfg.historySamples, cfg.cacheActive, cfg.chunkLeftContextSamples,
    cfg.chunkRightContextSamples⟩

/-- Without overflow the lengths are those of the session. -/
theorem diarizeLengths_eq (m : SortformerModel) (opts : SortformerStreamingOptions) :
    diarizeLengths m.frames.sampleRate (m.frames.isSortformer && m.sortformerReady) m.isV21
        opts.toDiarizeOptions =
      (diarizeStart m opts).map fun cfg => some cfg.lengths := by
  have hand : (m.frames.isSortformer && m.sortformerReady) = false ↔
      m.frames.isSortformer = false ∨ m.sortformerReady = false := Bool.and_eq_false_iff
  rw [diarizeLengths, diarizeStart]
  by_cases hready : m.frames.isSortformer = false ∨ m.sortformerReady = false
  · rw [if_pos hready, if_pos (hand.2 hready)]
    rfl
  rw [if_neg hready, if_neg (mt hand.1 hready)]
  split_ifs with hrate hchunk hhistory hle
  · rfl
  · rfl
  · rfl
  · rfl
  dsimp only at hrate hchunk hhistory
  have hrate : 0 ≤ opts.sampleRate := by omega
  have hchunk' := lengthOf_of_lt (mul_nonneg hrate (by omega)) opts.chunk_lt
  have hhistory' := lengthOf_of_lt (mul_nonneg hrate (by omega)) opts.history_lt
  have hleft := lengthOf_of_lt (mul_nonneg hrate (le_max_left _ _)) opts.left_lt
  have hright := lengthOf_of_lt (mul_nonneg hrate (le_max_left _ _)) opts.right_lt
  rw [lengthsOf, hchunk', hhistory', hleft, hright]
  cases hactive : opts.spkcacheEnable && m.isV21 <;>
    simp [Except.map, SortformerConfig.lengths]

/-! ### The loops -/

namespace Session

variable {σ E α K : Type*} [IntCast K] [Div K] {M : StreamEngine σ E α} (sampleRate : ℤ)
  (cfg : StreamConfig)

/-- The condition of the loop of `try_emit_chunks`. -/
def Waiting (s : Session K M) : Prop :=
  s.cancelled = false ∧
    ((cfg.chunkSamples + cfg.rightLookaheadSamples : ℕ) : ℤ) ≤ castInt s.pending.length

/-- The loop ends: after some passes its condition fails. -/
def LoopEnds (s : Session K M) : Prop :=
  ∃ n, ¬ Waiting cfg ((emitChunk sampleRate cfg)^[n] s)

variable {sampleRate cfg} {s : Session K M}

/-- **With a chunk the loop ends**, where `tryEmitChunks` says. -/
theorem loopEnds (hpos : 0 < cfg.chunkSamples) (s : Session K M) :
    ∃ n, s.tryEmitChunks sampleRate cfg hpos = (emitChunk sampleRate cfg)^[n] s ∧
      ¬ Waiting cfg ((emitChunk sampleRate cfg)^[n] s) := by
  fun_induction tryEmitChunks sampleRate cfg hpos s with
  | case1 s hwaiting ih =>
    obtain ⟨n, heq, hend⟩ := ih
    refine ⟨n + 1, ?_, ?_⟩
    · rw [Function.iterate_succ_apply, heq]
    · rw [Function.iterate_succ_apply]
      exact hend
  | case2 s hend =>
    refine ⟨0, rfl, ?_⟩
    rw [Function.iterate_zero_apply, Waiting]
    exact hend

/-- Without one it does not: a pass takes nothing away. -/
theorem not_loopEnds (hzero : cfg.chunkSamples = 0) (hwaiting : Waiting cfg s) :
    ¬ LoopEnds sampleRate cfg s := by
  rintro ⟨n, hend⟩
  refine hend ?_
  clear hend
  induction n with
  | zero => exact hwaiting
  | succ n ih =>
    rw [Function.iterate_succ_apply', Waiting, emitChunk_cancelled, emitChunk_pending, hzero,
      List.drop_zero]
    rw [Waiting, hzero] at ih
    exact ih

end Session

/-! ### Sound lengths -/

section Sound

variable {σ E α K : Type*} [IntCast K] [Div K] (M : StreamEngine σ E α)

/-- The lengths of a session in natural numbers. -/
def StreamLengths.toConfig (l : StreamLengths) : StreamConfig :=
  ⟨l.chunkSamples.toNat, l.leftContextSamples.toNat, l.rightLookaheadSamples.toNat⟩

variable (K) in
/-- The lengths are defined, a chunk has samples, and the loop ends for every session. -/
def StreamSound (r : Option StreamLengths) : Prop :=
  ∃ l, r = some l ∧ 0 < l.chunkSamples ∧
    ∀ (sampleRate : ℤ) (s : Session K M), s.LoopEnds sampleRate l.toConfig

variable (σ α K) in
/-- The lengths are defined, a chunk has samples, and every run of a session ends. -/
def DiarizeSound [Add K] [Sub K] [Max K] [Min K] [LE K] [DecidableLE K] [LT K] [DecidableLT K]
    (r : Option DiarizeLengths) : Prop :=
  ∃ l, r = some l ∧ 0 < l.chunkSamples ∧
    ∀ cfg : SortformerConfig, cfg.lengths = l → ∀ (D : Diarizer σ α K) (samples : List (List α)),
      ∃ s, SortformerStreamSession.run cfg D samples = .ok s

theorem tdiv_thousand_pos {n : ℤ} : 0 < n.tdiv 1000 ↔ 1000 ≤ n := by
  obtain hnonneg | hneg := Int.le_total 0 n
  · rw [Int.tdiv_eq_ediv_of_nonneg hnonneg]
    omega
  · have hle := Int.tdiv_le_tdiv (by decide : (0 : ℤ) < 1000) hneg
    rw [Int.zero_tdiv] at hle
    omega

/-- **The lengths of `stream_start`** are sound iff the products fit and a chunk is long enough. -/
theorem streamSound_iff {modelRate : ℤ} {isSortformer : Bool} {opts : StreamingOptions}
    {r : Option StreamLengths} (h : streamLengths modelRate isSortformer opts = .ok r) :
    StreamSound K M r ↔
      1000 ≤ opts.sampleRate * opts.chunkMs ∧ opts.sampleRate * opts.chunkMs < 2147483648 ∧
        opts.sampleRate * opts.leftContextMs < 2147483648 ∧
        opts.sampleRate * opts.rightLookaheadMs < 2147483648 := by
  rw [streamLengths] at h
  split_ifs at h with hrate hchunk hcontext hsort
  obtain rfl := Except.ok.inj h
  constructor
  · rintro ⟨l, hl, hpos, -⟩
    simp only [Option.bind_eq_bind, Option.bind_eq_some_iff, lengthOf_eq_some_iff] at hl
    obtain ⟨chunk, ⟨hfits, rfl⟩, left, ⟨hleft, rfl⟩, right, ⟨hright, rfl⟩, hl⟩ := hl
    obtain rfl := Option.some.inj hl
    exact ⟨tdiv_thousand_pos.1 hpos, hfits.2, hleft.2, hright.2⟩
  · rintro ⟨hge, hfits, hleft, hright⟩
    have hsr : 0 ≤ opts.sampleRate := by
      by_contra hneg
      have := mul_nonpos_of_nonpos_of_nonneg (not_le.1 hneg).le (not_le.1 hchunk).le
      omega
    rw [lengthOf_of_lt (by omega) hfits, lengthOf_of_lt (mul_nonneg hsr (by omega)) hleft,
      lengthOf_of_lt (mul_nonneg hsr (by omega)) hright]
    have hpos : 0 < samplesOf opts.sampleRate opts.chunkMs := by
      have := tdiv_thousand_pos.2 hge
      rw [samplesOf]
      omega
    refine ⟨_, rfl, Int.natCast_pos.2 hpos, fun sampleRate s => ?_⟩
    exact (Session.loopEnds hpos s).imp fun n hn => hn.2

/-- **The lengths of `diarize_start`** are sound iff the products that it needs fit and a chunk is long
enough. -/
theorem diarizeSound_iff [Add K] [Sub K] [Max K] [Min K] [LE K] [DecidableLE K] [LT K]
    [DecidableLT K] {modelRate : ℤ} {ready isV21 : Bool} {opts : DiarizeOptions}
    {r : Option DiarizeLengths} (h : diarizeLengths modelRate ready isV21 opts = .ok r) :
    DiarizeSound σ α K r ↔
      1000 ≤ opts.sampleRate * opts.chunkMs ∧ opts.sampleRate * opts.chunkMs < 2147483648 ∧
        opts.sampleRate * opts.historyMs < 2147483648 ∧
        ((opts.spkcacheEnable && isV21) = true →
          opts.sampleRate * max 0 opts.chunkLeftContextMs < 2147483648 ∧
            opts.sampleRate * max 0 opts.chunkRightContextMs < 2147483648) := by
  rw [diarizeLengths] at h
  split_ifs at h with hready hrate hchunk hhistory hle
  obtain rfl := Except.ok.inj h
  constructor
  · rintro ⟨l, hl, hpos, -⟩
    simp only [lengthsOf, Option.bind_eq_bind, Option.bind_eq_some_iff, lengthOf_eq_some_iff] at hl
    obtain ⟨chunk, ⟨hfits, rfl⟩, history, ⟨hfits', rfl⟩, hl⟩ := hl
    split_ifs at hl with hactive
    · simp only [Option.bind_eq_some_iff, lengthOf_eq_some_iff] at hl
      obtain ⟨lc, ⟨hleft, rfl⟩, rc, ⟨hright, rfl⟩, hl⟩ := hl
      obtain rfl := Option.some.inj hl
      exact ⟨tdiv_thousand_pos.1 hpos, hfits.2, hfits'.2, fun _ => ⟨hleft.2, hright.2⟩⟩
    · obtain rfl := Option.some.inj hl
      exact ⟨tdiv_thousand_pos.1 hpos, hfits.2, hfits'.2, fun h => absurd h hactive⟩
  · rintro ⟨hge, hfits, hfits', hcontext⟩
    have hsr : 0 ≤ opts.sampleRate := by
      by_contra hneg
      have := mul_nonpos_of_nonpos_of_nonneg (not_le.1 hneg).le (not_le.1 hchunk).le
      omega
    have hpos : 0 < samplesOf opts.sampleRate opts.chunkMs := by
      have := tdiv_thousand_pos.2 hge
      rw [samplesOf]
      omega
    have hsamples : samplesOf opts.sampleRate opts.chunkMs ≤
        samplesOf opts.sampleRate opts.historyMs :=
      SortformerConfig.samplesOf_le_samplesOf hsr (by omega) (by omega)
    rw [lengthsOf, lengthOf_of_lt (by omega) hfits,
      lengthOf_of_lt (mul_nonneg hsr (by omega)) hfits']
    -- a session with these lengths is one that the checks let through
    have hrun : ∀ l : DiarizeLengths, l.chunkSamples = samplesOf opts.sampleRate opts.chunkMs →
        l.historySamples = samplesOf opts.sampleRate opts.historyMs →
          DiarizeSound σ α K (some l) := by
      intro l hchunk hhistory
      refine ⟨l, rfl, by omega, fun cfg hcfg D samples => ?_⟩
      subst hcfg
      have hvalid : cfg.Valid :=
        ⟨by rw [Int.ofNat_inj.1 hchunk]; exact hpos,
          by rw [Int.ofNat_inj.1 hchunk, Int.ofNat_inj.1 hhistory]; exact hsamples⟩
      exact ⟨_, run_eq hvalid samples⟩
    simp only [Option.bind_eq_bind, Option.bind_some]
    split_ifs with hactive
    · obtain ⟨hleft, hright⟩ := hcontext hactive
      rw [lengthOf_of_lt (mul_nonneg hsr (le_max_left _ _)) hleft,
        lengthOf_of_lt (mul_nonneg hsr (le_max_left _ _)) hright]
      exact hrun _ rfl rfl
    · exact hrun _ rfl rfl

/-- **When the lengths of a session are sound.** For options that `stream_start` or `diarize_start`
accepts, whatever the rate of the model, every length is computed without overflow, a chunk has
samples and the loops end for every signal iff the product of the rate and the milliseconds of a chunk
is at least 1000 and this product and those of the other milliseconds that are used are below
`2 ^ 31`. -/
theorem start_sound_iff [Add K] [Sub K] [Max K] [Min K] [LE K] [DecidableLE K] [LT K]
    [DecidableLT K] (M : StreamEngine σ E α) :
    (∀ (modelRate : ℤ) (isSortformer : Bool) (opts : StreamingOptions) (r : Option StreamLengths),
      streamLengths modelRate isSortformer opts = .ok r →
        (StreamSound K M r ↔
          1000 ≤ opts.sampleRate * opts.chunkMs ∧
            opts.sampleRate * opts.chunkMs < 2147483648 ∧
            opts.sampleRate * opts.leftContextMs < 2147483648 ∧
            opts.sampleRate * opts.rightLookaheadMs < 2147483648)) ∧
      ∀ (modelRate : ℤ) (ready isV21 : Bool) (opts : DiarizeOptions) (r : Option DiarizeLengths),
        diarizeLengths modelRate ready isV21 opts = .ok r →
          (DiarizeSound σ α K r ↔
            1000 ≤ opts.sampleRate * opts.chunkMs ∧
              opts.sampleRate * opts.chunkMs < 2147483648 ∧
              opts.sampleRate * opts.historyMs < 2147483648 ∧
              ((opts.spkcacheEnable && isV21) = true →
                opts.sampleRate * max 0 opts.chunkLeftContextMs < 2147483648 ∧
                  opts.sampleRate * max 0 opts.chunkRightContextMs < 2147483648)) :=
  ⟨fun _ _ _ _ h => streamSound_iff M h, fun _ _ _ _ _ h => diarizeSound_iff h⟩

end Sound

/-- The defaults are sound. -/
theorem start_sound_iff_default :
    StreamSound ℚ Session.countingEngine (some ⟨16000, 160000, 32000⟩) ∧
      DiarizeSound ℤ ℚ ℚ (some ⟨32000, 480000, true, 1280, 8960⟩) :=
  ⟨((start_sound_iff Session.countingEngine).1 16000 false ⟨16000, 1000, 10000, 2000⟩ _ rfl).2
      ⟨by decide, by decide, by decide, by decide⟩,
    ((start_sound_iff Session.countingEngine).2 16000 true true
      ⟨16000, 2000, 30000, true, 80, 560⟩ (some ⟨32000, 480000, true, 1280, 8960⟩) rfl).2
      ⟨by decide, by decide, by decide, fun _ => ⟨by decide, by decide⟩⟩⟩

/-- Chunks of 134218 ms at 16 kHz overflow an `int`. At 500 Hz a chunk of a millisecond has no sample,
and a session with one sample emits for ever. -/
theorem not_forall_start_sound :
    (¬ ∀ opts r, streamLengths 16000 false opts = .ok r → StreamSound ℚ Session.countingEngine r) ∧
      (¬ ∀ opts r, diarizeLengths 16000 true false opts = .ok r → DiarizeSound ℤ ℚ ℚ r) ∧
      streamLengths 500 false ⟨500, 1, 0, 0⟩ = .ok (some ⟨0, 0, 0⟩) ∧
      ¬ ({ Session.start ℚ Session.countingEngine with pending := [0] }).LoopEnds 500
        (StreamLengths.toConfig ⟨0, 0, 0⟩) := by
  refine ⟨fun h => ?_, fun h => ?_, rfl, Session.not_loopEnds rfl ⟨rfl, ?_⟩⟩
  · obtain ⟨l, hl, -⟩ := h ⟨16000, 134218, 0, 0⟩ none rfl
    cases hl
  · obtain ⟨l, hl, -⟩ := h ⟨16000, 134218, 134218, false, 0, 0⟩ none rfl
    cases hl
  · rw [castInt_of_lt (by decide)]
    decide

end Parakeet

end WhisperCpp
