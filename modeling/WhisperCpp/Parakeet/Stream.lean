import Mathlib.Algebra.Order.Ring.Int
import Mathlib.Tactic.Ring
import WhisperCpp.Library.Stretches

/-!
# The frames a stream decodes

A `StreamSession` collects samples and decodes a chunk whenever it has one with its right lookahead.
The encoder runs over the left history, the chunk and the lookahead; of its frames only those of the
chunk are decoded. The first of them and their number are rounded down to whole frames separately,
so the frames of consecutive chunks need not meet.

## Main definitions

* `streamStart` — `Engine::stream_start`
* `centerFrames` — which encoder frames of a window `process_window` decodes
* `StreamSession`, `feed`, `finalize` — the session

## Main results

* `coversStream_iff` — when the decoded frames tile the stream
* `forall_coversStream_iff` — when they do for every length of it
-/

namespace WhisperCpp

namespace Parakeet

open Stretch (Tiles)

/-! ### The encoder -/

/-- What the model says about its encoder frames: they are subsampled by eight, in three stages. -/
structure EncoderFrames where
  sampleRate : ℕ
  hopLength : ℕ
  causalDownsampling : Bool
  /-- `model_type == SORTFORMER` -/
  isSortformer : Bool
  sampleRate_ge : 1000 ≤ sampleRate
  hopLength_pos : 0 < hopLength

namespace EncoderFrames

variable (m : EncoderFrames)

/-- `frame_samples`: the frame stride in milliseconds, times the sample rate, rounded. -/
def frameSamples : ℕ := m.hopLength * 8

theorem frameSamples_pos : 0 < m.frameSamples := Nat.mul_pos m.hopLength_pos (by decide)

/-- `n_frames` of `compute_log_mel`. -/
def nMelFrames (nSamples : ℕ) : ℕ := 1 + nSamples / m.hopLength

/-- `sub_out_len`. -/
def subOutLen (lin : ℕ) : ℕ :=
  if m.causalDownsampling then lin / 2 + 1 else (lin + 2 * 1 - 3) / 2 + 1

/-- `n_enc_frames` of `run_encoder`. -/
def nEncFrames (nSamples : ℕ) : ℕ := m.subOutLen (m.subOutLen (m.subOutLen (m.nMelFrames nSamples)))

theorem frame_lt_nEncFrames (n : ℕ) : n / m.frameSamples < m.nEncFrames n := by
  rw [frameSamples, ← Nat.div_div_eq_div_mul]
  simp only [nEncFrames, subOutLen, nMelFrames]
  split_ifs <;> omega

theorem nEncFrames_mul_lt (n : ℕ) : m.nEncFrames n * m.frameSamples < n + 2 * m.frameSamples := by
  have hle : m.nEncFrames n ≤ (n / m.hopLength + 7) / 8 + 1 := by
    simp only [nEncFrames, subOutLen, nMelFrames]
    generalize n / m.hopLength = q
    split_ifs <;> omega
  have hdiv : n / m.hopLength * m.hopLength ≤ n := Nat.div_mul_le_self n m.hopLength
  have hpos := m.hopLength_pos
  generalize n / m.hopLength = q at hle hdiv
  have height : m.nEncFrames n * 8 ≤ q + 15 := by omega
  have hmul := Nat.mul_le_mul_right m.hopLength height
  rw [Nat.add_mul] at hmul
  rw [frameSamples, Nat.mul_comm m.hopLength, ← Nat.mul_assoc]
  omega

end EncoderFrames

/-! ### Starting a stream -/

/-- The fields of `StreamingOptions` that decide about the chunks. -/
structure StreamingOptions where
  sampleRate : ℤ
  chunkMs : ℤ
  leftContextMs : ℤ
  rightLookaheadMs : ℤ

/-- The lengths that `stream_start` computes. -/
structure StreamConfig where
  chunkSamples : ℕ
  leftContextSamples : ℕ
  rightLookaheadSamples : ℕ
  deriving DecidableEq, Repr

/-- `sr * ms / 1000`, in `int`. -/
def samplesOf (sr ms : ℤ) : ℕ := ((sr * ms).tdiv 1000).toNat

/-- `Engine::stream_start`: the checks, with the text of the exception, and the lengths. -/
def streamStart (m : EncoderFrames) (opts : StreamingOptions) : Except String StreamConfig :=
  if opts.sampleRate ≠ m.sampleRate then
    .error ("Engine::stream_start: opts.sample_rate=" ++ toString opts.sampleRate ++
      " does not match model rate=" ++ toString m.sampleRate)
  else if opts.chunkMs ≤ 0 then .error "Engine::stream_start: chunk_ms must be > 0"
  else if opts.leftContextMs < 0 ∨ opts.rightLookaheadMs < 0 then
    .error "Engine::stream_start: left_context_ms and right_lookahead_ms must be >= 0"
  else if m.isSortformer then
    .error ("Engine::stream_start: streaming is for transcription models only; " ++
      "Sortformer is a diarization model. Use Engine::diarize().")
  else
    .ok
      { chunkSamples := samplesOf opts.sampleRate opts.chunkMs
        leftContextSamples := samplesOf opts.sampleRate opts.leftContextMs
        rightLookaheadSamples := samplesOf opts.sampleRate opts.rightLookaheadMs }

/-- No product of `stream_start` overflows an `int`; the behaviour would be undefined. -/
structure StreamingOptions.NoOverflow (opts : StreamingOptions) : Prop where
  chunk : opts.sampleRate * opts.chunkMs < 2 ^ 31
  left : opts.sampleRate * opts.leftContextMs < 2 ^ 31
  right : opts.sampleRate * opts.rightLookaheadMs < 2 ^ 31

theorem chunkSamples_pos {m : EncoderFrames} {opts : StreamingOptions} {cfg : StreamConfig}
    (h : streamStart m opts = .ok cfg) : 0 < cfg.chunkSamples := by
  rw [streamStart] at h
  split_ifs at h with hrate hchunk hcontext hsort
  obtain rfl := Except.ok.inj h
  have hge : (1000 : ℤ) ≤ opts.sampleRate := by
    have := m.sampleRate_ge
    omega
  have hmul : 1000 * 1 ≤ opts.sampleRate * opts.chunkMs :=
    mul_le_mul hge (by omega) (by decide) (by omega)
  simp only [samplesOf]
  rw [Int.tdiv_eq_ediv_of_nonneg (by omega)]
  omega

/-! ### The session -/

/-- The encoder frames of a window that `process_window` decodes: `left_drop_frames` and
`center_end_frame`. -/
def centerFrames (m : EncoderFrames) (windowN centerStart centerEnd : ℕ) (isFinalChunk : Bool) :
    ℤ × ℤ :=
  let tEnc : ℤ := m.nEncFrames windowN
  let leftDrop : ℤ := centerStart / m.frameSamples
  let centerCount : ℤ := (centerEnd - centerStart) / m.frameSamples
  let rightDrop : ℤ := if isFinalChunk then 0 else tEnc - leftDrop - centerCount
  let leftDrop := if leftDrop < 0 then 0 else leftDrop
  let leftDrop := if tEnc < leftDrop then tEnc else leftDrop
  let rightDrop := if rightDrop < 0 then 0 else rightDrop
  let rightDrop := if tEnc - leftDrop < rightDrop then tEnc - leftDrop else rightDrop
  (leftDrop, tEnc - rightDrop)

/-- `StreamSession::Impl`. The decoded stretches are recorded in samples of the stream: frame `i` of
a window that starts at sample `w` is the stretch from `w + i * frame_samples` on. -/
structure StreamSession (α : Type*) where
  leftHistory : List α
  pending : List α
  chunkIndex : ℕ
  emittedSamples : ℕ
  finalized : Bool
  decoded : List Stretch

variable {α : Type*} (m : EncoderFrames) (cfg : StreamConfig)

/-- A session that has seen nothing. -/
def StreamSession.start : StreamSession α := ⟨[], [], 0, 0, false, []⟩

/-- `process_window`, with the window's first sample at `emitted_samples - center_start`. -/
def StreamSession.processWindow (s : StreamSession α) (window : List α) (centerStart centerEnd : ℕ)
    (isFinalChunk : Bool) : StreamSession α :=
  if window = [] then s
  else
    let frames := centerFrames m window.length centerStart centerEnd isFinalChunk
    let origin : ℤ := s.emittedSamples - centerStart
    { s with
      decoded := s.decoded ++
        [⟨origin + frames.1 * m.frameSamples, origin + max frames.1 frames.2 * m.frameSamples⟩]
      emittedSamples := s.emittedSamples + (centerEnd - centerStart)
      chunkIndex := s.chunkIndex + 1 }

/-- The body of the loop of `try_emit_chunks`. -/
def StreamSession.emitChunk (s : StreamSession α) : StreamSession α :=
  let window := s.leftHistory ++ s.pending.take (cfg.chunkSamples + cfg.rightLookaheadSamples)
  let centerStart := s.leftHistory.length
  let s := s.processWindow m window centerStart (centerStart + cfg.chunkSamples) false
  let leftHistory := s.leftHistory ++ s.pending.take cfg.chunkSamples
  { s with
    leftHistory :=
      if cfg.leftContextSamples < leftHistory.length then
        leftHistory.drop (leftHistory.length - cfg.leftContextSamples)
      else leftHistory
    pending := s.pending.drop cfg.chunkSamples }

@[simp] theorem processWindow_pending (s : StreamSession α) (window : List α) (i j : ℕ) (b : Bool) :
    (s.processWindow m window i j b).pending = s.pending := by
  rw [StreamSession.processWindow]
  split_ifs <;> rfl

@[simp] theorem processWindow_leftHistory (s : StreamSession α) (window : List α) (i j : ℕ)
    (b : Bool) : (s.processWindow m window i j b).leftHistory = s.leftHistory := by
  rw [StreamSession.processWindow]
  split_ifs <;> rfl

@[simp] theorem emitChunk_pending (s : StreamSession α) :
    (s.emitChunk m cfg).pending = s.pending.drop cfg.chunkSamples := by
  simp [StreamSession.emitChunk]

theorem emitChunk_leftHistory (s : StreamSession α) :
    (s.emitChunk m cfg).leftHistory =
      let leftHistory := s.leftHistory ++ s.pending.take cfg.chunkSamples
      if cfg.leftContextSamples < leftHistory.length then
        leftHistory.drop (leftHistory.length - cfg.leftContextSamples)
      else leftHistory := by
  simp [StreamSession.emitChunk]

/-- `try_emit_chunks`. It does not return for chunks without samples, which `stream_start` does not
make. -/
def StreamSession.tryEmitChunks (hpos : 0 < cfg.chunkSamples) (s : StreamSession α) :
    StreamSession α :=
  if cfg.chunkSamples + cfg.rightLookaheadSamples ≤ s.pending.length then
    tryEmitChunks hpos (s.emitChunk m cfg)
  else s
termination_by s.pending.length
decreasing_by
  rw [emitChunk_pending, List.length_drop]
  omega

/-- `flush_remainder`. -/
def StreamSession.flushRemainder (s : StreamSession α) : StreamSession α :=
  if s.pending = [] then s
  else
    let centerStart := s.leftHistory.length
    let s' := s.processWindow m (s.leftHistory ++ s.pending) centerStart
      (centerStart + s.pending.length) true
    { s' with pending := [], leftHistory := [] }

/-- `feed_pcm_f32` on an open session. -/
def StreamSession.feed (hpos : 0 < cfg.chunkSamples) (s : StreamSession α) (samples : List α) :
    StreamSession α :=
  if samples = [] then s
  else { s with pending := s.pending ++ samples }.tryEmitChunks m cfg hpos

/-- `finalize`. -/
def StreamSession.finalize (hpos : 0 < cfg.chunkSamples) (s : StreamSession α) : StreamSession α :=
  if s.finalized then s
  else ({ s with finalized := true }.tryEmitChunks m cfg hpos).flushRemainder m

/-- The stretches that a stream fed in parts decodes. -/
def streamed (hpos : 0 < cfg.chunkSamples) (feeds : List (List α)) : List Stretch :=
  ((feeds.foldl (StreamSession.feed m cfg hpos) StreamSession.start).finalize m cfg hpos).decoded

/-- The decoded frames tile the stream from its start to its end, up to the frames that reach over
the end. -/
def CoversStream (hpos : 0 < cfg.chunkSamples) (feeds : List (List α)) : Prop :=
  ∃ stop : ℤ, Tiles 0 stop (streamed m cfg hpos feeds) ∧
    (feeds.flatten.length : ℤ) ≤ stop ∧ stop < feeds.flatten.length + 2 * m.frameSamples

/-! ### What a session has decoded -/

variable {m cfg}

/-- The left history of chunk `k`, in samples. -/
def historyOf (cfg : StreamConfig) (k : ℕ) : ℕ :=
  min (k * cfg.chunkSamples) cfg.leftContextSamples

/-- Where chunk `k` starts to decode: at the frame its first sample is in. -/
def startOf (m : EncoderFrames) (cfg : StreamConfig) (k : ℕ) : ℤ :=
  (k * cfg.chunkSamples : ℕ) - (historyOf cfg k % m.frameSamples : ℕ)

/-- The samples of the frames that chunk `k` decodes. -/
def chunkStretch (m : EncoderFrames) (cfg : StreamConfig) (k : ℕ) : Stretch :=
  ⟨startOf m cfg k, startOf m cfg k + (cfg.chunkSamples / m.frameSamples * m.frameSamples : ℕ)⟩

/-- A session that has emitted `k` chunks of `n` samples. -/
structure Emitted (m : EncoderFrames) (cfg : StreamConfig) (n k : ℕ) (s : StreamSession α) :
    Prop where
  history : s.leftHistory.length = historyOf cfg k
  pending : k * cfg.chunkSamples + s.pending.length = n
  emitted : s.emittedSamples = k * cfg.chunkSamples
  decoded : s.decoded = (List.range k).map (chunkStretch m cfg)
  early : k = 0 ∨ k * cfg.chunkSamples + cfg.rightLookaheadSamples ≤ n

theorem historyOf_succ (cfg : StreamConfig) (k : ℕ) :
    historyOf cfg (k + 1) =
      min (historyOf cfg k + cfg.chunkSamples) cfg.leftContextSamples := by
  rw [historyOf, historyOf, Nat.succ_mul]
  omega

/-- A chunk in the middle: its frames are where its samples are, rounded down. -/
theorem centerFrames_chunk {h c r : ℕ} :
    centerFrames m (h + (c + r)) h (h + c) false =
      (((h / m.frameSamples : ℕ) : ℤ), ((h / m.frameSamples + c / m.frameSamples : ℕ) : ℤ)) := by
  have hlt := m.frame_lt_nEncFrames (h + (c + r))
  have hadd : h / m.frameSamples + c / m.frameSamples ≤ (h + (c + r)) / m.frameSamples := by
    rw [Nat.le_div_iff_mul_le m.frameSamples_pos, Nat.add_mul]
    have := Nat.div_mul_le_self h m.frameSamples
    have := Nat.div_mul_le_self c m.frameSamples
    omega
  have hcast : ((h + c : ℕ) : ℤ) - h = c := by omega
  rw [centerFrames, hcast]
  simp only [Bool.false_eq_true, if_false]
  rw [← Int.natCast_ediv, ← Int.natCast_ediv]
  generalize m.nEncFrames (h + (c + r)) = tEnc at *
  generalize (h + (c + r)) / m.frameSamples = a at *
  generalize h / m.frameSamples = b at *
  generalize c / m.frameSamples = d at *
  ext <;> simp only <;> split_ifs <;> omega

/-- The last chunk: its frames go on to the end of the window. -/
theorem centerFrames_final {h p : ℕ} :
    centerFrames m (h + p) h (h + p) true =
      (((h / m.frameSamples : ℕ) : ℤ), (m.nEncFrames (h + p) : ℤ)) := by
  have hlt := m.frame_lt_nEncFrames (h + p)
  have hle : h / m.frameSamples ≤ (h + p) / m.frameSamples := Nat.div_le_div_right (by omega)
  rw [centerFrames]
  simp only [if_true]
  rw [← Int.natCast_ediv]
  generalize m.nEncFrames (h + p) = tEnc at *
  generalize (h + p) / m.frameSamples = a at *
  generalize h / m.frameSamples = b at *
  ext <;> simp only <;> split_ifs <;> omega

theorem processWindow_decoded {s : StreamSession α} {window : List α} {i j : ℕ} {b : Bool}
    {lo hi : ℕ} (hne : window ≠ []) (hle : lo ≤ hi)
    (hframes : centerFrames m window.length i j b = ((lo : ℤ), (hi : ℤ))) :
    (s.processWindow m window i j b).decoded = s.decoded ++
      [⟨s.emittedSamples - i + (lo * m.frameSamples : ℕ),
        s.emittedSamples - i + (hi * m.frameSamples : ℕ)⟩] := by
  have hmax : max (lo : ℤ) hi = hi := by omega
  rw [StreamSession.processWindow, if_neg hne, hframes]
  simp only [hmax, Int.natCast_mul]

theorem startOf_eq (m : EncoderFrames) (cfg : StreamConfig) (k : ℕ) :
    startOf m cfg k = (k * cfg.chunkSamples : ℕ) - (historyOf cfg k : ℤ) +
      (historyOf cfg k / m.frameSamples * m.frameSamples : ℕ) := by
  have := Nat.div_add_mod' (historyOf cfg k) m.frameSamples
  rw [startOf]
  omega

theorem Emitted.emitChunk {n k : ℕ} {s : StreamSession α} (h : Emitted m cfg n k s)
    (hpos : 0 < cfg.chunkSamples)
    (hready : cfg.chunkSamples + cfg.rightLookaheadSamples ≤ s.pending.length) :
    Emitted m cfg n (k + 1) (s.emitChunk m cfg) := by
  have hpending := h.pending
  have htake : (s.leftHistory ++ s.pending.take cfg.chunkSamples).length =
      historyOf cfg k + cfg.chunkSamples := by
    rw [List.length_append, h.history, List.length_take]
    omega
  have hlen : (s.leftHistory ++ s.pending.take
      (cfg.chunkSamples + cfg.rightLookaheadSamples)).length =
        s.leftHistory.length + (cfg.chunkSamples + cfg.rightLookaheadSamples) := by
    rw [List.length_append, List.length_take, Nat.min_eq_left hready]
  have hne : s.leftHistory ++ s.pending.take
      (cfg.chunkSamples + cfg.rightLookaheadSamples) ≠ [] := by
    refine List.ne_nil_of_length_pos ?_
    omega
  constructor
  · rw [emitChunk_leftHistory, historyOf_succ]
    dsimp only
    rw [htake]
    split_ifs with hlong
    · rw [List.length_drop, htake]
      omega
    · rw [htake]
      omega
  · rw [emitChunk_pending, List.length_drop, Nat.succ_mul]
    omega
  · have hcount : s.leftHistory.length + cfg.chunkSamples - s.leftHistory.length =
        cfg.chunkSamples := by omega
    rw [StreamSession.emitChunk, StreamSession.processWindow, if_neg hne]
    simp only [hcount, h.emitted, Nat.succ_mul]
  · have hframes := centerFrames_chunk (m := m) (h := s.leftHistory.length) (c := cfg.chunkSamples)
      (r := cfg.rightLookaheadSamples)
    rw [← hlen] at hframes
    rw [StreamSession.emitChunk]
    simp only
    rw [processWindow_decoded hne (Nat.le_add_right _ _) hframes, h.decoded, List.range_succ,
      List.map_append, List.map_singleton, chunkStretch, startOf_eq, h.emitted, h.history,
      Nat.add_mul]
    congr 3
    omega
  · refine .inr ?_
    rw [Nat.succ_mul]
    omega

theorem Emitted.tryEmitChunks {n k : ℕ} {s : StreamSession α} (h : Emitted m cfg n k s)
    (hpos : 0 < cfg.chunkSamples) :
    Emitted m cfg n ((n - cfg.rightLookaheadSamples) / cfg.chunkSamples)
      (s.tryEmitChunks m cfg hpos) := by
  fun_induction StreamSession.tryEmitChunks m cfg hpos s generalizing k with
  | case1 s hready ih => exact ih (h.emitChunk hpos hready)
  | case2 s hready =>
    have hk : (n - cfg.rightLookaheadSamples) / cfg.chunkSamples = k := by
      have hpending := h.pending
      have hearly := h.early
      refine Nat.div_eq_of_lt_le ?_ ?_
      · rcases hearly with rfl | hle
        · rw [Nat.zero_mul]
          exact Nat.zero_le _
        · omega
      · rw [Nat.succ_mul]
        omega
    rwa [hk]

theorem tryEmitChunks_finalized (hpos : 0 < cfg.chunkSamples) (s : StreamSession α) :
    (s.tryEmitChunks m cfg hpos).finalized = s.finalized := by
  fun_induction StreamSession.tryEmitChunks m cfg hpos s with
  | case1 s hready ih =>
    rw [ih, StreamSession.emitChunk, StreamSession.processWindow]
    split_ifs <;> rfl
  | case2 s hready => rfl

/-- However a stream is fed, only its length counts. -/
theorem exists_emitted_foldl (hpos : 0 < cfg.chunkSamples) (feeds : List (List α)) {n k : ℕ}
    {s : StreamSession α} (h : Emitted m cfg n k s) (hopen : s.finalized = false) :
    ∃ k', Emitted m cfg (n + feeds.flatten.length) k'
        (feeds.foldl (StreamSession.feed m cfg hpos) s) ∧
      (feeds.foldl (StreamSession.feed m cfg hpos) s).finalized = false := by
  induction feeds generalizing n k s with
  | nil => exact ⟨k, h, hopen⟩
  | cons samples feeds ih =>
    rw [List.foldl_cons, List.flatten_cons, List.length_append, ← Nat.add_assoc,
      StreamSession.feed]
    split_ifs with hnil
    · subst hnil
      exact ih h hopen
    · have hgrown : Emitted m cfg (n + samples.length) k { s with pending := s.pending ++ samples } := by
        refine ⟨h.history, ?_, h.emitted, h.decoded, h.early.imp_right (by omega)⟩
        have := h.pending
        simp only [List.length_append]
        omega
      exact ih (hgrown.tryEmitChunks hpos) ((tryEmitChunks_finalized hpos _).trans hopen)

/-- The number of chunks a stream emits before it is finalized. -/
def chunkCount (cfg : StreamConfig) (n : ℕ) : ℕ :=
  (n - cfg.rightLookaheadSamples) / cfg.chunkSamples

/-- The samples of the frames that the last window decodes, if `k` chunks are in front of it. -/
def finalStretch (m : EncoderFrames) (cfg : StreamConfig) (n k : ℕ) : Stretch :=
  ⟨startOf m cfg k, (k * cfg.chunkSamples : ℕ) - (historyOf cfg k : ℤ) +
    (m.nEncFrames (historyOf cfg k + (n - k * cfg.chunkSamples)) * m.frameSamples : ℕ)⟩

theorem Emitted.flushRemainder {n k : ℕ} {s : StreamSession α} (h : Emitted m cfg n k s) :
    (s.flushRemainder m).decoded = (List.range k).map (chunkStretch m cfg) ++
      if k * cfg.chunkSamples = n then [] else [finalStretch m cfg n k] := by
  have hpending := h.pending
  have hiff : k * cfg.chunkSamples = n ↔ s.pending = [] := by
    rw [← List.length_eq_zero_iff]
    omega
  rw [StreamSession.flushRemainder]
  by_cases hnil : s.pending = []
  · rw [if_pos hnil, if_pos (hiff.2 hnil), List.append_nil, h.decoded]
  · have hne : s.leftHistory ++ s.pending ≠ [] := by simp [hnil]
    have hlen : (s.leftHistory ++ s.pending).length = s.leftHistory.length + s.pending.length :=
      List.length_append
    have hframes : centerFrames m (s.leftHistory ++ s.pending).length s.leftHistory.length
        (s.leftHistory.length + s.pending.length) true =
          (((s.leftHistory.length / m.frameSamples : ℕ) : ℤ),
            (m.nEncFrames (s.leftHistory.length + s.pending.length) : ℤ)) := by
      rw [hlen, centerFrames_final]
    have hle : s.leftHistory.length / m.frameSamples ≤
        m.nEncFrames (s.leftHistory.length + s.pending.length) :=
      (Nat.div_le_div_right (Nat.le_add_right _ _)).trans (m.frame_lt_nEncFrames _).le
    have hrest : n - k * cfg.chunkSamples = s.pending.length := by omega
    rw [if_neg hnil, if_neg (hiff.not.2 hnil)]
    simp only
    rw [processWindow_decoded hne hle hframes, h.decoded, finalStretch, startOf_eq, hrest, h.emitted,
      h.history]

theorem streamed_eq (hpos : 0 < cfg.chunkSamples) (feeds : List (List α)) :
    streamed m cfg hpos feeds =
      (List.range (chunkCount cfg feeds.flatten.length)).map (chunkStretch m cfg) ++
        if chunkCount cfg feeds.flatten.length * cfg.chunkSamples = feeds.flatten.length then []
        else [finalStretch m cfg feeds.flatten.length (chunkCount cfg feeds.flatten.length)] := by
  have hstart : Emitted m cfg 0 0 (StreamSession.start : StreamSession α) :=
    ⟨by simp [StreamSession.start, historyOf], by simp [StreamSession.start],
      by simp [StreamSession.start], rfl, .inl rfl⟩
  obtain ⟨k, hfed, hopen⟩ := exists_emitted_foldl hpos feeds hstart rfl
  rw [Nat.zero_add] at hfed
  have hclosed : ∀ s : StreamSession α, Emitted m cfg feeds.flatten.length k s →
      Emitted m cfg feeds.flatten.length k { s with finalized := true } :=
    fun s h => ⟨h.history, h.pending, h.emitted, h.decoded, h.early⟩
  rw [streamed, StreamSession.finalize, if_neg (by simp [hopen])]
  exact ((hclosed _ hfed).tryEmitChunks hpos).flushRemainder

/-! ### When the chunks meet -/

/-- The condition on the lengths: in front of the `k`-th window the history is as far behind a frame
as `k` chunks leave it; and a stream that ends with a chunk leaves nothing of a frame. -/
structure FramesMeet (m : EncoderFrames) (cfg : StreamConfig) (n : ℕ) : Prop where
  window : ∀ k ≤ chunkCount cfg n, k * cfg.chunkSamples < n →
    historyOf cfg k % m.frameSamples = k * (cfg.chunkSamples % m.frameSamples)
  last : chunkCount cfg n * cfg.chunkSamples = n → n = 0 ∨ cfg.chunkSamples % m.frameSamples = 0

theorem startOf_eq_iff (k : ℕ) :
    startOf m cfg k = (k * (cfg.chunkSamples / m.frameSamples * m.frameSamples) : ℕ) ↔
      historyOf cfg k % m.frameSamples = k * (cfg.chunkSamples % m.frameSamples) := by
  have hdiv : k * cfg.chunkSamples = k * (cfg.chunkSamples / m.frameSamples * m.frameSamples) +
      k * (cfg.chunkSamples % m.frameSamples) := by
    rw [← Nat.mul_add, Nat.div_add_mod']
  rw [startOf]
  omega

/-- The chunks in front of the last window tile iff each starts where `k` chunks of whole frames
end. -/
theorem tiles_chunks_iff {K : ℕ} {hi : ℤ} :
    Tiles 0 hi ((List.range K).map (chunkStretch m cfg)) ↔
      (∀ k < K, historyOf cfg k % m.frameSamples = k * (cfg.chunkSamples % m.frameSamples)) ∧
        hi = (K * (cfg.chunkSamples / m.frameSamples * m.frameSamples) : ℕ) := by
  induction K generalizing hi with
  | zero => simp [Tiles, eq_comm]
  | succ K ih =>
    rw [List.range_succ, List.map_append, List.map_singleton, Stretch.tiles_concat_iff]
    simp only [ih, chunkStretch]
    constructor
    · rintro ⟨mid, ⟨hall, rfl⟩, hstart, -, hstop⟩
      refine ⟨fun k hk => ?_, ?_⟩
      · rcases Nat.lt_succ_iff_lt_or_eq.1 hk with hlt | rfl
        · exact hall k hlt
        · exact (startOf_eq_iff k).1 hstart
      · rw [← hstop, hstart, Nat.succ_mul]
        omega
    · rintro ⟨hall, rfl⟩
      have hstart := (startOf_eq_iff K).2 (hall K (Nat.lt_succ_self K))
      refine ⟨_, ⟨fun k hk => hall k (Nat.lt_succ_of_lt hk), rfl⟩, hstart, by omega, ?_⟩
      rw [hstart, Nat.succ_mul]
      omega

theorem chunkCount_mul_le (n : ℕ) : chunkCount cfg n * cfg.chunkSamples ≤ n :=
  (Nat.div_mul_le_self _ _).trans (Nat.sub_le _ _)

/-- The last window ends behind the end of the stream, by less than two frames. -/
theorem finalStretch_stop {n k : ℕ} (hk : k * cfg.chunkSamples ≤ n) :
    (n : ℤ) < (finalStretch m cfg n k).stop ∧
      (finalStretch m cfg n k).stop < n + 2 * m.frameSamples := by
  have hlt := m.frame_lt_nEncFrames (historyOf cfg k + (n - k * cfg.chunkSamples))
  rw [Nat.div_lt_iff_lt_mul m.frameSamples_pos] at hlt
  have hend := m.nEncFrames_mul_lt (historyOf cfg k + (n - k * cfg.chunkSamples))
  simp only [finalStretch]
  omega

/-- A stream that ends with a chunk is covered if the last chunk loses nothing of a frame. -/
theorem le_chunks_iff (hpos : 0 < cfg.chunkSamples) {n K : ℕ} (h : K * cfg.chunkSamples = n) :
    n ≤ K * (cfg.chunkSamples / m.frameSamples * m.frameSamples) ↔
      n = 0 ∨ cfg.chunkSamples % m.frameSamples = 0 := by
  have hdiv : K * cfg.chunkSamples = K * (cfg.chunkSamples / m.frameSamples * m.frameSamples) +
      K * (cfg.chunkSamples % m.frameSamples) := by
    rw [← Nat.mul_add, Nat.div_add_mod']
  have hzero : n = 0 ↔ K = 0 := by
    rw [← h, Nat.mul_eq_zero]
    omega
  rw [hzero, ← Nat.mul_eq_zero]
  omega

/-- **When the decoded frames tile a stream.** -/
theorem coversStream_iff_framesMeet (hpos : 0 < cfg.chunkSamples) (feeds : List (List α)) :
    CoversStream m cfg hpos feeds ↔ FramesMeet m cfg feeds.flatten.length := by
  rw [CoversStream, streamed_eq]
  generalize feeds.flatten.length = n
  have hK : chunkCount cfg n * cfg.chunkSamples ≤ n := chunkCount_mul_le n
  have hf := m.frameSamples_pos
  split_ifs with hlast
  · have hle : chunkCount cfg n * (cfg.chunkSamples / m.frameSamples * m.frameSamples) ≤ n :=
      (Nat.mul_le_mul_left _ (Nat.div_mul_le_self _ _)).trans hK
    simp only [List.append_nil, tiles_chunks_iff]
    constructor
    · rintro ⟨_, ⟨hall, rfl⟩, hreach, -⟩
      refine ⟨fun k hk hkn => hall k ?_, fun _ => ?_⟩
      · refine lt_of_le_of_ne hk ?_
        rintro rfl
        omega
      · exact (le_chunks_iff hpos hlast).1 (Int.ofNat_le.1 hreach)
    · rintro ⟨hwindow, hmeet⟩
      have hreach := (le_chunks_iff (m := m) hpos hlast).2 (hmeet hlast)
      refine ⟨_, ⟨fun k hk => hwindow k hk.le ?_, rfl⟩, Int.ofNat_le.2 hreach, by omega⟩
      rw [← hlast]
      exact Nat.mul_lt_mul_of_pos_right hk hpos
  · obtain ⟨hafter, hbefore⟩ := finalStretch_stop (m := m) hK
    have hstart : startOf m cfg (chunkCount cfg n) ≤ n := by
      rw [startOf]
      omega
    simp only [Stretch.tiles_concat_iff, tiles_chunks_iff]
    constructor
    · rintro ⟨_, ⟨mid, ⟨hall, rfl⟩, hmid, -, rfl⟩, -⟩
      refine ⟨fun k hk _ => ?_, fun h => absurd h hlast⟩
      rcases Nat.lt_or_eq_of_le hk with hlt | rfl
      · exact hall k hlt
      · exact (startOf_eq_iff _).1 hmid
    · rintro ⟨hwindow, -⟩
      refine ⟨_, ⟨_, ⟨fun k hk => hwindow k hk.le ?_, rfl⟩, ?_, ?_, rfl⟩, hafter.le, hbefore⟩
      · exact (Nat.mul_lt_mul_of_pos_right hk hpos).trans_le hK
      · exact (startOf_eq_iff _).2 (hwindow _ le_rfl (by omega))
      · exact hstart.trans hafter.le

/-- Streams of all lengths are covered iff chunk and left context are whole numbers of frames. -/
theorem forall_framesMeet_iff (hpos : 0 < cfg.chunkSamples) :
    (∀ n, FramesMeet m cfg n) ↔
      m.frameSamples ∣ cfg.chunkSamples ∧ m.frameSamples ∣ cfg.leftContextSamples := by
  constructor
  · intro h
    -- two windows with a full left history
    have hfull : ∀ k, cfg.leftContextSamples ≤ k →
        cfg.leftContextSamples % m.frameSamples = k * (cfg.chunkSamples % m.frameSamples) := by
      intro k hk
      have hcount : chunkCount cfg ((k + 1) * cfg.chunkSamples + cfg.rightLookaheadSamples) =
          k + 1 := by
        rw [chunkCount, Nat.add_sub_cancel, Nat.mul_div_cancel _ hpos]
      have hlt : k * cfg.chunkSamples <
          (k + 1) * cfg.chunkSamples + cfg.rightLookaheadSamples := by
        rw [Nat.succ_mul]
        omega
      have hhistory : historyOf cfg k = cfg.leftContextSamples :=
        Nat.min_eq_right (hk.trans (Nat.le_mul_of_pos_right k hpos))
      rw [← hhistory]
      exact (h _).window k (by omega) hlt
    have hlow := hfull cfg.leftContextSamples le_rfl
    have hhigh := hfull (cfg.leftContextSamples + 1) (Nat.le_succ _)
    rw [Nat.succ_mul] at hhigh
    have hchunk : cfg.chunkSamples % m.frameSamples = 0 := by omega
    rw [hchunk, Nat.mul_zero] at hlow
    exact ⟨Nat.dvd_of_mod_eq_zero hchunk, Nat.dvd_of_mod_eq_zero hlow⟩
  · rintro ⟨hchunk, hleft⟩ n
    have hrest := Nat.mod_eq_zero_of_dvd hchunk
    refine ⟨fun k _ _ => ?_, fun _ => .inr hrest⟩
    rw [hrest, Nat.mul_zero]
    refine Nat.mod_eq_zero_of_dvd ?_
    rw [historyOf]
    rcases Nat.le_total (k * cfg.chunkSamples) cfg.leftContextSamples with hle | hle
    · rw [Nat.min_eq_left hle]
      exact hchunk.mul_left k
    · rw [Nat.min_eq_right hle]
      exact hleft

/-- Frames of 80 ms at 16 kHz. -/
def frames16k : EncoderFrames where
  sampleRate := 16000
  hopLength := 160
  causalDownsampling := false
  isSortformer := false
  sampleRate_ge := by decide
  hopLength_pos := by decide

end Parakeet

end WhisperCpp
