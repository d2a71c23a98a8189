import WhisperCpp.Parakeet.SortformerFinal

/-!
# The frames that a diarization session commits

With the speaker cache, the frames of a window that are not its left or its right context are
committed: they go to `streaming_update`, and their segments are placed from `emit_start` on. The two
contexts have fixed numbers of frames. The window at the start of the signal has no left context, the
one at the end no right context, and an encoder returns a frame more than the samples fill.

## Main definitions

* `commitRange` — which frames of a window are committed
* `Corresponds` — they are the frames of the interval that the window emits
* `FramesFit` — a condition on the lengths

## Main results

* `corresponds_run_iff` — when all windows of a session commit the frames of their intervals
-/

namespace WhisperCpp

namespace Parakeet

open Stretch (Tiles)
open SortformerStreamSession

/-- The part of `engine_impl_diarize_streaming_helper` that makes the contexts fit the frames that
there are: the first frame that is committed, and `chunk_len_eff`. -/
def commitRange (lcExpected rcExpected nPreEncodeFrames : ℕ) : ℕ × ℕ :=
  let contexts : ℕ × ℕ :=
    if nPreEncodeFrames < lcExpected + rcExpected then
      let rc := nPreEncodeFrames - lcExpected
      if nPreEncodeFrames < lcExpected + rc then (nPreEncodeFrames - rc, rc) else (lcExpected, rc)
    else (lcExpected, rcExpected)
  (contexts.1, nPreEncodeFrames - contexts.1 - contexts.2)

/-- Without a left context, the frames from the first one on are committed. -/
theorem commitRange_zero (rc n : ℕ) : commitRange 0 rc n = (0, n - rc) := by
  simp only [commitRange]
  by_cases hshort : n < 0 + rc
  · rw [if_pos hshort, if_neg (by omega : ¬n < 0 + (n - 0)), Prod.mk.injEq]
    exact ⟨rfl, by omega⟩
  · rw [if_neg hshort]
    rfl

/-- The first frame is committed only without a left context. -/
theorem eq_zero_of_commitRange {lc : ℕ} (rc n : ℕ) (hstart : (commitRange lc rc n).1 = 0)
    (hcount : 0 < (commitRange lc rc n).2) : lc = 0 := by
  simp only [commitRange] at hstart hcount
  by_cases hshort : n < lc + rc
  · rw [if_pos hshort] at hstart hcount
    by_cases hmore : n < lc + (n - lc)
    · rw [if_pos hmore] at hstart hcount
      simp only at hstart hcount
      omega
    · rw [if_neg hmore] at hstart
      exact hstart
  · rw [if_neg hshort] at hstart
    exact hstart

/-- The number of frames that start in `len` samples. -/
def EncoderFrames.framesIn (m : EncoderFrames) (len : ℕ) : ℕ :=
  (len + m.frameSamples - 1) / m.frameSamples

namespace EncoderFrames

variable {m : EncoderFrames}

theorem lt_framesIn_iff {j len : ℕ} : j < m.framesIn len ↔ j * m.frameSamples < len := by
  have hpos := m.frameSamples_pos
  rw [framesIn, ← Nat.succ_le_iff, Nat.le_div_iff_mul_le hpos, Nat.succ_mul]
  omega

/-- A number of frames is the right one if it counts the frames that start before the end. -/
theorem eq_framesIn_iff {count start stop : ℕ} (hle : start ≤ stop) :
    (∀ j, j < count ↔ start + j * m.frameSamples < stop) ↔ count = m.framesIn (stop - start) := by
  have hiff : ∀ j, start + j * m.frameSamples < stop ↔ j < m.framesIn (stop - start) := by
    intro j
    rw [lt_framesIn_iff]
    omega
  constructor
  · intro h
    refine le_antisymm (not_lt.1 fun hlt => ?_) (not_lt.1 fun hlt => ?_)
    · exact lt_irrefl _ ((hiff _).1 ((h _).1 hlt))
    · exact lt_irrefl _ ((h _).2 ((hiff _).2 hlt))
  · rintro rfl j
    exact (hiff j).symm

end EncoderFrames

section Windows

variable {α : Type*} (m : EncoderFrames) (cfg : SortformerConfig)

/-- What a window commits: its first frame and the number of frames. -/
def committed (w : ChunkWindow α) : ℕ × ℕ :=
  commitRange cfg.lcEncFramesExpected cfg.rcEncFramesExpected
    (m.nEncFrames (w.windowEnd - w.windowStart))

/-- The committed frames are those of the interval that the window emits: the first one starts with
it, and the others are all that start before its end. -/
structure Corresponds (w : ChunkWindow α) : Prop where
  starts : w.windowStart + (committed m cfg w).1 * m.frameSamples = w.emitStart
  count : ∀ j, j < (committed m cfg w).2 ↔ w.emitStart + j * m.frameSamples < w.emitEnd

/-- The lengths of a session that commits the right frames of a signal of `n` samples. -/
structure FramesFit (n : ℕ) : Prop where
  left : cfg.lcEncFramesExpected = 0
  /-- a window behind the first one would start with samples of the left context -/
  leftSamples : 0 < cfg.chunkCount n → cfg.chunkSamples < n → cfg.chunkLeftContextSamples = 0
  chunk : 0 < cfg.chunkCount n →
    m.nEncFrames (cfg.chunkSamples + cfg.chunkRightContextSamples) - cfg.rcEncFramesExpected =
      m.framesIn cfg.chunkSamples
  tail : cfg.chunkCount n * cfg.chunkSamples < n →
    m.nEncFrames (n - cfg.chunkCount n * cfg.chunkSamples) - cfg.rcEncFramesExpected =
      m.framesIn (n - cfg.chunkCount n * cfg.chunkSamples)

variable {m cfg}

/-- A window that starts the signal must have no left context. -/
theorem left_eq_zero {w : ChunkWindow α} (hw : Corresponds m cfg w) (hzero : w.emitStart = 0)
    (hpos : 0 < w.emitEnd) : cfg.lcEncFramesExpected = 0 := by
  have hstarts := hw.starts
  rw [hzero] at hstarts
  refine eq_zero_of_commitRange cfg.rcEncFramesExpected
    (m.nEncFrames (w.windowEnd - w.windowStart)) ?_ ?_
  · have hmul : (committed m cfg w).1 * m.frameSamples = 0 := by omega
    exact (Nat.mul_eq_zero.1 hmul).resolve_right m.frameSamples_pos.ne'
  · refine (hw.count 0).2 ?_
    rw [hzero, Nat.zero_mul]
    exact hpos

/-- Without a left context, a window must start with what it emits and have as many frames as
that. -/
theorem corresponds_iff (hleft : cfg.lcEncFramesExpected = 0) {w : ChunkWindow α}
    (hw : w.emitStart ≤ w.emitEnd) :
    Corresponds m cfg w ↔ w.windowStart = w.emitStart ∧
      m.nEncFrames (w.windowEnd - w.windowStart) - cfg.rcEncFramesExpected =
        m.framesIn (w.emitEnd - w.emitStart) := by
  have hcommitted : committed m cfg w =
      (0, m.nEncFrames (w.windowEnd - w.windowStart) - cfg.rcEncFramesExpected) := by
    rw [committed, hleft, commitRange_zero]
  rw [← EncoderFrames.eq_framesIn_iff hw]
  constructor
  · rintro ⟨hstarts, hcount⟩
    rw [hcommitted] at hstarts hcount
    rw [Nat.zero_mul, Nat.add_zero] at hstarts
    exact ⟨hstarts, hcount⟩
  · rintro ⟨hstarts, hcount⟩
    refine ⟨?_, ?_⟩
    · rw [hcommitted, Nat.zero_mul, Nat.add_zero, hstarts]
    · rw [hcommitted]
      exact hcount

/-! ### The windows of a session -/

open SortformerConfig

theorem corresponds_chunk_iff (hactive : cfg.cacheActive = true)
    (hleft : cfg.lcEncFramesExpected = 0) (signal : List α) (k : ℕ) :
    Corresponds m cfg (chunkWindow cfg signal k) ↔
      k * cfg.chunkSamples - cfg.chunkLeftContextSamples = k * cfg.chunkSamples ∧
      m.nEncFrames (cfg.chunkSamples + cfg.chunkRightContextSamples) - cfg.rcEncFramesExpected =
        m.framesIn cfg.chunkSamples := by
  have hstart : cfg.chunkStart k = k * cfg.chunkSamples - cfg.chunkLeftContextSamples := by
    rw [chunkStart, if_pos hactive]
  have hsucc : (k + 1) * cfg.chunkSamples = k * cfg.chunkSamples + cfg.chunkSamples :=
    Nat.succ_mul ..
  rw [corresponds_iff hleft (show k * cfg.chunkSamples ≤ (k + 1) * cfg.chunkSamples by omega)]
  show cfg.chunkStart k = k * cfg.chunkSamples ∧
    m.nEncFrames ((k + 1) * cfg.chunkSamples + cfg.lookahead - cfg.chunkStart k) - _ =
      m.framesIn ((k + 1) * cfg.chunkSamples - k * cfg.chunkSamples) ↔ _
  rw [← hstart, lookahead, if_pos hactive]
  refine and_congr_right fun heq => ?_
  rw [heq, show (k + 1) * cfg.chunkSamples + cfg.chunkRightContextSamples - k * cfg.chunkSamples =
      cfg.chunkSamples + cfg.chunkRightContextSamples by omega,
    show (k + 1) * cfg.chunkSamples - k * cfg.chunkSamples = cfg.chunkSamples by omega]

theorem corresponds_tail_iff (hactive : cfg.cacheActive = true)
    (hleft : cfg.lcEncFramesExpected = 0) (signal : List α) :
    Corresponds m cfg (tailWindow cfg signal) ↔
      cfg.chunkCount signal.length * cfg.chunkSamples - cfg.chunkLeftContextSamples =
        cfg.chunkCount signal.length * cfg.chunkSamples ∧
      m.nEncFrames (signal.length - cfg.chunkCount signal.length * cfg.chunkSamples) -
          cfg.rcEncFramesExpected =
        m.framesIn (signal.length - cfg.chunkCount signal.length * cfg.chunkSamples) := by
  have hstart : cfg.tailStart signal.length =
      cfg.chunkCount signal.length * cfg.chunkSamples - cfg.chunkLeftContextSamples := by
    rw [tailStart, if_pos hactive]
  rw [corresponds_iff hleft (show cfg.chunkCount signal.length * cfg.chunkSamples ≤ signal.length
    from SortformerConfig.chunkCount_mul_le _)]
  show cfg.tailStart signal.length = cfg.chunkCount signal.length * cfg.chunkSamples ∧
    m.nEncFrames (signal.length - cfg.tailStart signal.length) - _ = _ ↔ _
  rw [← hstart]
  refine and_congr_right fun heq => ?_
  rw [heq]
  rfl

/-- The windows commit the frames of their intervals exactly if there is no signal, or the lengths
fit. -/
theorem forall_corresponds_iff (hv : cfg.Valid) (hactive : cfg.cacheActive = true)
    (signal : List α) :
    (∀ w ∈ windowsOf cfg signal, Corresponds m cfg w) ↔
      signal.length = 0 ∨ FramesFit m cfg signal.length := by
  have hpos := hv.chunk_pos
  have hle : cfg.chunkCount signal.length * cfg.chunkSamples ≤ signal.length :=
    SortformerConfig.chunkCount_mul_le _
  have hchunk : ∀ {k}, k < cfg.chunkCount signal.length →
      chunkWindow cfg signal k ∈ windowsOf cfg signal := fun hk =>
    List.mem_append_left _ (List.mem_map_of_mem (List.mem_range.2 hk))
  have htail : cfg.chunkCount signal.length * cfg.chunkSamples < signal.length →
      tailWindow cfg signal ∈ windowsOf cfg signal := by
    intro hlt
    rw [windowsOf, if_pos hlt]
    exact List.mem_append_right _ List.mem_cons_self
  constructor
  · intro h
    by_cases hzero : signal.length = 0
    · exact .inl hzero
    have hleft : cfg.lcEncFramesExpected = 0 := by
      rcases Nat.eq_zero_or_pos (cfg.chunkCount signal.length) with hnone | hsome
      · have hmul : cfg.chunkCount signal.length * cfg.chunkSamples = 0 := by
          rw [hnone, Nat.zero_mul]
        exact left_eq_zero (h _ (htail (by omega))) hmul (by
          show 0 < signal.length
          omega)
      · exact left_eq_zero (h _ (hchunk hsome)) (Nat.zero_mul _) (by
          show 0 < (0 + 1) * cfg.chunkSamples
          omega)
    have hchunks : ∀ k, k < cfg.chunkCount signal.length → _ := fun k hk =>
      (corresponds_chunk_iff hactive hleft signal k).1 (h _ (hchunk hk))
    have hlast := fun hlt => (corresponds_tail_iff hactive hleft signal).1 (h _ (htail hlt))
    refine .inr ⟨hleft, fun hsome hlt => ?_, fun hsome => (hchunks 0 hsome).2,
      fun hlt => (hlast hlt).2⟩
    -- the second window is a chunk or what is left
    by_cases htwo : 1 < cfg.chunkCount signal.length
    · have heq := (hchunks 1 htwo).1
      omega
    · have hone : cfg.chunkCount signal.length = 1 := by omega
      have heq := (hlast (by rwa [hone, Nat.one_mul])).1
      rw [hone, Nat.one_mul] at heq
      omega
  · intro h w hw
    rcases h with hzero | hfit
    · rw [windowsOf] at hw
      have hnone : cfg.chunkCount signal.length = 0 := by
        rw [SortformerConfig.chunkCount, hzero, Nat.zero_sub, Nat.zero_div]
      rw [hnone, hzero, Nat.zero_mul, if_neg (lt_irrefl 0)] at hw
      cases hw
    · have hleft : ∀ k, k ≤ cfg.chunkCount signal.length →
          (k = cfg.chunkCount signal.length → k * cfg.chunkSamples < signal.length) →
            k * cfg.chunkSamples - cfg.chunkLeftContextSamples = k * cfg.chunkSamples := by
        intro k hk hlast
        rcases Nat.eq_zero_or_pos k with rfl | hkpos
        · rw [Nat.zero_mul, Nat.zero_sub]
        · have hmul : 1 * cfg.chunkSamples ≤ k * cfg.chunkSamples := Nat.mul_le_mul_right _ hkpos
          have hlt : cfg.chunkSamples < signal.length := by
            rcases Nat.eq_or_lt_of_le hk with heq | hlt
            · have := hlast heq
              omega
            · have hroom := (lt_chunkCount_iff hv).1 hlt
              rw [Nat.succ_mul] at hroom
              omega
          rw [hfit.leftSamples (by omega) hlt, Nat.sub_zero]
      rcases List.mem_append.1 hw with hw | hw
      · obtain ⟨k, hk, rfl⟩ := List.mem_map.1 hw
        have hk := List.mem_range.1 hk
        exact (corresponds_chunk_iff hactive hfit.left signal k).2
          ⟨hleft k hk.le (by omega), hfit.chunk (by omega)⟩
      · split_ifs at hw with hlt
        · obtain rfl := List.mem_singleton.1 hw
          exact (corresponds_tail_iff hactive hfit.left signal).2
            ⟨hleft _ (le_refl _) fun _ => hlt, hfit.tail hlt⟩
        · cases hw

/-- **The intervals that a session emits tile the signal. Its windows commit the frames of their
intervals** exactly if there is no signal, or the lengths fit. -/
theorem corresponds_run_iff {σ K : Type*} [IntCast K] [Add K] [Sub K] [Div K] [Max K] [Min K] [LE K]
    [DecidableLE K] [LT K] [DecidableLT K] {model : SortformerModel}
    {opts : SortformerStreamingOptions} (h : diarizeStart model opts = .ok cfg)
    (hactive : cfg.cacheActive = true) (D : Diarizer σ α K) (samples : List (List α)) :
    ∃ s, run cfg D samples = .ok s ∧
      Tiles 0 samples.flatten.length (s.windows.map ChunkWindow.emits) ∧
      ((∀ w ∈ s.windows, Corresponds model.frames cfg w) ↔
        samples.flatten.length = 0 ∨ FramesFit model.frames cfg samples.flatten.length) := by
  have hv := valid_of_diarizeStart h
  refine ⟨_, run_eq hv samples, ?_, ?_⟩
  · rw [windows_finalStateOf]
    exact tiles_windowsOf _
  · rw [windows_finalStateOf]
    exact forall_corresponds_iff hv hactive _

end Windows

/-! ### The default options -/

theorem corresponds_run_iff_default :
    ∃ s, run defaultSortformerCfg silence [[1], [2, 3]] = .ok s ∧
      Tiles 0 ([[1], [2, 3]] : List (List ℚ)).flatten.length (s.windows.map ChunkWindow.emits) ∧
      ((∀ w ∈ s.windows, Corresponds sortformer16k.frames defaultSortformerCfg w) ↔
        ([[1], [2, 3]] : List (List ℚ)).flatten.length = 0 ∨
          FramesFit sortformer16k.frames defaultSortformerCfg
            ([[1], [2, 3]] : List (List ℚ)).flatten.length) :=
  corresponds_run_iff diarizeStart_default rfl silence [[1], [2, 3]]

/-- By default the first frame of the signal is not committed. -/
theorem not_forall_corresponds :
    ¬∀ (model : SortformerModel) (opts : SortformerStreamingOptions) (cfg : SortformerConfig),
      diarizeStart model opts = .ok cfg → cfg.cacheActive = true →
        ∀ (D : Diarizer Unit ℚ ℚ) (samples : List (List ℚ)) (s : SortformerStreamSession Unit ℚ ℚ),
          run cfg D samples = .ok s → ∀ w ∈ s.windows, Corresponds model.frames cfg w := by
  intro hall
  obtain ⟨s, hrun, -, hiff⟩ := corresponds_run_iff diarizeStart_default rfl silence [[1]]
  rcases hiff.1 (hall _ _ _ diarizeStart_default rfl silence [[1]] s hrun) with hzero | hfit
  · cases hzero
  · cases hfit.left

end Parakeet

end WhisperCpp
