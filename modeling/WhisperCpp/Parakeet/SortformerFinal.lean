import WhisperCpp.Parakeet.SortformerWindows

/-!
# The last segment of a diarization session

`is_final` is to flag the last callback of a session. The flag is set on every segment of the window
that is left at the end, and on a segment without a speaker if no window is left. So a window that is
left must have exactly one segment.

## Main definitions

* `FinalOnce` — one segment is final, and it is the last one
* `tailSegments` — the segments of the window that is left

## Main results

* `finalOnce_run_iff` — when a session ends as it should
-/

namespace WhisperCpp

namespace Parakeet

open SortformerStreamSession

/-- One segment is final, and it is the last one. -/
def FinalOnce {K : Type*} (segments : List (StreamingDiarizationSegment K)) : Prop :=
  (segments.filter StreamingDiarizationSegment.isFinal).length = 1 ∧
    ∃ x, segments.getLast? = some x ∧ x.isFinal = true

/-- Final segments behind others: there must be one. -/
theorem finalOnce_append_iff {K : Type*} {before final : List (StreamingDiarizationSegment K)}
    (hbefore : ∀ x ∈ before, x.isFinal = false) (hfinal : ∀ x ∈ final, x.isFinal = true) :
    FinalOnce (before ++ final) ↔ final.length = 1 := by
  have hfilter : (before ++ final).filter StreamingDiarizationSegment.isFinal = final := by
    rw [List.filter_append, List.filter_eq_self.2 hfinal, List.filter_eq_nil_iff.2,
      List.nil_append]
    intro x hx
    rw [hbefore x hx]
    exact Bool.false_ne_true
  rw [FinalOnce, hfilter]
  refine ⟨fun h => h.1, fun hone => ⟨hone, ?_⟩⟩
  obtain ⟨x, rfl⟩ := List.length_eq_one_iff.1 hone
  exact ⟨x, List.getLast?_concat .., hfinal x List.mem_cons_self⟩

section Segments

variable {σ α K : Type*} [IntCast K] [Add K] [Sub K] [Div K] [Max K] [Min K] [LE K] [DecidableLE K]
  [LT K] [DecidableLT K] {cfg : SortformerConfig} {D : Diarizer σ α K}

/-- The segments of a window have its flag. -/
theorem isFinal_of_mem_clip {w : ChunkWindow α} {diar : List (LocalSegment K)}
    {x : StreamingDiarizationSegment K} (hx : x ∈ clip cfg w diar) : x.isFinal = w.isFinal := by
  obtain ⟨s, -, hs⟩ := List.mem_filterMap.1 hx
  dsimp only at hs
  -- the offset of the window does not matter
  generalize (if cfg.cacheActive = true then ((w.emitStart : ℤ) : K) / (cfg.sampleRate : K)
    else ((w.windowStart : ℤ) : K) / (cfg.sampleRate : K)) = windowOffsetS at hs
  split_ifs at hs
  cases hs
  rfl

/-- No segment of a chunk is final. -/
theorem isFinal_of_mem_heard {signal : List α} {k : ℕ} {x : StreamingDiarizationSegment K}
    (hx : x ∈ (heard cfg D (chunkWindows cfg signal k)).2) : x.isFinal = false := by
  induction k with
  | zero => cases hx
  | succ k ih =>
    rw [chunkWindows_succ, heard_concat, hear] at hx
    rcases List.mem_append.1 hx with hx | hx
    · exact ih hx
    · exact isFinal_of_mem_clip hx

variable (cfg D) in
/-- The segments of the window that is left at the end. -/
def tailSegments (signal : List α) : List (StreamingDiarizationSegment K) :=
  let memory := (heard cfg D (chunkWindows cfg signal (cfg.chunkCount signal.length))).1
  clip cfg (tailWindow cfg signal) (D.diarize memory (tailWindow cfg signal)).1

variable (cfg D) in
/-- The segments of a session: those of the chunks, and what ends it. -/
theorem segments_finalStateOf (signal : List α) :
    ∃ final, (finalStateOf cfg D signal).segments =
        (heard cfg D (chunkWindows cfg signal (cfg.chunkCount signal.length))).2 ++ final ∧
      (∀ x ∈ final, x.isFinal = true) ∧
      (final.length = 1 ↔ cfg.chunkCount signal.length * cfg.chunkSamples < signal.length →
        (tailSegments cfg D signal).length = 1) := by
  rw [finalStateOf]
  split_ifs with htail
  · refine ⟨tailSegments cfg D signal, ?_, fun x hx => isFinal_of_mem_clip hx, ?_⟩
    · simp only [windowsOf, if_pos htail, heard_concat]
      rfl
    · exact ⟨fun hone _ => hone, fun hone => hone htail⟩
  · refine ⟨[_], rfl, fun x hx => ?_, ?_⟩
    · rw [List.mem_singleton.1 hx]
    · exact ⟨fun _ h => absurd h htail, fun _ => rfl⟩

/-- **A session ends with one final segment** exactly if the window that is left has one segment, or
no window is left. -/
theorem finalOnce_run_iff {m : SortformerModel} {opts : SortformerStreamingOptions}
    (h : diarizeStart m opts = .ok cfg) (D : Diarizer σ α K) (samples : List (List α)) :
    ∃ s, run cfg D samples = .ok s ∧
      (FinalOnce s.segments ↔
        (cfg.chunkCount samples.flatten.length * cfg.chunkSamples < samples.flatten.length →
          (tailSegments cfg D samples.flatten).length = 1)) := by
  refine ⟨_, run_eq (SortformerConfig.valid_of_diarizeStart h) samples, ?_⟩
  obtain ⟨final, hsegments, hfinal, hone⟩ :=
    segments_finalStateOf cfg D samples.flatten
  rw [hsegments, finalOnce_append_iff (fun x hx => isFinal_of_mem_heard hx) hfinal, hone]

end Segments

/-! ### A window without a segment -/

/-- The options by default. -/
def defaultSortformer : SortformerStreamingOptions :=
  ⟨16000, 2000, 30000, 200, true, 80, 560, by decide, by decide, by decide, by decide⟩

/-- Their lengths. -/
def defaultSortformerCfg : SortformerConfig := ⟨16000, 200, 32000, 480000, true, 1280, 8960, 1, 7⟩

theorem diarizeStart_default :
    diarizeStart sortformer16k defaultSortformer = .ok defaultSortformerCfg := by decide

theorem finalOnce_run_iff_default :
    ∃ s, run defaultSortformerCfg silence [[1], [2, 3]] = .ok s ∧
      (FinalOnce s.segments ↔
        (defaultSortformerCfg.chunkCount ([[1], [2, 3]] : List (List ℚ)).flatten.length *
            defaultSortformerCfg.chunkSamples < ([[1], [2, 3]] : List (List ℚ)).flatten.length →
          (tailSegments defaultSortformerCfg silence ([[1], [2, 3]] : List (List ℚ)).flatten).length =
            1)) :=
  finalOnce_run_iff diarizeStart_default silence [[1], [2, 3]]

/-- A session of one sample in which nobody speaks has no final segment. -/
theorem not_forall_finalOnce :
    ¬∀ (m : SortformerModel) (opts : SortformerStreamingOptions) (cfg : SortformerConfig),
      diarizeStart m opts = .ok cfg → ∀ (D : Diarizer Unit ℚ ℚ) (samples : List (List ℚ))
        (s : SortformerStreamSession Unit ℚ ℚ), run cfg D samples = .ok s →
          FinalOnce s.segments := by
  intro hall
  obtain ⟨s, hrun, hiff⟩ := finalOnce_run_iff diarizeStart_default silence [[1]]
  have hone := hiff.1 (hall _ _ _ diarizeStart_default silence [[1]] s hrun) (by decide)
  cases hone

end Parakeet

end WhisperCpp
