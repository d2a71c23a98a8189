import WhisperCpp.Calls.Entry
import WhisperCpp.Full.OneWindow
import WhisperCpp.Library.Literals

/-!
# What an earlier voice activity detection leaves behind

The mapping of times is part of the state. A call with detection replaces it, a call without leaves
it as it is, and the getters use it for the segments of either.

## Main definitions

* `Observed` — the times that are reported after a call, with its code
* `HistoryIndependent` — they do not depend on what is left of earlier calls
* `MapAlike`

## Main results

* `historyIndependent_iff`
-/

namespace WhisperCpp

namespace Calls

open Full (Context State Input Params)
open Vad Parallel

attribute [local instance] Literals.atLeastTwo_two Literals.atLeastTwo_thirty

section Definitions

variable {K F G : Type*} [Field K] [LinearOrder K] [FloorRing K]

omit [Field K] [LinearOrder K] [FloorRing K] in
/-- The times of the segments, as the getters report them. -/
def WhisperState.times (s : WhisperState K F G) : List Stretch :=
  reportedTimes s.vad (s.full.resultAll.map Full.Segment.times)

/-- A call of `whisper_full` returns `code`, and then `times` are reported. -/
def Observed (ctx : Context K F G) (call : Call K F G) (s : WhisperState K F G)
    (times : List Stretch) (code : ℤ) : Prop :=
  ∃ s', WhisperFull ctx call s s' code ∧ s'.times = times

/-- Whatever the rest of the state and the call, with or without detection, the same is observed
with either fields. -/
def HistoryIndependent (ctx : Context K F G) (vad : Bool) (v₁ v₂ : VadFields) : Prop :=
  ∀ (full : State K F G) (c : Option VadContext) (call : Call K F G), call.vad = vad →
    ∀ times code, Observed ctx call ⟨full, v₁, c⟩ times code ↔
      Observed ctx call ⟨full, v₂, c⟩ times code

/-- Either both fields have no mapping, or both map every time alike. -/
def MapAlike (v₁ v₂ : VadFields) : Prop :=
  v₁.mapped = v₂.mapped ∧ (v₁.mapped = true → ∀ time,
    mapProcessedToOriginal time v₁.vadMappingTable = mapProcessedToOriginal time v₂.vadMappingTable)

end Definitions

section Reports

variable {v₁ v₂ : VadFields}

/-- Fields that map alike report alike. -/
theorem MapAlike.reportedTimes (h : MapAlike v₁ v₂) (segs : List Stretch) :
    reportedTimes v₁ segs = reportedTimes v₂ segs := by
  obtain ⟨hmapped, hmap⟩ := h
  cases hm : v₁.mapped with
  | false =>
    rw [reportedTimes_of_not_mapped hm, reportedTimes_of_not_mapped (hmapped ▸ hm)]
  | true =>
    have hm₂ : v₂.mapped = true := hmapped ▸ hm
    refine List.map_congr_left fun seg _ => ?_
    rw [segmentT0_of_mapped hm, segmentT0_of_mapped hm₂, segmentT1_of_mapped hm,
      segmentT1_of_mapped hm₂, hmap hm, hmap hm]

/-- A table does not map every time to itself: it maps all times up to its first to the same. -/
theorem exists_map_ne {table : List TimeMapping} (h : table ≠ []) :
    ∃ time, mapProcessedToOriginal time table ≠ time := by
  cases table with
  | nil => exact absurd rfl h
  | cons first rest =>
    refine ⟨min first.processedTime (first.originalTime - 1), ?_⟩
    rw [mapProcessedToOriginal, if_pos (min_le_left _ _)]
    omega

/-- The first times tell whether fields map alike. -/
theorem mapAlike_of_segmentT0 (h : ∀ seg, segmentT0 v₁ seg = segmentT0 v₂ seg) :
    MapAlike v₁ v₂ := by
  have htable : ∀ {v : VadFields}, v.mapped = true → v.vadMappingTable ≠ [] := by
    intro v hv hnil
    rw [VadFields.mapped, hnil, List.isEmpty_nil, Bool.not_true, Bool.and_false] at hv
    exact absurd hv (by rintro ⟨⟩)
  cases h₁ : v₁.mapped <;> cases h₂ : v₂.mapped
  · exact ⟨h₁.trans h₂.symm, fun h => absurd (h₁.symm.trans h) (by rintro ⟨⟩)⟩
  · obtain ⟨time, hne⟩ := exists_map_ne (htable h₂)
    have htime := h ⟨time, time⟩
    rw [segmentT0_of_mapped h₂, segmentT0, if_neg (by rw [h₁]; rintro ⟨⟩)] at htime
    exact absurd htime.symm hne
  · obtain ⟨time, hne⟩ := exists_map_ne (htable h₁)
    have htime := h ⟨time, time⟩
    rw [segmentT0_of_mapped h₁, segmentT0, if_neg (by rw [h₂]; rintro ⟨⟩)] at htime
    exact absurd htime hne
  · refine ⟨h₁.trans h₂.symm, fun _ time => ?_⟩
    have htime := h ⟨time, time⟩
    rwa [segmentT0_of_mapped h₁, segmentT0_of_mapped h₂] at htime

end Reports

section Detection

variable {K F G : Type*} [Field K] [LinearOrder K] [FloorRing K] {ctx : Context K F G}
  {call : Call K F G} {v₁ v₂ : VadFields}

/-- **The detection overwrites what the getters look at.** -/
theorem whisperVad_congr (call : Call K F G) (full : State K F G) (v₁ v₂ : VadFields)
    (c : Option VadContext) :
    (whisperVad call ⟨full, v₁, c⟩).2 = (whisperVad call ⟨full, v₂, c⟩).2 ∧
      ∀ segs, reportedTimes (whisperVad call ⟨full, v₁, c⟩).1.vad segs =
        reportedTimes (whisperVad call ⟨full, v₂, c⟩).1.vad segs := by
  simp only [whisperVad]
  cases c.or call.vadInit with
  | none => exact ⟨rfl, fun _ => rfl⟩
  | some v =>
    simp only [filterSpeech]
    split_ifs <;> exact ⟨rfl, fun _ => rfl⟩

/-- A call with detection does not depend on the fields. -/
theorem Observed.of_vad (hvad : call.vad = true) {full : State K F G} {c : Option VadContext}
    {times : List Stretch} {code : ℤ} (h : Observed ctx call ⟨full, v₁, c⟩ times code)
    (v₂ : VadFields) : Observed ctx call ⟨full, v₂, c⟩ times code := by
  obtain ⟨s', h, rfl⟩ := h
  obtain ⟨hresult, htimes⟩ := whisperVad_congr call full v₁ v₂ c
  have hfull₁ := whisperVad_full call ⟨full, v₁, c⟩
  have hfull₂ := whisperVad_full call ⟨full, v₂, c⟩
  rcases hs : whisperVad call ⟨full, v₂, c⟩ with ⟨s₂, result⟩
  rw [hs] at hresult htimes hfull₂
  cases h with
  | plain hplain _ => exact absurd (hplain.symm.trans hvad) (by rintro ⟨⟩)
  | failed _ h =>
    rw [h] at hresult htimes hfull₁
    subst hresult
    refine ⟨_, .failed hvad hs, ?_⟩
    rw [WhisperState.times, WhisperState.times, htimes, hfull₁, hfull₂]
  | noSpeech _ h =>
    rw [h] at hresult htimes
    subst hresult
    exact ⟨_, .noSpeech hvad hs, rfl⟩
  | speech _ h hn hfull =>
    rw [h] at hresult htimes hfull₁
    subst hresult
    rw [hfull₁, ← hfull₂] at hfull
    exact ⟨_, .speech hvad hs hn hfull, (htimes _).symm⟩

/-- A call without detection does not change the fields. -/
theorem Observed.of_mapAlike (hvad : call.vad = false) {full : State K F G}
    {c : Option VadContext} {times : List Stretch} {code : ℤ}
    (h : Observed ctx call ⟨full, v₁, c⟩ times code) (hmap : MapAlike v₁ v₂) :
    Observed ctx call ⟨full, v₂, c⟩ times code := by
  obtain ⟨s', h, rfl⟩ := h
  cases h with
  | plain _ hfull => exact ⟨_, .plain hvad hfull, (hmap.reportedTimes _).symm⟩
  | failed hvad' _ | noSpeech hvad' _ | speech hvad' _ _ _ =>
    exact absurd (hvad.symm.trans hvad') (by rintro ⟨⟩)

end Detection

section Speaker

open Full

/-- A call without detection that stores a segment from `t` on. -/
noncomputable def speakCall (t : ℤ) : Call ℝ ℚ Unit where
  vad := false
  vadParams := ⟨1 / 2, 0, 0, 30, 0, 0⟩
  nSamples := 480000
  vadInit := none
  detectOk := true
  probs := []
  allocOk := true
  tie k := k
  driver _ := speakInput false false t 50256
  worker _ _ := speakInput false false t 50256

/-- The call returns with that segment. -/
theorem fullWithState_speak (t : ℤ) : ∃ s, FullWithState (speaker false) (speakCall t).nSamples
    (speakCall t).driver (freshState (speaker false)) s 0 ∧
      s.resultAll.map Segment.times = [⟨t, t + 3000⟩] := by
  obtain ⟨s, hspoken, hlast, hbefore⟩ := run_speak false t
  obtain ⟨seg, hseg, htimes, -⟩ := windowSegments_speak false false t hspoken
  refine ⟨_, ⟨⟨9, hlast, ⟨0, rfl⟩, fun n hn ⟨code, hcode⟩ => hbefore n hn code hcode⟩, rfl⟩, ?_⟩
  rw [State.emitted, hspoken.resultAll_eq, hseg, List.nil_append, List.map_singleton, htimes]
  simp

/-- If the call does not depend on the fields, then they map alike. -/
theorem mapAlike_of_independent {v₁ v₂ : VadFields}
    (h : HistoryIndependent (speaker false) false v₁ v₂) : MapAlike v₁ v₂ := by
  refine mapAlike_of_segmentT0 fun seg => ?_
  obtain ⟨s, hs, htimes⟩ := fullWithState_speak seg.start
  obtain ⟨s', h', htimes'⟩ := (h (freshState (speaker false)) none (speakCall seg.start) rfl
    (reportedTimes v₁ [⟨seg.start, seg.start + 3000⟩]) 0).mp
    ⟨_, .plain rfl hs, by rw [WhisperState.times, htimes]⟩
  cases h' with
  | plain _ hfull =>
    obtain ⟨rfl, -⟩ := hs.unique hfull
    rw [WhisperState.times, htimes] at htimes'
    exact (congrArg Stretch.start (List.head_eq_of_cons_eq htimes')).symm
  | noSpeech hvad _ | speech hvad _ _ _ => exact absurd hvad nofun

end Speaker

/-- **When results do not depend on the history**: exactly if the call uses the detection, or there
is no mapping left of earlier calls, or the same one. -/
theorem historyIndependent_iff {K F G : Type*} [Field K] [LinearOrder K] [FloorRing K]
    (ctx : Context K F G) (vad : Bool) (v₁ v₂ : VadFields) :
    (vad = true ∨ MapAlike v₁ v₂ → HistoryIndependent ctx vad v₁ v₂) ∧
      ((∀ ctx : Context ℝ ℚ Unit, HistoryIndependent ctx vad v₁ v₂) →
        vad = true ∨ MapAlike v₁ v₂) := by
  constructor
  · intro hcond full c call hcall times code
    cases hvad : call.vad with
    | true => exact ⟨fun h => h.of_vad hvad v₂, fun h => h.of_vad hvad v₁⟩
    | false =>
      have hmap := hcond.resolve_left (hcall ▸ hvad ▸ (by rintro ⟨⟩))
      have hmap' : MapAlike v₂ v₁ :=
        ⟨hmap.1.symm, fun h time => (hmap.2 (hmap.1.trans h) time).symm⟩
      exact ⟨fun h => h.of_mapAlike hvad hmap, fun h => h.of_mapAlike hvad hmap'⟩
  · intro h
    cases vad with
    | true => exact .inl rfl
    | false => exact .inr (mapAlike_of_independent (h _))

open Full in
/-- The state of a new context. -/
noncomputable def freshWhisperState : WhisperState ℝ ℚ Unit :=
  ⟨freshState (speaker false), ⟨false, [], []⟩, none⟩

open Full in
/-- A call with detection on 30 s of audio, of which the first second is speech. The offset is behind
the filtered audio. -/
noncomputable def headCall : Call ℝ ℚ Unit :=
  { speakCall 3000 with
    vad := true
    vadInit := some ⟨16000, by decide⟩
    probs := [1]
    driver _ := { speakInput false false 3000 50256 with melLenOrg := 100 } }

/-- The speech is found. -/
theorem segmentsFromProbs_head :
    segmentsFromProbs (⟨16000, by decide⟩ : VadContext) headCall.vadParams [1] = [⟨0, 100⟩] := by
  have hle : headCall.vadParams.threshold ≤ 1 := by
    show (1 / 2 : ℝ) ≤ 1
    norm_num
  have hback : backToSpeech headCall.vadParams 0 1 .start = .start := if_neg fun h => h.2 rfl
  have hscan : scanFrom (⟨16000, by decide⟩ : VadContext) headCall.vadParams 0 [1] .start =
      ⟨[], true, 0, 0, 0, 0, true⟩ := by
    rw [scanFrom, scanFrom, scanChunk, hback]
    exact if_pos ⟨hle, rfl⟩
  have hspeeches : speeches (⟨16000, by decide⟩ : VadContext) headCall.vadParams [1] =
      [⟨0, 16000⟩] := by
    rw [speeches, hscan]
    rfl
  rw [segmentsFromProbs, sampleSegments, hspeeches]
  show (pad (msToSamples 0) 16000 ((merge [⟨0, 16000⟩]).filter fun x =>
    ¬ x.stop - x.start < msToSamples 0)).map toCs = _
  decide +kernel

/-- The call leaves a mapping. -/
theorem whisperFull_head : ∃ s, WhisperFull (Full.speaker false) headCall freshWhisperState s 0 ∧
    s.vad.mapped = true := by
  have hoverlap : overlapSamples headCall.vadParams = 0 := by
    show (if (0 : ℝ) ≤ 0 * _ then ⌊(0 : ℝ) * _⌋ else ⌈(0 : ℝ) * _⌉) = 0
    rw [zero_mul, if_pos le_rfl, Int.floor_zero]
  have hvad : whisperVad headCall freshWhisperState =
      ({ freshWhisperState with
          vad := vadFields headCall.tie 480000 0 [⟨0, 100⟩]
          vadContext := some ⟨16000, by decide⟩ }, .filtered 16000) := by
    have htotal : totalSamples 480000 0 [⟨0, 100⟩] = 16000 := by decide +kernel
    have hbounds : InBounds 480000 0 [⟨0, 100⟩] := by decide +kernel
    rw [whisperVad]
    show filterSpeech headCall _ (segmentsFromProbs _ headCall.vadParams [1]) = _
    rw [segmentsFromProbs_head, filterSpeech, hoverlap]
    show (if totalSamples 480000 0 [⟨0, 100⟩] < 0 then _ else if false then _ else
      if InBounds 480000 0 [⟨0, 100⟩] then _ else _) = _
    rw [if_neg (by rw [htotal]; decide), if_neg (by decide), if_pos hbounds]
    exact congrArg (Prod.mk _) (congrArg VadResult.filtered htotal)
  have hcall : FullWithState (Full.speaker false) 16000 headCall.driver freshWhisperState.full
      { freshWhisperState.full.called (headCall.driver 0) with pc := .returned 0 } 0 := by
    have hshort : Full.stepCall (Full.speaker false) { headCall.driver 0 with nSamples := 16000 }
        freshWhisperState.full =
          { freshWhisperState.full.called (headCall.driver 0) with pc := .returned 0 } := by
      show Full.beginCall (Full.speaker false)
        (freshWhisperState.full.called (headCall.driver 0)) = _
      refine if_pos ?_
      show (100 : ℤ) < Int.tdiv (10 * 3000) 10 + 10
      decide
    exact ⟨⟨0, hshort, ⟨0, rfl⟩, nofun⟩, rfl⟩
  refine ⟨_, .speech rfl hvad (by decide) hcall, ?_⟩
  show (true && !(mappingTable (fun k => k) 480000 0 [⟨0, 100⟩]).isEmpty) = true
  decide +kernel

/-- **A mapping is left behind**: after a call with detection, calls without it are not
independent of it. -/
theorem not_historyIndependent : ∃ s,
    WhisperFull (Full.speaker false) headCall freshWhisperState s 0 ∧
      ¬ HistoryIndependent (Full.speaker false) false s.vad freshWhisperState.vad := by
  obtain ⟨s, hs, hmapped⟩ := whisperFull_head
  refine ⟨s, hs, fun h => ?_⟩
  have hfresh : freshWhisperState.vad.mapped = true :=
    (mapAlike_of_independent h).1.symm.trans hmapped
  exact absurd hfresh nofun

end Calls

end WhisperCpp
