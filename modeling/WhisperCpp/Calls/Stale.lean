import WhisperCpp.Calls.VadHistory

/-!
# Results of an earlier call

`whisper_full_with_state` starts by clearing the segments. Both entry points return before that if
there is no speech: `whisper_full` clears the segments itself, `whisper_full_parallel` does not.

## Main definitions

* `NoSpeech` — the detection leaves no samples
* `NothingStale` — no segments of an earlier call are left by a call that succeeds

## Main results

* `nothingStale_iff`
-/

namespace WhisperCpp

namespace Calls

open Full (Context State)
open Vad Parallel

variable {K F G : Type*} [Field K] [LinearOrder K] [FloorRing K] {ctx : Context K F G} {np : ℤ}
  {call : Call K F G} {s s' : WhisperState K F G} {code : ℤ}

omit [Field K] [LinearOrder K] [FloorRing K] in
/-- The state with the given state of the driver. -/
def WhisperState.withFull (s : WhisperState K F G) (full : State K F G) : WhisperState K F G :=
  { s with full := full }

omit [Field K] [LinearOrder K] [FloorRing K] in
/-- The state without segments. -/
def WhisperState.cleared (s : WhisperState K F G) : WhisperState K F G :=
  s.withFull { s.full with resultAll := [] }

/-- The detection succeeds, and leaves no samples. -/
def NoSpeech (call : Call K F G) (s : WhisperState K F G) : Prop :=
  call.vad = true ∧ (whisperVad call s).2 = .filtered 0

/-- Without speech both entry points leave no segments. Whatever else either of them does before it
returns success, it also does from the state without segments. -/
structure NothingStale (ctx : Context K F G) (np : ℤ) (call : Call K F G)
    (s : WhisperState K F G) : Prop where
  noSpeech : NoSpeech call s → ∀ s₁ s₂ c₁ c₂, WhisperFull ctx call s s₁ c₁ →
    WhisperFullParallel ctx call np s s₂ c₂ → s₁.full.resultAll = [] ∧ s₂.full.resultAll = []
  full : ∀ s', WhisperFull ctx call s s' 0 → WhisperFull ctx call s.cleared s' 0
  parallel : ∀ s', WhisperFullParallel ctx call np s s' 0 →
    WhisperFullParallel ctx call np s.cleared s' 0

section Lemmas

/-- The driver clears the segments before it does anything else. -/
theorem FullWithState.cleared {n : ℤ} {xs : ℕ → Full.Input K F G} {s s' : State K F G}
    (h : FullWithState ctx n xs s s' code) :
    FullWithState ctx n xs { s with resultAll := [] } s' code := h

theorem Chunked.cleared {n : ℤ} {np : ℕ} {s s' : State K F G}
    (h : Chunked ctx call n np s s' code) :
    Chunked ctx call n np { s with resultAll := [] } s' code := h

/-- The detection passes the state of the driver on. -/
theorem whisperVad_withFull (call : Call K F G) (s : WhisperState K F G) (full : State K F G) :
    whisperVad call (s.withFull full) =
      ((whisperVad call s).1.withFull full, (whisperVad call s).2) := by
  simp only [whisperVad, WhisperState.withFull]
  cases s.vadContext.or call.vadInit with
  | none => rfl
  | some v =>
    simp only [filterSpeech]
    split_ifs <;> rfl

/-- What `whisper_vad` does to the state without segments. -/
theorem whisperVad_cleared {result : VadResult} (h : whisperVad call s = (s', result)) :
    whisperVad call s.cleared = (s'.cleared, result) := by
  have hfull : s'.full = s.full := by
    have := whisperVad_full call s
    rwa [h] at this
  rw [WhisperState.cleared, whisperVad_withFull, h, ← hfull]
  rfl

/-- **`whisper_full` leaves nothing**: what it returns with success is what it would have returned
without segments. -/
theorem WhisperFull.cleared (h : WhisperFull ctx call s s' 0) :
    WhisperFull ctx call s.cleared s' 0 := by
  cases h with
  | plain hvad hfull => exact .plain hvad hfull.cleared
  | noSpeech hvad h =>
    have hcleared : WhisperFull ctx call s.cleared _ 0 := .noSpeech hvad (whisperVad_cleared h)
    exact hcleared
  | speech hvad h hn hfull =>
    have hcleared : WhisperFull ctx call s.cleared _ 0 :=
      .speech hvad (whisperVad_cleared h) hn hfull.cleared
    exact hcleared

/-- Without speech `whisper_full` clears the segments. -/
theorem WhisperFull.resultAll_of_noSpeech (h : WhisperFull ctx call s s' code)
    (hspeech : NoSpeech call s) : s'.full.resultAll = [] := by
  obtain ⟨hvad, hresult⟩ := hspeech
  cases h with
  | plain hvad' _ => exact absurd (hvad'.symm.trans hvad) (by rintro ⟨⟩)
  | failed _ h => exact absurd ((congrArg Prod.snd h).symm.trans hresult) (by rintro ⟨⟩)
  | noSpeech _ _ => rfl
  | speech _ h hn _ =>
    exact absurd (VadResult.filtered.inj ((congrArg Prod.snd h).symm.trans hresult)) hn

/-- Without speech `whisper_full_parallel` leaves the segments as they are, unless it is
`whisper_full`. -/
theorem WhisperFullParallel.resultAll_of_noSpeech (h : WhisperFullParallel ctx call np s s' code)
    (hspeech : NoSpeech call s) (hnp : np ≠ 1) : s'.full.resultAll = s.full.resultAll := by
  obtain ⟨hvad, hresult⟩ := hspeech
  cases h with
  | single hnp' _ => exact absurd hnp' hnp
  | failed _ _ h => exact absurd ((congrArg Prod.snd h).symm.trans hresult) (by rintro ⟨⟩)
  | noSpeech _ _ h =>
    have hfull := whisperVad_full call s
    rw [h] at hfull
    rw [hfull]
  | plain _ hvad' _ => exact absurd (hvad'.symm.trans hvad) (by rintro ⟨⟩)
  | speech _ _ h hn _ =>
    exact absurd (VadResult.filtered.inj ((congrArg Prod.snd h).symm.trans hresult)) hn

/-- With speech, or without detection, `whisper_full_parallel` leaves nothing. -/
theorem WhisperFullParallel.cleared (h : WhisperFullParallel ctx call np s s' 0)
    (hspeech : np = 1 ∨ ¬ NoSpeech call s) : WhisperFullParallel ctx call np s.cleared s' 0 := by
  cases h with
  | single hnp h => exact .single hnp h.cleared
  | noSpeech hnp hvad h =>
    have hsome : NoSpeech call s := ⟨hvad, congrArg Prod.snd h⟩
    exact absurd hsome (hspeech.resolve_left hnp)
  | plain hnp hvad h => exact .plain hnp hvad h.cleared
  | speech hnp hvad h hn hfull =>
    have hcleared : WhisperFullParallel ctx call np s.cleared _ 0 :=
      .speech hnp hvad (whisperVad_cleared h) hn hfull.cleared
    exact hcleared

/-- Without speech, something can only be stale if it was there. -/
theorem resultAll_of_nothingStale (h : NothingStale ctx np call s) (hnp : np ≠ 1)
    (hspeech : NoSpeech call s) : s.full.resultAll = [] := by
  have hvad : whisperVad call s = ((whisperVad call s).1, .filtered 0) := by
    rw [← hspeech.2]
  have hparallel : WhisperFullParallel ctx call np s (whisperVad call s).1 0 :=
    .noSpeech hnp hspeech.1 hvad
  rw [← hparallel.resultAll_of_noSpeech hspeech hnp]
  exact (h.noSpeech hspeech _ _ _ _ (.noSpeech hspeech.1 hvad) hparallel).2

end Lemmas

/-- **When nothing is stale**: exactly if there is one processor only, or there is speech, or there
were no segments before. -/
theorem nothingStale_iff (ctx : Context K F G) (np : ℤ) (call : Call K F G)
    (s : WhisperState K F G) :
    NothingStale ctx np call s ↔ np = 1 ∨ ¬ NoSpeech call s ∨ s.full.resultAll = [] := by
  constructor
  · intro h
    by_cases hnp : np = 1
    · exact .inl hnp
    by_cases hspeech : NoSpeech call s
    · exact .inr (.inr (resultAll_of_nothingStale h hnp hspeech))
    · exact .inr (.inl hspeech)
  · intro h
    refine ⟨fun hspeech s₁ s₂ c₁ c₂ h₁ h₂ => ⟨h₁.resultAll_of_noSpeech hspeech, ?_⟩,
      fun s' h => h.cleared, fun s' hs => ?_⟩
    · by_cases hnp : np = 1
      · cases h₂ with
        | single _ h₂ => exact h₂.resultAll_of_noSpeech hspeech
        | failed hnp' _ _ | noSpeech hnp' _ _ => exact absurd hnp hnp'
        | plain hnp' _ _ | speech hnp' _ _ _ _ => omega
      · rw [h₂.resultAll_of_noSpeech hspeech hnp]
        exact (h.resolve_left hnp).resolve_left (not_not.mpr hspeech)
    · rcases h with h | h | h
      · exact hs.cleared (.inl h)
      · exact hs.cleared (.inr h)
      · have hsame : s.cleared = s := by
          rw [WhisperState.cleared, ← h]
          rfl
        rwa [hsame]

/-- A call with detection on audio without speech. -/
noncomputable def silentCall : Call ℝ ℚ Unit :=
  { speakCall 0 with vad := true, vadInit := some ⟨512, sileroContext.le_nWindow⟩ }

theorem noSpeech_silentCall {s : WhisperState ℝ ℚ Unit} (h : s.vadContext = none) :
    NoSpeech silentCall s := by
  have hsegs : segmentsFromProbs (⟨512, by decide⟩ : VadContext) silentCall.vadParams [] = [] := by
    rw [segmentsFromProbs, sampleSegments]
    show (pad _ _ (dropShort _ (merge []))).map toCs = []
    rw [merge]
    rfl
  refine ⟨rfl, ?_⟩
  rw [whisperVad, h]
  show (filterSpeech silentCall _ (segmentsFromProbs _ silentCall.vadParams [])).2 = _
  rw [hsegs]
  rfl

/-- **The segments of an earlier call are still there** after a call on two processors that finds no
speech. -/
theorem not_nothingStale : ∃ s,
    WhisperFull (Full.speaker false) (speakCall 0) freshWhisperState s 0 ∧
      ¬ NothingStale (Full.speaker false) 2 silentCall s := by
  obtain ⟨full, hfull, htimes⟩ := fullWithState_speak 0
  refine ⟨freshWhisperState.withFull full, .plain rfl hfull, fun h => ?_⟩
  have hnil := resultAll_of_nothingStale h (by decide) (noSpeech_silentCall rfl)
  rw [show full.resultAll = [] from hnil] at htimes
  exact absurd htimes nofun

end Calls

end WhisperCpp
