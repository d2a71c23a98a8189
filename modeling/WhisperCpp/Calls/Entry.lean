import WhisperCpp.Full.Driver
import WhisperCpp.Parallel.Merge
import WhisperCpp.Vad.Mapping

/-!
# The entry points

`whisper_full` and `whisper_full_parallel`. Each of them first runs the voice activity detection, if
it is asked for, and then `whisper_full_with_state` on the audio that is left: `whisper_full` in one
run, `whisper_full_parallel` in one run per processor, all but the first on states of their own.

A call that is left by an exception, by an assertion or with a freed state does not return.

## Main definitions

* `WhisperState`, `Call` — the state of a context, and what a call gets from its environment
* `whisperVad` — `whisper_vad`
* `FullWithState`, `WhisperFull`, `WhisperFullParallel` — the states and codes with which a call
  returns

## Main results

* `WhisperFull.unique` — `whisper_full` returns in one way only
-/

namespace WhisperCpp

namespace Calls

open Full (Context State Input Params)
open Vad Parallel

/-- `whisper_state`. -/
structure WhisperState (K F G : Type*) where
  full : State K F G
  vad : VadFields
  vadContext : Option VadContext

/-- The arguments of a call, and what the environment decides in it. -/
structure Call (K F G : Type*) where
  vad : Bool
  vadParams : VadParams K
  nSamples : ℤ
  /-- The model for the detection, if it can be loaded. -/
  vadInit : Option VadContext
  /-- Whether the detection returns segments. -/
  detectOk : Bool
  /-- The probabilities that the detection computes. -/
  probs : List K
  /-- Whether the filtered samples can be allocated. -/
  allocOk : Bool
  /-- How the unstable sort orders equal elements. -/
  tie : ℕ → ℕ
  driver : ℕ → Input K F G
  /-- The environments of the workers. -/
  worker : ℕ → ℕ → Input K F G

/-- What `whisper_vad` returns. -/
inductive VadResult where
  | failed
  /-- The number of the filtered samples. -/
  | filtered (n : ℤ)
  /-- A negative size for a vector, or a copy out of bounds. -/
  | fault

variable {K F G : Type*} [Field K] [LinearOrder K] [FloorRing K]

section Vad

variable (call : Call K F G) (s : WhisperState K F G)

/-- The state without a mapping, as `whisper_vad` leaves it unless there is speech. -/
def WhisperState.unmapped : WhisperState K F G :=
  { s with vad := { s.vad with hasVadSegments := false, vadMappingTable := [] } }

/-- The entry of a piece in `vad_segments`. -/
def segmentInfo (b : Piece) : VadSegmentInfo := ⟨b.orig.start, b.orig.stop, b.vadStart, b.vadEnd⟩

/-- The fields for the given segments. -/
def vadFields (tie : ℕ → ℕ) (n overlap : ℤ) (segs : List Stretch) : VadFields where
  hasVadSegments := true
  vadSegments := (pieces n overlap 0 segs).map segmentInfo
  vadMappingTable := mappingTable tie n overlap segs

/-- Every copy is made within the buffer and within the audio. -/
def InBounds (n overlap : ℤ) (segs : List Stretch) : Prop :=
  ∀ b ∈ pieces n overlap 0 segs,
    (∀ w ∈ b.writes, 0 ≤ w.start ∧ w.stop ≤ totalSamples n overlap segs) ∧
      0 ≤ b.reads.start ∧ b.reads.stop ≤ n

instance (n overlap : ℤ) (segs : List Stretch) : Decidable (InBounds n overlap segs) :=
  inferInstanceAs (Decidable (∀ b ∈ pieces n overlap 0 segs, _))

/-- `whisper_vad` after the detection. -/
def filterSpeech (segs : List Stretch) : WhisperState K F G × VadResult :=
  let n := call.nSamples
  let overlap := overlapSamples call.vadParams
  if segs.isEmpty then (s.unmapped, .filtered 0)
  else if totalSamples n overlap segs < 0 then (s.unmapped, .fault)
  else if !call.allocOk then
    -- the table has been cleared but the flag is set
    ({ s with vad := ⟨true, [], []⟩ }, .failed)
  else if InBounds n overlap segs then
    ({ s with vad := vadFields call.tie n overlap segs }, .filtered (totalSamples n overlap segs))
  else (s.unmapped, .fault)

/-- `whisper_vad`. The model for the detection is loaded by the first call that needs it. -/
def whisperVad : WhisperState K F G × VadResult :=
  match s.vadContext.or call.vadInit with
  | none => (s.unmapped, .failed)
  | some v =>
    if call.detectOk then
      filterSpeech call { s with vadContext := some v }
        (segmentsFromProbs v call.vadParams call.probs)
    else ({ s.unmapped with vadContext := some v }, .failed)

end Vad

section Returns

variable (ctx : Context K F G) (call : Call K F G)

/-- `whisper_full_with_state` on `n` samples, from its call to its return. -/
def FullWithState (n : ℤ) (xs : ℕ → Input K F G) (s s' : State K F G) (code : ℤ) : Prop :=
  Machine.StopsIn (Full.step ctx) (fun s => ∃ c, s.pc = .returned c) (fun k => xs (k + 1))
    (Full.stepCall ctx { xs 0 with nSamples := n } s) s' ∧ s'.pc = .returned code

/-- How `whisper_full` returns. -/
inductive WhisperFull (s : WhisperState K F G) : WhisperState K F G → ℤ → Prop
  | plain {full : State K F G} {code : ℤ} (hvad : call.vad = false)
    (h : FullWithState ctx call.nSamples call.driver s.full full code) :
    WhisperFull s { s with full := full } code
  | failed {s' : WhisperState K F G} (hvad : call.vad = true)
    (h : whisperVad call s = (s', .failed)) : WhisperFull s s' (-1)
  | noSpeech {s' : WhisperState K F G} (hvad : call.vad = true)
    (h : whisperVad call s = (s', .filtered 0)) :
    WhisperFull s { s' with full := { s'.full with resultAll := [] } } 0
  | speech {s' : WhisperState K F G} {n : ℤ} {full : State K F G} {code : ℤ}
    (hvad : call.vad = true) (h : whisperVad call s = (s', .filtered n)) (hn : n ≠ 0)
    (hfull : FullWithState ctx n call.driver s'.full full code) :
    WhisperFull s { s' with full := full } code

/-- The environment of worker `i`, which gets the parameters of the call but no offset. -/
def Call.workerInput (i : ℕ) : ℕ → Input K F G := fun k =>
  { call.worker i k with params := { (call.driver 0).params with offsetMs := 0 } }

/-- The chunks of `n` samples: the first one is transcribed by the calling thread, the others by
workers on fresh states, and the results are merged. -/
def Chunked (n : ℤ) (np : ℕ) (s s' : State K F G) (code : ℤ) : Prop :=
  ∃ (first : State K F G) (results : ℕ → State K F G),
    FullWithState ctx (firstChunk n (call.driver 0).params.offsetMs np).stop call.driver s first
      code ∧
    (∀ i < np - 1, ∃ fresh c, Full.Init ctx fresh ∧
      FullWithState ctx (samplesCur n (call.driver 0).params.offsetMs np i) (call.workerInput i)
        fresh (results i) c) ∧
    s' = { first with
      resultAll := mergeResults n (call.driver 0).params.offsetMs np first.resultAll
        fun i => (results i).resultAll }

/-- How `whisper_full_parallel` returns. Without a processor it divides by zero, or fails to create
the workers. -/
inductive WhisperFullParallel (np : ℤ) (s : WhisperState K F G) :
    WhisperState K F G → ℤ → Prop
  | single {s' : WhisperState K F G} {code : ℤ} (hnp : np = 1)
    (h : WhisperFull ctx call s s' code) : WhisperFullParallel np s s' code
  | failed {s' : WhisperState K F G} (hnp : np ≠ 1) (hvad : call.vad = true)
    (h : whisperVad call s = (s', .failed)) : WhisperFullParallel np s s' (-1)
  | noSpeech {s' : WhisperState K F G} (hnp : np ≠ 1) (hvad : call.vad = true)
    (h : whisperVad call s = (s', .filtered 0)) : WhisperFullParallel np s s' 0
  | plain {full : State K F G} {code : ℤ} (hnp : 2 ≤ np) (hvad : call.vad = false)
    (h : Chunked ctx call call.nSamples np.toNat s.full full code) :
    WhisperFullParallel np s { s with full := full } code
  | speech {s' : WhisperState K F G} {n : ℤ} {full : State K F G} {code : ℤ} (hnp : 2 ≤ np)
    (hvad : call.vad = true) (h : whisperVad call s = (s', .filtered n)) (hn : n ≠ 0)
    (hfull : Chunked ctx call n np.toNat s'.full full code) :
    WhisperFullParallel np s { s' with full := full } code

end Returns

section Lemmas

variable {ctx : Context K F G} {call : Call K F G} {s s₁ s₂ : WhisperState K F G} {c₁ c₂ : ℤ}

theorem FullWithState.unique {n : ℤ} {xs : ℕ → Input K F G} {s s₁ s₂ : State K F G}
    (h₁ : FullWithState ctx n xs s s₁ c₁) (h₂ : FullWithState ctx n xs s s₂ c₂) :
    s₁ = s₂ ∧ c₁ = c₂ := by
  obtain rfl := h₁.1.unique h₂.1
  have hcode := h₁.2.symm.trans h₂.2
  exact ⟨rfl, by injection hcode⟩

/-- The detection does not touch the state of the driver. -/
theorem whisperVad_full (call : Call K F G) (s : WhisperState K F G) :
    (whisperVad call s).1.full = s.full := by
  unfold whisperVad filterSpeech
  split
  · rfl
  · split
    · simp only
      split_ifs <;> rfl
    · rfl

/-- **A call returns in one way only.** -/
theorem WhisperFull.unique (h₁ : WhisperFull ctx call s s₁ c₁) (h₂ : WhisperFull ctx call s s₂ c₂) :
    s₁ = s₂ ∧ c₁ = c₂ := by
  cases h₁ with
  | plain hvad hfull =>
    cases h₂ with
    | plain _ hfull' =>
      obtain ⟨rfl, rfl⟩ := hfull.unique hfull'
      exact ⟨rfl, rfl⟩
    | failed hvad' _ | noSpeech hvad' _ | speech hvad' _ _ _ =>
      exact absurd (hvad.symm.trans hvad') (by rintro ⟨⟩)
  | failed hvad h =>
    cases h₂ with
    | plain hvad' _ => exact absurd (hvad.symm.trans hvad') (by rintro ⟨⟩)
    | failed _ h' => exact ⟨congrArg Prod.fst (h.symm.trans h'), rfl⟩
    | noSpeech _ h' | speech _ h' _ _ => exact absurd (congrArg Prod.snd (h.symm.trans h')) (by rintro ⟨⟩)
  | noSpeech hvad h =>
    cases h₂ with
    | plain hvad' _ => exact absurd (hvad.symm.trans hvad') (by rintro ⟨⟩)
    | failed _ h' => exact absurd (congrArg Prod.snd (h.symm.trans h')) (by rintro ⟨⟩)
    | noSpeech _ h' =>
      obtain ⟨rfl, -⟩ := Prod.mk.inj (h.symm.trans h')
      exact ⟨rfl, rfl⟩
    | speech _ h' hn _ =>
      obtain ⟨-, hn'⟩ := Prod.mk.inj (h.symm.trans h')
      exact absurd (VadResult.filtered.inj hn').symm hn
  | speech hvad h hn hfull =>
    cases h₂ with
    | plain hvad' _ => exact absurd (hvad.symm.trans hvad') (by rintro ⟨⟩)
    | failed _ h' => exact absurd (congrArg Prod.snd (h.symm.trans h')) (by rintro ⟨⟩)
    | noSpeech _ h' =>
      obtain ⟨-, hn'⟩ := Prod.mk.inj (h.symm.trans h')
      exact absurd (VadResult.filtered.inj hn') hn
    | speech _ h' _ hfull' =>
      obtain ⟨rfl, hn'⟩ := Prod.mk.inj (h.symm.trans h')
      obtain rfl := VadResult.filtered.inj hn'
      obtain ⟨rfl, rfl⟩ := hfull.unique hfull'
      exact ⟨rfl, rfl⟩

end Lemmas

end Calls

end WhisperCpp
