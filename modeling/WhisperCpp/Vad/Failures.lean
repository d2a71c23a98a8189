import WhisperCpp.Vad.Streaming

/-!
# Failures of a detection

Before its loop over the windows, `whisper_vad_detect_speech_no_reset` allocates the graph, and
reports if that fails. In the loop, the graph is computed for every window; where this fails, the
loop ends, and the call reports success all the same. By then the list of probabilities has been
resized, so that behind the window that failed there are zeros, or probabilities of the call before.

## Main definitions

* `DetectEnv` — which steps fail
* `DetectEnv.detectSpeechNoReset`, `DetectEnv.detectSpeech`, `DetectEnv.segmentsFromSamples`
* `FromGraph` — every probability was computed for this signal

## Main results

* `DetectEnv.detectSpeechNoReset_of_ok` — without failures, this is the detection of windows
* `fromGraph_iff` — when success means that all probabilities were computed
-/

namespace WhisperCpp

namespace Vad

/-- The environment of a call: whether the graph can be allocated, for which windows it can be
computed, and what of the state a failed computation leaves. -/
structure DetectEnv (σ K : Type*) where
  allocOk : Bool
  computeOk : ℕ → Bool
  failedState : σ → List K → σ

/-- The state of the loop; `computed` is not in the source, it collects the windows whose
probability was read from the graph. -/
structure ComputeLoop (σ K : Type*) extends DetectLoop σ K where
  computed : List ℕ

/-- What a detection returns, and what it leaves. -/
structure DetectResult (σ K : Type*) where
  success : Bool
  detection : Detection σ K
  computed : List ℕ

section Definitions

variable {σ K : Type*} [Zero K] (env : DetectEnv σ K) (graph : σ → List K → σ × K) (v : VadContext)
  (samples : List K)

/-- The loop over `n` chunks, from chunk `i` on. -/
def DetectEnv.chunks : ℕ → ℕ → ComputeLoop σ K → ComputeLoop σ K
  | 0, _, d => d
  | n + 1, i, d =>
    if env.computeOk i then
      DetectEnv.chunks n (i + 1)
        { toDetectLoop := detectChunk graph v samples d.toDetectLoop i, computed := d.computed ++ [i] }
    else
      let window := setWindow v samples (i * v.window) (min (i * v.window + v.window) samples.length)
        d.window
      { d with window := window, lstm := env.failedState d.lstm window }

/-- `whisper_vad_detect_speech_no_reset`. -/
def DetectEnv.detectSpeechNoReset (d : Detection σ K) : DetectResult σ K :=
  let probs := resize d.probs (nChunks v samples.length)
  if env.allocOk then
    let r := env.chunks graph v samples (nChunks v samples.length) 0
      { lstm := d.lstm, probs := probs, window := List.replicate v.window 0, computed := [] }
    ⟨true, r.toDetection, r.computed⟩
  else ⟨false, { d with probs := probs }, []⟩

/-- `whisper_vad_detect_speech`. -/
def DetectEnv.detectSpeech (cleared : σ) (d : Detection σ K) : DetectResult σ K :=
  env.detectSpeechNoReset graph v samples (resetState cleared d)

/-- The probabilities are those of the network on the windows of the signal, one after the other
from state `s`, and each was read from the graph. -/
structure FromGraph (s : σ) (r : DetectResult σ K) : Prop where
  computed_eq : r.computed = List.range (nChunks v samples.length)
  probs_eq : r.detection.probs = (detectWindows graph v s samples).1

end Definitions

section Segments

variable {σ K : Type*} [Field K] [LinearOrder K] [FloorRing K] (env : DetectEnv σ K)
  (graph : σ → List K → σ × K) (v : VadContext) (samples : List K)

/-- `whisper_vad_segments_from_samples`, with the detection that it runs. -/
def DetectEnv.segmentsFromSamples (p : VadParams K) (cleared : σ) (d : Detection σ K) :
    Option (List Stretch) × DetectResult σ K :=
  let r := env.detectSpeech graph v samples cleared d
  (if r.success then some (segmentsFromProbs v p r.detection.probs) else none, r)

end Segments

section

variable {σ K : Type*} [Zero K] {env : DetectEnv σ K} {graph : σ → List K → σ × K} {v : VadContext}
  {samples : List K} {n i : ℕ}

/-- Without a failure the loop goes over all chunks. -/
theorem chunks_of_ok (h : ∀ k < n, env.computeOk (i + k) = true) (d : ComputeLoop σ K) :
    env.chunks graph v samples n i d =
      { toDetectLoop := (List.range' i n).foldl (detectChunk graph v samples) d.toDetectLoop
        computed := d.computed ++ List.range' i n } := by
  induction n generalizing i d with
  | zero => simp [DetectEnv.chunks]
  | succ n ih =>
    have hi : env.computeOk i = true := h 0 n.succ_pos
    have hrest : ∀ k < n, env.computeOk (i + 1 + k) = true := fun k hk => by
      rw [Nat.add_assoc, Nat.add_comm 1]
      exact h (k + 1) (Nat.succ_lt_succ hk)
    rw [DetectEnv.chunks, if_pos hi, ih hrest, List.range'_succ, List.foldl_cons, List.append_assoc,
      List.singleton_append]

variable (env graph v samples) in
/-- With one, it misses chunks. -/
theorem length_computed_lt (h : ∃ k < n, env.computeOk (i + k) = false) (d : ComputeLoop σ K) :
    (env.chunks graph v samples n i d).computed.length < d.computed.length + n := by
  induction n generalizing i d with
  | zero =>
    obtain ⟨k, hk, -⟩ := h
    exact absurd hk k.not_lt_zero
  | succ n ih =>
    rw [DetectEnv.chunks]
    split_ifs with hi
    · obtain ⟨k, hk, hfail⟩ := h
      cases k with
      | zero => exact absurd hfail (by rw [Nat.add_zero, hi]; exact nofun)
      | succ k =>
        have hrest : ∃ k < n, env.computeOk (i + 1 + k) = false := by
          refine ⟨k, Nat.lt_of_succ_lt_succ hk, ?_⟩
          rw [Nat.add_assoc, Nat.add_comm 1]
          exact hfail
        refine (ih hrest _).trans_eq ?_
        rw [List.length_append, List.length_singleton]
        omega
    · exact Nat.lt_add_of_pos_right n.succ_pos

/-- **Without failures, a call is the detection of its windows.** -/
theorem DetectEnv.detectSpeechNoReset_of_ok (halloc : env.allocOk = true)
    (hok : ∀ i < nChunks v samples.length, env.computeOk i = true) (d : Detection σ K) :
    env.detectSpeechNoReset graph v samples d =
      ⟨true, Vad.detectSpeechNoReset graph v d samples, List.range (nChunks v samples.length)⟩ := by
  rw [DetectEnv.detectSpeechNoReset, if_pos halloc, chunks_of_ok (by simpa using hok),
    ← List.range_eq_range', Vad.detectSpeechNoReset]
  rfl

variable (env graph v samples) in
/-- Success means that all probabilities were computed, unless a computation fails. -/
theorem fromGraph_of_success_iff (d : Detection σ K) :
    ((env.detectSpeechNoReset graph v samples d).success = true →
        FromGraph graph v samples d.lstm (env.detectSpeechNoReset graph v samples d)) ↔
      env.allocOk = false ∨ ∀ i < nChunks v samples.length, env.computeOk i = true := by
  cases halloc : env.allocOk with
  | false =>
    have hfail : (env.detectSpeechNoReset graph v samples d).success = false := by
      rw [DetectEnv.detectSpeechNoReset, halloc]
      rfl
    rw [hfail]
    exact ⟨fun _ => .inl rfl, fun _ => by rintro ⟨⟩⟩
  | true =>
    have hsuccess : (env.detectSpeechNoReset graph v samples d).success = true := by
      rw [DetectEnv.detectSpeechNoReset, halloc]
      rfl
    constructor
    · intro h
      refine .inr ?_
      by_contra hfail
      push Not at hfail
      obtain ⟨i, hi, hne⟩ := hfail
      have hfails : ∃ i < nChunks v samples.length, env.computeOk (0 + i) = false :=
        ⟨i, hi, by rw [Nat.zero_add, Bool.eq_false_iff]; exact hne⟩
      have hlt := length_computed_lt env graph v samples hfails
        { lstm := d.lstm, probs := resize d.probs (nChunks v samples.length)
          window := List.replicate v.window 0, computed := [] }
      have hall := congrArg List.length (h hsuccess).computed_eq
      rw [DetectEnv.detectSpeechNoReset, if_pos halloc, List.length_range] at hall
      simp only [List.length_nil, Nat.zero_add] at hlt hall
      omega
    · rintro (hnone | hok) -
      · cases hnone
      · rw [DetectEnv.detectSpeechNoReset_of_ok halloc hok]
        exact ⟨rfl, by rw [detectSpeechNoReset_eq]⟩

end

section Results

variable {σ K : Type*} [Field K] [LinearOrder K] [FloorRing K]

/-- **When success means that all probabilities were computed.** The graph cannot be allocated,
which is reported, or it can be computed for every window. -/
theorem fromGraph_iff (env : DetectEnv σ K) (graph : σ → List K → σ × K) (v : VadContext)
    (samples : List K) (p : VadParams K) (cleared : σ) (d : Detection σ K) :
    (((env.detectSpeechNoReset graph v samples d).success = true →
          FromGraph graph v samples d.lstm (env.detectSpeechNoReset graph v samples d)) ∧
        ((env.detectSpeech graph v samples cleared d).success = true →
          FromGraph graph v samples cleared (env.detectSpeech graph v samples cleared d)) ∧
        ((env.segmentsFromSamples graph v samples p cleared d).1 ≠ none →
          FromGraph graph v samples cleared
            (env.segmentsFromSamples graph v samples p cleared d).2)) ↔
      env.allocOk = false ∨ ∀ i < nChunks v samples.length, env.computeOk i = true := by
  have hsegments : (env.segmentsFromSamples graph v samples p cleared d).1 ≠ none ↔
      (env.detectSpeech graph v samples cleared d).success = true := by
    rw [DetectEnv.segmentsFromSamples]
    simp
  have hreset := fromGraph_of_success_iff env graph v samples (resetState cleared d)
  rw [hsegments, fromGraph_of_success_iff]
  exact ⟨And.left, fun h => ⟨h, hreset.2 h, hreset.2 h⟩⟩

/-- The graph fails for the second window. -/
def secondFails : DetectEnv ℚ ℚ := ⟨true, fun i => i != 1, fun s _ => s⟩

/-- **After a failure the call reports success, with a probability of the call before.** -/
theorem not_fromGraph_secondFails :
    let r := secondFails.detectSpeech (fun s _ => (s, 1 / 4)) ⟨512, by decide⟩
      (List.replicate 1024 1) 0 ⟨7, [1 / 2, 9 / 10]⟩
    r.success = true ∧ r.detection.probs = [1 / 4, 9 / 10] ∧
      ¬ FromGraph (fun s _ => (s, 1 / 4)) ⟨512, by decide⟩ (List.replicate 1024 1) 0 r := by
  intro r
  have hchunks : nChunks ⟨512, by decide⟩ (List.replicate 1024 (1 : ℚ)).length = 2 := by
    rw [List.length_replicate]
    rfl
  have hr : r = ⟨true, ⟨0, [1 / 4, 9 / 10]⟩, [0]⟩ := by
    rw [show r = secondFails.detectSpeech _ _ _ _ _ from rfl, DetectEnv.detectSpeech,
      DetectEnv.detectSpeechNoReset, if_pos (show secondFails.allocOk = true from rfl), hchunks]
    rfl
  rw [hr]
  refine ⟨rfl, rfl, fun h => ?_⟩
  have hall := congrArg List.length h.computed_eq
  rw [List.length_range, hchunks] at hall
  exact absurd hall (by decide)

end Results

end Vad

end WhisperCpp
