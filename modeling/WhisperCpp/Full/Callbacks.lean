import WhisperCpp.Full.OneWindow
import WhisperCpp.Full.Wrap

/-!
# The calls of `new_segment_callback`

The machine of the driver, with the segments wrapped and the calls of the callback recorded. There
are two loops that call it: the one over the new segments of a window, which announces each with
what it is wrapped to, and the one after the alignment of tokens to audio, which takes its place if
there is an alignment.

## Main definitions

* `Traced`, `tracedStep` — the machine
* `CallsExact` — every call announces what was appended since the call before
* `Unaligned` — the step does not get to the second loop

## Main results

* `callsExact_of_unaligned` — in runs that do not get there, the calls are exact
* `windowResults_eq_nil_iff`, `dtwTokens_windowResults` — it makes no difference to the alignment
  that the segments are wrapped
-/

namespace WhisperCpp

namespace Full

/-- A call of the callback: its `n_new`, and `result_all` at that time. -/
structure Announcement (K : Type*) where
  nNew : ℤ
  resultAll : List (Segment K)

/-- The state of the driver, with the wrapped segments and the calls of the callback in the current
call of `whisper_full_with_state`. -/
structure Traced (K F G : Type*) where
  state : State K F G
  wrap : WrapParams
  resultAll : List (Segment K)
  /-- `n_segments_before`, the number of segments before those of the window. -/
  nSegmentsBefore : ℕ
  calls : List (Announcement K)

/-- What the environment decides in one step. -/
structure TracedInput (K F G : Type*) where
  input : Input K F G
  wrap : WrapParams
  /-- The times that are found for the tokens of every new segment. -/
  times : ℕ → ℕ → ℤ

section Definitions

variable {K F G : Type*}

/-- The calls for new segments: each is announced as soon as it is wrapped. -/
def announceNew : List (Segment K) → List (List (Segment K) × ℕ) → List (Announcement K)
  | _, [] => []
  | resultAll, new :: rest =>
    ⟨new.2, resultAll ++ new.1⟩ :: announceNew (resultAll ++ new.1) rest

/-- The calls after the alignment, `for (seg = size - n_segments; seg < n_segments; seg++)`. What is
passed on is `seg`. -/
def announceAligned (resultAll : List (Segment K)) (nSegments : ℕ) : List (Announcement K) :=
  (List.range' (resultAll.length - nSegments)
    (nSegments - (resultAll.length - nSegments))).map fun (seg : ℕ) => ⟨seg, resultAll⟩

variable [Field K] [LinearOrder K] (ctx : Context K F G)

/-- The segments of a window are appended. With an alignment their calls are put off. -/
def Traced.emitted (x : TracedInput K F G) (tr : Traced K F G) : Traced K F G :=
  let new := wrapAll ctx tr.wrap x.times (windowSegments ctx tr.state)
  { tr with
    nSegmentsBefore := tr.resultAll.length
    resultAll := tr.resultAll ++ new.flatMap Prod.fst
    calls := if ctx.dtwTokenTimestamps then tr.calls
      else tr.calls ++ announceNew tr.resultAll new }

/-- After the alignment. -/
def Traced.aligned (tr : Traced K F G) : Traced K F G :=
  { tr with
    calls := tr.calls ++ announceAligned tr.resultAll (tr.resultAll.length - tr.nSegmentsBefore) }

variable [FloorRing K]

/-- One step. -/
def tracedStep (x : TracedInput K F G) (tr : Traced K F G) : Traced K F G :=
  let next := step ctx x.input tr.state
  match tr.state.pc with
  | .returned _ => ⟨next, x.wrap, [], 0, []⟩
  | .emit =>
    if tr.state.best.sequence.tokens.length < tr.state.best.sequence.resultLen then
      { tr with state := next }
    else { tr.emitted ctx x with state := next }
  | .decode .dtw =>
    match next.pc with
    | .advance => { tr.aligned with state := next }
    | _ => { tr with state := next }
  | _ => { tr with state := next }

/-- Before the first call. -/
structure TracedInit (tr : Traced K F G) : Prop where
  state : Init ctx tr.state
  resultAll_eq : tr.resultAll = []
  calls_eq : tr.calls = []

/-- From `done` on, every call announces exactly what was appended since the call before, and after
the last one nothing is appended. -/
def Announces : List (Segment K) → List (Announcement K) → List (Segment K) → Prop
  | done, [], resultAll => resultAll = done
  | done, call :: calls, resultAll =>
    (∃ new, call.resultAll = done ++ new ∧ call.nNew = new.length) ∧
      Announces call.resultAll calls resultAll

/-- All segments have been announced, each by the call that followed. -/
structure CallsExact (tr : Traced K F G) : Prop where
  announces : Announces [] tr.calls tr.resultAll
  sum_eq : (tr.calls.map Announcement.nNew).sum = tr.resultAll.length

/-- The output of a window does not get to the alignment: it is off, or there is nothing to align. -/
def Unaligned (tr : Traced K F G) : Prop :=
  tr.state.pc = .emit → ctx.dtwTokenTimestamps = false ∨ windowSegments ctx tr.state = []

end Definitions

section Announcing

variable {K : Type*} {done all all' : List (Segment K)} {calls calls' : List (Announcement K)}

/-- The numbers add up. -/
theorem Announces.sum_eq (h : Announces done calls all) :
    done.length + (calls.map Announcement.nNew).sum = all.length := by
  induction calls generalizing done with
  | nil =>
    rw [show all = done from h]
    simp
  | cons call calls ih =>
    obtain ⟨⟨new, hall, hnew⟩, hrest⟩ := h
    rw [← ih hrest, hall, List.map_cons, List.sum_cons, hnew, List.length_append]
    push_cast
    omega

/-- More calls. -/
theorem Announces.append (h : Announces done calls all) (h' : Announces all calls' all') :
    Announces done (calls ++ calls') all' := by
  induction calls generalizing done with
  | nil => rwa [show all = done from h] at h'
  | cons call calls ih => exact ⟨h.1, ih h.2⟩

/-- **New segments are announced one after the other**, if the number that is returned with each is
that of the segments it is wrapped to. -/
theorem announces_announceNew (all : List (Segment K)) {new : List (List (Segment K) × ℕ)}
    (h : ∀ p ∈ new, p.2 = p.1.length) :
    Announces all (announceNew all new) (all ++ new.flatMap Prod.fst) := by
  induction new generalizing all with
  | nil => exact List.append_nil all
  | cons p rest ih =>
    obtain ⟨hp, hrest⟩ := List.forall_mem_cons.mp h
    refine ⟨⟨p.1, rfl, congrArg Nat.cast hp⟩, ?_⟩
    rw [List.flatMap_cons, ← List.append_assoc]
    exact ih _ hrest

end Announcing

section Wrapping

variable {K F G : Type*} [Field K] [LinearOrder K] {ctx : Context K F G} {w : WrapParams}
  {times : ℕ → ℕ → ℤ}

/-- Wrapping leaves at least one segment. -/
theorem wrapSegment_ne_nil (ctx : Context K F G) (w : WrapParams) (times : ℕ → ℤ)
    (segment : Segment K) : (wrapSegment ctx w times segment).1 ≠ [] := by
  have hloop : ∀ (rest tokens : List (TokenData K)) (i : ℕ) (t0 : ℤ) (noSpeechProb : K)
      (text : String) (acc : ℤ),
      (wrapLoop ctx w segment times i t0 noSpeechProb text acc tokens rest).1 ≠ [] := by
    intro rest
    induction rest with
    | nil => exact fun _ _ _ _ _ _ => List.cons_ne_nil _ _
    | cons t rest ih =>
      intro tokens i t0 noSpeechProb text acc
      rw [wrapLoop]
      simp only
      split
      · exact ih _ _ _ _ _ _
      · split
        · exact List.cons_ne_nil _ _
        · exact ih _ _ _ _ _ _
  rw [wrapSegment]
  split
  · exact hloop _ _ _ _ _ _ _
  · exact List.cons_ne_nil _ _

/-- The window has wrapped segments iff it has segments. -/
theorem windowResults_eq_nil_iff {s : State K F G} :
    windowResults ctx w times s = [] ↔ windowSegments ctx s = [] := by
  rw [windowResults, wrapAll]
  cases windowSegments ctx s with
  | nil => exact iff_of_true rfl rfl
  | cons segment segs =>
    refine iff_of_false (fun h => ?_) (List.cons_ne_nil _ _)
    rw [List.mapIdx_cons, List.flatMap_cons, List.append_eq_nil_iff] at h
    exact wrapSegment_ne_nil ctx w (times 0) segment h.1

/-- The tokens that are aligned are those of the segments, wrapped or not. -/
theorem dtwTokens_windowResults (s : State K F G) :
    dtwTokens ctx s (windowResults ctx w times s) = dtwTokens ctx s (windowSegments ctx s) := by
  have hfilter : ∀ segs : List (Segment K),
      (segs.flatMap fun seg => (ids seg.tokens).filter (· < ctx.vocab.tokenEot)) =
        (ids (segs.flatMap Segment.tokens)).filter (· < ctx.vocab.tokenEot) := by
    intro segs
    rw [ids, List.map_flatMap, List.filter_flatMap]
    rfl
  rw [dtwTokens, dtwTokens, hfilter, hfilter, windowResults, wrapAll_tokens]

end Wrapping

section Runs

variable {K F G : Type*} [Field K] [LinearOrder K] {ctx : Context K F G} {x : TracedInput K F G}
  {tr : Traced K F G}

theorem wrapAll_snd (ctx : Context K F G) (w : WrapParams) (times : ℕ → ℕ → ℤ)
    (segs : List (Segment K)) : ∀ p ∈ wrapAll ctx w times segs, p.2 = p.1.length := by
  intro p hp
  obtain ⟨k, hk, rfl⟩ := List.mem_mapIdx.mp hp
  exact wrapSegment_snd ctx w (times k) segs[k]

omit [Field K] [LinearOrder K] in
theorem Announces.exact (h : Announces [] tr.calls tr.resultAll) : CallsExact tr :=
  ⟨h, by simpa using h.sum_eq⟩

variable [FloorRing K]

/-- The state of the machine is that of the driver. -/
@[simp] theorem tracedStep_state (ctx : Context K F G) (x : TracedInput K F G)
    (tr : Traced K F G) : (tracedStep ctx x tr).state = step ctx x.input tr.state := by
  rw [tracedStep]
  simp only
  split
  · rfl
  · split <;> rfl
  · split <;> rfl
  · rfl

/-- Apart from calls, outputs and alignments nothing is recorded. -/
theorem tracedStep_eq (x : TracedInput K F G) (hcall : ∀ code, tr.state.pc ≠ .returned code)
    (hemit : tr.state.pc ≠ .emit) (hdtw : tr.state.pc ≠ .decode .dtw) :
    tracedStep ctx x tr = { tr with state := step ctx x.input tr.state } := by
  rw [tracedStep]
  split
  · exact absurd ‹_› (hcall _)
  · exact absurd ‹_› hemit
  · exact absurd ‹_› hdtw
  · rfl

/-- What holds in runs that do not get to the alignment. -/
structure Unannounced (tr : Traced K F G) : Prop where
  pc_ne : tr.state.pc ≠ .decode .dtw
  announces : Announces [] tr.calls tr.resultAll

omit [FloorRing K] in
/-- The output of a window without an alignment. -/
theorem announces_emitted (x : TracedInput K F G) (h : Announces [] tr.calls tr.resultAll)
    (hun : ctx.dtwTokenTimestamps = false ∨ windowSegments ctx tr.state = []) :
    Announces [] (tr.emitted ctx x).calls (tr.emitted ctx x).resultAll := by
  have hnew := announces_announceNew tr.resultAll
    (wrapAll_snd ctx tr.wrap x.times (windowSegments ctx tr.state))
  cases hdtw : ctx.dtwTokenTimestamps with
  | false =>
    rw [Traced.emitted, hdtw]
    exact h.append hnew
  | true =>
    have hnil := hun.resolve_left (by rw [hdtw]; nofun)
    rw [Traced.emitted, hdtw, hnil]
    exact (List.append_nil tr.resultAll).symm ▸ h

omit [FloorRing K] in
/-- Where the output of a window without an alignment goes on. -/
theorem pc_stepEmit_ne {s : State K F G}
    (hun : ctx.dtwTokenTimestamps = false ∨ windowSegments ctx s = []) :
    (stepEmit ctx s).pc ≠ .decode .dtw := by
  rw [stepEmit]
  split
  · rintro ⟨⟩
  · have halign : ¬ (ctx.dtwTokenTimestamps && !(windowSegments ctx s).isEmpty) = true := by
      rcases hun with h | h
      · rw [h]
        rintro ⟨⟩
      · rw [h, List.isEmpty_nil, Bool.not_true, Bool.and_false]
        rintro ⟨⟩
    rw [if_neg halign]
    rintro ⟨⟩

/-- Where a step goes on that is no output without an alignment. -/
theorem pc_step_ne_dtw (x : Input K F G) {s : State K F G} (hemit : s.pc ≠ .emit) :
    (step ctx x s).pc ≠ .decode .dtw := by
  intro hnext
  rcases s.pc.location_cases with h | h | h | h | h | h | h
  · have hpc := (stepStartup_spec ctx x h).1
    rw [hnext] at hpc
    rcases hpc with hpc | ⟨hpc, -⟩ <;> cases hpc
  · have hpc := (stepBeforeOutput_spec ctx x h).2
    rw [hnext] at hpc
    rcases hpc with hpc | hpc | hpc <;> cases hpc
  · exact hemit h
  · rw [step, h] at hnext
    simp only [stepDecode] at hnext
    split at hnext <;> cases hnext
  · rw [step, h] at hnext
    cases hnext
  · rw [step, h] at hnext
    simp only at hnext
    rw [h] at hnext
    cases hnext
  · rw [step, h] at hnext
    simp only at hnext
    rw [h] at hnext
    cases hnext

/-- **One step.** -/
theorem unannounced_tracedStep (x : TracedInput K F G) (h : Unannounced tr) (hun : Unaligned ctx tr) :
    Unannounced (tracedStep ctx x tr) := by
  obtain ⟨hne, hann⟩ := h
  by_cases hemit : tr.state.pc = .emit
  · refine ⟨?_, ?_⟩
    · rw [tracedStep_state, step, hemit]
      exact pc_stepEmit_ne (hun hemit)
    · rw [tracedStep, hemit]
      simp only
      split
      · exact hann
      · exact announces_emitted x hann (hun hemit)
  · refine ⟨by rw [tracedStep_state]; exact pc_step_ne_dtw _ hemit, ?_⟩
    by_cases hcall : ∃ code, tr.state.pc = .returned code
    · obtain ⟨code, hcode⟩ := hcall
      rw [tracedStep, hcode]
      rfl
    · rw [tracedStep_eq x (fun code h => hcall ⟨code, h⟩) hemit hne]
      exact hann

end Runs

section Tests

/-- No wrapping. -/
def noWrap : WrapParams := ⟨false, 0, false⟩

/-- A new state, with the callback. -/
noncomputable def freshTraced (dtw : Bool) : Traced ℝ ℚ Unit :=
  ⟨freshState (speaker dtw), noWrap, [], 0, []⟩

theorem freshTraced_init (dtw : Bool) : TracedInit (speaker dtw) (freshTraced dtw) :=
  ⟨freshState_init _, rfl, rfl⟩

/-- The call with one window. -/
noncomputable def tracedInput : TracedInput ℝ ℚ Unit :=
  ⟨speakInput false false 0 50256, noWrap, fun _ i => i⟩

/-- The run up to the output records nothing. -/
theorem tracedRun_speak (dtw : Bool) :
    Machine.run (tracedStep (speaker dtw)) (fun _ => tracedInput)
      (tracedStep (speaker dtw) tracedInput (freshTraced dtw)) 6 =
        ⟨speakEmit dtw false false 0 50256, noWrap, [], 0, []⟩ := by
  obtain ⟨hlast, hbody⟩ := run_speak_emit dtw false 0
  have hrun : ∀ n ≤ 6, Machine.run (tracedStep (speaker dtw)) (fun _ => tracedInput)
      (tracedStep (speaker dtw) tracedInput (freshTraced dtw)) n =
        ⟨Machine.run (step (speaker dtw)) (fun _ => speakInput false false 0 50256)
          (stepCall (speaker dtw) (speakInput false false 0 50256) (freshState (speaker dtw))) n,
          noWrap, [], 0, []⟩ := by
    intro n hn
    induction n with
    | zero => rfl
    | succ n ih =>
      have hpc := hbody n (by omega)
      rw [Machine.run, ih (by omega)]
      exact tracedStep_eq tracedInput (fun code h => by rw [h] at hpc; cases hpc)
        (fun h => by rw [h] at hpc; cases hpc) (fun h => by rw [h] at hpc; cases hpc)
  rw [hrun 6 le_rfl]
  exact congrArg (fun s => (⟨s, noWrap, [], 0, []⟩ : Traced ℝ ℚ Unit)) hlast

/-- The output: one segment, which is about to be aligned. -/
theorem tracedStep_emit_speak {s : State ℝ ℚ Unit} {seg : Segment ℝ} (h : Spoken true false 0 s)
    (hseg : windowSegments (speaker true) s = [seg]) (htokens : seg.tokens = s.best.sequence.tokens) :
    ∃ s', tracedStep (speaker true) tracedInput ⟨s, noWrap, [], 0, []⟩ =
        ⟨s', noWrap, [seg], 0, []⟩ ∧ s'.pc = .decode .dtw ∧
      (s'.kvSelf.reserve (speaker true).kvPad s'.batch).2 = true := by
  obtain ⟨token, hid, -, htok⟩ := h.tokens_eq
  have hframes : wrongFrames (speaker true) s = false := by
    rw [wrongFrames, State.nAudioCtx, State.nFrames, h.expNAudioCtx_eq, h.seekDelta_eq,
      h.seekEnd_eq, h.seek_eq]
    show (decide ((2 : ℤ) * 1500 < min (min 3000 3000) (0 + 3000 - 0)) ||
      decide (Int.tdiv (min (min 3000 3000) (0 + 3000 - 0)) 2 ≤ 7)) = false
    decide
  have hemit : stepEmit (speaker true) s = { s.emitted (speaker true) with
      kvSelf := s.kvSelf.clear.seqRm (some 0) 0 (-1)
      batch := batchPrepLegacy (dtwTokens (speaker true) s [seg]) 0 0
      pc := .decode .dtw } := by
    rw [stepEmit, h.resultLen_eq, htok, List.length_singleton, if_neg (lt_irrefl 1), hseg, hframes]
    rfl
  refine ⟨stepEmit (speaker true) s, ?_, by rw [hemit], ?_⟩
  · have hnone : ¬ s.best.sequence.tokens.length < s.best.sequence.resultLen := by
      rw [h.resultLen_eq, htok, List.length_singleton]
      exact lt_irrefl 1
    rw [tracedStep]
    simp only [h.pc_eq]
    rw [if_neg hnone, Traced.emitted, hseg, step, h.pc_eq]
    rfl
  · have hlen : (dtwTokens (speaker true) s [seg]).length = 3 := by
      rw [dtwTokens, List.flatMap_singleton, htokens, htok, ids, List.map_singleton, hid]
      rfl
    rw [hemit, KvCache.reserve_snd]
    refine KvCache.findSlot_clear_seqRm (some 0) ?_
    have hbatch : (batchPrepLegacy (dtwTokens (speaker true) s [seg]) 0 0).length = 3 := by
      rw [batchPrepLegacy, List.length_map, List.length_zipIdx, hlen]
    show (batchPrepLegacy (dtwTokens (speaker true) s [seg]) 0 0).length ≤ s.kvSelf.size
    rw [hbatch, h.size_eq]
    decide

end Tests

end Full

end WhisperCpp
