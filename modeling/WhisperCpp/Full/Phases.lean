import WhisperCpp.Full.Driver

/-!
# What holds where the driver stands

The facts about the local variables of a call that every later invariant needs, by program
location: what the setup of a call has established, what is known inside a window, during an
attempt, and when a window is done.

## Main definitions

* `Phase` — the facts that hold at a location

## Main results

* `step_cases` — a step, location by location
* `Reachable.phase` — the facts hold in every reachable state
-/

namespace WhisperCpp

namespace Full

variable {K F G : Type*} [Field K] [LinearOrder K]
  {ctx : Context K F G} {s : State K F G} {x : Input K F G}

/-- What the setup of a call leaves for its main loop. -/
structure SetUp (ctx : Context K F G) (s : State K F G) : Prop where
  nDecoders_le : nDecoders s.params ≤ maxDecoders
  promptInit_eq : s.promptInit = promptInit ctx s.params
  /-- Without a temperature there is no attempt, and the prompt stays empty. -/
  prompt_eq_nil : s.temperatures = [] → s.prompt = []

/-- Inside the body of the main loop. -/
structure InWindow (ctx : Context K F G) (s : State K F G) : Prop extends SetUp ctx s where
  lt_seekEnd : s.seek + deltaMin < s.seekEnd

/-- During attempt `it`. -/
structure InAttempt (ctx : Context K F G) (it : ℕ) (s : State K F G) : Prop
    extends InWindow ctx s where
  temp_eq : s.temperatures[it]? = some s.tCur
  nCur_eq : s.nDecodersCur = nDecodersAt ctx s.params s.tCur
  assemble_eq : assemblePrompt ctx s.params s.promptPast0 s.promptPast1 s.promptInit s.tCur =
    some s.prompt
  window_eq : ∀ j < s.nDecodersCur, (s.decoders j).window = s.windows
  best_eq : s.best.window = s.windows

/-- In the decode loop of attempt `it`, at iteration `i`, where the active decoders have `n`
tokens. -/
structure Decoding (ctx : Context K F G) (it i n : ℕ) (s : State K F G) : Prop
    extends InAttempt ctx it s where
  lt_nMax : (i : ℤ) < nMax ctx
  length_eq : ∀ j < s.nDecodersCur, (s.decoders j).active →
    (s.decoders j).sequence.tokens.length = n
  active_ne : s.activeDecoders ≠ []

/-- The prompt is that of the last attempt of the window, and the best decoder took part in an
attempt of the window. Without a temperature there was no attempt. -/
structure Done (ctx : Context K F G) (s : State K F G) : Prop extends InWindow ctx s where
  assemble_eq : s.temperatures ≠ [] → ∃ t, assemblePrompt ctx s.params s.promptPast0 s.promptPast1
    s.promptInit t = some s.prompt
  best_eq : s.temperatures ≠ [] → s.best.window = s.windows

/-- After the output of a window. -/
structure Emitted (ctx : Context K F G) (s : State K F G) : Prop extends InWindow ctx s where
  seekDelta_eq : s.seekDelta = s.best.seekDelta
  best_eq : s.temperatures ≠ [] → s.best.window = s.windows

/-- Before attempt `it`. -/
structure Attempting (ctx : Context K F G) (it : ℕ) (s : State K F G) : Prop
    extends InWindow ctx s where
  it_cases : s.temperatures = [] ∨ it < s.temperatures.length
  best_eq : it ≠ 0 → s.best.window = s.windows
  best_eq_zero : it = 0 → s.bestDecoderId = 0

/-- The facts that hold at the location of a state. -/
def Phase (ctx : Context K F G) (s : State K F G) : Prop :=
  match s.pc with
  | .window => SetUp ctx s
  | .attempt it => Attempting ctx it s
  | .decode (.prompt it) => InAttempt ctx it s ∧
      ∀ j < s.nDecodersCur, (s.decoders j).active ∧ (s.decoders j).sequence.tokens = []
  | .sample it i => Decoding ctx it i i s
  | .update it i => Decoding ctx it i (i + 1) s
  | .decode (.next it i) => Decoding ctx it i (i + 1) s
  | .rank it => InAttempt ctx it s
  | .emit => Done ctx s
  | .decode .dtw => Emitted ctx s
  | .advance => Emitted ctx s
  | _ => True

/-! ### Consequences -/

theorem nDecodersAt_pos (ctx : Context K F G) (p : Params K F G) (t : F) :
    0 < nDecodersAt ctx p t := by
  rw [nDecodersAt]
  omega

/-- No temperature asks for more decoders than the call. -/
theorem nDecodersAt_le {p : Params K F G} (h : nDecoders p ≤ maxDecoders) (t : F) :
    nDecodersAt ctx p t ≤ maxDecoders := by
  rw [nDecoders] at h
  rw [nDecodersAt]
  simp only [maxDecoders] at h ⊢
  cases hs : p.strategy <;> simp only [hs] at h ⊢ <;> split <;> omega

theorem InAttempt.nCur_pos {it : ℕ} (h : InAttempt ctx it s) : 0 < s.nDecodersCur :=
  h.nCur_eq ▸ nDecodersAt_pos ctx s.params s.tCur

theorem InAttempt.nCur_le {it : ℕ} (h : InAttempt ctx it s) : s.nDecodersCur ≤ maxDecoders :=
  h.nCur_eq ▸ nDecodersAt_le h.nDecoders_le s.tCur

theorem InAttempt.length_prompt_le {it : ℕ} (h : InAttempt ctx it s) :
    s.prompt.length ≤ ctx.hparams.nTextCtx / 2 + 4 := by
  have h1 := length_assemblePrompt_le h.assemble_eq
  have h2 := length_promptInit_le ctx s.params
  rw [h.promptInit_eq] at h1
  omega

theorem InAttempt.it_lt {it : ℕ} (h : InAttempt ctx it s) : it < s.temperatures.length :=
  (List.getElem?_eq_some_iff.mp h.temp_eq).1

omit [Field K] [LinearOrder K] in
theorem mem_activeDecoders {j : ℕ} :
    j ∈ s.activeDecoders ↔ j < s.nDecodersCur ∧ (s.decoders j).active := by
  simp [State.activeDecoders]

/-- A change of the decoders that keeps the windows they belong to. -/
theorem InAttempt.congr {it : ℕ} {s' : State K F G} (h : InAttempt ctx it s)
    (hwin : ∀ j, (s'.decoders j).window = (s.decoders j).window)
    (heq : s' = { s with
      pc := s'.pc, decoders := s'.decoders, kvSelf := s'.kvSelf, logits := s'.logits,
      logitsSize := s'.logitsSize, batch := s'.batch, noSpeechProb := s'.noSpeechProb }) :
    InAttempt ctx it s' := by
  rw [heq]
  exact ⟨⟨⟨h.nDecoders_le, h.promptInit_eq, h.prompt_eq_nil⟩, h.lt_seekEnd⟩, h.temp_eq, h.nCur_eq,
    h.assemble_eq, fun j hj => (hwin j).trans (h.window_eq j hj), (hwin _).trans h.best_eq⟩

/-! ### The steps -/

theorem phase_setup : Phase ctx (setup ctx s) := by
  rw [setup]
  split
  · trivial
  · rename_i hle
    split
    · trivial
    · exact ⟨not_lt.mp hle, rfl, fun _ => rfl⟩

theorem phase_beginCall : Phase ctx (beginCall ctx s) := by
  rw [beginCall]
  split
  · trivial
  · split
    · trivial
    · exact phase_setup

theorem phase_stepCall : Phase ctx (stepCall ctx x s) := by
  rw [stepCall]
  split
  · trivial
  · split
    · split <;> trivial
    · exact phase_beginCall

theorem phase_stepSchedule (t : F) : Phase ctx (stepSchedule ctx t s) := by
  rw [stepSchedule]
  split
  · trivial
  · exact phase_setup

theorem phase_stepWindow (hpc : s.pc = .window) (h : Phase ctx s) : Phase ctx (stepWindow x s) := by
  rw [Phase] at h
  rw [hpc] at h
  rw [stepWindow]
  split
  · trivial
  · rename_i hlt
    split
    · trivial
    · split
      · trivial
      · refine ⟨⟨⟨h.nDecoders_le, h.promptInit_eq, h.prompt_eq_nil⟩, not_le.mp hlt⟩, ?_,
          fun h0 => absurd rfl h0, fun _ => rfl⟩
        show s.temperatures = [] ∨ 0 < s.temperatures.length
        rw [List.length_pos_iff]
        exact em _

theorem phase_stepAttempt {it : ℕ} (hpc : s.pc = .attempt it) (h : Phase ctx s) :
    Phase ctx (stepAttempt ctx x it s) := by
  rw [Phase] at h
  rw [hpc] at h
  rw [stepAttempt]
  split
  · rename_i hnone
    -- the attempts are only skipped when there is no temperature
    have hnil : s.temperatures = [] := by
      rcases h.it_cases with hnil | hlt
      · exact hnil
      · rw [List.getElem?_eq_getElem hlt] at hnone
        cases hnone
    exact ⟨⟨⟨h.nDecoders_le, h.promptInit_eq, h.prompt_eq_nil⟩, h.lt_seekEnd⟩,
      fun hne => absurd hnil hne, fun hne => absurd hnil hne⟩
  · rename_i t ht
    split
    · trivial
    · rename_i prompt hprompt
      split
      · trivial
      · rename_i kv hkv
        have hpos := nDecodersAt_pos ctx s.params t
        refine ⟨⟨⟨⟨h.nDecoders_le, h.promptInit_eq, fun hnil => ?_⟩, h.lt_seekEnd⟩, ht, rfl, hprompt,
          fun j hj => ?_, ?_⟩, fun j hj => ?_⟩
        · have hnil : s.temperatures = [] := hnil
          rw [hnil] at ht
          cases ht
        · have hj : j < nDecodersAt ctx s.params t := hj
          show (if j < _ then _ else _ : Decoder K G).window = s.windows
          rw [if_pos hj]
          rfl
        · show (if s.bestDecoderId < _ then _ else _ : Decoder K G).window = s.windows
          split
          · rfl
          · rename_i hlt
            refine h.best_eq fun h0 => hlt ?_
            rw [h.best_eq_zero h0]
            exact hpos
        · have hj : j < nDecodersAt ctx s.params t := hj
          show (if j < _ then _ else _ : Decoder K G).active = true ∧
            (if j < _ then _ else _ : Decoder K G).sequence.tokens = []
          rw [if_pos hj]
          exact ⟨rfl, rfl⟩

theorem phase_stepSample {it i : ℕ} (hpc : s.pc = .sample it i) (h : Phase ctx s) :
    Phase ctx (stepSample ctx x it i s) := by
  rw [Phase] at h
  rw [hpc] at h
  -- sampling adds a token to every active decoder and keeps the rest of it
  have key : ∀ s' : State K F G, s'.pc = .update it i →
      s' = { s with pc := s'.pc, decoders := s'.decoders, kvSelf := s'.kvSelf } →
      (∀ j, (s'.decoders j).window = (s.decoders j).window ∧
        (s'.decoders j).active = (s.decoders j).active) →
      (∀ j < s.nDecodersCur, (s.decoders j).active →
        (s'.decoders j).sequence.tokens.length = i + 1) → Phase ctx s' := by
    intro s' hpc' heq hdec hlen
    have hn : s'.nDecodersCur = s.nDecodersCur := by rw [heq]
    rw [Phase]
    rw [hpc']
    refine ⟨h.toInAttempt.congr (fun j => (hdec j).1) (heq.trans (by rw [heq])), h.lt_nMax,
      fun j hj hact => ?_, ?_⟩
    · rw [hn] at hj
      exact hlen j hj ((hdec j).2 ▸ hact)
    · have : s'.activeDecoders = s.activeDecoders := by
        rw [State.activeDecoders]
        rw [hn]
        exact List.filter_congr fun j _ => (hdec j).2
      rw [this]
      exact h.active_ne
  rw [stepSample]
  split
  · refine key _ rfl rfl (fun j => ?_) fun j hj hact => ?_
    · simp only
      split <;> exact ⟨rfl, rfl⟩
    · simp only [hj, hact, and_self, if_true, sampleGreedy, Sequence.tokens_push,
        List.length_append, List.length_singleton, h.length_eq j hj hact]
  · split
    · trivial
    · rename_i hne
      have hcs : sortedCandidates ctx x s ≠ [] := by simpa using hne
      refine key _ rfl rfl (fun j => ?_) fun j hj hact => ?_
      · have hre := reassign_decoders hcs i s.nDecodersCur s.decoders s.kvSelf j
        simp only
        split at hre
        · obtain ⟨cur, -, heq⟩ := hre
          rw [heq]
          exact ⟨rfl, rfl⟩
        · rw [hre]
          exact ⟨rfl, rfl⟩
      · have hre := reassign_decoders hcs i s.nDecodersCur s.decoders s.kvSelf j
        rw [if_pos ⟨hj, hact⟩] at hre
        obtain ⟨cur, hcur, heq⟩ := hre
        simp only [heq]
        obtain ⟨k, hk, hka, t, -, rfl⟩ := mem_allCandidates (mem_sortCandidates.mp hcur)
        simp only [Decoder.inherit, Sequence.tokens_push, List.length_append,
          List.length_singleton, h.length_eq k hk hka]

/-- What the update of the decoders leaves of them. -/
theorem updateAll_decoders (ctx : Context K F G) (i : ℕ) (s : State K F G) (j : ℕ) :
    ((s.updateAll ctx i).decoders j).sequence.tokens = (s.decoders j).sequence.tokens ∧
      ((s.updateAll ctx i).decoders j).scores = (s.decoders j).scores ∧
      ((s.updateAll ctx i).decoders j).window = (s.decoders j).window ∧
      (((s.updateAll ctx i).decoders j).active → (s.decoders j).active) := by
  have heq : (s.updateAll ctx i).decoders j = (updated ctx i s j).getD (s.decoders j) := rfl
  rw [heq]
  rw [updated]
  split
  · rename_i hj
    cases hu : updateDecoder ctx s.params s.seek s.seekEnd i (s.decoders j) with
    | none => exact ⟨rfl, rfl, rfl, fun h => h⟩
    | some d =>
      obtain ⟨h1, h2, h3⟩ := updateDecoder_tokens hj.2 hu
      exact ⟨h1, h2, h3, fun _ => hj.2⟩
  · exact ⟨rfl, rfl, rfl, fun h => h⟩

omit [Field K] [LinearOrder K] in
/-- The preparation of the next batch assigns its rows. -/
theorem prepareNext_decoder_eq (it i : ℕ) (s : State K F G) (j : ℕ) :
    ∃ b, (s.prepareNext it i).decoders j = { s.decoders j with iBatch := b } := by
  simp only [State.prepareNext]
  split <;> exact ⟨_, rfl⟩

theorem phase_stepUpdate {it i : ℕ} (hpc : s.pc = .update it i) (h : Phase ctx s) :
    Phase ctx (stepUpdate ctx it i s) := by
  rw [Phase] at h
  rw [hpc] at h
  have hup := updateAll_decoders ctx i s
  rw [stepUpdate]
  split
  · trivial
  · split
    · exact h.toInAttempt.congr (fun j => (hup j).2.2.1) rfl
    · rename_i hne
      have hdec : ∀ j, (((s.updateAll ctx i).prepareNext it i).decoders j).window =
            ((s.updateAll ctx i).decoders j).window ∧
          (((s.updateAll ctx i).prepareNext it i).decoders j).active =
            ((s.updateAll ctx i).decoders j).active ∧
          (((s.updateAll ctx i).prepareNext it i).decoders j).sequence =
            ((s.updateAll ctx i).decoders j).sequence := by
        intro j
        obtain ⟨b, heq⟩ := prepareNext_decoder_eq it i (s.updateAll ctx i) j
        rw [heq]
        exact ⟨rfl, rfl, rfl⟩
      refine ⟨h.toInAttempt.congr (fun j => (hdec j).1.trans (hup j).2.2.1) rfl, h.lt_nMax,
        fun j hj hact => ?_, ?_⟩
      · rw [(hdec j).2.2, (hup j).1]
        exact h.length_eq j hj ((hup j).2.2.2 ((hdec j).2.1 ▸ hact))
      · have : ((s.updateAll ctx i).prepareNext it i).activeDecoders =
            (s.updateAll ctx i).activeDecoders := List.filter_congr fun j _ => (hdec j).2.1
        rw [this]
        exact hne

theorem phase_stepRank {it : ℕ} (hpc : s.pc = .rank it) (h : Phase ctx s) :
    Phase ctx (stepRank ctx it s) := by
  rw [Phase] at h
  rw [hpc] at h
  have hwin : ∀ j, ((s.rankAll ctx).decoders j).window = (s.decoders j).window := by
    intro j
    simp only [State.rankAll]
    split
    · exact ((s.decoders j).ranked_eq ctx s.params).2.1
    · rfl
  have hbest : (s.rankAll ctx).best.window = s.windows := by
    show ((s.rankAll ctx).decoders _).window = _
    rw [hwin]
    rcases bestDecoder_cases (s.rankAll ctx).decoders s.nDecodersCur s.bestDecoderId with hb | hb
    · exact (congrArg (fun k => (s.decoders k).window) hb).trans h.best_eq
    · exact h.window_eq _ hb
  rw [stepRank]
  split
  · rename_i hfall
    refine ⟨⟨⟨h.nDecoders_le, h.promptInit_eq, h.prompt_eq_nil⟩, h.lt_seekEnd⟩, .inr ?_,
      fun _ => hbest, fun h0 => absurd h0 (Nat.succ_ne_zero it)⟩
    have hlt := h.it_lt
    simp only [fallsBack, Bool.and_eq_true, decide_eq_true_eq] at hfall
    have hne : it + 1 ≠ s.temperatures.length := hfall.1
    show it + 1 < s.temperatures.length
    omega
  · exact ⟨⟨⟨h.nDecoders_le, h.promptInit_eq, h.prompt_eq_nil⟩, h.lt_seekEnd⟩,
      fun _ => ⟨s.tCur, h.assemble_eq⟩, fun _ => hbest⟩

theorem phase_stepEmit (hpc : s.pc = .emit) (h : Phase ctx s) : Phase ctx (stepEmit ctx s) := by
  rw [Phase] at h
  rw [hpc] at h
  rw [stepEmit]
  split
  · trivial
  · split
    · split
      · trivial
      · exact ⟨⟨⟨h.nDecoders_le, h.promptInit_eq, h.prompt_eq_nil⟩, h.lt_seekEnd⟩, rfl, h.best_eq⟩
    · exact ⟨⟨⟨h.nDecoders_le, h.promptInit_eq, h.prompt_eq_nil⟩, h.lt_seekEnd⟩, rfl, h.best_eq⟩

theorem phase_stepAdvance (hpc : s.pc = .advance) (h : Phase ctx s) :
    Phase ctx (stepAdvance ctx s) := by
  rw [Phase] at h
  rw [hpc] at h
  exact ⟨h.nDecoders_le, h.promptInit_eq, h.prompt_eq_nil⟩

section Step

variable [FloorRing K]

theorem Reachable.step (h : Reachable ctx s) (x : Input K F G) : Reachable ctx (step ctx x s) :=
  Machine.ReachableUnder.step x h trivial

/-- A step treats every location on its own. -/
theorem step_cases {P : State K F G → Prop}
    (call : ∀ code, s.pc = .returned code → P (stepCall ctx x s))
    (schedule : ∀ t, s.pc = .schedule t → P (stepSchedule ctx t s))
    (decode : ∀ site, s.pc = .decode site → P (stepDecode ctx x site s))
    (window : s.pc = .window → P (stepWindow x s))
    (attempt : ∀ it, s.pc = .attempt it → P (stepAttempt ctx x it s))
    (sample : ∀ it i, s.pc = .sample it i → P (stepSample ctx x it i s))
    (update : ∀ it i, s.pc = .update it i → P (stepUpdate ctx it i s))
    (rank : ∀ it, s.pc = .rank it → P (stepRank ctx it s))
    (emit : s.pc = .emit → P (stepEmit ctx s))
    (advance : s.pc = .advance → P (stepAdvance ctx s))
    (stop : s.pc = .freed ∨ s.pc = .fault → P s) : P (step ctx x s) := by
  rw [step]
  split
  · exact call _ ‹_›
  · exact schedule _ ‹_›
  · exact decode _ ‹_›
  · exact window ‹_›
  · exact attempt _ ‹_›
  · exact sample _ _ ‹_›
  · exact update _ _ ‹_›
  · exact rank _ ‹_›
  · exact emit ‹_›
  · exact advance ‹_›
  · exact stop (.inl ‹_›)
  · exact stop (.inr ‹_›)

/-- After the prompt, the decoders have a distribution and nothing else has changed in them. -/
theorem decodedPrompt_decoder_eq (ctx : Context K F G) (x : Input K F G) (s : State K F G)
    (it j : ℕ) :
    ∃ b scores, (decodedPrompt ctx x it s).decoders j =
      { s.decoders j with iBatch := b, scores := scores } := by
  simp only [decodedPrompt]
  split
  · rename_i hj
    subst hj
    exact ⟨_, _, rfl⟩
  · split <;> exact ⟨_, _, rfl⟩

theorem decodedPrompt_decoders (ctx : Context K F G) (x : Input K F G) (s : State K F G)
    (it j : ℕ) :
    ((decodedPrompt ctx x it s).decoders j).window = (s.decoders j).window ∧
      ((decodedPrompt ctx x it s).decoders j).active = (s.decoders j).active ∧
      ((decodedPrompt ctx x it s).decoders j).sequence = (s.decoders j).sequence := by
  obtain ⟨b, scores, heq⟩ := decodedPrompt_decoder_eq ctx x s it j
  rw [heq]
  exact ⟨rfl, rfl, rfl⟩

theorem decodedNext_decoder_eq (ctx : Context K F G) (x : Input K F G) (s : State K F G)
    (it i j : ℕ) :
    ∃ scores, (decodedNext ctx x it i s).decoders j = { s.decoders j with scores := scores } := by
  simp only [decodedNext]
  split <;> exact ⟨_, rfl⟩

theorem decodedNext_decoders (ctx : Context K F G) (x : Input K F G) (s : State K F G)
    (it i j : ℕ) :
    ((decodedNext ctx x it i s).decoders j).window = (s.decoders j).window ∧
      ((decodedNext ctx x it i s).decoders j).active = (s.decoders j).active ∧
      ((decodedNext ctx x it i s).decoders j).sequence = (s.decoders j).sequence := by
  obtain ⟨scores, heq⟩ := decodedNext_decoder_eq ctx x s it i j
  rw [heq]
  exact ⟨rfl, rfl, rfl⟩

theorem phase_decodedPrompt {it : ℕ} (h : InAttempt ctx it s)
    (hfresh : ∀ j < s.nDecodersCur, (s.decoders j).active ∧ (s.decoders j).sequence.tokens = []) :
    Phase ctx (decodedPrompt ctx x it s) := by
  have hdec := decodedPrompt_decoders ctx x s it
  have hatt : InAttempt ctx it (decodedPrompt ctx x it s) := h.congr (fun j => (hdec j).1) rfl
  have hpos := h.nCur_pos
  rw [Phase]
  by_cases hmax : 0 < nMax ctx
  · rw [show (decodedPrompt ctx x it s).pc = .sample it 0 from if_pos hmax]
    refine ⟨hatt, by simpa using hmax, fun j hj _ => ?_, ?_⟩
    · rw [(hdec j).2.2, (hfresh j hj).2]
      rfl
    · refine List.ne_nil_of_mem (mem_activeDecoders.mpr ⟨hpos, ?_⟩)
      rw [(hdec 0).2.1]
      exact (hfresh 0 hpos).1
  · rw [show (decodedPrompt ctx x it s).pc = .rank it from if_neg hmax]
    exact hatt

theorem phase_decodedNext {it i : ℕ} (h : Decoding ctx it i (i + 1) s) :
    Phase ctx (decodedNext ctx x it i s) := by
  have hdec := decodedNext_decoders ctx x s it i
  have hatt : InAttempt ctx it (decodedNext ctx x it i s) :=
    h.toInAttempt.congr (fun j => (hdec j).1) rfl
  rw [Phase]
  by_cases hmax : (i : ℤ) + 1 < nMax ctx
  · rw [show (decodedNext ctx x it i s).pc = .sample it (i + 1) from if_pos hmax]
    refine ⟨hatt, by push_cast; exact hmax, fun j hj hact => ?_, ?_⟩
    · rw [(hdec j).2.2]
      exact h.length_eq j hj ((hdec j).2.1 ▸ hact)
    · have : (decodedNext ctx x it i s).activeDecoders = s.activeDecoders :=
        List.filter_congr fun j _ => (hdec j).2.1
      rw [this]
      exact h.active_ne
  · rw [show (decodedNext ctx x it i s).pc = .rank it from if_neg hmax]
    exact hatt

theorem phase_stepDecode {site : Site} (hpc : s.pc = .decode site) (h : Phase ctx s) :
    Phase ctx (stepDecode ctx x site s) := by
  rw [Phase] at h
  rw [hpc] at h
  rw [stepDecode]
  split
  · cases site with
    | detect =>
      show Phase ctx (decodedDetect ctx x _)
      rw [decodedDetect]
      simp only
      split
      · trivial
      · exact phase_beginCall
    | prompt it => exact phase_decodedPrompt (h.1.congr (fun _ => rfl) rfl) h.2
    | next it i =>
      exact phase_decodedNext ⟨h.toInAttempt.congr (fun _ => rfl) rfl, h.lt_nMax, h.length_eq,
        h.active_ne⟩
    | dtw =>
      exact ⟨⟨⟨h.nDecoders_le, h.promptInit_eq, h.prompt_eq_nil⟩, h.lt_seekEnd⟩, h.seekDelta_eq,
        h.best_eq⟩
  · cases site <;> trivial

theorem phase_step (h : Phase ctx s) : Phase ctx (step ctx x s) :=
  step_cases (fun _ _ => phase_stepCall) (fun t _ => phase_stepSchedule t)
    (fun _ hpc => phase_stepDecode hpc h) (fun hpc => phase_stepWindow hpc h)
    (fun _ hpc => phase_stepAttempt hpc h) (fun _ _ hpc => phase_stepSample hpc h)
    (fun _ _ hpc => phase_stepUpdate hpc h) (fun _ hpc => phase_stepRank hpc h)
    (fun hpc => phase_stepEmit hpc h) (fun hpc => phase_stepAdvance hpc h) fun _ => h

/-- **The facts of its location hold in every reachable state.** -/
theorem Reachable.phase (h : Reachable ctx s) : Phase ctx s :=
  h.invariant (fun s hs => by unfold Phase; rw [hs.pc_eq]; trivial) fun _ _ _ _ h => phase_step h

end Step

end Full

end WhisperCpp
