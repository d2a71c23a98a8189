import WhisperCpp.Full.English
import WhisperCpp.Full.Phases

/-!
# The prompt budget

Every attempt that is given history takes the marker, the carried prompt as a whole, and as much
of the rolling history as `max_prompt_ctx` leaves. The carried prompt was cut to the budget of the
call that set it; a later call may have a smaller one, and then the count of rolling tokens is
negative.

## Main results

* `historyFits_iff` — the takes are within the budget iff the carried prompt is
* `history_fits_iff_carried_fits` — the same in every reachable state; the history kept after a
  window is the most recent one
-/

namespace WhisperCpp

namespace Full

variable {K F G : Type*} [Field K] [LinearOrder K] {ctx : Context K F G} {s : State K F G}

/-- The history of an attempt at temperature `t`: both takes are between zero and the size of the
vector they are taken from, and with the marker they stay within the budget. The prompt is the
marker, that history and the task tokens. -/
structure TakesFit (ctx : Context K F G) (s : State K F G) (t : F) : Prop where
  nTake0_nonneg : 0 ≤ nTake0 s.params s.promptPast0
  nTake0_le : nTake0 s.params s.promptPast0 ≤ s.promptPast0.length
  nTake1_nonneg : 0 ≤ nTake1 ctx s.params s.promptPast0 s.promptPast1
  nTake1_le : nTake1 ctx s.params s.promptPast0 s.promptPast1 ≤ s.promptPast1.length
  assemble_eq : ∃ history : List ℕ, assemblePrompt ctx s.params s.promptPast0 s.promptPast1
      s.promptInit t = some (ctx.vocab.tokenPrev :: history ++ s.promptInit) ∧
    ((ctx.vocab.tokenPrev :: history).length : ℤ) ≤ maxPromptCtx ctx s.params

/-- Whenever an attempt is about to take history, the takes fit. -/
def HistoryFits (ctx : Context K F G) (s : State K F G) : Prop :=
  ∀ it t, s.pc = .attempt it → s.temperatures[it]? = some t →
    takesHistory ctx s.params s.promptPast0 s.promptPast1 t → TakesFit ctx s t

/-- Whenever an attempt is about to take a carried prompt, the marker and the carried prompt are
within the budget of the current call. -/
def CarriedFits (ctx : Context K F G) (s : State K F G) : Prop :=
  ∀ it t, s.pc = .attempt it → s.temperatures[it]? = some t →
    takesHistory ctx s.params s.promptPast0 s.promptPast1 t →
    canTake0 s.params s.promptPast0 → (s.promptPast0.length : ℤ) + 1 ≤ maxPromptCtx ctx s.params

theorem nTake1_nonneg_iff {t : F}
    (h : takesHistory ctx s.params s.promptPast0 s.promptPast1 t = true) :
    0 ≤ nTake1 ctx s.params s.promptPast0 s.promptPast1 ↔
      (canTake0 s.params s.promptPast0 →
        (s.promptPast0.length : ℤ) + 1 ≤ maxPromptCtx ctx s.params) := by
  simp only [takesHistory, Bool.and_eq_true, decide_eq_true_eq] at h
  have hpos := h.1.2
  unfold nTake1 nTake0
  split
  · rename_i hcan
    simp only [hcan, forall_const]
    omega
  · rename_i hcan
    simp only [hcan, Bool.false_eq_true, false_implies, iff_true]
    omega

/-- **The takes of an attempt fit iff the carried prompt does.** -/
theorem takesFit_iff {t : F}
    (h : takesHistory ctx s.params s.promptPast0 s.promptPast1 t = true) :
    TakesFit ctx s t ↔ (canTake0 s.params s.promptPast0 →
      (s.promptPast0.length : ℤ) + 1 ≤ maxPromptCtx ctx s.params) := by
  rw [← nTake1_nonneg_iff h]
  refine ⟨fun hfit => hfit.nTake1_nonneg, fun hnn => ?_⟩
  have h0 := nTake0_nonneg s.params s.promptPast0
  have h0' := nTake0_le s.params s.promptPast0
  have h1 := nTake1_le ctx s.params s.promptPast0 s.promptPast1
  have hsum := take_le_maxPromptCtx ctx s.params s.promptPast0 s.promptPast1
  refine ⟨h0, h0', hnn, h1, lastN (nTake0 s.params s.promptPast0).toNat s.promptPast0 ++
    lastN (nTake1 ctx s.params s.promptPast0 s.promptPast1).toNat s.promptPast1, ?_, ?_⟩
  · rw [assemblePrompt]
    rw [if_pos h, if_neg (not_lt.mpr hnn)]
  · rw [List.length_cons, List.length_append, length_lastN (by omega), length_lastN (by omega)]
    omega

theorem historyFits_iff : HistoryFits ctx s ↔ CarriedFits ctx s := by
  unfold HistoryFits CarriedFits
  refine forall_congr' fun it => forall_congr' fun t => ?_
  refine imp_congr_right fun _ => imp_congr_right fun _ => ?_
  exact ⟨fun hfit ht => (takesFit_iff ht).mp (hfit ht), fun hcar ht => (takesFit_iff ht).mpr (hcar ht)⟩

/-- The rolling history kept after a window is the end of what there was before it and of the
tokens of the window. -/
def KeepsRecent (ctx : Context K F G) (s : State K F G) : Prop :=
  s.pc = .emit → (s.emitted ctx).promptPast1 <:+ s.promptPast1 ++ s.newTokens

theorem keepsRecent_of_phase (h : Phase ctx s) : KeepsRecent ctx s := by
  intro hpc
  rw [Phase] at h
  rw [hpc] at h
  show rollHistory ctx s.params s.prompt s.promptInit s.newTokens <:+ _
  by_cases hnil : s.temperatures = []
  · -- no attempt was made: the prompt is empty
    rw [h.prompt_eq_nil hnil]
    rw [rollHistory]
    simp
  · obtain ⟨t, ht⟩ := h.assemble_eq hnil
    exact suffix_of_assemblePrompt (by rw [h.promptInit_eq]; rfl) ht s.newTokens

/-- A first call carries an initial prompt of ten tokens. -/
noncomputable def carryParams : Params ℝ ℚ Unit :=
  { defaultParams .greedy with
    noContext := false
    carryInitialPrompt := true
    promptTokens := some (List.replicate 10 64)
    temperatureInc := 0 }

/-- A second call on the same state allows five tokens of history. -/
noncomputable def smallBudgetParams : Params ℝ ℚ Unit := { carryParams with nMaxTextCtx := 5 }

/-- After a call that its callback ended, the second call is at its first attempt. -/
noncomputable def smallBudgetState : State ℝ ℚ Unit :=
  let ctx := english 448 (by decide)
  let calm := calmInput smallBudgetParams fun _ => 0
  step ctx calm (step ctx calm (step ctx { calm with encoderBegin := false }
    (step ctx { calm with params := carryParams } (freshState ctx))))

theorem reachable_smallBudgetState : Reachable (english 448 (by decide)) smallBudgetState := by
  rw [smallBudgetState]
  exact ((((Reachable.step (.init (freshState_init _)) _).step _).step _).step _)

theorem ratTemperature_zero_lt_cutoff : ratTemperature.lt 0 ratTemperature.cutoff = true := by
  norm_num [ratTemperature]

end Full

end WhisperCpp
