import WhisperCpp.Full.Context

/-!
# The decoder prompt

Before every attempt the decoder is given a prompt: possibly the marker of previous text with some
history, then the tokens that determine the task. The history has a static part, the initial
prompt that is carried along (`prompt_past0`), and a rolling part (`prompt_past1`), and both
survive from call to call, while the budget `max_prompt_ctx` is that of the current call.

## Main definitions

* `preparePrompt` — what the initial prompt of a call does to the history
* `nTake0`, `nTake1`, `assemblePrompt` — the prompt of an attempt
* `rollHistory` — the rolling history after a window
-/

namespace WhisperCpp

namespace Full

variable {K F G : Type*} [Field K] [LinearOrder K]

section Definitions

variable (ctx : Context K F G) (p : Params K F G)

/-- `max_prompt_ctx`. -/
def maxPromptCtx : ℤ := min p.nMaxTextCtx (ctx.hparams.nTextCtx / 2 : ℕ)

/-- The last `n` elements of a vector, `[end - n, end)`. -/
def lastN (n : ℕ) (xs : List ℕ) : List ℕ := xs.drop (xs.length - n)

/-- The tokens of the initial prompt of the call: those given, else those of the given text. -/
def promptTokens : List ℕ :=
  (p.promptTokens.or (p.initialPrompt.map ctx.tokenize)).getD []

/-- The history at the start of a call, `prompt_past0` and `prompt_past1`. -/
def preparePrompt (past : List ℕ × List ℕ) : List ℕ × List ℕ :=
  let past := if p.noContext then ([], []) else past
  let tokens := promptTokens ctx p
  if tokens = [] then past
  else if p.carryInitialPrompt then
    if past.1 = [] then
      (lastN (min (tokens.length : ℤ) (max 1 (maxPromptCtx ctx p - 1))).toNat tokens, past.2)
    else past
  else (past.1, tokens ++ past.2)

/-- First release distilled models do not know timestamps. -/
def isDistil : Bool := ctx.hparams.nTextLayer = 2 && ctx.vocab.nVocab ≠ 51866

/-- `prompt_init`: the tokens that determine the task. -/
def promptInit : List ℕ :=
  ctx.vocab.tokenSot ::
    (if ctx.vocab.isMultilingual then
      [ctx.vocab.tokenLang (p.language.getD (-1)),
        if p.translate then ctx.vocab.tokenTranslate else ctx.vocab.tokenTranscribe]
    else if ctx.hparams.isBci then
      [ctx.vocab.tokenLang (p.language.getD (-1)), ctx.vocab.tokenTranscribe]
    else []) ++
    if p.noTimestamps then [ctx.vocab.tokenNot] else []

/-- `can_take0`. -/
def canTake0 (past0 : List ℕ) : Bool := p.carryInitialPrompt && !past0.isEmpty

/-- `n_take0`: the carried prompt is taken whole. -/
def nTake0 (past0 : List ℕ) : ℤ := if canTake0 p past0 then past0.length else 0

/-- `n_take1`: the rolling history fills what the marker and the carried prompt leave. -/
def nTake1 (past0 past1 : List ℕ) : ℤ :=
  min (maxPromptCtx ctx p - nTake0 p past0 - 1) past1.length

/-- Whether an attempt at temperature `t` is given some history. -/
def takesHistory (past0 past1 : List ℕ) (t : F) : Bool :=
  0 < p.nMaxTextCtx && ctx.temp.lt t ctx.temp.cutoff && 0 < maxPromptCtx ctx p &&
    (canTake0 p past0 || !past1.isEmpty)

/-- The prompt of an attempt. A negative `n_take1` is a range from behind the end of the vector to
its end: there is no prompt then. -/
def assemblePrompt (past0 past1 init : List ℕ) (t : F) : Option (List ℕ) :=
  if takesHistory ctx p past0 past1 t then
    if nTake1 ctx p past0 past1 < 0 then none
    else some (ctx.vocab.tokenPrev :: (lastN (nTake0 p past0).toNat past0 ++
      lastN (nTake1 ctx p past0 past1).toNat past1) ++ init)
  else some init

/-- The rolling history after a window: what the prompt held of it, unless the static part is
carried, and the new tokens. -/
def rollHistory (prompt init new : List ℕ) : List ℕ :=
  (if !p.carryInitialPrompt && prompt.head? = some ctx.vocab.tokenPrev then
    (prompt.take (prompt.length - init.length)).drop 1 else []) ++ new

end Definitions

/-! ### Small lemmas -/

theorem lastN_suffix (n : ℕ) (xs : List ℕ) : lastN n xs <:+ xs := List.drop_suffix _ _

theorem length_lastN {n : ℕ} {xs : List ℕ} (h : n ≤ xs.length) : (lastN n xs).length = n := by
  rw [lastN, List.length_drop]
  omega

theorem length_promptInit_le (ctx : Context K F G) (p : Params K F G) :
    (promptInit ctx p).length ≤ 4 := by
  rw [promptInit]
  split_ifs <;> simp

omit [Field K] [LinearOrder K] in
theorem nTake0_nonneg (p : Params K F G) (past0 : List ℕ) : 0 ≤ nTake0 p past0 := by
  rw [nTake0]
  split <;> omega

omit [Field K] [LinearOrder K] in
theorem nTake0_le (p : Params K F G) (past0 : List ℕ) : nTake0 p past0 ≤ past0.length := by
  rw [nTake0]
  split <;> omega

theorem nTake1_le (ctx : Context K F G) (p : Params K F G) (past0 past1 : List ℕ) :
    nTake1 ctx p past0 past1 ≤ past1.length := min_le_right _ _

/-- With the marker, the history never exceeds the budget. -/
theorem take_le_maxPromptCtx (ctx : Context K F G) (p : Params K F G) (past0 past1 : List ℕ) :
    1 + nTake0 p past0 + nTake1 ctx p past0 past1 ≤ maxPromptCtx ctx p := by
  have := min_le_left (maxPromptCtx ctx p - nTake0 p past0 - 1) (past1.length : ℤ)
  rw [nTake1]
  omega

theorem maxPromptCtx_le (ctx : Context K F G) (p : Params K F G) :
    maxPromptCtx ctx p ≤ (ctx.hparams.nTextCtx / 2 : ℕ) := min_le_right _ _

/-- The prompt of an attempt: the task tokens, or the marker, some history within the budget and
the task tokens. -/
theorem assemblePrompt_cases {ctx : Context K F G} {p : Params K F G} {past0 past1 init : List ℕ}
    {t : F} {prompt : List ℕ} (h : assemblePrompt ctx p past0 past1 init t = some prompt) :
    prompt = init ∨ 0 ≤ nTake1 ctx p past0 past1 ∧
      prompt = ctx.vocab.tokenPrev :: (lastN (nTake0 p past0).toNat past0 ++
        lastN (nTake1 ctx p past0 past1).toNat past1) ++ init := by
  rw [assemblePrompt] at h
  split at h
  · split at h
    · cases h
    · exact .inr ⟨by omega, (Option.some.inj h).symm⟩
  · exact .inl (Option.some.inj h).symm

theorem length_assemblePrompt_le {ctx : Context K F G} {p : Params K F G}
    {past0 past1 init : List ℕ} {t : F} {prompt : List ℕ}
    (h : assemblePrompt ctx p past0 past1 init t = some prompt) :
    prompt.length ≤ ctx.hparams.nTextCtx / 2 + init.length := by
  rcases assemblePrompt_cases h with rfl | ⟨hn, rfl⟩
  · omega
  · have h0 := nTake0_le p past0
    have h1 := nTake1_le ctx p past0 past1
    have hsum := take_le_maxPromptCtx ctx p past0 past1
    have hmax := maxPromptCtx_le ctx p
    have hnn := nTake0_nonneg p past0
    simp only [List.length_append, List.length_cons]
    rw [length_lastN (by omega), length_lastN (by omega)]
    omega

/-- **The rolling history keeps the most recent tokens.** -/
theorem suffix_of_assemblePrompt {ctx : Context K F G} {p : Params K F G}
    {past0 past1 init : List ℕ} {t : F} {prompt : List ℕ}
    (hinit : init.head? = some ctx.vocab.tokenSot)
    (h : assemblePrompt ctx p past0 past1 init t = some prompt) (new : List ℕ) :
    rollHistory ctx p prompt init new <:+ past1 ++ new := by
  rw [rollHistory]
  split_ifs with hcond
  · simp only [Bool.and_eq_true, Bool.not_eq_true', decide_eq_true_eq] at hcond
    rcases assemblePrompt_cases h with rfl | ⟨hn, rfl⟩
    · rw [hinit, Option.some.injEq] at hcond
      exact absurd hcond.2 ctx.vocab.tokenSot_ne_tokenPrev
    · have h0 : nTake0 p past0 = 0 := by
        unfold nTake0 canTake0
        simp [hcond.1]
      rw [h0, Int.toNat_zero]
      have hnil : lastN 0 past0 = [] := by simp [lastN]
      rw [hnil, List.nil_append, List.length_append, Nat.add_sub_cancel, List.take_left']
      · obtain ⟨l, hl⟩ := lastN_suffix (nTake1 ctx p past0 past1).toNat past1
        exact ⟨l, by rw [List.drop_one, List.tail_cons, ← List.append_assoc, hl]⟩
      · rfl
  · exact List.suffix_append past1 new

end Full

end WhisperCpp
