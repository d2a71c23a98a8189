import Mathlib.Analysis.SpecialFunctions.Pow.Real
import WhisperCpp.Full.Driver
import WhisperCpp.Library.Literals

/-!
# An English-only model in real arithmetic

An instance of everything the driver leaves open: the layout of the English-only vocabulary, logits
in `ℝ`, temperatures in `ℚ`, no grammar, and the default parameters of the source. Concrete runs
are about this instance.

## Main definitions

* `english` — a context with the English-only vocabulary
* `defaultParams` — `whisper_full_default_params`
* `freshState`, `calmInput` — where runs start, and an environment in which nothing goes wrong
-/

namespace WhisperCpp

namespace Full

attribute [local instance] Literals.atLeastTwo_five

/-- The English-only vocabulary, as far as the driver looks at texts. -/
def englishVocab : Vocab where
  nVocab := 51864
  tokenToId := [("a", 64), (" ", 220)]
  idToToken id := if id = 220 then " " else if id < 50256 then "a" else "[_special_]"
  le_nVocab := by decide
  nVocab_le := by decide
  blank_mem := by decide
  lt_of_filtered e he _ := by
    simp only [List.mem_cons, List.not_mem_nil, or_false] at he
    rcases he with rfl | rfl <;> decide

/-- The numeric functions of the reals. -/
noncomputable def realArith : Arith ℝ := ⟨Real.exp, Real.log, fun x y => x ^ y, Real.exp_pos⟩

/-- Exact temperatures. -/
noncomputable def ratTemperature : Temperature ℚ ℝ where
  lt a b := a < b
  add a b := a + b
  zero := 0
  one := 1 + 1 / 10 ^ 6
  eps := 1 / 10 ^ 6
  cutoff := 1 / 2
  div x t := x / t

theorem smallTextCtx_le : 448 ≤ 2147483647 := by decide

/-- A context with the English-only vocabulary and a text context of `nTextCtx`. -/
noncomputable def english (nTextCtx : ℕ) (h : nTextCtx ≤ 2147483647) : Context ℝ ℚ Unit where
  vocab := englishVocab
  hparams := ⟨1500, nTextCtx, 4, false, h⟩
  nLoaded := 167
  dtwTokenTimestamps := false
  kvPad := 1
  kvPad_pos := Nat.one_pos
  tokenize _ := []
  arith := realArith
  temp := ratTemperature
  grammar := ⟨fun _ _ => false, fun g _ => some g⟩

/-- `whisper_full_default_params`. The language is English. -/
noncomputable def defaultParams (strategy : Strategy) : Params ℝ ℚ Unit where
  strategy := strategy
  nMaxTextCtx := 16384
  offsetMs := 0
  durationMs := 0
  translate := false
  noContext := true
  noTimestamps := false
  singleSegment := false
  printSpecial := false
  maxTokens := 0
  audioCtx := 0
  tdrzEnable := false
  suppressRegex := none
  initialPrompt := none
  carryInitialPrompt := false
  promptTokens := none
  language := some 0
  detectLanguage := false
  suppressBlank := true
  suppressNst := false
  temperature := 0
  maxInitialTs := 1
  lengthPenalty := -1
  temperatureInc := 1 / 5
  entropyThold := 12 / 5
  logprobThold := -1
  noSpeechThold := 3 / 5
  bestOf := match strategy with
    | .greedy => 5
    | .beamSearch => -1
  beamSize := match strategy with
    | .greedy => -1
    | .beamSearch => 5
  logitsFilter := false
  grammarRules := none
  nGrammarRules := 0
  grammarPenalty := 100

/-- A decoder that was never used. -/
noncomputable def freshDecoder : Decoder ℝ Unit where
  sequence := ⟨[], 0, 0, ⊥, ⊥, 0, ⊥⟩
  grammar := none
  iBatch := 0
  seekDelta := 0
  failed := false
  completed := false
  hasTs := false
  scores := ⟨fun _ => ⊥, fun _ => ⊥, fun _ => 0⟩
  window := 0

/-- A fresh state, with zero for what the source leaves uninitialised. -/
noncomputable def freshState (ctx : Context ℝ ℚ Unit) : State ℝ ℚ Unit where
  pc := .returned 0
  params := defaultParams .greedy
  kvSelf := KvCache.init ⟨0, 0, 0, fun _ => Cell.free⟩ (KvCache.ggmlPad ctx.hparams.nTextCtx 256)
  kvSelfNDec := 1
  decoders _ := freshDecoder
  promptPast0 := []
  promptPast1 := []
  noSpeechProb := 0
  langId := 0
  expNAudioCtx := 0
  melLenOrg := 0
  resultAll := []
  logits _ := 0
  logitsSize := 0
  batch := []
  seekStart := 0
  seekEnd := 0
  seek := 0
  temperatures := []
  promptInit := []
  prompt := []
  tCur := 0
  nDecodersCur := 1
  bestDecoderId := 0
  seekDelta := 0
  windows := 0

theorem freshState_init (ctx : Context ℝ ℚ Unit) : Init ctx (freshState ctx) where
  pc_eq := rfl
  kvSelf_eq := ⟨_, rfl⟩
  kvSelfNDec_eq := rfl
  past0_eq := rfl
  past1_eq := rfl
  resultAll_eq := rfl
  tokens_eq _ := rfl
  window_eq _ := rfl
  windows_eq := rfl

/-- An environment in which everything succeeds: 30 s of audio, and the given logits for every
token. -/
noncomputable def calmInput (params : Params ℝ ℚ Unit) (logits : ℕ → ℝ) : Input ℝ ℚ Unit where
  params := params
  nSamples := 480000
  melOk := true
  melLenOrg := 3000
  encoderBegin := true
  encodeOk := true
  kvInitOk := true
  graphOk := true
  logits _ := logits
  filter _ logits := logits
  draw _ _ := 0
  tie k := k

end Full

end WhisperCpp
