import Mathlib.Algebra.Order.Field.Basic
import Mathlib.Algebra.Order.Floor.Defs
import Mathlib.Data.List.Basic
import WhisperCpp.KvCache.Cache

/-!
# What `whisper_full_with_state` works on

The context (vocabulary, hyper-parameters, numeric operations), the parameters of a call, and the
state that survives from call to call.

Three types are left open. `K` is the type of logits and probabilities: an ordered field, so that
sums and quotients are exact and `-INFINITY` is the bottom of `WithBot K`. `F` is the type of
temperatures, with the operations of the schedule and nothing else: no law is assumed, so that
rounding, absorption and `NaN` are included. `G` is the type of grammar states, with what the
driver asks of them.

## Main definitions

* `Vocab` — the layout of the special tokens
* `Context` — `whisper_context`, with the numeric operations
* `Params` — `whisper_full_params`
* `Decoder`, `Segment` — `whisper_decoder`, `whisper_segment`
-/

namespace WhisperCpp

namespace Full

/-! ### The vocabulary -/

/-- The texts that the non-speech filter looks up, each also with a leading space. -/
def nonSpeechTokens : List String :=
  ["\"", "#", "(", ")", "*", "+", "/", ":", ";", "<", "=", ">", "@", "[", "\\", "]", "^",
    "_", "`", "\x7b", "|", "\x7d", "~", "「", "」", "『", "』", "<<", ">>", "<<<", ">>>", "--",
    "---", "-(", "-[", "('", "(\"", "((", "))", "(((", ")))", "[[", "]]", "\x7b\x7b", "\x7d\x7d",
    "♪♪", "♪♪♪", "♩", "♪", "♫", "♬", "♭", "♮", "♯"]

/-- The texts that the logit filters look up: the blank and the non-speech tokens. -/
def filteredTexts : List String :=
  " " :: " -" :: " '" :: nonSpeechTokens ++ nonSpeechTokens.map (" " ++ ·)

/-- `whisper_vocab`. The ids of the special tokens follow from the number of tokens; the sizes are
those of the English-only, the multilingual and the large-v3 vocabulary. -/
structure Vocab where
  nVocab : ℕ
  /-- The entries of `token_to_id`. -/
  tokenToId : List (String × ℕ)
  idToToken : ℕ → String
  le_nVocab : 51864 ≤ nVocab
  nVocab_le : nVocab ≤ 51866
  /-- There is a blank token. -/
  blank_mem : (tokenToId.lookup " ").isSome
  /-- The texts that the filters look up are those of text tokens. -/
  lt_of_filtered : ∀ e ∈ tokenToId, e.1 ∈ filteredTexts → e.2 < 50256

/-- The number of entries of `g_lang`. -/
def nLang : ℕ := 100

namespace Vocab

/-- `is_multilingual`. -/
def isMultilingual (v : Vocab) : Bool := 51865 ≤ v.nVocab

/-- `num_languages`. -/
def numLanguages (v : Vocab) : ℕ := v.nVocab - 51765 - if v.isMultilingual then 1 else 0

/-- The shift of the task tokens by the languages of a multilingual model. -/
def dt (v : Vocab) : ℕ := if v.isMultilingual then v.numLanguages - 98 else 0

def tokenEot (v : Vocab) : ℕ := 50256 + if v.isMultilingual then 1 else 0
def tokenSot (v : Vocab) : ℕ := 50257 + if v.isMultilingual then 1 else 0
def tokenTranslate (v : Vocab) : ℕ := 50357 + v.dt
def tokenTranscribe (v : Vocab) : ℕ := 50358 + v.dt
def tokenSolm (v : Vocab) : ℕ := 50359 + v.dt
def tokenPrev (v : Vocab) : ℕ := 50360 + v.dt
def tokenNosp (v : Vocab) : ℕ := 50361 + v.dt
def tokenNot (v : Vocab) : ℕ := 50362 + v.dt
def tokenBeg (v : Vocab) : ℕ := 50363 + v.dt

/-- `whisper_token_lang`. The id of an unknown language is `-1`. -/
def tokenLang (v : Vocab) (langId : ℤ) : ℕ := (v.tokenSot + 1 + langId).toNat

/-- `token_to_id.find`. -/
def find (v : Vocab) (text : String) : Option ℕ := v.tokenToId.lookup text

/-- The timestamps are the last 1501 tokens. -/
theorem tokenBeg_add (v : Vocab) : v.tokenBeg + 1501 = v.nVocab := by
  have := v.le_nVocab
  simp only [tokenBeg, dt, numLanguages, isMultilingual, decide_eq_true_eq]
  split <;> omega

theorem tokenEot_lt_tokenSot (v : Vocab) : v.tokenEot < v.tokenSot := by
  simp only [tokenEot, tokenSot]
  omega

theorem tokenSot_lt_tokenBeg (v : Vocab) : v.tokenSot < v.tokenBeg := by
  simp only [tokenSot, tokenBeg, isMultilingual, decide_eq_true_eq]
  split <;> omega

theorem tokenEot_lt_tokenBeg (v : Vocab) : v.tokenEot < v.tokenBeg :=
  v.tokenEot_lt_tokenSot.trans v.tokenSot_lt_tokenBeg

theorem tokenBeg_lt_nVocab (v : Vocab) : v.tokenBeg < v.nVocab := by
  have := v.tokenBeg_add
  omega

theorem tokenSot_ne_tokenPrev (v : Vocab) : v.tokenSot ≠ v.tokenPrev := by
  simp only [tokenSot, tokenPrev]
  split <;> omega

/-- The tokens between the end of text and the timestamps are the special ones. -/
theorem special_of_lt (v : Vocab) {id : ℕ} (h1 : v.tokenEot < id) (h2 : id < v.tokenBeg) :
    id = v.tokenSot ∨ id = v.tokenTranslate ∨ id = v.tokenTranscribe ∨ id = v.tokenSolm ∨
      id = v.tokenPrev ∨ id = v.tokenNosp ∨ id = v.tokenNot ∨
      ∃ l < nLang, id = v.tokenLang l := by
  have hle := v.le_nVocab
  have hle' := v.nVocab_le
  by_cases hlang : ∃ l < nLang, id = v.tokenLang l
  · simp [hlang]
  have hlang' : ¬ (v.tokenSot < id ∧ id ≤ v.tokenSot + nLang) := by
    rintro ⟨h3, h4⟩
    exact hlang ⟨id - v.tokenSot - 1, by omega, by simp only [tokenLang]; omega⟩
  simp only [tokenEot, tokenSot, tokenTranslate, tokenTranscribe, tokenSolm, tokenPrev, tokenNosp,
    tokenNot, tokenBeg, dt, numLanguages, isMultilingual, nLang] at *
  by_cases hm : 51865 ≤ v.nVocab
  · simp only [hm, decide_true, if_true] at *
    omega
  · simp only [hm, decide_false, if_false, Bool.false_eq_true] at *
    omega

theorem lt_tokenEot_of_find (v : Vocab) {text : String} {id : ℕ} (h : v.find text = some id)
    (htext : text ∈ filteredTexts) : id < v.tokenEot := by
  obtain ⟨l₁, l₂, heq, -⟩ := List.lookup_eq_some_iff.mp h
  have hmem : (text, id) ∈ v.tokenToId := by rw [heq]; simp
  have := v.lt_of_filtered _ hmem htext
  simp only [tokenEot]
  omega

end Vocab

/-! ### The context -/

/-- `whisper_hparams`, as far as the driver reads them. -/
structure Hparams where
  nAudioCtx : ℕ
  nTextCtx : ℕ
  nTextLayer : ℕ
  isBci : Bool
  /-- The sizes are 32-bit integers. -/
  nTextCtx_le : nTextCtx ≤ 2147483647

/-- The numeric functions of the computations on logits, in exact arithmetic. -/
structure Arith (K : Type*) [Field K] [LinearOrder K] where
  exp : K → K
  log : K → K
  pow : K → K → K
  exp_pos : ∀ x, 0 < exp x

/-- The operations on temperatures, with no law assumed. -/
structure Temperature (F K : Type*) where
  lt : F → F → Bool
  add : F → F → F
  zero : F
  /-- `1.0f + 1e-6f`, the end of the schedule. -/
  one : F
  /-- `1e-6f`, below which sampling is deterministic. -/
  eps : F
  /-- `WHISPER_HISTORY_CONDITIONING_TEMP_CUTOFF`. -/
  cutoff : F
  /-- Division of a logit by a temperature. -/
  div : K → F → K

/-- What the driver asks of a grammar: the tokens it rejects, and its state after a token. No state
is the crash of a broken rule set. -/
structure GrammarOps (G : Type*) where
  rejects : G → ℕ → Bool
  acceptToken : G → ℕ → Option G

/-- `whisper_context`. -/
structure Context (K F G : Type*) [Field K] [LinearOrder K] where
  vocab : Vocab
  hparams : Hparams
  /-- How many tensors were loaded: none in a test without a model. -/
  nLoaded : ℕ
  dtwTokenTimestamps : Bool
  /-- `whisper_kv_cache_get_padding`. -/
  kvPad : ℕ
  kvPad_pos : 0 < kvPad
  tokenize : String → List ℕ
  arith : Arith K
  temp : Temperature F K
  grammar : GrammarOps G

/-- `whisper_sampling_strategy`. -/
inductive Strategy where
  | greedy
  | beamSearch
  deriving DecidableEq, Repr

/-- `whisper_full_params`, as far as the driver reads them. -/
structure Params (K F G : Type*) where
  strategy : Strategy
  nMaxTextCtx : ℤ
  offsetMs : ℤ
  durationMs : ℤ
  translate : Bool
  noContext : Bool
  noTimestamps : Bool
  singleSegment : Bool
  printSpecial : Bool
  maxTokens : ℤ
  audioCtx : ℤ
  tdrzEnable : Bool
  /-- The texts that match `suppress_regex`. -/
  suppressRegex : Option (String → Bool)
  initialPrompt : Option String
  carryInitialPrompt : Bool
  promptTokens : Option (List ℕ)
  /-- The id of the language, `-1` for an unknown one; none if it is to be detected. -/
  language : Option ℤ
  detectLanguage : Bool
  suppressBlank : Bool
  suppressNst : Bool
  temperature : F
  maxInitialTs : K
  lengthPenalty : K
  temperatureInc : F
  entropyThold : K
  logprobThold : K
  noSpeechThold : K
  bestOf : ℤ
  beamSize : ℤ
  /-- Whether `logits_filter_callback` is set. -/
  logitsFilter : Bool
  /-- The initial grammar state, if `grammar_rules` is set. -/
  grammarRules : Option G
  nGrammarRules : ℕ
  grammarPenalty : K

/-! ### Decoders and segments -/

/-- `whisper_token_data`, without the fields of the token-level timestamp pass. -/
structure TokenData (K : Type*) where
  id : ℕ
  /-- The timestamp token the model thinks of at this token. -/
  tid : ℕ
  p : K
  plog : WithBot K
  pt : K
  ptsum : K

/-- `whisper_sequence`. -/
structure Sequence (K : Type*) where
  tokens : List (TokenData K)
  resultLen : ℕ
  sumLogprobsAll : WithBot K
  sumLogprobs : WithBot K
  avgLogprobs : WithBot K
  entropy : K
  score : WithBot K

/-- The three arrays over the vocabulary that a decoder keeps. -/
structure Scores (K : Type*) where
  logits : ℕ → WithBot K
  logprobs : ℕ → WithBot K
  probs : ℕ → K

/-- `whisper_decoder`. The state of its random number generator is in the inputs. -/
structure Decoder (K G : Type*) where
  sequence : Sequence K
  grammar : Option G
  iBatch : ℕ
  /-- The window shift found so far from the decoded timestamps. -/
  seekDelta : ℤ
  failed : Bool
  completed : Bool
  hasTs : Bool
  scores : Scores K
  /-- The window in which the decoder was last reset; not in the source. -/
  window : ℕ

/-- Whether the decoder still takes part in the current attempt. -/
def Decoder.active {K G : Type*} (d : Decoder K G) : Bool := !d.completed && !d.failed

/-- The ids of a list of tokens. -/
def ids {K : Type*} (tokens : List (TokenData K)) : List ℕ := tokens.map TokenData.id

/-- `whisper_segment`. -/
structure Segment (K : Type*) where
  t0 : ℤ
  t1 : ℤ
  text : String
  noSpeechProb : K
  tokens : List (TokenData K)
  speakerTurnNext : Bool

/-- `WHISPER_MAX_DECODERS`. -/
def maxDecoders : ℕ := 8

/-- `100*WHISPER_CHUNK_SIZE`: the length of a window. -/
def chunk : ℤ := 3000

/-- `delta_min`: what remains of the audio is not processed below this length. -/
def deltaMin : ℤ := 10

end Full

end WhisperCpp
