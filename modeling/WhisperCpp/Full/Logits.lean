import Mathlib.Algebra.Order.BigOperators.Group.List
import Mathlib.Algebra.Order.Floor.Ring
import WhisperCpp.Full.Context

/-!
# Logits and sampling

`whisper_process_logits` turns the logits of the network into the distribution a decoder samples
from: rules that suppress tokens, then the rule that forces a timestamp when the timestamps
together are more probable than any text token. `whisper_sample_token` and
`whisper_sample_token_topk` draw from that distribution.

A rule that sets logits to `-INFINITY` is the set of tokens it suppresses. The rules before the
user's filter callback and those after it are kept apart, since the callback may undo the former.

## Main definitions

* `earlyOff`, `lateOff` — the tokens suppressed before and after the filter callback
* `processLogits` — `whisper_process_logits`
* `sampleToken`, `sampleTokenTopk` — the two ways to sample

## Main results

* `processLogits_ne_bot` — a token that is left is suppressed by no rule
* `processLogits_probs_pos_iff` — the tokens left are those of positive probability
* `sampleToken_id`, `sampleTokenTopk_id` — a sampled token is one that is left, if there is one
-/

namespace WhisperCpp

namespace Full

variable {K F G : Type*} [Field K] [LinearOrder K]

/-! ### The suppression rules -/

section Rules

variable (v : Vocab) (p : Params K F G) (d : Decoder K G) (i : ℕ)

/-- `suppress_blank`, at the first token. -/
def blankOff : Bool :=
  p.suppressBlank && d.sequence.tokens.isEmpty && (i == v.tokenEot || v.find " " == some i)

/-- The timestamps, when they are not wanted. -/
def timestampsOff : Bool := p.noTimestamps && v.tokenBeg ≤ i

/-- The text, when `max_tokens` are reached: the segment is to be closed by a timestamp. -/
def textOff : Bool :=
  !p.noTimestamps && !p.singleSegment && 0 < p.maxTokens &&
    p.maxTokens ≤ d.sequence.tokens.length && i < v.tokenEot

/-- The special tokens that are no output. -/
def specialOff : Bool :=
  i == v.tokenNot || i == v.tokenSot || i == v.tokenNosp || (!p.tdrzEnable && i == v.tokenSolm) ||
    i == v.tokenTranslate || i == v.tokenTranscribe || i == v.tokenPrev ||
    (List.range nLang).any fun l => i == v.tokenLang l

/-- What is suppressed before `logits_filter_callback` runs. -/
def earlyOff : Bool := blankOff v p d i || timestampsOff v p i || textOff v p d i || specialOff v p i

/-- `suppress_regex`. -/
def regexOff : Bool :=
  p.suppressRegex.any fun re => v.tokenToId.any fun e => e.2 == i && re e.1

/-- `suppress_nst`. -/
def nstOff : Bool :=
  p.suppressNst &&
    ((nonSpeechTokens.any fun t => v.find t == some i || v.find (" " ++ t) == some i) ||
      v.find " -" == some i || v.find " '" == some i)

/-- `last_was_timestamp`. -/
def lastWasTimestamp : Bool := d.sequence.tokens.getLast?.any fun t => v.tokenBeg ≤ t.id

/-- `penultimate_was_timestamp`, which also holds when there is no penultimate token. -/
def penultimateWasTimestamp : Bool :=
  d.sequence.tokens.dropLast.getLast?.all fun t => v.tokenBeg ≤ t.id

/-- Timestamps appear in pairs, except before the end of text. -/
def pairOff : Bool :=
  lastWasTimestamp v d &&
    if penultimateWasTimestamp v d then v.tokenBeg ≤ i else i < v.tokenEot

/-- The initial timestamp is at most `max_initial_ts`, in units of the encoder's precision. -/
def initialOff [FloorRing K] (nAudioCtx : ℕ) : Bool :=
  d.sequence.tokens.isEmpty && 0 < p.maxInitialTs &&
    v.tokenBeg + ⌊p.maxInitialTs / (30 / nAudioCtx) + 1 / 2⌋ + 1 ≤ (i : ℤ)

/-- Timestamps do not go back behind the window shift found so far. -/
def backOff : Bool :=
  d.hasTs && v.tokenBeg ≤ i && (i : ℤ) < v.tokenBeg + d.seekDelta / 2

/-- What is suppressed after `logits_filter_callback` has run. -/
def lateOff [FloorRing K] (nAudioCtx : ℕ) : Bool :=
  regexOff v p i || nstOff v p i || pairOff v d i || initialOff v p d i nAudioCtx || backOff v d i

end Rules

/-- Set the logits of a set of tokens to `-INFINITY`. -/
def suppress (off : ℕ → Bool) (logits : ℕ → WithBot K) : ℕ → WithBot K :=
  fun i => if off i then ⊥ else logits i

/-! ### Log-probabilities -/

/-- `std::max_element` over the tokens from `lo` to `hi`. -/
def maxOver (lo hi : ℕ) (f : ℕ → WithBot K) : WithBot K :=
  (List.range' lo (hi - lo)).foldl (fun m i => max m (f i)) ⊥

/-- The sum of the exponentials of the finite entries, relative to `m`. -/
def sumExp (A : Arith K) (lo hi : ℕ) (f : ℕ → WithBot K) (m : K) : K :=
  ((List.range' lo (hi - lo)).map fun i => (f i).recBotCoe 0 fun x => A.exp (x - m)).sum

/-- `whisper_compute_logprobs`. The maximum is taken over the whole vector it is given, which has
`size` entries; the other two loops run over `n` of them. -/
def computeLogprobs (A : Arith K) (size n : ℕ) (logits : ℕ → WithBot K) : ℕ → WithBot K :=
  let logitMax := (maxOver 0 size logits).unbotD 0
  let logsumexp := A.log (sumExp A 0 n logits logitMax) + logitMax
  fun i => (logits i).map (· - logsumexp)

/-- `whisper_compute_probs`. -/
def computeProbs (A : Arith K) (logits logprobs : ℕ → WithBot K) : ℕ → K :=
  fun i => (logits i).recBotCoe 0 fun _ => A.exp ((logprobs i).unbotD 0)

/-- `timestamp_logprob`: the logarithm of the probability of all timestamps together. -/
def timestampLogprob (A : Arith K) (v : Vocab) (logprobs : ℕ → WithBot K) : WithBot K :=
  let logprobMax := (maxOver v.tokenBeg v.nVocab logprobs).unbotD 0
  let logsumexp := sumExp A v.tokenBeg v.nVocab logprobs logprobMax
  if 0 < logsumexp then ↑(A.log logsumexp + logprobMax) else ⊥

/-- `whisper_suppress_invalid_grammar`: a penalty on every rejected token. -/
def suppressInvalidGrammar (ctx : Context K F G) (p : Params K F G) (grammar : Option G)
    (logits : ℕ → WithBot K) : ℕ → WithBot K :=
  fun i =>
    if grammar.any fun g => ctx.grammar.rejects g i then (logits i).map (· - p.grammarPenalty)
    else logits i

/-- The logits that the rules leave, from one row of the output of the network. -/
def filterLogits [FloorRing K] (ctx : Context K F G) (p : Params K F G) (d : Decoder K G) (temperature : F)
    (row : ℕ → K) (callback : (ℕ → WithBot K) → ℕ → WithBot K) : ℕ → WithBot K :=
  let logits : ℕ → WithBot K := fun i =>
    ↑(if ctx.temp.lt ctx.temp.zero temperature then ctx.temp.div (row i) temperature else row i)
  let logits := suppress (earlyOff ctx.vocab p d) logits
  let logits := if p.logitsFilter then callback logits else logits
  suppress (fun i => lateOff ctx.vocab p d i ctx.hparams.nAudioCtx) logits

/-- The last rule of `whisper_process_logits`: if the timestamps are more probable than any text
token, no text token is left; otherwise the grammar has its say. -/
def forceTimestamps (ctx : Context K F G) (p : Params K F G) (grammar : Option G)
    (logits logprobs : ℕ → WithBot K) : (ℕ → WithBot K) × (ℕ → WithBot K) :=
  if maxOver 0 ctx.vocab.tokenBeg logprobs < timestampLogprob ctx.arith ctx.vocab logprobs then
    (suppress (· < ctx.vocab.tokenBeg) logits, suppress (· < ctx.vocab.tokenBeg) logprobs)
  else if 0 < p.nGrammarRules then
    (suppressInvalidGrammar ctx p grammar logits,
      computeLogprobs ctx.arith ctx.vocab.nVocab ctx.vocab.nVocab
        (suppressInvalidGrammar ctx p grammar logits))
  else (logits, logprobs)

/-- `whisper_process_logits`. -/
def processLogits [FloorRing K] (ctx : Context K F G) (p : Params K F G) (d : Decoder K G)
    (temperature : F) (row : ℕ → K) (callback : (ℕ → WithBot K) → ℕ → WithBot K) : Scores K :=
  let logits := filterLogits ctx p d temperature row callback
  let logprobs := computeLogprobs ctx.arith ctx.vocab.nVocab ctx.vocab.nVocab logits
  let left := forceTimestamps ctx p d.grammar logits logprobs
  ⟨left.1, left.2, computeProbs ctx.arith left.1 left.2⟩

/-! ### Sampling -/

/-- The loop that looks for the largest probability above zero; `id` is the answer where there is
none. -/
def argmaxPos (probs : ℕ → K) (js : List ℕ) (id : ℕ) : ℕ × K :=
  js.foldl (fun b i => if b.2 < probs i then (i, probs i) else b) (id, 0)

/-- The timestamp part of both sampling functions: `tid`, `pt` and `ptsum`. The initial `tid` is
`0` in one and the first timestamp in the other. -/
def timestampStats (v : Vocab) (probs : ℕ → K) (tid : ℕ) : ℕ × K × K :=
  let js := List.range' v.tokenBeg (v.nVocab - v.tokenBeg)
  let best := argmaxPos probs js tid
  let sumTs := (js.map probs).sum
  (best.1, best.2 / (sumTs + 1 / 10 ^ 10), sumTs)

/-- `std::discrete_distribution`: some index of positive weight, the random number `r` says which.
Without one, the first. -/
def draw (probs : ℕ → K) (n r : ℕ) : ℕ :=
  let support := (List.range n).filter fun i => 0 < probs i
  support.getD (r % support.length) 0

/-- A timestamp token is its own timestamp. -/
def TokenData.ownTimestamp (v : Vocab) (t : TokenData K) : TokenData K :=
  if v.tokenBeg ≤ t.id then { t with tid := t.id, pt := t.p } else t

/-- `whisper_sample_token`. -/
def sampleToken (v : Vocab) (s : Scores K) (best : Bool) (r : ℕ) : TokenData K :=
  let (tid, pt, ptsum) := timestampStats v s.probs 0
  if best then
    let (id, prob) := argmaxPos s.probs (List.range v.nVocab) 0
    TokenData.ownTimestamp v ⟨id, tid, prob, if 0 < prob then s.logprobs id else 0, pt, ptsum⟩
  else
    let id := draw s.probs v.nVocab r
    TokenData.ownTimestamp v ⟨id, tid, s.probs id, s.logprobs id, pt, ptsum⟩

/-- `whisper_sample_token_topk`. The sorted array `logits_id` it also prepares is not read. -/
def sampleTokenTopk (v : Vocab) (s : Scores K) (k : ℕ) (r : ℕ → ℕ) : List (TokenData K) :=
  let (tid, pt, ptsum) := timestampStats v s.probs v.tokenBeg
  (List.range k).map fun i =>
    let id := draw s.probs v.nVocab (r i)
    TokenData.ownTimestamp v ⟨id, tid, s.probs id, s.logprobs id, pt, ptsum⟩

/-- `whisper_sequence_score`. -/
def Sequence.scored (A : Arith K) (p : Params K F G) (s : Sequence K) : Sequence K :=
  if s.resultLen = 0 then s
  else
    let n : K := s.resultLen
    let result : WithBot K := ((s.tokens.take s.resultLen).map TokenData.plog).sum
    let penalty := if 0 < p.lengthPenalty then A.pow ((5 + n) / 6) p.lengthPenalty else n
    let last := (ids (s.tokens.take s.resultLen)).drop (s.resultLen - 32)
    let entropy := last.dedup.foldl (fun e id =>
      let q : K := last.count id / last.length
      e - q * A.log q) 0
    { s with
      sumLogprobs := result
      avgLogprobs := result.map (· / n)
      score := result.map (· / penalty)
      entropy := entropy }

/-! ### What the rules leave -/

omit [Field K] [LinearOrder K] in
@[simp] theorem suppress_eq_bot {off : ℕ → Bool} {logits : ℕ → WithBot K} {i : ℕ} :
    suppress off logits i = ⊥ ↔ off i = true ∨ logits i = ⊥ := by
  rw [suppress]
  split <;> simp_all

theorem computeLogprobs_eq_bot {A : Arith K} {size n : ℕ} {logits : ℕ → WithBot K} {i : ℕ} :
    computeLogprobs A size n logits i = ⊥ ↔ logits i = ⊥ := by
  simp [computeLogprobs]

theorem computeProbs_pos_iff {A : Arith K} {logits logprobs : ℕ → WithBot K} {i : ℕ} :
    0 < computeProbs A logits logprobs i ↔ logits i ≠ ⊥ := by
  rw [computeProbs]
  cases logits i with
  | bot => simp
  | coe x => simpa using A.exp_pos _

theorem suppressInvalidGrammar_eq_bot {ctx : Context K F G} {p : Params K F G} {g : Option G}
    {logits : ℕ → WithBot K} {i : ℕ} :
    suppressInvalidGrammar ctx p g logits i = ⊥ ↔ logits i = ⊥ := by
  rw [suppressInvalidGrammar]
  split
  · simp
  · rfl

/-- A timestamp is forced only if one is left. -/
theorem exists_of_timestampLogprob {A : Arith K} {v : Vocab} {logprobs : ℕ → WithBot K}
    (h : timestampLogprob A v logprobs ≠ ⊥) :
    ∃ i, v.tokenBeg ≤ i ∧ i < v.nVocab ∧ logprobs i ≠ ⊥ := by
  by_contra hnone
  push Not at hnone
  refine h ?_
  rw [timestampLogprob]
  rw [if_neg]
  have hzero : sumExp A v.tokenBeg v.nVocab logprobs
      ((maxOver v.tokenBeg v.nVocab logprobs).unbotD 0) = 0 := by
    rw [sumExp]
    refine List.sum_eq_zero fun x hx => ?_
    obtain ⟨i, hi, rfl⟩ := List.mem_map.mp hx
    obtain ⟨h1, h2⟩ := List.mem_range'_1.mp hi
    rw [hnone i h1 (by omega)]
    rfl
  rw [hzero]
  exact lt_irrefl 0

section Process

variable [FloorRing K] {ctx : Context K F G} {p : Params K F G} {d : Decoder K G} {temperature : F}
  {row : ℕ → K} {callback : (ℕ → WithBot K) → ℕ → WithBot K} {i : ℕ}

/-- The tokens left are those of positive probability. -/
theorem processLogits_probs_pos_iff :
    0 < (processLogits ctx p d temperature row callback).probs i ↔
      (processLogits ctx p d temperature row callback).logits i ≠ ⊥ :=
  computeProbs_pos_iff

/-- What is left at the end was left by the rules. -/
theorem filterLogits_ne_bot (h : (processLogits ctx p d temperature row callback).logits i ≠ ⊥) :
    filterLogits ctx p d temperature row callback i ≠ ⊥ := by
  refine fun hbot => h ?_
  show (forceTimestamps ctx p d.grammar _ _).1 i = ⊥
  rw [forceTimestamps]
  split
  · simp only [suppress_eq_bot]
    exact .inr hbot
  · split
    · exact suppressInvalidGrammar_eq_bot.mpr hbot
    · exact hbot

/-- **No rule suppresses a token that is left**, as far as the filter callback does not undo it. -/
theorem processLogits_ne_bot
    (h : (processLogits ctx p d temperature row callback).logits i ≠ ⊥) :
    lateOff ctx.vocab p d i ctx.hparams.nAudioCtx = false ∧
      (p.logitsFilter = false → earlyOff ctx.vocab p d i = false) := by
  have h := filterLogits_ne_bot h
  simp only [filterLogits, ne_eq, suppress_eq_bot, not_or, Bool.not_eq_true] at h
  refine ⟨h.1, fun hf => ?_⟩
  rw [hf] at h
  simpa using h.2

/-- Something is left if the rules leave something. -/
theorem exists_processLogits_ne_bot
    (h : ∃ i < ctx.vocab.nVocab, filterLogits ctx p d temperature row callback i ≠ ⊥) :
    ∃ i < ctx.vocab.nVocab, (processLogits ctx p d temperature row callback).logits i ≠ ⊥ := by
  show ∃ i < ctx.vocab.nVocab, (forceTimestamps ctx p d.grammar _ _).1 i ≠ ⊥
  rw [forceTimestamps]
  split
  · rename_i hts
    obtain ⟨j, h1, h2, h3⟩ := exists_of_timestampLogprob (ne_bot_of_gt hts)
    refine ⟨j, h2, ?_⟩
    rw [ne_eq, computeLogprobs_eq_bot] at h3
    simp only [ne_eq, suppress_eq_bot, decide_eq_true_eq, not_or]
    exact ⟨by omega, h3⟩
  · obtain ⟨i, hi, h⟩ := h
    refine ⟨i, hi, ?_⟩
    split
    · exact fun hbot => h (suppressInvalidGrammar_eq_bot.mp hbot)
    · exact h

end Process

/-! ### What sampling returns -/

/-- The search for the largest probability keeps its start or returns an index of positive
probability. -/
theorem argmaxPos_spec (probs : ℕ → K) (js : List ℕ) (id : ℕ) :
    ((argmaxPos probs js id).1 = id ∧ (argmaxPos probs js id).2 = 0 ∧ ∀ j ∈ js, probs j ≤ 0) ∨
      ((argmaxPos probs js id).1 ∈ js ∧
        (argmaxPos probs js id).2 = probs (argmaxPos probs js id).1 ∧
        0 < (argmaxPos probs js id).2) := by
  have hfold : ∀ (js : List ℕ) (b : ℕ × K),
      (js.foldl (fun b i => if b.2 < probs i then (i, probs i) else b) b = b ∧
        ∀ j ∈ js, probs j ≤ b.2) ∨
      ∃ j ∈ js, js.foldl (fun b i => if b.2 < probs i then (i, probs i) else b) b = (j, probs j) ∧
        b.2 < probs j := by
    intro js
    induction js with
    | nil => simp
    | cons j js ih =>
      intro b
      rw [List.foldl_cons]
      by_cases hj : b.2 < probs j
      · rw [if_pos hj]
        rcases ih (j, probs j) with ⟨heq, -⟩ | ⟨k, hk, heq, hlt⟩
        · exact .inr ⟨j, List.mem_cons_self .., heq, hj⟩
        · exact .inr ⟨k, List.mem_cons_of_mem _ hk, heq, hj.trans hlt⟩
      · rw [if_neg hj]
        rcases ih b with ⟨heq, hle⟩ | ⟨k, hk, heq, hlt⟩
        · exact .inl ⟨heq, List.forall_mem_cons.mpr ⟨not_lt.mp hj, hle⟩⟩
        · exact .inr ⟨k, List.mem_cons_of_mem _ hk, heq, hlt⟩
  rcases hfold js (id, 0) with ⟨heq, hle⟩ | ⟨j, hj, heq, hlt⟩
  · exact .inl (by unfold argmaxPos; rw [heq]; exact ⟨rfl, rfl, hle⟩)
  · exact .inr (by unfold argmaxPos; rw [heq]; exact ⟨hj, rfl, hlt⟩)

/-- A drawn index has positive weight, if one has. -/
theorem draw_spec (probs : ℕ → K) (n r : ℕ) :
    (draw probs n r = 0 ∧ ∀ i < n, probs i ≤ 0) ∨
      (draw probs n r < n ∧ 0 < probs (draw probs n r)) := by
  rcases hs : (List.range n).filter fun i => 0 < probs i with _ | ⟨a, l⟩
  · left
    refine ⟨by simp [draw, hs], fun i hi => ?_⟩
    have := List.filter_eq_nil_iff.mp hs i (List.mem_range.mpr hi)
    simpa using this
  · right
    have hlt : r % (a :: l).length < (a :: l).length := Nat.mod_lt _ (by simp)
    have hmem : draw probs n r ∈ (List.range n).filter fun i => 0 < probs i := by
      rw [draw]
      simp only [hs]
      rw [List.getD_eq_getElem?_getD, List.getElem?_eq_getElem hlt, Option.getD_some]
      exact List.getElem_mem hlt
    obtain ⟨h1, h2⟩ := List.mem_filter.mp hmem
    exact ⟨List.mem_range.mp h1, by simpa using h2⟩

/-- What both sampling functions guarantee of a token: it has positive probability, unless no token
has, and a timestamp is its own `tid`. -/
structure Sampled (v : Vocab) (probs : ℕ → K) (t : TokenData K) : Prop where
  id_spec : (t.id < v.nVocab ∧ 0 < probs t.id) ∨ (t.id = 0 ∧ ∀ i < v.nVocab, probs i ≤ 0)
  tid_eq : v.tokenBeg ≤ t.id → t.tid = t.id

omit [Field K] [LinearOrder K] in
@[simp] theorem TokenData.id_ownTimestamp (v : Vocab) (t : TokenData K) :
    (t.ownTimestamp v).id = t.id := by
  rw [TokenData.ownTimestamp]
  split <;> rfl

omit [Field K] [LinearOrder K] in
theorem TokenData.tid_ownTimestamp {v : Vocab} {t : TokenData K} (h : v.tokenBeg ≤ t.id) :
    (t.ownTimestamp v).tid = t.id := by
  rw [TokenData.ownTimestamp]
  rw [if_pos h]

/-- `whisper_sample_token` returns a token that is left. -/
theorem sampleToken_sampled (v : Vocab) (s : Scores K) (best : Bool) (r : ℕ) :
    Sampled v s.probs (sampleToken v s best r) := by
  rw [sampleToken]
  split
  refine ⟨?_, fun h => ?_⟩
  · split
    · simp only [TokenData.id_ownTimestamp]
      rcases argmaxPos_spec s.probs (List.range v.nVocab) 0 with ⟨h1, -, h3⟩ | ⟨h1, h2, h3⟩
      · exact .inr ⟨h1, fun i hi => h3 i (List.mem_range.mpr hi)⟩
      · exact .inl ⟨List.mem_range.mp h1, h2 ▸ h3⟩
    · simp only [TokenData.id_ownTimestamp]
      exact (draw_spec s.probs v.nVocab r).symm
  · split at h <;> rename_i hb
    · rw [if_pos hb, TokenData.id_ownTimestamp] at *
      rw [TokenData.tid_ownTimestamp h]
    · rw [if_neg hb, TokenData.id_ownTimestamp] at *
      rw [TokenData.tid_ownTimestamp h]

/-- `whisper_sample_token_topk` returns tokens that are left. -/
theorem sampleTokenTopk_sampled {v : Vocab} {s : Scores K} {k : ℕ} {r : ℕ → ℕ} {t : TokenData K}
    (ht : t ∈ sampleTokenTopk v s k r) : Sampled v s.probs t := by
  rw [sampleTokenTopk] at ht
  split at ht
  obtain ⟨i, -, rfl⟩ := List.mem_map.mp ht
  refine ⟨?_, fun h => ?_⟩
  · rw [TokenData.id_ownTimestamp]
    exact (draw_spec s.probs v.nVocab (r i)).symm
  · rw [TokenData.id_ownTimestamp] at *
    rw [TokenData.tid_ownTimestamp h]

/-- From a distribution that leaves something, a sampled token is one that is left. -/
theorem Sampled.ne_bot [FloorRing K] {ctx : Context K F G} {p : Params K F G} {d : Decoder K G} {temperature : F}
    {row : ℕ → K} {callback : (ℕ → WithBot K) → ℕ → WithBot K} {t : TokenData K}
    (h : Sampled ctx.vocab (processLogits ctx p d temperature row callback).probs t)
    (hne : ∃ i < ctx.vocab.nVocab,
      (processLogits ctx p d temperature row callback).logits i ≠ ⊥) :
    t.id < ctx.vocab.nVocab ∧
      (processLogits ctx p d temperature row callback).logits t.id ≠ ⊥ := by
  rcases h.id_spec with ⟨h1, h2⟩ | ⟨-, h2⟩
  · exact ⟨h1, processLogits_probs_pos_iff.mp h2⟩
  · obtain ⟨i, hi, hne⟩ := hne
    exact absurd (processLogits_probs_pos_iff.mpr hne) (not_lt.mpr (h2 i hi))

end Full

end WhisperCpp
