import Mathlib.Algebra.Order.Floor.Ring
import WhisperCpp.Full.Context
import WhisperCpp.Library.Literals
import WhisperCpp.Loader.Stream

/-!
# Times of tokens

`whisper_exp_compute_token_level_timestamps` gives every token of a segment a start and an end. It
takes the times of timestamps that the model is sure of, divides what is between them by the lengths
of the texts, and then moves the ends of each text token by the energy of the signal around them.

The tokens of a segment are a function, of which the first `n` count, and the numbers are exact.

## Main definitions

* `getSignalEnergy`, `timestampToSample`, `sampleToTimestamp`
* `estimates`, `fill`, `fixUp`, `refineToken` — the passes
* `computeTokenLevelTimestamps` — the function
* `signalSample` — the sample at a time

## Main results

* `getSignalEnergy_getElem?` — the energy is that around a sample of the whole signal
* `tokenSamples_eq_iff` — when a token is refined at the samples of its times
-/

namespace WhisperCpp

namespace Full

open Loader (wrap32)

attribute [local instance] Literals.atLeastTwo_two Literals.atLeastTwo_three
  Literals.atLeastTwo_hundred

variable {K : Type*} [Field K] [LinearOrder K]

/-- `whisper_token_data` with the fields of this pass. -/
structure TimingToken (K : Type*) extends TokenData K where
  t0 : ℤ
  t1 : ℤ
  vlen : K

/-- A segment, of which this pass uses the times and the tokens. -/
structure TimingSegment (K : Type*) where
  t0 : ℤ
  t1 : ℤ
  n : ℕ
  tokens : ℕ → TimingToken K

/-- The part of `whisper_state` that this pass uses. -/
structure TimingState (K : Type*) where
  tBeg : ℤ
  tLast : ℤ
  tidLast : ℕ
  energy : List K

def setT0 (tokens : ℕ → TimingToken K) (j : ℕ) (t : ℤ) : ℕ → TimingToken K :=
  Function.update tokens j { tokens j with t0 := t }

def setT1 (tokens : ℕ → TimingToken K) (j : ℕ) (t : ℤ) : ℕ → TimingToken K :=
  Function.update tokens j { tokens j with t1 := t }

def setVlen (tokens : ℕ → TimingToken K) (j : ℕ) (x : K) : ℕ → TimingToken K :=
  Function.update tokens j { tokens j with vlen := x }

section Updates

variable {tokens : ℕ → TimingToken K} {i j : ℕ} {t : ℤ} {x : K}

omit [Field K] [LinearOrder K]

theorem setT0_of_ne (h : i ≠ j) : setT0 tokens j t i = tokens i := Function.update_of_ne h _ _

theorem setT1_of_ne (h : i ≠ j) : setT1 tokens j t i = tokens i := Function.update_of_ne h _ _

theorem setT0_t0 : (setT0 tokens j t i).t0 = if i = j then t else (tokens i).t0 := by
  rw [setT0, Function.update_apply]
  split <;> rfl

theorem setT1_t1 : (setT1 tokens j t i).t1 = if i = j then t else (tokens i).t1 := by
  rw [setT1, Function.update_apply]
  split <;> rfl

theorem setVlen_vlen : (setVlen tokens j x i).vlen = if i = j then x else (tokens i).vlen := by
  rw [setVlen, Function.update_apply]
  split <;> rfl

@[simp] theorem setT0_t1 : (setT0 tokens j t i).t1 = (tokens i).t1 := by
  rw [setT0, Function.update_apply]
  split <;> simp [*]

@[simp] theorem setT1_t0 : (setT1 tokens j t i).t0 = (tokens i).t0 := by
  rw [setT1, Function.update_apply]
  split <;> simp [*]

@[simp] theorem setVlen_t0 : (setVlen tokens j x i).t0 = (tokens i).t0 := by
  rw [setVlen, Function.update_apply]
  split <;> simp [*]

@[simp] theorem setVlen_t1 : (setVlen tokens j x i).t1 = (tokens i).t1 := by
  rw [setVlen, Function.update_apply]
  split <;> simp [*]

@[simp] theorem setT0_vlen : (setT0 tokens j t i).vlen = (tokens i).vlen := by
  rw [setT0, Function.update_apply]
  split <;> simp [*]

@[simp] theorem setT1_vlen : (setT1 tokens j t i).vlen = (tokens i).vlen := by
  rw [setT1, Function.update_apply]
  split <;> simp [*]

@[simp] theorem setT0_data : (setT0 tokens j t i).toTokenData = (tokens i).toTokenData := by
  rw [setT0, Function.update_apply]
  split <;> simp [*]

@[simp] theorem setT1_data : (setT1 tokens j t i).toTokenData = (tokens i).toTokenData := by
  rw [setT1, Function.update_apply]
  split <;> simp [*]

@[simp] theorem setVlen_data : (setVlen tokens j x i).toTokenData = (tokens i).toTokenData := by
  rw [setVlen, Function.update_apply]
  split <;> simp [*]

end Updates

/-! ### The signal -/

/-- `WHISPER_SAMPLE_RATE`. -/
def sampleRate : ℤ := 16000

/-- `get_signal_energy`: the mean of the absolute values in a window around each sample. -/
def getSignalEnergy (signal : List K) (hw : ℕ) : List K :=
  (List.range signal.length).map fun i =>
    (((List.range (2 * hw + 1)).map fun j =>
      if hw ≤ i + j ∧ i + j - hw < signal.length then |signal.getD (i + j - hw) 0| else 0).sum) /
      (2 * hw + 1)

/-- The state at the start of `whisper_full_with_state`. Without samples the energy stays. -/
def startTiming (s : TimingState K) (samples : List K) : TimingState K :=
  ⟨0, 0, 0, if samples = [] then s.energy else getSignalEnergy samples 32⟩

/-- `timestamp_to_sample`. -/
def timestampToSample (t segmentT0 : ℤ) (nSamples : ℕ) : ℕ :=
  let relativeT := t - segmentT0
  let sample := wrap32 ((relativeT * sampleRate).tdiv 100)
  (max 0 (min ((nSamples : ℤ) - 1) sample)).toNat

/-- `sample_to_timestamp`. -/
def sampleToTimestamp (iSample : ℕ) (segmentT0 : ℤ) : ℤ :=
  (100 * (iSample : ℤ)).tdiv sampleRate + segmentT0

/-! ### Estimates -/

/-- What `voice_length` adds for a character. -/
def voiceChar (c : UInt8) : K :=
  if c = 32 then 1 / 100
  else if c = 44 then 2
  else if c = 46 then 3
  else if c = 33 then 3
  else if c = 63 then 3
  else if 48 ≤ c ∧ c ≤ 57 then 3
  else 1

/-- `voice_length`. -/
def voiceLength (text : List UInt8) : K := (text.map voiceChar).sum

section Estimates

variable (v : Vocab) (tokenToStr : ℕ → List UInt8) (tholdPt tholdPtsum : K) (t0 t1 : ℤ)

/-- The state of the loop over the tokens. -/
structure Estimates (K : Type*) where
  tokens : ℕ → TimingToken K
  tBeg : ℤ
  tLast : ℤ
  tidLast : ℕ

/-- The branch for `j == 0`. -/
def startTokens (e : Estimates K) : Estimates K :=
  if (e.tokens 0).id = v.tokenBeg then
    ⟨setT0 (setT1 (setT0 e.tokens 0 t0) 0 t0) 1 t0, t0, t0, v.tokenBeg⟩
  else { e with tokens := setT0 e.tokens 0 e.tLast }

/-- `tt`. -/
def estimateOf (tBeg : ℤ) (token : TokenData K) : ℤ :=
  tBeg + 2 * ((token.tid : ℤ) - v.tokenBeg)

/-- The estimate is one that counts. -/
def Accepted (tBeg : ℤ) (tidLast : ℕ) (token : TokenData K) : Prop :=
  tholdPt < token.pt ∧ tholdPtsum < token.ptsum ∧ tidLast < token.tid ∧
    estimateOf v tBeg token ≤ t1

instance (tBeg : ℤ) (tidLast : ℕ) (token : TokenData K) :
    Decidable (Accepted v tholdPt tholdPtsum t1 tBeg tidLast token) :=
  inferInstanceAs (Decidable (_ ∧ _ ∧ _ ∧ _))

/-- The rest of the body, for token `j`. -/
def estimate (e : Estimates K) (j : ℕ) : Estimates K :=
  let token := e.tokens j
  let tt := estimateOf v e.tBeg token.toTokenData
  let tokens := setVlen e.tokens j (voiceLength (tokenToStr token.id))
  if Accepted v tholdPt tholdPtsum t1 e.tBeg e.tidLast token.toTokenData then
    { e with
      tokens := setT0 (if 0 < j then setT1 tokens (j - 1) tt else tokens) j tt
      tidLast := token.tid }
  else { e with tokens }

/-- The loop. -/
def estimates (n : ℕ) (e : Estimates K) : Estimates K :=
  (List.range n).foldl (estimate v tokenToStr tholdPt tholdPtsum t1) (startTokens v t0 e)

/-- The last two tokens end with the segment. -/
def endTokens (n : ℕ) (tokens : ℕ → TimingToken K) : ℕ → TimingToken K :=
  setT1 (setT0 (setT1 tokens (n - 2) t1) (n - 1) t1) (n - 1) t1

end Estimates

/-! ### Unknown times -/

section Fill

/-- `while (p1 < n && tokens[p1].t1 < 0)`, with `left` tokens behind `p1`. -/
def knownFrom (tokens : ℕ → TimingToken K) (p1 : ℕ) : ℕ → ℕ
  | 0 => p1
  | left + 1 => if (tokens p1).t1 < 0 then knownFrom tokens (p1 + 1) left else p1

variable [FloorRing K] (nan : ℤ)

/-- What a `double` becomes as `int64_t`. -/
def toInt64 (x : K) : ℤ := if 0 ≤ x then ⌊x⌋ else ⌈x⌉

/-- The boundary in front of token `j`. If there is no text at all, the quotient is not a number,
and `nan` is what it becomes. -/
def splitStep (dt psum : K) (tokens : ℕ → TimingToken K) (j : ℕ) : ℕ → TimingToken K :=
  let ct := if psum = 0 then nan
    else toInt64 (((tokens (j - 1)).t0 : K) + dt * (tokens (j - 1)).vlen / psum)
  setT0 (setT1 tokens (j - 1) ct) j ct

/-- The tokens from `p0` to `p1`. -/
def split (tokens : ℕ → TimingToken K) (p0 p1 : ℕ) : ℕ → TimingToken K :=
  let psum := ((List.range' p0 (p1 + 1 - p0)).map fun j => (tokens j).vlen).sum
  let dt := (((tokens p1).t1 - (tokens p0).t0 : ℤ) : K)
  (List.range' (p0 + 1) (p1 - p0)).foldl (splitStep nan dt psum) tokens

/-- The intervals from `p0` on. There are not more than `n` of them. -/
def fillFrom (n : ℕ) : ℕ → ℕ → (ℕ → TimingToken K) → ℕ → TimingToken K
  | 0, _, tokens => tokens
  | rounds + 1, p0, tokens =>
    let known := knownFrom tokens p0 (n - p0)
    let p1 := if n ≤ known then known - 1 else known
    let tokens := if p0 < p1 then split nan tokens p0 p1 else tokens
    if n ≤ p1 + 1 then tokens else fillFrom n rounds (p1 + 1) tokens

def fill (n : ℕ) (tokens : ℕ → TimingToken K) : ℕ → TimingToken K := fillFrom nan n n 0 tokens

end Fill

/-- "fix up (just in case)", for token `j`. -/
def fixUpToken (tokens : ℕ → TimingToken K) (j : ℕ) : ℕ → TimingToken K :=
  let tokens := if (tokens j).t1 < 0 then setT0 tokens (j + 1) (tokens j).t1 else tokens
  if 0 < j ∧ (tokens j).t0 < (tokens (j - 1)).t1 then
    let tokens := setT0 tokens j (tokens (j - 1)).t1
    setT1 tokens j (max (tokens j).t0 (tokens j).t1)
  else tokens

def fixUp (n : ℕ) (tokens : ℕ → TimingToken K) : ℕ → TimingToken K :=
  (List.range (n - 1)).foldl fixUpToken tokens

/-! ### Voice activity -/

section Refine

/-- `while (k > lo && p(k)) k--`. -/
def downWhile (p : ℕ → Bool) (lo : ℕ) : ℕ → ℕ
  | 0 => 0
  | k + 1 => if lo < k + 1 ∧ p (k + 1) then downWhile p lo k else k + 1

/-- `while (k < k + left && p(k)) k++`. -/
def upWhile (p : ℕ → Bool) (k : ℕ) : ℕ → ℕ
  | 0 => k
  | left + 1 => if p k then upWhile p (k + 1) left else k

/-- Half of a window around a token. -/
def hw : ℕ := 2000

/-- `s0` and `s1`. -/
def tokenSamples (segmentT0 : ℤ) (nSamples : ℕ) (token : TimingToken K) : ℕ × ℕ :=
  (timestampToSample token.t0 segmentT0 nSamples, timestampToSample token.t1 segmentT0 nSamples)

variable (energy : List K) (segmentT0 : ℤ)

/-- Half of the mean of the energy in the window from `s0 - hw` to `s1 + hw`. An empty window has no
mean, and nothing is above or below it. -/
def threshold (s0 s1 : ℕ) : Option K :=
  let ss0 := s0 - hw
  let ss1 := min (s1 + hw) energy.length
  let ns : ℤ := (ss1 : ℤ) - ss0
  let sum := ((List.range' ss0 (ss1 - ss0)).map fun k => energy.getD k 0).sum
  if ns = 0 then none else some (sum / 2 / ns)

def above (thold : Option K) (k : ℕ) : Bool := thold.any fun x => decide (x < energy.getD k 0)

def below (thold : Option K) (k : ℕ) : Bool := thold.any fun x => decide (energy.getD k 0 < x)

/-- The start of token `j`, and `s0`. -/
def refineT0 (thold : Option K) (j s0 s1 : ℕ) (tokens : ℕ → TimingToken K) :
    (ℕ → TimingToken K) × ℕ :=
  if above energy thold s0 ∧ 0 < j then
    let k := downWhile (above energy thold) 0 s0
    let t := sampleToTimestamp k segmentT0
    if t < (tokens (j - 1)).t1 then (setT0 tokens j (tokens (j - 1)).t1, s0)
    else (setT0 tokens j t, k)
  else
    let k := upWhile (below energy thold) s0 (s1 - s0)
    (setT0 tokens j (sampleToTimestamp k segmentT0), k)

/-- The end of token `j` of `n`. -/
def refineT1 (thold : Option K) (n j s0 s1 : ℕ) (tokens : ℕ → TimingToken K) : ℕ → TimingToken K :=
  if above energy thold s1 then
    let k := upWhile (above energy thold) s1 (energy.length - 1 - s1)
    let t := sampleToTimestamp k segmentT0
    if j < n - 1 ∧ (tokens (j + 1)).t0 < t then setT1 tokens j (tokens (j + 1)).t0
    else setT1 tokens j t
  else setT1 tokens j (sampleToTimestamp (downWhile (below energy thold) s0 s1) segmentT0)

/-- "expand or contract tokens based on voice activity", for token `j` of `n`. -/
def refineToken (eot n : ℕ) (tokens : ℕ → TimingToken K) (j : ℕ) : ℕ → TimingToken K :=
  if eot ≤ (tokens j).id then tokens
  else
    let s := tokenSamples segmentT0 energy.length (tokens j)
    let thold := threshold energy s.1 s.2
    let r := refineT0 energy segmentT0 thold j s.1 s.2 tokens
    refineT1 energy segmentT0 thold n j r.2 s.2 r.1

def refine (eot n : ℕ) (tokens : ℕ → TimingToken K) : ℕ → TimingToken K :=
  (List.range n).foldl (refineToken energy segmentT0 eot n) tokens

end Refine

variable [FloorRing K]

/-- `whisper_exp_compute_token_level_timestamps`; `tokenToStr` is `whisper_token_to_str`. -/
def computeTokenLevelTimestamps (nan : ℤ) (v : Vocab) (tokenToStr : ℕ → List UInt8)
    (tholdPt tholdPtsum : K) (s : TimingState K) (segment : TimingSegment K) :
    TimingState K × TimingSegment K :=
  if s.energy = [] ∨ segment.n = 0 then (s, segment)
  else if segment.n = 1 then
    (s, { segment with tokens := setT1 (setT0 segment.tokens 0 segment.t0) 0 segment.t1 })
  else
    let e := estimates v tokenToStr tholdPt tholdPtsum segment.t0 segment.t1 segment.n
      ⟨segment.tokens, s.tBeg, s.tLast, s.tidLast⟩
    let tokens := fixUp segment.n (fill nan segment.n (endTokens segment.t1 segment.n e.tokens))
    (⟨e.tBeg, segment.t1, e.tidLast, s.energy⟩,
      { segment with
        tokens := refine s.energy segment.t0 v.tokenEot segment.n tokens })

/-! ### What stays -/

section Data

variable {tokens : ℕ → TimingToken K} {i : ℕ}

omit [Field K] [LinearOrder K] [FloorRing K] in
theorem data_foldl {f : (ℕ → TimingToken K) → ℕ → ℕ → TimingToken K}
    (hf : ∀ u j, (f u j i).toTokenData = (u i).toTokenData) (l : List ℕ) :
    (l.foldl f tokens i).toTokenData = (tokens i).toTokenData := by
  induction l generalizing tokens with
  | nil => rfl
  | cons j l ih => rw [List.foldl_cons, ih, hf]

omit [FloorRing K] in
theorem data_estimates (v : Vocab) (tokenToStr : ℕ → List UInt8) (tholdPt tholdPtsum : K)
    (t0 t1 : ℤ) (n : ℕ) (e : Estimates K) :
    ((estimates v tokenToStr tholdPt tholdPtsum t0 t1 n e).tokens i).toTokenData =
      (e.tokens i).toTokenData := by
  have hstart : ((startTokens v t0 e).tokens i).toTokenData = (e.tokens i).toTokenData := by
    rw [startTokens]
    split <;> simp only [setT0_data, setT1_data]
  rw [estimates, ← hstart]
  generalize startTokens v t0 e = e'
  induction List.range n generalizing e' with
  | nil => rfl
  | cons j l ih =>
    rw [List.foldl_cons, ih, estimate]
    split
    · rw [setT0_data]
      split <;> simp only [setT1_data, setVlen_data]
    · rw [setVlen_data]

theorem data_split (nan : ℤ) (p0 p1 : ℕ) :
    (split nan tokens p0 p1 i).toTokenData = (tokens i).toTokenData := by
  rw [split]
  exact data_foldl (fun u j => by rw [splitStep, setT0_data, setT1_data]) _

theorem data_fillFrom (nan : ℤ) (n rounds p0 : ℕ) :
    (fillFrom nan n rounds p0 tokens i).toTokenData = (tokens i).toTokenData := by
  induction rounds generalizing p0 tokens with
  | zero => rfl
  | succ rounds ih =>
    rw [fillFrom]
    generalize (if n ≤ knownFrom tokens p0 (n - p0) then _ else _) = p1
    have hone : ((if p0 < p1 then split nan tokens p0 p1 else tokens) i).toTokenData =
        (tokens i).toTokenData := by
      split
      · exact data_split nan p0 p1
      · rfl
    by_cases hdone : n ≤ p1 + 1
    · rw [if_pos hdone, hone]
    · rw [if_neg hdone, ih, hone]

omit [FloorRing K] [Field K] [LinearOrder K] in
theorem data_fixUp (n : ℕ) : (fixUp n tokens i).toTokenData = (tokens i).toTokenData := by
  rw [fixUp]
  refine data_foldl (fun u j => ?_) _
  have hone : ((if (u j).t1 < 0 then setT0 u (j + 1) (u j).t1 else u) i).toTokenData =
      (u i).toTokenData := by
    split
    · rw [setT0_data]
    · rfl
  rw [fixUpToken]
  generalize (if (u j).t1 < 0 then setT0 u (j + 1) (u j).t1 else u) = u' at hone ⊢
  split
  · rw [setT1_data, setT0_data, hone]
  · exact hone

omit [FloorRing K] in
theorem data_refine (energy : List K) (segmentT0 : ℤ) (eot n : ℕ) :
    (refine energy segmentT0 eot n tokens i).toTokenData = (tokens i).toTokenData := by
  have hT0 : ∀ thold j s0 s1 u, ((refineT0 energy segmentT0 thold j s0 s1 u).1 i).toTokenData =
      (u i).toTokenData := by
    intro thold j s0 s1 u
    rw [refineT0]
    split_ifs
    · dsimp only
      split_ifs <;> rw [setT0_data]
    · rw [setT0_data]
  have hT1 : ∀ thold j s0 s1 u, (refineT1 energy segmentT0 thold n j s0 s1 u i).toTokenData =
      (u i).toTokenData := by
    intro thold j s0 s1 u
    rw [refineT1]
    split_ifs
    · dsimp only
      split_ifs <;> rw [setT1_data]
    · rw [setT1_data]
  rw [refine]
  refine data_foldl (fun u j => ?_) _
  rw [refineToken]
  split
  · rfl
  · rw [hT1, hT0]

/-- Only times and voice lengths of tokens are written. -/
theorem computeTokenLevelTimestamps_frame (nan : ℤ) (v : Vocab) (tokenToStr : ℕ → List UInt8)
    (tholdPt tholdPtsum : K) (s : TimingState K) (segment : TimingSegment K) :
    let r := (computeTokenLevelTimestamps nan v tokenToStr tholdPt tholdPtsum s segment).2
    r.t0 = segment.t0 ∧ r.t1 = segment.t1 ∧ r.n = segment.n ∧
      ∀ i, (r.tokens i).toTokenData = (segment.tokens i).toTokenData := by
  rw [computeTokenLevelTimestamps]
  split_ifs
  · exact ⟨rfl, rfl, rfl, fun _ => rfl⟩
  · refine ⟨rfl, rfl, rfl, fun i => ?_⟩
    simp only [setT1_data, setT0_data]
  · refine ⟨rfl, rfl, rfl, fun i => ?_⟩
    simp only
    rw [data_refine, data_fixUp, fill, data_fillFrom, endTokens]
    simp only [setT1_data, setT0_data]
    rw [data_estimates]

end Data

/-! ### The samples of a time -/

section Samples

variable {segmentT0 t : ℤ} {nSamples : ℕ}

/-- The sample of the whole signal at a time, or the one at the end that is nearer. -/
def signalSample (nSamples : ℕ) (t : ℤ) : ℕ :=
  (max 0 (min ((nSamples : ℤ) - 1) ((t * sampleRate).tdiv 100))).toNat

omit [LinearOrder K] [FloorRing K] [Field K] in
/-- A centisecond has 160 samples. -/
theorem mul_sampleRate_tdiv (t : ℤ) : (t * sampleRate).tdiv 100 = 160 * t := by
  rw [sampleRate, show t * 16000 = 160 * t * 100 by omega]
  exact Int.mul_tdiv_cancel _ (by decide)

/-- Two numbers of samples are cut off to the same sample of a signal. -/
theorem cut_eq_cut_iff {x y : ℤ} :
    (max 0 (min ((nSamples : ℤ) - 1) x)).toNat = (max 0 (min ((nSamples : ℤ) - 1) y)).toNat ↔
      x = y ∨ x ≤ 0 ∧ y ≤ 0 ∨ (nSamples : ℤ) - 1 ≤ x ∧ (nSamples : ℤ) - 1 ≤ y ∨ nSamples ≤ 1 := by
  omega

/-- The distance from the start of the segment leads to the sample of a time: the two are the same
number, or they are cut off at the same end, or there is but one sample. -/
def Agrees (segmentT0 : ℤ) (nSamples : ℕ) (t : ℤ) : Prop :=
  let relative := wrap32 (160 * (t - segmentT0))
  relative = 160 * t ∨ relative ≤ 0 ∧ 160 * t ≤ 0 ∨
    (nSamples : ℤ) - 1 ≤ relative ∧ (nSamples : ℤ) - 1 ≤ 160 * t ∨ nSamples ≤ 1

/-- Unless an `int` overflows, the two are the same number iff the segment starts with the
signal. -/
theorem wrap32_eq_iff (hlow : -2 ^ 31 ≤ 160 * (t - segmentT0))
    (hhigh : 160 * (t - segmentT0) < 2 ^ 31) :
    wrap32 (160 * (t - segmentT0)) = 160 * t ↔ segmentT0 = 0 := by
  rw [wrap32, Int.bmod_eq_of_le (by omega) (by omega)]
  omega

theorem timestampToSample_eq_iff :
    timestampToSample t segmentT0 nSamples = signalSample nSamples t ↔
      Agrees segmentT0 nSamples t := by
  rw [timestampToSample, signalSample, mul_sampleRate_tdiv, mul_sampleRate_tdiv]
  exact cut_eq_cut_iff

omit [FloorRing K] in
/-- The energy has a value for each sample of the whole signal. -/
theorem length_getSignalEnergy (signal : List K) (hw : ℕ) :
    (getSignalEnergy signal hw).length = signal.length := by
  rw [getSignalEnergy, List.length_map, List.length_range]

omit [Field K] [LinearOrder K] [FloorRing K] in
theorem tokenSamples_eq_iff (token : TimingToken K) : tokenSamples segmentT0 nSamples token =
      (signalSample nSamples token.t0, signalSample nSamples token.t1) ↔
    Agrees segmentT0 nSamples token.t0 ∧ Agrees segmentT0 nSamples token.t1 := by
  rw [tokenSamples, Prod.mk.injEq, timestampToSample_eq_iff, timestampToSample_eq_iff]

omit [FloorRing K] in
theorem length_energy_startTiming (s : TimingState K) {samples : List K} (hne : samples ≠ []) :
    (startTiming s samples).energy.length = samples.length := by
  rw [startTiming, if_neg hne, length_getSignalEnergy]

omit [FloorRing K] in
/-- **A token is refined at the samples of its times** iff the distances from the start of the
segment lead to them. -/
theorem refinedAt_iff (s : TimingState K) {samples : List K} (hne : samples ≠ []) (segmentT0 : ℤ)
    (token : TimingToken K) :
    tokenSamples segmentT0 (startTiming s samples).energy.length token =
        (signalSample samples.length token.t0, signalSample samples.length token.t1) ↔
      Agrees segmentT0 samples.length token.t0 ∧ Agrees segmentT0 samples.length token.t1 := by
  rw [length_energy_startTiming s hne, tokenSamples_eq_iff]

/-- A segment at the start of a signal of two samples. -/
theorem refinedAt_short : tokenSamples 0 (startTiming ⟨0, 0, 0, []⟩ [(1 : ℚ), -1]).energy.length
    ⟨⟨440, 50464, 1, 0, 1, 1⟩, 0, 1, 5⟩ = (signalSample 2 0, signalSample 2 1) :=
  (refinedAt_iff ⟨0, 0, 0, []⟩ (List.cons_ne_nil (1 : ℚ) [-1]) 0
    ⟨⟨440, 50464, 1, 0, 1, 1⟩, 0, 1, 5⟩).mpr ⟨.inl (by decide), .inl (by decide)⟩

/-- In a signal of three seconds, a token from 1.5 s to 2 s in a segment that starts after
a second. -/
theorem not_forall_refinedAt : ¬ ∀ (s : TimingState ℚ) (samples : List ℚ), samples ≠ [] →
    ∀ (segmentT0 : ℤ) (token : TimingToken ℚ),
      tokenSamples segmentT0 (startTiming s samples).energy.length token =
        (signalSample samples.length token.t0, signalSample samples.length token.t1) := by
  intro h
  have hne := List.cons_ne_nil (0 : ℚ) (List.replicate 47999 0)
  have heq := h ⟨0, 0, 0, []⟩ _ hne 100 ⟨⟨440, 50464, 1, 0, 1, 1⟩, 150, 200, 5⟩
  rw [length_energy_startTiming _ hne, List.length_cons, List.length_replicate] at heq
  revert heq
  decide

end Samples

end Full

end WhisperCpp
