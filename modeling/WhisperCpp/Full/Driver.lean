import WhisperCpp.Full.Decoding
import WhisperCpp.Full.Prompt
import WhisperCpp.Full.Segments
import WhisperCpp.Library.Machine

/-!
# `whisper_full_with_state` as a machine

A state is used by one call after the other. The machine below takes the driver from one external
effect to the next: the start of a call, a temperature of the schedule, a decode, the head of the
main loop, the start of an attempt, the sampling and the update of an iteration, the ranking, the
output of a window. Whatever the environment decides in such a step is in its `Input`: the
parameters of a call, the logits of the network, the random numbers, the results of callbacks and
allocations.

The workers that sample for the decoders write to different decoders and read nothing of each
other; they are modelled as a map over the decoders. Counters, timings, logs and the token-level
timestamp pass are left out.

## Main definitions

* `State`, `Pc`, `Input`
* `step` — one step of the driver
* `Init` — a fresh state of a context
-/

namespace WhisperCpp

namespace Full

/-- The places that call `whisper_decode_internal`. -/
inductive Site where
  /-- Language detection. -/
  | detect
  /-- The prompt of attempt `it`. -/
  | prompt (it : ℕ)
  /-- The tokens that iteration `i` of attempt `it` sampled. -/
  | next (it i : ℕ)
  /-- The alignment of tokens to audio. -/
  | dtw
  deriving DecidableEq

/-- Where the driver stands. -/
inductive Pc (F : Type*) where
  /-- No call is running; the last one returned `code`. -/
  | returned (code : ℤ)
  /-- The temperature schedule has got to `t`. -/
  | schedule (t : F)
  /-- The batch is prepared and about to be decoded. -/
  | decode (site : Site)
  /-- The head of the main loop. -/
  | window
  /-- The head of the loop over the temperatures. -/
  | attempt (it : ℕ)
  /-- Iteration `i` is about to sample. -/
  | sample (it i : ℕ)
  /-- Iteration `i` has sampled. -/
  | update (it i : ℕ)
  /-- The decode loop has ended. -/
  | rank (it : ℕ)
  /-- The window is done. -/
  | emit
  /-- The segments of the window have been added. -/
  | advance
  /-- A failed allocation freed the state. -/
  | freed
  /-- The behaviour of the source is undefined, or an assertion aborts. -/
  | fault

/-- `whisper_state`, the parameters of the current call and its local variables. -/
structure State (K F G : Type*) where
  pc : Pc F
  params : Params K F G
  kvSelf : KvCache
  kvSelfNDec : ℕ
  decoders : ℕ → Decoder K G
  promptPast0 : List ℕ
  promptPast1 : List ℕ
  noSpeechProb : K
  langId : ℤ
  expNAudioCtx : ℤ
  melLenOrg : ℤ
  resultAll : List (Segment K)
  /-- The logits of the last decode, one row per batch token. -/
  logits : ℕ → K
  logitsSize : ℕ
  batch : List BatchEntry
  seekStart : ℤ
  seekEnd : ℤ
  seek : ℤ
  temperatures : List F
  promptInit : List ℕ
  prompt : List ℕ
  tCur : F
  nDecodersCur : ℕ
  bestDecoderId : ℕ
  seekDelta : ℤ
  /-- How many windows have been started; not in the source. -/
  windows : ℕ

/-- What the environment decides in one step. -/
structure Input (K F G : Type*) where
  /-- The parameters of a call. -/
  params : Params K F G
  nSamples : ℤ
  melOk : Bool
  melLenOrg : ℤ
  encoderBegin : Bool
  encodeOk : Bool
  kvInitOk : Bool
  /-- Whether the graph of a decode could be allocated and computed. -/
  graphOk : Bool
  /-- The output of the network for each batch token. -/
  logits : ℕ → ℕ → K
  /-- What `logits_filter_callback` does to the logits of each decoder. -/
  filter : ℕ → (ℕ → WithBot K) → ℕ → WithBot K
  /-- The random numbers of each decoder. -/
  draw : ℕ → ℕ → ℕ
  /-- How the unstable sorts order equal elements. -/
  tie : ℕ → ℕ

variable {K F G : Type*} [Field K] [LinearOrder K] [FloorRing K]

/-- The decoder that is output at the end of a window. -/
def State.best (s : State K F G) : Decoder K G := s.decoders s.bestDecoderId

/-- The indices of the active decoders. -/
def State.activeDecoders (s : State K F G) : List ℕ :=
  (List.range s.nDecodersCur).filter fun j => (s.decoders j).active

section Step

variable (ctx : Context K F G) (x : Input K F G)

/-! ### The start of a call -/

/-- The parameters of the main loop: first release distilled models do without timestamps. -/
def forceNoTimestamps (p : Params K F G) : Params K F G :=
  { p with noTimestamps := isDistil ctx || p.noTimestamps }

/-- The history with which the call goes on. -/
def State.prepared (s : State K F G) : State K F G :=
  { s with
    promptPast0 := (preparePrompt ctx s.params (s.promptPast0, s.promptPast1)).1
    promptPast1 := (preparePrompt ctx s.params (s.promptPast0, s.promptPast1)).2 }

/-- From the check of the number of decoders to the main loop. -/
def setup (s : State K F G) : State K F G :=
  if maxDecoders < nDecoders s.params then { s with pc := .returned (-4) }
  else if ctx.hparams.nAudioCtx < s.params.audioCtx then
    { s.prepared ctx with pc := .returned (-5) }
  else
    { s.prepared ctx with
      expNAudioCtx := s.params.audioCtx
      langId := if ctx.vocab.isMultilingual || ctx.hparams.isBci then
        s.params.language.getD (-1) else s.langId
      params := forceNoTimestamps ctx s.params
      promptInit := promptInit ctx (forceNoTimestamps ctx s.params)
      seek := s.seekStart
      prompt := []
      pc := .window }

/-- The range of the audio that the call is about. -/
def State.ranged (s : State K F G) : State K F G :=
  { s with
    seekStart := s.params.offsetMs.tdiv 10
    seekEnd := if s.params.durationMs = 0 then s.melLenOrg
      else s.params.offsetMs.tdiv 10 + s.params.durationMs.tdiv 10 }

/-- From the range of the audio to the temperature schedule. -/
def beginCall (s : State K F G) : State K F G :=
  if s.ranged.seekEnd < s.ranged.seekStart + deltaMin then { s with pc := .returned 0 }
  else if ctx.temp.lt ctx.temp.zero s.params.temperatureInc then
    { s.ranged with temperatures := [], pc := .schedule s.params.temperature }
  else setup ctx { s.ranged with temperatures := [s.params.temperature] }

/-- The loop `for (t = temperature; t < 1.0f + 1e-6f; t += temperature_inc)`. -/
def stepSchedule (t : F) (s : State K F G) : State K F G :=
  if ctx.temp.lt t ctx.temp.one then
    { s with
      temperatures := s.temperatures ++ [t]
      pc := .schedule (ctx.temp.add t s.params.temperatureInc) }
  else setup ctx s

/-- The state with the arguments of a call. -/
def State.called (s : State K F G) : State K F G :=
  { s with
    params := x.params
    resultAll := []
    melLenOrg := if 0 < x.nSamples && x.melOk then x.melLenOrg else s.melLenOrg }

/-- A call starts: the spectrogram, then the detection of the language if it is asked for. -/
def stepCall (s : State K F G) : State K F G :=
  if 0 < x.nSamples && !x.melOk then { s.called x with pc := .returned (-2) }
  else if x.params.language.isNone || x.params.detectLanguage then
    if (s.called x).melLenOrg ≤ 0 || !x.encodeOk then { s.called x with pc := .returned (-3) }
    else
      { s.called x with
        batch := batchPrepLegacy [ctx.vocab.tokenSot] 0 0
        kvSelf := s.kvSelf.seqRm (some 0) 0 (-1)
        pc := .decode .detect }
  else beginCall ctx (s.called x)

/-! ### Decoding a batch -/

/-- The logits after a decode: the rows of the batch tokens that ask for them are read back. -/
def readLogits (s : State K F G) : ℕ → K := fun k =>
  if (s.batch[k / ctx.vocab.nVocab]?).any BatchEntry.logits then
    x.logits (k / ctx.vocab.nVocab) (k % ctx.vocab.nVocab)
  else if k < s.logitsSize then s.logits k else 0

/-- Row `b` of the logits. -/
def State.row (s : State K F G) (b : ℕ) : ℕ → K := fun i => s.logits (b * ctx.vocab.nVocab + i)

/-- `whisper_lang_auto_detect_with_state`: the language whose token has the largest logit. -/
def detectLang (s : State K F G) : ℤ :=
  (((List.range nLang).insertionSort fun (a b : ℕ) =>
    if s.logits (ctx.vocab.tokenLang a) ≠ s.logits (ctx.vocab.tokenLang b) then
      s.logits (ctx.vocab.tokenLang b) < s.logits (ctx.vocab.tokenLang a)
    else x.tie a ≤ x.tie b).headD 0 : ℕ)

/-- `no_speech_prob`, from the first row of the logits and the maximum over all of them. -/
def noSpeech (s : State K F G) : K :=
  let logits : ℕ → WithBot K := fun k => ↑(s.logits k)
  computeProbs ctx.arith logits
    (computeLogprobs ctx.arith s.logitsSize ctx.vocab.nVocab logits) ctx.vocab.tokenNosp

/-- The distribution from which decoder `d` is to sample next. -/
def State.process (s : State K F G) (j : ℕ) (d : Decoder K G) : Scores K :=
  processLogits ctx s.params d s.tCur (s.row ctx d.iBatch) (x.filter j)

/-- After the detection of the language. -/
def decodedDetect (s : State K F G) : State K F G :=
  let s' := { s with
    langId := detectLang ctx x s
    params := { s.params with language := some (detectLang ctx x s) } }
  if s.params.detectLanguage then { s' with pc := .returned 0 } else beginCall ctx s'

/-- After the prompt: one distribution for all decoders, which share the cells of the prompt. -/
def decodedPrompt (it : ℕ) (s : State K F G) : State K F G :=
  let d := { s.decoders 0 with iBatch := s.prompt.length - 1 }
  { s with
    noSpeechProb := noSpeech ctx s
    decoders := fun j =>
      if j = 0 then { d with scores := s.process ctx x 0 d }
      else if j < s.nDecodersCur then { s.decoders j with scores := s.process ctx x 0 d }
      else s.decoders j
    kvSelf := (List.range' 1 (s.nDecodersCur - 1)).foldl
      (fun kv j => kv.seqCp 0 j (-1) (-1)) s.kvSelf
    pc := if 0 < nMax ctx then .sample it 0 else .rank it }

/-- After the tokens of an iteration: every active decoder gets its distribution. -/
def decodedNext (it i : ℕ) (s : State K F G) : State K F G :=
  { s with
    decoders := fun j =>
      if j < s.nDecodersCur ∧ (s.decoders j).active then
        { s.decoders j with scores := s.process ctx x j (s.decoders j) }
      else s.decoders j
    pc := if (i : ℤ) + 1 < nMax ctx then .sample it (i + 1) else .rank it }

/-- A decode that succeeded. -/
def decoded (s : State K F G) : Site → State K F G
  | .detect => decodedDetect ctx x s
  | .prompt it => decodedPrompt ctx x it s
  | .next it i => decodedNext ctx x it i s
  | .dtw => { s with pc := .advance }

/-- A decode that failed. -/
def decodeFailed (s : State K F G) : Site → State K F G
  | .detect => { s with pc := .returned (-3) }
  | .prompt _ => { s with pc := .returned (-8) }
  | .next _ _ => { s with pc := .returned (-9) }
  | .dtw => { s with pc := .fault }

/-- The state after the graph of a batch has been computed. -/
def State.computed (s : State K F G) : State K F G :=
  { s with
    kvSelf := (s.kvSelf.reserve ctx.kvPad s.batch).1
    logits := readLogits ctx x s
    logitsSize := s.batch.length * ctx.vocab.nVocab }

/-- `whisper_decode_internal`. -/
def stepDecode (site : Site) (s : State K F G) : State K F G :=
  if (s.kvSelf.reserve ctx.kvPad s.batch).2 && x.graphOk then decoded ctx x (s.computed ctx x) site
  else decodeFailed { s with kvSelf := (s.kvSelf.reserve ctx.kvPad s.batch).1 } site

/-! ### The main loop -/

/-- A very short rest of the audio is decoded without history. -/
def State.shortRest (s : State K F G) : Bool := s.seekStart < s.seek && s.seekEnd ≤ s.seek + 500

/-- The head of the main loop. -/
def stepWindow (s : State K F G) : State K F G :=
  if s.seekEnd ≤ s.seek + deltaMin then { s with pc := .returned 0 }
  else if !x.encoderBegin then { s with pc := .returned 0 }
  else if !x.encodeOk then { s with pc := .returned (-6) }
  else
    { s with
      promptPast0 := if s.shortRest then [] else s.promptPast0
      promptPast1 := if s.shortRest then [] else s.promptPast1
      bestDecoderId := 0
      windows := s.windows + 1
      pc := .attempt 0 }

/-- The cache of an attempt, recreated if there are more decoders than ever before; none if that
fails. -/
def attemptCache (nCur : ℕ) (s : State K F G) : Option (KvCache × ℕ) :=
  if s.kvSelfNDec < nCur then
    if x.kvInitOk then
      some ((s.kvSelf.init (KvCache.ggmlPad ctx.hparams.nTextCtx 256 *
        if 1 < nCur then nCur + 2 else 1)).clear, nCur)
    else none
  else some (s.kvSelf.clear, s.kvSelfNDec)

/-- Attempt `it` starts at temperature `t` with the given prompt and cache. -/
def State.attempted (it : ℕ) (t : F) (prompt : List ℕ) (kv : KvCache × ℕ) (s : State K F G) :
    State K F G :=
  { s with
    tCur := t
    nDecodersCur := nDecodersAt ctx s.params t
    decoders := fun j =>
      if j < nDecodersAt ctx s.params t then
        (s.decoders j).reset s.params.grammarRules s.windows
      else s.decoders j
    prompt := prompt
    kvSelf := kv.1
    kvSelfNDec := kv.2
    batch := batchPrepLegacy prompt 0 0
    pc := .decode (.prompt it) }

/-- The head of the loop over the temperatures. -/
def stepAttempt (it : ℕ) (s : State K F G) : State K F G :=
  match s.temperatures[it]? with
  | none => { s with pc := .emit }
  | some t =>
    match assemblePrompt ctx s.params s.promptPast0 s.promptPast1 s.promptInit t with
    | none => { s with pc := .fault }
    | some prompt =>
      match attemptCache ctx x (nDecodersAt ctx s.params t) s with
      | none => { s with pc := .freed }
      | some kv => s.attempted ctx it t prompt kv

/-- The candidates of beam search, best first. -/
def sortedCandidates (s : State K F G) : List (Candidate K G) :=
  sortCandidates x.tie (allCandidates ctx.vocab s.params x.draw s.nDecodersCur s.decoders)

/-- Sampling, and in beam search the distribution of the candidates. A beam size that is not
positive leaves no candidate to read. -/
def stepSample (it i : ℕ) (s : State K F G) : State K F G :=
  match s.params.strategy with
  | .greedy =>
    { s with
      decoders := fun j =>
        if j < s.nDecodersCur ∧ (s.decoders j).active then
          sampleGreedy ctx s.tCur (x.draw j 0) (s.decoders j)
        else s.decoders j
      pc := .update it i }
  | .beamSearch =>
    if (sortedCandidates ctx x s).isEmpty then { s with pc := .fault }
    else
      { s with
        decoders := (reassign (sortedCandidates ctx x s) i s.nDecodersCur s.decoders s.kvSelf).1
        kvSelf := (reassign (sortedCandidates ctx x s) i s.nDecodersCur s.decoders s.kvSelf).2
        pc := .update it i }

/-- The next batch: the last token of every active decoder. -/
def nextBatch (i : ℕ) (s : State K F G) : List BatchEntry :=
  s.activeDecoders.map fun j =>
    ⟨((s.decoders j).sequence.tokens.getLast?.map TokenData.id).getD 0, s.prompt.length + i, j, true⟩

/-- The update of the active decoders; none where it crashes. -/
def updated (i : ℕ) (s : State K F G) (j : ℕ) : Option (Decoder K G) :=
  if j < s.nDecodersCur ∧ (s.decoders j).active then
    updateDecoder ctx s.params s.seek s.seekEnd i (s.decoders j)
  else some (s.decoders j)

/-- The state with all decoders updated. -/
def State.updateAll (i : ℕ) (s : State K F G) : State K F G :=
  { s with decoders := fun j => (updated ctx i s j).getD (s.decoders j) }

/-- The next batch is prepared. -/
def State.prepareNext (it i : ℕ) (s : State K F G) : State K F G :=
  { s with
    batch := nextBatch i s
    decoders := fun j =>
      if j ∈ s.activeDecoders then { s.decoders j with iBatch := s.activeDecoders.idxOf j }
      else s.decoders j
    pc := .decode (.next it i) }

/-- The update of the decoders, and the next batch unless all are done. -/
def stepUpdate (it i : ℕ) (s : State K F G) : State K F G :=
  if ∃ j < s.nDecodersCur, updated ctx i s j = none then { s with pc := .fault }
  else if (s.updateAll ctx i).activeDecoders = [] then { s.updateAll ctx i with pc := .rank it }
  else (s.updateAll ctx i).prepareNext it i

/-- Whether the attempt is repeated at the next temperature. -/
def fallsBack (it : ℕ) (s : State K F G) : Bool :=
  it + 1 ≠ s.temperatures.length &&
    (s.best.failed || (s.best.sequence.avgLogprobs < s.params.logprobThold &&
      s.noSpeechProb < s.params.noSpeechThold))

/-- The decoders of the attempt are ranked. -/
def State.rankAll (s : State K F G) : State K F G :=
  let decoders := fun j =>
    if j < s.nDecodersCur then (s.decoders j).ranked ctx s.params else s.decoders j
  { s with
    decoders := decoders
    bestDecoderId := bestDecoder decoders s.nDecodersCur s.bestDecoderId }

/-- The ranking, and the decision about a further attempt. -/
def stepRank (it : ℕ) (s : State K F G) : State K F G :=
  if fallsBack it (s.rankAll ctx) then { s.rankAll ctx with pc := .attempt (it + 1) }
  else { s.rankAll ctx with pc := .emit }

/-! ### The output of a window -/

/-- `is_no_speech`. -/
def State.isNoSpeech (s : State K F G) : Bool :=
  s.params.noSpeechThold < s.noSpeechProb && s.best.sequence.avgLogprobs < s.params.logprobThold

/-- The tokens that join the rolling history. -/
def State.newTokens (s : State K F G) : List ℕ :=
  if s.isNoSpeech then [] else (ids s.best.sequence.tokens).take s.best.sequence.resultLen

/-- The segments of the current window. -/
def windowSegments (s : State K F G) : List (Segment K) :=
  if 0 < ctx.nLoaded && !s.isNoSpeech then
    segments ctx s.params s.seek s.best.seekDelta s.noSpeechProb s.best.sequence.tokens
  else []

/-- The tokens that are aligned to the audio. -/
def dtwTokens (s : State K F G) (segs : List (Segment K)) : List ℕ :=
  ctx.vocab.tokenSot ::
    (if ctx.vocab.isMultilingual then
      [ctx.vocab.tokenLang (s.params.language.getD (-1))] else []) ++
    ctx.vocab.tokenNot ::
      (segs.flatMap fun seg => (ids seg.tokens).filter (· < ctx.vocab.tokenEot)) ++
    [ctx.vocab.tokenEot]

/-- The segments and the history of the window are recorded. -/
def State.emitted (s : State K F G) : State K F G :=
  { s with
    promptPast1 := rollHistory ctx s.params s.prompt s.promptInit s.newTokens
    resultAll := s.resultAll ++ windowSegments ctx s
    seekDelta := s.best.seekDelta }

/-- `n_audio_ctx` of the encoder and the decoder. -/
def State.nAudioCtx (s : State K F G) : ℤ :=
  if 0 < s.expNAudioCtx then s.expNAudioCtx else ctx.hparams.nAudioCtx

/-- `n_frames` of the alignment. -/
def State.nFrames (s : State K F G) : ℤ := min (min chunk s.best.seekDelta) (s.seekEnd - s.seek)

/-- An assertion of the alignment about the number of frames fails: they have to fit into the audio
context, and their halves have to be more than the width of the median filter. -/
def wrongFrames (s : State K F G) : Bool :=
  2 * s.nAudioCtx ctx < s.nFrames || s.nFrames.tdiv 2 ≤ 7

/-- The output of a window. The result length of a decoder that was never used is arbitrary. -/
def stepEmit (s : State K F G) : State K F G :=
  if s.best.sequence.tokens.length < s.best.sequence.resultLen then { s with pc := .fault }
  else if ctx.dtwTokenTimestamps && !(windowSegments ctx s).isEmpty then
    if wrongFrames ctx s then { s.emitted ctx with pc := .fault }
    else
      { s.emitted ctx with
        kvSelf := s.kvSelf.clear.seqRm (some 0) 0 (-1)
        batch := batchPrepLegacy (dtwTokens ctx s (windowSegments ctx s)) 0 0
        pc := .decode .dtw }
  else { s.emitted ctx with pc := .advance }

/-- `single_timestamp_ending`. -/
def singleTimestampEnding (p : Params K F G) (tokens : List (TokenData K)) : Bool :=
  1 < tokens.length && !(0 < p.maxTokens && !p.singleSegment && p.maxTokens < tokens.length) &&
    (tokens.dropLast.getLast?.any fun t => t.id < ctx.vocab.tokenBeg) &&
    tokens.getLast?.any fun t => ctx.vocab.tokenBeg < t.id

/-- How far the window moves. -/
def shift (s : State K F G) : ℤ :=
  if singleTimestampEnding ctx s.params s.best.sequence.tokens then
    min (s.seekEnd - s.seek) chunk
  else s.seekDelta

/-- The end of the main loop's body. -/
def stepAdvance (s : State K F G) : State K F G :=
  { s with seekDelta := shift ctx s, seek := s.seek + shift ctx s, pc := .window }

/-- One step of the driver. -/
def step (s : State K F G) : State K F G :=
  match s.pc with
  | .returned _ => stepCall ctx x s
  | .schedule t => stepSchedule ctx t s
  | .decode site => stepDecode ctx x site s
  | .window => stepWindow x s
  | .attempt it => stepAttempt ctx x it s
  | .sample it i => stepSample ctx x it i s
  | .update it i => stepUpdate ctx it i s
  | .rank it => stepRank ctx it s
  | .emit => stepEmit ctx s
  | .advance => stepAdvance ctx s
  | .freed => s
  | .fault => s

end Step

/-- `whisper_init_state`. What the source leaves uninitialised is arbitrary. -/
structure Init (ctx : Context K F G) (s : State K F G) : Prop where
  pc_eq : s.pc = .returned 0
  kvSelf_eq : ∃ c : KvCache, s.kvSelf = c.init (KvCache.ggmlPad ctx.hparams.nTextCtx 256)
  kvSelfNDec_eq : s.kvSelfNDec = 1
  past0_eq : s.promptPast0 = []
  past1_eq : s.promptPast1 = []
  resultAll_eq : s.resultAll = []
  tokens_eq : ∀ j, (s.decoders j).sequence.tokens = []
  window_eq : ∀ j, (s.decoders j).window = 0
  windows_eq : s.windows = 0

/-- The states that the calls on one state can reach. -/
abbrev Reachable (ctx : Context K F G) : State K F G → Prop :=
  Machine.Reachable (step ctx) (Init ctx)

/-- The states reached by steps that are all taken in states satisfying `Q`. -/
abbrev ReachableUnder (ctx : Context K F G) (Q : State K F G → Prop) : State K F G → Prop :=
  Machine.ReachableUnder (step ctx) Q (Init ctx)

end Full

end WhisperCpp
