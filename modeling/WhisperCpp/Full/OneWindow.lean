import WhisperCpp.Full.Frame
import WhisperCpp.Full.Peak
import WhisperCpp.KvCache.Slots
import WhisperCpp.Vad.Getters
import Mathlib.Tactic.IntervalCases

/-!
# A call with one window

A call on a fresh state, with logits that have their peak at one token. If that is the end of text,
then the run can be followed to its end: one token is sampled, one segment is stored, and the call
returns.

## Main definitions

* `speaker`, `speakParams`, `speakInput` — the context, the parameters and the environment
* `Spoken` — what is left for the output of the window

## Main results

* `windowSegments_speak` — the stored segment
* `run_speak_emit`, `run_speak` — the run up to the output, and the whole run
-/

namespace WhisperCpp

namespace Full

/-- The English-only model, with or without the alignment of tokens to audio. -/
noncomputable def speaker (dtw : Bool) : Context ℝ ℚ Unit :=
  { english 448 smallTextCtx_le with dtwTokenTimestamps := dtw }

/-- Default parameters at one temperature, for 30 s of audio from `t` on. The texts of special tokens
are kept, and no window is taken for silence. -/
noncomputable def speakParams (noTs blank : Bool) (t : ℤ) : Params ℝ ℚ Unit :=
  { defaultParams .greedy with
    temperatureInc := 0
    printSpecial := true
    noTimestamps := noTs
    suppressBlank := blank
    noSpeechThold := 1
    offsetMs := 10 * t }

/-- The environment: the audio ends with the window, and the model thinks of token `k`. -/
noncomputable def speakInput (noTs blank : Bool) (t : ℤ) (k : ℕ) : Input ℝ ℚ Unit :=
  { calmInput (speakParams noTs blank t) (peak k) with melLenOrg := t + 3000 }

/-- A probability is at most one. -/
theorem computeProbs_le_one (f : ℕ → ℝ) (size n : ℕ) {i : ℕ} (hi : i < n) :
    computeProbs realArith (fun k => ↑(f k))
      (computeLogprobs realArith size n fun k => ↑(f k)) i ≤ 1 := by
  unfold computeLogprobs computeProbs
  simp only [WithBot.recBotCoe_coe, WithBot.map_coe, WithBot.unbotD_coe]
  generalize (maxOver 0 size fun k => ((f k : ℝ) : WithBot ℝ)).unbotD 0 = m
  have hle : Real.exp (f i - m) ≤ sumExp realArith 0 n (fun k => ↑(f k)) m := by
    refine List.single_le_sum (fun x hx => ?_) _ (List.mem_map.mpr
      ⟨i, List.mem_range'_1.mpr ⟨Nat.zero_le i, by omega⟩, rfl⟩)
    obtain ⟨k, -, rfl⟩ := List.mem_map.mp hx
    exact (Real.exp_pos _).le
  have hlog := Real.log_le_log (Real.exp_pos _) hle
  rw [Real.log_exp] at hlog
  refine Real.exp_le_one_iff.mpr ?_
  show f i - (Real.log _ + m) ≤ 0
  linarith

section Run

variable (dtw noTs blank : Bool) (t : ℤ) (k : ℕ)

/-- The state at the main loop. -/
noncomputable def speakWindow : State ℝ ℚ Unit :=
  { freshState (speaker dtw) with
    params := speakParams noTs blank t
    melLenOrg := t + 3000
    seekStart := t
    seekEnd := t + 3000
    temperatures := [0]
    promptInit := promptInit (speaker dtw) (speakParams noTs blank t)
    seek := t
    pc := .window }

theorem ratTemperature_lt_self (q : ℚ) : ratTemperature.lt q q = false := by
  simp [ratTemperature]

theorem stepCall_speak :
    stepCall (speaker dtw) (speakInput noTs blank t k) (freshState (speaker dtw)) =
      speakWindow dtw noTs blank t := by
  have hoffset : (10 * t).tdiv 10 = t := Int.mul_tdiv_cancel_left t (by decide)
  rw [show stepCall (speaker dtw) (speakInput noTs blank t k) (freshState (speaker dtw)) =
    beginCall (speaker dtw) ((freshState (speaker dtw)).called (speakInput noTs blank t k)) from rfl]
  have hranged : ((freshState (speaker dtw)).called (speakInput noTs blank t k)).ranged =
      { (freshState (speaker dtw)).called (speakInput noTs blank t k) with
        seekStart := t, seekEnd := t + 3000 } := by
    rw [State.ranged]
    congr 1
  rw [beginCall]
  rw [hranged, if_neg (by show ¬ t + 3000 < t + 10; omega)]
  rw [show (speaker dtw).temp.lt (speaker dtw).temp.zero
    ((freshState (speaker dtw)).called (speakInput noTs blank t k)).params.temperatureInc = false from
      ratTemperature_lt_self 0, if_neg (by decide)]
  rfl

/-- The state at the first attempt. -/
noncomputable def speakAttempt : State ℝ ℚ Unit :=
  { speakWindow dtw noTs blank t with windows := 1, pc := .attempt 0 }

theorem stepWindow_speak :
    stepWindow (speakInput noTs blank t k) (speakWindow dtw noTs blank t) =
      speakAttempt dtw noTs blank t := by
  have hshort : (speakWindow dtw noTs blank t).shortRest = false := by
    show (decide (t < t) && decide (t + 3000 ≤ t + 500)) = false
    simp
  rw [stepWindow]
  rw [if_neg (by show ¬ t + 3000 ≤ t + 10; omega), if_neg (by rintro ⟨⟩), if_neg (by rintro ⟨⟩), hshort]
  rfl

/-- The state at the decode of the prompt. -/
noncomputable def speakPrompt : State ℝ ℚ Unit :=
  (speakAttempt dtw noTs blank t).attempted (speaker dtw) 0 0
    (promptInit (speaker dtw) (speakParams noTs blank t))
    ((freshState (speaker dtw)).kvSelf.clear, 1)

theorem stepAttempt_speak :
    stepAttempt (speaker dtw) (speakInput noTs blank t k) 0 (speakAttempt dtw noTs blank t) =
      speakPrompt dtw noTs blank t := by
  have hprompt : assemblePrompt (speaker dtw) (speakParams noTs blank t) [] []
      (promptInit (speaker dtw) (speakParams noTs blank t)) 0 =
        some (promptInit (speaker dtw) (speakParams noTs blank t)) := by
    rw [assemblePrompt]
    rw [if_neg (by simp [takesHistory, canTake0, speakParams, defaultParams])]
  have hn : nDecodersAt (speaker dtw) (speakParams noTs blank t) 0 = 1 := by
    show (max 1 (if ratTemperature.lt 0 0 then _ else (1 : ℤ))).toNat = 1
    rw [ratTemperature_lt_self]
    rfl
  have hcache : attemptCache (speaker dtw) (speakInput noTs blank t k)
      (nDecodersAt (speaker dtw) (speakParams noTs blank t) 0) (speakAttempt dtw noTs blank t) =
        some ((freshState (speaker dtw)).kvSelf.clear, 1) := by
    rw [hn]
    rfl
  rw [stepAttempt]
  rw [show (speakAttempt dtw noTs blank t).temperatures[0]? = some 0 from rfl]
  simp only
  rw [show assemblePrompt (speaker dtw) (speakAttempt dtw noTs blank t).params
    (speakAttempt dtw noTs blank t).promptPast0 (speakAttempt dtw noTs blank t).promptPast1
    (speakAttempt dtw noTs blank t).promptInit 0 = _ from hprompt]
  simp only
  rw [show attemptCache (speaker dtw) (speakInput noTs blank t k) (nDecodersAt (speaker dtw)
    (speakAttempt dtw noTs blank t).params 0) (speakAttempt dtw noTs blank t) = _ from hcache]
  rfl

/-- The prompt finds its slot in the empty cache. -/
theorem reserve_speak :
    ((speakPrompt dtw noTs blank t).kvSelf.reserve (speaker dtw).kvPad
      (speakPrompt dtw noTs blank t).batch).2 = true := by
  rw [KvCache.reserve_snd]
  refine KvCache.findSlot_clear ?_
  have hlen := length_promptInit_le (speaker dtw) (speakParams noTs blank t)
  have hbatch : (speakPrompt dtw noTs blank t).batch.length =
      (promptInit (speaker dtw) (speakParams noTs blank t)).length := by
    show (batchPrepLegacy _ 0 0).length = _
    simp [batchPrepLegacy]
  have hsize : (freshState (speaker dtw)).kvSelf.size = 512 := by
    show KvCache.ggmlPad 448 256 = 512
    decide
  omega

/-- The logits of the last token of the prompt are those of the model. -/
theorem row_speak (hk : k < 51864) :
    ((speakPrompt dtw noTs blank t).computed (speaker dtw) (speakInput noTs blank t k)).row
      (speaker dtw) ((speakPrompt dtw noTs blank t).prompt.length - 1) = peak k := by
  funext i
  have hlogits : ∀ k', readLogits (speaker dtw) (speakInput noTs blank t k)
      (speakPrompt dtw noTs blank t) k' =
        if ((speakPrompt dtw noTs blank t).batch[k' / 51864]?).any BatchEntry.logits then
          peak k (k' % 51864) else 0 := by
    intro k'
    show (if _ then _ else if k' < 0 then _ else (0 : ℝ)) = _
    rw [if_neg (Nat.not_lt_zero k')]
    rfl
  have hbatch : ∀ b, (((speakPrompt dtw noTs blank t).batch[b]?).any BatchEntry.logits) =
      decide (b = (speakPrompt dtw noTs blank t).prompt.length - 1) := by
    intro b
    cases noTs with
    | false => rcases b with _ | b <;> rfl
    | true => rcases b with _ | _ | b <;> rfl
  show readLogits _ _ _ (_ * 51864 + i) = _
  rw [hlogits, hbatch]
  by_cases hi : i < 51864
  · rw [if_pos (by rw [decide_eq_true_eq]; omega), Nat.mul_add_mod_self_right, Nat.mod_eq_of_lt hi]
  · rw [if_neg (by rw [decide_eq_true_eq]; omega), peak, if_neg (by omega)]

/-- The state before the first token is sampled. -/
noncomputable def speakSample : State ℝ ℚ Unit :=
  decodedPrompt (speaker dtw) (speakInput noTs blank t k) 0
    ((speakPrompt dtw noTs blank t).computed (speaker dtw) (speakInput noTs blank t k))

theorem stepDecode_speak :
    stepDecode (speaker dtw) (speakInput noTs blank t k) (.prompt 0) (speakPrompt dtw noTs blank t) =
      speakSample dtw noTs blank t k := by
  rw [stepDecode]
  rw [reserve_speak]
  rfl

theorem pc_speakSample : (speakSample dtw noTs blank t k).pc = .sample 0 0 := by
  cases dtw <;> rfl

/-- The decoder before it samples. -/
theorem decoder_speakSample (hk : k < 51864) : ∃ d : Decoder ℝ Unit,
    (speakSample dtw noTs blank t k).decoders 0 =
      { d with scores := processLogits (speaker dtw) (speakParams noTs blank t) d 0 (peak k) id } ∧
      d.sequence.tokens = [] ∧ d.sequence.resultLen = 0 ∧ d.grammar = none ∧ d.seekDelta = 3000 ∧
      d.failed = false ∧ d.completed = false ∧ d.hasTs = false := by
  refine ⟨{ (speakPrompt dtw noTs blank t).decoders 0 with
    iBatch := (speakPrompt dtw noTs blank t).prompt.length - 1 }, ?_, rfl, rfl, rfl, rfl, rfl, rfl,
    rfl⟩
  rw [← row_speak dtw noTs blank t k hk]
  rfl

/-- Up to the first timestamp, no token is suppressed by the later rules at the first step. -/
theorem lateOff_speak {d : Decoder ℝ Unit} {i : ℕ} (htok : d.sequence.tokens = [])
    (hts : d.hasTs = false) (hi : i ≤ 50363) :
    lateOff (speaker dtw).vocab (speakParams noTs blank t) d i 1500 = false := by
  have hbeg : (speaker dtw).vocab.tokenBeg = 50363 := rfl
  have hlast : lastWasTimestamp (speaker dtw).vocab d = false := by
    rw [lastWasTimestamp, htok]
    rfl
  have hinitial : initialOff (speaker dtw).vocab (speakParams noTs blank t) d i 1500 = false := by
    have hfloor : 0 ≤ ⌊(speakParams noTs blank t).maxInitialTs / (30 / (1500 : ℕ)) + 1 / 2⌋ := by
      refine Int.floor_nonneg.mpr ?_
      show (0 : ℝ) ≤ 1 / (30 / (1500 : ℕ)) + 1 / 2
      norm_num
    rw [initialOff, hbeg, Bool.and_eq_false_iff, decide_eq_false_iff_not]
    exact .inr (by omega)
  rw [lateOff, pairOff, hlast, hinitial, backOff, hts]
  rfl

theorem off_beg_speak {d : Decoder ℝ Unit} (htok : d.sequence.tokens = []) (hts : d.hasTs = false) :
    off (speaker dtw) (speakParams false blank t) d 50363 = false := by
  have hearly : earlyOff (speaker dtw).vocab (speakParams false blank t) d 50363 = false := by
    have hblank : blankOff (speaker dtw).vocab (speakParams false blank t) d 50363 = false := by
      rw [blankOff, Bool.and_eq_false_iff]
      exact .inr rfl
    rw [earlyOff, hblank]
    rfl
  rw [off, hearly]
  exact (Bool.or_false _).trans (lateOff_speak dtw false blank t htok hts le_rfl)

/-- The state after the first token was sampled. -/
noncomputable def speakUpdate : State ℝ ℚ Unit :=
  stepSample (speaker dtw) (speakInput noTs blank t k) 0 0 (speakSample dtw noTs blank t k)

theorem nDecodersCur_speakUpdate : (speakUpdate dtw noTs blank t k).nDecodersCur = 1 :=
  rfl

/-- **The token that is sampled**, if no rule suppresses it. -/
theorem tokens_speakUpdate (hk : k < 50363)
    (hoff : ∀ d : Decoder ℝ Unit, d.sequence.tokens = [] → d.hasTs = false →
      off (speaker dtw) (speakParams noTs blank t) d k = false) :
    ∃ (d : Decoder ℝ Unit) (token : TokenData ℝ),
      (speakUpdate dtw noTs blank t k).decoders 0 = { d with sequence := d.sequence.push token } ∧
      token.id = k ∧ token.tid = (if noTs then 0 else 50363) ∧
      d.sequence.tokens = [] ∧ d.sequence.resultLen = 0 ∧ d.grammar = none ∧ d.seekDelta = 3000 ∧
      d.failed = false ∧ d.completed = false ∧ d.hasTs = false := by
  obtain ⟨d, hd, htok, hlen, hg, hdelta, hf, hc, hts⟩ :=
    decoder_speakSample dtw noTs blank t k (by omega)
  have htemp : (speaker dtw).temp.lt (speaker dtw).temp.zero 0 = false := ratTemperature_lt_self 0
  have hbest : (speaker dtw).temp.lt 0 (speaker dtw).temp.eps = true := by
    show ratTemperature.lt 0 ratTemperature.eps = true
    norm_num [ratTemperature]
  obtain ⟨hid, hbeg, hnone⟩ := sampleToken_peak id rfl htemp rfl rfl
    (show k < (speaker dtw).vocab.tokenBeg from hk) (hoff d htok hts) 0
  have hsample : (speakUpdate dtw noTs blank t k).decoders 0 =
      sampleGreedy (speaker dtw) 0 0 ((speakSample dtw noTs blank t k).decoders 0) := by
    have hactive : ((speakSample dtw noTs blank t k).decoders 0).active = true := by
      rw [hd, Decoder.active, hc, hf]
      rfl
    show (if 0 < 1 ∧ ((speakSample dtw noTs blank t k).decoders 0).active then
      sampleGreedy (speaker dtw) 0 0 ((speakSample dtw noTs blank t k).decoders 0)
      else (speakSample dtw noTs blank t k).decoders 0) = _
    rw [if_pos ⟨Nat.one_pos, hactive⟩]
  refine ⟨(speakSample dtw noTs blank t k).decoders 0, _, ?_, hid, ?_, hd ▸ htok, hd ▸ hlen,
    hd ▸ hg, hd ▸ hdelta, hd ▸ hf, hd ▸ hc, hd ▸ hts⟩
  · rw [hsample, sampleGreedy, hbest, hd]
  · cases noTs with
    | false => exact hbeg (off_beg_speak dtw blank t htok hts)
    | true =>
      refine hnone fun i hi => ?_
      have hts : timestampsOff (speaker dtw).vocab (speakParams true blank t) i = true :=
        decide_eq_true hi
      simp [off, earlyOff, hts]

/-- The end of text is not suppressed, if the blank rule is off. -/
theorem off_eot_speak {d : Decoder ℝ Unit} (htok : d.sequence.tokens = []) (hts : d.hasTs = false) :
    off (speaker dtw) (speakParams noTs false t) d 50256 = false := by
  have hearly : earlyOff (speaker dtw).vocab (speakParams noTs false t) d 50256 = false := by
    cases noTs <;> rfl
  rw [off, hearly]
  exact (Bool.or_false _).trans (lateOff_speak dtw noTs false t htok hts (by decide))

/-- A decoder that has only sampled the end of text is complete, with the whole window. -/
theorem updateDecoder_speak {d : Decoder ℝ Unit} {token : TokenData ℝ}
    (htok : d.sequence.tokens = [token]) (hid : token.id = 50256)
    (hlen : d.sequence.resultLen = 0) (hg : d.grammar = none) (hdelta : d.seekDelta = 3000)
    (hf : d.failed = false) :
    ∃ d', updateDecoder (speaker dtw) (speakParams noTs blank t) t (t + 3000) 0 d = some d' ∧
      d'.sequence.tokens = [token] ∧ d'.sequence.resultLen = 1 ∧ d'.seekDelta = 3000 ∧
      d'.failed = false ∧ d'.completed = true := by
  have htext : ¬ (speaker dtw).vocab.tokenBeg < token.id := by
    rw [hid]
    show ¬ 50363 < 50256
    decide
  have hback : goesBack (speaker dtw) 0 d token = false := by
    rw [goesBack, decide_eq_false htext]
    rfl
  have hslide : d.slide (speaker dtw) 0 token = d := if_neg htext
  have haccept : d.acceptToken (speaker dtw) token.id = some d := by
    rw [Decoder.acceptToken, hg]
  have hends : endsSegment (speaker dtw) (speakParams noTs blank t) t (t + 3000) 0 d token.id =
      true := by
    rw [endsSegment, hid]
    rfl
  have haudio : endOfAudio t (t + 3000) d = true := by
    rw [endOfAudio, hdelta, decide_eq_true_eq]
    rw [deltaMin]
    omega
  refine ⟨_, by
    rw [updateDecoder]
    rw [htok]
    simp only [List.getLast?_singleton]
    rw [hback, if_neg (by decide), hslide, haccept, Option.map_some], ?_⟩
  have hwanted : (decide (d.sequence.resultLen = 0) && !(speakParams noTs blank t).noTimestamps) =
      !noTs := by
    rw [hlen]
    rfl
  rw [Decoder.conclude, if_pos hends, hwanted]
  cases noTs with
  | false =>
    rw [if_pos (by decide), if_pos haudio]
    exact ⟨htok, rfl, hdelta, hf, rfl⟩
  | true =>
    rw [if_neg (by decide)]
    exact ⟨htok, rfl, rfl, hf, rfl⟩

/-- The state after the update. -/
noncomputable def speakRank : State ℝ ℚ Unit :=
  stepUpdate (speaker dtw) 0 0 (speakUpdate dtw noTs blank t k)

/-- The state after the ranking. -/
noncomputable def speakEmit : State ℝ ℚ Unit :=
  stepRank (speaker dtw) 0 (speakRank dtw noTs blank t k)

theorem speakRank_eq :
    (speakRank dtw noTs false t 50256) =
      { (speakUpdate dtw noTs false t 50256).updateAll (speaker dtw) 0 with pc := .rank 0 } ∧
    ∃ token : TokenData ℝ, token.id = 50256 ∧ token.tid = (if noTs then 0 else 50363) ∧
      ((speakRank dtw noTs false t 50256).decoders 0).sequence.tokens = [token] ∧
      ((speakRank dtw noTs false t 50256).decoders 0).sequence.resultLen = 1 ∧
      ((speakRank dtw noTs false t 50256).decoders 0).seekDelta = 3000 ∧
      ((speakRank dtw noTs false t 50256).decoders 0).failed = false := by
  obtain ⟨d, token, hd, hid, htid, htok, hlen, hg, hdelta, hf, hc, hts⟩ :=
    tokens_speakUpdate dtw noTs false t 50256 (by decide) fun d h1 h2 => off_eot_speak dtw noTs t h1 h2
  obtain ⟨d', hd', htok', hlen', hdelta', hf', hc'⟩ := updateDecoder_speak dtw noTs false t
    (d := { d with sequence := d.sequence.push token })
    (by rw [Sequence.tokens_push, htok]; rfl) hid hlen hg hdelta hf
  have hactive : ((speakUpdate dtw noTs false t 50256).decoders 0).active = true := by
    rw [hd, Decoder.active, hc, hf]
    rfl
  have hupdated : updated (speaker dtw) 0 (speakUpdate dtw noTs false t 50256) 0 = some d' := by
    rw [updated, if_pos ⟨Nat.one_pos, hactive⟩, hd]
    exact hd'
  have hall : ((speakUpdate dtw noTs false t 50256).updateAll (speaker dtw) 0).decoders 0 = d' := by
    show (updated (speaker dtw) 0 (speakUpdate dtw noTs false t 50256) 0).getD _ = d'
    rw [hupdated, Option.getD_some]
  have hcrash : ¬ ∃ j < (speakUpdate dtw noTs false t 50256).nDecodersCur,
      updated (speaker dtw) 0 (speakUpdate dtw noTs false t 50256) j = none := by
    rintro ⟨j, hj, hnone⟩
    obtain rfl : j = 0 := Nat.lt_one_iff.mp hj
    rw [hupdated] at hnone
    cases hnone
  have hidle : ((speakUpdate dtw noTs false t 50256).updateAll (speaker dtw) 0).activeDecoders = [] := by
    refine List.filter_eq_nil_iff.mpr fun j hj => ?_
    obtain rfl : j = 0 := Nat.lt_one_iff.mp (List.mem_range.mp hj)
    rw [hall, Decoder.active, hc']
    rintro ⟨⟩
  have heq : speakRank dtw noTs false t 50256 =
      { (speakUpdate dtw noTs false t 50256).updateAll (speaker dtw) 0 with pc := .rank 0 } := by
    unfold speakRank stepUpdate
    rw [if_neg hcrash, if_pos hidle]
  refine ⟨heq, token, hid, htid, ?_⟩
  rw [heq]
  simp only
  rw [hall]
  exact ⟨htok', hlen', hdelta', hf'⟩

/-- What the run leaves for the output of its window. -/
structure Spoken (dtw noTs : Bool) (t : ℤ) (s : State ℝ ℚ Unit) : Prop where
  pc_eq : s.pc = .emit
  params_eq : s.params = speakParams noTs false t
  seek_eq : s.seek = t
  seekEnd_eq : s.seekEnd = t + 3000
  resultAll_eq : s.resultAll = []
  expNAudioCtx_eq : s.expNAudioCtx = 0
  tokens_eq : ∃ token : TokenData ℝ, token.id = 50256 ∧ token.tid = (if noTs then 0 else 50363) ∧
    s.best.sequence.tokens = [token]
  resultLen_eq : s.best.sequence.resultLen = 1
  seekDelta_eq : s.best.seekDelta = 3000
  noSpeechProb_le : s.noSpeechProb ≤ 1
  size_eq : s.kvSelf.size = 512

theorem best_withPc (s : State ℝ ℚ Unit) (pc : Pc ℚ) : { s with pc := pc }.best = s.best :=
  rfl

theorem decoders_rankAll {ctx : Context ℝ ℚ Unit} (s : State ℝ ℚ Unit) {j : ℕ}
    (hj : j < s.nDecodersCur) :
    (s.rankAll ctx).decoders j = (s.decoders j).ranked ctx s.params :=
  if_pos hj

theorem spoken_speakEmit : Spoken dtw noTs t (speakEmit dtw noTs false t 50256) := by
  obtain ⟨heq, token, hid, htid, htok, hlen, hdelta, hf⟩ := speakRank_eq dtw noTs t
  have hrank : (((speakRank dtw noTs false t 50256).rankAll (speaker dtw)).decoders 0) =
      ((speakRank dtw noTs false t 50256).decoders 0).ranked (speaker dtw)
        (speakRank dtw noTs false t 50256).params := by
    have hn : (speakRank dtw noTs false t 50256).nDecodersCur = 1 := by
      rw [heq]
      exact nDecodersCur_speakUpdate dtw noTs false t 50256
    refine decoders_rankAll _ ?_
    rw [hn]
    exact Nat.one_pos
  have hbest : ((speakRank dtw noTs false t 50256).rankAll (speaker dtw)).bestDecoderId = 0 := by
    have hcases : ((speakRank dtw noTs false t 50256).rankAll (speaker dtw)).bestDecoderId = 0 ∨
        ((speakRank dtw noTs false t 50256).rankAll (speaker dtw)).bestDecoderId < 1 := by
      rw [heq]
      exact bestDecoder_cases _ 1 0
    omega
  have hback : fallsBack 0 ((speakRank dtw noTs false t 50256).rankAll (speaker dtw)) = false := by
    rw [heq]
    rfl
  have hemit : speakEmit dtw noTs false t 50256 =
      { (speakRank dtw noTs false t 50256).rankAll (speaker dtw) with pc := .emit } := by
    unfold speakEmit stepRank
    rw [hback, if_neg (by decide)]
  have hdecoder : (speakEmit dtw noTs false t 50256).best =
      ((speakRank dtw noTs false t 50256).decoders 0).ranked (speaker dtw)
        (speakRank dtw noTs false t 50256).params := by
    rw [← hrank, hemit, best_withPc, State.best, hbest]
  obtain ⟨h1, -, h3, h4⟩ := Decoder.ranked_eq (speaker dtw) (speakRank dtw noTs false t 50256).params
    ((speakRank dtw noTs false t 50256).decoders 0)
  rw [← hdecoder] at h1 h3 h4
  have htoks : (speakEmit dtw noTs false t 50256).best.sequence.tokens = [token] := by
    rcases h4 with h4 | h4
    · rw [h4, htok]
    · rw [h4, Sequence.truncate, hlen, htok]
      rfl
  refine ⟨?_, ?_, ?_, ?_, ?_, ?_, ⟨token, hid, htid, htoks⟩, h3.trans hlen, h1.trans hdelta, ?_,
    ?_⟩
  · rw [hemit]
  · rw [hemit, heq]
    rfl
  · rw [hemit, heq]
    rfl
  · rw [hemit, heq]
    rfl
  · rw [hemit, heq]
    rfl
  · rw [hemit, heq]
    rfl
  · rw [hemit, heq]
    exact computeProbs_le_one _ _ _ (by decide : (50361 : ℕ) < 51864)
  · rw [hemit, heq]
    show ((speakPrompt dtw noTs false t).kvSelf.reserve (speaker dtw).kvPad
      (speakPrompt dtw noTs false t).batch).1.size = 512
    rw [KvCache.size_reserve]
    show KvCache.ggmlPad 448 256 = 512
    decide

/-- The segments of the window: one, with the text of the end of text. -/
theorem windowSegments_speak {s : State ℝ ℚ Unit} (h : Spoken dtw noTs t s) :
    ∃ seg : Segment ℝ, windowSegments (speaker dtw) s = [seg] ∧
      seg.times = ⟨t + 2 * ((if noTs then 0 else 50363) - 50363), t + 3000⟩ ∧
      seg.tokens = s.best.sequence.tokens := by
  obtain ⟨token, hid, htid, htok⟩ := h.tokens_eq
  have hspeech : s.isNoSpeech = false := by
    have hle : ¬ (speakParams noTs false t).noSpeechThold < s.noSpeechProb :=
      not_lt.mpr h.noSpeechProb_le
    rw [State.isNoSpeech, h.params_eq, decide_eq_false hle]
    rfl
  refine ⟨⟨stamp (speaker dtw).vocab t token, t + 3000, "[_special_]", s.noSpeechProb, [token],
    false⟩, ?_, ?_, htok.symm⟩
  · have hloop : segments (speaker dtw) (speakParams noTs false t) t 3000 s.noSpeechProb [token] =
        [⟨stamp (speaker dtw).vocab t token, t + 3000, "[_special_]", s.noSpeechProb, [token],
          false⟩] := by
      unfold segments segmentLoop segmentLoop
      simp only [hid]
      rfl
    rw [windowSegments, hspeech, h.params_eq, h.seek_eq, h.seekDelta_eq, htok]
    exact hloop
  · rw [Segment.times, stamp, htid]
    cases noTs <;> rfl

section Output

variable {noTs : Bool} {t : ℤ} {s : State ℝ ℚ Unit}

theorem stepEmit_speak (h : Spoken false noTs t s) :
    stepEmit (speaker false) s = { s.emitted (speaker false) with pc := .advance } := by
  obtain ⟨token, -, -, htok⟩ := h.tokens_eq
  rw [stepEmit]
  rw [h.resultLen_eq, htok, List.length_singleton, if_neg (lt_irrefl 1), if_neg (by rintro ⟨⟩)]

theorem stepAdvance_speak (h : Spoken false noTs t s) :
    stepAdvance (speaker false) { s.emitted (speaker false) with pc := .advance } =
      { s.emitted (speaker false) with seekDelta := 3000, seek := t + 3000, pc := .window } := by
  obtain ⟨token, -, -, htok⟩ := h.tokens_eq
  have hshift : shift (speaker false) { s.emitted (speaker false) with pc := .advance } = 3000 := by
    rw [shift, singleTimestampEnding]
    rw [show ({ s.emitted (speaker false) with pc := Pc.advance } : State ℝ ℚ Unit).best = s.best
      from rfl, htok]
    exact h.seekDelta_eq
  have hseek : ({ s.emitted (speaker false) with pc := Pc.advance } : State ℝ ℚ Unit).seek = t :=
    h.seek_eq
  rw [stepAdvance]
  rw [hshift, hseek]

theorem stepWindow_speak_last (h : Spoken false noTs t s) (x : Input ℝ ℚ Unit) :
    stepWindow x { s.emitted (speaker false) with seekDelta := 3000, seek := t + 3000, pc := .window } =
      { s.emitted (speaker false) with seekDelta := 3000, seek := t + 3000, pc := .returned 0 } := by
  have hend := h.seekEnd_eq
  refine if_pos ?_
  show s.seekEnd ≤ t + 3000 + 10
  omega

end Output

/-- **The run up to the output.** -/
theorem run_speak_emit :
    let states := fun n => Machine.run (step (speaker dtw)) (fun _ => speakInput noTs false t 50256)
      (stepCall (speaker dtw) (speakInput noTs false t 50256) (freshState (speaker dtw))) n
    states 6 = speakEmit dtw noTs false t 50256 ∧ ∀ n < 6, (states n).pc.BeforeOutput := by
  intro states
  have h0 : states 0 = speakWindow dtw noTs false t := stepCall_speak dtw noTs false t 50256
  have h1 : states 1 = speakAttempt dtw noTs false t := by
    show step _ _ (states 0) = _
    rw [h0]
    exact stepWindow_speak dtw noTs false t 50256
  have h2 : states 2 = speakPrompt dtw noTs false t := by
    show step _ _ (states 1) = _
    rw [h1]
    exact stepAttempt_speak dtw noTs false t 50256
  have h3 : states 3 = speakSample dtw noTs false t 50256 := by
    show step _ _ (states 2) = _
    rw [h2]
    exact stepDecode_speak dtw noTs false t 50256
  have h4 : states 4 = speakUpdate dtw noTs false t 50256 := by
    show step _ _ (states 3) = _
    rw [h3, step, pc_speakSample]
    rfl
  have h5 : states 5 = speakRank dtw noTs false t 50256 := by
    show step _ _ (states 4) = _
    rw [h4]
    rfl
  have hpc5 : (speakRank dtw noTs false t 50256).pc = .rank 0 := by
    rw [(speakRank_eq dtw noTs t).1]
  have h6 : states 6 = speakEmit dtw noTs false t 50256 := by
    show step _ _ (states 5) = _
    rw [h5, step, hpc5]
    rfl
  refine ⟨h6, fun n hn => ?_⟩
  interval_cases n
  · rw [h0]; exact .window
  · rw [h1]; exact .attempt 0
  · rw [h2]; exact .prompt 0
  · rw [h3, pc_speakSample]; exact .sample 0 0
  · rw [h4]; exact .update 0 0
  · rw [h5, hpc5]; exact .rank 0

/-- **The whole run**: ten steps, of which only the last one returns. -/
theorem run_speak :
    let states := fun n => Machine.run (step (speaker false)) (fun _ => speakInput noTs false t 50256)
      (stepCall (speaker false) (speakInput noTs false t 50256) (freshState (speaker false))) n
    ∃ s, Spoken false noTs t s ∧ states 9 =
      { s.emitted (speaker false) with seekDelta := 3000, seek := t + 3000, pc := .returned 0 } ∧
    ∀ n < 9, ∀ code, (states n).pc ≠ .returned code := by
  intro states
  obtain ⟨h6, hbody⟩ := run_speak_emit false noTs t
  have hemit := spoken_speakEmit false noTs t
  change states 6 = _ at h6
  generalize speakEmit false noTs false t 50256 = s at h6 hemit
  have h7 : states 7 = { s.emitted (speaker false) with pc := .advance } := by
    show step _ _ (states 6) = _
    rw [h6, step, hemit.pc_eq]
    exact stepEmit_speak hemit
  have h8 : states 8 = { s.emitted (speaker false) with
      seekDelta := 3000, seek := t + 3000, pc := .window } := by
    show step _ _ (states 7) = _
    rw [h7]
    exact stepAdvance_speak hemit
  have h9 : states 9 = { s.emitted (speaker false) with
      seekDelta := 3000, seek := t + 3000, pc := .returned 0 } := by
    show step _ _ (states 8) = _
    rw [h8]
    exact stepWindow_speak_last hemit _
  refine ⟨s, hemit, h9, fun n hn code hcode => ?_⟩
  by_cases hn6 : n < 6
  · have hpc : (states n).pc.BeforeOutput := hbody n hn6
    rw [hcode] at hpc
    cases hpc
  · interval_cases n
    · rw [h6, hemit.pc_eq] at hcode; cases hcode
    · rw [h7] at hcode; cases hcode
    · rw [h8] at hcode; cases hcode

end Run

end Full

end WhisperCpp
