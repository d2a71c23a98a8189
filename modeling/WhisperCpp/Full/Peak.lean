import WhisperCpp.Full.English

/-!
# Logits with a peak

If one text token has a logit that is much larger than all others, and no rule suppresses it, then
it is sampled at temperature zero: the timestamps together are not more probable.

## Main definitions

* `peak` — the logits

## Main results

* `sampleToken_peak` — the token that is sampled, and its `tid`
-/

namespace WhisperCpp

namespace Full

section Search

variable {K : Type*} [Field K] [LinearOrder K] {probs : ℕ → K} {js l₁ l₂ : List ℕ} {k id : ℕ}

/-- The first index of the largest probability is found. -/
theorem argmaxPos_append_cons (hpos : 0 < probs k) (h₁ : ∀ j ∈ l₁, probs j < probs k)
    (h₂ : ∀ j ∈ l₂, probs j ≤ probs k) (id : ℕ) :
    argmaxPos probs (l₁ ++ k :: l₂) id = (k, probs k) := by
  have hbefore : ∀ (l : List ℕ) (b : ℕ × K), b.2 < probs k → (∀ j ∈ l, probs j < probs k) →
      (l.foldl (fun b i => if b.2 < probs i then (i, probs i) else b) b).2 < probs k := by
    intro l
    induction l with
    | nil => exact fun b hb _ => hb
    | cons j l ih =>
      intro b hb hl
      obtain ⟨hj, hl⟩ := List.forall_mem_cons.mp hl
      rw [List.foldl_cons]
      refine ih _ ?_ hl
      split
      · exact hj
      · exact hb
  have hafter : ∀ l : List ℕ, (∀ j ∈ l, probs j ≤ probs k) →
      l.foldl (fun b i => if b.2 < probs i then (i, probs i) else b) (k, probs k) =
        (k, probs k) := by
    intro l
    induction l with
    | nil => exact fun _ => rfl
    | cons j l ih =>
      intro hl
      obtain ⟨hj, hl⟩ := List.forall_mem_cons.mp hl
      rw [List.foldl_cons, if_neg (not_lt.mpr hj)]
      exact ih hl
  rw [argmaxPos, List.foldl_append, List.foldl_cons, if_pos (hbefore l₁ (id, 0) hpos h₁)]
  exact hafter l₂ h₂

/-- Without a positive probability the search keeps its start. -/
theorem argmaxPos_of_nonpos (h : ∀ j ∈ js, probs j ≤ 0) (id : ℕ) : (argmaxPos probs js id).1 = id := by
  rcases argmaxPos_spec probs js id with ⟨heq, -, -⟩ | ⟨hmem, heq, hpos⟩
  · exact heq
  · exact absurd (h _ hmem) (not_le.mpr (heq ▸ hpos))

omit [Field K] in
theorem le_maxOver {f : ℕ → WithBot K} {lo hi i : ℕ} (h1 : lo ≤ i) (h2 : i < hi) :
    f i ≤ maxOver lo hi f := by
  have hfold : ∀ (l : List ℕ) (m : WithBot K), m ≤ l.foldl (fun m i => max m (f i)) m ∧
      ∀ j ∈ l, f j ≤ l.foldl (fun m i => max m (f i)) m := by
    intro l
    induction l with
    | nil => exact fun m => ⟨le_rfl, nofun⟩
    | cons j l ih =>
      intro m
      obtain ⟨ih1, ih2⟩ := ih (max m (f j))
      exact ⟨(le_max_left _ _).trans ih1,
        List.forall_mem_cons.mpr ⟨(le_max_right _ _).trans ih1, ih2⟩⟩
  exact (hfold _ ⊥).2 i (List.mem_range'_1.mpr ⟨h1, by omega⟩)

omit [Field K] in
theorem maxOver_le {f : ℕ → WithBot K} {lo hi : ℕ} {b : WithBot K}
    (h : ∀ i, lo ≤ i → i < hi → f i ≤ b) : maxOver lo hi f ≤ b := by
  have hfold : ∀ (l : List ℕ) (m : WithBot K), m ≤ b → (∀ j ∈ l, f j ≤ b) →
      l.foldl (fun m i => max m (f i)) m ≤ b := by
    intro l
    induction l with
    | nil => exact fun m hm _ => hm
    | cons j l ih =>
      intro m hm hl
      obtain ⟨hj, hl⟩ := List.forall_mem_cons.mp hl
      exact ih (max m (f j)) (max_le hm hj) hl
  refine hfold _ ⊥ bot_le fun j hj => ?_
  obtain ⟨h1, h2⟩ := List.mem_range'_1.mp hj
  exact h j h1 (by omega)

end Search

/-- The logit of `k` is `2000`, all others are zero. -/
noncomputable def peak (k : ℕ) : ℕ → ℝ := fun i => if i = k then 2000 else 0

/-- The sum of at most `1501` exponentials of differences to the maximum is at most `1501`. -/
theorem sumExp_timestamps_le (v : Vocab) (f : ℕ → WithBot ℝ) :
    sumExp realArith v.tokenBeg v.nVocab f ((maxOver v.tokenBeg v.nVocab f).unbotD 0) ≤ 1501 := by
  have hlen : (List.range' v.tokenBeg (v.nVocab - v.tokenBeg)).length = 1501 := by
    have := v.tokenBeg_add
    rw [List.length_range']
    omega
  rw [sumExp]
  have hle := List.sum_le_card_nsmul ((List.range' v.tokenBeg (v.nVocab - v.tokenBeg)).map fun i =>
    (f i).recBotCoe 0 fun x =>
      realArith.exp (x - (maxOver v.tokenBeg v.nVocab f).unbotD 0)) (1 : ℝ) fun x hx => by
    obtain ⟨i, hi, rfl⟩ := List.mem_map.mp hx
    obtain ⟨h1, h2⟩ := List.mem_range'_1.mp hi
    have hmax := le_maxOver (f := f) h1 (by have := v.tokenBeg_lt_nVocab; omega : i < v.nVocab)
    cases hfi : f i with
    | bot => exact zero_le_one
    | coe y =>
      rw [hfi] at hmax
      obtain ⟨m, hm⟩ := WithBot.ne_bot_iff_exists.mp (ne_bot_of_le_ne_bot (WithBot.coe_ne_bot) hmax)
      rw [← hm] at hmax ⊢
      have hym : y ≤ m := WithBot.coe_le_coe.mp hmax
      exact Real.exp_le_one_iff.mpr (sub_nonpos.mpr hym)
  rw [List.length_map, hlen] at hle
  simpa using hle

/-- The timestamps together are not much more probable than the most probable one. -/
theorem timestampLogprob_le {v : Vocab} {f : ℕ → WithBot ℝ} {b : ℝ}
    (h : ∀ i, v.tokenBeg ≤ i → f i ≤ b) :
    timestampLogprob realArith v f ≤ ((1500 + b : ℝ) : WithBot ℝ) := by
  by_cases hbot : timestampLogprob realArith v f = ⊥
  · exact hbot ▸ bot_le
  · obtain ⟨i, h1, h2, hi⟩ := exists_of_timestampLogprob hbot
    have hmax : maxOver v.tokenBeg v.nVocab f ≤ b := maxOver_le fun j hj _ => h j hj
    obtain ⟨m, hm⟩ := WithBot.ne_bot_iff_exists.mp (ne_bot_of_le_ne_bot hi (le_maxOver h1 h2))
    have hsum := sumExp_timestamps_le v f
    have hmb : m ≤ b := WithBot.coe_le_coe.mp (hm.trans_le hmax)
    unfold timestampLogprob
    simp only
    rw [← hm, WithBot.unbotD_coe] at hsum ⊢
    generalize sumExp realArith v.tokenBeg v.nVocab f m = total at hsum ⊢
    split
    · rename_i hpos
      have hle := Real.log_le_sub_one_of_pos hpos
      refine WithBot.coe_le_coe.mpr ?_
      show Real.log total + m ≤ _
      linarith
    · exact bot_le

/-- The tokens that the rules suppress. -/
noncomputable def off (ctx : Context ℝ ℚ Unit) (p : Params ℝ ℚ Unit) (d : Decoder ℝ Unit) (i : ℕ) : Bool :=
  lateOff ctx.vocab p d i ctx.hparams.nAudioCtx || earlyOff ctx.vocab p d i

section Peak

variable {ctx : Context ℝ ℚ Unit} {p : Params ℝ ℚ Unit} {d : Decoder ℝ Unit} {t : ℚ} {k : ℕ}
  (callback : (ℕ → WithBot ℝ) → ℕ → WithBot ℝ)

/-- What the rules leave of the logits. -/
theorem filterLogits_peak (htemp : ctx.temp.lt ctx.temp.zero t = false)
    (hfilter : p.logitsFilter = false) (i : ℕ) :
    filterLogits ctx p d t (peak k) callback i = if off ctx p d i then ⊥ else ↑(peak k i) := by
  unfold filterLogits suppress off
  simp only [htemp, hfilter, Bool.false_eq_true, if_false, Bool.or_eq_true]
  by_cases hlate : lateOff ctx.vocab p d i ctx.hparams.nAudioCtx = true
  · simp [hlate]
  · simp [hlate]

/-- With a peak at a text token the timestamps are not forced. -/
theorem forceTimestamps_peak (harith : ctx.arith = realArith)
    (htemp : ctx.temp.lt ctx.temp.zero t = false) (hfilter : p.logitsFilter = false)
    (hrules : p.nGrammarRules = 0) (hk : k < ctx.vocab.tokenBeg) (hoff : off ctx p d k = false)
    (c : ℝ) (g : Option Unit) :
    let logits := filterLogits ctx p d t (peak k) callback
    let logprobs := fun i => (logits i).map (· - c)
    forceTimestamps ctx p g logits logprobs = (logits, logprobs) := by
  intro logits logprobs
  have hlog : ∀ i, logprobs i = if off ctx p d i then ⊥ else ↑(peak k i - c) := by
    intro i
    show (filterLogits ctx p d t (peak k) callback i).map (· - c) = _
    rw [filterLogits_peak callback htemp hfilter]
    split <;> rfl
  have hlow : ((2000 - c : ℝ) : WithBot ℝ) ≤ maxOver 0 ctx.vocab.tokenBeg logprobs := by
    refine le_trans (le_of_eq ?_) (le_maxOver (Nat.zero_le k) hk)
    rw [hlog, hoff, if_neg (by decide), peak, if_pos rfl]
  have hhigh : timestampLogprob ctx.arith ctx.vocab logprobs ≤ ((2000 - c : ℝ) : WithBot ℝ) := by
    have hts : ∀ j, ctx.vocab.tokenBeg ≤ j → logprobs j ≤ ((-c : ℝ) : WithBot ℝ) := by
      intro j hj
      rw [hlog, peak, if_neg (by omega : j ≠ k), zero_sub]
      split
      · exact bot_le
      · exact le_rfl
    rw [harith]
    refine (timestampLogprob_le hts).trans (WithBot.coe_le_coe.mpr ?_)
    linarith
  rw [forceTimestamps]
  rw [if_neg (not_lt.mpr (hhigh.trans hlow)), if_neg (by omega)]

/-- The probabilities: that of the peak is the largest, and the others that are left are equal. -/
theorem probs_peak (harith : ctx.arith = realArith)
    (htemp : ctx.temp.lt ctx.temp.zero t = false) (hfilter : p.logitsFilter = false)
    (hrules : p.nGrammarRules = 0) (hk : k < ctx.vocab.tokenBeg) (hoff : off ctx p d k = false) :
    ∃ q r : ℝ, 0 < r ∧ r < q ∧ ∀ i, (processLogits ctx p d t (peak k) callback).probs i =
      if off ctx p d i then 0 else if i = k then q else r := by
  have hlogit := filterLogits_peak (d := d) (k := k) callback htemp hfilter
  obtain ⟨c, hc⟩ : ∃ c : ℝ, computeLogprobs ctx.arith ctx.vocab.nVocab ctx.vocab.nVocab
      (filterLogits ctx p d t (peak k) callback) =
        fun i => (filterLogits ctx p d t (peak k) callback i).map (· - c) := ⟨_, rfl⟩
  refine ⟨Real.exp (2000 - c), Real.exp (0 - c), Real.exp_pos _, Real.exp_lt_exp.mpr (by linarith),
    fun i => ?_⟩
  rw [processLogits]
  simp only
  rw [hc, forceTimestamps_peak callback harith htemp hfilter hrules hk hoff c d.grammar]
  show computeProbs ctx.arith _ _ i = _
  rw [computeProbs]
  simp only
  rw [hlogit, harith]
  split
  · rfl
  · simp only [WithBot.recBotCoe_coe, WithBot.map_coe, WithBot.unbotD_coe, peak]
    split <;> rfl

/-- **The peak is sampled.** The `tid` is the first timestamp if that is not suppressed, and `0` if
all timestamps are. -/
theorem sampleToken_peak (harith : ctx.arith = realArith)
    (htemp : ctx.temp.lt ctx.temp.zero t = false) (hfilter : p.logitsFilter = false)
    (hrules : p.nGrammarRules = 0) (hk : k < ctx.vocab.tokenBeg) (hoff : off ctx p d k = false)
    (draw : ℕ) :
    let token := sampleToken ctx.vocab (processLogits ctx p d t (peak k) callback) true draw
    token.id = k ∧ (off ctx p d ctx.vocab.tokenBeg = false → token.tid = ctx.vocab.tokenBeg) ∧
      ((∀ i, ctx.vocab.tokenBeg ≤ i → off ctx p d i = true) → token.tid = 0) := by
  obtain ⟨q, r, hr, hqr, hprobs⟩ := probs_peak callback harith htemp hfilter hrules hk hoff
  generalize processLogits ctx p d t (peak k) callback = scores at hprobs
  have hbeg := ctx.vocab.tokenBeg_lt_nVocab
  have hle : ∀ i, i ≠ k → scores.probs i ≤ r := by
    intro i hi
    rw [hprobs, if_neg hi]
    split
    · exact hr.le
    · exact le_rfl
  have hkq : scores.probs k = q := by rw [hprobs, hoff, if_neg (by decide), if_pos rfl]
  have hbest : argmaxPos scores.probs (List.range ctx.vocab.nVocab) 0 = (k, scores.probs k) := by
    obtain ⟨l₁, l₂, hsplit, hnot⟩ :=
      List.eq_append_cons_of_mem (List.mem_range.mpr (hk.trans hbeg))
    rw [hsplit]
    refine argmaxPos_append_cons (hkq ▸ hr.trans hqr) (fun j hj => ?_) (fun j _ => ?_) 0
    · rw [hkq]
      exact (hle j fun h => hnot (h ▸ hj)).trans_lt hqr
    · by_cases hjk : j = k
      · rw [hjk]
      · rw [hkq]
        exact (hle j hjk).trans hqr.le
  have htoken : ∀ tid pt ptsum plog, (TokenData.ownTimestamp ctx.vocab
      ⟨k, tid, scores.probs k, plog, pt, ptsum⟩ : TokenData ℝ) =
        ⟨k, tid, scores.probs k, plog, pt, ptsum⟩ := fun tid pt ptsum plog =>
    if_neg (not_le.mpr hk)
  have hstats : (timestampStats ctx.vocab scores.probs 0).1 =
      (argmaxPos scores.probs (List.range' ctx.vocab.tokenBeg
        (ctx.vocab.nVocab - ctx.vocab.tokenBeg)) 0).1 := rfl
  have heq : sampleToken ctx.vocab scores true draw =
      ⟨k, (timestampStats ctx.vocab scores.probs 0).1, scores.probs k,
        if 0 < scores.probs k then scores.logprobs k else 0,
        (timestampStats ctx.vocab scores.probs 0).2.1,
        (timestampStats ctx.vocab scores.probs 0).2.2⟩ := by
    rw [sampleToken]
    simp only [if_true, hbest]
    exact htoken _ _ _ _
  intro token
  refine ⟨by rw [show token = _ from heq], fun hfirst => ?_, fun hall => ?_⟩
  · have hbegr : scores.probs ctx.vocab.tokenBeg = r := by
      rw [hprobs, hfirst, if_neg (by decide), if_neg (by omega)]
    rw [show token = _ from heq]
    show (timestampStats ctx.vocab scores.probs 0).1 = _
    rw [hstats, show ctx.vocab.nVocab - ctx.vocab.tokenBeg =
      (ctx.vocab.nVocab - ctx.vocab.tokenBeg - 1) + 1 by omega, List.range'_succ]
    rw [← List.nil_append (ctx.vocab.tokenBeg :: _),
      argmaxPos_append_cons (hbegr ▸ hr) (fun _ hj => absurd hj List.not_mem_nil) fun j hj => ?_]
    have := (List.mem_range'_1.mp hj).1
    exact hbegr ▸ hle j (by omega)
  · rw [show token = _ from heq]
    show (timestampStats ctx.vocab scores.probs 0).1 = _
    rw [hstats]
    refine argmaxPos_of_nonpos (fun j hj => ?_) 0
    rw [hprobs, hall j (List.mem_range'_1.mp hj).1, if_pos rfl]

end Peak

end Full

end WhisperCpp
