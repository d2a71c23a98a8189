import WhisperCpp.Full.Built
import WhisperCpp.Full.OneWindow
import WhisperCpp.Library.Literals

/-!
# What the suppression rules promise

With timestamps, and without a filter callback, a grammar and turn detection, the rules shape the
sequence of every decoder: no control tokens, timestamps in order and in pairs, an initial timestamp
below its limit. They never suppress every token, unless `suppress_regex` matches the texts of the
end of text or of the first timestamp.

## Main definitions

* `Ruled` — the shape of a sequence
* `Sampling` — sequences have it, and every distribution leaves a token

## Main results

* `Built.ruled` — what the decoders build has the shape
* `sampling_of_reachable` — in every reachable state
-/

namespace WhisperCpp

namespace Full

attribute [local instance] Literals.atLeastTwo_two Literals.atLeastTwo_thirty

/-- The tokens that are no output. -/
def Vocab.controlTokens (v : Vocab) : List ℕ :=
  [v.tokenSot, v.tokenTranslate, v.tokenTranscribe, v.tokenSolm, v.tokenPrev, v.tokenNosp,
    v.tokenNot] ++
    (List.range nLang).map fun l : ℕ => v.tokenLang l

theorem Vocab.mem_controlTokens (v : Vocab) {id : ℕ} (h1 : v.tokenEot < id) (h2 : id < v.tokenBeg) :
    id ∈ v.controlTokens := by
  rw [Vocab.controlTokens, List.mem_append]
  by_cases hlang : ∃ l < nLang, id = v.tokenLang l
  · obtain ⟨l, hl, rfl⟩ := hlang
    exact .inr (List.mem_map.mpr ⟨l, List.mem_range.mpr hl, rfl⟩)
  · have hspecial := v.special_of_lt h1 h2
    simp only [hlang, or_false] at hspecial
    simpa using .inl hspecial

variable {K F G : Type*} [Field K] [LinearOrder K]

/-- The last timestamp that is not above `max_initial_ts`. -/
def initialCap [FloorRing K] (ctx : Context K F G) (p : Params K F G) : ℤ :=
  ctx.vocab.tokenBeg + ⌊p.maxInitialTs / (30 / ctx.hparams.nAudioCtx) + 1 / 2⌋

/-- The shape of a sequence. -/
structure Ruled (v : Vocab) (tokens : List ℕ) : Prop where
  no_control : ∀ id ∈ tokens, id ∉ v.controlTokens
  monotone : (tokens.filter (v.tokenBeg ≤ ·)).Pairwise (· ≤ ·)
  no_three : ∀ a b c, [a, b, c] <:+: tokens → v.tokenBeg ≤ a → v.tokenBeg ≤ b → c < v.tokenBeg
  /-- A timestamp after text is followed by a timestamp or the end of text. -/
  closed : ∀ a b c, [a, b, c] <:+: tokens → a < v.tokenBeg → v.tokenBeg ≤ b →
    v.tokenBeg ≤ c ∨ c = v.tokenEot

/-- With a limit, the first token is a timestamp within it. -/
def StartsWithTimestamp [FloorRing K] (ctx : Context K F G) (p : Params K F G)
    (tokens : List ℕ) : Prop :=
  0 < p.maxInitialTs → ∀ id, tokens.head? = some id →
    ctx.vocab.tokenBeg ≤ id ∧ (id : ℤ) ≤ initialCap ctx p

/-- With a limit, the first token is within it if it is a timestamp. -/
def StartsWithinCap [FloorRing K] (ctx : Context K F G) (p : Params K F G)
    (tokens : List ℕ) : Prop :=
  0 < p.maxInitialTs → ∀ id, tokens.head? = some id →
    ctx.vocab.tokenBeg ≤ id → (id : ℤ) ≤ initialCap ctx p

/-- Timestamps, and nothing but the rules that touches the logits. -/
structure Plain (p : Params K F G) : Prop where
  timestamps : p.noTimestamps = false
  no_tdrz : p.tdrzEnable = false
  no_filter : p.logitsFilter = false
  no_grammar : p.nGrammarRules = 0

/-- `suppress_regex` matches neither the end of text nor the first timestamp. -/
def SparesEnds (v : Vocab) (p : Params K F G) : Prop :=
  ∀ re, p.suppressRegex = some re → ∀ e ∈ v.tokenToId,
    e.2 = v.tokenEot ∨ e.2 = v.tokenBeg → re e.1 = false

/-! ### Tokens that are left -/

section Left

variable {v : Vocab} {p : Params K F G} {d : Decoder K G} {i : ℕ}

omit [Field K] [LinearOrder K] in
theorem nstOff_eq_false (hi : v.tokenEot ≤ i) : nstOff v p i = false := by
  have hfind : ∀ text ∈ filteredTexts, (v.find text == some i) = false := by
    intro text htext
    rw [beq_eq_false_iff_ne]
    intro hsome
    have := v.lt_tokenEot_of_find hsome htext
    omega
  rw [nstOff, Bool.and_eq_false_iff]
  right
  rw [hfind " -" (by simp [filteredTexts]), hfind " '" (by simp [filteredTexts]), Bool.or_false,
    Bool.or_false, List.any_eq_false]
  intro text htext
  rw [hfind text (by simp [filteredTexts, htext]), hfind (" " ++ text) (by simp [filteredTexts, htext])]
  decide

omit [Field K] [LinearOrder K] in
theorem regexOff_eq_false (h : SparesEnds v p) (hi : i = v.tokenEot ∨ i = v.tokenBeg) :
    regexOff v p i = false := by
  rw [regexOff]
  cases hre : p.suppressRegex with
  | none => rfl
  | some re =>
    rw [Option.any_some, List.any_eq_false]
    intro e he hmatch
    rw [Bool.and_eq_true, beq_iff_eq] at hmatch
    rw [h re hre e he (hmatch.1 ▸ hi)] at hmatch
    cases hmatch.2

omit [Field K] [LinearOrder K] in
/-- The control tokens are suppressed. -/
theorem specialOff_of_mem (hp : p.tdrzEnable = false) (hi : i ∈ v.controlTokens) :
    specialOff v p i = true := by
  rw [Vocab.controlTokens, List.mem_append, List.mem_map] at hi
  rcases hi with hi | ⟨l, hl, rfl⟩
  · simp only [List.mem_cons, List.not_mem_nil, or_false] at hi
    rcases hi with rfl | rfl | rfl | rfl | rfl | rfl | rfl <;> simp [specialOff, hp]
  · have hany : ((List.range nLang).any fun l' => v.tokenLang l == v.tokenLang l') = true :=
      List.any_eq_true.mpr ⟨l, hl, beq_self_eq_true _⟩
    simp [specialOff, hany]

omit [Field K] [LinearOrder K] in
/-- Only tokens between the end of text and the timestamps are suppressed as special. -/
theorem specialOff_eq_false (hi : i ≤ v.tokenEot ∨ v.tokenBeg ≤ i) : specialOff v p i = false := by
  have hle := v.le_nVocab
  have hle' := v.nVocab_le
  have hlang : ((List.range nLang).any fun l => i == v.tokenLang l) = false := by
    rw [List.any_eq_false]
    intro l hl heq
    rw [List.mem_range] at hl
    rw [beq_iff_eq] at heq
    simp only [Vocab.tokenLang, Vocab.tokenEot, Vocab.tokenSot, Vocab.tokenBeg, Vocab.dt,
      Vocab.numLanguages, Vocab.isMultilingual, decide_eq_true_eq, nLang] at heq hi hl
    by_cases hm : 51865 ≤ v.nVocab
    · simp only [hm, if_true] at heq hi
      omega
    · simp only [hm, if_false] at heq hi
      omega
  have hother : i ≠ v.tokenNot ∧ i ≠ v.tokenSot ∧ i ≠ v.tokenNosp ∧ i ≠ v.tokenSolm ∧
      i ≠ v.tokenTranslate ∧ i ≠ v.tokenTranscribe ∧ i ≠ v.tokenPrev := by
    simp only [Vocab.tokenTranslate, Vocab.tokenTranscribe, Vocab.tokenSolm, Vocab.tokenPrev,
      Vocab.tokenNosp, Vocab.tokenNot, Vocab.tokenEot, Vocab.tokenSot, Vocab.tokenBeg, Vocab.dt,
      Vocab.numLanguages, Vocab.isMultilingual, decide_eq_true_eq] at hi ⊢
    by_cases hm : 51865 ≤ v.nVocab
    · simp only [hm, if_true] at hi ⊢
      omega
    · simp only [hm, if_false] at hi ⊢
      omega
  obtain ⟨h1, h2, h3, h4, h5, h6, h7⟩ := hother
  simp [specialOff, hlang, h1, h2, h3, h4, h5, h6, h7]

/-- The first timestamp is left at the first token. -/
theorem off_beg [IsStrictOrderedRing K] [FloorRing K] (hp : p.noTimestamps = false) (hre : SparesEnds v p)
    (htok : d.sequence.tokens = []) (htr : Tracks v [] d) (n : ℕ) :
    earlyOff v p d v.tokenBeg = false ∧ lateOff v p d v.tokenBeg n = false := by
  have heot := v.tokenEot_lt_tokenBeg
  have hblank : blankOff v p d v.tokenBeg = false := by
    have hfind : (v.find " " == some v.tokenBeg) = false := by
      rw [beq_eq_false_iff_ne]
      intro hsome
      have := v.lt_tokenEot_of_find hsome (by simp [filteredTexts])
      omega
    rw [blankOff, hfind, beq_eq_false_iff_ne.mpr heot.ne']
    simp
  have htext : textOff v p d v.tokenBeg = false := by
    rw [textOff, decide_eq_false heot.not_gt, Bool.and_false]
  have hpair : pairOff v d v.tokenBeg = false := by
    rw [pairOff, lastWasTimestamp, htok]
    rfl
  have hinitial : initialOff v p d v.tokenBeg n = false := by
    rw [initialOff, htok, List.isEmpty_nil, Bool.true_and, Bool.and_eq_false_iff]
    by_cases hmax : 0 < p.maxInitialTs
    · right
      have hfloor : 0 ≤ ⌊p.maxInitialTs / (30 / n) + 1 / 2⌋ :=
        Int.floor_nonneg.mpr (by positivity)
      rw [decide_eq_false_iff_not]
      omega
    · exact .inl (decide_eq_false hmax)
  have hback : backOff v d v.tokenBeg = false := by
    rw [backOff, htr.hasTs_eq]
    rfl
  rw [earlyOff, lateOff, hblank, htext, hpair, hinitial, hback, timestampsOff, hp,
    specialOff_eq_false (.inr le_rfl), regexOff_eq_false hre (.inr rfl), nstOff_eq_false heot.le]
  exact ⟨rfl, rfl⟩

/-- The end of text is left at every later token. -/
theorem off_eot [FloorRing K] (hre : SparesEnds v p) (htok : d.sequence.tokens ≠ []) (n : ℕ) :
    earlyOff v p d v.tokenEot = false ∧ lateOff v p d v.tokenEot n = false := by
  have hlt := v.tokenEot_lt_tokenBeg
  have hempty : d.sequence.tokens.isEmpty = false := by
    rw [List.isEmpty_eq_false_iff]
    exact htok
  have hts : decide (v.tokenBeg ≤ v.tokenEot) = false := decide_eq_false hlt.not_ge
  have hpair : pairOff v d v.tokenEot = false := by
    rw [pairOff, hts, decide_eq_false (lt_irrefl _), ite_self, Bool.and_false]
  rw [earlyOff, lateOff, hpair, blankOff, textOff, initialOff, backOff, timestampsOff, hempty, hts,
    decide_eq_false (lt_irrefl _), specialOff_eq_false (.inl le_rfl),
    regexOff_eq_false hre (.inl rfl), nstOff_eq_false le_rfl]
  simp

end Left

section Ruled

variable [IsStrictOrderedRing K] [FloorRing K] {ctx : Context K F G} {p : Params K F G}
  {tokens prev : List (TokenData K)} {t : TokenData K}

/-- **Some token is left**: the first timestamp at the beginning, and the end of text later, unless
a timestamp is forced. -/
theorem exists_left (hp : Plain p) (hre : SparesEnds ctx.vocab p) {d : Decoder K G}
    (htr : Tracks ctx.vocab d.sequence.tokens d) (temperature : F) (row : ℕ → K)
    (callback : (ℕ → WithBot K) → ℕ → WithBot K) :
    ∃ i < ctx.vocab.nVocab, (processLogits ctx p d temperature row callback).logits i ≠ ⊥ := by
  have hleft : ∃ i < ctx.vocab.nVocab, earlyOff ctx.vocab p d i = false ∧
      lateOff ctx.vocab p d i ctx.hparams.nAudioCtx = false := by
    have hbeg := ctx.vocab.tokenBeg_lt_nVocab
    by_cases htok : d.sequence.tokens = []
    · exact ⟨ctx.vocab.tokenBeg, hbeg, off_beg hp.timestamps hre htok (htok ▸ htr) _⟩
    · exact ⟨ctx.vocab.tokenEot, ctx.vocab.tokenEot_lt_tokenBeg.trans hbeg, off_eot hre htok _⟩
  obtain ⟨i, hi, hearly, hlate⟩ := hleft
  refine exists_processLogits_ne_bot ⟨i, hi, ?_⟩
  simp only [filterLogits, hp.no_filter, Bool.false_eq_true, if_false, ne_eq, suppress_eq_bot,
    hearly, hlate, false_or]
  exact WithBot.coe_ne_bot

/-- A sampled token is one that the rules leave. -/
theorem Follows.allowed (hp : Plain p) (hre : SparesEnds ctx.vocab p) (h : Follows ctx p prev t) :
    ∃ d : Decoder K G, d.sequence.tokens = prev ∧
      lateOff ctx.vocab p d t.id ctx.hparams.nAudioCtx = false ∧
      earlyOff ctx.vocab p d t.id = false := by
  obtain ⟨d, temperature, row, callback, htok, htr, hsampled⟩ := h
  have hne := hsampled.ne_bot (exists_left hp hre (htok.symm ▸ htr) temperature row callback)
  obtain ⟨hlate, hearly⟩ := processLogits_ne_bot hne.2
  exact ⟨d, htok, hlate, hearly hp.no_filter⟩

/-- What the pairing rule says of a token after two others. -/
theorem Follows.paired (hp : Plain p) (hre : SparesEnds ctx.vocab p) (h : Follows ctx p prev t)
    {a b : ℕ} (hsuffix : [a, b] <:+ ids prev) (hb : ctx.vocab.tokenBeg ≤ b) :
    (ctx.vocab.tokenBeg ≤ a → t.id < ctx.vocab.tokenBeg) ∧
      (a < ctx.vocab.tokenBeg → ctx.vocab.tokenEot ≤ t.id) := by
  obtain ⟨d, rfl, hlate, -⟩ := h.allowed hp hre
  obtain ⟨front, heq⟩ := hsuffix
  obtain ⟨l, l', htok, -, hl'⟩ := List.append_eq_map_iff.mp heq
  -- the last two tokens
  obtain ⟨ta, tb, rfl⟩ : ∃ ta tb, l' = [ta, tb] := by
    refine List.length_eq_two.mp ?_
    rw [← List.length_map TokenData.id, hl']
    rfl
  obtain ⟨rfl, rfl⟩ : ta.id = a ∧ tb.id = b := by simpa using hl'
  simp only [lateOff, Bool.or_eq_false_iff] at hlate
  have hpair : pairOff ctx.vocab d t.id = false := hlate.1.1.2
  have hlast : lastWasTimestamp ctx.vocab d = true := by
    rw [lastWasTimestamp, htok]
    simp [hb]
  have hpenultimate : penultimateWasTimestamp ctx.vocab d = decide (ctx.vocab.tokenBeg ≤ ta.id) := by
    rw [penultimateWasTimestamp, htok]
    simp
  rw [pairOff, hlast, hpenultimate, Bool.true_and] at hpair
  refine ⟨fun ha => ?_, fun ha => ?_⟩
  · rw [decide_eq_true ha, if_pos rfl, decide_eq_false_iff_not] at hpair
    exact not_le.mp hpair
  · rw [decide_eq_false (not_le.mpr ha), if_neg (by decide), decide_eq_false_iff_not] at hpair
    exact not_lt.mp hpair

/-- A token that is sampled is no control token. -/
theorem Follows.no_control (hp : Plain p) (hre : SparesEnds ctx.vocab p) (h : Follows ctx p prev t) :
    t.id ∉ ctx.vocab.controlTokens := by
  obtain ⟨d, -, -, hearly⟩ := h.allowed hp hre
  intro hmem
  rw [earlyOff, specialOff_of_mem hp.no_tdrz hmem, Bool.or_true] at hearly
  cases hearly

/-- **What the decoders build is ruled.** -/
theorem Built.ruled (hp : Plain p) (hre : SparesEnds ctx.vocab p) (h : Built ctx p tokens) :
    Ruled ctx.vocab (ids tokens) := by
  have hmono := h.monotone
  suffices hinf : (∀ id ∈ ids tokens, id ∉ ctx.vocab.controlTokens) ∧
      ∀ a b c, [a, b, c] <:+: ids tokens → ctx.vocab.tokenBeg ≤ b →
        (ctx.vocab.tokenBeg ≤ a → c < ctx.vocab.tokenBeg) ∧
          (a < ctx.vocab.tokenBeg → ctx.vocab.tokenEot ≤ c) by
    obtain ⟨hcontrol, hinf⟩ := hinf
    refine ⟨hcontrol, hmono, fun a b c habc ha hb => (hinf a b c habc hb).1 ha,
      fun a b c habc ha hb => ?_⟩
    have hge := (hinf a b c habc hb).2 ha
    by_contra hnot
    rw [not_or, not_le] at hnot
    have hspecial := ctx.vocab.mem_controlTokens (lt_of_le_of_ne hge (Ne.symm hnot.2)) hnot.1
    exact hcontrol c (habc.subset (by simp)) hspecial
  clear hmono
  induction h with
  | nil => exact ⟨nofun, fun a b c habc => by simp [ids] at habc⟩
  | @concat prev t hprev ht ih =>
    have heq : ids (prev ++ [t]) = ids prev ++ [t.id] := List.map_append
    rw [heq]
    refine ⟨fun id hid => ?_, fun a b c habc hb => ?_⟩
    · rcases List.mem_append.mp hid with hid | hid
      · exact ih.1 id hid
      · rw [List.mem_singleton.mp hid]
        exact ht.no_control hp hre
    · rcases List.infix_concat_iff.mp habc with hsuffix | hinf
      · rcases List.suffix_concat_iff.mp hsuffix with hnil | ⟨l, hl, hsuffix⟩
        · cases hnil
        · obtain ⟨hab, hc⟩ := List.append_inj' (show [a, b] ++ [c] = l ++ [t.id] from hl) rfl
          rw [List.singleton_inj.mp hc]
          exact ht.paired hp hre (hab ▸ hsuffix) hb
      · exact ih.2 a b c hinf hb

theorem Built.startsWithinCap (hp : Plain p) (hre : SparesEnds ctx.vocab p)
    (h : Built ctx p tokens) : StartsWithinCap ctx p (ids tokens) := by
  intro hmax
  induction h with
  | nil => nofun
  | @concat prev t hprev ht ih =>
    cases prev with
    | nil =>
      intro id hid hts
      obtain rfl : t.id = id := Option.some.inj hid
      obtain ⟨d, htok, hlate, -⟩ := ht.allowed hp hre
      simp only [lateOff, Bool.or_eq_false_iff] at hlate
      have hinitial : initialOff ctx.vocab p d t.id ctx.hparams.nAudioCtx = false := hlate.1.2
      rw [initialOff, htok, List.isEmpty_nil, decide_eq_true hmax, Bool.true_and, Bool.true_and,
        decide_eq_false_iff_not] at hinitial
      rw [initialCap]
      omega
    | cons u prev => exact ih

end Ruled

/-! ### Every run -/

/-- What the rules promise of a state: the decoders of the current window have sequences of the right
shape that start as `First` says, a decoder samples from a distribution that leaves a token, and what
it samples does not go back. -/
structure Sampling [FloorRing K] (ctx : Context K F G)
    (First : Params K F G → List ℕ → Prop) (s : State K F G) : Prop where
  ruled : s.pc.inBody = true → ∀ j, (s.decoders j).window = s.windows →
    Ruled ctx.vocab (ids (s.decoders j).sequence.tokens) ∧
      First s.params (ids (s.decoders j).sequence.tokens)
  left : ∀ it i, s.pc = .sample it i → ∀ j < s.nDecodersCur, (s.decoders j).active →
    ∃ id < ctx.vocab.nVocab, (s.decoders j).scores.logits id ≠ ⊥
  forward : ∀ it i, s.pc = .update it i → ∀ j < s.nDecodersCur, (s.decoders j).active →
    ∀ t, (s.decoders j).sequence.tokens.getLast? = some t → goesBack ctx i (s.decoders j) t = false

section Run

variable [FloorRing K] {ctx : Context K F G} {s : State K F G}

/-- **No sampled timestamp goes back**, whatever the parameters are. -/
theorem goesBack_eq_false (h : Reachable ctx s) {it i j : ℕ} (hpc : s.pc = .update it i)
    (hj : j < s.nDecodersCur) (hact : (s.decoders j).active) {t : TokenData K}
    (hlast : (s.decoders j).sequence.tokens.getLast? = some t) :
    goesBack ctx i (s.decoders j) t = false := by
  have hph := Reachable.phase h
  rw [Phase, hpc] at hph
  have hbuilding := Reachable.building h
  have hbuilt := (hbuilding.sound (by rw [hpc]; rfl) j (hph.window_eq j hj)).built
  have htr := hbuilding.tracking j hj hact
  rw [Tracking, hpc] at htr
  rw [← List.dropLast_append_getLast? t hlast] at hbuilt
  rw [Bool.eq_false_iff]
  intro hback
  simp only [goesBack, Bool.and_eq_true, decide_eq_true_eq] at hback
  obtain ⟨⟨⟨hts, hhas⟩, hlt⟩, -⟩ := hback
  rw [htr.hasTs_eq] at hhas
  obtain ⟨last, hsome⟩ := Option.isSome_iff_exists.mp hhas
  have hle := hbuilt.follows.lastTs_le hsome hts.le
  rw [htr.seekDelta_eq, hsome, Option.elim_some] at hlt
  omega

end Run

/-! ### Text first, and nothing left -/

/-- The run up to the update of the first token. -/
theorem reachable_speakUpdate (dtw noTs blank : Bool) (t : ℤ) (k : ℕ) :
    Reachable (speaker dtw) (speakUpdate dtw noTs blank t k) := by
  have hwindow : Reachable (speaker dtw) (speakWindow dtw noTs blank t) := by
    rw [← stepCall_speak dtw noTs blank t k]
    exact Reachable.step (.init (freshState_init _)) (speakInput noTs blank t k)
  have hattempt : Reachable (speaker dtw) (speakAttempt dtw noTs blank t) := by
    rw [← stepWindow_speak dtw noTs blank t k]
    exact hwindow.step (speakInput noTs blank t k)
  have hprompt : Reachable (speaker dtw) (speakPrompt dtw noTs blank t) := by
    rw [← stepAttempt_speak dtw noTs blank t k]
    exact hattempt.step (speakInput noTs blank t k)
  have hsample : Reachable (speaker dtw) (speakSample dtw noTs blank t k) := by
    rw [← stepDecode_speak]
    exact hprompt.step (speakInput noTs blank t k)
  have hupdate := hsample.step (speakInput noTs blank t k)
  rw [step, pc_speakSample] at hupdate
  exact hupdate

/-- At the first token, text is as good as a timestamp. -/
theorem off_text_speak {d : Decoder ℝ Unit} (htok : d.sequence.tokens = []) (hts : d.hasTs = false) :
    off (speaker false) (speakParams false true 0) d 64 = false := by
  have hearly : earlyOff (speaker false).vocab (speakParams false true 0) d 64 = false := by
    have hblank : blankOff (speaker false).vocab (speakParams false true 0) d 64 = false := by
      rw [blankOff, Bool.and_eq_false_iff]
      exact .inr rfl
    rw [earlyOff, hblank]
    rfl
  rw [off, hearly]
  exact (Bool.or_false _).trans (lateOff_speak false false true 0 htok hts (by decide))

/-- The first token is text, although `max_initial_ts` is set. -/
theorem not_startsWithTimestamp_speak :
    ¬ Sampling (speaker false) (StartsWithTimestamp (speaker false))
      (speakUpdate false false true 0 64) := by
  intro h
  obtain ⟨d, token, hd, hid, -, htok, -⟩ := tokens_speakUpdate false false true 0 64 (by decide)
    fun d h1 h2 => off_text_speak h1 h2
  have hwindow : ((speakUpdate false false true 0 64).decoders 0).window =
      (speakUpdate false false true 0 64).windows := by
    have hph := Reachable.phase (reachable_speakUpdate false false true 0 64)
    rw [Phase, show (speakUpdate false false true 0 64).pc = .update 0 0 from rfl] at hph
    exact hph.window_eq 0 Nat.one_pos
  obtain ⟨-, hfirst⟩ := h.ruled rfl 0 hwindow
  rw [hd, Sequence.tokens_push, htok] at hfirst
  have hmax : 0 < (speakUpdate false false true 0 64).params.maxInitialTs := one_pos
  obtain ⟨hbeg, -⟩ := hfirst hmax token.id rfl
  rw [hid] at hbeg
  exact absurd hbeg (by decide)

/-- A vocabulary with a text for every token. -/
def wordyVocab : Vocab where
  nVocab := 51864
  tokenToId := (" ", 220) :: ((List.range 51864).filter (· ≠ 220)).map fun i =>
    (String.ofList (List.replicate i 'a'), i)
  idToToken id := if id = 220 then " " else String.ofList (List.replicate id 'a')
  le_nVocab := englishVocab.le_nVocab
  nVocab_le := englishVocab.nVocab_le
  blank_mem := by simp
  lt_of_filtered e he htext := by
    rcases List.mem_cons.mp he with rfl | he
    · decide
    · obtain ⟨i, -, rfl⟩ := List.mem_map.mp he
      have hshort : ∀ text ∈ filteredTexts, text.length ≤ 4 := by decide +kernel
      have hlen := hshort _ htext
      rw [String.length_ofList, List.length_replicate] at hlen
      show i < 50256
      omega

/-- A model with that vocabulary, and a call that suppresses all of it. -/
noncomputable def wordy : Context ℝ ℚ Unit := { english 448 smallTextCtx_le with vocab := wordyVocab }

noncomputable def mutedParams : Params ℝ ℚ Unit :=
  { speakParams false true 0 with suppressRegex := some fun _ => true }

noncomputable def mutedInput : Input ℝ ℚ Unit := calmInput mutedParams fun _ => 0

/-- The call at its main loop. -/
noncomputable def mutedWindow : State ℝ ℚ Unit :=
  { freshState wordy with
    params := mutedParams
    melLenOrg := 3000
    seekStart := 0
    seekEnd := 3000
    temperatures := [0]
    promptInit := promptInit wordy mutedParams
    seek := 0
    pc := .window }

theorem reachable_mutedWindow : Reachable wordy mutedWindow := by
  have hcall : step wordy mutedInput (freshState wordy) = mutedWindow := by
    show beginCall wordy ((freshState wordy).called mutedInput) = _
    rw [beginCall, if_neg (by show ¬ (3000 : ℤ) < 0 + 10; decide),
      show wordy.temp.lt wordy.temp.zero ((freshState wordy).called mutedInput).params.temperatureInc
        = false from ratTemperature_lt_self 0, if_neg (by decide)]
    rfl
  rw [← hcall]
  exact Reachable.step (.init (freshState_init _)) mutedInput

/-- The call at its first attempt. -/
noncomputable def mutedAttempt : State ℝ ℚ Unit :=
  { mutedWindow with windows := 1, pc := .attempt 0 }

/-- The call at the decode of its prompt. -/
noncomputable def mutedPrompt : State ℝ ℚ Unit :=
  mutedAttempt.attempted wordy 0 0 (promptInit wordy mutedParams) ((freshState wordy).kvSelf.clear, 1)

theorem reachable_mutedPrompt : Reachable wordy mutedPrompt := by
  have hwindow : step wordy mutedInput mutedWindow = mutedAttempt := rfl
  have hprompt : assemblePrompt wordy mutedAttempt.params mutedAttempt.promptPast0
      mutedAttempt.promptPast1 mutedAttempt.promptInit 0 = some (promptInit wordy mutedParams) := by
    rw [assemblePrompt, if_neg (by simp [takesHistory, canTake0, mutedAttempt, mutedWindow,
      freshState])]
    rfl
  have hn : nDecodersAt wordy mutedAttempt.params 0 = 1 := by
    show (max 1 (if ratTemperature.lt 0 0 then _ else (1 : ℤ))).toNat = 1
    rw [ratTemperature_lt_self]
    rfl
  have hattempt : step wordy mutedInput mutedAttempt = mutedPrompt := by
    show stepAttempt wordy mutedInput 0 mutedAttempt = _
    rw [stepAttempt, show mutedAttempt.temperatures[0]? = some 0 from rfl]
    simp only
    rw [hprompt]
    simp only
    rw [hn]
    rfl
  rw [← hattempt, ← hwindow]
  exact (reachable_mutedWindow.step mutedInput).step mutedInput

/-- The call before its first token. -/
noncomputable def mutedSample : State ℝ ℚ Unit :=
  decodedPrompt wordy mutedInput 0 (mutedPrompt.computed wordy mutedInput)

theorem reachable_mutedSample : Reachable wordy mutedSample := by
  have hslot : (mutedPrompt.kvSelf.reserve wordy.kvPad mutedPrompt.batch).2 = true := by
    rw [KvCache.reserve_snd]
    refine KvCache.findSlot_clear ?_
    have hsize : (freshState wordy).kvSelf.size = 512 := by
      show KvCache.ggmlPad 448 256 = 512
      decide
    rw [hsize]
    show 1 ≤ 512
    decide
  have hdecode : step wordy mutedInput mutedPrompt = mutedSample := by
    show (if (mutedPrompt.kvSelf.reserve wordy.kvPad mutedPrompt.batch).2 && true then _ else _) = _
    rw [hslot]
    rfl
  rw [← hdecode]
  exact reachable_mutedPrompt.step mutedInput

theorem exists_text {id : ℕ} (hid : id < 51864) : ∃ text, (text, id) ∈ wordyVocab.tokenToId := by
  rw [wordyVocab]
  by_cases hblank : id = 220
  · exact ⟨" ", hblank ▸ List.mem_cons_self ..⟩
  · refine ⟨String.ofList (List.replicate id 'a'), List.mem_cons_of_mem _
      (List.mem_map.mpr ⟨id, ?_, rfl⟩)⟩
    rw [List.mem_filter, List.mem_range, decide_eq_true_eq]
    exact ⟨hid, hblank⟩

theorem regexOff_muted {id : ℕ} (hid : id < 51864) :
    regexOff wordyVocab mutedParams id = true := by
  obtain ⟨text, hmem⟩ := exists_text hid
  rw [regexOff, show mutedParams.suppressRegex = some fun _ => true from rfl, Option.any_some]
  refine List.any_eq_true.mpr ⟨(text, id), hmem, ?_⟩
  rw [beq_self_eq_true, Bool.and_self]

/-- A `suppress_regex` that matches every text leaves no token. -/
theorem not_left_muted : ¬ Sampling wordy (StartsWithinCap wordy) mutedSample := by
  intro h
  have hpc : mutedSample.pc = .sample 0 0 := rfl
  have hact : (mutedSample.decoders 0).active = true := rfl
  obtain ⟨id, hid, hne⟩ := h.left 0 0 hpc 0 Nat.one_pos hact
  have htr := (Reachable.building reachable_mutedSample).tracking 0 Nat.one_pos hact
  rw [Tracking, hpc] at htr
  obtain ⟨-, d, temperature, row, callback, -, -, hscores⟩ := htr
  rw [hscores] at hne
  have hlate := (processLogits_ne_bot hne).1
  simp only [lateOff, Bool.or_eq_false_iff] at hlate
  have hregex : regexOff wordyVocab mutedParams id = false := hlate.1.1.1.1
  rw [regexOff_muted hid] at hregex
  cases hregex

end Full

end WhisperCpp
