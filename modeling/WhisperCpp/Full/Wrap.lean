import WhisperCpp.Full.English

/-!
# The segments that are stored

If the times of tokens are computed, then a new segment is wrapped: where its text gets longer than
`max_len`, the tokens from there on become a segment of their own. Here the segments of a window are
the wrapped ones, whatever times are found for the tokens.

## Main definitions

* `wrapSegment` — `whisper_wrap_segment`, with the number of segments that it returns
* `windowResults` — what is appended to `result_all` for a window
* `TextKept` — all text of the window is in these segments, and all tokens with a text

## Main results

* `windowResults_textKept`
-/

namespace WhisperCpp

namespace Full

variable {K F G : Type*} [Field K] [LinearOrder K]

/-- The parameters for the wrapping of segments. -/
structure WrapParams where
  tokenTimestamps : Bool
  maxLen : ℤ
  splitOnWord : Bool

/-- `utf8_len`: the bytes that do not continue a character. -/
def utf8Len (txt : String) : ℤ := txt.toUTF8.toList.countP fun byte => byte &&& 0xC0 != 0x80

/-- `should_split_on_word`. -/
def shouldSplitOnWord (txt : String) (splitOnWord : Bool) : Bool :=
  !splitOnWord || txt.toList.head? == some ' '

section Definitions

variable (ctx : Context K F G) (w : WrapParams)

/-- The loop of `whisper_wrap_segment` over the tokens of `segment`, from token `i` on. `t0`,
`noSpeechProb`, `text` and `tokens` are those of the segment that is being filled, and `acc` is the
length of its text. Token `i` starts at `times i`. -/
def wrapLoop (segment : Segment K) (times : ℕ → ℤ) :
    ℕ → ℤ → K → String → ℤ → List (TokenData K) → List (TokenData K) → List (Segment K) × ℕ
  | _, t0, noSpeechProb, text, _, tokens, [] =>
    ([⟨t0, segment.t1, text, noSpeechProb, tokens, segment.speakerTurnNext⟩], 1)
  | i, t0, noSpeechProb, text, acc, tokens, token :: rest =>
    if ctx.vocab.tokenEot ≤ token.id then
      wrapLoop segment times (i + 1) t0 noSpeechProb text acc (tokens ++ [token]) rest
    else
      let txt := ctx.vocab.idToToken token.id
      let cur := utf8Len txt
      if w.maxLen < acc + cur && !tokens.isEmpty && shouldSplitOnWord txt w.splitOnWord then
        -- the new segment starts over with this token, which is now its first
        let wrapped := wrapLoop segment times (i + 1) (times i) 0 txt cur [token] rest
        (⟨t0, times i, text, noSpeechProb, tokens, false⟩ :: wrapped.1, wrapped.2 + 1)
      else
        wrapLoop segment times (i + 1) t0 noSpeechProb (text ++ txt) (acc + cur) (tokens ++ [token])
          rest

/-- A new segment, wrapped if that is asked for, and `n_new`. -/
def wrapSegment (times : ℕ → ℤ) (segment : Segment K) : List (Segment K) × ℕ :=
  if w.tokenTimestamps && 0 < w.maxLen then
    wrapLoop ctx w segment times 0 segment.t0 segment.noSpeechProb "" 0 [] segment.tokens
  else ([segment], 1)

/-- New segments, each with what it is wrapped to. In segment `k` the tokens have `times k`. -/
def wrapAll (times : ℕ → ℕ → ℤ) (segs : List (Segment K)) : List (List (Segment K) × ℕ) :=
  segs.mapIdx fun k segment => wrapSegment ctx w (times k) segment

/-- The segments that a window adds to `result_all`. -/
def windowResults (times : ℕ → ℕ → ℤ) (s : State K F G) : List (Segment K) :=
  (wrapAll ctx w times (windowSegments ctx s)).flatMap Prod.fst

/-- The tokens with an id below the end of text. -/
def textTokens (tokens : List (TokenData K)) : List (TokenData K) :=
  tokens.filter fun t => t.id < ctx.vocab.tokenEot

/-- The text of tokens. -/
def textOf (tokens : List (TokenData K)) : String :=
  String.join ((textTokens ctx tokens).map fun t => ctx.vocab.idToToken t.id)

/-- The text tokens that have a text; the multilingual vocabulary has one with an empty string. -/
def spokenTokens (tokens : List (TokenData K)) : List (TokenData K) :=
  (textTokens ctx tokens).filter fun t => ctx.vocab.idToToken t.id ≠ ""

/-- The segments have the text of the tokens, and every token with a text; no token is in them
twice. -/
structure TextKept (tokens : List (TokenData K)) (segs : List (Segment K)) : Prop where
  text_eq : String.join (segs.map Segment.text) = textOf ctx tokens
  spoken_eq : spokenTokens ctx (segs.flatMap Segment.tokens) = spokenTokens ctx tokens
  sublist : (segs.flatMap Segment.tokens).Sublist tokens

end Definitions

section Wrapping

variable {ctx : Context K F G} {w : WrapParams} {segment : Segment K} {times : ℕ → ℤ}
  {tokens : List (TokenData K)} {t : TokenData K}

omit [LinearOrder K] [Field K] in
theorem join_singleton (text : String) : String.join [text] = text := by
  rw [String.join_cons, String.join_nil, String.append_empty]

theorem textOf_nil : textOf ctx [] = "" := rfl

theorem textOf_append (xs ys : List (TokenData K)) :
    textOf ctx (xs ++ ys) = textOf ctx xs ++ textOf ctx ys := by
  rw [textOf, textTokens, List.filter_append, List.map_append, String.join_append]
  rfl

theorem textOf_singleton (t : TokenData K) : textOf ctx [t] =
    if t.id < ctx.vocab.tokenEot then ctx.vocab.idToToken t.id else "" := by
  rw [textOf, textTokens, List.filter_singleton]
  by_cases h : t.id < ctx.vocab.tokenEot
  · rw [if_pos h, decide_eq_true h]
    exact join_singleton _
  · rw [if_neg h, decide_eq_false h]
    rfl

theorem textOf_cons (t : TokenData K) (rest : List (TokenData K)) : textOf ctx (t :: rest) =
    (if t.id < ctx.vocab.tokenEot then ctx.vocab.idToToken t.id else "") ++ textOf ctx rest := by
  rw [← List.singleton_append, textOf_append, textOf_singleton]

/-- Wrapping keeps the text. -/
theorem wrapLoop_text (i : ℕ) (t0 : ℤ) (noSpeechProb : K) (text : String) (acc : ℤ)
    (tokens rest : List (TokenData K)) :
    String.join ((wrapLoop ctx w segment times i t0 noSpeechProb text acc tokens rest).1.map
      Segment.text) = text ++ textOf ctx rest := by
  induction rest generalizing i t0 noSpeechProb text acc tokens with
  | nil => rw [wrapLoop, List.map_singleton, join_singleton, textOf_nil, String.append_empty]
  | cons t rest ih =>
    rw [wrapLoop, textOf_cons]
    by_cases ht : ctx.vocab.tokenEot ≤ t.id
    · rw [if_pos ht, if_neg (Nat.not_lt.mpr ht), ih, String.empty_append]
    · rw [if_neg ht, if_pos (Nat.lt_of_not_le ht)]
      simp only
      split
      · rw [List.map_cons, String.join_cons, ih]
      · rw [ih, String.append_assoc]

/-- Wrapping keeps the tokens. -/
theorem wrapLoop_tokens (i : ℕ) (t0 : ℤ) (noSpeechProb : K) (text : String) (acc : ℤ)
    (tokens rest : List (TokenData K)) :
    (wrapLoop ctx w segment times i t0 noSpeechProb text acc tokens rest).1.flatMap Segment.tokens =
      tokens ++ rest := by
  induction rest generalizing i t0 noSpeechProb text acc tokens with
  | nil => rw [wrapLoop, List.flatMap_singleton, List.append_nil]
  | cons t rest ih =>
    rw [wrapLoop]
    simp only
    split
    · rw [ih, List.append_assoc, List.singleton_append]
    · split
      · rw [List.flatMap_cons, ih, List.singleton_append]
      · rw [ih, List.append_assoc, List.singleton_append]

/-- The number that is returned is that of the segments. -/
theorem wrapLoop_snd (i : ℕ) (t0 : ℤ) (noSpeechProb : K) (text : String) (acc : ℤ)
    (tokens rest : List (TokenData K)) :
    (wrapLoop ctx w segment times i t0 noSpeechProb text acc tokens rest).2 =
      (wrapLoop ctx w segment times i t0 noSpeechProb text acc tokens rest).1.length := by
  induction rest generalizing i t0 noSpeechProb text acc tokens with
  | nil => rfl
  | cons t rest ih =>
    rw [wrapLoop]
    simp only
    split
    · exact ih ..
    · split
      · rw [List.length_cons, ih]
      · exact ih ..

theorem wrapSegment_text (h : segment.text = textOf ctx segment.tokens) :
    String.join ((wrapSegment ctx w times segment).1.map Segment.text) = segment.text := by
  rw [wrapSegment]
  split
  · rw [wrapLoop_text, String.empty_append, h]
  · exact join_singleton _

theorem wrapSegment_tokens (ctx : Context K F G) (w : WrapParams) (times : ℕ → ℤ)
    (segment : Segment K) :
    (wrapSegment ctx w times segment).1.flatMap Segment.tokens = segment.tokens := by
  rw [wrapSegment]
  split
  · rw [wrapLoop_tokens, List.nil_append]
  · exact List.flatMap_singleton ..

theorem wrapSegment_snd (ctx : Context K F G) (w : WrapParams) (times : ℕ → ℤ)
    (segment : Segment K) :
    (wrapSegment ctx w times segment).2 = (wrapSegment ctx w times segment).1.length := by
  rw [wrapSegment]
  split
  · exact wrapLoop_snd ..
  · rfl

/-- The texts of wrapped segments. -/
theorem wrapAll_text (times : ℕ → ℕ → ℤ) {segs : List (Segment K)}
    (h : ∀ segment ∈ segs, segment.text = textOf ctx segment.tokens) :
    String.join (((wrapAll ctx w times segs).flatMap Prod.fst).map Segment.text) =
      String.join (segs.map Segment.text) := by
  induction segs generalizing times with
  | nil => rfl
  | cons segment segs ih =>
    obtain ⟨hsegment, hsegs⟩ := List.forall_mem_cons.mp h
    rw [wrapAll, List.mapIdx_cons, List.flatMap_cons, List.map_append, String.join_append,
      wrapSegment_text hsegment, List.map_cons, String.join_cons]
    exact congrArg _ (ih (fun k => times (k + 1)) hsegs)

/-- The tokens of wrapped segments. -/
theorem wrapAll_tokens (ctx : Context K F G) (w : WrapParams) (times : ℕ → ℕ → ℤ)
    (segs : List (Segment K)) :
    ((wrapAll ctx w times segs).flatMap Prod.fst).flatMap Segment.tokens =
      segs.flatMap Segment.tokens := by
  induction segs generalizing times with
  | nil => rfl
  | cons segment segs ih =>
    rw [wrapAll, List.mapIdx_cons, List.flatMap_cons, List.flatMap_append, wrapSegment_tokens,
      List.flatMap_cons]
    exact congrArg _ (ih fun k => times (k + 1))

end Wrapping

section Cutting

variable {ctx : Context K F G} {p : Params K F G} {seek seekDelta : ℤ} {noSpeechProb : K}
  {tokens rest : List (TokenData K)} {t : TokenData K} {text : String}

theorem spokenTokens_append (xs ys : List (TokenData K)) :
    spokenTokens ctx (xs ++ ys) = spokenTokens ctx xs ++ spokenTokens ctx ys := by
  rw [spokenTokens, textTokens, List.filter_append, List.filter_append]
  rfl

theorem spokenTokens_of_le (h : ctx.vocab.tokenEot ≤ t.id) : spokenTokens ctx [t] = [] := by
  rw [spokenTokens, textTokens, List.filter_singleton, decide_eq_false (Nat.not_lt.mpr h)]
  rfl

/-- Where there is no text, no token has one. -/
theorem spokenTokens_eq_nil (h : textOf ctx tokens = "") : spokenTokens ctx tokens = [] := by
  induction tokens with
  | nil => rfl
  | cons t rest ih =>
    rw [textOf_cons, String.append_eq_empty_iff] at h
    rw [← List.singleton_append, spokenTokens_append, ih h.2, List.append_nil]
    by_cases ht : t.id < ctx.vocab.tokenEot
    · have htext : ctx.vocab.idToToken t.id = "" := (if_pos ht).symm.trans h.1
      rw [spokenTokens, textTokens, List.filter_singleton, decide_eq_true ht]
      simp [htext]
    · exact spokenTokens_of_le (Nat.not_lt.mp ht)

/-- The text after a token, if those of special tokens are not kept. -/
theorem text_step (hprint : p.printSpecial = false) (text : String) (t : TokenData K) :
    (if (p.printSpecial || decide (t.id < ctx.vocab.tokenEot)) = true then
      text ++ ctx.vocab.idToToken t.id else text) = text ++ textOf ctx [t] := by
  rw [hprint, Bool.false_or, textOf_singleton]
  by_cases ht : t.id < ctx.vocab.tokenEot
  · rw [if_pos (decide_eq_true ht), if_pos ht]
  · rw [if_neg (by rwa [decide_eq_true_eq]), if_neg ht, String.append_empty]

/-- A timestamp has no text. -/
theorem textOf_timestamp (ht : ctx.vocab.tokenBeg < t.id) : textOf ctx [t] = "" := by
  have hlt := ctx.vocab.tokenEot_lt_tokenBeg
  rw [textOf_singleton, if_neg (by omega)]

theorem textOf_timestamp_cons (ht : ctx.vocab.tokenBeg < t.id) :
    textOf ctx (t :: rest) = textOf ctx rest := by
  rw [textOf_cons, ← textOf_singleton, textOf_timestamp ht, String.empty_append]

/-- What a segment adds to a list unless it has no text. -/
theorem flatMap_ite_segment (seg : Segment K) (hspoken : seg.text = textOf ctx seg.tokens) :
    spokenTokens ctx ((if seg.text = "" then [] else [seg]).flatMap Segment.tokens) =
      spokenTokens ctx seg.tokens := by
  split
  · rename_i h
    exact (spokenTokens_eq_nil (hspoken.symm.trans h)).symm
  · rw [List.flatMap_singleton]

/-- What the loop over the tokens makes of the text and the tokens since the last cut, and those that
are left. -/
structure LoopKept (ctx : Context K F G) (text : String) (tokens rest : List (TokenData K))
    (segs : List (Segment K)) : Prop where
  consistent : ∀ seg ∈ segs, seg.text = textOf ctx seg.tokens
  text_eq : String.join (segs.map Segment.text) = text ++ textOf ctx rest
  spoken_eq : spokenTokens ctx (segs.flatMap Segment.tokens) = spokenTokens ctx (tokens ++ rest)
  sublist : (segs.flatMap Segment.tokens).Sublist (tokens ++ rest)

/-- Segments that are emitted at a cut, and those after it. -/
theorem LoopKept.cut {segs : List (Segment K)} (seg : Segment K) (ht : ctx.vocab.tokenBeg < t.id)
    (htext : text = textOf ctx tokens) (hseg : seg.text = text) (htokens : seg.tokens = tokens ++ [t])
    (h : LoopKept ctx "" [] rest segs) :
    LoopKept ctx text tokens (t :: rest) ((if seg.text = "" then [] else [seg]) ++ segs) := by
  have hconsistent : seg.text = textOf ctx seg.tokens := by
    rw [hseg, htokens, textOf_append, textOf_timestamp ht, String.append_empty, htext]
  refine ⟨fun x hx => ?_, ?_, ?_, ?_⟩
  · rcases List.mem_append.mp hx with hx | hx
    · split at hx
      · exact absurd hx List.not_mem_nil
      · rwa [List.mem_singleton.mp hx]
    · exact h.consistent x hx
  · have hjoin : String.join ((if seg.text = "" then [] else [seg]).map Segment.text) = text := by
      split
      · rename_i hempty
        exact hempty.symm.trans hseg
      · exact (join_singleton _).trans hseg
    rw [List.map_append, String.join_append, hjoin, h.text_eq, String.empty_append,
      textOf_timestamp_cons ht]
  · rw [List.flatMap_append, spokenTokens_append, flatMap_ite_segment seg hconsistent, h.spoken_eq,
      htokens, ← spokenTokens_append, List.nil_append, List.append_assoc, List.singleton_append]
  · rw [List.flatMap_append, List.append_cons]
    refine List.Sublist.append ?_ h.sublist
    split
    · exact List.nil_sublist _
    · rw [List.flatMap_singleton, htokens]

/-- **The loop keeps text and tokens.** The induction is over the tokens that are left; the text is
that of the tokens since the last cut. -/
theorem segmentLoop_kept (hprint : p.printSpecial = false) (skipping : Bool) (t0 : ℤ) (turn : Bool)
    (htext : text = textOf ctx tokens) (hskip : skipping = true → tokens = []) :
    LoopKept ctx text tokens rest
      (segmentLoop ctx p seek seekDelta noSpeechProb skipping t0 text turn tokens rest) := by
  induction rest generalizing skipping t0 text turn tokens with
  | nil =>
    rw [segmentLoop]
    refine ⟨fun x hx => ?_, ?_, ?_, ?_⟩
    · split at hx
      · exact absurd hx List.not_mem_nil
      · rw [List.mem_singleton.mp hx, htext]
    · rw [textOf_nil, String.append_empty]
      split
      · rename_i hempty
        rw [hempty]
        rfl
      · exact join_singleton _
    · rw [List.append_nil]
      exact flatMap_ite_segment ⟨t0, seek + seekDelta, text, noSpeechProb, tokens, turn⟩ htext
    · rw [List.append_nil]
      split
      · exact List.nil_sublist _
      · rw [List.flatMap_singleton]
  | cons t rest ih =>
    rw [segmentLoop]
    by_cases hts : ctx.vocab.tokenBeg < t.id
    · have heot : ctx.vocab.tokenEot ≤ t.id := (ctx.vocab.tokenEot_lt_tokenBeg.trans hts).le
      cases skipping with
      | true =>
        -- the timestamp belongs to no segment
        obtain rfl := hskip rfl
        obtain rfl : text = "" := htext
        rw [decide_eq_true hts, Bool.true_and, if_pos rfl, hprint, if_neg (by rintro ⟨⟩)]
        have htail : LoopKept ctx "" [] rest (segmentLoop ctx p seek seekDelta noSpeechProb true
          (stamp ctx.vocab seek t) "" turn [] rest) := ih true _ turn rfl fun _ => rfl
        obtain ⟨h1, h2, h3, h4⟩ := htail
        refine ⟨h1, ?_, ?_, h4.trans (List.sublist_cons_self t rest)⟩
        · rw [h2, textOf_timestamp_cons hts]
        · rw [h3, List.nil_append, List.nil_append, ← List.singleton_append (x := t),
            spokenTokens_append, spokenTokens_of_le heot, List.nil_append]
      | false =>
        rw [Bool.false_and, if_neg (by rintro ⟨⟩)]
        simp only
        rw [text_step hprint, textOf_timestamp hts, String.append_empty, decide_eq_true hts,
          Bool.true_and]
        split
        · have htail : LoopKept ctx "" [] rest (segmentLoop ctx p seek seekDelta noSpeechProb true
            (stamp ctx.vocab seek t) "" false [] rest) := ih true _ _ rfl fun _ => rfl
          exact htail.cut ⟨t0, stamp ctx.vocab seek t, text, noSpeechProb, tokens ++ [t], _⟩ hts htext
            rfl rfl
        · have hnext : text = textOf ctx (tokens ++ [t]) := by
            rw [textOf_append, textOf_timestamp hts, String.append_empty, htext]
          obtain ⟨h1, h2, h3, h4⟩ := ih false t0 _ hnext (by rintro ⟨⟩)
          refine ⟨h1, ?_, ?_, ?_⟩
          · rw [h2, textOf_timestamp_cons hts]
          · rw [h3, List.append_assoc, List.singleton_append]
          · rwa [List.append_assoc, List.singleton_append] at h4
    · rw [decide_eq_false hts, Bool.and_false, if_neg (by rintro ⟨⟩)]
      simp only
      rw [Bool.false_and, if_neg (by rintro ⟨⟩), text_step hprint]
      have hnext : text ++ textOf ctx [t] = textOf ctx (tokens ++ [t]) := by
        rw [textOf_append, htext]
      obtain ⟨h1, h2, h3, h4⟩ := ih false t0 _ hnext (by rintro ⟨⟩)
      refine ⟨h1, ?_, ?_, ?_⟩
      · rw [h2, String.append_assoc, ← textOf_append, List.singleton_append]
      · rw [h3, List.append_assoc, List.singleton_append]
      · rwa [List.append_assoc, List.singleton_append] at h4

end Cutting

/-- **No text is lost or stored twice**, if those of special tokens are not kept, the window is not
taken for silence, and a model is loaded. -/
theorem windowResults_textKept (ctx : Context K F G) (w : WrapParams) (times : ℕ → ℕ → ℤ)
    (s : State K F G) (hloaded : 0 < ctx.nLoaded) (hspeech : s.isNoSpeech = false)
    (hprint : s.params.printSpecial = false) :
    TextKept ctx s.best.sequence.tokens (windowResults ctx w times s) := by
  have hkept : LoopKept ctx "" [] s.best.sequence.tokens (windowSegments ctx s) := by
    rw [windowSegments, hspeech, decide_eq_true hloaded, Bool.not_false, Bool.true_and, if_pos rfl]
    cases s.best.sequence.tokens with
    | nil => exact ⟨nofun, rfl, rfl, List.nil_sublist _⟩
    | cons t rest => exact segmentLoop_kept hprint false _ false rfl nofun
  obtain ⟨hconsistent, htext, hspoken, hsub⟩ := hkept
  refine ⟨?_, ?_, ?_⟩
  · rw [windowResults, wrapAll_text times hconsistent, htext, String.empty_append]
  · rw [windowResults, wrapAll_tokens, hspoken, List.nil_append]
  · rw [windowResults, wrapAll_tokens]
    exact hsub

section Tests

/-- The multilingual vocabulary, with its empty string. -/
def multilingualVocab : Vocab where
  nVocab := 51865
  tokenToId := [("a", 64), (" ", 220), ("", 50256)]
  idToToken id := if id = 220 then " " else if id = 50256 then "" else
    if id < 50257 then "a" else "[_special_]"
  le_nVocab := by decide
  nVocab_le := by decide
  blank_mem := by decide
  lt_of_filtered e he h := by
    simp only [List.mem_cons, List.not_mem_nil, or_false] at he
    rcases he with rfl | rfl | rfl
    · decide
    · decide
    · exact absurd h (by decide)

/-- The multilingual model. -/
noncomputable def multilingual : Context ℝ ℚ Unit :=
  { english 448 smallTextCtx_le with vocab := multilingualVocab }

/-- A context without tensors, as it is used for tests. -/
noncomputable def unloaded : Context ℝ ℚ Unit :=
  { multilingual with nLoaded := 0 }

/-- A token with the given id, at the start of the window. -/
noncomputable def plainToken (id : ℕ) : TokenData ℝ := ⟨id, 50364, 1, 0, 1, 1⟩

/-- A window for which the given tokens have been decoded. -/
noncomputable def windowState (ctx : Context ℝ ℚ Unit) (tokens : List ℕ) : State ℝ ℚ Unit :=
  { freshState ctx with
    decoders := fun _ =>
      { freshDecoder with
        sequence := { freshDecoder.sequence with tokens := tokens.map plainToken } } }

theorem isNoSpeech_windowState (ctx : Context ℝ ℚ Unit) (tokens : List ℕ) :
    (windowState ctx tokens).isNoSpeech = false := by
  have hle : ¬ (3 / 5 : ℝ) < 0 := by norm_num
  show (decide ((3 / 5 : ℝ) < 0) && _) = false
  rw [decide_eq_false hle, Bool.false_and]

/-- Wrapping after one character. -/
def shortWrap : WrapParams := ⟨true, 1, false⟩

theorem windowResults_textKept_short :
    TextKept multilingual ((windowState multilingual [64, 50256, 64, 50365]).best.sequence.tokens)
      (windowResults multilingual shortWrap (fun _ i => i)
        (windowState multilingual [64, 50256, 64, 50365])) :=
  windowResults_textKept multilingual shortWrap _ _ (by decide)
    (isNoSpeech_windowState multilingual _) rfl

/-- The segments have the text of the tokens and every token below the end of text. -/
structure AllKept (ctx : Context ℝ ℚ Unit) (tokens : List (TokenData ℝ))
    (segs : List (Segment ℝ)) : Prop where
  text_eq : String.join (segs.map Segment.text) = textOf ctx tokens
  tokens_eq : textTokens ctx (segs.flatMap Segment.tokens) = textTokens ctx tokens

/-- **A token with an empty string makes no segment**, and without a model there are none at all. -/
theorem not_allKept :
    ¬ AllKept multilingual ((windowState multilingual [50256]).best.sequence.tokens)
        (windowResults multilingual shortWrap (fun _ i => i) (windowState multilingual [50256])) ∧
      ¬ AllKept unloaded ((windowState unloaded [64]).best.sequence.tokens)
        (windowResults unloaded shortWrap (fun _ i => i) (windowState unloaded [64])) := by
  constructor
  · intro h
    have hnil : windowResults multilingual shortWrap (fun _ i => i)
        (windowState multilingual [50256]) = [] := by
      rw [windowResults, windowSegments, isNoSpeech_windowState]
      rfl
    have htokens := h.tokens_eq
    rw [hnil] at htokens
    exact absurd (congrArg List.length htokens) (by decide)
  · intro h
    have hnil : windowResults unloaded shortWrap (fun _ i => i) (windowState unloaded [64]) = [] := by
      rw [windowResults, windowSegments]
      rfl
    have htokens := h.tokens_eq
    rw [hnil] at htokens
    exact absurd (congrArg List.length htokens) (by decide)

end Tests

end Full

end WhisperCpp
