import WhisperCpp.Full.Wrap
import WhisperCpp.Library.Cuts

/-!
# Wrapping the last segment

`whisper_wrap_segment` wraps the last segment in place: it fills it token by token, and where the
text gets too long it cuts the segment off, pushes a fresh one with the remaining tokens, copies
that one and starts over with it. Here it is the loop of the source, on the bytes of the texts and on
tokens with their times. What it does is cut the tokens into pieces; every piece becomes a segment.

The lengths are sums of the lengths of token texts and stay in `int`.

## Main definitions

* `wrapWhile`, `whisperWrapSegment` — the function
* `WrapText.cut`, `WrapText.pieces` — where the tokens are cut
* `assemble` — the segments of the pieces
* `Wrapped` — what all segments together have of the one that they come from

## Main results

* `wrapWhile_eq` — the loop makes the segments of the pieces
* `wrapped_assemble` — nothing is lost, and the times join
-/

namespace WhisperCpp

namespace Full

open Cuts

/-- `whisper_token_data` with the start time of the token. -/
structure TimedToken (K : Type*) extends TokenData K where
  t0 : ℤ

/-- `whisper_segment`, with the bytes of its text. -/
structure RawSegment (K : Type*) where
  t0 : ℤ
  t1 : ℤ
  text : List UInt8
  noSpeechProb : K
  tokens : List (TimedToken K)
  speakerTurnNext : Bool

/-- What the function is given: the end of text of the vocabulary, the strings of its tokens up to
their NUL, and the two parameters. -/
structure WrapText where
  tokenEot : ℕ
  tokenToStr : ℕ → List UInt8
  maxLen : ℤ
  splitOnWord : Bool

/-- `utf8_len`, on bytes. -/
def byteUtf8Len (str : List UInt8) : ℤ := str.countP fun byte => byte &&& 0xC0 != 0x80

/-- `should_split_on_word`, on bytes. -/
def byteShouldSplitOnWord (txt : List UInt8) (splitOnWord : Bool) : Bool :=
  !splitOnWord || txt.head? == some 0x20

section Definitions

variable {K : Type*} [Zero K] (v : WrapText)

/-- The segment that is cut off in front of token `i`. -/
def RawSegment.cutOff (back : RawSegment K) (i : ℕ) (token : TimedToken K) (text : List UInt8) :
    RawSegment K :=
  { back with
    text := text, t1 := token.t0, tokens := back.tokens.take i, speakerTurnNext := false }

/-- The segment with the tokens from `i` on. `push_back({})` makes a segment of zeros. -/
def RawSegment.fresh (segment : RawSegment K) (i : ℕ) (token : TimedToken K) : RawSegment K :=
  ⟨token.t0, segment.t1, [], 0, segment.tokens.drop i, segment.speakerTurnNext⟩

/-- The loop of `whisper_wrap_segment`, at token `i`. `segment` is the copy that is read, `back` is
`state.result_all.back()`, and `done` are the segments in front of it. -/
def wrapWhile (segment back : RawSegment K) (done : List (RawSegment K)) (i : ℕ) (acc : ℤ)
    (text : List UInt8) (res : ℕ) : List (RawSegment K) × ℕ :=
  if h : i < segment.tokens.length then
    if v.tokenEot ≤ segment.tokens[i].id then
      wrapWhile segment back done (i + 1) acc text res
    else if hcut : v.maxLen < acc + byteUtf8Len (v.tokenToStr segment.tokens[i].id) ∧ 0 < i ∧
        byteShouldSplitOnWord (v.tokenToStr segment.tokens[i].id) v.splitOnWord then
      -- `segment = state.result_all.back(); i = -1;`
      wrapWhile (segment.fresh i segment.tokens[i]) (segment.fresh i segment.tokens[i])
        (done ++ [back.cutOff i segment.tokens[i] text]) 0 0 [] (res + 1)
    else
      wrapWhile segment back done (i + 1) (acc + byteUtf8Len (v.tokenToStr segment.tokens[i].id))
        (text ++ v.tokenToStr segment.tokens[i].id) res
  else (done ++ [{ back with text := text }], res)
termination_by (segment.tokens.length, segment.tokens.length - i)
decreasing_by
  · exact Prod.Lex.right _ (by omega)
  · refine Prod.Lex.left _ _ ?_
    show (segment.tokens.drop i).length < segment.tokens.length
    rw [List.length_drop]
    omega
  · exact Prod.Lex.right _ (by omega)

/-- `whisper_wrap_segment`: the segments afterwards, and the number that is returned. Without a
segment there is no `result_all.back()`. -/
def whisperWrapSegment (resultAll : List (RawSegment K)) : Option (List (RawSegment K) × ℕ) :=
  resultAll.getLast?.map fun segment =>
    wrapWhile v segment segment resultAll.dropLast 0 0 [] 1

/-! ### Pieces -/

/-- The text of tokens: that of those below the end of text. -/
def WrapText.textOf (tokens : List (TimedToken K)) : List UInt8 :=
  (tokens.filter fun t => t.id < v.tokenEot).flatMap fun t => v.tokenToStr t.id

/-- The length of the text. -/
def WrapText.lengthOf (tokens : List (TimedToken K)) : ℤ := byteUtf8Len (v.textOf tokens)

/-- A piece may begin with the token. -/
def WrapText.mayBegin (t : TimedToken K) : Bool :=
  decide (t.id < v.tokenEot) && byteShouldSplitOnWord (v.tokenToStr t.id) v.splitOnWord

/-- A piece ends in front of the token. -/
def WrapText.cut (piece : List (TimedToken K)) (t : TimedToken K) : Bool :=
  v.mayBegin t && !piece.isEmpty && decide (v.maxLen < v.lengthOf (piece ++ [t]))

/-- The pieces that the tokens are cut into. -/
def WrapText.pieces (tokens : List (TimedToken K)) : List (List (TimedToken K)) :=
  cutBy v.cut [] tokens

/-- The start of a piece behind the first one. -/
def startOf (piece : List (TimedToken K)) : ℤ := (piece.head?.map TimedToken.t0).getD 0

/-- The segments of the pieces, where the first one has the given start and probability. -/
def assemble (segment : RawSegment K) : ℤ → K → List (List (TimedToken K)) → List (RawSegment K)
  | _, _, [] => []
  | t0, noSpeechProb, [q] =>
    [⟨t0, segment.t1, v.textOf q, noSpeechProb, q, segment.speakerTurnNext⟩]
  | t0, noSpeechProb, q :: r :: rest =>
    ⟨t0, startOf r, v.textOf q, noSpeechProb, q, false⟩ ::
      assemble segment (startOf r) 0 (r :: rest)

/-- The segments that a segment is wrapped to. -/
def WrapText.wrapped (segment : RawSegment K) : List (RawSegment K) :=
  assemble v segment segment.t0 segment.noSpeechProb (v.pieces segment.tokens)

/-- What the segments of a wrapped segment have of it. -/
structure Wrapped (segment : RawSegment K) (segs : List (RawSegment K)) : Prop where
  tokens_eq : segs.flatMap RawSegment.tokens = segment.tokens
  text_eq : segs.flatMap RawSegment.text = v.textOf segment.tokens
  own_text : ∀ p ∈ segs, p.text = v.textOf p.tokens
  first : segs.head?.map RawSegment.t0 = some segment.t0
  last : segs.getLast?.map RawSegment.t1 = some segment.t1
  joined : segs.IsChain fun p q => p.t1 = q.t0
  inner_turn : ∀ p ∈ segs.dropLast, p.speakerTurnNext = false
  last_turn : segs.getLast?.map RawSegment.speakerTurnNext = some segment.speakerTurnNext

end Definitions

section Loop

variable {K : Type*} [Zero K] {v : WrapText} {segment back : RawSegment K}
  {done : List (RawSegment K)} {piece : List (TimedToken K)} {t : TimedToken K}

omit [Zero K] in
@[simp] theorem textOf_raw_nil : v.textOf ([] : List (TimedToken K)) = [] := rfl

omit [Zero K] in
theorem textOf_concat_of_le (h : v.tokenEot ≤ t.id) :
    v.textOf (piece ++ [t]) = v.textOf piece := by
  simp [WrapText.textOf, List.filter_append, Nat.not_lt.mpr h]

omit [Zero K] in
theorem textOf_concat_of_lt (h : t.id < v.tokenEot) :
    v.textOf (piece ++ [t]) = v.textOf piece ++ v.tokenToStr t.id := by
  simp [WrapText.textOf, List.filter_append, h]

theorem byteUtf8Len_append (xs ys : List UInt8) :
    byteUtf8Len (xs ++ ys) = byteUtf8Len xs + byteUtf8Len ys := by
  simp [byteUtf8Len, List.countP_append]

theorem byteUtf8Len_nonneg (xs : List UInt8) : 0 ≤ byteUtf8Len xs := Int.natCast_nonneg _

omit [Zero K] in
theorem lengthOf_concat_of_le (h : v.tokenEot ≤ t.id) :
    v.lengthOf (piece ++ [t]) = v.lengthOf piece := by
  rw [WrapText.lengthOf, textOf_concat_of_le h, WrapText.lengthOf]

omit [Zero K] in
theorem lengthOf_concat_of_lt (h : t.id < v.tokenEot) :
    v.lengthOf (piece ++ [t]) = v.lengthOf piece + byteUtf8Len (v.tokenToStr t.id) := by
  rw [WrapText.lengthOf, textOf_concat_of_lt h, byteUtf8Len_append, WrapText.lengthOf]

omit [Zero K] in
theorem cut_eq_false_of_le (h : v.tokenEot ≤ t.id) : v.cut piece t = false := by
  simp [WrapText.cut, WrapText.mayBegin, Nat.not_lt.mpr h]

omit [Zero K] in
/-- The test of the loop is the decision to cut. -/
theorem cut_iff (h : t.id < v.tokenEot) : v.cut piece t = true ↔
    v.maxLen < v.lengthOf piece + byteUtf8Len (v.tokenToStr t.id) ∧ 0 < piece.length ∧
      byteShouldSplitOnWord (v.tokenToStr t.id) v.splitOnWord = true := by
  rw [← lengthOf_concat_of_lt h, List.length_pos_iff, WrapText.cut, WrapText.mayBegin,
    decide_eq_true h, Bool.true_and, Bool.and_eq_true, Bool.and_eq_true, decide_eq_true_eq,
    Bool.not_eq_true', List.isEmpty_eq_false_iff]
  tauto

omit [Zero K] in
/-- Before it can be cut off, a token is in the first piece. -/
theorem pieces_cons (t : TimedToken K) (rest : List (TimedToken K)) :
    v.pieces (t :: rest) = cutBy v.cut [t] rest := by
  have hcut : v.cut [] t = false := by simp [WrapText.cut]
  rw [WrapText.pieces, cutBy_cons_of_not_cut hcut, List.nil_append]

omit [Zero K] in
theorem startOf_cutBy (t : TimedToken K) (rest : List (TimedToken K)) :
    ∃ q qs, cutBy v.cut [t] rest = q :: qs ∧ startOf q = t.t0 := by
  obtain ⟨more, qs, heq⟩ := @exists_cutBy_eq_cons _ v.cut [t] rest
  exact ⟨_, qs, heq, rfl⟩

theorem assemble_congr {segment' : RawSegment K} (h1 : segment.t1 = segment'.t1)
    (hturn : segment.speakerTurnNext = segment'.speakerTurnNext) (t0 : ℤ) (noSpeechProb : K)
    (qs : List (List (TimedToken K))) :
    assemble v segment t0 noSpeechProb qs = assemble v segment' t0 noSpeechProb qs := by
  induction qs generalizing t0 noSpeechProb with
  | nil => rfl
  | cons q qs ih =>
    cases qs with
    | nil => rw [assemble, assemble, h1, hturn]
    | cons r rest => rw [assemble, assemble, ih]

theorem length_assemble (t0 : ℤ) (noSpeechProb : K) (qs : List (List (TimedToken K))) :
    (assemble v segment t0 noSpeechProb qs).length = qs.length := by
  induction qs generalizing t0 noSpeechProb with
  | nil => rfl
  | cons q qs ih =>
    cases qs with
    | nil => rfl
    | cons r rest =>
      rw [assemble, List.length_cons, ih]
      rfl

/-- **The loop makes the segments of the pieces.** `back` is the copy that is read, less the text,
the start and the probability; token `i` is next. -/
theorem wrapWhile_eq {i : ℕ} {acc : ℤ} {text : List UInt8} (res : ℕ)
    (htokens : back.tokens = segment.tokens) (h1 : back.t1 = segment.t1)
    (hturn : back.speakerTurnNext = segment.speakerTurnNext)
    (htext : text = v.textOf (segment.tokens.take i))
    (hacc : acc = v.lengthOf (segment.tokens.take i)) :
    wrapWhile v segment back done i acc text res =
      (done ++ assemble v segment back.t0 back.noSpeechProb
        (cutBy v.cut (segment.tokens.take i) (segment.tokens.drop i)),
        res + (cutBy v.cut (segment.tokens.take i) (segment.tokens.drop i)).length - 1) := by
  induction segment, back, done, i, acc, text, res using @wrapWhile.induct K _ v with
  | case1 segment back done i acc text res hi heot ih =>
    have htake : segment.tokens.take (i + 1) = segment.tokens.take i ++ [segment.tokens[i]] :=
      List.take_succ_eq_append_getElem hi
    rw [wrapWhile, dif_pos hi, if_pos heot, ih htokens h1 hturn
      (by rw [htake, textOf_concat_of_le heot, htext])
      (by rw [htake, lengthOf_concat_of_le heot, hacc]), htake, List.drop_eq_getElem_cons hi,
      cutBy_cons_of_not_cut (cut_eq_false_of_le heot)]
  | case2 segment back done i acc text res hi heot hcut ih =>
    have hlt : segment.tokens[i].id < v.tokenEot := Nat.lt_of_not_le heot
    have hpiece : v.cut (segment.tokens.take i) segment.tokens[i] = true := by
      rw [cut_iff hlt, List.length_take, Nat.min_eq_left hi.le, ← hacc]
      exact hcut
    have hdrop : segment.tokens.drop i = segment.tokens[i] :: segment.tokens.drop (i + 1) :=
      List.drop_eq_getElem_cons hi
    obtain ⟨q, qs, hq, hstart⟩ :=
      @startOf_cutBy K v segment.tokens[i] (segment.tokens.drop (i + 1))
    -- the fresh segment is cut as the rest of the old one
    have hfresh : cutBy v.cut ((segment.fresh i segment.tokens[i]).tokens.take 0)
        ((segment.fresh i segment.tokens[i]).tokens.drop 0) = q :: qs := by
      show cutBy v.cut [] (segment.tokens.drop i) = _
      rw [hdrop, ← WrapText.pieces, pieces_cons, hq]
    have ht1 : (segment.fresh i segment.tokens[i]).t1 = segment.t1 := rfl
    have hsame := @assemble_congr K _ v _ _ ht1 rfl segment.tokens[i].t0 0 (q :: qs)
    have hrest := ih rfl rfl rfl rfl rfl
    rw [hfresh] at hrest
    rw [wrapWhile, dif_pos hi, if_neg heot, dif_pos hcut, hrest, hdrop,
      cutBy_cons_of_cut hpiece, hq, assemble, hstart, ← hsame, List.append_assoc,
      List.singleton_append, RawSegment.cutOff, htokens, htext]
    refine Prod.ext rfl ?_
    simp only [List.length_cons]
    omega
  | case3 segment back done i acc text res hi heot hcut ih =>
    have hlt : segment.tokens[i].id < v.tokenEot := Nat.lt_of_not_le heot
    have htake : segment.tokens.take (i + 1) = segment.tokens.take i ++ [segment.tokens[i]] :=
      List.take_succ_eq_append_getElem hi
    have hpiece : v.cut (segment.tokens.take i) segment.tokens[i] = false := by
      rw [← Bool.not_eq_true, cut_iff hlt, List.length_take, Nat.min_eq_left hi.le, ← hacc]
      exact hcut
    rw [wrapWhile, dif_pos hi, if_neg heot, dif_neg hcut, ih htokens h1 hturn
      (by rw [htake, textOf_concat_of_lt hlt, htext]) (by rw [htake, lengthOf_concat_of_lt hlt, hacc]),
      htake, List.drop_eq_getElem_cons hi, cutBy_cons_of_not_cut hpiece]
  | case4 segment back done i acc text res hi =>
    have hle : segment.tokens.length ≤ i := Nat.le_of_not_lt hi
    rw [List.take_of_length_le hle] at htext
    rw [wrapWhile, dif_neg hi, List.drop_of_length_le hle, List.take_of_length_le hle, cutBy_nil,
      assemble, List.length_singleton, Nat.add_sub_cancel, ← h1, ← hturn, ← htext, ← htokens]

/-- What `whisper_wrap_segment` leaves. -/
theorem whisperWrapSegment_eq (v : WrapText) (init : List (RawSegment K)) (segment : RawSegment K) :
    whisperWrapSegment v (init ++ [segment]) =
      some (init ++ v.wrapped segment, (v.wrapped segment).length) := by
  have hloop := @wrapWhile_eq K _ v segment segment init 0 0 [] 1 rfl rfl rfl rfl rfl
  rw [whisperWrapSegment, List.getLast?_concat, List.dropLast_concat, Option.map_some, hloop,
    WrapText.wrapped, length_assemble, List.take_zero, List.drop_zero, Nat.add_sub_cancel_left]
  rfl

end Loop

section Assembled

variable {K : Type*} [Zero K] {v : WrapText} {segment : RawSegment K} {t0 : ℤ} {noSpeechProb : K}
  {qs : List (List (TimedToken K))}

omit [Zero K] in
theorem textOf_append_raw (xs ys : List (TimedToken K)) :
    v.textOf (xs ++ ys) = v.textOf xs ++ v.textOf ys := by
  rw [WrapText.textOf, List.filter_append, List.flatMap_append]
  rfl

theorem assemble_tokens : (assemble v segment t0 noSpeechProb qs).map RawSegment.tokens = qs := by
  induction qs generalizing t0 noSpeechProb with
  | nil => rfl
  | cons q qs ih =>
    cases qs with
    | nil => rfl
    | cons r rest => rw [assemble, List.map_cons, ih]

theorem assemble_own_text :
    ∀ p ∈ assemble v segment t0 noSpeechProb qs, p.text = v.textOf p.tokens := by
  induction qs generalizing t0 noSpeechProb with
  | nil =>
    intro p hp
    cases hp
  | cons q qs ih =>
    cases qs with
    | nil =>
      intro p hp
      rw [List.mem_singleton.mp hp]
    | cons r rest =>
      rw [assemble]
      exact List.forall_mem_cons.mpr ⟨rfl, ih⟩

theorem head_assemble (q : List (TimedToken K)) : ∃ p rest,
    assemble v segment t0 noSpeechProb (q :: qs) = p :: rest ∧ p.t0 = t0 ∧
      p.noSpeechProb = noSpeechProb := by
  cases qs with
  | nil => exact ⟨_, _, rfl, rfl, rfl⟩
  | cons r rest => exact ⟨_, _, rfl, rfl, rfl⟩

theorem getLast?_assemble (h : qs ≠ []) : ∃ p,
    (assemble v segment t0 noSpeechProb qs).getLast? = some p ∧ p.t1 = segment.t1 ∧
      p.speakerTurnNext = segment.speakerTurnNext := by
  induction qs generalizing t0 noSpeechProb with
  | nil => exact absurd rfl h
  | cons q qs ih =>
    cases qs with
    | nil => exact ⟨_, rfl, rfl, rfl⟩
    | cons r rest =>
      obtain ⟨p, hp, ht1, hturn⟩ := @ih (startOf r) 0 (List.cons_ne_nil r rest)
      exact ⟨p, by rw [assemble, List.getLast?_cons, hp, Option.getD_some], ht1, hturn⟩

theorem isChain_assemble :
    (assemble v segment t0 noSpeechProb qs).IsChain fun p q => p.t1 = q.t0 := by
  induction qs generalizing t0 noSpeechProb with
  | nil => exact List.isChain_nil
  | cons q qs ih =>
    cases qs with
    | nil => exact List.isChain_singleton _
    | cons r rest =>
      rw [assemble]
      refine List.isChain_cons.mpr ⟨fun p hp => ?_, ih⟩
      obtain ⟨p', rest', heq, ht0, -⟩ :=
        @head_assemble K _ v segment (startOf r) 0 rest r
      rw [heq, List.head?_cons, Option.mem_some_iff] at hp
      rw [← hp, ht0]

theorem assemble_inner_turn :
    ∀ p ∈ (assemble v segment t0 noSpeechProb qs).dropLast, p.speakerTurnNext = false := by
  induction qs generalizing t0 noSpeechProb with
  | nil =>
    intro p hp
    cases hp
  | cons q qs ih =>
    cases qs with
    | nil =>
      intro p hp
      cases hp
    | cons r rest =>
      obtain ⟨p', rest', heq, -, -⟩ :=
        @head_assemble K _ v segment (startOf r) 0 rest r
      have hne : assemble v segment (startOf r) 0 (r :: rest) ≠ [] := by
        rw [heq]
        exact List.cons_ne_nil _ _
      rw [assemble, List.dropLast_cons_of_ne_nil hne]
      exact List.forall_mem_cons.mpr ⟨rfl, ih⟩

omit [Zero K] in
/-- The text is that of the tokens, where every segment has its own. -/
theorem flatMap_text {segs : List (RawSegment K)} (h : ∀ p ∈ segs, p.text = v.textOf p.tokens) :
    segs.flatMap RawSegment.text = v.textOf (segs.flatMap RawSegment.tokens) := by
  induction segs with
  | nil => rfl
  | cons p segs ih =>
    obtain ⟨hp, hsegs⟩ := List.forall_mem_cons.mp h
    rw [List.flatMap_cons, List.flatMap_cons, textOf_append_raw, hp, ih hsegs]

/-- **Nothing is lost, and the times join.** -/
theorem wrapped_assemble (v : WrapText) (segment : RawSegment K) :
    Wrapped v segment (v.wrapped segment) := by
  have hne : v.pieces segment.tokens ≠ [] := cutBy_ne_nil
  have htokens : (v.wrapped segment).flatMap RawSegment.tokens = segment.tokens := by
    rw [List.flatMap_def, WrapText.wrapped, assemble_tokens, WrapText.pieces, flatten_cutBy,
      List.nil_append]
  have hown : ∀ p ∈ v.wrapped segment, p.text = v.textOf p.tokens := assemble_own_text
  obtain ⟨p, hlast, ht1, hturn⟩ :=
    @getLast?_assemble K _ v segment segment.t0 segment.noSpeechProb _ hne
  obtain ⟨q, qs, hqs⟩ := List.exists_cons_of_ne_nil hne
  obtain ⟨p', rest, hhead, ht0, -⟩ :=
    @head_assemble K _ v segment segment.t0 segment.noSpeechProb qs q
  refine
    { tokens_eq := htokens
      text_eq := by rw [flatMap_text hown, htokens]
      own_text := hown
      first := ?_
      last := by rw [WrapText.wrapped, hlast, Option.map_some, ht1]
      joined := isChain_assemble
      inner_turn := assemble_inner_turn
      last_turn := by rw [WrapText.wrapped, hlast, Option.map_some, hturn] }
  rw [WrapText.wrapped, hqs, hhead, List.head?_cons, Option.map_some, ht0]

end Assembled

end Full

end WhisperCpp
