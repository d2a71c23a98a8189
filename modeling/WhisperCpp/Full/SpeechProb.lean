import WhisperCpp.Full.WrapLimits

/-!
# The probability of silence of wrapped segments

A segment is emitted with the `no_speech_prob` of its window. Where `whisper_wrap_segment` cuts, it
pushes a segment of zeros and fills in the times, the tokens and the speaker turn, but not the
probability.

## Main definitions

* `WrapText.Uncut` — the tokens of a segment fit
* `wrapText` — the wrapping of a run
* `whisperFullGetSegmentNoSpeechProb`
* `NothingCut` — the segments of a window are stored as they are emitted

## Main results

* `noSpeechProb_kept_iff` — the segments have the probability of the one that they are cut from iff
  that is zero or nothing is cut
-/

namespace WhisperCpp

namespace Full

open Cuts

section Raw

variable {K : Type*}

/-- In front of no token but the first one, where a piece may begin, the text is too long with the
token. -/
def WrapText.Uncut (v : WrapText) (tokens : List (TimedToken K)) : Prop :=
  ∀ pre t post, tokens = pre ++ t :: post → pre ≠ [] → v.mayBegin t = true →
    v.lengthOf (pre ++ [t]) ≤ v.maxLen

theorem uncut_iff {v : WrapText} {tokens : List (TimedToken K)} :
    v.Uncut tokens ↔ (v.pieces tokens).length = 1 := by
  rw [WrapText.pieces, length_cutBy_eq_one_iff, cutBy_eq_singleton_iff, WrapText.Uncut]
  refine forall₃_congr fun pre t post => imp_congr_right fun _ => ?_
  rw [List.nil_append, WrapText.cut, ← Bool.not_eq_true, Bool.and_eq_true, Bool.and_eq_true,
    Bool.not_eq_true', List.isEmpty_eq_false_iff, decide_eq_true_eq, ← not_le]
  tauto

/-- A value in front of zeros. -/
theorem forall_mem_cons_replicate_zero [Zero K] (c : K) (n : ℕ) :
    (∀ x ∈ c :: List.replicate n 0, x = c) ↔ c = 0 ∨ n = 0 := by
  rw [List.forall_mem_cons, and_iff_right rfl]
  constructor
  · intro h
    by_cases hn : n = 0
    · exact .inr hn
    · exact .inl (h 0 (List.mem_replicate.mpr ⟨hn, rfl⟩)).symm
  · rintro (rfl | rfl) x hx
    · exact (List.mem_replicate.mp hx).2
    · cases hx

/-- The first segment has the probability, and those that are pushed have none. -/
theorem assemble_noSpeechProb [Zero K] {v : WrapText} {segment : RawSegment K} {t0 : ℤ}
    {noSpeechProb : K} (q : List (TimedToken K)) (qs : List (List (TimedToken K))) :
    (assemble v segment t0 noSpeechProb (q :: qs)).map RawSegment.noSpeechProb =
      noSpeechProb :: List.replicate qs.length 0 := by
  induction qs generalizing q t0 noSpeechProb with
  | nil => rfl
  | cons r rest ih =>
    rw [assemble, List.map_cons, ih, List.length_cons, List.replicate_succ]

theorem wrapped_noSpeechProb [Zero K] (v : WrapText) (segment : RawSegment K) :
    (v.wrapped segment).map RawSegment.noSpeechProb =
      segment.noSpeechProb :: List.replicate ((v.pieces segment.tokens).length - 1) 0 := by
  have hne : v.pieces segment.tokens ≠ [] := cutBy_ne_nil
  obtain ⟨q, qs, hqs⟩ := List.exists_cons_of_ne_nil hne
  rw [WrapText.wrapped, hqs, assemble_noSpeechProb, List.length_cons, Nat.add_sub_cancel]

/-- When all segments have the probability. -/
theorem forall_wrapped_noSpeechProb_iff [Zero K] {v : WrapText} {segment : RawSegment K} :
    (∀ p ∈ v.wrapped segment, p.noSpeechProb = segment.noSpeechProb) ↔
      segment.noSpeechProb = 0 ∨ v.Uncut segment.tokens := by
  have hpos : (v.pieces segment.tokens).length ≠ 0 := fun h =>
    cutBy_ne_nil (List.length_eq_zero_iff.mp h)
  have hone : (v.pieces segment.tokens).length - 1 = 0 ↔ (v.pieces segment.tokens).length = 1 := by
    omega
  rw [uncut_iff, ← hone, ← forall_mem_cons_replicate_zero, ← wrapped_noSpeechProb,
    List.forall_mem_map]

end Raw

/-! ### The segments of a window -/

section Window

variable {K F G : Type*} [Field K] [LinearOrder K]

/-- What `whisper_wrap_segment` is given in a run. -/
def wrapText (ctx : Context K F G) (w : WrapParams) : WrapText where
  tokenEot := ctx.vocab.tokenEot
  tokenToStr id := (ctx.vocab.idToToken id).toUTF8.toList
  maxLen := w.maxLen
  splitOnWord := w.splitOnWord

/-- A token, with a time that makes no difference to where it is cut. -/
def untimed (t : TokenData K) : TimedToken K := ⟨t, 0⟩

/-- `whisper_full_get_segment_no_speech_prob`. There is no answer behind the last segment. -/
def whisperFullGetSegmentNoSpeechProb (resultAll : List (Segment K)) (iSegment : ℕ) : Option K :=
  resultAll[iSegment]?.map Segment.noSpeechProb

theorem toList_loop_eq_drop (bytes : ByteArray) (i : ℕ) (r : List UInt8) :
    ByteArray.toList.loop bytes i r = r.reverse ++ bytes.data.toList.drop i := by
  induction i, r using ByteArray.toList.loop.induct bytes with
  | case1 i r hlt ih =>
    have hi : i < bytes.data.toList.length := hlt
    have hget : bytes.get! i = bytes.data.toList[i] := getElem!_pos bytes.data i hlt
    rw [ByteArray.toList.loop, if_pos hlt, ih, List.drop_eq_getElem_cons hi, hget,
      List.reverse_cons, List.append_assoc, List.singleton_append]
  | case2 i r hge =>
    rw [ByteArray.toList.loop, if_neg hge, List.drop_of_length_le (Nat.le_of_not_lt hge),
      List.append_nil]

theorem toList_eq_data_toList (bytes : ByteArray) : bytes.toList = bytes.data.toList := by
  rw [ByteArray.toList, toList_loop_eq_drop]
  rfl

/-- Only the space is encoded with the byte of a space in front. -/
theorem head?_utf8EncodeChar (c : Char) :
    (String.utf8EncodeChar c).head? = some 0x20 ↔ c = ' ' := by
  constructor
  · intro h
    refine Char.ext (UInt32.toNat_inj.mp ?_)
    rw [String.utf8EncodeChar] at h
    have hbyte : ∀ n : ℕ, UInt8.ofNat n = 0x20 → n % 256 = 32 := fun n hn => by
      rw [← UInt8.toNat_ofNat', hn]
      rfl
    show c.val.toNat = 32
    split_ifs at h
    all_goals
      have hn := hbyte _ (Option.some_inj.mp h)
      omega
  · rintro rfl
    rfl

theorem byteShouldSplitOnWord_toUTF8 (txt : String) (splitOnWord : Bool) :
    byteShouldSplitOnWord txt.toUTF8.toList splitOnWord = shouldSplitOnWord txt splitOnWord := by
  rw [byteShouldSplitOnWord, shouldSplitOnWord, String.toUTF8_eq_toByteArray,
    ← String.utf8Encode_toList, toList_eq_data_toList]
  congr 1
  cases txt.toList with
  | nil => rfl
  | cons c cs =>
    rw [List.utf8Encode_cons, List.utf8Encode_singleton, ByteArray.toList_data_append,
      List.toList_data_toByteArray, List.head?_append_of_ne_nil _ String.utf8EncodeChar_ne_nil,
      Bool.eq_iff_iff, beq_iff_eq, beq_iff_eq, head?_utf8EncodeChar, List.head?_cons,
      Option.some_inj]

variable {ctx : Context K F G} {w : WrapParams} {segment : Segment K} {times : ℕ → ℤ}

/-- **The loop over a stored segment cuts the same pieces.** -/
theorem wrapLoop_noSpeechProb {i : ℕ} {t0 : ℤ} {noSpeechProb : K} {text : String} {acc : ℤ}
    {tokens rest : List (TokenData K)}
    (hacc : acc = (wrapText ctx w).lengthOf (tokens.map untimed)) :
    (wrapLoop ctx w segment times i t0 noSpeechProb text acc tokens rest).1.map
        Segment.noSpeechProb =
      noSpeechProb :: List.replicate ((cutBy (wrapText ctx w).cut (tokens.map untimed)
        (rest.map untimed)).length - 1) 0 := by
  induction rest generalizing i t0 noSpeechProb text acc tokens with
  | nil => rfl
  | cons t rest ih =>
    have hmap : (tokens ++ [t]).map untimed = tokens.map untimed ++ [untimed t] := List.map_append
    rw [wrapLoop, List.map_cons]
    by_cases heot : ctx.vocab.tokenEot ≤ t.id
    · have hcut : (wrapText ctx w).cut (tokens.map untimed) (untimed t) = false :=
        cut_eq_false_of_le heot
      rw [if_pos heot, cutBy_cons_of_not_cut hcut, ← hmap]
      refine ih ?_
      rw [hmap, lengthOf_concat_of_le heot, hacc]
    · have hlt : (untimed t).id < (wrapText ctx w).tokenEot := Nat.lt_of_not_le heot
      have hcut := @cut_iff K (wrapText ctx w) (tokens.map untimed) (untimed t) hlt
      have hword : byteShouldSplitOnWord ((wrapText ctx w).tokenToStr (untimed t).id)
          (wrapText ctx w).splitOnWord =
            shouldSplitOnWord (ctx.vocab.idToToken t.id) w.splitOnWord :=
        byteShouldSplitOnWord_toUTF8 _ _
      rw [hword, ← hacc, List.length_map, List.length_pos_iff] at hcut
      rw [if_neg heot]
      simp only
      split
      · rename_i h
        rw [Bool.and_eq_true, Bool.and_eq_true, Bool.not_eq_true', List.isEmpty_eq_false_iff,
          decide_eq_true_eq] at h
        have hpos : (cutBy (wrapText ctx w).cut [untimed t] (rest.map untimed)).length ≠ 0 :=
          fun hzero => cutBy_ne_nil (List.length_eq_zero_iff.mp hzero)
        rw [cutBy_cons_of_cut (hcut.mpr ⟨h.1.1, h.1.2, h.2⟩), List.map_cons, List.length_cons,
          Nat.add_sub_cancel, ih]
        · rw [List.map_singleton, ← List.replicate_succ, Nat.sub_add_cancel (by omega)]
        · rw [List.map_singleton, ← List.nil_append [untimed t], lengthOf_concat_of_lt hlt]
          exact (zero_add _).symm
      · rename_i h
        rw [Bool.and_eq_true, Bool.and_eq_true, Bool.not_eq_true', List.isEmpty_eq_false_iff,
          decide_eq_true_eq, and_assoc] at h
        rw [cutBy_cons_of_not_cut (Bool.eq_false_iff.mpr (hcut.not.mpr h)), ← hmap]
        refine ih ?_
        rw [hmap, lengthOf_concat_of_lt hlt, hacc]
        rfl

/-- The segments of a window are stored as they are emitted. -/
def NothingCut (ctx : Context K F G) (w : WrapParams) (s : State K F G) : Prop :=
  (w.tokenTimestamps && decide (0 < w.maxLen)) = false ∨
    ∀ segment ∈ windowSegments ctx s, (wrapText ctx w).Uncut (segment.tokens.map untimed)

/-- When all segments that a stored one is wrapped to have its probability. -/
theorem wrapSegment_noSpeechProb_iff :
    (∀ p ∈ (wrapSegment ctx w times segment).1, p.noSpeechProb = segment.noSpeechProb) ↔
      segment.noSpeechProb = 0 ∨ (w.tokenTimestamps && decide (0 < w.maxLen)) = false ∨
        (wrapText ctx w).Uncut (segment.tokens.map untimed) := by
  rw [wrapSegment]
  cases hwrap : w.tokenTimestamps && decide (0 < w.maxLen) with
  | false =>
    rw [if_neg Bool.false_ne_true]
    refine iff_of_true ?_ (.inr (.inl rfl))
    intro p hp
    rw [List.mem_singleton.mp hp]
  | true =>
    have hloop := @wrapLoop_noSpeechProb K F G _ _ ctx w segment times 0 segment.t0
      segment.noSpeechProb "" 0 [] segment.tokens rfl
    have hpos : ((wrapText ctx w).pieces (segment.tokens.map untimed)).length ≠ 0 := fun h =>
      cutBy_ne_nil (List.length_eq_zero_iff.mp h)
    have hone : ((wrapText ctx w).pieces (segment.tokens.map untimed)).length - 1 = 0 ↔
        ((wrapText ctx w).pieces (segment.tokens.map untimed)).length = 1 := by omega
    rw [if_pos rfl, ← List.forall_mem_map
      (P := fun x => x = segment.noSpeechProb) (f := Segment.noSpeechProb), hloop,
      forall_mem_cons_replicate_zero, uncut_iff, ← hone]
    exact or_congr_right (or_iff_right (by decide)).symm

/-- The segments of a window have its probability. -/
theorem segmentLoop_noSpeechProb {p : Params K F G} {seek seekDelta : ℤ} {noSpeechProb : K}
    {skipping : Bool} {t0 : ℤ} {text : String} {turn : Bool} {tokens rest : List (TokenData K)} :
    ∀ seg ∈ segmentLoop ctx p seek seekDelta noSpeechProb skipping t0 text turn tokens rest,
      seg.noSpeechProb = noSpeechProb := by
  induction rest generalizing skipping t0 text turn tokens with
  | nil =>
    intro seg hseg
    rw [segmentLoop] at hseg
    split at hseg
    · cases hseg
    · rw [List.mem_singleton.mp hseg]
  | cons t rest ih =>
    rw [segmentLoop]
    split
    · exact ih
    · simp only
      split
      · refine List.forall_mem_append.mpr ⟨?_, ih⟩
        intro seg hseg
        rw [List.mem_ite_nil_left] at hseg
        rw [List.mem_singleton.mp hseg.2]
      · exact ih

theorem windowSegments_noSpeechProb (s : State K F G) :
    ∀ seg ∈ windowSegments ctx s, seg.noSpeechProb = s.noSpeechProb := by
  rw [windowSegments]
  split
  · cases s.best.sequence.tokens with
    | nil =>
      intro seg hseg
      cases hseg
    | cons t rest => exact segmentLoop_noSpeechProb
  · intro seg hseg
    cases hseg

theorem wrapAll_noSpeechProb_iff {times : ℕ → ℕ → ℤ} {segs : List (Segment K)} {c : K}
    (h : ∀ seg ∈ segs, seg.noSpeechProb = c) :
    (∀ p ∈ (wrapAll ctx w times segs).flatMap Prod.fst, p.noSpeechProb = c) ↔
      ∀ seg ∈ segs, c = 0 ∨ (w.tokenTimestamps && decide (0 < w.maxLen)) = false ∨
        (wrapText ctx w).Uncut (seg.tokens.map untimed) := by
  induction segs generalizing times with
  | nil => exact iff_of_true nofun nofun
  | cons segment segs ih =>
    obtain ⟨hsegment, hsegs⟩ := List.forall_mem_cons.mp h
    have hfirst := @wrapSegment_noSpeechProb_iff K F G _ _ ctx w segment (times 0)
    rw [hsegment] at hfirst
    rw [wrapAll, List.mapIdx_cons, List.flatMap_cons, List.forall_mem_append,
      List.forall_mem_cons, hfirst]
    exact and_congr_right fun _ => ih hsegs

theorem windowResults_noSpeechProb_iff {times : ℕ → ℕ → ℤ} {s : State K F G} :
    (∀ p ∈ windowResults ctx w times s, p.noSpeechProb = s.noSpeechProb) ↔
      s.noSpeechProb = 0 ∨ NothingCut ctx w s := by
  rw [windowResults, wrapAll_noSpeechProb_iff (windowSegments_noSpeechProb s), NothingCut]
  simp only [forall_or_left]

/-- **When wrapping keeps the probability.** All segments that one is cut into have its probability
iff that is zero or there is nothing to cut. So it is for all segments of a window, wherever they are
stored. -/
theorem noSpeechProb_kept_iff :
    (∀ (v : WrapText) (init : List (RawSegment K)) (segment : RawSegment K), ∃ segs,
      whisperWrapSegment v (init ++ [segment]) = some (init ++ segs, segs.length) ∧
        ((∀ p ∈ segs, p.noSpeechProb = segment.noSpeechProb) ↔
          segment.noSpeechProb = 0 ∨ v.Uncut segment.tokens)) ∧
    ∀ (ctx : Context K F G) (w : WrapParams) (times : ℕ → ℕ → ℤ) (s : State K F G)
      (before behind : List (Segment K)),
      (∀ i, before.length ≤ i → i < before.length + (windowResults ctx w times s).length →
        whisperFullGetSegmentNoSpeechProb (before ++ (windowResults ctx w times s ++ behind)) i =
          some s.noSpeechProb) ↔
        s.noSpeechProb = 0 ∨ NothingCut ctx w s := by
  constructor
  · intro v init segment
    exact ⟨v.wrapped segment, whisperWrapSegment_eq v init segment, forall_wrapped_noSpeechProb_iff⟩
  · intro ctx w times s before behind
    rw [← @windowResults_noSpeechProb_iff K F G _ _ ctx w times s, List.forall_mem_iff_getElem]
    constructor
    · intro h i hi
      have hget := h (before.length + i) (Nat.le_add_right _ _) (by omega)
      rw [whisperFullGetSegmentNoSpeechProb, List.getElem?_append_right (Nat.le_add_right _ _),
        Nat.add_sub_cancel_left, List.getElem?_append_left hi, List.getElem?_eq_getElem hi,
        Option.map_some, Option.some_inj] at hget
      exact hget
    · intro h i hle hlt
      have hi : i - before.length < (windowResults ctx w times s).length := by omega
      rw [whisperFullGetSegmentNoSpeechProb, List.getElem?_append_right hle,
        List.getElem?_append_left hi, List.getElem?_eq_getElem hi, Option.map_some, h]

end Window

/-- A segment of two tokens of one character, with a probability. -/
def doubtfulSegment : RawSegment ℚ where
  t0 := 0
  t1 := 60
  text := []
  noSpeechProb := 1
  tokens := [⟨⟨0, 0, 0, 0, 0, 0⟩, 0⟩, ⟨⟨1, 0, 0, 0, 0, 0⟩, 30⟩]
  speakerTurnNext := false

/-- The segment behind the cut has the probability zero. -/
theorem not_forall_noSpeechProb_kept : ¬ ∀ (v : WrapText) (init : List (RawSegment ℚ))
    (segment : RawSegment ℚ), ∃ segs,
      whisperWrapSegment v (init ++ [segment]) = some (init ++ segs, segs.length) ∧
        ∀ p ∈ segs, p.noSpeechProb = segment.noSpeechProb := by
  intro h
  obtain ⟨segs, heq, hkept⟩ := h ⟨2, fun _ => [97], 1, false⟩ [] doubtfulSegment
  rw [whisperWrapSegment_eq, Option.some_inj, Prod.mk.injEq, List.nil_append,
    List.nil_append] at heq
  have hwrapped : (WrapText.wrapped ⟨2, fun _ => [97], 1, false⟩ doubtfulSegment).map
      RawSegment.noSpeechProb = [1, 0] := rfl
  have hzero : (0 : ℚ) ∈ segs.map RawSegment.noSpeechProb := by
    rw [← heq.1, hwrapped]
    exact List.mem_cons_of_mem _ (List.mem_singleton_self 0)
  obtain ⟨p, hp, hpzero⟩ := List.mem_map.mp hzero
  have hone := hkept p hp
  rw [hpzero] at hone
  exact absurd hone (by decide)

end Full

end WhisperCpp
