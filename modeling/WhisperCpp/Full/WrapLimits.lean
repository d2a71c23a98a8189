import WhisperCpp.Full.WrapSegment

/-!
# How long wrapped segments are

`whisper_wrap_segment` cuts in front of a token if the text gets too long with that token. With
`split_on_word` it may only cut where a word begins, but still counts one token and not the word: a
word of several tokens that begins on a segment with a text can end behind `max_len`, and there it
cannot be cut any more.

## Main definitions

* `WrapText.Unsplittable` — a piece that cannot be cut
* `WrapText.WordsFit` — no word that is put behind another one is too long there

## Main results

* `whisperWrapSegment_spec` — what the segments are, and when none is too long
-/

namespace WhisperCpp

namespace Full

open Cuts

section Definitions

variable {K : Type*} (v : WrapText)

/-- Behind a token with a text, no token of the piece may begin one. -/
def WrapText.Unsplittable (piece : List (TimedToken K)) : Prop :=
  piece.Pairwise fun u t => u.id < v.tokenEot → v.mayBegin t = false

/-- The length of what is left of a word. -/
def WrapText.wordRest : List (TimedToken K) → ℤ
  | [] => 0
  | t :: rest =>
    if v.tokenEot ≤ t.id then wordRest rest
    else if v.mayBegin t then 0 else byteUtf8Len (v.tokenToStr t.id) + wordRest rest

/-- Where a word stays on a segment with a text because its first token fits, all of it fits. `acc`
is the length of the text, and `started` that there is a token with a text. -/
def WrapText.WordsFit : Bool → ℤ → List (TimedToken K) → Prop
  | _, _, [] => True
  | started, acc, t :: rest =>
    if v.tokenEot ≤ t.id then WordsFit started acc rest
    else if started && v.mayBegin t then
      if v.maxLen < acc + byteUtf8Len (v.tokenToStr t.id) then
        WordsFit true (byteUtf8Len (v.tokenToStr t.id)) rest
      else
        acc + byteUtf8Len (v.tokenToStr t.id) + v.wordRest rest ≤ v.maxLen ∧
          WordsFit true (acc + byteUtf8Len (v.tokenToStr t.id)) rest
    else WordsFit true (acc + byteUtf8Len (v.tokenToStr t.id)) rest

/-- There is a token with a text. -/
def WrapText.started (piece : List (TimedToken K)) : Bool :=
  piece.any fun t => decide (t.id < v.tokenEot)

end Definitions

section Fits

variable {K : Type*} {v : WrapText} {piece rest : List (TimedToken K)} {t : TimedToken K}

theorem unsplittable_concat : v.Unsplittable (piece ++ [t]) ↔
    v.Unsplittable piece ∧ (v.started piece = true → v.mayBegin t = false) := by
  rw [WrapText.Unsplittable, List.pairwise_append, WrapText.started, List.any_eq_true]
  constructor
  · rintro ⟨hpiece, -, hlast⟩
    refine ⟨hpiece, ?_⟩
    rintro ⟨u, hu, hlt⟩
    exact hlast u hu t (List.mem_singleton_self t) (of_decide_eq_true hlt)
  · rintro ⟨hpiece, hlast⟩
    refine ⟨hpiece, List.pairwise_singleton _ t, ?_⟩
    intro u hu t' ht' hlt
    rw [List.mem_singleton.mp ht']
    exact hlast ⟨u, hu, decide_eq_true hlt⟩

theorem unsplittable_singleton (t : TimedToken K) : v.Unsplittable [t] := List.pairwise_singleton _ t

theorem mayBegin_of_le (h : v.tokenEot ≤ t.id) : v.mayBegin t = false := by
  rw [WrapText.mayBegin, decide_eq_false (Nat.not_lt.mpr h), Bool.false_and]

theorem started_concat_of_le (h : v.tokenEot ≤ t.id) :
    v.started (piece ++ [t]) = v.started piece := by
  simp [WrapText.started, Nat.not_lt.mpr h]

theorem started_concat_of_lt (h : t.id < v.tokenEot) : v.started (piece ++ [t]) = true := by
  simp [WrapText.started, h]

/-- Without a token that has a text, there is no text. -/
theorem lengthOf_of_not_started (h : v.started piece = false) : v.lengthOf piece = 0 := by
  rw [WrapText.started] at h
  rw [WrapText.lengthOf, WrapText.textOf, List.filter_eq_nil_iff.mpr (List.any_eq_false.mp h)]
  rfl

theorem unsplittable_of_not_started (h : v.started piece = false) : v.Unsplittable piece := by
  refine List.Pairwise.imp_of_mem ?_ (List.pairwise_of_forall fun _ _ => trivial)
  intro u t hu _ _ hlt
  exact absurd (decide_eq_true hlt) (List.any_eq_false.mp h u hu)

theorem ne_nil_of_started (h : v.started piece = true) : piece ≠ [] := by
  rintro rfl
  cases h

/-- A piece that can be cut and will be too long leaves one that is. -/
theorem exists_too_long (hsplit : ¬ v.Unsplittable piece)
    (hlong : v.maxLen < v.lengthOf piece + v.wordRest rest) :
    ∃ q ∈ cutBy v.cut piece rest, v.maxLen < v.lengthOf q ∧ ¬ v.Unsplittable q := by
  induction rest generalizing piece with
  | nil =>
    rw [WrapText.wordRest, add_zero] at hlong
    exact ⟨piece, List.mem_singleton_self piece, hlong, hsplit⟩
  | cons t rest ih =>
    have hnext : ¬ v.Unsplittable (piece ++ [t]) := fun h => hsplit (unsplittable_concat.mp h).1
    rw [WrapText.wordRest] at hlong
    by_cases heot : v.tokenEot ≤ t.id
    · rw [if_pos heot, ← lengthOf_concat_of_le heot] at hlong
      rw [cutBy_cons_of_not_cut (cut_eq_false_of_le heot)]
      exact ih hnext hlong
    have hlt : t.id < v.tokenEot := Nat.lt_of_not_le heot
    rw [if_neg heot] at hlong
    by_cases hbegin : v.mayBegin t = true
    · -- the next word is cut off, since the piece is too long without it
      rw [if_pos hbegin, add_zero] at hlong
      have hstarted : v.started piece = true := by
        by_contra h
        exact hsplit (unsplittable_of_not_started (Bool.eq_false_iff.mpr h))
      have hword := (Bool.and_eq_true_iff.mp hbegin).2
      have hcut : v.cut piece t = true := by
        refine (cut_iff hlt).mpr ⟨?_, List.length_pos_iff.mpr (ne_nil_of_started hstarted), hword⟩
        have hnonneg := byteUtf8Len_nonneg (v.tokenToStr t.id)
        omega
      rw [cutBy_cons_of_cut hcut]
      exact ⟨piece, List.mem_cons_self, hlong, hsplit⟩
    · have hcut : v.cut piece t = false := by
        rw [WrapText.cut, Bool.eq_false_iff.mpr hbegin, Bool.false_and, Bool.false_and]
      rw [if_neg hbegin, ← add_assoc, ← lengthOf_concat_of_lt hlt] at hlong
      rw [cutBy_cons_of_not_cut hcut]
      exact ih hnext hlong

/-- **Where words fit, pieces do.** The induction carries that the piece fits with the rest of its
last word, or cannot be cut so far. -/
theorem pieces_fit_iff
    (hpiece : v.lengthOf piece + v.wordRest rest ≤ v.maxLen ∨ v.Unsplittable piece) :
    (∀ q ∈ cutBy v.cut piece rest, v.lengthOf q ≤ v.maxLen ∨ v.Unsplittable q) ↔
      v.WordsFit (v.started piece) (v.lengthOf piece) rest := by
  induction rest generalizing piece with
  | nil =>
    rw [WrapText.wordRest, add_zero] at hpiece
    rw [cutBy_nil, List.forall_mem_singleton, WrapText.WordsFit]
    exact iff_true_intro hpiece
  | cons t rest ih =>
    rw [WrapText.WordsFit]
    by_cases heot : v.tokenEot ≤ t.id
    · rw [if_pos heot, cutBy_cons_of_not_cut (cut_eq_false_of_le heot), ih,
        started_concat_of_le heot, lengthOf_concat_of_le heot]
      rw [lengthOf_concat_of_le heot]
      rw [WrapText.wordRest, if_pos heot] at hpiece
      exact hpiece.imp_right fun h => unsplittable_concat.mpr ⟨h, fun _ => mayBegin_of_le heot⟩
    have hlt : t.id < v.tokenEot := Nat.lt_of_not_le heot
    have hsingle : v.lengthOf [t] = byteUtf8Len (v.tokenToStr t.id) := by
      rw [← List.nil_append [t], lengthOf_concat_of_lt hlt]
      exact zero_add _
    have hstart : v.started [t] = true := by
      rw [← List.nil_append [t], started_concat_of_lt hlt]
    have hnew : (∀ q ∈ cutBy v.cut [t] rest, v.lengthOf q ≤ v.maxLen ∨ v.Unsplittable q) ↔
        v.WordsFit true (byteUtf8Len (v.tokenToStr t.id)) rest := by
      rw [ih (.inr (unsplittable_singleton t)), hsingle, hstart]
    rw [if_neg heot]
    by_cases hstarted : v.started piece = true
    · by_cases hbegin : v.mayBegin t = true
      · rw [hstarted, hbegin, Bool.and_self, if_pos rfl]
        rw [WrapText.wordRest, if_neg heot, if_pos hbegin, add_zero] at hpiece
        have hiff := @cut_iff K v piece t hlt
        have hpos := List.length_pos_iff.mpr (ne_nil_of_started hstarted)
        have hword := (Bool.and_eq_true_iff.mp hbegin).2
        by_cases hlong : v.maxLen < v.lengthOf piece + byteUtf8Len (v.tokenToStr t.id)
        · rw [if_pos hlong, cutBy_cons_of_cut (hiff.mpr ⟨hlong, hpos, hword⟩),
            List.forall_mem_cons, hnew]
          exact and_iff_right hpiece
        · have hcut : v.cut piece t = false := by
            rw [← Bool.not_eq_true, hiff]
            exact fun h => hlong h.1
          rw [if_neg hlong, cutBy_cons_of_not_cut hcut, ← lengthOf_concat_of_lt hlt]
          have hsplit : ¬ v.Unsplittable (piece ++ [t]) := by
            intro h
            rw [(unsplittable_concat.mp h).2 hstarted] at hbegin
            cases hbegin
          by_cases hfit : v.lengthOf (piece ++ [t]) + v.wordRest rest ≤ v.maxLen
          · rw [ih (.inl hfit), started_concat_of_lt hlt]
            exact (and_iff_right hfit).symm
          · refine ⟨fun hall => ?_, fun h => absurd h.1 hfit⟩
            obtain ⟨q, hq, hqlong, hqsplit⟩ := exists_too_long hsplit (not_le.mp hfit)
            exact absurd (hall q hq) (not_or.mpr ⟨not_le.mpr hqlong, hqsplit⟩)
      · -- the word goes on
        have hcut : v.cut piece t = false := by
          rw [WrapText.cut, Bool.eq_false_iff.mpr hbegin, Bool.false_and, Bool.false_and]
        rw [hstarted, Bool.eq_false_iff.mpr hbegin, Bool.and_false, if_neg Bool.false_ne_true,
          cutBy_cons_of_not_cut hcut, ih, started_concat_of_lt hlt, lengthOf_concat_of_lt hlt]
        rw [WrapText.wordRest, if_neg heot, if_neg hbegin, ← add_assoc,
          ← lengthOf_concat_of_lt hlt] at hpiece
        exact hpiece.imp_right fun h =>
          unsplittable_concat.mpr ⟨h, fun _ => Bool.eq_false_iff.mpr hbegin⟩
    · -- the first token with a text, after special ones
      have hnone : v.started piece = false := Bool.eq_false_iff.mpr hstarted
      have hun : v.Unsplittable piece := unsplittable_of_not_started hnone
      rw [hnone, Bool.false_and, if_neg Bool.false_ne_true, lengthOf_of_not_started hnone, zero_add]
      cases hcut : v.cut piece t with
      | true =>
        rw [cutBy_cons_of_cut hcut, List.forall_mem_cons, hnew]
        exact and_iff_right (.inr hun)
      | false =>
        have hnext : v.Unsplittable (piece ++ [t]) :=
          unsplittable_concat.mpr ⟨hun, fun h => absurd h hstarted⟩
        rw [cutBy_cons_of_not_cut hcut, ih (.inr hnext), started_concat_of_lt hlt,
          lengthOf_concat_of_lt hlt, lengthOf_of_not_started hnone, zero_add]

/-- The pieces of all tokens. -/
theorem forall_pieces_fit_iff (tokens : List (TimedToken K)) :
    (∀ q ∈ v.pieces tokens, v.lengthOf q ≤ v.maxLen ∨ v.Unsplittable q) ↔
      v.WordsFit false 0 tokens :=
  pieces_fit_iff (.inr List.Pairwise.nil)

end Fits

section Spec

variable {K : Type*} [Zero K]

/-- A segment is as long as the piece that it is made of. -/
theorem forall_segments_iff {v : WrapText} {segment : RawSegment K}
    {P : List (TimedToken K) → Prop} :
    (∀ p ∈ v.wrapped segment, P p.tokens) ↔ ∀ q ∈ v.pieces segment.tokens, P q := by
  have hmap : (v.wrapped segment).map RawSegment.tokens = v.pieces segment.tokens := assemble_tokens
  rw [← hmap, List.forall_mem_map]

/-- **What `whisper_wrap_segment` does.** The last segment becomes segments with all that it has and
their number is returned. They are not longer than `max_len`, but for those that cannot be cut, iff
no word is put behind another one that does not fit there. -/
theorem whisperWrapSegment_spec (v : WrapText) (init : List (RawSegment K)) (segment : RawSegment K) :
    ∃ segs, whisperWrapSegment v (init ++ [segment]) = some (init ++ segs, segs.length) ∧
      Wrapped v segment segs ∧
      ((∀ p ∈ segs, byteUtf8Len p.text ≤ v.maxLen ∨ v.Unsplittable p.tokens) ↔
        v.WordsFit false 0 segment.tokens) := by
  have hwrapped := wrapped_assemble v segment
  refine ⟨v.wrapped segment, whisperWrapSegment_eq v init segment, hwrapped, ?_⟩
  rw [← forall_pieces_fit_iff,
    ← forall_segments_iff (P := fun q => v.lengthOf q ≤ v.maxLen ∨ v.Unsplittable q)]
  refine forall₂_congr fun p hp => ?_
  rw [hwrapped.own_text p hp, WrapText.lengthOf]

/-- The tokens `" a"`, `" bcd"` and `"efg"`, and segments of six characters. -/
def twoWords : WrapText where
  tokenEot := 3
  tokenToStr id := if id = 0 then [32, 97] else if id = 1 then [32, 98, 99, 100] else [101, 102, 103]
  maxLen := 6
  splitOnWord := true

/-- A segment with these tokens. -/
def twoWordsSegment : RawSegment ℚ where
  t0 := 0
  t1 := 90
  text := []
  noSpeechProb := 0
  tokens := [⟨⟨0, 0, 0, 0, 0, 0⟩, 0⟩, ⟨⟨1, 0, 0, 0, 0, 0⟩, 30⟩, ⟨⟨2, 0, 0, 0, 0, 0⟩, 60⟩]
  speakerTurnNext := false

/-- `" bcd"` fits behind `" a"`, and then `"efg"` is too long and cannot be cut off. -/
theorem not_forall_wrap_fits : ¬ ∀ (v : WrapText) (init : List (RawSegment ℚ))
    (segment : RawSegment ℚ),
    ∃ segs, whisperWrapSegment v (init ++ [segment]) = some (init ++ segs, segs.length) ∧
      Wrapped v segment segs ∧
      ∀ p ∈ segs, byteUtf8Len p.text ≤ v.maxLen ∨ v.Unsplittable p.tokens := by
  intro h
  obtain ⟨segs, heq, hwrapped, hfit⟩ := h twoWords [] twoWordsSegment
  rw [whisperWrapSegment_eq, Option.some_inj, Prod.mk.injEq, List.nil_append,
    List.nil_append] at heq
  have hpieces : twoWords.pieces twoWordsSegment.tokens = [twoWordsSegment.tokens] := rfl
  rw [WrapText.wrapped, hpieces] at heq
  rw [← heq.1] at hfit
  rcases hfit _ (List.mem_singleton_self _) with hlen | hun
  · exact absurd hlen (by decide)
  · have hsecond := List.rel_of_pairwise_cons hun (List.mem_cons_self)
    exact absurd (hsecond (by decide)) (by decide)

end Spec

end Full

end WhisperCpp
