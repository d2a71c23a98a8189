import WhisperCpp.Chatterbox.LiveInput
import WhisperCpp.Library.Utf8Cuts

/-!
# Segments and code points

`split_text_for_tts` and `pop_sentence` count bytes. Behind the end of a sentence, a pause or
whitespace a code point starts, but a break as a last resort, and the piece that is flushed when too
much is pending, can end inside of one.

## Main definitions

* `BreaksWhole` — the last resort breaks no code point of a sentence
* `CutsFit`, `SegmentsFit` — the cuts that pass 3 leaves

## Main results

* `splitTextForTts_valid_iff` — when the segments are valid
* `cutsFit_refineFrom_iff` — which breaks of a sentence are undone
* `segmentsFit_iff` — below `2 ^ 31` bytes it is the last resort alone that decides
* `popSentence_valid` — a sentence is valid
* `cuts_valid_iff` — when what is cut is valid
-/

namespace WhisperCpp

namespace Chatterbox

open T3Model (toInt toInt_eq_iff)
open Utf8Cuts

section Definitions

variable (maxChars : ℤ)

/-- Wherever pass 2 breaks as a last resort, a code point starts, or the sentence ends with this
byte: then the two parts are joined again. -/
def BreaksWhole (acc : List UInt8) : List UInt8 → Prop
  | [] => True
  | c :: rest =>
    if isPause c && rest.head?.any isWs && decide (maxChars.tdiv 2 < toInt (acc ++ [c]).length) then
      BreaksWhole [] (rest.dropWhile isWs)
    else if ¬ toInt (acc ++ [c]).length < maxChars then
      (rest = [] ∨ Starts ((acc ++ [c]).drop (hardBreak maxChars (acc ++ [c])) ++ rest)) ∧
        BreaksWhole ((acc ++ [c]).drop (hardBreak maxChars (acc ++ [c]))) rest
    else BreaksWhole (acc ++ [c]) rest
termination_by s => s.length
decreasing_by
  · exact Nat.lt_succ_of_le (List.dropWhile_sublist isWs).length_le
  · exact Nat.lt_succ_self _
  · exact Nat.lt_succ_self _

/-- Wherever pass 3 does not join a fragment to `out.back()`, a code point starts. -/
def CutsFit (back : List UInt8) : List (List UInt8) → Prop
  | [] => True
  | s :: rest =>
    if toInt (back.length + s.length) ≤ maxChars then CutsFit (back ++ s) rest
    else Starts s ∧ CutsFit s rest

/-- Every break inside of a code point is undone when fragments are joined. -/
def SegmentsFit (text : List UInt8) : Prop :=
  0 < maxChars → ∀ s rest, refined maxChars text = s :: rest → CutsFit maxChars s rest

end Definitions

/-! ### ASCII -/

section Ascii

variable {c : UInt8} {a b w : List UInt8}

theorem lt_of_isWs (h : isWs c = true) : c < 128 := by
  rw [isWs, Bool.or_eq_true, Bool.and_eq_true, decide_eq_true_iff, decide_eq_true_iff,
    beq_iff_eq] at h
  obtain ⟨-, hle⟩ | rfl := h
  · exact UInt8.lt_of_le_of_lt hle (by decide)
  · decide

theorem lt_of_isPause (h : isPause c = true) : c < 128 := by
  rw [isPause, Bool.or_eq_true, Bool.or_eq_true, beq_iff_eq, beq_iff_eq, beq_iff_eq] at h
  obtain (rfl | rfl) | rfl := h <;> decide

theorem lt_of_isStop (h : isStop c = true) : c < 128 := by
  rw [isStop, Bool.or_eq_true, Bool.or_eq_true, beq_iff_eq, beq_iff_eq, beq_iff_eq] at h
  obtain (rfl | rfl) | rfl := h <;> decide

theorem valid_of_all (h : w.all isWs = true) : Valid w :=
  valid_of_forall_lt fun _ hc => lt_of_isWs (List.all_eq_true.1 h _ hc)

/-- **Behind an ASCII byte and whitespace** a code point starts. -/
theorem valid_behind (h : Valid (a ++ [c] ++ w ++ b)) (hc : c < 128) (hw : w.all isWs = true) :
    Valid (a ++ [c] ++ w) ∧ Valid b := by
  refine h.of_append ?_
  induction w using List.reverseRecOn with
  | nil =>
    rw [List.append_nil, List.append_assoc, List.singleton_append] at h
    exact starts_behind h hc
  | append_singleton w d _ =>
    rw [List.all_append, Bool.and_eq_true, List.all_cons, Bool.and_eq_true] at hw
    rw [← List.append_assoc, List.append_assoc, List.singleton_append] at h
    exact starts_behind h (lt_of_isWs hw.2.1)

/-- Stripping makes no difference. -/
theorem valid_strip_iff (s : List UInt8) : Valid (strip s) ↔ Valid s := by
  obtain ⟨w, hs, hw⟩ := exists_strip_append s
  constructor
  · intro h
    rw [hs]
    exact h.append (valid_of_all hw)
  · intro h
    rw [hs] at h
    exact (h.of_append (valid_of_all hw).starts).1

end Ascii

/-! ### Pass 1 -/

section Sentences

/-- The sentences are valid. -/
theorem forall_sentencesFrom_valid {cur text : List UInt8} (h : Valid (cur ++ text)) :
    ∀ s ∈ sentencesFrom cur text, Valid s := by
  induction cur, text using sentencesFrom.induct with
  | case1 => simp [sentencesFrom]
  | case2 cur hne =>
    rw [sentencesFrom, if_neg hne, List.forall_mem_singleton]
    rwa [List.append_nil] at h
  | case3 cur c rest hstop ih =>
    have hsplit : cur ++ c :: rest =
        cur ++ [c] ++ rest.takeWhile isWs ++ rest.dropWhile isWs := by simp
    rw [hsplit] at h
    obtain ⟨hsentence, hrest⟩ := valid_behind h (lt_of_isStop (Bool.and_eq_true_iff.1 hstop).1)
      List.all_takeWhile
    rw [sentencesFrom, if_pos hstop, List.forall_mem_cons]
    exact ⟨hsentence, ih hrest⟩
  | case4 cur c rest hstop ih =>
    rw [sentencesFrom, if_neg hstop]
    refine ih ?_
    rwa [List.append_assoc, List.singleton_append]

theorem ne_nil_of_mem_sentencesFrom {cur text : List UInt8} :
    ∀ s ∈ sentencesFrom cur text, s ≠ [] := by
  induction cur, text using sentencesFrom.induct with
  | case1 => simp [sentencesFrom]
  | case2 cur hne =>
    rw [sentencesFrom, if_neg hne, List.forall_mem_singleton]
    exact hne
  | case3 cur c rest hstop ih =>
    rw [sentencesFrom, if_pos hstop, List.forall_mem_cons]
    exact ⟨by simp, ih⟩
  | case4 cur c rest hstop ih =>
    rw [sentencesFrom, if_neg hstop]
    exact ih

variable {maxChars : ℤ}

theorem ne_nil_of_mem_refineFrom {acc s : List UInt8} :
    ∀ f ∈ refineFrom maxChars acc s, f ≠ [] := by
  induction acc, s using refineFrom.induct maxChars with
  | case1 => simp [refineFrom]
  | case2 acc hne =>
    rw [refineFrom, if_neg hne, List.forall_mem_singleton]
    exact hne
  | case3 acc c rest hsoft ih =>
    rw [refineFrom, if_pos hsoft, List.forall_mem_cons]
    exact ⟨by simp, ih⟩
  | case4 acc c rest hsoft hhard ih =>
    obtain ⟨hpos, -⟩ := @hardBreak_spec maxChars (acc ++ [c])
      (List.append_ne_nil_of_right_ne_nil acc (List.cons_ne_nil c []))
    rw [refineFrom, if_neg hsoft, if_pos hhard, List.forall_mem_cons]
    refine ⟨fun hnil => ?_, ih⟩
    rw [List.take_eq_nil_iff] at hnil
    exact hnil.elim (by omega) (by simp)
  | case5 acc c rest hsoft hhard ih =>
    rw [refineFrom, if_neg hsoft, if_neg hhard]
    exact ih

theorem ne_nil_of_mem_refined {text f : List UInt8} (hf : f ∈ refined maxChars text) : f ≠ [] := by
  obtain ⟨s, hs, hf⟩ := List.mem_flatMap.1 hf
  rw [refine] at hf
  split at hf
  · obtain rfl := List.mem_singleton.1 hf
    exact ne_nil_of_mem_sentencesFrom _ hs
  · exact ne_nil_of_mem_refineFrom f hf

end Sentences

/-! ### Pass 3 -/

section Merge

variable {maxChars : ℤ}

/-- A fragment that is joined does not begin a segment. -/
theorem forall_mergeFrom_starts_iff {back : List UInt8} {rest : List (List UInt8)}
    (hback : back ≠ []) (hrest : ∀ s ∈ rest, s ≠ []) :
    (∀ m ∈ mergeFrom maxChars back rest, Starts m) ↔ Starts back ∧ CutsFit maxChars back rest := by
  induction rest generalizing back with
  | nil => simp [mergeFrom, CutsFit]
  | cons s rest ih =>
    rw [List.forall_mem_cons] at hrest
    rw [mergeFrom, CutsFit]
    split
    · rw [ih (List.append_ne_nil_of_left_ne_nil hback s) hrest.2, starts_append hback]
    · rw [List.forall_mem_cons, ih hrest.1 hrest.2]

theorem forall_stripped_valid_iff (segs : List (List UInt8)) :
    (∀ s ∈ stripped segs, Valid s) ↔ ∀ m ∈ segs, Valid m := by
  rw [stripped]
  constructor
  · intro h m hm
    rw [← valid_strip_iff]
    by_cases hnil : strip m = []
    · rw [hnil]
      exact valid_nil
    · refine h (strip m) (List.mem_filter.2 ⟨List.mem_map_of_mem hm, ?_⟩)
      rw [List.isEmpty_eq_false_iff.2 hnil]
      rfl
  · intro h s hs
    obtain ⟨m, hm, rfl⟩ := List.mem_map.1 (List.mem_filter.1 hs).1
    exact (valid_strip_iff m).2 (h m hm)

/-- **When the segments are valid.** -/
theorem splitTextForTts_valid_iff {text : List UInt8} (h : Valid text) (maxChars : ℤ) :
    (∀ s ∈ splitTextForTts maxChars text, Valid s) ↔ SegmentsFit maxChars text := by
  have hflat : (merged maxChars (refined maxChars text)).flatten = text := by
    rw [flatten_merged, flatten_refined]
  have hmerged : (∀ m ∈ merged maxChars (refined maxChars text), Valid m) ↔
      ∀ s rest, refined maxChars text = s :: rest → CutsFit maxChars s rest := by
    rw [forall_valid_iff (by rwa [hflat])]
    cases hrefined : refined maxChars text with
    | nil => simp [merged]
    | cons s rest =>
      have hne (f : List UInt8) (hf : f ∈ s :: rest) : f ≠ [] :=
        ne_nil_of_mem_refined (by rwa [hrefined])
      have hstarts : Starts s := by
        have hvalid := h.starts
        rw [← @flatten_refined maxChars text, hrefined, List.flatten_cons,
          starts_append (hne s List.mem_cons_self)] at hvalid
        exact hvalid
      rw [merged, forall_mergeFrom_starts_iff (hne s List.mem_cons_self)
        fun f hf => hne f (List.mem_cons_of_mem s hf), and_iff_right hstarts]
      constructor
      · intro hcuts s' rest' heq
        obtain ⟨rfl, rfl⟩ := List.cons.inj heq
        exact hcuts
      · intro hcuts
        exact hcuts s rest rfl
  rw [splitTextForTts, SegmentsFit]
  split
  · rename_i hwhole
    rw [List.forall_mem_singleton]
    refine iff_of_true h fun hpos s rest hrefined => ?_
    obtain rfl | hle := hwhole
    · have hnil : refined maxChars [] = [] := by simp [refined, sentences, sentencesFrom]
      rw [hnil] at hrefined
      cases hrefined
    · omega
  · rename_i hsplit
    have hpos : 0 < maxChars := by
      by_contra hnot
      exact hsplit (.inr (not_lt.1 hnot))
    rw [← hmerged, ← forall_stripped_valid_iff (merged maxChars (refined maxChars text))]
    simp only [hpos, forall_true_left]
    split
    · rename_i hnil
      rw [hnil, List.forall_mem_singleton]
      exact iff_of_true h (List.forall_mem_nil _)
    · rfl

end Merge

/-! ### Which breaks are undone -/

section Undone

variable {maxChars : ℤ} {back f : List UInt8} {rest more : List (List UInt8)} {C : Prop}

theorem hardBreak_gt {acc : List UInt8} (hacc : maxChars.tdiv 2 < acc.length) :
    maxChars.tdiv 2 < (hardBreak maxChars acc : ℤ) := by
  rw [hardBreak]
  generalize backFrom acc _ acc.length = back
  split
  · exact hacc
  · omega

/-- A fragment that does not fit behind `out.back()`. -/
theorem cutsFit_cons_of_lt (hint : back.length + f.length < 2 ^ 31)
    (hlong : maxChars < (back.length + f.length : ℕ)) :
    CutsFit maxChars back (f :: rest) ↔ Starts f ∧ CutsFit maxChars f rest := by
  rw [CutsFit, (toInt_eq_iff _).2 hint, if_neg (not_le.2 hlong)]

/-- A fragment that begins with a code point may be joined or not. -/
theorem cutsFit_cons_iff (hf : Starts f)
    (h : ∀ front : List UInt8, front.length ≤ back.length →
      (CutsFit maxChars (front ++ f) rest ↔ C)) :
    CutsFit maxChars back (f :: rest) ↔ C := by
  rw [CutsFit]
  split
  · exact h back le_rfl
  · rw [and_iff_right hf]
    exact h [] (Nat.zero_le _)

/-- The fragments of the rest of a sentence, behind a fragment that is longer than half the
limit. If the part that is left of it is inside of a code point, both have the length of the
limit, at least. -/
theorem cutsFit_refineFrom_iff (hmax : 0 < maxChars) (hint : maxChars < 2 ^ 31)
    {front acc s : List UInt8} (hvalid : Valid (front ++ (acc ++ s)))
    (hacc : (acc.length : ℤ) < maxChars)
    (hsize : back.length + acc.length + s.length + more.flatten.length < 2 ^ 31)
    (hback : maxChars.tdiv 2 < back.length)
    (hinside : ¬ Starts (acc ++ s) → maxChars ≤ (back.length + acc.length : ℕ))
    (hmore : ∀ back, back.length + more.flatten.length < 2 ^ 31 →
      (CutsFit maxChars back more ↔ C)) :
    CutsFit maxChars back (refineFrom maxChars acc s ++ more) ↔
      (Starts (acc ++ s) ∨ s = [] ∧ ((back.length + acc.length : ℕ) : ℤ) ≤ maxChars) ∧
        BreaksWhole maxChars acc s ∧ C := by
  have hnext (acc : List UInt8) (c : UInt8) (hacc : (acc.length : ℤ) < maxChars) :
      toInt (acc ++ [c]).length = (acc ++ [c]).length ∧ ((acc ++ [c]).length : ℤ) ≤ maxChars := by
    rw [toInt_eq_iff, List.length_append, List.length_singleton]
    omega
  have hhalf : maxChars ≤ 2 * maxChars.tdiv 2 + 1 ∧ 2 * maxChars.tdiv 2 ≤ maxChars := by
    rw [Int.tdiv_eq_ediv_of_nonneg hmax.le]
    omega
  induction acc, s using refineFrom.induct maxChars generalizing back front with
  | case1 =>
    simp only [refineFrom, if_pos, List.nil_append, BreaksWhole, List.append_nil, starts_nil,
      true_or, true_and]
    exact hmore back (by omega)
  | case2 acc hne =>
    rw [refineFrom, if_neg hne, BreaksWhole, true_and, List.append_nil, List.singleton_append,
      CutsFit, (toInt_eq_iff _).2 (by omega)]
    rw [List.append_nil] at hinside
    split
    · rename_i hjoined
      rw [hmore (back ++ acc) (by rw [List.length_append]; omega)]
      exact (and_iff_right (.inr ⟨rfl, hjoined⟩)).symm
    · rename_i hapart
      rw [hmore acc (by omega), or_iff_left fun h => hapart h.2]
  | case3 acc c rest hsoft ih =>
    obtain ⟨hlen, -⟩ := hnext acc c hacc
    rw [Bool.and_eq_true, Bool.and_eq_true, decide_eq_true_iff, hlen] at hsoft
    obtain ⟨⟨hpause, hws⟩, hlong⟩ := hsoft
    have hsoft : (isPause c && rest.head?.any isWs &&
        decide (maxChars.tdiv 2 < toInt (acc ++ [c]).length)) = true := by
      rw [hpause, hws, hlen, decide_eq_true hlong]
      rfl
    have hsplit : front ++ (acc ++ c :: rest) =
        front ++ acc ++ [c] ++ rest.takeWhile isWs ++ ([] ++ rest.dropWhile isWs) := by simp
    have hcount := congrArg List.length (List.takeWhile_append_dropWhile (p := isWs) (l := rest))
    rw [List.length_append] at hcount
    rw [hsplit] at hvalid
    have hrest := (valid_behind hvalid (lt_of_isPause hpause) List.all_takeWhile).2.starts
    have hstarts : Starts (acc ++ [c] ++ rest.takeWhile isWs) ↔ Starts (acc ++ c :: rest) := by
      rw [starts_append (by simp), ← starts_append (b := rest) (by simp), List.append_assoc]
      rfl
    rw [refineFrom, if_pos hsoft, BreaksWhole, if_pos hsoft, List.cons_append, ← hstarts]
    have hfragment : (acc ++ [c] ++ rest.takeWhile isWs).length =
        acc.length + 1 + (rest.takeWhile isWs).length := by
      rw [List.length_append, List.length_append, List.length_singleton]
    rw [List.length_append, List.length_singleton] at hlong
    rw [List.length_cons] at hsize
    generalize acc ++ [c] ++ rest.takeWhile isWs = f at hfragment
    have hbehind : CutsFit maxChars f (refineFrom maxChars [] (rest.dropWhile isWs) ++ more) ↔ _ :=
      ih hvalid hmax (by rw [List.length_nil]; omega) (by omega) fun hnot => absurd hrest hnot
    rw [cutsFit_cons_of_lt (by omega) (by omega), hbehind]
    simp only [hrest, true_or, true_and, reduceCtorEq, false_and, or_false]
  | case4 acc c rest hsoft hhard ih =>
    obtain ⟨hlen, hle⟩ := hnext acc c hacc
    rw [refineFrom, if_neg hsoft, if_pos hhard, BreaksWhole, if_neg hsoft, if_pos hhard,
      List.cons_append]
    rw [hlen] at hhard
    have hsplit : acc ++ c :: rest = acc ++ [c] ++ rest := by simp
    rw [hsplit] at hvalid ⊢
    rw [List.length_cons] at hsize
    have hlength : (acc ++ [c]).length = acc.length + 1 := by simp
    have hne : acc ++ [c] ≠ [] := by simp
    generalize acc ++ [c] = A at hne hlen hle hhard hlength hvalid ih
    obtain ⟨hpos, hbound⟩ := @hardBreak_spec maxChars A hne
    have hlong := @hardBreak_gt maxChars A (by omega)
    generalize hardBreak maxChars A = cut at hpos hbound hlong ih ⊢
    have htake : (A.take cut).length = cut := by rw [List.length_take]; omega
    have hdrop : (A.drop cut).length = A.length - cut := List.length_drop
    have hstarts : Starts (A ++ rest) ↔ Starts (A.take cut) := by
      rw [starts_append hne]
      conv_lhs => rw [← List.take_append_drop cut A]
      exact starts_append (by rw [← List.length_pos_iff]; omega)
    have hjoin : A ++ rest = A.take cut ++ (A.drop cut ++ rest) := by
      rw [← List.append_assoc, List.take_append_drop]
    rw [hjoin, ← List.append_assoc] at hvalid
    have hbehind : CutsFit maxChars (A.take cut) (refineFrom maxChars (A.drop cut) rest ++ more) ↔
        _ := ih hvalid (by omega) (by omega) (by omega) fun _ => by omega
    have hjoined : ((A.take cut).length + (A.drop cut).length : ℕ) ≤ maxChars := by omega
    rw [cutsFit_cons_of_lt (by omega) (by omega), hbehind, hstarts]
    simp only [hjoined, and_true, reduceCtorEq, false_and, or_false]
    rw [or_comm, and_assoc]
  | case5 acc c rest hsoft hhard ih =>
    obtain ⟨hlen, -⟩ := hnext acc c hacc
    rw [refineFrom, if_neg hsoft, if_neg hhard, BreaksWhole, if_neg hsoft, if_neg hhard]
    rw [not_not, hlen] at hhard
    have hsplit : acc ++ c :: rest = acc ++ [c] ++ rest := by simp
    have hlength : (acc ++ [c]).length = acc.length + 1 := by simp
    rw [hsplit] at hvalid hinside ⊢
    rw [List.length_cons] at hsize
    have hbehind : CutsFit maxChars back (refineFrom maxChars (acc ++ [c]) rest ++ more) ↔ _ :=
      ih hvalid hhard (by omega) hback fun hnot => by
        have := hinside hnot
        omega
    rw [hbehind]
    refine and_congr_left fun _ => or_congr_right' fun hnot => ?_
    refine iff_of_false (fun h => ?_) (fun h => by simp at h)
    have := hinside hnot
    omega

/-- The fragments of a sentence that is too long. The first one may be joined to what is
in front. -/
theorem cutsFit_refine_iff (hmax : 0 < maxChars) (hint : maxChars < 2 ^ 31) {acc s : List UInt8}
    (hvalid : Valid (acc ++ s)) (hacc : (acc.length : ℤ) < maxChars)
    (hlong : maxChars < (acc.length + s.length : ℕ))
    (hsize : back.length + acc.length + s.length + more.flatten.length < 2 ^ 31)
    (hmore : ∀ back, back.length + more.flatten.length < 2 ^ 31 →
      (CutsFit maxChars back more ↔ C)) :
    CutsFit maxChars back (refineFrom maxChars acc s ++ more) ↔
      BreaksWhole maxChars acc s ∧ C := by
  have hnext (acc : List UInt8) (c : UInt8) (hacc : (acc.length : ℤ) < maxChars) :
      toInt (acc ++ [c]).length = (acc ++ [c]).length ∧ ((acc ++ [c]).length : ℤ) ≤ maxChars := by
    rw [toInt_eq_iff, List.length_append, List.length_singleton]
    omega
  have hhalf : 2 * maxChars.tdiv 2 ≤ maxChars := by
    rw [Int.tdiv_eq_ediv_of_nonneg hmax.le]
    omega
  induction acc, s using refineFrom.induct maxChars with
  | case1 =>
    simp only [List.length_nil] at hlong
    omega
  | case2 acc hne =>
    simp only [List.length_nil] at hlong
    omega
  | case3 acc c rest hsoft ih =>
    obtain ⟨hlen, -⟩ := hnext acc c hacc
    have hparts := hsoft
    rw [Bool.and_eq_true, Bool.and_eq_true, decide_eq_true_iff, hlen, List.length_append,
      List.length_singleton] at hparts
    obtain ⟨⟨hpause, -⟩, hfar⟩ := hparts
    have hsplit : acc ++ c :: rest =
        acc ++ [c] ++ rest.takeWhile isWs ++ ([] ++ rest.dropWhile isWs) := by simp
    have hcount := congrArg List.length (List.takeWhile_append_dropWhile (p := isWs) (l := rest))
    rw [List.length_append] at hcount
    rw [hsplit] at hvalid
    obtain ⟨hfragment, hrest⟩ := valid_behind hvalid (lt_of_isPause hpause) List.all_takeWhile
    have hlength : (acc ++ [c] ++ rest.takeWhile isWs).length =
        acc.length + 1 + (rest.takeWhile isWs).length := by
      rw [List.length_append, List.length_append, List.length_singleton]
    rw [List.length_cons] at hsize
    rw [refineFrom, if_pos hsoft, BreaksWhole, if_pos hsoft, List.cons_append]
    refine cutsFit_cons_iff hfragment.starts fun front hfront => ?_
    generalize acc ++ [c] ++ rest.takeWhile isWs = f at hlength hvalid
    have hjoined : (front ++ f).length = front.length + f.length := List.length_append
    have hbehind := @cutsFit_refineFrom_iff maxChars (front ++ f) more C hmax hint _ _ _ hvalid
      (by rw [List.length_nil]; omega) (by rw [List.length_nil]; omega) (by omega)
      (fun hnot => absurd hrest.starts hnot) hmore
    rw [hbehind, and_iff_right (.inl hrest.starts)]
  | case4 acc c rest hsoft hhard ih =>
    obtain ⟨hlen, hle⟩ := hnext acc c hacc
    rw [refineFrom, if_neg hsoft, if_pos hhard, BreaksWhole, if_neg hsoft, if_pos hhard,
      List.cons_append]
    rw [hlen] at hhard
    have hsplit : acc ++ c :: rest = acc ++ [c] ++ rest := by simp
    rw [hsplit] at hvalid
    rw [List.length_cons] at hsize hlong
    have hlength : (acc ++ [c]).length = acc.length + 1 := by simp
    have hne : acc ++ [c] ≠ [] := by simp
    generalize acc ++ [c] = A at hne hlen hle hhard hlength hvalid
    obtain ⟨hpos, hbound⟩ := @hardBreak_spec maxChars A hne
    have hfar := @hardBreak_gt maxChars A (by omega)
    generalize hardBreak maxChars A = cut at hpos hbound hfar ⊢
    have htake : (A.take cut).length = cut := by rw [List.length_take]; omega
    have hdrop : (A.drop cut).length = A.length - cut := List.length_drop
    have hrest : rest ≠ [] := by
      rintro rfl
      rw [List.length_nil] at hlong
      omega
    have hjoin : A ++ rest = A.take cut ++ (A.drop cut ++ rest) := by
      rw [← List.append_assoc, List.take_append_drop]
    rw [hjoin] at hvalid
    have hstarts : Starts (A.take cut) :=
      (starts_append (by rw [← List.length_pos_iff]; omega)).1 hvalid.starts
    refine cutsFit_cons_iff hstarts fun front hfront => ?_
    have hjoined : (front ++ A.take cut).length = front.length + (A.take cut).length :=
      List.length_append
    have hbehind := @cutsFit_refineFrom_iff maxChars (front ++ A.take cut) more C hmax hint _ _ _
      hvalid (by omega) (by omega) (by omega) (fun _ => by omega) hmore
    rw [hbehind, or_iff_left fun h => hrest h.1, or_iff_right hrest, and_assoc]
  | case5 acc c rest hsoft hhard ih =>
    obtain ⟨hlen, -⟩ := hnext acc c hacc
    rw [refineFrom, if_neg hsoft, if_neg hhard, BreaksWhole, if_neg hsoft, if_neg hhard]
    rw [not_not, hlen] at hhard
    have hsplit : acc ++ c :: rest = acc ++ [c] ++ rest := by simp
    have hlength : (acc ++ [c]).length = acc.length + 1 := by simp
    rw [hsplit] at hvalid
    rw [List.length_cons] at hsize hlong
    exact ih hvalid hhard (by omega) (by omega)

/-- The fragments of all sentences. -/
theorem cutsFit_sentences_iff (hmax : 0 < maxChars) (hint : maxChars < 2 ^ 31)
    {sentences : List (List UInt8)} (hvalid : ∀ s ∈ sentences, Valid s) (back : List UInt8)
    (hsize : back.length + sentences.flatten.length < 2 ^ 31) :
    CutsFit maxChars back (sentences.flatMap (refine maxChars)) ↔
      ∀ s ∈ sentences, maxChars < s.length → BreaksWhole maxChars [] s := by
  induction sentences generalizing back with
  | nil => simp [CutsFit]
  | cons s sentences ih =>
    rw [List.forall_mem_cons] at hvalid ⊢
    rw [List.flatten_cons, List.length_append] at hsize
    have hflat : (sentences.flatMap (refine maxChars)).flatten = sentences.flatten := by
      rw [List.flatMap_def, List.flatten_flatten, List.map_map]
      exact congrArg List.flatten (List.map_id'' flatten_refine _)
    rw [List.flatMap_cons, refine, (toInt_eq_iff _).2 (by omega)]
    split
    · rename_i hshort
      rw [and_iff_right fun hlong => absurd hshort (not_le.2 hlong), List.singleton_append]
      refine cutsFit_cons_iff hvalid.1.starts fun front hfront => ih hvalid.2 _ ?_
      rw [List.length_append]
      omega
    · rename_i hlong
      rw [cutsFit_refine_iff hmax hint (by exact hvalid.1) (by rw [List.length_nil]; omega)
        (by rw [List.length_nil]; omega) (by rw [List.length_nil, hflat]; omega)
        fun back hback => ih hvalid.2 back (by rwa [hflat] at hback)]
      rw [forall_prop_of_true (not_le.1 hlong)]

/-- **Below `2 ^ 31` bytes** the segments fit iff in each sentence that is too long pass 2 breaks no
code point. -/
theorem segmentsFit_iff (hmax : 0 < maxChars) (hint : maxChars < 2 ^ 31) {text : List UInt8}
    (hvalid : Valid text) (hsize : text.length < 2 ^ 31) :
    SegmentsFit maxChars text ↔
      ∀ s ∈ sentences text, maxChars < s.length → BreaksWhole maxChars [] s := by
  have hflat : (sentences text).flatten = text := flatten_sentencesFrom [] text
  have hsentences : ∀ s ∈ sentences text, Valid s := @forall_sentencesFrom_valid [] text hvalid
  have hfragments : CutsFit maxChars [] (refined maxChars text) ↔
      ∀ s ∈ sentences text, maxChars < s.length → BreaksWhole maxChars [] s :=
    cutsFit_sentences_iff hmax hint hsentences [] (by
      rw [hflat, List.length_nil]
      omega)
  have hfirst : Starts (refined maxChars text).flatten := by
    rw [flatten_refined]
    exact hvalid.starts
  rw [SegmentsFit, forall_prop_of_true hmax, ← hfragments]
  cases hrefined : refined maxChars text with
  | nil => simp [CutsFit]
  | cons s rest =>
    have hne : s ≠ [] := ne_nil_of_mem_refined (by rw [hrefined]; exact List.mem_cons_self)
    rw [hrefined, List.flatten_cons, starts_append hne] at hfirst
    have hstart : CutsFit maxChars [] (s :: rest) ↔ CutsFit maxChars s rest := by
      refine cutsFit_cons_iff hfirst fun front hfront => ?_
      obtain rfl := List.eq_nil_of_length_eq_zero (Nat.le_zero.1 hfront)
      rfl
    rw [hstart]
    constructor
    · intro h
      exact h s rest rfl
    · intro h s' rest' heq
      obtain ⟨rfl, rfl⟩ := List.cons.inj heq
      exact h

end Undone

/-! ### Live input -/

section Live

variable {p : LiveParams} {pending behind out rest : List UInt8}

/-- Where the first sentence ends. -/
theorem sentenceLength_spec {j : ℕ} (h : sentenceLength p pending = some j) :
    ∃ front c w, pending.take j = front ++ [c] ++ w ∧ c < 128 ∧ w.all isWs = true := by
  induction pending generalizing j with
  | nil => cases h
  | cons c text ih =>
    rw [sentenceLength] at h
    split at h
    · rename_i hends
      obtain rfl := Option.some.inj h
      refine ⟨[], c, text.takeWhile isWs, ?_, ?_, List.all_takeWhile⟩
      · rw [Nat.add_comm, List.take_succ_cons]
        have hprefix := List.prefix_iff_eq_take.1 (List.takeWhile_prefix (l := text) isWs)
        rw [← hprefix]
        rfl
      · rw [endsSentence] at hends
        split at hends
        · rw [beq_iff_eq] at hends
          rw [hends]
          decide
        · rw [Bool.and_eq_true, Bool.or_eq_true, beq_iff_eq] at hends
          obtain hstop | rfl := hends.1
          · exact lt_of_isStop hstop
          · decide
    · obtain ⟨k, hk, rfl⟩ := Option.map_eq_some_iff.1 h
      obtain ⟨front, d, w, htake, hd, hw⟩ := ih hk
      exact ⟨c :: front, d, w, by rw [List.take_succ_cons, htake]; rfl, hd, hw⟩

/-- **A sentence is valid**, and so is what is behind it. -/
theorem popSentence_valid {j : ℕ} (h : Valid (pending ++ behind))
    (hlength : sentenceLength p pending = some j) :
    Valid (pending.take j) ∧ Valid (pending.drop j ++ behind) := by
  obtain ⟨front, c, w, htake, hc, hw⟩ := sentenceLength_spec hlength
  rw [← List.take_append_drop j pending, List.append_assoc, htake] at h
  rw [htake]
  exact valid_behind h hc hw

/-- **When the piece that is flushed is valid.** -/
theorem popSentence_flush_valid_iff (h : Valid (pending ++ behind))
    (hlength : sentenceLength p pending = none)
    (hpop : popSentence p false pending = some (out, rest)) :
    Valid out ↔
      Starts ((pending ++ behind).drop (min p.maxSentenceChars.toNat pending.length)) := by
  rw [popSentence, hlength] at hpop
  split at hpop
  · cases hpop
  simp only [Bool.false_eq_true, if_false] at hpop
  split at hpop
  · obtain ⟨rfl, rfl⟩ := Prod.mk.inj (Option.some.inj hpop)
    generalize p.maxSentenceChars.toNat = n
    have hcut : pending.take n = (pending ++ behind).take (min n pending.length) := by
      rw [List.take_append_of_le_length (Nat.min_le_right _ _), ← List.take_take,
        List.take_length]
    rw [hcut]
    refine valid_left_iff ?_
    rwa [List.take_append_drop]
  · cases hpop

/-- **When what is cut is valid.** The segments of a text are iff no last resort breaks a code point
in a sentence that is too long; this is below `2 ^ 31` bytes, and in general iff pass 3 undoes every
such break. The piece that is flushed when too much of a text is pending is iff a code point starts
behind its bytes. -/
theorem cuts_valid_iff {text : List UInt8} (h : Valid text) :
    (text.length < 2 ^ 31 → ∀ maxChars : ℤ, 0 < maxChars → maxChars < 2 ^ 31 →
      ((∀ s ∈ splitTextForTts maxChars text, Valid s) ↔
        ∀ s ∈ sentences text, maxChars < s.length → BreaksWhole maxChars [] s)) ∧
      (∀ maxChars : ℤ, (∀ s ∈ splitTextForTts maxChars text, Valid s) ↔
        SegmentsFit maxChars text) ∧
      ∀ (p : LiveParams) (pending behind out rest : List UInt8), text = pending ++ behind →
        sentenceLength p pending = none → popSentence p false pending = some (out, rest) →
          (Valid out ↔ Starts (text.drop (min p.maxSentenceChars.toNat pending.length))) := by
  refine ⟨fun hsize maxChars hmax hint => ?_, splitTextForTts_valid_iff h, ?_⟩
  · rw [splitTextForTts_valid_iff h, segmentsFit_iff hmax hint h hsize]
  · rintro p pending behind out rest rfl hlength hpop
    exact popSentence_flush_valid_iff h hlength hpop

/-- The letter `é`. -/
def eAcute : List UInt8 := [195, 169]

theorem valid_eAcute : Valid eAcute := ⟨['é'], rfl⟩

theorem cuts_valid_iff_eAcute :
    (eAcute.length < 2 ^ 31 → ∀ maxChars : ℤ, 0 < maxChars → maxChars < 2 ^ 31 →
      ((∀ s ∈ splitTextForTts maxChars eAcute, Valid s) ↔
        ∀ s ∈ sentences eAcute, maxChars < s.length → BreaksWhole maxChars [] s)) ∧
      (∀ maxChars : ℤ, (∀ s ∈ splitTextForTts maxChars eAcute, Valid s) ↔
        SegmentsFit maxChars eAcute) ∧
      ∀ (p : LiveParams) (pending behind out rest : List UInt8), eAcute = pending ++ behind →
        sentenceLength p pending = none → popSentence p false pending = some (out, rest) →
          (Valid out ↔ Starts (eAcute.drop (min p.maxSentenceChars.toNat pending.length))) :=
  cuts_valid_iff valid_eAcute

/-- A letter in front of sixty characters of three bytes. -/
def longText : List UInt8 := 97 :: (List.replicate 60 [230, 151, 165]).flatten

theorem valid_longText : Valid longText :=
  ⟨'a' :: List.replicate 60 '日', by decide +kernel⟩

/-- **With the default of 180** a segment ends inside of a code point, and so does a piece that is
flushed when two more characters are pending than twice that. -/
theorem not_forall_cuts_valid :
    (¬ ∀ text, Valid text → ∀ s ∈ splitTextForTts 180 text, Valid s) ∧
      ¬ ∀ (p : LiveParams) (pending out rest : List UInt8), Valid pending →
        sentenceLength p pending = none → popSentence p false pending = some (out, rest) →
          Valid out := by
  constructor
  · intro h
    have hstarts (s : List UInt8) (hs : s ∈ splitTextForTts 180 longText) : Starts s :=
      (h longText valid_longText s hs).starts
    revert hstarts
    decide +kernel
  · intro h
    have hpending : Valid (longText ++ longText) := valid_longText.append valid_longText
    have hpop : popSentence ⟨false, [], 180⟩ false (longText ++ longText) =
        some ((longText ++ longText).take 180, (longText ++ longText).drop 180) := by
      decide +kernel
    have hflushed := h _ _ _ _ hpending (by decide +kernel) hpop
    rw [← List.take_append_drop 180 (longText ++ longText)] at hpending
    have hstarts := hpending.starts_of_append hflushed
    revert hstarts
    decide +kernel

end Live

end Chatterbox

end WhisperCpp
