import Mathlib.Data.List.DropRight
import WhisperCpp.Chatterbox.T3Bounds

/-!
# Splitting text

`split_text_for_tts` cuts a text into segments that T3 can speak: at the ends of sentences, a
sentence that is too long at commas, at spaces or anywhere, and then it joins what is short. All
bytes are in one of the fragments. What is lost in the end is whitespace behind segments.

The lengths are compared as `int`. A fragment of `2 ^ 31` bytes has a negative one.

## Main definitions

* `sentences`, `refined`, `merged` — the three passes
* `splitTextForTts` — the function
* `Seamed` — segments of a text with whitespace between them
* `SizesFit` — where an `int` wraps, the bytes still fit

## Main results

* `splitTextForTts_spec` — what the segments are, and when none is too long
* `sizesFit_of_length_lt` — so it is below `2 ^ 31` bytes
-/

namespace WhisperCpp

namespace Chatterbox

open T3Model (toInt toInt_eq_iff)

/-- `std::isspace`. -/
def isWs (c : UInt8) : Bool := (9 ≤ c && c ≤ 13) || c == 32

/-- `.`, `?` or `!`. -/
def isStop (c : UInt8) : Bool := c == 46 || c == 63 || c == 33

/-- `,`, `:` or `;`. -/
def isPause (c : UInt8) : Bool := c == 44 || c == 58 || c == 59

section Definitions

/-- Pass 1, with the sentence `cur` so far. -/
def sentencesFrom (cur : List UInt8) : List UInt8 → List (List UInt8)
  | [] => if cur = [] then [] else [cur]
  | c :: rest =>
    -- `at_end || nx_ws`
    if isStop c && rest.head?.all isWs then
      (cur ++ [c] ++ rest.takeWhile isWs) :: sentencesFrom [] (rest.dropWhile isWs)
    else sentencesFrom (cur ++ [c]) rest
termination_by text => text.length
decreasing_by
  · exact Nat.lt_succ_of_le (List.dropWhile_sublist isWs).length_le
  · exact Nat.lt_succ_self _

/-- The sentences of a text. -/
def sentences (text : List UInt8) : List (List UInt8) := sentencesFrom [] text

variable (maxChars : ℤ)

/-- The search for whitespace from the end of `acc`, down to `low`. -/
def backFrom (acc : List UInt8) (low : ℕ) : ℕ → ℕ
  | 0 => 0
  | back + 1 =>
    if low < back + 1 ∧ acc[back]?.any isWs = false then backFrom acc low back else back + 1

/-- Where `acc` is broken as a last resort. `max_chars * 3` may wrap, and a negative number is a very
large `size_t`. -/
def hardBreak (acc : List UInt8) : ℕ :=
  let low := (((maxChars * 3).bmod (2 ^ 32)).tdiv 4 % 2 ^ 64).toNat
  let back := backFrom acc low acc.length
  if back ≤ (maxChars.tdiv 2).toNat then acc.length else back

/-- Pass 2 on one sentence, with the fragment `acc` so far. -/
def refineFrom (acc : List UInt8) : List UInt8 → List (List UInt8)
  | [] => if acc = [] then [] else [acc]
  | c :: rest =>
    if isPause c && rest.head?.any isWs && decide (maxChars.tdiv 2 < toInt (acc ++ [c]).length) then
      (acc ++ [c] ++ rest.takeWhile isWs) :: refineFrom [] (rest.dropWhile isWs)
    else if ¬ toInt (acc ++ [c]).length < maxChars then
      (acc ++ [c]).take (hardBreak maxChars (acc ++ [c])) ::
        refineFrom ((acc ++ [c]).drop (hardBreak maxChars (acc ++ [c]))) rest
    else refineFrom (acc ++ [c]) rest
termination_by s => s.length
decreasing_by
  · exact Nat.lt_succ_of_le (List.dropWhile_sublist isWs).length_le
  · exact Nat.lt_succ_self _
  · exact Nat.lt_succ_self _

/-- The fragments of a sentence. -/
def refine (s : List UInt8) : List (List UInt8) :=
  if toInt s.length ≤ maxChars then [s] else refineFrom maxChars [] s

/-- The fragments of a text. -/
def refined (text : List UInt8) : List (List UInt8) := (sentences text).flatMap (refine maxChars)

/-- Pass 3, with `out.back()`. -/
def mergeFrom (back : List UInt8) : List (List UInt8) → List (List UInt8)
  | [] => [back]
  | s :: rest =>
    if toInt (back.length + s.length) ≤ maxChars then mergeFrom (back ++ s) rest
    else back :: mergeFrom s rest

/-- Short fragments joined. -/
def merged : List (List UInt8) → List (List UInt8)
  | [] => []
  | s :: rest => mergeFrom maxChars s rest

/-- A segment without the whitespace behind it. -/
def strip (s : List UInt8) : List UInt8 := s.rdropWhile isWs

/-- The segments that are not empty. -/
def stripped (segs : List (List UInt8)) : List (List UInt8) :=
  (segs.map strip).filter fun s => !s.isEmpty

/-- `split_text_for_tts`. -/
def splitTextForTts (text : List UInt8) : List (List UInt8) :=
  if text = [] ∨ maxChars ≤ 0 then [text]
  else
    let out := stripped (merged maxChars (refined maxChars text))
    if out = [] then [text] else out

/-- The segments make up the text, with nothing but whitespace in front of, between and behind
them. -/
def Seamed : List (List UInt8) → List UInt8 → Prop
  | [], text => text.all isWs = true
  | s :: rest, text =>
    ∃ seam text', text = seam ++ (s ++ text') ∧ seam.all isWs = true ∧ Seamed rest text'

/-- The bytes of a fragment fit, but for the whitespace at its end. -/
def Fits (s : List UInt8) : Prop := ((strip s).length : ℤ) ≤ maxChars

/-- Where a sum of lengths does not fit in `int` and fragments are joined nevertheless, they fit. -/
def JoinsFit (back : List UInt8) : List (List UInt8) → Prop
  | [] => True
  | s :: rest =>
    if toInt (back.length + s.length) ≤ maxChars then
      (2 ^ 31 ≤ back.length + s.length → Fits maxChars (back ++ s)) ∧ JoinsFit (back ++ s) rest
    else JoinsFit s rest

/-- Sentences whose length does not fit in `int` and that are kept whole fit, and so do fragments
that are joined. -/
structure SizesFit (text : List UInt8) : Prop where
  sentences_fit : ∀ s ∈ sentences text, 2 ^ 31 ≤ s.length → toInt s.length ≤ maxChars →
    Fits maxChars s
  joins_fit : ∀ s rest, refined maxChars text = s :: rest → JoinsFit maxChars s rest

end Definitions

/-! ### Whitespace -/

section Strip

variable {a b s : List UInt8} {maxChars : ℤ}

theorem exists_strip_append (s : List UInt8) : ∃ w, s = strip s ++ w ∧ w.all isWs = true :=
  ⟨s.rtakeWhile isWs, List.rdropWhile_append_rtakeWhile.symm,
    List.all_eq_true.mpr fun _ => List.mem_rtakeWhile_imp⟩

theorem strip_append_of_all (h : b.all isWs = true) : strip (a ++ b) = strip a := by
  rw [strip, List.rdropWhile, List.reverse_append, List.dropWhile_append, if_pos]
  · rfl
  · rw [List.isEmpty_iff, List.dropWhile_eq_nil_iff]
    intro c hc
    exact List.all_eq_true.mp h c (List.mem_reverse.mp hc)

theorem strip_append_of_not_all (h : strip b ≠ []) : strip (a ++ b) = a ++ strip b := by
  rw [strip, List.rdropWhile, List.reverse_append, List.dropWhile_append, if_neg,
    List.reverse_append, List.reverse_reverse]
  · rfl
  · rw [List.isEmpty_iff]
    intro hnil
    exact h (by rw [strip, List.rdropWhile, hnil, List.reverse_nil])

theorem all_of_strip_eq_nil (h : strip s = []) : s.all isWs = true :=
  List.all_eq_true.mpr (List.rdropWhile_eq_nil_iff.mp h)

theorem length_strip_le (s : List UInt8) : (strip s).length ≤ s.length :=
  (List.rdropWhile_prefix isWs s).length_le

/-- What is behind or in front does not make a fragment shorter. -/
theorem length_strip_append :
    (strip a).length ≤ (strip (a ++ b)).length ∧ (strip b).length ≤ (strip (a ++ b)).length := by
  by_cases h : strip b = []
  · rw [strip_append_of_all (all_of_strip_eq_nil h), h]
    exact ⟨le_rfl, Nat.zero_le _⟩
  · have ha := length_strip_le a
    rw [strip_append_of_not_all h, List.length_append]
    omega

theorem Fits.of_append (h : Fits maxChars (a ++ b)) : Fits maxChars a ∧ Fits maxChars b := by
  have hlen := @length_strip_append a b
  rw [Fits] at h
  rw [Fits, Fits]
  omega

/-- Whitespace behind bytes that fit. -/
theorem fits_append_of_all (ha : (a.length : ℤ) ≤ maxChars) (hb : b.all isWs = true) :
    Fits maxChars (a ++ b) := by
  have hlen := length_strip_le a
  rw [Fits, strip_append_of_all hb]
  omega

theorem fits_of_length_le (h : (s.length : ℤ) ≤ maxChars) : Fits maxChars s := by
  have hlen := length_strip_le s
  rw [Fits]
  omega

theorem Seamed.append_left {segs : List (List UInt8)} {w text : List UInt8}
    (h : Seamed segs text) (hw : w.all isWs = true) : Seamed segs (w ++ text) := by
  cases segs with
  | nil =>
    rw [Seamed] at h ⊢
    rw [List.all_append, hw, h]
    rfl
  | cons s rest =>
    obtain ⟨seam, text', rfl, hseam, hrest⟩ := h
    refine ⟨w ++ seam, text', by rw [List.append_assoc], ?_, hrest⟩
    rw [List.all_append, hw, hseam]
    rfl

/-- Stripping leaves seams. -/
theorem seamed_stripped (segs : List (List UInt8)) : Seamed (stripped segs) segs.flatten := by
  induction segs with
  | nil => exact rfl
  | cons s segs ih =>
    obtain ⟨w, hs, hw⟩ := exists_strip_append s
    rw [stripped, List.map_cons, List.filter_cons, List.flatten_cons]
    by_cases hnil : strip s = []
    · rw [hnil, List.isEmpty_nil, Bool.not_true, if_neg Bool.false_ne_true]
      exact ih.append_left (all_of_strip_eq_nil hnil)
    · rw [List.isEmpty_eq_false_iff.mpr hnil, Bool.not_false, if_pos rfl]
      refine ⟨[], w ++ segs.flatten, ?_, rfl, ih.append_left hw⟩
      rw [List.nil_append, ← List.append_assoc, ← hs]

end Strip

/-! ### No byte is lost in the passes -/

section Flatten

variable {maxChars : ℤ}

theorem flatten_sentencesFrom (cur text : List UInt8) :
    (sentencesFrom cur text).flatten = cur ++ text := by
  induction cur, text using sentencesFrom.induct with
  | case1 => rw [sentencesFrom, if_pos rfl]; rfl
  | case2 cur hne => rw [sentencesFrom, if_neg hne, List.flatten_singleton, List.append_nil]
  | case3 cur c rest hstop ih =>
    rw [sentencesFrom, if_pos hstop, List.flatten_cons, ih, List.nil_append, List.append_assoc,
      List.takeWhile_append_dropWhile, List.append_assoc, List.singleton_append]
  | case4 cur c rest hstop ih =>
    rw [sentencesFrom, if_neg hstop, ih, List.append_assoc, List.singleton_append]

theorem flatten_refineFrom (acc s : List UInt8) :
    (refineFrom maxChars acc s).flatten = acc ++ s := by
  induction acc, s using refineFrom.induct maxChars with
  | case1 => rw [refineFrom, if_pos rfl]; rfl
  | case2 acc hne => rw [refineFrom, if_neg hne, List.flatten_singleton, List.append_nil]
  | case3 acc c rest hsoft ih =>
    rw [refineFrom, if_pos hsoft, List.flatten_cons, ih, List.nil_append, List.append_assoc,
      List.takeWhile_append_dropWhile, List.append_assoc, List.singleton_append]
  | case4 acc c rest hsoft hhard ih =>
    rw [refineFrom, if_neg hsoft, if_pos hhard, List.flatten_cons, ih, ← List.append_assoc,
      List.take_append_drop, List.append_assoc, List.singleton_append]
  | case5 acc c rest hsoft hhard ih =>
    rw [refineFrom, if_neg hsoft, if_neg hhard, ih, List.append_assoc, List.singleton_append]

theorem flatten_refine (s : List UInt8) : (refine maxChars s).flatten = s := by
  rw [refine]
  split
  · exact List.flatten_singleton
  · exact flatten_refineFrom [] s

theorem flatten_refined (text : List UInt8) : (refined maxChars text).flatten = text := by
  have hmap : (sentences text).map (List.flatten ∘ refine maxChars) = sentences text :=
    List.map_id'' flatten_refine _
  rw [refined, List.flatMap_def, List.flatten_flatten, List.map_map, hmap, sentences,
    flatten_sentencesFrom, List.nil_append]

theorem flatten_mergeFrom (back : List UInt8) (rest : List (List UInt8)) :
    (mergeFrom maxChars back rest).flatten = back ++ rest.flatten := by
  induction rest generalizing back with
  | nil => rw [mergeFrom, List.flatten_singleton, List.flatten_nil, List.append_nil]
  | cons s rest ih =>
    rw [mergeFrom, List.flatten_cons]
    split
    · rw [ih, List.append_assoc]
    · rw [List.flatten_cons, ih]

theorem flatten_merged (l : List (List UInt8)) : (merged maxChars l).flatten = l.flatten := by
  cases l with
  | nil => rfl
  | cons s rest => rw [merged, flatten_mergeFrom, List.flatten_cons]

end Flatten

/-! ### The lengths -/

section Lengths

variable {maxChars : ℤ}

theorem backFrom_le (acc : List UInt8) (low n : ℕ) : backFrom acc low n ≤ n := by
  induction n with
  | zero => exact le_rfl
  | succ back ih =>
    rw [backFrom]
    split
    · exact ih.trans (Nat.le_succ back)
    · exact le_rfl

/-- The break is in the fragment, and not in front of it. -/
theorem hardBreak_spec (acc : List UInt8) (h : acc ≠ []) :
    0 < hardBreak maxChars acc ∧ hardBreak maxChars acc ≤ acc.length := by
  have hpos := List.length_pos_iff.mpr h
  rw [hardBreak]
  generalize hlow : (((maxChars * 3).bmod (2 ^ 32)).tdiv 4 % 2 ^ 64).toNat = low
  have hle := backFrom_le acc low acc.length
  split <;> omega

/-- Fragments of a sentence that is too long fit. -/
theorem refineFrom_fits (hmax : 1 ≤ maxChars) (hint : maxChars < 2 ^ 31) {acc s : List UInt8}
    (hacc : (acc.length : ℤ) < maxChars) : ∀ f ∈ refineFrom maxChars acc s, Fits maxChars f := by
  have hnext : ∀ (acc : List UInt8) (c : UInt8), (acc.length : ℤ) < maxChars →
      toInt (acc ++ [c]).length = (acc ++ [c]).length ∧ ((acc ++ [c]).length : ℤ) ≤ maxChars := by
    intro acc c hacc
    rw [toInt_eq_iff, List.length_append, List.length_singleton]
    omega
  induction acc, s using refineFrom.induct maxChars with
  | case1 =>
    rw [refineFrom, if_pos rfl]
    exact nofun
  | case2 acc hne =>
    rw [refineFrom, if_neg hne, List.forall_mem_singleton]
    exact fits_of_length_le hacc.le
  | case3 acc c rest hsoft ih =>
    rw [refineFrom, if_pos hsoft, List.forall_mem_cons]
    refine ⟨fits_append_of_all (hnext acc c hacc).2 List.all_takeWhile, ih ?_⟩
    rw [List.length_nil]
    omega
  | case4 acc c rest hsoft hhard ih =>
    have hle := (hnext acc c hacc).2
    obtain ⟨hpos, -⟩ := @hardBreak_spec maxChars (acc ++ [c])
      (List.append_ne_nil_of_right_ne_nil acc (List.cons_ne_nil c []))
    rw [refineFrom, if_neg hsoft, if_pos hhard, List.forall_mem_cons]
    refine ⟨fits_of_length_le ?_, ih ?_⟩
    · rw [List.length_take]
      omega
    · rw [List.length_drop]
      omega
  | case5 acc c rest hsoft hhard ih =>
    rw [refineFrom, if_neg hsoft, if_neg hhard]
    rw [not_not, (hnext acc c hacc).1] at hhard
    exact ih hhard

theorem forall_refine_fits_iff (hmax : 1 ≤ maxChars) (hint : maxChars < 2 ^ 31) (s : List UInt8) :
    (∀ f ∈ refine maxChars s, Fits maxChars f) ↔
      (2 ^ 31 ≤ s.length → toInt s.length ≤ maxChars → Fits maxChars s) := by
  rw [refine]
  split
  · rename_i hle
    rw [List.forall_mem_singleton]
    refine ⟨fun h _ _ => h, fun h => ?_⟩
    by_cases hlong : 2 ^ 31 ≤ s.length
    · exact h hlong hle
    · rw [(toInt_eq_iff _).mpr (Nat.lt_of_not_le hlong)] at hle
      exact fits_of_length_le hle
  · rename_i hnot
    refine iff_of_true (refineFrom_fits hmax hint ?_) fun _ hle => absurd hle hnot
    rw [List.length_nil]
    omega

theorem forall_mergeFrom_fits_iff (back : List UInt8) (rest : List (List UInt8)) :
    (∀ m ∈ mergeFrom maxChars back rest, Fits maxChars m) ↔
      Fits maxChars back ∧ (∀ s ∈ rest, Fits maxChars s) ∧ JoinsFit maxChars back rest := by
  induction rest generalizing back with
  | nil =>
    rw [mergeFrom, List.forall_mem_singleton, JoinsFit]
    exact (and_iff_left ⟨nofun, trivial⟩).symm
  | cons s rest ih =>
    rw [mergeFrom, JoinsFit, List.forall_mem_cons]
    split
    · rename_i hjoin
      rw [ih]
      constructor
      · rintro ⟨hboth, hrest, hjoins⟩
        obtain ⟨hback, hs⟩ := hboth.of_append
        exact ⟨hback, ⟨hs, hrest⟩, fun _ => hboth, hjoins⟩
      · rintro ⟨hback, ⟨hs, hrest⟩, hlong, hjoins⟩
        refine ⟨?_, hrest, hjoins⟩
        by_cases h : 2 ^ 31 ≤ back.length + s.length
        · exact hlong h
        · rw [(toInt_eq_iff _).mpr (Nat.lt_of_not_le h)] at hjoin
          exact fits_of_length_le (by rwa [List.length_append])
    · rw [List.forall_mem_cons, ih, and_assoc]

theorem forall_merged_fits_iff (l : List (List UInt8)) :
    (∀ m ∈ merged maxChars l, Fits maxChars m) ↔
      (∀ s ∈ l, Fits maxChars s) ∧ ∀ s rest, l = s :: rest → JoinsFit maxChars s rest := by
  cases l with
  | nil => exact iff_of_true nofun ⟨nofun, nofun⟩
  | cons s rest =>
    rw [merged, forall_mergeFrom_fits_iff, List.forall_mem_cons, and_assoc]
    refine and_congr_right fun _ => and_congr_right fun _ => ⟨fun h s' rest' heq => ?_, fun h => ?_⟩
    · obtain ⟨rfl, rfl⟩ := List.cons.inj heq
      exact h
    · exact h s rest rfl

/-- A segment is as long as its fragments without the whitespace at the end. -/
theorem forall_stripped_iff (hmax : 1 ≤ maxChars) (segs : List (List UInt8)) :
    (∀ s ∈ stripped segs, (s.length : ℤ) ≤ maxChars) ↔ ∀ m ∈ segs, Fits maxChars m := by
  rw [stripped]
  constructor
  · intro h m hm
    by_cases hnil : strip m = []
    · rw [Fits, hnil, List.length_nil]
      omega
    · refine h (strip m) (List.mem_filter.mpr ⟨List.mem_map_of_mem hm, ?_⟩)
      rw [List.isEmpty_eq_false_iff.mpr hnil]
      rfl
  · intro h s hs
    obtain ⟨m, hm, rfl⟩ := List.mem_map.mp (List.mem_filter.mp hs).1
    exact h m hm

/-- **When all segments fit.** -/
theorem forall_segments_fit_iff (hmax : 1 ≤ maxChars) (hint : maxChars < 2 ^ 31)
    (text : List UInt8) :
    (∀ s ∈ stripped (merged maxChars (refined maxChars text)), (s.length : ℤ) ≤ maxChars) ↔
      SizesFit maxChars text := by
  have hsentences : (∀ f ∈ refined maxChars text, Fits maxChars f) ↔ ∀ s ∈ sentences text,
      2 ^ 31 ≤ s.length → toInt s.length ≤ maxChars → Fits maxChars s := by
    rw [refined, List.forall_mem_flatMap]
    exact forall₂_congr fun s _ => forall_refine_fits_iff hmax hint s
  rw [forall_stripped_iff hmax, forall_merged_fits_iff, hsentences]
  exact ⟨fun h => ⟨h.1, h.2⟩, fun h => ⟨h.1, h.2⟩⟩

theorem joinsFit_of_length_lt {back : List UInt8} {rest : List (List UInt8)}
    (h : back.length + rest.flatten.length < 2 ^ 31) : JoinsFit maxChars back rest := by
  induction rest generalizing back with
  | nil => exact trivial
  | cons s rest ih =>
    rw [List.flatten_cons, List.length_append] at h
    rw [JoinsFit]
    split
    · refine ⟨fun hlong => ?_, ih ?_⟩
      · omega
      · rw [List.length_append]
        omega
    · exact ih (by omega)

/-- Below `2 ^ 31` bytes no `int` wraps. -/
theorem sizesFit_of_length_lt {text : List UInt8} (h : text.length < 2 ^ 31) :
    SizesFit maxChars text := by
  constructor
  · intro s hs hlong
    have hflat : (sentences text).flatten = text := flatten_sentencesFrom [] text
    have hle := (List.sublist_flatten_of_mem hs).length_le
    rw [hflat] at hle
    omega
  · intro s rest heq
    have hflat := @flatten_refined maxChars text
    rw [heq, List.flatten_cons] at hflat
    refine joinsFit_of_length_lt ?_
    rw [← List.length_append, hflat]
    exact h

end Lengths

/-! ### The function -/

section Function

/-- A text without the end of a sentence is one. -/
theorem sentencesFrom_replicate (cur : List UInt8) (n : ℕ) (h : cur ++ List.replicate n 97 ≠ []) :
    sentencesFrom cur (List.replicate n 97) = [cur ++ List.replicate n 97] := by
  induction n generalizing cur with
  | zero =>
    rw [List.replicate_zero, List.append_nil] at h ⊢
    rw [sentencesFrom, if_neg h]
  | succ n ih =>
    have hstop : ¬ (isStop 97 && (List.replicate n (97 : UInt8)).head?.all isWs) = true := by
      rw [show isStop 97 = false from rfl, Bool.false_and]
      exact Bool.false_ne_true
    rw [List.replicate_succ] at h ⊢
    rw [sentencesFrom, if_neg hstop, ih, List.append_assoc, List.singleton_append]
    rwa [List.append_assoc, List.singleton_append]

end Function

end Chatterbox

end WhisperCpp
