import WhisperCpp.Chatterbox.LiveInput
import WhisperCpp.Library.MarkedCuts

/-!
# The reads that live input comes in

A terminator at the end of what has been read ends a sentence, whatever follows it later. So the
sentences depend on the reads, but only by those that end behind a terminator which would not end a
sentence in front of the next byte. Whitespace that comes late goes to the next sentence, or is a
sentence of its own, of which nothing is spoken.

## Main definitions

* `marked` — the bytes with marks at the ends of the sentences
* `openEnds` — where the reads end behind such a terminator
* `NoFlush` — nothing is flushed because too much is pending

## Main results

* `content_drain` — a round pops the pieces up to the last mark
* `content_liveInput` — the sentences are the pieces of what is read
* `flatMap_marked` — the marks of the reads
* `liveInput_content_eq` — when two ways of reading give the same sentences
-/

namespace WhisperCpp

namespace Chatterbox

open T3Model (toInt)
open Search
open MarkedCuts

section Definitions

variable (p : LiveParams)

/-- The bytes, with a mark where a sentence ends when they are read at once. -/
def marked : List UInt8 → List (UInt8 × Bool)
  | [] => []
  | c :: rest => (c, endsSentence p c rest) :: marked rest

/-- `nx_ws` or `nx_upper`. -/
def opensSentence (nx : UInt8) : Bool := isWs nx || (65 ≤ nx && nx ≤ 90)

/-- The number of bytes that have been read, for each read that ends behind a terminator in front of
a byte that neither is whitespace nor an uppercase letter. -/
def openEnds (pos : ℕ) : List (List UInt8) → List ℕ
  | [] => []
  | read :: reads =>
    if (!p.inputByLine && read.getLast?.any isStop &&
        reads.flatten.head?.any fun nx => !opensSentence nx) = true then
      (pos + read.length) :: openEnds (pos + read.length) reads
    else openEnds (pos + read.length) reads

/-- The same parameters without a limit. -/
def LiveParams.unlimited : LiveParams := { p with maxSentenceChars := 0 }

/-- What is pending is flushed unless there is a sentence in it. -/
def Overrun (pending : List UInt8) : Prop :=
  pending ≠ [] ∧ 0 < p.maxSentenceChars ∧
    ¬ toInt pending.length ≤ (p.maxSentenceChars * 2).bmod (2 ^ 32)

/-- After none of the reads there is so much pending that it is flushed. -/
def NoFlush (reads : List (List UInt8)) : Prop :=
  ∀ before, before <+: reads → ¬ Overrun p (liveState p.unlimited before).pending

end Definitions

section Marks

variable {p : LiveParams} {c : UInt8} {a b s : List UInt8}

/-- What ends no sentence at the end of what is pending, ends none later. -/
theorem endsSentence_append (h : endsSentence p c a = false) :
    endsSentence p c (a ++ b) = false := by
  cases a with
  | nil =>
    rw [endsSentence] at h ⊢
    split at h
    · rename_i hline
      rw [if_pos hline]
      exact h
    · rename_i hline
      rw [if_neg hline]
      simp only [List.head?_nil, Option.all_none, Bool.or_true, Bool.and_true] at h
      rw [h, Bool.false_and]
  | cons d a => exact h

theorem marked_append_of_none (h : sentenceLength p a = none) :
    marked p (a ++ b) = unmarked a ++ marked p b := by
  induction a with
  | nil => rfl
  | cons c a ih =>
    rw [sentenceLength] at h
    split at h
    · cases h
    · rename_i hends
      rw [Bool.not_eq_true] at hends
      rw [Option.map_eq_none_iff] at h
      rw [List.cons_append, marked, endsSentence_append hends, ih h]
      rfl

/-- The marks of the bytes behind do not depend on what is in front. -/
theorem exists_marked_append (a b : List UInt8) :
    ∃ w, marked p (a ++ b) = w ++ marked p b ∧ w.map Prod.fst = a := by
  induction a with
  | nil => exact ⟨[], rfl, rfl⟩
  | cons c a ih =>
    obtain ⟨w, hw, hfst⟩ := ih
    exact ⟨(c, endsSentence p c (a ++ b)) :: w, by rw [List.cons_append, marked, hw]; rfl,
      by rw [List.map_cons, hfst]⟩

/-- **The first sentence** ends with the first mark and whitespace. -/
theorem marked_of_sentenceLength {j : ℕ} (h : sentenceLength p s = some j) :
    ∃ front c w, s.take j = front ++ [c] ++ w.map Prod.fst ∧ (∀ x ∈ w, isWs x.1 = true) ∧
      marked p s = unmarked front ++ (c, true) :: (w ++ marked p (s.drop j)) := by
  induction s generalizing j with
  | nil => cases h
  | cons c s ih =>
    rw [sentenceLength] at h
    split at h
    · rename_i hends
      obtain rfl := Option.some.inj h
      obtain ⟨w, hw, hfst⟩ := exists_marked_append (p := p) (s.takeWhile isWs) (s.dropWhile isWs)
      rw [List.takeWhile_append_dropWhile] at hw
      have hfront : s.take (s.takeWhile isWs).length = s.takeWhile isWs :=
        (List.prefix_iff_eq_take.1 (List.takeWhile_prefix (l := s) isWs)).symm
      have hsuffix : s.drop (s.takeWhile isWs).length = s.dropWhile isWs := by
        have heq := List.take_append_drop (s.takeWhile isWs).length s
        rw [hfront] at heq
        exact List.append_cancel_left (heq.trans List.takeWhile_append_dropWhile.symm)
      refine ⟨[], c, w, ?_, ?_, ?_⟩
      · rw [Nat.add_comm, List.take_succ_cons, hfront, hfst]
        rfl
      · intro x hx
        have hmem : x.1 ∈ s.takeWhile isWs := by
          rw [← hfst]
          exact List.mem_map_of_mem hx
        exact List.mem_takeWhile_imp hmem
      · rw [Nat.add_comm, List.drop_succ_cons, hsuffix, marked, hends, hw]
        rfl
    · rename_i hends
      rw [Bool.not_eq_true] at hends
      obtain ⟨k, hk, rfl⟩ := Option.map_eq_some_iff.1 h
      obtain ⟨front, d, w, htake, hw, hmarked⟩ := ih hk
      refine ⟨c :: front, d, w, by rw [List.take_succ_cons, htake]; rfl, hw, ?_⟩
      rw [List.drop_succ_cons, marked, hmarked, hends]
      rfl

end Marks

/-! ### A run without a limit -/

section Unlimited

variable {p : LiveParams}

theorem popSentence_unlimited (hmax : p.maxSentenceChars ≤ 0) (pending : List UInt8) :
    popSentence p false pending =
      (sentenceLength p pending).map fun j => (pending.take j, pending.drop j) := by
  rw [popSentence]
  split
  · rename_i hnil
    rw [hnil]
    rfl
  · split
    · rename_i j hj
      rw [hj]
      rfl
    · rename_i hnone
      rw [hnone, if_neg Bool.false_ne_true, if_neg fun h => absurd h.1 (not_lt.2 hmax)]
      rfl

/-- **A round pops the pieces** up to the last mark. -/
theorem content_drain (hmax : p.maxSentenceChars ≤ 0) (popped : List (List UInt8))
    (pending : List UInt8) (xs : List (UInt8 × Bool)) :
    sentenceLength p (drain p popped pending).2 = none ∧
      content isWs (drain p popped pending).1 ++
          content isWs (pieces (unmarked (drain p popped pending).2 ++ xs)) =
        content isWs popped ++ content isWs (pieces (marked p pending ++ xs)) := by
  induction popped, pending using drain.induct p with
  | case1 popped pending hnone =>
    rw [drain, hnone]
    rw [popSentence_unlimited hmax, Option.map_eq_none_iff] at hnone
    have hmarked := marked_append_of_none (b := []) hnone
    rw [List.append_nil, marked, List.append_nil] at hmarked
    exact ⟨hnone, by rw [hmarked]⟩
  | case2 popped pending out rest hsome ih =>
    obtain ⟨hnone, ih⟩ := ih
    rw [drain, hsome]
    refine ⟨hnone, ih.trans ?_⟩
    rw [popSentence_unlimited hmax, Option.map_eq_some_iff] at hsome
    obtain ⟨j, hj, heq⟩ := hsome
    obtain ⟨rfl, rfl⟩ := Prod.mk.inj heq
    obtain ⟨front, c, w, htake, hw, hmarked⟩ := marked_of_sentenceLength hj
    have htrim : trim isWs (pending.take j) = trim isWs (front ++ [c]) := by
      rw [htake]
      exact trim_append_right (by simpa using hw)
    rw [hmarked, List.append_assoc, List.cons_append, List.append_assoc, pieces_unmarked_append,
      content_cons, content_pieces_append hw, content_append, content_singleton_congr htrim,
      List.append_assoc]

theorem absent_left {a b : List UInt8}
    (h : p.inputEofMarker = [] ∨ ∀ pos, ¬ FirstAt p.inputEofMarker (a ++ b) pos) :
    p.inputEofMarker = [] ∨ ∀ pos, ¬ FirstAt p.inputEofMarker a pos :=
  h.imp_right fun hno pos hpos => hno pos hpos.append

/-- Without the marker a round appends what is read and drains. -/
theorem liveRound_of_unmarked {before : List (List UInt8)} {read : List UInt8}
    (h : p.inputEofMarker = [] ∨ ∀ pos, ¬ FirstAt p.inputEofMarker (before.flatten ++ read) pos) :
    liveRound p (liveState p before) read =
      drained p { liveState p before with pending := (liveState p before).pending ++ read } := by
  obtain ⟨hsaw, hkept⟩ := liveState_of_unmarked (absent_left h)
  rw [liveRound, hsaw, if_neg Bool.false_ne_true, readInto, find_of_unmarked h hkept]

/-- What has been popped and is pending behind the reads, and any bytes that come then. -/
theorem content_liveState (hmax : p.maxSentenceChars ≤ 0) {reads : List (List UInt8)}
    (h : p.inputEofMarker = [] ∨ ∀ pos, ¬ FirstAt p.inputEofMarker reads.flatten pos)
    (xs : List (UInt8 × Bool)) :
    sentenceLength p (liveState p reads).pending = none ∧
      content isWs (liveState p reads).popped ++
          content isWs (pieces (unmarked (liveState p reads).pending ++ xs)) =
        content isWs (pieces (reads.flatMap (marked p) ++ xs)) := by
  induction reads using List.reverseRecOn generalizing xs with
  | nil => exact ⟨rfl, rfl⟩
  | append_singleton before read ih =>
    rw [List.flatten_append, List.flatten_singleton] at h
    have hbefore := absent_left h
    obtain ⟨hnone, -⟩ := ih hbefore []
    rw [liveState_concat, liveRound_of_unmarked h]
    obtain ⟨hdrained, hcontent⟩ := content_drain hmax (liveState p before).popped
      ((liveState p before).pending ++ read) xs
    refine ⟨hdrained, hcontent.trans ?_⟩
    rw [marked_append_of_none hnone, List.append_assoc, (ih hbefore _).2, List.flatMap_append,
      List.flatMap_singleton, List.append_assoc]

theorem content_liveInput_unlimited (hmax : p.maxSentenceChars ≤ 0) {reads : List (List UInt8)}
    (h : p.inputEofMarker = [] ∨ ∀ pos, ¬ FirstAt p.inputEofMarker reads.flatten pos) :
    content isWs (liveInput p reads).popped =
      content isWs (pieces (reads.flatMap (marked p))) := by
  obtain ⟨hsaw, -⟩ := liveState_of_unmarked h
  obtain ⟨hnone, hcontent⟩ := content_liveState hmax h []
  obtain ⟨hdrained, hdrain⟩ := content_drain hmax (liveState p reads).popped
    (liveState p reads).pending []
  have hmarked := marked_append_of_none (b := []) hnone
  simp only [List.append_nil, marked] at hmarked hcontent hdrain
  rw [hmarked, hcontent] at hdrain
  rw [liveInput, hsaw, if_neg Bool.false_ne_true, ← hdrain, flushed, drained]
  generalize drain p (liveState p reads).popped (liveState p reads).pending = d at hdrained
  obtain ⟨popped, pending⟩ := d
  rw [pieces_unmarked]
  simp only at hdrained ⊢
  obtain rfl | hne := eq_or_ne pending []
  · have hblank : content isWs [([] : List UInt8)] = [] := rfl
    rw [hblank, List.append_nil]
    rfl
  · have hflush : popSentence p true pending = some (pending, []) := by
      rw [popSentence, if_neg hne, hdrained]
      rfl
    rw [hflush]
    exact content_append popped [pending]

end Unlimited

/-! ### A run in which nothing is flushed -/

section NoFlush

variable {p : LiveParams} {reads : List (List UInt8)}

theorem sentenceLength_unlimited (s : List UInt8) :
    sentenceLength p.unlimited s = sentenceLength p s := by
  induction s with
  | nil => rfl
  | cons c s ih =>
    rw [sentenceLength, sentenceLength, ih]
    rfl

theorem marked_unlimited (s : List UInt8) : marked p.unlimited s = marked p s := by
  induction s with
  | nil => rfl
  | cons c s ih =>
    rw [marked, marked, ih]
    rfl

theorem popSentence_eq_unlimited {pending : List UInt8}
    (h : sentenceLength p pending = none → ¬ Overrun p pending) :
    popSentence p false pending = popSentence p.unlimited false pending := by
  rw [popSentence_unlimited (p := p.unlimited) le_rfl, sentenceLength_unlimited, popSentence]
  split
  · rename_i hnil
    rw [hnil]
    rfl
  · rename_i hne
    split
    · rename_i j hj
      rw [hj]
      rfl
    · rename_i hnone
      rw [hnone, if_neg Bool.false_ne_true, if_neg fun hlong => h hnone ⟨hne, hlong⟩]
      rfl

theorem drain_eq_unlimited (popped : List (List UInt8)) (pending : List UInt8)
    (h : ¬ Overrun p (drain p.unlimited popped pending).2) :
    drain p popped pending = drain p.unlimited popped pending := by
  induction popped, pending using drain.induct p.unlimited with
  | case1 popped pending hnone =>
    have heq : drain p.unlimited popped pending = (popped, pending) := by rw [drain, hnone]
    rw [heq] at h ⊢
    rw [drain, popSentence_eq_unlimited fun _ => h, hnone]
  | case2 popped pending out rest hsome ih =>
    have heq : drain p.unlimited popped pending = drain p.unlimited (popped ++ [out]) rest := by
      rw [drain, hsome]
    have hsentence : sentenceLength p pending ≠ none := by
      intro hnone
      rw [popSentence_unlimited (p := p.unlimited) le_rfl, sentenceLength_unlimited, hnone] at hsome
      cases hsome
    rw [heq] at h ⊢
    rw [drain, popSentence_eq_unlimited fun hnone => absurd hnone hsentence, hsome]
    exact ih h

/-- **Without a flush the limit makes no difference.** -/
theorem liveState_eq_unlimited (h : NoFlush p reads) :
    liveState p reads = liveState p.unlimited reads := by
  induction reads using List.reverseRecOn with
  | nil => rfl
  | append_singleton before read ih =>
    have hbefore := ih fun front hfront => h front (hfront.trans (List.prefix_append _ _))
    have hlast := h _ (List.prefix_refl _)
    rw [liveState_concat] at hlast ⊢
    rw [liveState_concat, hbefore]
    rw [liveRound] at hlast ⊢
    rw [liveRound]
    split
    · rfl
    · rename_i hsaw
      rw [if_neg hsaw, drained] at hlast
      have hinto : readInto p (liveState p.unlimited before) read =
          readInto p.unlimited (liveState p.unlimited before) read := rfl
      rw [hinto, drained, drained, drain_eq_unlimited _ _ hlast]

theorem popSentence_true_unlimited (pending : List UInt8) :
    popSentence p.unlimited true pending = popSentence p true pending := by
  rw [popSentence, popSentence, sentenceLength_unlimited]
  rfl

theorem liveInput_eq_unlimited (hflush : NoFlush p reads)
    (h : p.inputEofMarker = [] ∨ ∀ pos, ¬ FirstAt p.inputEofMarker reads.flatten pos) :
    liveInput p reads = liveInput p.unlimited reads := by
  obtain ⟨hnone, -⟩ := content_liveState (p := p.unlimited) le_rfl h []
  have hpop : popSentence p.unlimited false (liveState p.unlimited reads).pending = none := by
    rw [popSentence_unlimited (p := p.unlimited) le_rfl, hnone]
    rfl
  have hstay : (drain p.unlimited (liveState p.unlimited reads).popped
      (liveState p.unlimited reads).pending).2 = (liveState p.unlimited reads).pending := by
    rw [drain, hpop]
  have hfits := hflush reads (List.prefix_refl reads)
  rw [← hstay] at hfits
  rw [liveInput, liveInput, liveState_eq_unlimited hflush, drained, drained,
    drain_eq_unlimited _ _ hfits, flushed, flushed, popSentence_true_unlimited]

/-- **The sentences are the pieces** of what is read. -/
theorem content_liveInput (hflush : NoFlush p reads)
    (h : p.inputEofMarker = [] ∨ ∀ pos, ¬ FirstAt p.inputEofMarker reads.flatten pos) :
    content isWs (liveInput p reads).popped =
      content isWs (pieces (reads.flatMap (marked p))) := by
  have hmarked : marked p.unlimited = marked p := funext marked_unlimited
  rw [liveInput_eq_unlimited hflush h, ← hmarked]
  exact content_liveInput_unlimited (p := p.unlimited) le_rfl h

end NoFlush

/-! ### The marks of the reads -/

section Reads

variable {p : LiveParams} {ends ends' : List ℕ} {pos n : ℕ}

/-- The bytes with the marks of one read and those of the given ends. -/
def markedAt (p : LiveParams) (ends : List ℕ) (pos : ℕ) : List UInt8 → List (UInt8 × Bool)
  | [] => []
  | c :: rest =>
    (c, endsSentence p c rest || decide (pos + 1 ∈ ends)) :: markedAt p ends (pos + 1) rest

theorem lt_of_mem_openEnds {reads : List (List UInt8)} (h : n ∈ openEnds p pos reads) :
    pos < n := by
  induction reads generalizing pos with
  | nil => cases h
  | cons read reads ih =>
    rw [openEnds] at h
    split at h
    · rename_i hopen
      obtain rfl | htail := List.mem_cons.1 h
      · obtain rfl | hne := eq_or_ne read []
        · simp at hopen
        · have := List.length_pos_of_ne_nil hne
          omega
      · have := ih htail
        omega
    · have := ih h
      omega

theorem markedAt_congr (h : ∀ n, pos < n → (n ∈ ends ↔ n ∈ ends')) (s : List UInt8) :
    markedAt p ends pos s = markedAt p ends' pos s := by
  induction s generalizing pos with
  | nil => rfl
  | cons c s ih =>
    rw [markedAt, markedAt, ih fun n hn => h n (by omega),
      decide_eq_decide.2 (h (pos + 1) (Nat.lt_succ_self pos))]

/-- The last byte of a read. -/
theorem endsSentence_nil (c : UInt8) (s : List UInt8) :
    endsSentence p c [] = (endsSentence p c s ||
      (!p.inputByLine && isStop c && s.head?.any fun nx => !opensSentence nx)) := by
  rw [endsSentence, endsSentence]
  split
  · rename_i hline
    simp [hline]
  · rename_i hline
    rw [Bool.not_eq_true] at hline
    cases s with
    | nil => simp
    | cons nx s =>
      simp only [hline, List.head?_nil, Option.all_none, List.head?_cons, Option.all_some,
        Option.any_some, opensSentence]
      cases isStop c <;> cases (c == 10) <;> cases (isWs nx || (65 ≤ nx && nx ≤ 90)) <;> simp

/-- A read in front of other bytes. -/
theorem markedAt_append {read s : List UInt8}
    (hinner : ∀ n, pos < n → n < pos + read.length → n ∉ ends)
    (hlast : pos + read.length ∈ ends ↔ (!p.inputByLine && read.getLast?.any isStop &&
      s.head?.any fun nx => !opensSentence nx) = true) :
    markedAt p ends pos (read ++ s) = marked p read ++ markedAt p ends (pos + read.length) s := by
  induction read generalizing pos with
  | nil => rfl
  | cons c read ih =>
    have hlength : pos + (c :: read).length = pos + 1 + read.length := by
      rw [List.length_cons]
      omega
    rw [List.cons_append, markedAt, marked, List.cons_append, hlength]
    rw [hlength] at hinner hlast
    cases read with
    | nil =>
      have hopen : decide (pos + 1 ∈ ends) = (!p.inputByLine && isStop c &&
          s.head?.any fun nx => !opensSentence nx) := by
        rw [Bool.eq_iff_iff, decide_eq_true_iff]
        exact hlast
      rw [endsSentence_nil c s, hopen]
      rfl
    | cons d read =>
      have hmark : endsSentence p c (d :: read ++ s) = endsSentence p c (d :: read) := rfl
      have hopen : pos + 1 ∉ ends :=
        hinner _ (Nat.lt_succ_self pos) (by rw [List.length_cons]; omega)
      rw [hmark, decide_eq_false hopen, Bool.or_false,
        ih (fun n hn hn' => hinner n (by omega) hn') (by rwa [List.getLast?_cons_cons] at hlast)]

/-- **The marks of the reads** are those of one read and those of the open ends. -/
theorem flatMap_marked (reads : List (List UInt8)) (pos : ℕ) :
    reads.flatMap (marked p) = markedAt p (openEnds p pos reads) pos reads.flatten := by
  induction reads generalizing pos with
  | nil => rfl
  | cons read reads ih =>
    have hmem (n : ℕ) : n ∈ openEnds p pos (read :: reads) ↔
        (n = pos + read.length ∧ (!p.inputByLine && read.getLast?.any isStop &&
          reads.flatten.head?.any fun nx => !opensSentence nx) = true) ∨
          n ∈ openEnds p (pos + read.length) reads := by
      rw [openEnds]
      split <;> rename_i hopen <;> simp [hopen]
    have hbehind (n : ℕ) (hn : n ∈ openEnds p (pos + read.length) reads) :
        pos + read.length < n := lt_of_mem_openEnds hn
    rw [List.flatMap_cons, ih (pos + read.length), List.flatten_cons,
      markedAt_append (fun n _ hn' hopen => ?_) ?_]
    · congr 1
      refine markedAt_congr (fun n hn => ?_) _
      rw [hmem]
      exact (or_iff_right fun h => absurd h.1 (by omega)).symm
    · rw [hmem]
      exact (or_iff_left fun h => absurd (hbehind _ h) (lt_irrefl _)).trans (and_iff_right rfl)
    · obtain ⟨rfl, -⟩ | htail := (hmem n).1 hopen
      · omega
      · have := hbehind n htail
        omega

theorem map_fst_markedAt (s : List UInt8) : (markedAt p ends pos s).map Prod.fst = s := by
  induction s generalizing pos with
  | nil => rfl
  | cons c s ih => rw [markedAt, List.map_cons, ih]

theorem getElem?_markedAt (s : List UInt8) (i : ℕ) :
    (markedAt p ends pos s)[i]? = s[i]?.map fun c =>
      (c, endsSentence p c (s.drop (i + 1)) || decide (pos + i + 1 ∈ ends)) := by
  induction s generalizing pos i with
  | nil => rfl
  | cons c s ih =>
    cases i with
    | zero => rfl
    | succ i =>
      rw [markedAt, List.getElem?_cons_succ, ih, List.getElem?_cons_succ, List.drop_succ_cons,
        show pos + 1 + i + 1 = pos + (i + 1) + 1 by omega]

/-- The terminator that an open end is behind, and the byte that follows. -/
theorem of_mem_openEnds {reads : List (List UInt8)} (h : n ∈ openEnds p pos reads) :
    p.inputByLine = false ∧ ∃ i c nx, n = pos + i + 1 ∧ reads.flatten[i]? = some c ∧
      isStop c = true ∧ reads.flatten[i + 1]? = some nx ∧ opensSentence nx = false := by
  induction reads generalizing pos with
  | nil => cases h
  | cons read reads ih =>
    have htail (h : n ∈ openEnds p (pos + read.length) reads) :
        p.inputByLine = false ∧ ∃ i c nx, n = pos + i + 1 ∧ (read :: reads).flatten[i]? = some c ∧
          isStop c = true ∧ (read :: reads).flatten[i + 1]? = some nx ∧
          opensSentence nx = false := by
      obtain ⟨hline, i, c, nx, rfl, hc, hstop, hnx, hopen⟩ := ih h
      refine ⟨hline, read.length + i, c, nx, by omega, ?_, hstop, ?_, hopen⟩
      · rw [List.flatten_cons, List.getElem?_append_right (by omega), Nat.add_sub_cancel_left, hc]
      · rw [List.flatten_cons, List.getElem?_append_right (by omega),
          show read.length + i + 1 - read.length = i + 1 by omega, hnx]
    rw [openEnds] at h
    split at h
    · rename_i hopen
      obtain rfl | h := List.mem_cons.1 h
      · rw [Bool.and_eq_true, Bool.and_eq_true, Option.any_eq_true, Option.any_eq_true,
          Bool.not_eq_true'] at hopen
        obtain ⟨⟨hline, c, hc, hstop⟩, nx, hnx, hopens⟩ := hopen
        have hpos : 0 < read.length := by
          rw [List.length_pos_iff]
          rintro rfl
          cases hc
        refine ⟨hline, read.length - 1, c, nx, by omega, ?_, hstop, ?_, by simpa using hopens⟩
        · rw [List.flatten_cons, List.getElem?_append_left (by omega), ← List.getLast?_eq_getElem?]
          exact hc
        · rw [List.flatten_cons, List.getElem?_append_right (by omega),
            show read.length - 1 + 1 - read.length = 0 by omega, ← List.head?_eq_getElem?]
          exact hnx
      · exact htail h
    · exact htail h

/-- Such a terminator ends no sentence when everything is read at once. -/
theorem endsSentence_of_open {c nx : UInt8} {s : List UInt8} (hline : p.inputByLine = false)
    (hstop : isStop c = true) (hnx : s.head? = some nx) (hopen : opensSentence nx = false) :
    endsSentence p c s = false := by
  have hnewline : (c == 10) = false := by
    cases heq : c == 10 with
    | true =>
      rw [beq_iff_eq] at heq
      rw [heq] at hstop
      cases hstop
    | false => rfl
  rw [opensSentence] at hopen
  rw [endsSentence, hline, if_neg Bool.false_ne_true, hnewline, hnx, Option.all_some, hopen]
  simp

/-- **What is spoken shows the open ends.** -/
theorem mem_openEnds_of_content_eq {reads : List (List UInt8)}
    (h : content isWs (pieces (markedAt p (openEnds p 0 reads) 0 reads.flatten)) =
      content isWs (pieces (markedAt p ends 0 reads.flatten)))
    (hn : n ∈ openEnds p 0 reads) : n ∈ ends := by
  obtain ⟨hline, i, c, nx, heq, hc, hstop, hnx, hopen⟩ := of_mem_openEnds hn
  rw [Nat.zero_add] at heq
  have hnone : endsSentence p c (reads.flatten.drop (i + 1)) = false :=
    endsSentence_of_open hline hstop (by rw [List.head?_drop, hnx]) hopen
  have hblank : isWs c = false ∧ isWs nx = false := by
    constructor
    · rw [isStop, Bool.or_eq_true, Bool.or_eq_true, beq_iff_eq, beq_iff_eq, beq_iff_eq] at hstop
      obtain (rfl | rfl) | rfl := hstop <;> decide
    · rw [opensSentence, Bool.or_eq_false_iff] at hopen
      exact hopen.1
  have hmarks := mark_eq_of_content_eq (c := c) (d := nx) (i := i)
    (by rw [map_fst_markedAt, map_fst_markedAt]) h
    (by rw [getElem?_markedAt, hc, Option.map_some])
    (by rw [getElem?_markedAt, hc, Option.map_some])
    (by rw [map_fst_markedAt, hnx]) hblank.1 hblank.2
  rw [hnone, Bool.false_or, Bool.false_or, decide_eq_decide, Nat.zero_add, ← heq] at hmarks
  exact hmarks.1 hn

end Reads

/-! ### Two ways of reading -/

section TwoWays

variable {p : LiveParams} {reads reads' : List (List UInt8)}

/-- **When two ways of reading give the same sentences**, up to whitespace around them and to blank
ones: when reads end behind the same terminators of those that would not end a sentence in front of
the next byte. -/
theorem liveInput_content_eq_iff (htext : reads.flatten = reads'.flatten)
    (hmarker : p.inputEofMarker = [] ∨ ∀ pos, ¬ FirstAt p.inputEofMarker reads.flatten pos)
    (hflush : NoFlush p reads) (hflush' : NoFlush p reads') :
    content isWs (liveInput p reads).popped = content isWs (liveInput p reads').popped ↔
      ∀ n, n ∈ openEnds p 0 reads ↔ n ∈ openEnds p 0 reads' := by
  rw [content_liveInput hflush hmarker, content_liveInput hflush' (htext ▸ hmarker),
    flatMap_marked reads 0, flatMap_marked reads' 0]
  constructor
  · intro h n
    constructor
    · rw [← htext] at h
      exact mem_openEnds_of_content_eq h
    · rw [htext] at h
      exact mem_openEnds_of_content_eq h.symm
  · intro h
    rw [← htext, markedAt_congr fun n _ => h n]

theorem noFlush_of_nonpos (hmax : p.maxSentenceChars ≤ 0) (reads : List (List UInt8)) :
    NoFlush p reads :=
  fun _ _ hlong => absurd hlong.2.1 (not_lt.2 hmax)

/-- `"Hi. Yo."`, read in front of the space or behind it. -/
theorem liveInput_content_eq_iff_space :
    content isWs (liveInput ⟨false, [], 0⟩ [[72, 105, 46], [32, 89, 111, 46]]).popped =
        content isWs (liveInput ⟨false, [], 0⟩ [[72, 105, 46, 32], [89, 111, 46]]).popped ↔
      ∀ n, n ∈ openEnds ⟨false, [], 0⟩ 0 [[72, 105, 46], [32, 89, 111, 46]] ↔
        n ∈ openEnds ⟨false, [], 0⟩ 0 [[72, 105, 46, 32], [89, 111, 46]] :=
  liveInput_content_eq_iff rfl (.inl rfl) (noFlush_of_nonpos le_rfl _) (noFlush_of_nonpos le_rfl _)

/-- **The sentences depend on the reads**: `"3.14"` is one, or `"3."` and `"14"`; and a newline that
comes after `"Hi."` is a blank one. -/
theorem not_forall_liveInput_eq :
    (¬ ∀ (p : LiveParams) (reads reads' : List (List UInt8)), reads.flatten = reads'.flatten →
      p.inputEofMarker = [] → NoFlush p reads → NoFlush p reads' →
        (liveInput p reads).popped.map (trim isWs) =
          (liveInput p reads').popped.map (trim isWs)) ∧
      (liveInput ⟨false, [], 0⟩ [[72, 105, 46], [10]]).popped.map (trim isWs) ≠
        (liveInput ⟨false, [], 0⟩ [[72, 105, 46, 10]]).popped.map (trim isWs) := by
  constructor
  · intro h
    have heq := h ⟨false, [], 0⟩ [[51, 46], [49, 52]] [[51, 46, 49, 52]] rfl rfl
      (noFlush_of_nonpos le_rfl _) (noFlush_of_nonpos le_rfl _)
    revert heq
    decide +kernel
  · decide +kernel

end TwoWays

end Chatterbox

end WhisperCpp
