import WhisperCpp.Chatterbox.SplitText
import WhisperCpp.Library.Search

/-!
# Live input

The command line tool reads standard input piece by piece and speaks every sentence as soon as it is
complete. A marker in the input ends it. The marker is searched in what is pending, and by then the
first part of it may have been spoken: a terminator at the end of what has been read ends a sentence.

There is no interruption here, and every sentence is spoken without an error.

## Main definitions

* `popSentence`, `liveRound`, `liveInput` — the loop
* `Conserved` — what is popped is the text in front of the marker
* `MarkerUntouched` — nothing of the marker has been popped before it is complete

## Main results

* `flatten_drain` — a round pops what is read
* `liveInput_conserved_iff`
-/

namespace WhisperCpp

namespace Chatterbox

open T3Model (toInt)

open Search

/-- The parameters of the loop. -/
structure LiveParams where
  inputByLine : Bool
  inputEofMarker : List UInt8
  maxSentenceChars : ℤ

/-- What the loop keeps, with the strings that it has popped. -/
structure LiveState where
  popped : List (List UInt8)
  pending : List UInt8
  sawEofMarker : Bool

/-- Before the first read. -/
def LiveState.start : LiveState := ⟨[], [], false⟩

section Definitions

variable (p : LiveParams)

/-- A sentence ends at `c`, which has `rest` behind it. -/
def endsSentence (c : UInt8) (rest : List UInt8) : Bool :=
  if p.inputByLine then c == 10
  else
    (isStop c || c == 10) &&
      -- `nx_ws` and `nx_upper`, or `at_end`
      (c == 10 || rest.head?.all fun nx => isWs nx || (65 ≤ nx && nx ≤ 90))

/-- The length of the first sentence, with the whitespace behind it. -/
def sentenceLength : List UInt8 → Option ℕ
  | [] => none
  | c :: rest =>
    if endsSentence p c rest then some (1 + (rest.takeWhile isWs).length)
    else (sentenceLength rest).map (· + 1)

/-- `pop_sentence`: what is popped, and what is pending then. -/
def popSentence (forceFinal : Bool) (pending : List UInt8) : Option (List UInt8 × List UInt8) :=
  if pending = [] then none
  else
    match sentenceLength p pending with
    | some j => some (pending.take j, pending.drop j)
    | none =>
      if forceFinal then some (pending, [])
      else if 0 < p.maxSentenceChars ∧
          ¬ toInt pending.length ≤ (p.maxSentenceChars * 2).bmod (2 ^ 32) then
        some (pending.take p.maxSentenceChars.toNat, pending.drop p.maxSentenceChars.toNat)
      else none

variable {p}

theorem sentenceLength_pos {pending : List UInt8} {j : ℕ} (h : sentenceLength p pending = some j) :
    0 < j := by
  cases pending with
  | nil => cases h
  | cons c rest =>
    rw [sentenceLength] at h
    split at h
    · obtain rfl := Option.some.inj h
      omega
    · obtain ⟨k, -, rfl⟩ := Option.map_eq_some_iff.mp h
      exact Nat.succ_pos k

/-- What is popped is in front of what is pending, and not empty. -/
theorem popSentence_spec {forceFinal : Bool} {pending out rest : List UInt8}
    (h : popSentence p forceFinal pending = some (out, rest)) :
    out ++ rest = pending ∧ rest.length < pending.length := by
  rw [popSentence] at h
  split at h
  · cases h
  · rename_i hne
    have hpos := List.length_pos_iff.mpr hne
    have hcut : ∀ n, 0 < n → some (pending.take n, pending.drop n) = some (out, rest) →
        out ++ rest = pending ∧ rest.length < pending.length := by
      intro n hn heq
      obtain ⟨rfl, rfl⟩ := Prod.mk.inj (Option.some.inj heq)
      rw [List.take_append_drop, List.length_drop]
      exact ⟨rfl, by omega⟩
    split at h
    · rename_i j hj
      exact hcut j (sentenceLength_pos hj) h
    · split at h
      · obtain ⟨rfl, rfl⟩ := Prod.mk.inj (Option.some.inj h)
        exact ⟨List.append_nil _, hpos⟩
      · split at h
        · rename_i hlong
          exact hcut _ (by omega) h
        · cases h

variable (p)

/-- The loop that drains every complete sentence. -/
def drain (popped : List (List UInt8)) (pending : List UInt8) : List (List UInt8) × List UInt8 :=
  match _h : popSentence p false pending with
  | none => (popped, pending)
  | some (out, rest) => drain (popped ++ [out]) rest
termination_by pending.length
decreasing_by exact (popSentence_spec _h).2

/-- The state after draining. -/
def drained (s : LiveState) : LiveState :=
  { s with popped := (drain p s.popped s.pending).1, pending := (drain p s.popped s.pending).2 }

/-- `pending.append`, and the search for the marker. A read without bytes does not search. -/
def readInto (s : LiveState) (read : List UInt8) : LiveState :=
  match if read = [] ∨ p.inputEofMarker = [] then none
    else findSub p.inputEofMarker (s.pending ++ read) with
  | some pos => { s with pending := (s.pending ++ read).take pos, sawEofMarker := true }
  | none => { s with pending := s.pending ++ read }

/-- One round of the loop. There is none after the marker. -/
def liveRound (s : LiveState) (read : List UInt8) : LiveState :=
  if s.sawEofMarker then s else drained p (readInto p s read)

/-- The final flush. -/
def flushed (s : LiveState) : LiveState :=
  match popSentence p true s.pending with
  | some (out, rest) => { s with popped := s.popped ++ [out], pending := rest }
  | none => s

/-- The state behind the given reads. -/
def liveState (reads : List (List UInt8)) : LiveState := reads.foldl (liveRound p) .start

/-- The loop on standard input that is closed behind the given reads. -/
def liveInput (reads : List (List UInt8)) : LiveState :=
  let s := liveState p reads
  flushed p (if s.sawEofMarker then s else drained p s)

/-- What is popped is the stream up to the first marker, or all of it. -/
structure Conserved (stream out : List UInt8) : Prop where
  marked : ∀ pos, p.inputEofMarker ≠ [] → FirstAt p.inputEofMarker stream pos →
    out = stream.take pos
  unmarked : p.inputEofMarker = [] ∨ (∀ pos, ¬ FirstAt p.inputEofMarker stream pos) → out = stream

/-- When a read completes the first marker, nothing of it has been popped. -/
def MarkerUntouched (reads : List (List UInt8)) : Prop :=
  ∀ before read behind pos, reads = before ++ read :: behind → p.inputEofMarker ≠ [] →
    FirstAt p.inputEofMarker reads.flatten pos →
    before.flatten.length < pos + p.inputEofMarker.length →
    pos + p.inputEofMarker.length ≤ (before ++ [read]).flatten.length →
    (liveState p before).popped.flatten.length ≤ pos

end Definitions

section Rounds

variable {p : LiveParams} {s : LiveState} {read : List UInt8}

/-- **Draining pops what is pending**, from the front. -/
theorem flatten_drain (popped : List (List UInt8)) (pending : List UInt8) :
    (∃ more, (drain p popped pending).1 = popped ++ more) ∧
      (drain p popped pending).1.flatten ++ (drain p popped pending).2 =
        popped.flatten ++ pending := by
  induction popped, pending using drain.induct p with
  | case1 popped pending hnone =>
    rw [drain, hnone]
    exact ⟨⟨[], (List.append_nil popped).symm⟩, rfl⟩
  | case2 popped pending out rest hsome ih =>
    obtain ⟨⟨more, hmore⟩, hflat⟩ := ih
    rw [drain, hsome]
    refine ⟨⟨out :: more, by rw [hmore, List.append_assoc, List.singleton_append]⟩, ?_⟩
    rw [hflat, List.flatten_append, List.flatten_singleton, List.append_assoc,
      (popSentence_spec hsome).1]

/-- Behind draining there is no sentence. -/
theorem popSentence_drain (popped : List (List UInt8)) (pending : List UInt8) :
    popSentence p false (drain p popped pending).2 = none := by
  induction popped, pending using drain.induct p with
  | case1 popped pending hnone =>
    rw [drain, hnone]
    exact hnone
  | case2 popped pending out rest hsome ih =>
    rw [drain, hsome]
    exact ih

/-- The final flush pops all that is pending. -/
theorem flatten_flushed (h : popSentence p false s.pending = none) :
    (flushed p s).popped.flatten = s.popped.flatten ++ s.pending := by
  rw [popSentence] at h
  rw [flushed, popSentence]
  split at h
  · rename_i hnil
    rw [if_pos hnil, hnil, List.append_nil]
  · rename_i hne
    rw [if_neg hne]
    split at h
    · cases h
    · rename_i hlen
      rw [if_pos rfl, List.flatten_append, List.flatten_singleton]

/-- What draining and the final flush pop. -/
theorem flatten_flushed_drained (s : LiveState) :
    (flushed p (drained p s)).popped.flatten = s.popped.flatten ++ s.pending := by
  rw [flatten_flushed (popSentence_drain s.popped s.pending)]
  exact (flatten_drain s.popped s.pending).2

/-! ### What is popped stays popped -/

theorem popped_flushed (s : LiveState) : ∃ more, (flushed p s).popped = s.popped ++ more := by
  rw [flushed]
  split
  · exact ⟨[_], rfl⟩
  · exact ⟨[], (List.append_nil _).symm⟩

theorem popped_readInto (s : LiveState) (read : List UInt8) :
    (readInto p s read).popped = s.popped := by
  rw [readInto]
  split <;> rfl

theorem popped_liveRound (s : LiveState) (read : List UInt8) :
    ∃ more, (liveRound p s read).popped = s.popped ++ more := by
  rw [liveRound]
  split
  · exact ⟨[], (List.append_nil _).symm⟩
  · obtain ⟨more, hmore⟩ := (flatten_drain (readInto p s read).popped (readInto p s read).pending).1
    rw [popped_readInto] at hmore
    exact ⟨more, by rw [drained, popped_readInto, hmore]⟩

theorem popped_foldl (s : LiveState) (reads : List (List UInt8)) :
    ∃ more, (reads.foldl (liveRound p) s).popped = s.popped ++ more := by
  induction reads generalizing s with
  | nil => exact ⟨[], (List.append_nil _).symm⟩
  | cons read reads ih =>
    obtain ⟨more, hmore⟩ := popped_liveRound s read
    obtain ⟨more', hmore'⟩ := ih (liveRound p s read)
    exact ⟨more ++ more', by rw [List.foldl_cons, hmore', hmore, List.append_assoc]⟩

/-- At the end there is all that has been popped before. -/
theorem popped_liveInput (before behind : List (List UInt8)) :
    ∃ more, (liveInput p (before ++ behind)).popped = (liveState p before).popped ++ more := by
  obtain ⟨more, hmore⟩ := @popped_foldl p (liveState p before) behind
  have hstate : (liveState p (before ++ behind)).popped = (liveState p before).popped ++ more := by
    rw [liveState, List.foldl_append]
    exact hmore
  rw [liveInput]
  split
  · obtain ⟨more', hmore'⟩ := @popped_flushed p (liveState p (before ++ behind))
    exact ⟨more ++ more', by rw [hmore', hstate, List.append_assoc]⟩
  · obtain ⟨more', hmore'⟩ := @popped_flushed p (drained p (liveState p (before ++ behind)))
    obtain ⟨more'', hmore''⟩ := @flatten_drain p (liveState p (before ++ behind)).popped
      (liveState p (before ++ behind)).pending |>.1
    exact ⟨more ++ more'' ++ more', by
      rw [hmore', drained, hmore'', hstate, List.append_assoc, List.append_assoc,
        List.append_assoc]⟩

/-! ### Rounds with and without the marker -/

theorem liveState_concat (before : List (List UInt8)) (read : List UInt8) :
    liveState p (before ++ [read]) = liveRound p (liveState p before) read := by
  rw [liveState, List.foldl_append]
  rfl

/-- A round that does not find the marker. -/
theorem liveRound_of_none (hsaw : s.sawEofMarker = false)
    (hnone : (if read = [] ∨ p.inputEofMarker = [] then none
      else findSub p.inputEofMarker (s.pending ++ read)) = none) :
    (liveRound p s read).sawEofMarker = false ∧
      (liveRound p s read).popped.flatten ++ (liveRound p s read).pending =
        s.popped.flatten ++ s.pending ++ read := by
  have hread : readInto p s read = { s with pending := s.pending ++ read } := by
    rw [readInto, hnone]
  rw [liveRound, hsaw, if_neg Bool.false_ne_true, hread]
  refine ⟨hsaw, ?_⟩
  rw [List.append_assoc]
  exact (flatten_drain s.popped (s.pending ++ read)).2

/-- Without the first marker in what has been read, it is not found in what is pending. -/
theorem find_of_unmarked {before : List (List UInt8)}
    (h : p.inputEofMarker = [] ∨ ∀ pos, ¬ FirstAt p.inputEofMarker (before.flatten ++ read) pos)
    (hkept : s.popped.flatten ++ s.pending = before.flatten) :
    (if read = [] ∨ p.inputEofMarker = [] then none
      else findSub p.inputEofMarker (s.pending ++ read)) = none := by
  rw [ite_eq_left_iff]
  intro hmarker
  have hno := h.resolve_left fun hnil => hmarker (.inr hnil)
  by_contra hfind
  obtain ⟨pos, hpos⟩ := Option.ne_none_iff_exists'.mp hfind
  -- found in what is pending, so in the stream
  have hstream : (before.flatten ++ read).drop s.popped.flatten.length = s.pending ++ read := by
    rw [← hkept, List.append_assoc, List.drop_left]
  have hfirst := findSub_eq_some_iff.mp hpos
  have hle := hfirst.le_length
  have hlen := congrArg List.length hkept
  rw [← hstream] at hfirst hle
  rw [List.length_drop] at hle
  rw [List.length_append] at hlen
  rw [List.length_append] at hle
  obtain ⟨q, -, hq⟩ := exists_firstAt (by rw [List.length_append]; omega)
    (prefix_drop_of_firstAt_drop hfirst)
  exact hno q hq

/-- Without the first marker, all that has been read is popped or pending. -/
theorem liveState_of_unmarked {reads : List (List UInt8)}
    (h : p.inputEofMarker = [] ∨ ∀ pos, ¬ FirstAt p.inputEofMarker reads.flatten pos) :
    (liveState p reads).sawEofMarker = false ∧
      (liveState p reads).popped.flatten ++ (liveState p reads).pending = reads.flatten := by
  induction reads using List.reverseRecOn with
  | nil => exact ⟨rfl, rfl⟩
  | append_singleton before read ih =>
    rw [List.flatten_append, List.flatten_singleton] at h ⊢
    obtain ⟨hsaw, hkept⟩ := ih (h.imp_right fun hno pos hpos => hno pos hpos.append)
    rw [liveState_concat]
    obtain ⟨hsaw', hkept'⟩ := liveRound_of_none hsaw (find_of_unmarked h hkept)
    exact ⟨hsaw', by rw [hkept', hkept]⟩

/-- After the marker nothing is read. -/
theorem foldl_of_saw (h : s.sawEofMarker = true) (reads : List (List UInt8)) :
    reads.foldl (liveRound p) s = s := by
  induction reads with
  | nil => rfl
  | cons read reads ih => rw [List.foldl_cons, liveRound, if_pos h, ih]

/-- The read that completes `n` bytes. -/
theorem exists_read {reads : List (List UInt8)} {n : ℕ} (h0 : 0 < n)
    (hn : n ≤ reads.flatten.length) : ∃ before read behind, reads = before ++ read :: behind ∧
      before.flatten.length < n ∧ n ≤ (before ++ [read]).flatten.length := by
  induction reads generalizing n with
  | nil =>
    rw [List.flatten_nil, List.length_nil] at hn
    omega
  | cons r reads ih =>
    rw [List.flatten_cons, List.length_append] at hn
    by_cases hr : n ≤ r.length
    · refine ⟨[], r, reads, rfl, h0, ?_⟩
      rwa [List.nil_append, List.flatten_singleton]
    · obtain ⟨before, read, behind, heq, h1, h2⟩ := @ih (n - r.length) (by omega) (by omega)
      refine ⟨r :: before, read, behind, by rw [heq, List.cons_append], ?_, ?_⟩
      · rw [List.flatten_cons, List.length_append]
        omega
      · rw [List.cons_append, List.flatten_cons, List.length_append]
        omega

/-- **The read that completes the marker**: it is found iff nothing of it has been popped. -/
theorem flatten_liveInput_eq_iff {before behind : List (List UInt8)} {pos : ℕ}
    (hmarker : p.inputEofMarker ≠ [])
    (hfirst : FirstAt p.inputEofMarker (before ++ read :: behind).flatten pos)
    (hbefore : before.flatten.length < pos + p.inputEofMarker.length)
    (hread : pos + p.inputEofMarker.length ≤ (before ++ [read]).flatten.length) :
    (liveInput p (before ++ read :: behind)).popped.flatten =
        (before ++ read :: behind).flatten.take pos ↔
      (liveState p before).popped.flatten.length ≤ pos := by
  have hstream : (before ++ read :: behind).flatten =
      before.flatten ++ (read ++ behind.flatten) := by
    rw [List.flatten_append, List.flatten_cons]
  rw [List.flatten_append, List.flatten_singleton] at hread
  constructor
  · intro heq
    obtain ⟨more, hmore⟩ := @popped_liveInput p before (read :: behind)
    have hlen := congrArg List.length heq
    rw [hmore, List.flatten_append, List.length_append, List.length_take] at hlen
    omega
  · intro hle
    -- before this read the marker is not complete
    have hno : ∀ q, ¬ FirstAt p.inputEofMarker before.flatten q := by
      intro q hq
      have hend := hq.add_length_le
      rw [hstream] at hfirst
      have heq := hq.append.unique hfirst
      omega
    obtain ⟨hsaw, hkept⟩ := liveState_of_unmarked (.inr hno)
    have hfound : FirstAt p.inputEofMarker (before.flatten ++ read) pos := by
      rw [hstream, ← List.append_assoc] at hfirst
      exact hfirst.of_append hread
    have hpending : (before.flatten ++ read).drop (liveState p before).popped.flatten.length =
        (liveState p before).pending ++ read := by
      rw [← hkept, List.append_assoc, List.drop_left]
    have hfind : findSub p.inputEofMarker ((liveState p before).pending ++ read) =
        some (pos - (liveState p before).popped.flatten.length) := by
      rw [findSub_eq_some_iff, ← hpending]
      exact hfound.drop hle
    have hne : read ≠ [] := by
      rintro rfl
      rw [List.append_nil] at hread
      omega
    have hinto : readInto p (liveState p before) read =
        ⟨(liveState p before).popped, ((liveState p before).pending ++ read).take
          (pos - (liveState p before).popped.flatten.length), true⟩ := by
      rw [readInto, if_neg (not_or.mpr ⟨hne, hmarker⟩), hfind]
    have hround : liveRound p (liveState p before) read =
        drained p (readInto p (liveState p before) read) := by
      rw [liveRound, hsaw, if_neg Bool.false_ne_true]
    have hmarked : (liveRound p (liveState p before) read).sawEofMarker = true := by
      rw [hround, drained, hinto]
    have hstate : liveState p (before ++ read :: behind) =
        liveRound p (liveState p before) read := by
      rw [liveState, List.foldl_append, List.foldl_cons]
      exact foldl_of_saw hmarked behind
    have htake : (before ++ read :: behind).flatten.take pos =
        (liveState p before).popped.flatten ++ ((liveState p before).pending ++ read).take
          (pos - (liveState p before).popped.flatten.length) := by
      rw [hstream, ← List.append_assoc, List.take_append_of_le_length (by omega), ← hkept,
        List.append_assoc, List.take_append, List.take_of_length_le hle]
    rw [liveInput, hstate, hmarked, if_pos rfl, hround, flatten_flushed_drained, hinto, htake]

/-- **When live input is conserved.** The strings that are popped are the stream up to the first
marker, or all of it without one, iff no part of the marker is popped before it is complete. -/
theorem liveInput_conserved_iff (p : LiveParams) (reads : List (List UInt8)) :
    Conserved p reads.flatten (liveInput p reads).popped.flatten ↔ MarkerUntouched p reads := by
  constructor
  · rintro h before read behind pos rfl hmarker hfirst hbefore hread
    exact (flatten_liveInput_eq_iff hmarker hfirst hbefore hread).mp (h.marked pos hmarker hfirst)
  · intro h
    refine ⟨fun pos hmarker hfirst => ?_, fun hno => ?_⟩
    · have hpos := List.length_pos_iff.mpr hmarker
      obtain ⟨before, read, behind, rfl, hbefore, hread⟩ :=
        exists_read (by omega) hfirst.add_length_le
      exact (flatten_liveInput_eq_iff hmarker hfirst hbefore hread).mpr
        (h before read behind pos rfl hmarker hfirst hbefore hread)
    · obtain ⟨hsaw, hkept⟩ := liveState_of_unmarked hno
      rw [liveInput, hsaw, if_neg Bool.false_ne_true, flatten_flushed_drained, hkept]

/-- The marker `".END"` behind `"Hi"`. -/
def dotEnd : LiveParams := ⟨false, [46, 69, 78, 68], 0⟩

/-- **A read can end inside the marker**, behind its dot, which is then spoken; the rest is no
marker. -/
theorem not_forall_conserved : ¬ ∀ (p : LiveParams) (reads : List (List UInt8)),
    Conserved p reads.flatten (liveInput p reads).popped.flatten := by
  intro h
  have hpopped : (liveInput dotEnd [[72, 105, 46], [69, 78, 68]]).popped.flatten =
      [72, 105, 46, 69, 78, 68] := by
    decide +kernel
  have hfirst : FirstAt dotEnd.inputEofMarker [72, 105, 46, 69, 78, 68] 2 :=
    findSub_eq_some_iff.mp (by decide)
  have hmarked := (h dotEnd [[72, 105, 46], [69, 78, 68]]).marked 2 (by decide) hfirst
  rw [hpopped] at hmarked
  exact absurd hmarked (by decide)

end Rounds

end Chatterbox

end WhisperCpp
