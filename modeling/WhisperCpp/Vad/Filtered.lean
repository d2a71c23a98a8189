import WhisperCpp.Vad.Passes

/-!
# The filtered samples

`whisper_vad` copies the speech segments into one buffer, with silence between them. A first loop
adds up the lengths to size the buffer, a second one copies. Both clamp a segment to the audio, in
their own way.

## Main definitions

* `sizedLength`, `totalSamples` — the first loop
* `Piece`, `pieces` — the second loop: what is copied from where to where
* `CopiesFit` — the copies are made within the buffer and the audio, and fill the buffer

## Main results

* `copiesFit_iff` — they are iff every start is within the audio, and only the last segment is
  empty
-/

namespace WhisperCpp

namespace Vad

/-- `silence_samples`: the silence between two segments. -/
def silenceSamples : ℤ := 1600

section Definitions

/-- `overlap_samples`. -/
def overlapSamples {K : Type*} [Field K] [LinearOrder K] [FloorRing K] (p : VadParams K) : ℤ :=
  let samples := p.samplesOverlap * (sampleRate : K)
  if 0 ≤ samples then ⌊samples⌋ else ⌈samples⌉

variable (n overlap : ℤ)

/-- The end of a segment in the first loop. All segments but the last get the overlap. -/
def sizedEnd (last : Bool) (x : Stretch) : ℤ :=
  min (if last then csToSamples x.stop else toInt (csToSamples x.stop + overlap)) (n - 1)

/-- The length that the first loop counts for a segment. -/
def sizedLength (last : Bool) (x : Stretch) : ℤ := sizedEnd n overlap last x - csToSamples x.start

/-- The lengths of the first loop. -/
def sizedLengths : List Stretch → List ℤ
  | [] => []
  | x :: rest => sizedLength n overlap rest.isEmpty x :: sizedLengths rest

/-- `total_samples_needed`. -/
def totalSamples (segs : List Stretch) : ℤ :=
  (sizedLengths n overlap segs).sum + (segs.length - 1 : ℕ) * silenceSamples

/-- The start of a segment in the second loop. -/
def copiedStart (x : Stretch) : ℤ := min (csToSamples x.start) (n - 1)

/-- `original_segment_length`, without the overlap. -/
def originalLength (x : Stretch) : ℤ := min (csToSamples x.stop) (n - 1) - copiedStart n x

/-- The end of a segment in the second loop. -/
def copiedEnd (last : Bool) (x : Stretch) : ℤ :=
  if last then min (csToSamples x.stop) (n - 1)
  else min (toInt (min (csToSamples x.stop) (n - 1) + overlap)) (n - 1)

/-- `segment_length`. -/
def segmentLength (last : Bool) (x : Stretch) : ℤ := copiedEnd n overlap last x - copiedStart n x

/-- A segment that is copied: `length` samples from `src` on to `offset`, and silence after it if
there is a next segment. -/
structure Piece where
  orig : Stretch
  offset : ℤ
  src : ℤ
  originalLength : ℤ
  length : ℤ
  /-- The start of the next segment, in centiseconds. -/
  next : Option ℤ
  deriving DecidableEq, Repr

/-- The offset after a segment. -/
def nextOffset (offset : ℤ) (x : Stretch) (rest : List Stretch) : ℤ :=
  if 0 < segmentLength n overlap rest.isEmpty x then
    offset + segmentLength n overlap rest.isEmpty x + if rest.isEmpty then 0 else silenceSamples
  else offset

/-- The second loop, from `offset` on. A segment without samples is skipped, and so is the silence
after it. -/
def pieces : ℤ → List Stretch → List Piece
  | _, [] => []
  | offset, x :: rest =>
    (if 0 < segmentLength n overlap rest.isEmpty x then
      [⟨x, offset, copiedStart n x, originalLength n x, segmentLength n overlap rest.isEmpty x,
        rest.head?.map Stretch.start⟩]
    else []) ++ pieces (nextOffset n overlap offset x rest) rest

/-- The offset after the second loop. -/
def endOffset : ℤ → List Stretch → ℤ
  | offset, [] => offset
  | offset, x :: rest => endOffset (nextOffset n overlap offset x rest) rest

/-- The samples that the second loop copies of each segment. -/
def copiedLengths : List Stretch → List ℤ
  | [] => []
  | x :: rest => max 0 (segmentLength n overlap rest.isEmpty x) :: copiedLengths rest

/-- What a piece writes: the copy, and the silence after it. -/
def Piece.writes (b : Piece) : List Stretch :=
  ⟨b.offset, b.offset + b.length⟩ ::
    if b.next.isSome then [⟨b.offset + b.length, b.offset + b.length + silenceSamples⟩] else []

/-- What a piece reads. -/
def Piece.reads (b : Piece) : Stretch := ⟨b.src, b.src + b.length⟩

end Definitions

/-- The second loop copies what the first has counted, writes within the buffer, reads within the
audio, and fills the buffer. The size of the buffer is an `int`. -/
structure CopiesFit (n overlap : ℤ) (segs : List Stretch) : Prop where
  lengths : copiedLengths n overlap segs = sizedLengths n overlap segs
  writes : ∀ b ∈ pieces n overlap 0 segs, ∀ w ∈ b.writes,
    0 ≤ w.start ∧ w.stop ≤ totalSamples n overlap segs
  reads : ∀ b ∈ pieces n overlap 0 segs, 0 ≤ b.reads.start ∧ b.reads.stop ≤ n
  filled : endOffset n overlap 0 segs = totalSamples n overlap segs
  total_lt : totalSamples n overlap segs < intEnd

/-- A segment that is not the last: with the overlap it is not empty, it starts before the last
sample of the audio, and it does not matter whether the overlap is added before or after its end is
clamped to the audio. -/
structure FitsInner (n overlap : ℤ) (x : Stretch) : Prop where
  lt_end : csToSamples x.start < toInt (csToSamples x.stop + overlap)
  lt_audio : csToSamples x.start < n - 1
  clamp : copiedEnd n overlap false x = sizedEnd n overlap false x

/-- The last segment does not start after its end, nor after the last sample of the audio. -/
structure FitsLast (n : ℤ) (x : Stretch) : Prop where
  le_end : csToSamples x.start ≤ csToSamples x.stop
  le_audio : csToSamples x.start ≤ n - 1

/-- The segments fit into the audio. -/
def Fits (n overlap : ℤ) : List Stretch → Prop
  | [] => True
  | [x] => FitsLast n x
  | x :: y :: rest => FitsInner n overlap x ∧ Fits n overlap (y :: rest)

section Lemmas

variable {n overlap offset : ℤ} {x y : Stretch} {last : Bool} {rest segs : List Stretch}

/-! ### One segment -/

theorem copiedEnd_le (n overlap : ℤ) (last : Bool) (x : Stretch) :
    copiedEnd n overlap last x ≤ n - 1 := by
  rw [copiedEnd]
  split <;> exact min_le_right _ _

theorem copiedEnd_last (n overlap : ℤ) (x : Stretch) :
    copiedEnd n overlap true x = sizedEnd n overlap true x := rfl

/-- A segment before the last is copied as it was counted iff it fits. -/
theorem fitsInner_iff : FitsInner n overlap x ↔
    0 < segmentLength n overlap false x ∧
      segmentLength n overlap false x = sizedLength n overlap false x := by
  have hle := copiedEnd_le n overlap false x
  have hsized : sizedEnd n overlap false x ≤ toInt (csToSamples x.stop + overlap) := min_le_left _ _
  constructor
  · intro h
    have h1 := h.lt_end
    have h2 := h.lt_audio
    have h3 := h.clamp
    have hstart : copiedStart n x = csToSamples x.start := min_eq_left h2.le
    have hend : csToSamples x.start < sizedEnd n overlap false x := lt_min h1 h2
    unfold segmentLength sizedLength
    omega
  · rintro ⟨hpos, heq⟩
    unfold segmentLength sizedLength at *
    have hstart : copiedStart n x ≤ csToSamples x.start := min_le_left _ _
    have hlt : csToSamples x.start < n - 1 := by
      by_contra hge
      have : copiedStart n x = n - 1 := min_eq_right (not_lt.mp hge)
      omega
    have hstart' : copiedStart n x = csToSamples x.start := min_eq_left hlt.le
    exact ⟨by omega, hlt, by omega⟩

/-- So is the last segment, which may be empty. -/
theorem fitsLast_iff (n overlap : ℤ) : FitsLast n x ↔
    max 0 (segmentLength n overlap true x) = sizedLength n overlap true x := by
  have hsized : sizedEnd n overlap true x = min (csToSamples x.stop) (n - 1) := rfl
  unfold segmentLength sizedLength copiedStart
  rw [copiedEnd_last, hsized]
  constructor
  · rintro ⟨h1, h2⟩
    have := le_min h1 h2
    rw [min_eq_left h2]
    omega
  · intro h
    have h0 : csToSamples x.start ≤ min (csToSamples x.stop) (n - 1) := by
      have := le_max_left (0 : ℤ)
        (min (csToSamples x.stop) (n - 1) - min (csToSamples x.start) (n - 1))
      omega
    exact ⟨h0.trans (min_le_left _ _), h0.trans (min_le_right _ _)⟩

/-! ### All segments -/

theorem totalSamples_single (n overlap : ℤ) (x : Stretch) :
    totalSamples n overlap [x] = sizedLength n overlap true x := by
  simp [totalSamples, sizedLengths]

theorem totalSamples_cons (n overlap : ℤ) (x y : Stretch) (rest : List Stretch) :
    totalSamples n overlap (x :: y :: rest) =
      sizedLength n overlap false x + silenceSamples + totalSamples n overlap (y :: rest) := by
  simp only [totalSamples, sizedLengths, List.isEmpty_cons, List.sum_cons, List.length_cons]
  push_cast [Nat.add_sub_cancel]
  ring

/-- What was counted is enough: the offset ends within the buffer. -/
theorem endOffset_le (offset : ℤ) (h : copiedLengths n overlap segs = sizedLengths n overlap segs) :
    endOffset n overlap offset segs ≤ offset + totalSamples n overlap segs := by
  have hsil : (0 : ℤ) ≤ silenceSamples := by decide
  induction segs generalizing offset with
  | nil => simp [endOffset, totalSamples, sizedLengths]
  | cons x rest ih =>
    obtain ⟨hx, hrest⟩ := List.cons.inj h
    rw [endOffset]
    have hrec := ih (nextOffset n overlap offset x rest) hrest
    rw [nextOffset] at hrec ⊢
    cases rest with
    | nil =>
      rw [totalSamples_single]
      simp only [List.isEmpty_nil, if_true, endOffset] at hx ⊢
      split_ifs <;> omega
    | cons y rest =>
      rw [totalSamples_cons]
      simp only [List.isEmpty_cons, Bool.false_eq_true, if_false] at hx hrec ⊢
      split_ifs at hrec ⊢ <;> omega

/-- If the copies are as long as was counted and fill the buffer, the segments fit. -/
theorem fits_of_filled (h : copiedLengths n overlap segs = sizedLengths n overlap segs)
    (hend : endOffset n overlap offset segs = offset + totalSamples n overlap segs) :
    Fits n overlap segs := by
  have hsil : (0 : ℤ) < silenceSamples := by decide
  induction segs generalizing offset with
  | nil => trivial
  | cons x rest ih =>
    obtain ⟨hx, hrest⟩ := List.cons.inj h
    cases rest with
    | nil => exact (fitsLast_iff n overlap).mpr hx
    | cons y rest =>
      rw [endOffset] at hend
      rw [totalSamples_cons] at hend
      simp only [List.isEmpty_cons] at hx
      have hle := endOffset_le (nextOffset n overlap offset x (y :: rest)) hrest
      have hnext : nextOffset n overlap offset x (y :: rest) =
          if 0 < segmentLength n overlap false x then
            offset + segmentLength n overlap false x + silenceSamples else offset := rfl
      -- without its silence the offset would fall behind
      have hpos : 0 < segmentLength n overlap false x := by
        by_contra hneg
        rw [if_neg hneg] at hnext
        have := le_max_left (0 : ℤ) (segmentLength n overlap false x)
        omega
      rw [if_pos hpos] at hnext
      rw [max_eq_right hpos.le] at hx
      exact ⟨fitsInner_iff.mpr ⟨hpos, hx⟩, ih hrest (by rw [hend, hnext]; omega)⟩

theorem lengths_of_fits (offset : ℤ) (h : Fits n overlap segs) :
    copiedLengths n overlap segs = sizedLengths n overlap segs ∧
      endOffset n overlap offset segs = offset + totalSamples n overlap segs := by
  induction segs generalizing offset with
  | nil => simp [copiedLengths, sizedLengths, endOffset, totalSamples]
  | cons x rest ih =>
    rw [copiedLengths, sizedLengths, endOffset]
    cases rest with
    | nil =>
      have hx := (fitsLast_iff n overlap).mp h
      simp only [List.isEmpty_nil, copiedLengths, sizedLengths, endOffset, totalSamples_single,
        nextOffset, if_true]
      refine ⟨by rw [hx], ?_⟩
      split <;> omega
    | cons y rest =>
      obtain ⟨hpos, hx⟩ := fitsInner_iff.mp h.1
      obtain ⟨ih1, ih2⟩ := ih (nextOffset n overlap offset x (y :: rest)) h.2
      rw [ih1, ih2, totalSamples_cons]
      simp only [List.isEmpty_cons, nextOffset, if_pos hpos, Bool.false_eq_true, if_false]
      exact ⟨by rw [max_eq_right hpos.le, hx], by omega⟩

/-! ### What is written and read -/

theorem le_nextOffset (n overlap offset : ℤ) (x : Stretch) (rest : List Stretch) :
    offset ≤ nextOffset n overlap offset x rest := by
  have hsil : (0 : ℤ) ≤ silenceSamples := by decide
  rw [nextOffset]
  split_ifs <;> omega

theorem le_endOffset (n overlap offset : ℤ) (segs : List Stretch) :
    offset ≤ endOffset n overlap offset segs := by
  induction segs generalizing offset with
  | nil => exact le_rfl
  | cons x rest ih => exact (le_nextOffset n overlap offset x rest).trans (ih _)

/-- Everything is written between the first and the last offset. -/
theorem writes_spec : ∀ b ∈ pieces n overlap offset segs, ∀ w ∈ b.writes,
    offset ≤ w.start ∧ w.stop ≤ endOffset n overlap offset segs := by
  have hsil : (0 : ℤ) ≤ silenceSamples := by decide
  induction segs generalizing offset with
  | nil => simp [pieces]
  | cons x rest ih =>
    intro b hb w hw
    rw [pieces] at hb
    rw [endOffset]
    have hle := le_endOffset n overlap (nextOffset n overlap offset x rest) rest
    rcases List.mem_append.mp hb with hb | hb
    · split at hb
      · rename_i hpos
        rw [List.mem_singleton] at hb
        subst hb
        rw [nextOffset] at hle ⊢
        rw [if_pos hpos] at hle ⊢
        rw [Piece.writes] at hw
        cases rest with
        | nil =>
          simp only [List.head?_nil, Option.map_none, Option.isSome_none, Bool.false_eq_true,
            if_false, List.mem_singleton] at hw
          subst hw
          simp only [List.isEmpty_nil, if_true, add_zero] at hle ⊢
          exact ⟨le_rfl, hle⟩
        | cons y rest =>
          simp only [List.head?_cons, Option.map_some, Option.isSome_some, if_true,
            List.mem_cons, List.not_mem_nil, or_false] at hw
          have hlen : segmentLength n overlap (y :: rest).isEmpty x =
            segmentLength n overlap false x := rfl
          simp only [List.isEmpty_cons, Bool.false_eq_true, if_false] at hle hpos ⊢
          rcases hw with rfl | rfl
          · exact ⟨le_rfl, by simp only; omega⟩
          · exact ⟨by simp only; omega, by simp only; omega⟩
      · cases hb
    · obtain ⟨h1, h2⟩ := ih b hb w hw
      exact ⟨(le_nextOffset n overlap offset x rest).trans h1, h2⟩

/-- Only the audio is read, if no segment starts before it. -/
theorem reads_spec (hn : 0 < n) (hstart : ∀ x ∈ segs, 0 ≤ csToSamples x.start) :
    ∀ b ∈ pieces n overlap offset segs, 0 ≤ b.reads.start ∧ b.reads.stop ≤ n := by
  induction segs generalizing offset with
  | nil => simp [pieces]
  | cons x rest ih =>
    intro b hb
    obtain ⟨hx, hrest⟩ := List.forall_mem_cons.mp hstart
    rw [pieces] at hb
    rcases List.mem_append.mp hb with hb | hb
    · split at hb
      · rw [List.mem_singleton] at hb
        subst hb
        have hle := copiedEnd_le n overlap rest.isEmpty x
        refine ⟨le_min hx (by omega), ?_⟩
        show copiedStart n x + (copiedEnd n overlap rest.isEmpty x - copiedStart n x) ≤ n
        omega
      · cases hb
    · exact ih hrest b hb

/-- **When the copies fit**: exactly if the segments fit into the audio and the buffer has a size. -/
theorem copiesFit_iff (hn : 0 < n) (hstart : ∀ x ∈ segs, 0 ≤ csToSamples x.start) :
    CopiesFit n overlap segs ↔ Fits n overlap segs ∧ totalSamples n overlap segs < intEnd := by
  constructor
  · intro h
    exact ⟨fits_of_filled h.lengths (by rw [h.filled, zero_add]), h.total_lt⟩
  · rintro ⟨hfits, htotal⟩
    obtain ⟨h1, h2⟩ := lengths_of_fits 0 hfits
    rw [zero_add] at h2
    refine ⟨h1, fun b hb w hw => ?_, reads_spec hn hstart, h2, htotal⟩
    rw [← h2]
    exact writes_spec b hb w hw

/-- Of segments in order, with an overlap that is not negative, only the last may not fit. -/
theorem fits_iff_of_ordered (hoverlap : 0 ≤ overlap)
    (hsegs : ∀ x ∈ segs, 0 ≤ x.start ∧ x.start < x.stop ∧ 160 * x.stop + overlap < intEnd)
    (hpw : segs.Pairwise fun x y => x.stop ≤ y.start) :
    Fits n overlap segs ↔ ∀ x ∈ segs.getLast?, 160 * x.start ≤ n - 1 := by
  induction segs with
  | nil => simp [Fits]
  | cons x rest ih =>
    obtain ⟨⟨h1, h2, h3⟩, hrest⟩ := List.forall_mem_cons.mp hsegs
    obtain ⟨hx, hpw⟩ := List.pairwise_cons.mp hpw
    have hs : csToSamples x.start = 160 * x.start := csToSamples_eq h1 (by omega)
    have he : csToSamples x.stop = 160 * x.stop := csToSamples_eq (by omega) (by omega)
    cases rest with
    | nil =>
      simp only [Fits, List.getLast?_singleton, Option.mem_some_iff, forall_eq']
      exact ⟨fun h => hs ▸ h.le_audio, fun h => ⟨by omega, by omega⟩⟩
    | cons y rest =>
      rw [List.getLast?_cons_cons, Fits, ih hrest hpw]
      refine ⟨fun h => h.2, fun h => ⟨?_, h⟩⟩
      -- this segment ends before the last one starts
      obtain ⟨z, hz⟩ : ∃ z, (y :: rest).getLast? = some z :=
        ⟨_, List.getLast?_eq_some_getLast (List.cons_ne_nil y rest)⟩
      have hxz := hx z (List.mem_of_getLast? hz)
      have hzn := h z hz
      have hov : toInt (csToSamples x.stop + overlap) = csToSamples x.stop + overlap :=
        toInt_eq (by unfold intEnd; omega) (by omega)
      have hclamp : min (csToSamples x.stop) (n - 1) = csToSamples x.stop :=
        min_eq_left (by omega)
      refine ⟨by omega, by omega, ?_⟩
      unfold copiedEnd sizedEnd
      simp only [Bool.false_eq_true, if_false]
      rw [hclamp]

end Lemmas

/-- Parameters without padding and without a minimal duration. -/
def barePadParams : VadParams ℚ := ⟨1 / 2, 0, 100, 1000000, 0, 1 / 10⟩

/-- Speech in the first and in the last of fourteen chunks. -/
def edgeProbs : List ℚ := 1 :: List.replicate 12 0 ++ [1]

end Vad

end WhisperCpp
