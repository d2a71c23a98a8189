import Mathlib.Algebra.Order.Field.Basic
import Mathlib.Data.Prod.Lex
import Mathlib.Tactic.NormNum
import WhisperCpp.Library.MaskRuns
import WhisperCpp.Library.SortUnique

/-!
# From probabilities to segments

`sf_threshold_segments` goes over the frames of one speaker after the other, opens a segment where
the probability rises above the threshold and closes it where it falls, and sorts the segments of
all speakers by their start.

## Main definitions

* `sfThresholdSegments` — the function
* `above` — the frames of a speaker that are above the threshold

## Main results

* `exists_scanned` — what the loop over the frames knows of a speaker
* `mem_sfThresholdSegments_iff` — the segments are the runs of the speakers
* `sfThresholdSegments_spec` — they are in order, and the frames can be read off them
-/

namespace WhisperCpp

namespace Parakeet

open MaskRuns
open SortUnique (sortBy sortBy_perm pairwise_sortBy mem_sortBy)

/-- `SortformerSegment`. -/
structure SortformerSegment (K : Type*) where
  speakerId : ℤ
  startS : K
  endS : K
  deriving DecidableEq, Repr

/-- `active`, `start_frame` and `segments`. -/
structure ScanState (K : Type*) where
  active : Bool
  startFrame : ℕ
  segments : List (SortformerSegment K)

section Definitions

-- probabilities are only compared
variable {P : Type*} [LT P] [DecidableLT P] {K : Type*} [LinearOrder K] [Mul K] [NatCast K]
  (speakerProbs : ℕ → P) (tEnc numSpks : ℕ) (frameStrideS : K) (threshold : P)

/-- A frame of a speaker is above the threshold. -/
def above (s t : ℕ) : Bool := decide (threshold < speakerProbs (t * numSpks + s))

/-- The segment of a speaker from one frame to another. -/
def segmentOf (s : ℕ) (r : ℕ × ℕ) : SortformerSegment K :=
  ⟨s, (r.1 : K) * frameStrideS, (r.2 : K) * frameStrideS⟩

/-- The body of the loop over the frames. -/
def scanFrame (s : ℕ) (st : ScanState K) (t : ℕ) : ScanState K :=
  let a := above speakerProbs numSpks threshold s t
  let st := if a && !st.active then { st with startFrame := t, active := true } else st
  if !a && st.active then
    { st with
      segments := st.segments ++ [segmentOf frameStrideS s (st.startFrame, t)]
      active := false }
  else st

/-- The loop over the first `n` frames of a speaker. -/
def scanFrames (segments : List (SortformerSegment K)) (s n : ℕ) : ScanState K :=
  (List.range n).foldl (scanFrame speakerProbs numSpks frameStrideS threshold s)
    ⟨false, 0, segments⟩

/-- The frames of a speaker, and the segment that is still open behind them. -/
def scanSpeaker (segments : List (SortformerSegment K)) (s : ℕ) : List (SortformerSegment K) :=
  let st := scanFrames speakerProbs numSpks frameStrideS threshold segments s tEnc
  if st.active then st.segments ++ [segmentOf frameStrideS s (st.startFrame, tEnc)]
  else st.segments

/-- What the segments are sorted by. -/
def sortKey (seg : SortformerSegment K) : K ×ₗ ℤ := toLex (seg.startS, seg.speakerId)

/-- `sf_threshold_segments`. Of segments that the comparison does not order nothing is known. -/
def sfThresholdSegments (tie : ℕ → ℕ) : List (SortformerSegment K) :=
  sortBy sortKey tie ((List.range numSpks).foldl
    (scanSpeaker speakerProbs tEnc numSpks frameStrideS threshold) [])

end Definitions

/-! ### One speaker -/

section Scan

variable {P : Type*} [LT P] [DecidableLT P] {K : Type*} [LinearOrder K] [Mul K] [NatCast K]
  {speakerProbs : ℕ → P} {tEnc numSpks : ℕ} {frameStrideS : K} {threshold : P} {s : ℕ}
  {segments : List (SortformerSegment K)}

omit [LinearOrder K] in
/-- **The loop over the frames** pushes the runs that have ended. -/
theorem exists_scanned (n : ℕ) {st : ScanState K}
    (hst : scanFrames speakerProbs numSpks frameStrideS threshold segments s n = st) :
    ∃ runs, st.segments = segments ++ runs.map (segmentOf frameStrideS s) ∧
      Scanned (above speakerProbs numSpks threshold s) n st.active st.startFrame runs := by
  induction n generalizing st with
  | zero =>
    subst hst
    exact ⟨[], (List.append_nil _).symm, scanned_zero 0⟩
  | succ n ih =>
    obtain ⟨runs, hsegments, hscanned⟩ := ih rfl
    rw [scanFrames, List.range_succ, List.foldl_append, ← scanFrames] at hst
    generalize scanFrames speakerProbs numSpks frameStrideS threshold segments s n = prev at *
    obtain ⟨active, startFrame, segs⟩ := prev
    subst hst
    cases ha : above speakerProbs numSpks threshold s n with
    | true =>
      have hstep := hscanned.of_true ha
      cases active <;> exact ⟨runs, by simpa [scanFrame, ha] using ⟨hsegments, hstep⟩⟩
    | false =>
      have hstep := hscanned.of_false ha
      cases active with
      | true =>
        refine ⟨runs ++ [(startFrame, n)], ?_, by simpa [scanFrame, ha] using hstep⟩
        rw [List.map_append, ← List.append_assoc, ← hsegments]
        simp [scanFrame, ha]
      | false => exact ⟨runs, by simpa [scanFrame, ha] using ⟨hsegments, hstep⟩⟩

omit [LinearOrder K] in
/-- A speaker adds the segments of its runs, in order. -/
theorem scanSpeaker_eq (segments : List (SortformerSegment K)) (s : ℕ) :
    ∃ runs : List (ℕ × ℕ),
      scanSpeaker speakerProbs tEnc numSpks frameStrideS threshold segments s =
          segments ++ runs.map (segmentOf frameStrideS s) ∧
        (∀ r, r ∈ runs ↔ IsRun (above speakerProbs numSpks threshold s) tEnc r.1 r.2) ∧
        runs.Pairwise fun r r' => r.2 < r'.1 := by
  obtain ⟨runs, hsegments, hscanned⟩ :=
    @exists_scanned _ _ _ _ _ _ speakerProbs numSpks frameStrideS threshold s segments tEnc _ rfl
  refine ⟨_, ?_, hscanned.mem_finish, hscanned.pairwise_finish⟩
  rw [scanSpeaker]
  split
  · rw [hsegments, List.map_append, List.map_singleton, List.append_assoc]
  · rw [hsegments]

end Scan

/-! ### All speakers -/

section Speakers

variable {P : Type*} [LT P] [DecidableLT P] {K : Type*} [Field K] [LinearOrder K]
  {speakerProbs : ℕ → P} {tEnc numSpks : ℕ} {frameStrideS : K} {threshold : P} {tie : ℕ → ℕ}

/-- A run of one of the first `n` speakers. -/
def IsSpeakerRun (speakerProbs : ℕ → P) (tEnc numSpks : ℕ) (frameStrideS : K) (threshold : P)
    (n : ℕ) (seg : SortformerSegment K) : Prop :=
  ∃ s < n, ∃ r : ℕ × ℕ, IsRun (above speakerProbs numSpks threshold s) tEnc r.1 r.2 ∧
    seg = segmentOf frameStrideS s r

omit [LinearOrder K] in
theorem mem_foldl_scanSpeaker_iff (n : ℕ) (seg : SortformerSegment K) :
    seg ∈ (List.range n).foldl (scanSpeaker speakerProbs tEnc numSpks frameStrideS threshold) [] ↔
      IsSpeakerRun speakerProbs tEnc numSpks frameStrideS threshold n seg := by
  induction n with
  | zero => exact iff_of_false List.not_mem_nil fun ⟨s, hs, _⟩ => Nat.not_lt_zero s hs
  | succ n ih =>
    obtain ⟨runs, heq, hruns, -⟩ := @scanSpeaker_eq _ _ _ _ _ _ speakerProbs tEnc numSpks
      frameStrideS threshold
      ((List.range n).foldl (scanSpeaker speakerProbs tEnc numSpks frameStrideS threshold) []) n
    rw [List.range_succ, List.foldl_append, List.foldl_cons, List.foldl_nil, heq, List.mem_append,
      ih, IsSpeakerRun, IsSpeakerRun, List.mem_map]
    constructor
    · rintro (⟨s, hs, hrun⟩ | ⟨r, hr, rfl⟩)
      · exact ⟨s, Nat.lt_succ_of_lt hs, hrun⟩
      · exact ⟨n, Nat.lt_succ_self n, r, (hruns r).1 hr, rfl⟩
    · rintro ⟨s, hs, r, hrun, rfl⟩
      obtain hlt | rfl := Nat.lt_succ_iff_lt_or_eq.1 hs
      · exact .inl ⟨s, hlt, r, hrun, rfl⟩
      · exact .inr ⟨r, (hruns r).2 hrun, rfl⟩

/-- **The segments are the runs of the speakers.** -/
theorem mem_sfThresholdSegments_iff (seg : SortformerSegment K) :
    seg ∈ sfThresholdSegments speakerProbs tEnc numSpks frameStrideS threshold tie ↔
      IsSpeakerRun speakerProbs tEnc numSpks frameStrideS threshold numSpks seg := by
  rw [sfThresholdSegments, mem_sortBy, mem_foldl_scanSpeaker_iff]

variable [IsStrictOrderedRing K]

/-- No two segments of a speaker start at once. -/
theorem nodup_map_sortKey (hstride : 0 < frameStrideS) (n : ℕ) :
    (((List.range n).foldl (scanSpeaker speakerProbs tEnc numSpks frameStrideS threshold) []).map
      sortKey).Nodup := by
  induction n with
  | zero => exact List.nodup_nil
  | succ n ih =>
    have hmem := @mem_foldl_scanSpeaker_iff _ _ _ _ _ speakerProbs tEnc numSpks frameStrideS
      threshold n
    obtain ⟨runs, heq, hruns, hpairwise⟩ := @scanSpeaker_eq _ _ _ _ _ _ speakerProbs tEnc numSpks
      frameStrideS threshold
      ((List.range n).foldl (scanSpeaker speakerProbs tEnc numSpks frameStrideS threshold) []) n
    rw [List.range_succ, List.foldl_append, List.foldl_cons, List.foldl_nil, heq, List.map_append]
    refine List.nodup_append.2 ⟨ih, ?_, ?_⟩
    · rw [List.map_map]
      refine List.Pairwise.map _ (fun r r' hlt => ?_) (hpairwise.imp_of_mem fun hr hr' hlt =>
        ((hruns _).1 hr).lt.trans hlt)
      intro heq
      have hstart : (r.1 : K) * frameStrideS = (r'.1 : K) * frameStrideS :=
        congrArg (fun k => (ofLex k).1) heq
      have := Nat.cast_injective (mul_right_cancel₀ hstride.ne' hstart)
      omega
    · -- of another speaker
      intro k hk k' hk' heq
      obtain ⟨seg, hseg, rfl⟩ := List.mem_map.1 hk
      obtain ⟨s, hs, r, -, rfl⟩ := (hmem seg).1 hseg
      obtain ⟨seg', hseg', rfl⟩ := List.mem_map.1 hk'
      obtain ⟨r', -, rfl⟩ := List.mem_map.1 hseg'
      have hspeaker : (s : ℤ) = n := congrArg (fun k => (ofLex k).2) heq
      omega

/-- **What `sf_threshold_segments` returns**: for every speaker the maximal runs of frames above the
threshold, the last of which may reach the end, each of them once and sorted by start and speaker. A
frame is above the threshold iff it is in a segment of the speaker. -/
theorem sfThresholdSegments_spec (speakerProbs : ℕ → P) (tEnc numSpks : ℕ) (frameStrideS : K)
    (threshold : P) (tie : ℕ → ℕ) (hstride : 0 < frameStrideS) :
    let segments := sfThresholdSegments speakerProbs tEnc numSpks frameStrideS threshold tie
    (∀ seg, seg ∈ segments ↔ ∃ s < numSpks, ∃ r : ℕ × ℕ,
        IsRun (above speakerProbs numSpks threshold s) tEnc r.1 r.2 ∧
          seg = ⟨s, (r.1 : K) * frameStrideS, (r.2 : K) * frameStrideS⟩) ∧
      (segments.Pairwise fun x y =>
        x.startS < y.startS ∨ x.startS = y.startS ∧ x.speakerId < y.speakerId) ∧
      ∀ s < numSpks, ∀ t < tEnc, threshold < speakerProbs (t * numSpks + s) ↔
        ∃ seg ∈ segments, seg.speakerId = s ∧ seg.startS ≤ t * frameStrideS ∧
          (t : K) * frameStrideS < seg.endS := by
  intro segments
  refine ⟨mem_sfThresholdSegments_iff, ?_, fun s hs t ht => ?_⟩
  · have hnodup : (segments.map sortKey).Nodup :=
      (sortBy_perm.map sortKey).nodup_iff.2 (nodup_map_sortKey hstride numSpks)
    have hle : segments.Pairwise fun x y => sortKey x ≤ sortKey y := pairwise_sortBy
    refine (hle.and (List.pairwise_map.1 hnodup)).imp fun hxy => ?_
    obtain hlt := lt_of_le_of_ne hxy.1 hxy.2
    rwa [Prod.Lex.lt_iff] at hlt
  · constructor
    · intro habove
      have hmask : above speakerProbs numSpks threshold s t = true := decide_eq_true habove
      obtain ⟨a, b, hrun, hat, htb⟩ := exists_isRun ht hmask
      refine ⟨segmentOf frameStrideS s (a, b),
        (mem_sfThresholdSegments_iff _).2 ⟨s, hs, (a, b), hrun, rfl⟩, rfl, ?_, ?_⟩
      · exact mul_le_mul_of_nonneg_right (Nat.cast_le.2 hat) hstride.le
      · exact mul_lt_mul_of_pos_right (Nat.cast_lt.2 htb) hstride
    · rintro ⟨seg, hseg, hspeaker, hstart, hend⟩
      obtain ⟨s', -, r, hrun, rfl⟩ := (mem_sfThresholdSegments_iff _).1 hseg
      obtain rfl : s' = s := Nat.cast_injective hspeaker
      have hat : r.1 ≤ t := Nat.cast_le.1 (le_of_mul_le_mul_right hstart hstride)
      have htb : t < r.2 := Nat.cast_lt.1 (lt_of_mul_lt_mul_right hend hstride.le)
      exact of_decide_eq_true (hrun.holds t hat htb)

end Speakers

/-- Two speakers in three frames; the run of the second one reaches the last frame. -/
theorem sfThresholdSegments_spec_two :
    let probs : ℕ → ℚ := fun i => [1, 0, 1, 1, 0, 1][i]?.getD 0
    let segments := sfThresholdSegments probs 3 2 (1 / 10 : ℚ) (1 / 2) id
    (∀ seg, seg ∈ segments ↔ ∃ s < 2, ∃ r : ℕ × ℕ, IsRun (above probs 2 (1 / 2) s) 3 r.1 r.2 ∧
        seg = ⟨s, (r.1 : ℚ) * (1 / 10), (r.2 : ℚ) * (1 / 10)⟩) ∧
      (segments.Pairwise fun x y =>
        x.startS < y.startS ∨ x.startS = y.startS ∧ x.speakerId < y.speakerId) ∧
      ∀ s < 2, ∀ t < 3, 1 / 2 < probs (t * 2 + s) ↔
        ∃ seg ∈ segments, seg.speakerId = s ∧ seg.startS ≤ t * (1 / 10) ∧
          (t : ℚ) * (1 / 10) < seg.endS :=
  sfThresholdSegments_spec _ 3 2 (1 / 10) (1 / 2) id (by norm_num)

end Parakeet

end WhisperCpp
