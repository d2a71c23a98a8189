import WhisperCpp.Full.Context
import WhisperCpp.Library.Stretches
import WhisperCpp.Vad.TimeMap

/-!
# The times that are reported

The getters of the segment times send a stored time through the mapping table, if there is one, and
`t1` is then moved behind `t0` by a minimal duration.

## Main definitions

* `VadFields` — what a call with voice activity detection leaves in the state
* `segmentT0`, `segmentT1`, `reportedTimes`

## Main results

* `reportedTimes_inOrder_iff` — when the reported times are in order
-/

namespace WhisperCpp

open Stretch (InOrder)

/-- The stored times of a segment. -/
def Full.Segment.times {K : Type*} (seg : Full.Segment K) : Stretch := ⟨seg.t0, seg.t1⟩

namespace Vad

/-- `vad_segment_info`. -/
structure VadSegmentInfo where
  origStart : ℤ
  origEnd : ℤ
  vadStart : ℤ
  vadEnd : ℤ
  deriving DecidableEq, Repr

/-- The fields of `whisper_state` that belong to the voice activity detection. -/
structure VadFields where
  hasVadSegments : Bool
  vadSegments : List VadSegmentInfo
  vadMappingTable : List TimeMapping

/-- Whether the getters map times: not if no speech was detected, or there is no table. -/
def VadFields.mapped (v : VadFields) : Bool := v.hasVadSegments && !v.vadMappingTable.isEmpty

/-- `min_duration`, in centiseconds as all times are. -/
def minDuration : ℤ := 10

/-- `whisper_full_get_segment_t0_from_state`, for a segment with the given stored times. -/
def segmentT0 (v : VadFields) (seg : Stretch) : ℤ :=
  if v.mapped then mapProcessedToOriginal seg.start v.vadMappingTable else seg.start

/-- `whisper_full_get_segment_t1_from_state`. -/
def segmentT1 (v : VadFields) (seg : Stretch) : ℤ :=
  if v.mapped then
    let origT1 := mapProcessedToOriginal seg.stop v.vadMappingTable
    if origT1 - segmentT0 v seg < minDuration then segmentT0 v seg + minDuration else origT1
  else seg.stop

/-- The times that are reported for segments with the given stored times. -/
def reportedTimes (v : VadFields) (segs : List Stretch) : List Stretch :=
  segs.map fun seg => ⟨segmentT0 v seg, segmentT1 v seg⟩

section Lemmas

variable {v : VadFields} {segs : List Stretch}

theorem segmentT0_of_mapped (h : v.mapped = true) (seg : Stretch) :
    segmentT0 v seg = mapProcessedToOriginal seg.start v.vadMappingTable := if_pos h

theorem segmentT1_of_mapped (h : v.mapped = true) (seg : Stretch) :
    segmentT1 v seg = max (mapProcessedToOriginal seg.stop v.vadMappingTable)
      (mapProcessedToOriginal seg.start v.vadMappingTable + minDuration) := by
  rw [segmentT1, if_pos h, segmentT0_of_mapped h]
  simp only
  split <;> omega

/-- Without a mapping the stored times are reported. -/
theorem reportedTimes_of_not_mapped (h : v.mapped = false) (segs : List Stretch) :
    reportedTimes v segs = segs := by
  have heq : ∀ seg : Stretch, (⟨segmentT0 v seg, segmentT1 v seg⟩ : Stretch) = seg := by
    intro seg
    rw [segmentT0, segmentT1, h]
    rfl
  rw [reportedTimes, List.map_congr_left fun seg _ => heq seg, List.map_id']

/-- What is reported of segments in order: every segment ends after its start, and the next one
does not start before that iff it starts behind the minimal duration. -/
theorem reportedTimes_inOrder_of_mapped (h : v.mapped = true)
    (hmono : Monotone fun time => mapProcessedToOriginal time v.vadMappingTable)
    (hsegs : InOrder segs) :
    InOrder (reportedTimes v segs) ↔ segs.IsChain fun a b =>
      mapProcessedToOriginal a.start v.vadMappingTable + minDuration ≤
        mapProcessedToOriginal b.start v.vadMappingTable := by
  have hle : ∀ x ∈ reportedTimes v segs, x.start ≤ x.stop := by
    intro x hx
    obtain ⟨seg, -, rfl⟩ := List.mem_map.mp hx
    have hpos : (0 : ℤ) ≤ minDuration := by decide
    rw [segmentT0_of_mapped h, segmentT1_of_mapped h]
    simp only
    omega
  have hchain : InOrder (reportedTimes v segs) ↔
      segs.IsChain fun a b => segmentT1 v a ≤ segmentT0 v b := by
    rw [← List.isChain_map (fun seg => (⟨segmentT0 v seg, segmentT1 v seg⟩ : Stretch))
      (R := fun x y => x.stop ≤ y.start)]
    exact ⟨fun h => h.chain, fun h => ⟨hle, h⟩⟩
  rw [hchain, List.isChain_iff_getElem, List.isChain_iff_getElem]
  refine forall₂_congr fun i hi => ?_
  have hnext := hmono (List.isChain_iff_getElem.mp hsegs.chain i hi)
  rw [segmentT0_of_mapped h, segmentT1_of_mapped h, max_le_iff, and_iff_right hnext]

end Lemmas

/-- **When the reported times are in order**: exactly if no mapping is used, or every segment starts,
in the original audio, at least the minimal duration after the one before. -/
theorem reportedTimes_inOrder_iff (v : VadFields) (segs : List Stretch)
    (hmono : Monotone fun time => mapProcessedToOriginal time v.vadMappingTable)
    (hsegs : InOrder segs) :
    InOrder (reportedTimes v segs) ↔ v.mapped = false ∨ segs.IsChain fun a b =>
      mapProcessedToOriginal a.start v.vadMappingTable + minDuration ≤
        mapProcessedToOriginal b.start v.vadMappingTable := by
  cases h : v.mapped with
  | false => simp [reportedTimes_of_not_mapped h, hsegs]
  | true => simpa using reportedTimes_inOrder_of_mapped h hmono hsegs

/-- One second of speech at the start of the audio. -/
def headFields : VadFields := ⟨true, [⟨0, 100, 0, 100⟩], [⟨0, 0⟩, ⟨100, 100⟩]⟩

theorem headFields_monotone :
    Monotone fun time => mapProcessedToOriginal time headFields.vadMappingTable :=
  mapProcessedToOriginal_monotone (by decide)

theorem reportedTimes_inOrder_iff_head :
    InOrder (reportedTimes headFields [⟨0, 20⟩, ⟨20, 60⟩]) ↔
      headFields.mapped = false ∨ ([⟨0, 20⟩, ⟨20, 60⟩] : List Stretch).IsChain fun a b =>
        mapProcessedToOriginal a.start headFields.vadMappingTable + minDuration ≤
          mapProcessedToOriginal b.start headFields.vadMappingTable :=
  reportedTimes_inOrder_iff _ _ headFields_monotone (by decide)

/-- **A short segment is stretched into the next one**: by 100 ms where the source says 10 ms. -/
theorem not_reportedTimes_inOrder :
    Increasing headFields.vadMappingTable ∧ InOrder [⟨0, 5⟩, ⟨5, 60⟩] ∧
      ¬ InOrder (reportedTimes headFields [⟨0, 5⟩, ⟨5, 60⟩]) := by
  decide

end Vad

end WhisperCpp
