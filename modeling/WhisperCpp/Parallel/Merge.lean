import WhisperCpp.Parallel.Chunks
import WhisperCpp.Vad.Getters

/-!
# The merge of `whisper_full_parallel`

The segments of the workers are shifted by the start of their chunk and appended to those of the
calling thread. Where a segment would start before the last one ends, its start is moved.

## Main definitions

* `mergeResults`
* `EndsInOrder` — the shifted segments end in order

## Main results

* `mergeResults_inOrder_iff`
-/

namespace WhisperCpp

namespace Parallel

open Full (Segment)
open Stretch (InOrder)

variable {K : Type*}

/-- A segment with its times shifted. -/
def shifted (d : ℤ) (result : Segment K) : Segment K :=
  { result with t0 := result.t0 + d, t1 := result.t1 + d }

/-- A segment is appended, and starts at the end of the last one or later. -/
def appendResult (all : List (Segment K)) (result : Segment K) : List (Segment K) :=
  all ++ [{ result with
    t0 := match all.getLast? with
      | none => result.t0
      | some last => max result.t0 last.t1 }]

/-- The results of the workers are added to those of the calling thread. -/
def mergeResults (n offsetMs : ℤ) (np : ℕ) (first : List (Segment K))
    (results : ℕ → List (Segment K)) : List (Segment K) :=
  (List.range (np - 1)).foldl (fun all i =>
    ((results i).map (shifted (shift n offsetMs np i))).foldl appendResult all) first

/-- The segments of all workers, shifted. -/
def shiftedResults (n offsetMs : ℤ) (np : ℕ) (results : ℕ → List (Segment K)) :
    List (Segment K) :=
  (List.range (np - 1)).flatMap fun i => (results i).map (shifted (shift n offsetMs np i))

/-- The shifted segments end in order. -/
def EndsInOrder (n offsetMs : ℤ) (np : ℕ) (first : List (Segment K))
    (results : ℕ → List (Segment K)) : Prop :=
  ((first ++ shiftedResults n offsetMs np results).map Segment.t1).IsChain (· ≤ ·)

section Lemmas

variable {n offsetMs : ℤ} {np : ℕ} {all first l : List (Segment K)} {a : Segment K}
  {results : ℕ → List (Segment K)}

theorem mergeResults_eq (n offsetMs : ℤ) (np : ℕ) (first : List (Segment K))
    (results : ℕ → List (Segment K)) :
    mergeResults n offsetMs np first results =
      (shiftedResults n offsetMs np results).foldl appendResult first := by
  rw [shiftedResults, List.foldl_flatMap]
  rfl

/-- Appending keeps what is there. -/
theorem prefix_foldl_appendResult (all l : List (Segment K)) : all <+: l.foldl appendResult all := by
  induction l generalizing all with
  | nil => exact List.prefix_refl all
  | cons a l ih => exact (List.prefix_append all _).trans (ih (appendResult all a))

/-- A segment in order is appended in order iff it does not end before the last one. -/
theorem appendResult_inOrder_iff (hall : InOrder (all.map Segment.times)) (ha : a.t0 ≤ a.t1) :
    InOrder ((appendResult all a).map Segment.times) ↔ ∀ last ∈ all.getLast?, last.t1 ≤ a.t1 := by
  rw [appendResult, List.map_append, List.map_singleton, Stretch.inOrder_concat_iff,
    and_iff_right hall, List.getLast?_map]
  cases all.getLast? with
  | none => simpa [Segment.times] using ha
  | some last =>
    simp only [Segment.times, Option.map_some, Option.mem_some_iff, forall_eq', sup_le_iff]
    exact ⟨fun h => h.1.2, fun h => ⟨⟨ha, h⟩, le_max_right _ _⟩⟩

theorem map_t1_appendResult (all : List (Segment K)) (a : Segment K) :
    (appendResult all a).map Segment.t1 = all.map Segment.t1 ++ [a.t1] := by
  rw [appendResult, List.map_append, List.map_singleton]

/-- **One segment after the other**: segments in order are appended in order iff they end in
order. -/
theorem foldl_appendResult_inOrder_iff (hall : InOrder (all.map Segment.times))
    (hl : ∀ a ∈ l, a.t0 ≤ a.t1) :
    InOrder ((l.foldl appendResult all).map Segment.times) ↔
      ((all ++ l).map Segment.t1).IsChain (· ≤ ·) := by
  induction l generalizing all with
  | nil =>
    rw [List.foldl_nil, List.append_nil, iff_true_left hall, List.isChain_map]
    exact (List.isChain_map Segment.times).mp hall.stop_le
  | cons a l ih =>
    obtain ⟨ha, hl⟩ := List.forall_mem_cons.mp hl
    have hstep := appendResult_inOrder_iff hall ha
    rw [List.foldl_cons]
    by_cases hlast : ∀ last ∈ all.getLast?, last.t1 ≤ a.t1
    · rw [ih (hstep.mpr hlast) hl, List.map_append, map_t1_appendResult, List.map_append,
        List.map_cons, List.append_assoc, List.singleton_append]
    · refine iff_of_false (fun h => hlast (hstep.mp ?_)) fun h => hlast ?_
      · obtain ⟨rest, hrest⟩ := prefix_foldl_appendResult (appendResult all a) l
        rw [← hrest, List.map_append] at h
        exact h.left_of_append
      · rw [List.isChain_map, List.isChain_append] at h
        exact fun last hmem => h.2.2 last hmem a rfl

/-- A shift keeps the order within a segment. -/
theorem t0_le_t1_of_mem_shiftedResults
    (h : ∀ i < np - 1, InOrder ((results i).map Segment.times)) :
    ∀ a ∈ shiftedResults n offsetMs np results, a.t0 ≤ a.t1 := by
  intro a ha
  obtain ⟨i, hi, ha⟩ := List.mem_flatMap.mp ha
  obtain ⟨result, hmem, rfl⟩ := List.mem_map.mp ha
  have hle := (h i (List.mem_range.mp hi)).le _ (List.mem_map_of_mem hmem)
  show result.t0 + _ ≤ result.t1 + _
  exact Int.add_le_add_right hle _

end Lemmas

/-- A segment without tokens. -/
def plainSegment (t0 t1 : ℤ) : Segment ℚ := ⟨t0, t1, "and", 0, [], false⟩

end Parallel

end WhisperCpp
