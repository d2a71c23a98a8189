import WhisperCpp.Library.SortUnique
import WhisperCpp.Vad.Filtered
import WhisperCpp.Vad.TimeMap

/-!
# The mapping table

`whisper_vad` fills the table of the time map while it copies: for every segment its start and end,
and the start and end of the silence after it. The table is then sorted by processed time, and of
several entries with the same processed time one is kept.

## Main definitions

* `Piece.mappings`, `mappings`, `mappingTable`
* `Follows` — a piece is copied behind another one

## Main results

* `increasing_mappingTable`
* `maps_back` — the time map sends the start and end of a segment back
* `mappingTable_sound`
-/

namespace WhisperCpp

namespace Vad

open Stretch (Laid)
open SortUnique

/-- `vad_start`: where the segment starts in the filtered audio. -/
def Piece.vadStart (b : Piece) : ℤ := samplesToCs b.offset

/-- `vad_end`. The overlap is not counted. -/
def Piece.vadEnd (b : Piece) : ℤ := samplesToCs (b.offset + b.originalLength)

/-- The entries for a segment. -/
def Piece.mappings (b : Piece) : List TimeMapping :=
  ⟨b.vadStart, b.orig.start⟩ :: ⟨b.vadEnd, b.orig.stop⟩ ::
    match b.next with
    | none => []
    | some origSilenceEnd =>
      [⟨samplesToCs (b.offset + b.length), b.orig.stop⟩,
        ⟨samplesToCs (b.offset + b.length + silenceSamples), origSilenceEnd⟩]

/-- The entries in the order in which they are made. -/
def mappings (n overlap : ℤ) (segs : List Stretch) : List TimeMapping :=
  (pieces n overlap 0 segs).flatMap Piece.mappings

/-- `vad_mapping_table`. Nothing is known of the order in which the sort leaves entries with the
same processed time. -/
def mappingTable (tie : ℕ → ℕ) (n overlap : ℤ) (segs : List Stretch) : List TimeMapping :=
  uniqueBy TimeMapping.processedTime
    (sortBy TimeMapping.processedTime tie (mappings n overlap segs))

/-- What the table is made for. The segments of which the start and end are sent back are those
that satisfy `P`. -/
structure TableSound (P : Piece → Prop) (tie : ℕ → ℕ) (n overlap : ℤ) (segs : List Stretch) :
    Prop where
  increasing : Increasing (mappingTable tie n overlap segs)
  monotone : Monotone fun time => mapProcessedToOriginal time (mappingTable tie n overlap segs)
  within : ∀ hne : mappingTable tie n overlap segs ≠ [], ∀ time,
    ((mappingTable tie n overlap segs).head hne).originalTime ≤
        mapProcessedToOriginal time (mappingTable tie n overlap segs) ∧
      mapProcessedToOriginal time (mappingTable tie n overlap segs) ≤
        ((mappingTable tie n overlap segs).getLast hne).originalTime
  maps_back : ∀ b ∈ pieces n overlap 0 segs, P b →
    mapProcessedToOriginal b.vadStart (mappingTable tie n overlap segs) = b.orig.start ∧
      mapProcessedToOriginal b.vadEnd (mappingTable tie n overlap segs) = b.orig.stop

/-- A piece within the filtered audio, of a segment before the next one. -/
structure PieceOk (b : Piece) : Prop where
  offset_nonneg : 0 ≤ b.offset
  originalLength_nonneg : 0 ≤ b.originalLength
  originalLength_le : b.originalLength ≤ b.length
  start_le : b.orig.start ≤ b.orig.stop
  stop_le : ∀ s ∈ b.next, b.orig.stop ≤ s
  length_le : b.offset + b.length ≤ intEnd
  silence_le : b.next.isSome → b.offset + b.length + silenceSamples ≤ intEnd

/-- A piece behind another one and its silence. -/
def Follows (b b' : Piece) : Prop :=
  ∃ s, b.next = some s ∧ s ≤ b'.orig.start ∧ b.offset + b.length + silenceSamples ≤ b'.offset

/-- A piece right behind another one, or behind a further silence. -/
def Adjoins (b b' : Piece) : Prop :=
  b.next = some b'.orig.start ∨ b.offset + b.length + 2 * silenceSamples ≤ b'.offset

section Lemmas

variable {n overlap offset lo hi : ℤ} {x : Stretch} {rest segs : List Stretch} {b b' : Piece}
  {e e' : TimeMapping} {tie : ℕ → ℕ}

theorem mem_mappings : e ∈ b.mappings ↔
    e = ⟨b.vadStart, b.orig.start⟩ ∨ e = ⟨b.vadEnd, b.orig.stop⟩ ∨
      ∃ s, b.next = some s ∧ (e = ⟨samplesToCs (b.offset + b.length), b.orig.stop⟩ ∨
        e = ⟨samplesToCs (b.offset + b.length + silenceSamples), s⟩) := by
  rw [Piece.mappings]
  cases b.next <;> simp

/-! ### The pieces -/

theorem le_offset_of_mem (h : b ∈ pieces n overlap offset segs) : offset ≤ b.offset := by
  induction segs generalizing offset with
  | nil => cases h
  | cons x rest ih =>
    rw [pieces] at h
    rcases List.mem_append.mp h with h | h
    · split at h
      · rw [List.mem_singleton.mp h]
      · cases h
    · exact (le_nextOffset n overlap offset x rest).trans (ih h)

theorem orig_mem_of_mem (h : b ∈ pieces n overlap offset segs) : b.orig ∈ segs := by
  induction segs generalizing offset with
  | nil => cases h
  | cons x rest ih =>
    rw [pieces] at h
    rcases List.mem_append.mp h with h | h
    · split at h
      · rw [List.mem_singleton.mp h]
        exact List.mem_cons_self ..
      · cases h
    · exact List.mem_cons_of_mem _ (ih h)

/-- Behind the audio nothing is copied. -/
theorem pieces_eq_nil (h : ∀ x ∈ segs, n - 1 ≤ csToSamples x.start) :
    pieces n overlap offset segs = [] := by
  induction segs generalizing offset with
  | nil => rfl
  | cons x rest ih =>
    obtain ⟨hx, hrest⟩ := List.forall_mem_cons.mp h
    have hle := copiedEnd_le n overlap rest.isEmpty x
    have hstart : copiedStart n x = n - 1 := min_eq_right hx
    have hlen : segmentLength n overlap rest.isEmpty x ≤ 0 := by
      rw [segmentLength]
      omega
    rw [pieces, if_neg (by omega), ih hrest, List.nil_append]

/-- The overlap is added to a segment, it does not shorten it. -/
theorem originalLength_le_segmentLength (hoverlap : 0 ≤ overlap) (hn : n + overlap ≤ intEnd)
    (hx : 0 ≤ csToSamples x.stop) (h0 : 0 ≤ n) (last : Bool) :
    originalLength n x ≤ segmentLength n overlap last x := by
  have hov : toInt (min (csToSamples x.stop) (n - 1) + overlap) =
      min (csToSamples x.stop) (n - 1) + overlap :=
    toInt_eq (by unfold intEnd; omega) (by omega)
  unfold originalLength segmentLength copiedEnd
  cases last with
  | true => exact le_rfl
  | false =>
    simp only [Bool.false_eq_true, if_false]
    rw [hov]
    omega

/-- Every piece is in order, and within what is allotted. -/
theorem pieceOk_of_mem (hoverlap : 0 ≤ overlap) (h0 : 0 ≤ n) (hn : n + overlap ≤ intEnd)
    (hlo : 0 ≤ lo) (hhi : 160 * hi < intEnd) (hsegs : Laid 0 lo hi segs) (hoff : 0 ≤ offset)
    (hend : endOffset n overlap offset segs ≤ intEnd) (hb : b ∈ pieces n overlap offset segs) :
    PieceOk b := by
  induction segs generalizing offset lo with
  | nil => cases hb
  | cons x rest ih =>
    obtain ⟨h1, h2, h3, h4⟩ := (Stretch.laid_cons_iff le_rfl).mp hsegs
    have hnext := le_nextOffset n overlap offset x rest
    rw [endOffset] at hend
    rw [pieces] at hb
    rcases List.mem_append.mp hb with hb | hb
    · split at hb
      · rename_i hpos
        rw [List.mem_singleton] at hb
        subst hb
        have hs : csToSamples x.start = 160 * x.start := csToSamples_eq (by omega) (by omega)
        have he : csToSamples x.stop = 160 * x.stop := csToSamples_eq (by omega) (by omega)
        have hle := le_endOffset n overlap (nextOffset n overlap offset x rest) rest
        have hnextOffset : nextOffset n overlap offset x rest =
            offset + segmentLength n overlap rest.isEmpty x +
              if rest.isEmpty then 0 else silenceSamples := if_pos hpos
        have hsil : (0 : ℤ) ≤ silenceSamples := by decide
        refine ⟨hoff, ?_, originalLength_le_segmentLength hoverlap hn (by omega) h0 _, h2, ?_,
          ?_, ?_⟩
        · show 0 ≤ originalLength n x
          unfold originalLength copiedStart
          omega
        · intro s hs
          cases rest with
          | nil => cases hs
          | cons y rest =>
            obtain rfl : y.start = s := Option.some.inj hs
            have := (h4.bounds y (List.mem_cons_self ..)).1
            show x.stop ≤ y.start
            omega
        · show offset + segmentLength n overlap rest.isEmpty x ≤ intEnd
          split at hnextOffset <;> omega
        · intro hsome
          cases rest with
          | nil => simp at hsome
          | cons y rest =>
            rw [List.isEmpty_cons, if_neg (by decide)] at hnextOffset
            show offset + segmentLength n overlap false x + silenceSamples ≤ intEnd
            omega
      · cases hb
    · exact ih (by omega) h4 (hoff.trans hnext) hend hb

/-- The pieces follow each other. -/
theorem pieces_follow (n overlap offset : ℤ) (hsegs : Laid 0 lo hi segs) :
    (pieces n overlap offset segs).Pairwise Follows := by
  induction segs generalizing offset lo with
  | nil => exact .nil
  | cons x rest ih =>
    obtain ⟨h1, h2, h3, h4⟩ := (Stretch.laid_cons_iff le_rfl).mp hsegs
    rw [pieces]
    refine List.pairwise_append.mpr ⟨?_, ih _ h4, fun b hb b' hb' => ?_⟩
    · split
      · exact List.pairwise_singleton ..
      · exact .nil
    · split at hb
      · rename_i hpos
        rw [List.mem_singleton] at hb
        subst hb
        have hoff := le_offset_of_mem hb'
        have horig := orig_mem_of_mem hb'
        cases rest with
        | nil => cases horig
        | cons y rest =>
          rw [nextOffset] at hoff
          rw [if_pos hpos, List.isEmpty_cons, if_neg (by decide)] at hoff
          refine ⟨y.start, rfl, ?_, hoff⟩
          obtain ⟨-, h5, -, h6⟩ := (Stretch.laid_cons_iff le_rfl).mp h4
          rcases List.mem_cons.mp horig with heq | hmem
          · rw [heq]
          · have := (h6.bounds _ hmem).1
            omega
      · cases hb

/-- Of segments that are not empty, the first is copied first. -/
theorem mem_pieces_cases (hoverlap : 0 ≤ overlap) (h0 : 0 ≤ n) (hn : n + overlap ≤ intEnd)
    (hlo : 0 ≤ lo) (hhi : 160 * hi < intEnd) (hsegs : Laid 0 lo hi (x :: rest))
    (hne : x.start < x.stop) (hb : b ∈ pieces n overlap offset (x :: rest)) :
    b.orig = x ∨ offset + silenceSamples ≤ b.offset := by
  obtain ⟨h1, h2, h3, h4⟩ := (Stretch.laid_cons_iff le_rfl).mp hsegs
  have hs : csToSamples x.start = 160 * x.start := csToSamples_eq (by omega) (by omega)
  have he : csToSamples x.stop = 160 * x.stop := csToSamples_eq (by omega) (by omega)
  rw [pieces] at hb
  rcases List.mem_append.mp hb with hb | hb
  · split at hb
    · rw [List.mem_singleton.mp hb]
      exact .inl rfl
    · cases hb
  · right
    have hle := le_offset_of_mem hb
    cases rest with
    | nil => cases hb
    | cons y rest =>
      have hpos : 0 < segmentLength n overlap false x := by
        -- a segment that is skipped starts behind the audio, and so do the later ones
        by_contra hskip
        have hlen := originalLength_le_segmentLength hoverlap hn (x := x) (by omega) h0 false
        unfold originalLength copiedStart at hlen
        have hstart : n - 1 ≤ 160 * x.start := by omega
        rw [pieces_eq_nil fun z hz => ?_] at hb
        · cases hb
        · obtain ⟨h5, h6, h7⟩ := h4.bounds z hz
          rw [csToSamples_eq (by omega) (by omega)]
          omega
      rw [nextOffset] at hle
      rw [List.isEmpty_cons, if_pos hpos, if_neg (by decide)] at hle
      omega

/-- The pieces of segments that are not empty adjoin. -/
theorem pieces_adjoin (hoverlap : 0 ≤ overlap) (h0 : 0 ≤ n) (hn : n + overlap ≤ intEnd)
    (hlo : 0 ≤ lo) (hhi : 160 * hi < intEnd) (hsegs : Laid 0 lo hi segs)
    (hne : ∀ x ∈ segs, x.start < x.stop) :
    (pieces n overlap offset segs).Pairwise Adjoins := by
  induction segs generalizing offset lo with
  | nil => exact .nil
  | cons x rest ih =>
    obtain ⟨h1, h2, h3, h4⟩ := (Stretch.laid_cons_iff le_rfl).mp hsegs
    obtain ⟨-, hrest⟩ := List.forall_mem_cons.mp hne
    rw [pieces]
    refine List.pairwise_append.mpr ⟨?_, ih (by omega) h4 hrest, fun b hb b' hb' => ?_⟩
    · split
      · exact List.pairwise_singleton ..
      · exact .nil
    · split at hb
      · rename_i hpos
        rw [List.mem_singleton] at hb
        subst hb
        cases rest with
        | nil => cases hb'
        | cons y rest =>
          rcases mem_pieces_cases hoverlap h0 hn (by omega) hhi h4
            (hrest y (List.mem_cons_self ..)) hb' with heq | hle
          · exact .inl (by rw [heq]; rfl)
          · rw [nextOffset] at hle
            rw [if_pos hpos, List.isEmpty_cons, if_neg (by decide)] at hle
            right
            show offset + segmentLength n overlap false x + 2 * silenceSamples ≤ b'.offset
            omega
      · cases hb

/-! ### The entries of a piece -/

/-- In time, the entries of a piece are between its start and the end of the silence. -/
theorem mappings_bounds (hok : PieceOk b) (he : e ∈ b.mappings) :
    b.vadStart ≤ e.processedTime ∧ b.orig.start ≤ e.originalTime ∧
      ∀ s, b.next = some s →
        e.processedTime ≤ samplesToCs (b.offset + b.length + silenceSamples) ∧
          e.originalTime ≤ s := by
  have hsil : (0 : ℤ) ≤ silenceSamples := by decide
  obtain ⟨h1, h2, h3, h4, h5, h6, h7⟩ := hok
  have hnext : ∀ s, b.next = some s → b.offset + b.length + silenceSamples ≤ intEnd ∧
      b.orig.stop ≤ s := fun s hs => ⟨h7 (hs ▸ rfl), h5 s hs⟩
  rcases mem_mappings.mp he with rfl | rfl | ⟨s, hs, rfl | rfl⟩
  · refine ⟨le_rfl, le_rfl, fun s hs => ?_⟩
    obtain ⟨g1, g2⟩ := hnext s hs
    exact ⟨samplesToCs_mono h1 (by omega) g1, h4.trans g2⟩
  · refine ⟨samplesToCs_mono h1 (by omega) (by omega), h4, fun s hs => ?_⟩
    obtain ⟨g1, g2⟩ := hnext s hs
    exact ⟨samplesToCs_mono (by omega) (by omega) g1, g2⟩
  · obtain ⟨g1, g2⟩ := hnext s hs
    refine ⟨samplesToCs_mono h1 (by omega) (by omega), h4, fun s' hs' => ?_⟩
    obtain rfl : s = s' := Option.some.inj (hs.symm.trans hs')
    exact ⟨samplesToCs_mono (by omega) (by omega) g1, g2⟩
  · obtain ⟨g1, g2⟩ := hnext s hs
    refine ⟨samplesToCs_mono h1 (by omega) g1, h4.trans g2, fun s' hs' => ?_⟩
    obtain rfl : s = s' := Option.some.inj (hs.symm.trans hs')
    exact ⟨le_rfl, le_rfl⟩

/-- The entries of a piece are made in order. -/
theorem pairwise_mappings (hok : PieceOk b) : b.mappings.Pairwise fun e e' =>
    e.processedTime ≤ e'.processedTime ∧ e.originalTime ≤ e'.originalTime := by
  have hsil : (0 : ℤ) ≤ silenceSamples := by decide
  obtain ⟨h1, h2, h3, h4, h5, h6, h7⟩ := hok
  have hse : b.vadStart ≤ b.vadEnd := samplesToCs_mono h1 (by omega) (by omega)
  have hel : b.vadEnd ≤ samplesToCs (b.offset + b.length) :=
    samplesToCs_mono (by omega) (by omega) h6
  rw [Piece.mappings]
  cases hb : b.next with
  | none => simpa using ⟨hse, h4⟩
  | some s =>
    have hls : samplesToCs (b.offset + b.length) ≤
        samplesToCs (b.offset + b.length + silenceSamples) :=
      samplesToCs_mono (by omega) (by omega) (h7 (hb ▸ rfl))
    have hstop := h5 s hb
    simp only [List.pairwise_cons, List.mem_cons, List.not_mem_nil, or_false, forall_eq_or_imp,
      forall_eq, IsEmpty.forall_iff, implies_true, List.Pairwise.nil, and_true]
    omega

/-- The entries of a later piece come later. -/
theorem Follows.le (h : Follows b b') (hok : PieceOk b) (hok' : PieceOk b')
    (he : e ∈ b.mappings) (he' : e' ∈ b'.mappings) :
    e.processedTime ≤ e'.processedTime ∧ e.originalTime ≤ e'.originalTime := by
  have hsil : (0 : ℤ) ≤ silenceSamples := by decide
  obtain ⟨s, hs, horig, hoff⟩ := h
  obtain ⟨-, -, hbound⟩ := mappings_bounds hok he
  obtain ⟨hp, ho⟩ := hbound s hs
  obtain ⟨hp', ho', -⟩ := mappings_bounds hok' he'
  have h1 := hok.offset_nonneg
  have h2 := hok.originalLength_nonneg
  have h3 := hok.originalLength_le
  have h4 := hok'.length_le
  have h5 := hok'.originalLength_nonneg
  have h6 := hok'.originalLength_le
  have hmono : samplesToCs (b.offset + b.length + silenceSamples) ≤ b'.vadStart :=
    samplesToCs_mono (by omega) hoff (by omega)
  exact ⟨hp.trans (hmono.trans hp'), ho.trans (horig.trans ho')⟩

/-! ### The entries at the ends of a segment -/

theorem samplesToCs_silence {s : ℤ} (h0 : 0 ≤ s) (h : s + silenceSamples ≤ intEnd) :
    samplesToCs s < samplesToCs (s + silenceSamples) := by
  have : samplesToCs s + 10 - 1 ≤ samplesToCs (s + 160 * 10) := samplesToCs_add h0 (by norm_num) h
  rw [show s + silenceSamples = s + 160 * 10 from rfl]
  omega

theorem vadStart_le_vadEnd (hok : PieceOk b) : b.vadStart ≤ b.vadEnd := by
  obtain ⟨h1, h2, h3, -, -, h6, -⟩ := hok
  exact samplesToCs_mono h1 (by omega) (by omega)

/-- An entry of an earlier piece comes before the start, or stands for the same time. -/
theorem Follows.lt_or_eq (h : Follows b b') (hadj : Adjoins b b') (hok : PieceOk b)
    (hok' : PieceOk b') (he : e ∈ b.mappings) :
    e.processedTime < b'.vadStart ∨
      e.processedTime = b'.vadStart ∧ e.originalTime = b'.orig.start := by
  have hsil : (0 : ℤ) ≤ silenceSamples := by decide
  obtain ⟨s, hs, horig, hoff⟩ := h
  obtain ⟨h1, h2, h3, h4, h5, h6, h7⟩ := hok
  have h8 := hok'.length_le
  have h9 := hok'.originalLength_nonneg
  have h10 := hok'.originalLength_le
  have hsilence := h7 (hs ▸ rfl)
  have hlt := samplesToCs_silence (s := b.offset + b.length) (by omega) hsilence
  have hmono : samplesToCs (b.offset + b.length + silenceSamples) ≤ b'.vadStart :=
    samplesToCs_mono (by omega) hoff (by omega)
  rcases mem_mappings.mp he with rfl | rfl | ⟨s', hs', rfl | rfl⟩
  · have : b.vadStart ≤ samplesToCs (b.offset + b.length) :=
      samplesToCs_mono h1 (by omega) h6
    exact .inl (by simp only; omega)
  · have : b.vadEnd ≤ samplesToCs (b.offset + b.length) :=
      samplesToCs_mono (by omega) (by omega) h6
    exact .inl (by simp only; omega)
  · exact .inl (by simp only; omega)
  · -- the end of the silence
    rcases hadj with hnext | hfar
    · have : s' = b'.orig.start := Option.some.inj (hs'.symm.trans hnext)
      exact (lt_or_eq_of_le hmono).imp_right fun heq => ⟨heq, this⟩
    · have hlt' := samplesToCs_silence (s := b.offset + b.length + silenceSamples) (by omega)
        (by omega)
      have : samplesToCs (b.offset + b.length + silenceSamples + silenceSamples) ≤ b'.vadStart :=
        samplesToCs_mono (by omega) (by omega) (by omega)
      exact .inl (by simp only; omega)

/-- An entry of a later piece comes after the end. -/
theorem Follows.lt (h : Follows b b') (hok : PieceOk b) (hok' : PieceOk b')
    (he : e ∈ b'.mappings) : b.vadEnd < e.processedTime := by
  have hsil : (0 : ℤ) ≤ silenceSamples := by decide
  obtain ⟨s, hs, -, hoff⟩ := h
  obtain ⟨h1, h2, h3, h4, h5, h6, h7⟩ := hok
  have h8 := hok'.length_le
  have h9 := hok'.originalLength_nonneg
  have h10 := hok'.originalLength_le
  have hlt := samplesToCs_silence (s := b.offset + b.length) (by omega) (h7 (hs ▸ rfl))
  have hmono : samplesToCs (b.offset + b.length + silenceSamples) ≤ b'.vadStart :=
    samplesToCs_mono (by omega) hoff (by omega)
  have hend : b.vadEnd ≤ samplesToCs (b.offset + b.length) :=
    samplesToCs_mono (by omega) (by omega) h6
  have := (mappings_bounds hok' he).1
  omega

/-- Of the entries of a piece, those at its ends stand for the ends of the segment. -/
theorem eq_of_mem_mappings (hok : PieceOk b) (hne : b.vadStart ≠ b.vadEnd)
    (he : e ∈ b.mappings) :
    (e.processedTime = b.vadStart → e.originalTime = b.orig.start) ∧
      (e.processedTime = b.vadEnd → e.originalTime = b.orig.stop) := by
  have hle := vadStart_le_vadEnd hok
  obtain ⟨h1, h2, h3, h4, h5, h6, h7⟩ := hok
  have hend : b.vadEnd ≤ samplesToCs (b.offset + b.length) :=
    samplesToCs_mono (by omega) (by omega) h6
  rcases mem_mappings.mp he with rfl | rfl | ⟨s, hs, rfl | rfl⟩
  · exact ⟨fun _ => rfl, fun heq => absurd heq hne⟩
  · exact ⟨fun heq => absurd heq.symm hne, fun _ => rfl⟩
  · exact ⟨fun heq => by simp only at heq; omega, fun _ => rfl⟩
  · have hlt := samplesToCs_silence (s := b.offset + b.length) (by omega) (h7 (hs ▸ rfl))
    exact ⟨fun heq => by simp only at heq; omega, fun heq => by simp only at heq; omega⟩

/-! ### The table -/

section Table

variable (hoverlap : 0 ≤ overlap) (h0 : 0 ≤ n) (hn : n + overlap ≤ intEnd)
  (hhi : 160 * hi < intEnd) (hsegs : Laid 0 0 hi segs)
  (hend : endOffset n overlap 0 segs ≤ intEnd)

include hoverlap h0 hn hhi hsegs hend

/-- The entries are made in order. -/
theorem mappings_pairwise : (mappings n overlap segs).Pairwise fun e e' =>
    e.processedTime ≤ e'.processedTime ∧ e.originalTime ≤ e'.originalTime := by
  have hok : ∀ b ∈ pieces n overlap 0 segs, PieceOk b :=
    fun b hb => pieceOk_of_mem hoverlap h0 hn le_rfl hhi hsegs le_rfl hend hb
  exact List.pairwise_flatMap.mpr ⟨fun b hb => pairwise_mappings (hok b hb),
    (pieces_follow n overlap 0 hsegs).imp_of_mem fun hb hb' h e he e' he' =>
      h.le (hok _ hb) (hok _ hb') he he'⟩

/-- **The table is increasing.** -/
theorem increasing_mappingTable (tie : ℕ → ℕ) : Increasing (mappingTable tie n overlap segs) :=
  pairwise_uniqueBy_sortBy_of (mappings_pairwise hoverlap h0 hn hhi hsegs hend)

/-- All entries at the ends of a segment stand for the ends of the segment. -/
theorem eq_of_mem_all_mappings (hne : ∀ x ∈ segs, x.start < x.stop)
    (hb : b ∈ pieces n overlap 0 segs) (hends : b.vadStart ≠ b.vadEnd)
    (he : e ∈ mappings n overlap segs) :
    (e.processedTime = b.vadStart → e.originalTime = b.orig.start) ∧
      (e.processedTime = b.vadEnd → e.originalTime = b.orig.stop) := by
  have hok : ∀ b ∈ pieces n overlap 0 segs, PieceOk b :=
    fun b hb => pieceOk_of_mem hoverlap h0 hn le_rfl hhi hsegs le_rfl hend hb
  have hpw := (pieces_follow n overlap 0 hsegs).and
    (pieces_adjoin hoverlap h0 hn le_rfl hhi hsegs hne)
  obtain ⟨b', hb', he⟩ := List.mem_flatMap.mp he
  have hle := vadStart_le_vadEnd (hok b hb)
  rcases eq_or_of_pairwise hpw hb hb' with rfl | ⟨hfol, -⟩ | ⟨hfol, hadj⟩
  · exact eq_of_mem_mappings (hok b hb) hends he
  · have := hfol.lt (hok b hb) (hok b' hb') he
    exact ⟨fun heq => by omega, fun heq => by omega⟩
  · rcases hfol.lt_or_eq hadj (hok b' hb') (hok b hb) he with hlt | ⟨heq, horig⟩
    · exact ⟨fun heq => by omega, fun heq => by omega⟩
    · exact ⟨fun _ => horig, fun heq => by omega⟩

/-- **The ends of a segment are sent back**, if no segment is empty and the ends are not the same in
the filtered audio. -/
theorem maps_back (tie : ℕ → ℕ) (hne : ∀ x ∈ segs, x.start < x.stop)
    (hb : b ∈ pieces n overlap 0 segs) (hends : b.vadStart ≠ b.vadEnd) :
    mapProcessedToOriginal b.vadStart (mappingTable tie n overlap segs) = b.orig.start ∧
      mapProcessedToOriginal b.vadEnd (mappingTable tie n overlap segs) = b.orig.stop := by
  have hinc := increasing_mappingTable hoverlap h0 hn hhi hsegs hend tie
  have hkept : ∀ e ∈ b.mappings, ∃ e' ∈ mappingTable tie n overlap segs,
      e' ∈ mappings n overlap segs ∧ e'.processedTime = e.processedTime :=
    fun e he => exists_mem_uniqueBy_sortBy (List.mem_flatMap.mpr ⟨b, hb, he⟩)
  have hback := fun e => eq_of_mem_all_mappings hoverlap h0 hn hhi hsegs hend hne hb hends (e := e)
  constructor
  · obtain ⟨e, he, hmem, heq⟩ := hkept _ (mem_mappings.mpr (.inl rfl))
    rw [← (hback e hmem).1 heq, ← mapProcessedToOriginal_of_mem hinc he, heq]
  · obtain ⟨e, he, hmem, heq⟩ := hkept _ (mem_mappings.mpr (.inr (.inl rfl)))
    rw [← (hback e hmem).2 heq, ← mapProcessedToOriginal_of_mem hinc he, heq]

/-- **The mapping table is sound** for segments in order: the ends of a segment are sent back if no
segment is empty and the ends are not the same in the filtered audio. -/
theorem mappingTable_sound (tie : ℕ → ℕ) :
    TableSound (fun b => (∀ x ∈ segs, x.start < x.stop) ∧ b.vadStart ≠ b.vadEnd) tie n overlap
      segs :=
  have hinc := increasing_mappingTable hoverlap h0 hn hhi hsegs hend tie
  ⟨hinc, mapProcessedToOriginal_monotone hinc, mapProcessedToOriginal_mem hinc,
    fun _ hb hP => maps_back hoverlap h0 hn hhi hsegs hend tie hP.1 hb hP.2⟩

end Table

end Lemmas

/-- Two segments in ten seconds of audio. -/
def twoSegments : List Stretch := [⟨100, 200⟩, ⟨400, 550⟩]

theorem mappingTable_sound_two :
    TableSound (fun b => (∀ x ∈ twoSegments, x.start < x.stop) ∧ b.vadStart ≠ b.vadEnd) id 160000
      1600 twoSegments :=
  have hlaid : Laid 0 0 1000 twoSegments := ⟨by decide, by decide⟩
  mappingTable_sound (by decide) (by decide) (by decide) (by decide) hlaid (by decide +kernel) id

/-- **Not every end is sent back, and with a negative overlap the table need not be increasing**:
of the only segment four samples are within the audio, so that its ends are the same in the filtered
audio. With an overlap of `-0.2` seconds the silence starts before the end of the segment. -/
theorem not_tableSound :
    ¬ TableSound (fun _ => True) id 1445 1600 [⟨9, 20⟩] ∧
      ¬ Increasing (mappingTable id 100000 (-3200) [⟨0, 100⟩, ⟨200, 300⟩]) := by
  constructor
  · intro h
    have hback := (h.maps_back ⟨⟨9, 20⟩, 0, 1440, 4, 4, none⟩ (by decide +kernel) trivial).2
    exact absurd hback (by decide +kernel)
  · have htable : mappingTable id 100000 (-3200) [⟨0, 100⟩, ⟨200, 300⟩] =
        [⟨0, 0⟩, ⟨80, 100⟩, ⟨90, 200⟩, ⟨100, 100⟩, ⟨190, 300⟩] := by decide +kernel
    rw [htable]
    decide

end Vad

end WhisperCpp
