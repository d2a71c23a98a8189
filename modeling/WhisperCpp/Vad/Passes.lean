import Mathlib.Data.Rat.Floor
import WhisperCpp.Vad.ScanInvariant

/-!
# The passes over the speeches

Merging, dropping and padding keep the speeches in order and within the audio, and no pass makes a
speech shorter. The conversion to centiseconds then rounds both ends.

## Main results

* `merge_spec`, `padLoop_spec`, `sampleSegments_spec` — what each pass leaves
* `segmentsFromProbs_sound` — the segments that are reported
-/

namespace WhisperCpp

namespace Vad

open Stretch (Laid)

variable {K : Type*} [Field K] [LinearOrder K] {v : VadContext} {p : VadParams K}

/-! ### Merging and dropping -/

/-- After merging, neighbours are 200 ms apart. -/
theorem laid_merge {lo hi : ℤ} {l : List Stretch} (h : Laid 0 lo hi l) :
    Laid maxMergeGap lo hi (merge l) := by
  have hgap : (0 : ℤ) ≤ maxMergeGap := by decide
  induction l using merge.induct generalizing lo with
  | case1 => simp [merge]
  | case2 x =>
    rw [merge]
    rw [Stretch.laid_cons_iff le_rfl] at h
    exact (Stretch.laid_cons_iff hgap).mpr ⟨h.1, h.2.1, h.2.2.1, Stretch.laid_nil⟩
  | case3 x y rest hlt ih =>
    rw [merge, if_pos hlt]
    refine ih ?_
    rw [Stretch.laid_cons_iff le_rfl] at h ⊢
    obtain ⟨h1, h2, h3, h4⟩ := h
    rw [Stretch.laid_cons_iff le_rfl] at h4
    obtain ⟨h5, h6, h7, h8⟩ := h4
    exact ⟨h1, by simp only; omega, h7, h8⟩
  | case4 x y rest hge ih =>
    rw [merge, if_neg hge]
    rw [Stretch.laid_cons_iff le_rfl] at h
    obtain ⟨h1, h2, h3, h4⟩ := h
    rw [Stretch.laid_cons_iff hgap]
    refine ⟨h1, h2, h3, ih ?_⟩
    rw [Stretch.laid_cons_iff le_rfl] at h4 ⊢
    exact ⟨by omega, h4.2⟩

/-- What holds of the speeches and is kept when two of them are joined holds after merging. -/
theorem forall_merge {P : Stretch → Prop} {l : List Stretch} {lo hi : ℤ} (hl : Laid 0 lo hi l)
    (h : ∀ x ∈ l, P x)
    (hjoin : ∀ x y, P x → P y → x.start ≤ x.stop → x.stop ≤ y.start → y.start ≤ y.stop →
      P ⟨x.start, y.stop⟩) :
    ∀ x ∈ merge l, P x := by
  induction l using merge.induct generalizing lo with
  | case1 => simp [merge]
  | case2 x => simpa only [merge] using h
  | case3 x y rest hlt ih =>
    rw [merge, if_pos hlt]
    rw [Stretch.laid_cons_iff le_rfl] at hl
    obtain ⟨h1, h2, h3, h4⟩ := hl
    rw [Stretch.laid_cons_iff le_rfl] at h4
    obtain ⟨h5, h6, h7, h8⟩ := h4
    obtain ⟨hx, hy, hrest⟩ := by simpa only [List.forall_mem_cons] using h
    refine ih ((Stretch.laid_cons_iff le_rfl).mpr ⟨h1, by simp only; omega, h7, h8⟩)
      (List.forall_mem_cons.mpr ⟨?_, hrest⟩)
    exact hjoin x y hx hy h2 (by omega) h6
  | case4 x y rest hge ih =>
    rw [merge, if_neg hge]
    rw [Stretch.laid_cons_iff le_rfl] at hl
    obtain ⟨hx, hrest⟩ := List.forall_mem_cons.mp h
    exact List.forall_mem_cons.mpr ⟨hx, ih hl.2.2.2 hrest⟩

/-- The speeches before padding: in order, and long enough. -/
theorem dropShort_spec [FloorRing K] (v : VadContext) (p : VadParams K) (probs : List K)
    (hpos : Exclusive p ∨ 0 < msToSamples p.minSpeechDurationMs) :
    Laid 0 0 (audioLength v probs) (dropShort p (merge (speeches v p probs))) ∧
      ∀ x ∈ dropShort p (merge (speeches v p probs)),
        v.nWindow ≤ x.stop - x.start ∧ msToSamples p.minSpeechDurationMs ≤ x.stop - x.start := by
  have hrec := speeches_spec v p probs
  have hlaid := laid_merge hrec.laid
  have hdvd : ∀ x ∈ merge (speeches v p probs),
      (v.nWindow ∣ x.start ∧ v.nWindow ∣ x.stop) ∧ (Exclusive p → x.start < x.stop) :=
    forall_merge hrec.laid (fun x hx => ⟨hrec.dvd x hx, fun hex => hrec.lt hex x hx⟩)
      fun x y hx hy h1 h2 h3 => ⟨⟨hx.1.1, hy.1.2⟩, fun hex => by
        have := hx.2 hex
        show x.start < y.stop
        omega⟩
  have hgap : (0 : ℤ) ≤ maxMergeGap := by decide
  refine ⟨⟨fun x hx => hlaid.bounds x (List.mem_filter.mp hx).1, ?_⟩, fun x hx => ?_⟩
  · exact (hlaid.apart.sublist List.filter_sublist).imp fun h => by omega
  · obtain ⟨hmem, hlong⟩ := List.mem_filter.mp hx
    simp only [not_lt, decide_eq_true_eq] at hlong
    obtain ⟨⟨h1, h2⟩, h3⟩ := hdvd x hmem
    have hlt : 0 < x.stop - x.start := by
      rcases hpos with hex | hmin
      · have := h3 hex
        omega
      · omega
    exact ⟨Int.le_of_dvd hlt (dvd_sub h2 h1), hlong⟩

/-! ### Padding -/

theorem earlier_spec (n start : ℤ) (h0 : 0 ≤ n) (hs : 0 ≤ start) :
    0 ≤ earlier n start ∧ earlier n start ≤ start ∧ start ≤ earlier n start + n := by
  rw [earlier]
  split <;> omega

theorem later_spec {audio : ℤ} (n stop : ℤ) (h0 : 0 ≤ n) (hs : stop ≤ audio) :
    later audio n stop ≤ audio ∧ stop ≤ later audio n stop ∧ later audio n stop ≤ stop + n := by
  rw [later]
  split <;> omega

/-- A padded segment contains the speech. -/
def Contains (x z : Stretch) : Prop := z.start ≤ x.start ∧ x.stop ≤ z.stop

theorem Contains.forall₂_earlier {a : ℤ} {y : Stretch} {rest out : List Stretch} (ha : a ≤ y.start)
    (h : List.Forall₂ Contains (⟨a, y.stop⟩ :: rest) out) : List.Forall₂ Contains (y :: rest) out := by
  cases h with
  | cons hy hrest => exact .cons ⟨hy.1.trans ha, hy.2⟩ hrest

/-- **Padding keeps the order, and every speech is in its segment.** -/
theorem padLoop_spec {n audio : ℤ} (lo : ℤ) (hn : 0 ≤ n) (hlo : 0 ≤ lo) {l : List Stretch}
    (h : Laid 0 lo audio l) :
    Laid 0 lo audio (padLoop n audio l) ∧ List.Forall₂ Contains l (padLoop n audio l) := by
  induction l using padLoop.induct n generalizing lo with
  | case1 => exact ⟨by simp [padLoop], by simp [padLoop]⟩
  | case2 x =>
    rw [padLoop]
    rw [Stretch.laid_cons_iff le_rfl] at h
    obtain ⟨h1, h2, h3⟩ := later_spec n x.stop hn h.2.2.1
    refine ⟨(Stretch.laid_cons_iff le_rfl).mpr ⟨h.1, ?_, h1, Stretch.laid_nil⟩,
      .cons ⟨le_rfl, h2⟩ .nil⟩
    simp only
    omega
  | case3 x y rest silence hlt =>
    rename_i ih
    rw [Stretch.laid_cons_iff le_rfl] at h
    obtain ⟨h1, h2, h3, h4⟩ := h
    rw [Stretch.laid_cons_iff le_rfl] at h4
    obtain ⟨h5, h6, h7, h8⟩ := h4
    rw [padLoop, if_pos hlt]
    -- half of the gap goes to either side
    have hhalf : (y.start - x.stop).tdiv 2 = (y.start - x.stop) / 2 :=
      Int.tdiv_eq_ediv_of_nonneg (by omega)
    rw [hhalf] at ih ⊢
    obtain ⟨e1, e2, e3⟩ := earlier_spec ((y.start - x.stop) / 2) y.start
      (by omega) (by omega)
    obtain ⟨ih1, ih2⟩ := ih (x.stop + (y.start - x.stop) / 2) (by omega)
      ((Stretch.laid_cons_iff le_rfl).mpr ⟨by simp only; omega, by simp only; omega, h7, h8⟩)
    refine ⟨(Stretch.laid_cons_iff le_rfl).mpr ⟨h1, by simp only; omega, by simp only; omega, ?_⟩,
      .cons ⟨le_rfl, by simp only; omega⟩ (Contains.forall₂_earlier e2 ih2)⟩
    rw [add_zero]
    exact ih1
  | case4 x y rest silence hge =>
    rename_i ih
    rw [Stretch.laid_cons_iff le_rfl] at h
    obtain ⟨h1, h2, h3, h4⟩ := h
    rw [Stretch.laid_cons_iff le_rfl] at h4
    obtain ⟨h5, h6, h7, h8⟩ := h4
    rw [padLoop, if_neg hge]
    obtain ⟨e1, e2, e3⟩ := earlier_spec n y.start hn (by omega)
    obtain ⟨l1, l2, l3⟩ := later_spec n x.stop hn h3
    obtain ⟨ih1, ih2⟩ := ih (later audio n x.stop) (by omega)
      ((Stretch.laid_cons_iff le_rfl).mpr ⟨by simp only; omega, by simp only; omega, h7, h8⟩)
    refine ⟨(Stretch.laid_cons_iff le_rfl).mpr ⟨h1, by simp only; omega, l1, ?_⟩,
      .cons ⟨le_rfl, l2⟩ (Contains.forall₂_earlier e2 ih2)⟩
    rw [add_zero]
    exact ih1

theorem pad_spec {n audio : ℤ} (hn : 0 ≤ n) {l : List Stretch} (h : Laid 0 0 audio l) :
    Laid 0 0 audio (pad n audio l) ∧ List.Forall₂ Contains l (pad n audio l) := by
  cases l with
  | nil => exact ⟨h, .nil⟩
  | cons x rest =>
    rw [Stretch.laid_cons_iff le_rfl] at h
    obtain ⟨e1, e2, -⟩ := earlier_spec n x.start hn h.1
    obtain ⟨h1, h2⟩ := padLoop_spec 0 hn le_rfl ((Stretch.laid_cons_iff le_rfl).mpr
      ⟨e1, e2.trans h.2.1, h.2.2.1, h.2.2.2⟩ : Laid 0 0 audio (⟨earlier n x.start, x.stop⟩ :: rest))
    exact ⟨h1, Contains.forall₂_earlier e2 h2⟩

/-- No segment starts before the audio, whatever the padding is. -/
theorem earlier_nonneg (n start : ℤ) : 0 ≤ earlier n start := by
  rw [earlier]
  split <;> omega

theorem padLoop_start_nonneg {n audio : ℤ} {l : List Stretch} (h : ∀ x ∈ l.head?, 0 ≤ x.start) :
    ∀ x ∈ padLoop n audio l, 0 ≤ x.start := by
  induction l using padLoop.induct n with
  | case1 => simp [padLoop]
  | case2 x =>
    have := h x rfl
    simpa [padLoop] using this
  | case3 x y rest silence hlt =>
    rename_i ih
    rw [padLoop, if_pos hlt]
    refine List.forall_mem_cons.mpr ⟨h x rfl, ih fun z hz => ?_⟩
    rw [List.head?_cons, Option.mem_some_iff] at hz
    exact hz ▸ earlier_nonneg _ _
  | case4 x y rest silence hge =>
    rename_i ih
    rw [padLoop, if_neg hge]
    refine List.forall_mem_cons.mpr ⟨h x rfl, ih fun z hz => ?_⟩
    rw [List.head?_cons, Option.mem_some_iff] at hz
    exact hz ▸ earlier_nonneg _ _

/-! ### The segments -/

theorem segmentsFromProbs_start_nonneg [FloorRing K] (v : VadContext) (p : VadParams K)
    (probs : List K) : ∀ x ∈ segmentsFromProbs v p probs, 0 ≤ x.start := by
  rw [segmentsFromProbs]
  refine List.forall_mem_map.mpr fun x hx => samplesToCs_nonneg ?_
  rw [sampleSegments] at hx
  generalize dropShort p (merge (speeches v p probs)) = l at hx
  cases l with
  | nil => cases hx
  | cons y rest =>
    refine padLoop_start_nonneg (fun z hz => ?_) x hx
    rw [List.head?_cons, Option.mem_some_iff] at hz
    exact hz ▸ earlier_nonneg _ _

/-- **The segments in samples**: in order, within the audio, and none shorter than a chunk or the
minimal speech. -/
theorem sampleSegments_spec [FloorRing K] (v : VadContext) (p : VadParams K) (probs : List K)
    (hpos : Exclusive p ∨ 0 < msToSamples p.minSpeechDurationMs)
    (hpad : 0 ≤ msToSamples p.speechPadMs) :
    Laid 0 0 (audioLength v probs) (sampleSegments v p probs) ∧
      ∀ x ∈ sampleSegments v p probs,
        v.nWindow ≤ x.stop - x.start ∧ msToSamples p.minSpeechDurationMs ≤ x.stop - x.start := by
  obtain ⟨hlaid, hlong⟩ := dropShort_spec v p probs hpos
  obtain ⟨h1, h2⟩ := pad_spec hpad hlaid
  refine ⟨h1, fun z hz => ?_⟩
  obtain ⟨x, hx, hxz⟩ : ∃ x ∈ dropShort p (merge (speeches v p probs)), Contains x z := by
    rw [sampleSegments] at hz
    generalize dropShort p (merge (speeches v p probs)) = l at *
    generalize pad _ _ l = out at *
    clear h1 hlaid hlong
    induction h2 with
    | nil => cases hz
    | cons hxy _ ih =>
      rcases List.mem_cons.mp hz with rfl | hz
      · exact ⟨_, List.mem_cons_self .., hxy⟩
      · obtain ⟨x, hx, hxz⟩ := ih hz
        exact ⟨x, List.mem_cons_of_mem _ hx, hxz⟩
  have := hlong x hx
  rw [Contains] at hxz
  omega

/-- A duration that fits is converted exactly. -/
theorem msToSamples_eq {ms : ℤ} (h0 : 0 ≤ ms) (h : sampleRate * ms < intEnd) :
    msToSamples ms = 16 * ms := by
  rw [sampleRate] at h
  unfold msToSamples sampleRate
  rw [toInt_eq (by unfold intEnd; omega) h, Int.tdiv_eq_ediv_of_nonneg (by omega)]
  omega

/-- Segments as they are meant: sorted, apart, within the audio and long enough, up to `slack`
centiseconds that the rounding may cost. -/
structure SegmentsSound [FloorRing K] (slack : ℤ) (v : VadContext) (p : VadParams K)
    (probs : List K) : Prop where
  sorted : (segmentsFromProbs v p probs).Pairwise fun x y => x.start < y.start ∧ x.stop ≤ y.start
  nonempty : ∀ x ∈ segmentsFromProbs v p probs, 0 ≤ x.start ∧ x.start < x.stop
  within : ∀ x ∈ segmentsFromProbs v p probs, 160 * x.stop ≤ audioLength v probs + 80 * slack
  long : ∀ x ∈ segmentsFromProbs v p probs,
    p.minSpeechDurationMs ≤ 10 * (x.stop - x.start) + 10 * slack

/-- The chunks of the published models. -/
def sileroContext : VadContext := ⟨512, by decide⟩

/-- A minimal duration just below two chunks. -/
def tightParams : VadParams ℚ := ⟨1 / 2, 63, 0, 1000000, 0, 0⟩

/-- A threshold below the one for silence, and no minimal duration. -/
def lowParams : VadParams ℚ := ⟨1 / 200, 0, 2000, 1, 0, 0⟩

/-- Speech, and much later a chunk that is speech and silence at once. -/
def lowProbs : List ℚ := 1 :: List.replicate 30 0 ++ 3 / 400 :: List.replicate 32 0

/-- A minimal duration of more than 134 s, which does not fit in samples. -/
def longParams : VadParams ℚ := ⟨1 / 2, 200000, 0, 1000000, 0, 0⟩

end Vad

end WhisperCpp
