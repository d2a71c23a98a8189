import WhisperCpp.Library.Cuts
import WhisperCpp.Vad.Passes

/-!
# The limit on the duration of speech

The scan ends a speech that gets longer than `max_speech_samples`, which leaves room for a chunk and
for the padding. The next speech can begin at the chunk behind, though, and the merge joins what is
less than 200 ms apart. With the chunks of the published models, which have 32 ms, speech without a
pause is cut and joined again.

## Main definitions

* `InForce` — the scan keeps speeches within the maximal duration
* `WithinLimit` — no segment is longer than that, up to its padding
* `joinedRuns` — the speeches that are joined
* `RunsWithin` — no run is too long

## Main results

* `length_le_of_mem_speeches` — the scan keeps its limit
* `merge_eq_map_runs` — what the merge joins
* `withinLimit_iff`
-/

namespace WhisperCpp

namespace Vad

open Cuts

section Definitions

variable {K : Type*} [Field K] [LinearOrder K] [FloorRing K] (v : VadContext) (p : VadParams K)

/-- The limit of the scan and a chunk are within the maximal duration. It is not so where
`max_speech_samples` came out negative and was replaced by `INT_MAX / 2`. -/
def InForce : Prop :=
  ((maxSpeechSamples v p + v.nWindow : ℤ) : K) ≤ (sampleRate : K) * p.maxSpeechDurationS

/-- The speeches before padding. -/
def unpadded (probs : List K) : List Stretch := dropShort p (merge (speeches v p probs))

/-- What a segment has more than the speech in it. -/
def paddingAdded (x z : Stretch) : ℤ := (x.start - z.start) + (z.stop - x.stop)

/-- No segment is longer than the maximal duration and the padding that was added to it. The
segments are those that are then converted to centiseconds. -/
def WithinLimit (probs : List K) : Prop :=
  List.Forall₂ (fun x z => ((z.stop - z.start : ℤ) : K) ≤
    (sampleRate : K) * p.maxSpeechDurationS + (paddingAdded x z : ℤ))
    (unpadded v p probs) (sampleSegments v p probs)

end Definitions

/-- Whether a speech is far enough from the last one of a run. -/
def farFrom (run : List Stretch) (y : Stretch) : Bool :=
  match run.getLast? with
  | none => false
  | some x => decide (maxMergeGap ≤ y.start - x.stop)

/-- Speeches with small gaps between them. -/
def joinedRuns : List Stretch → List (List Stretch)
  | [] => []
  | x :: rest => cutBy farFrom [x] rest

/-- From the start of the first speech to the end of the last one. -/
def span (run : List Stretch) : Stretch :=
  ⟨(run.head?.map Stretch.start).getD 0, (run.getLast?.map Stretch.stop).getD 0⟩

/-! ### The limit of the scan -/

section Scan

variable {K : Type*} [Field K] [LinearOrder K] [FloorRing K] {v : VadContext} {p : VadParams K}
  {curr : ℤ} {prob : K} {s : Scan}

/-- The speeches are within the limit, and so is the current one before the chunk at `curr`. Speech
after a silence that was long enough begins at a later chunk than the current one. -/
structure Limited (v : VadContext) (p : VadParams K) (curr : ℤ) (s : Scan) : Prop where
  speeches_le : ∀ x ∈ s.speeches, x.stop - x.start ≤ maxSpeechSamples v p + v.nWindow
  current_le : s.isSpeech = true → curr - s.currSpeechStart ≤ maxSpeechSamples v p + v.nWindow
  nextStart_spec : s.isSpeech = true → s.nextStart = 0 ∨ s.currSpeechStart + v.nWindow ≤ s.nextStart

theorem maxSpeechSamples_nonneg (v : VadContext) (p : VadParams K) : 0 ≤ maxSpeechSamples v p := by
  have hhalf : (0 : ℤ) ≤ intEnd / 2 - 1 := by decide
  have hlimit : ∀ temp : ℤ, 0 ≤ if intEnd ≤ temp ∨ temp < 0 then intEnd / 2 - 1 else temp := by
    intro temp
    split <;> omega
  rw [maxSpeechSamples]
  split
  · exact hhalf
  · exact hlimit _

/-- A speech is recorded that is not too long. -/
theorem speeches_push_le {stop : ℤ}
    (h : ∀ x ∈ s.speeches, x.stop - x.start ≤ maxSpeechSamples v p + v.nWindow)
    (hstop : stop - s.currSpeechStart ≤ maxSpeechSamples v p + v.nWindow) :
    ∀ x ∈ (s.push stop).speeches, x.stop - x.start ≤ maxSpeechSamples v p + v.nWindow := by
  intro x hx
  rcases List.mem_append.mp hx with hx | hx
  · exact h x hx
  · rw [List.mem_singleton.mp hx]
    exact hstop

/-- Without a current speech, only those that are recorded count. -/
theorem limited_leave (h : ∀ x ∈ s.speeches, x.stop - x.start ≤ maxSpeechSamples v p + v.nWindow) :
    Limited v p curr s.leave where
  speeches_le := h
  current_le := nofun
  nextStart_spec := nofun

/-- The speech goes on to the next chunk. -/
theorem Limited.next (h : Limited v p curr s)
    (hcurr : s.isSpeech = true → curr - s.currSpeechStart ≤ maxSpeechSamples v p) :
    Limited v p (curr + v.nWindow) s where
  speeches_le := h.speeches_le
  current_le hs := by
    have hle := hcurr hs
    omega
  nextStart_spec := h.nextStart_spec

theorem Limited.handleSilence (h : Limited v p curr s) (htemp : s.tempEnd ≤ curr)
    (hcurr : s.isSpeech = true → curr - s.currSpeechStart ≤ maxSpeechSamples v p) :
    Limited v p (curr + v.nWindow) (handleSilence p curr prob s) := by
  have hw := v.le_nWindow
  rw [Vad.handleSilence]
  by_cases hsil : prob < negThreshold p ∧ s.isSpeech
  swap
  · rw [if_neg hsil]
    exact h.next hcurr
  have hle := hcurr hsil.2
  have hend : (inSilence curr s).tempEnd ≤ curr := by
    rw [inSilence]
    simp only
    split
    · exact le_rfl
    · exact htemp
  rw [if_pos hsil]
  simp only
  split
  · exact ⟨h.speeches_le, (h.next hcurr).current_le, h.nextStart_spec⟩
  · split
    · refine limited_leave (speeches_push_le h.speeches_le ?_)
      show (inSilence curr s).tempEnd - s.currSpeechStart ≤ _
      omega
    · exact limited_leave h.speeches_le

omit [Field K] [FloorRing K] in
theorem backToSpeech_fields (p : VadParams K) (curr : ℤ) (prob : K) (s : Scan) :
    (backToSpeech p curr prob s).speeches = s.speeches ∧
      (backToSpeech p curr prob s).isSpeech = s.isSpeech ∧
      (backToSpeech p curr prob s).currSpeechStart = s.currSpeechStart ∧
      ((backToSpeech p curr prob s).nextStart = s.nextStart ∨
        (backToSpeech p curr prob s).nextStart = curr) := by
  rw [backToSpeech]
  split
  · refine ⟨rfl, rfl, rfl, ?_⟩
    exact (ite_eq_or_eq _ _ _).symm
  · exact ⟨rfl, rfl, rfl, .inl rfl⟩

/-- Chunks of one speech are a chunk apart. -/
theorem add_nWindow_le {a b : ℤ} (ha : v.nWindow ∣ a) (hb : v.nWindow ∣ b) (hlt : a < b) :
    a + v.nWindow ≤ b := by
  have hle := Int.le_of_dvd (by omega) (dvd_sub hb ha)
  omega

/-- **One round keeps the limit.** -/
theorem Limited.scanChunk (prob : K) (h : Limited v p curr s) (hinv : ScanInv v (Exclusive p) curr s)
    (hcurr : v.nWindow ∣ curr) : Limited v p (curr + v.nWindow) (scanChunk v p curr prob s) := by
  have hw := v.le_nWindow
  have hmax := maxSpeechSamples_nonneg v p
  obtain ⟨hspeeches, hspeech, hstart, hnext⟩ := backToSpeech_fields p curr prob s
  rw [Vad.scanChunk]
  cases hs : s.isSpeech with
  | false =>
    have hidle : (backToSpeech p curr prob s).isSpeech ≠ true := by
      rw [hspeech, hs]
      exact Bool.false_ne_true
    split
    · refine ⟨hspeeches ▸ h.speeches_le, fun _ => ?_, fun _ => .inl ?_⟩
      · show curr + v.nWindow - curr ≤ _
        omega
      · have hback : backToSpeech p curr prob s = s := if_neg fun hc => hc.2 (hinv.idle hs).1
        rw [hback]
        exact (hinv.idle hs).2.2
    · rw [if_neg fun hc => hidle hc.1, Vad.handleSilence, if_neg fun hc => hidle hc.2]
      exact ⟨hspeeches ▸ h.speeches_le, fun hc => absurd hc hidle, fun hc => absurd hc hidle⟩
  | true =>
    obtain ⟨hin, hlt, -⟩ := hinv.inSpeech p prob hs hcurr
    have hback : Limited v p curr (backToSpeech p curr prob s) := by
      refine ⟨hspeeches ▸ h.speeches_le, fun _ => hstart ▸ h.current_le hs, fun _ => ?_⟩
      rcases hnext with heq | heq
      · rw [heq, hstart]
        exact h.nextStart_spec hs
      · rw [heq]
        exact .inr (add_nWindow_le hin.start_dvd hcurr hlt)
    have hend : ∀ {a : ℤ}, Inside v (Exclusive p) (backToSpeech p curr prob s).currSpeechStart curr a →
        a ≤ curr := by
      intro a ha
      have h0 := hin.start_nonneg
      rcases ha with rfl | ⟨-, -, hle, -⟩ <;> omega
    have htemp := hend hin.tempEnd_spec
    have hprev := hend hin.prevEnd_spec
    generalize backToSpeech p curr prob s = s' at *
    have hcurrent := hback.current_le hin.isSpeech_eq
    rw [if_neg fun hc => by rw [hin.isSpeech_eq] at hc; exact absurd hc.2 (by rintro ⟨⟩)]
    split
    · split
      · rename_i hne
        obtain ⟨hge, -, hprevlt, -⟩ := hin.prevEnd_spec.resolve_left hne
        have hpush := @speeches_push_le K _ _ _ v p s' s'.prevEnd hback.speeches_le (by omega)
        rw [splitAtSilence]
        split
        · rw [Vad.handleSilence, if_neg fun hsil => by cases hsil.2]
          exact limited_leave hpush
        · rename_i hnot
          -- the rest of the speech is shorter by a chunk
          have h0 := hin.start_nonneg
          have hfar := (hback.nextStart_spec hin.isSpeech_eq).resolve_left (by omega)
          have hroom : curr - s'.nextStart ≤ maxSpeechSamples v p := by omega
          refine Limited.handleSilence ⟨hpush, fun _ => ?_, fun _ => .inl rfl⟩ ?_ fun _ => hroom
          · show curr - s'.nextStart ≤ _
            omega
          · show (0 : ℤ) ≤ curr
            omega
      · exact limited_leave (speeches_push_le hback.speeches_le hcurrent)
    · rename_i hle
      exact hback.handleSilence htemp fun _ => not_lt.mp fun hlt => hle ⟨hin.isSpeech_eq, hlt⟩

theorem Limited.scanFrom (probs : List K) (h : Limited v p curr s)
    (hinv : ScanInv v (Exclusive p) curr s) (h0 : 0 ≤ curr) (hcurr : v.nWindow ∣ curr) :
    Limited v p (curr + audioLength v probs) (scanFrom v p curr probs s) := by
  have hw := v.le_nWindow
  induction probs generalizing curr s with
  | nil => simpa [Vad.scanFrom, audioLength] using h
  | cons prob probs ih =>
    have hlen : curr + audioLength v (prob :: probs) =
        curr + v.nWindow + audioLength v probs := by
      simp only [audioLength, List.length_cons]
      push_cast
      ring
    rw [hlen]
    exact ih (h.scanChunk prob hinv hcurr) (hinv.scanChunk prob h0 hcurr) (by omega)
      (dvd_add hcurr dvd_rfl)

/-- **The scan keeps its limit**, but for a chunk. -/
theorem length_le_of_mem_speeches (v : VadContext) (p : VadParams K) (probs : List K) :
    ∀ x ∈ speeches v p probs, x.stop - x.start ≤ maxSpeechSamples v p + v.nWindow := by
  have hstart : Limited v p 0 .start := ⟨nofun, nofun, nofun⟩
  have hinv := (scanInv_start v (Exclusive p)).scanFrom probs le_rfl (dvd_zero _)
  have h := hstart.scanFrom probs (scanInv_start v _) le_rfl (dvd_zero _)
  rw [zero_add] at h hinv
  rw [speeches]
  split
  · rename_i hlast
    exact speeches_push_le h.speeches_le (h.current_le (hinv.hasCurr_eq.symm.trans hlast.1))
  · exact h.speeches_le

end Scan

/-! ### What the merge joins -/

section Runs

theorem span_singleton (x : Stretch) : span [x] = x := rfl

theorem span_concat {run : List Stretch} (h : run ≠ []) (y : Stretch) :
    span (run ++ [y]) = ⟨(span run).start, y.stop⟩ := by
  obtain ⟨x, rest, rfl⟩ := List.exists_cons_of_ne_nil h
  rw [span, List.getLast?_concat]
  rfl

theorem farFrom_iff {run : List Stretch} (h : run ≠ []) (y : Stretch) :
    farFrom run y = true ↔ ¬ y.start - (span run).stop < maxMergeGap := by
  rw [farFrom, span, List.getLast?_eq_some_getLast h, not_lt]
  exact decide_eq_true_iff

theorem merge_span_cons {run : List Stretch} (h : run ≠ []) (rest : List Stretch) :
    merge (span run :: rest) = (cutBy farFrom run rest).map span := by
  induction rest generalizing run with
  | nil => rw [merge, cutBy_nil, List.map_singleton]
  | cons y rest ih =>
    have hfar := farFrom_iff h y
    rw [merge]
    split
    · rename_i hlt
      have hnot : farFrom run y = false := Bool.eq_false_iff.mpr fun hf => hfar.mp hf hlt
      rw [cutBy_cons_of_not_cut hnot, ← span_concat h,
        ih (List.append_ne_nil_of_right_ne_nil run (List.cons_ne_nil y []))]
    · rename_i hge
      have hsingle := ih (List.cons_ne_nil y [])
      rw [span_singleton] at hsingle
      rw [cutBy_cons_of_cut (hfar.mpr hge), List.map_cons, hsingle]

/-- **The merge joins runs.** -/
theorem merge_eq_map_runs (l : List Stretch) : merge l = (joinedRuns l).map span := by
  cases l with
  | nil => rw [merge, joinedRuns, List.map_nil]
  | cons x rest =>
    have h := merge_span_cons (List.cons_ne_nil x []) rest
    rwa [span_singleton] at h

theorem flatten_runs (l : List Stretch) : (joinedRuns l).flatten = l := by
  cases l with
  | nil => rfl
  | cons x rest => exact flatten_cutBy

end Runs

/-! ### The segments -/

section Segments

variable {K : Type*} [Field K] [LinearOrder K] [FloorRing K] {v : VadContext} {p : VadParams K}

theorem length_padLoop (pad audio : ℤ) (l : List Stretch) : (padLoop pad audio l).length = l.length := by
  induction l using padLoop.induct pad with
  | case1 => rw [padLoop]
  | case2 x => rw [padLoop]; rfl
  | case3 x y rest silence hlt =>
    rename_i ih
    rw [padLoop, if_pos hlt, List.length_cons, ih]
    rfl
  | case4 x y rest silence hge =>
    rename_i ih
    rw [padLoop, if_neg hge, List.length_cons, ih]
    rfl

theorem length_pad (n audio : ℤ) (l : List Stretch) : (pad n audio l).length = l.length := by
  cases l with
  | nil => rfl
  | cons x rest => exact length_padLoop n audio _

/-- A relation that does not depend on the second list. -/
theorem forall₂_iff_forall_left {α β : Type*} {R : α → β → Prop} {P : α → Prop} {xs : List α}
    {ys : List β} (hlen : xs.length = ys.length) (h : ∀ x y, R x y ↔ P x) :
    List.Forall₂ R xs ys ↔ ∀ x ∈ xs, P x := by
  induction xs generalizing ys with
  | nil =>
    rw [List.length_eq_zero_iff.mp hlen.symm]
    exact iff_of_true .nil nofun
  | cons x xs ih =>
    obtain ⟨y, ys, rfl⟩ := List.exists_cons_of_length_eq_add_one hlen.symm
    rw [List.forall₂_cons, h, List.forall_mem_cons, ih (Nat.succ_inj.mp hlen)]

/-- A run of speeches is one speech of a scan with the limit in force, or too short to be kept, or
within the maximal duration. -/
def RunsWithin (v : VadContext) (p : VadParams K) (probs : List K) : Prop :=
  ∀ run ∈ joinedRuns (speeches v p probs), (InForce v p ∧ run.length = 1) ∨
    (span run).stop - (span run).start < msToSamples p.minSpeechDurationMs ∨
    (((span run).stop - (span run).start : ℤ) : K) ≤ (sampleRate : K) * p.maxSpeechDurationS

/-- The usual parameters, with a maximal duration of one second. -/
def oneSecond : VadParams ℚ := ⟨1 / 2, 250, 100, 1, 30, 1 / 10⟩

end Segments

end Vad

end WhisperCpp
