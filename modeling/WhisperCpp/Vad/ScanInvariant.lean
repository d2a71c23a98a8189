import WhisperCpp.Vad.Segments

/-!
# The invariant of the scan

Whatever the probabilities are, the speeches that the scan records follow each other and begin and
end at chunks. A speech cannot be empty if no chunk is speech and silence at once, which is so for
every threshold of at least `0.01`.

## Main definitions

* `Exclusive` — no probability is speech and silence
* `ScanInv` — the invariant at the head of the loop

## Main results

* `ScanInv.scanChunk`, `ScanInv.scanFrom` — one round, all rounds
* `speeches_spec` — what the scan finds
-/

namespace WhisperCpp

namespace Vad

variable {K : Type*} [Field K] [LinearOrder K] {v : VadContext} {p : VadParams K}

/-- No probability is both speech and silence. -/
def Exclusive (p : VadParams K) : Prop := negThreshold p ≤ p.threshold

theorem exclusive_of_le [IsStrictOrderedRing K] (h : 1 / 100 ≤ p.threshold) : Exclusive p := by
  unfold Exclusive negThreshold
  split
  · exact h
  · exact sub_le_self _ (by positivity)

/-- A chunk boundary of the current speech, or none: `a` lies after the start of the speech and
before `curr`. -/
def Inside (v : VadContext) (strict : Prop) (start curr a : ℤ) : Prop :=
  a = 0 ∨ (start ≤ a ∧ (strict → start < a) ∧ a < curr ∧ v.nWindow ∣ a)

/-- The recorded speeches follow each other up to `hi` and begin and end at chunks. -/
structure Recorded (v : VadContext) (strict : Prop) (hi : ℤ) (l : List Stretch) : Prop where
  laid : Stretch.Laid 0 0 hi l
  dvd : ∀ x ∈ l, v.nWindow ∣ x.start ∧ v.nWindow ∣ x.stop
  lt : strict → ∀ x ∈ l, x.start < x.stop

/-- The invariant of the scan, before the chunk at `curr`. -/
structure ScanInv (v : VadContext) (strict : Prop) (curr : ℤ) (s : Scan) : Prop where
  hasCurr_eq : s.hasCurrSpeech = s.isSpeech
  recorded : Recorded v strict (if s.isSpeech then s.currSpeechStart else curr) s.speeches
  idle : s.isSpeech = false → s.tempEnd = 0 ∧ s.prevEnd = 0 ∧ s.nextStart = 0
  start_spec : s.isSpeech = true →
    0 ≤ s.currSpeechStart ∧ s.currSpeechStart < curr ∧ v.nWindow ∣ s.currSpeechStart
  tempEnd_spec : Inside v strict s.currSpeechStart curr s.tempEnd
  prevEnd_spec : Inside v strict s.currSpeechStart curr s.prevEnd
  nextStart_spec : s.nextStart = 0 ∨ (s.nextStart < curr ∧ v.nWindow ∣ s.nextStart)

section Lemmas

variable {strict : Prop} {curr start a hi hi' : ℤ} {s : Scan} {l : List Stretch}

omit [Field K] [LinearOrder K] in
theorem Recorded.mono (h : Recorded v strict hi l) (hle : hi ≤ hi') : Recorded v strict hi' l :=
  ⟨h.laid.mono le_rfl hle, h.dvd, h.lt⟩

/-- A speech is recorded that begins after the others. -/
theorem Recorded.push (h : Recorded v strict start l) (h0 : 0 ≤ start) (hle : start ≤ a)
    (hlt : strict → start < a) (hstart : v.nWindow ∣ start) (ha : v.nWindow ∣ a) :
    Recorded v strict a (l ++ [⟨start, a⟩]) := by
  refine ⟨h.laid.concat h0 (by simp) hle le_rfl le_rfl, fun x hx => ?_, fun hs x hx => ?_⟩
  · rcases List.mem_append.mp hx with hx | hx
    · exact h.dvd x hx
    · rw [List.mem_singleton.mp hx]
      exact ⟨hstart, ha⟩
  · rcases List.mem_append.mp hx with hx | hx
    · exact h.lt hs x hx
    · rw [List.mem_singleton.mp hx]
      exact hlt hs

/-- The state without a current speech, at any later chunk. -/
theorem Recorded.leave (h : Recorded v strict hi s.speeches) (hle : hi ≤ curr) :
    ScanInv v strict curr s.leave where
  hasCurr_eq := rfl
  recorded := h.mono hle
  idle _ := ⟨rfl, rfl, rfl⟩
  start_spec h := by cases h
  tempEnd_spec := .inl rfl
  prevEnd_spec := .inl rfl
  nextStart_spec := .inl rfl

theorem scanInv_start (v : VadContext) (strict : Prop) : ScanInv v strict 0 .start where
  hasCurr_eq := rfl
  recorded := ⟨Stretch.laid_nil, nofun, fun _ => nofun⟩
  idle _ := ⟨rfl, rfl, rfl⟩
  start_spec h := by cases h
  tempEnd_spec := .inl rfl
  prevEnd_spec := .inl rfl
  nextStart_spec := .inl rfl

/-- Within a speech, in the round of the chunk at `curr`. The start of the speech may be that chunk,
unless the chunk is silence. -/
structure InSpeech (v : VadContext) (strict : Prop) (curr : ℤ) (s : Scan) : Prop where
  isSpeech_eq : s.isSpeech = true
  hasCurr_eq : s.hasCurrSpeech = true
  recorded : Recorded v strict s.currSpeechStart s.speeches
  start_nonneg : 0 ≤ s.currSpeechStart
  start_le : s.currSpeechStart ≤ curr
  start_dvd : v.nWindow ∣ s.currSpeechStart
  tempEnd_spec : Inside v strict s.currSpeechStart curr s.tempEnd
  prevEnd_spec : Inside v strict s.currSpeechStart curr s.prevEnd
  nextStart_spec : s.nextStart = 0 ∨ (s.nextStart ≤ curr ∧ v.nWindow ∣ s.nextStart)

theorem Inside.mono {curr' : ℤ} (h : Inside v strict start curr a) (hle : curr ≤ curr') :
    Inside v strict start curr' a :=
  h.imp_right fun ⟨h1, h2, h3, h4⟩ => ⟨h1, h2, h3.trans_le hle, h4⟩

/-- The speech goes on in the next round. -/
theorem InSpeech.next (h : InSpeech v strict curr s) : ScanInv v strict (curr + v.nWindow) s := by
  have hw := v.le_nWindow
  have hle := h.start_le
  refine ⟨h.hasCurr_eq.trans h.isSpeech_eq.symm, ?_, fun hidle => ?_, fun _ =>
    ⟨h.start_nonneg, by omega, h.start_dvd⟩, h.tempEnd_spec.mono (by omega),
    h.prevEnd_spec.mono (by omega), h.nextStart_spec.imp_right fun ⟨h1, h2⟩ => ⟨by omega, h2⟩⟩
  · rw [h.isSpeech_eq]
    exact h.recorded
  · rw [h.isSpeech_eq] at hidle
    cases hidle

/-- Without a speech nothing changes until the next round. -/
theorem ScanInv.wait (h : ScanInv v strict curr s) (hidle : s.isSpeech = false) :
    ScanInv v strict (curr + v.nWindow) s := by
  have hw := v.le_nWindow
  obtain ⟨h1, h2, h3⟩ := h.idle hidle
  refine ⟨h.hasCurr_eq, ?_, h.idle, fun hs => ?_, .inl h1, .inl h2, .inl h3⟩
  · have hrec := h.recorded
    rw [hidle] at hrec ⊢
    exact hrec.mono (by simp only [Bool.false_eq_true, if_false]; omega)
  · rw [hidle] at hs
    cases hs

/-- Silence in a speech: the speech goes on, or it ends at the beginning of the silence. -/
theorem InSpeech.handleSilence {prob : K} (h : InSpeech v strict curr s) (hcurr : v.nWindow ∣ curr)
    (hlt : strict → prob < negThreshold p → s.currSpeechStart < curr) :
    ScanInv v strict (curr + v.nWindow) (handleSilence p curr prob s) := by
  have hw := v.le_nWindow
  rw [Vad.handleSilence]
  by_cases hsil : prob < negThreshold p ∧ s.isSpeech
  swap
  · rw [if_neg hsil]
    exact h.next
  rw [if_pos hsil]
  have hle := h.start_le
  -- the silence began in this speech
  have htemp : s.currSpeechStart ≤ (inSilence curr s).tempEnd ∧
      (strict → s.currSpeechStart < (inSilence curr s).tempEnd) ∧
      (inSilence curr s).tempEnd ≤ curr ∧ v.nWindow ∣ (inSilence curr s).tempEnd := by
    simp only [inSilence]
    split
    · exact ⟨hle, fun hs => hlt hs hsil.1, le_rfl, hcurr⟩
    · rename_i hne
      obtain ⟨h1, h2, h3, h4⟩ := h.tempEnd_spec.resolve_left hne
      exact ⟨h1, h2, h3.le, h4⟩
  obtain ⟨h1, h2, h3, h4⟩ := htemp
  have hin : Inside v strict s.currSpeechStart (curr + v.nWindow) (inSilence curr s).tempEnd :=
    .inr ⟨h1, h2, by omega, h4⟩
  have hrec : Recorded v strict s.currSpeechStart (inSilence curr s).speeches := h.recorded
  simp only
  split
  · refine ⟨h.hasCurr_eq.trans h.isSpeech_eq.symm, ?_, fun hidle => ?_, fun _ =>
      ⟨h.start_nonneg, by show s.currSpeechStart < _; omega, h.start_dvd⟩, hin, ?_, ?_⟩
    · show Recorded v strict (if s.isSpeech then s.currSpeechStart else _) s.speeches
      rw [h.isSpeech_eq]
      exact h.recorded
    · exact absurd (h.isSpeech_eq.symm.trans hidle) (by nofun)
    · have hprev : (inSilence curr s).prevEnd = (inSilence curr s).tempEnd ∨
          (inSilence curr s).prevEnd = s.prevEnd := ite_eq_or_eq ..
      rcases hprev with heq | heq
      · rw [heq]
        exact hin
      · rw [heq]
        exact h.prevEnd_spec.mono (by omega)
    · exact h.nextStart_spec.imp_right fun ⟨h1, h2⟩ => ⟨by show s.nextStart < _; omega, h2⟩
  · split
    · exact (hrec.push h.start_nonneg h1 h2 h.start_dvd h4).leave (by omega)
    · exact hrec.leave (by omega)

/-- A speech that is too long is split, and the scan goes on. -/
theorem InSpeech.split {prob : K} (h : InSpeech v strict curr s) (hcurr : v.nWindow ∣ curr)
    (hprev : s.prevEnd ≠ 0)
    (hnext : strict → prob < negThreshold p → s.nextStart < curr) :
    ScanInv v strict (curr + v.nWindow) (Vad.handleSilence p curr prob (splitAtSilence s)) := by
  have hw := v.le_nWindow
  obtain ⟨h1, h2, h3, h4⟩ := h.prevEnd_spec.resolve_left hprev
  have hrec := h.recorded.push h.start_nonneg h1 h2 h.start_dvd h4
  have h0 := h.start_nonneg
  rw [splitAtSilence]
  split
  · -- still in the silence: there is no speech to handle
    rw [Vad.handleSilence]
    rw [if_neg fun hsil => by cases hsil.2]
    exact Recorded.leave (s := s.push s.prevEnd) hrec (by omega)
  · rename_i hge
    obtain ⟨h5, h6⟩ := h.nextStart_spec.resolve_left (by omega)
    refine InSpeech.handleSilence ⟨h.isSpeech_eq, rfl, hrec.mono (not_lt.mp hge), ?_, h5, h6,
      .inl rfl, .inl rfl, .inl rfl⟩ hcurr hnext
    show 0 ≤ s.nextStart
    omega

omit [Field K] in
/-- What a round starts with, in a speech. -/
theorem ScanInv.inSpeech (p : VadParams K) (prob : K) (h : ScanInv v strict curr s) (hs : s.isSpeech = true)
    (hcurr : v.nWindow ∣ curr) :
    InSpeech v strict curr (backToSpeech p curr prob s) ∧
      (backToSpeech p curr prob s).currSpeechStart < curr ∧
      ((backToSpeech p curr prob s).nextStart < curr ∨ p.threshold ≤ prob) := by
  obtain ⟨h1, h2, h3⟩ := h.start_spec hs
  have hrec := h.recorded
  rw [hs, if_pos rfl] at hrec
  have hnext : s.nextStart < curr := by
    rcases h.nextStart_spec with h0 | h0
    · omega
    · exact h0.1
  rw [backToSpeech]
  split
  · rename_i hback
    refine ⟨⟨hs, h.hasCurr_eq.trans hs, hrec, h1, h2.le, h3, .inl rfl, h.prevEnd_spec, ?_⟩, h2,
      .inr hback.1⟩
    show (if s.nextStart < s.prevEnd then curr else s.nextStart) = 0 ∨ _
    split
    · exact .inr ⟨le_rfl, hcurr⟩
    · exact h.nextStart_spec.imp_right fun ⟨h1, h2⟩ => ⟨h1.le, h2⟩
  · exact ⟨⟨hs, h.hasCurr_eq.trans hs, hrec, h1, h2.le, h3, h.tempEnd_spec, h.prevEnd_spec,
      h.nextStart_spec.imp_right fun ⟨h1, h2⟩ => ⟨h1.le, h2⟩⟩, h2, .inl hnext⟩

/-- **One round keeps the invariant.** -/
theorem ScanInv.scanChunk [FloorRing K] (prob : K) (h : ScanInv v (Exclusive p) curr s)
    (h0 : 0 ≤ curr) (hcurr : v.nWindow ∣ curr) :
    ScanInv v (Exclusive p) (curr + v.nWindow) (scanChunk v p curr prob s) := by
  have hw := v.le_nWindow
  unfold Vad.scanChunk
  simp only
  cases hs : s.isSpeech with
  | false =>
    obtain ⟨h1, h2, h3⟩ := h.idle hs
    have hback : backToSpeech p curr prob s = s := if_neg fun hc => hc.2 h1
    rw [hback]
    split
    · refine ⟨rfl, ?_, (by rintro ⟨⟩), fun _ => ⟨h0, ?_, hcurr⟩, .inl h1, .inl h2,
        .inl h3⟩
      · have hrec := h.recorded
        rw [hs] at hrec
        exact hrec
      · show curr < _
        omega
    · rw [if_neg fun hc => by rw [hs] at hc; exact absurd hc.1 (by rintro ⟨⟩)]
      unfold Vad.handleSilence
      rw [if_neg fun hc => by rw [hs] at hc; exact absurd hc.2 (by rintro ⟨⟩)]
      exact h.wait hs
  | true =>
    obtain ⟨hin, hlt, hnext⟩ := h.inSpeech p prob hs hcurr
    generalize backToSpeech p curr prob s = s' at *
    rw [if_neg fun hc => by rw [hin.isSpeech_eq] at hc; exact absurd hc.2 (by rintro ⟨⟩)]
    split
    · split
      · rename_i hprev
        refine hin.split hcurr hprev fun hex hsil => hnext.resolve_right fun hthr => ?_
        exact absurd (hsil.trans_le (le_trans hex hthr)) (lt_irrefl _)
      · have hrec := hin.recorded.push hin.start_nonneg hlt.le (fun _ => hlt) hin.start_dvd hcurr
        exact Recorded.leave (s := s'.push curr) hrec (by omega)
    · exact hin.handleSilence hcurr fun _ _ => hlt

/-- **The scan keeps the invariant.** -/
theorem ScanInv.scanFrom [FloorRing K] (probs : List K) (h : ScanInv v (Exclusive p) curr s)
    (h0 : 0 ≤ curr) (hcurr : v.nWindow ∣ curr) :
    ScanInv v (Exclusive p) (curr + audioLength v probs) (scanFrom v p curr probs s) := by
  have hw := v.le_nWindow
  induction probs generalizing curr s with
  | nil => simpa [Vad.scanFrom, audioLength] using h
  | cons prob probs ih =>
    have hrec := ih (h.scanChunk prob h0 hcurr) (by omega) (dvd_add hcurr dvd_rfl)
    have hlen : curr + audioLength v (prob :: probs) =
        curr + v.nWindow + audioLength v probs := by
      simp only [audioLength, List.length_cons]
      push_cast
      ring
    rw [hlen]
    exact hrec

/-- **What the scan finds**: speeches that follow each other within the audio, at chunk
boundaries. -/
theorem speeches_spec [FloorRing K] (v : VadContext) (p : VadParams K) (probs : List K) :
    Recorded v (Exclusive p) (audioLength v probs) (speeches v p probs) := by
  have hw := v.le_nWindow
  have h := (scanInv_start v (Exclusive p)).scanFrom probs le_rfl
    (dvd_zero _)
  rw [zero_add] at h
  unfold speeches
  simp only
  generalize scanFrom v p 0 probs .start = s at *
  have hrec := h.recorded
  split
  · rename_i hlast
    have hs : s.isSpeech = true := h.hasCurr_eq.symm.trans hlast.1
    obtain ⟨h1, h2, h3⟩ := h.start_spec hs
    rw [hs, if_pos rfl] at hrec
    exact hrec.push h1 h2.le (fun _ => h2) h3 (dvd_mul_left _ _)
  · cases hs : s.isSpeech with
    | false =>
      rw [hs] at hrec
      exact hrec
    | true =>
      rw [hs, if_pos rfl] at hrec
      exact hrec.mono (h.start_spec hs).2.1.le

end Lemmas

end Vad

end WhisperCpp
