import Mathlib.Data.Prod.Lex
import WhisperCpp.Full.English
import WhisperCpp.Full.Phases

/-!
# Progress of the main loop

A window is decoded once for every temperature of the schedule until an attempt is good enough, and
then the seek position moves by what the best decoder has found. It moves, since the decoder was
reset for the window and every later change keeps its shift positive, unless the schedule is empty:
then there is no attempt, and the shift of an earlier window is used again.

## Main definitions

* `ScheduleFits` — the schedule of the call is finite, and not empty
* `Progress` — what an iteration of the main loop achieves

## Main results

* `main_loop_ends` — with such schedules, every iteration makes progress and every call ends
-/

namespace WhisperCpp

namespace Full

variable {K F G : Type*} [Field K] [LinearOrder K]
  {ctx : Context K F G} {s : State K F G} {x : Input K F G}

/-! ### The schedule -/

/-- The temperature after `n` increments. -/
def tempAfter (ctx : Context K F G) (p : Params K F G) (n : ℕ) : F :=
  (fun t => ctx.temp.add t p.temperatureInc)^[n] p.temperature

/-- With a positive increment, the temperature leaves the range after finitely many additions. -/
def ScheduleFinite (ctx : Context K F G) (p : Params K F G) : Prop :=
  ∃ n, ctx.temp.lt (tempAfter ctx p n) ctx.temp.one = false

/-- With a positive increment, the schedule starts within the range. -/
def ScheduleStarts (ctx : Context K F G) (p : Params K F G) : Prop :=
  ctx.temp.lt ctx.temp.zero p.temperatureInc → ctx.temp.lt p.temperature ctx.temp.one

/-- A schedule that is being built is finite, and where a window is to be decoded the schedule
started within the range. -/
def ScheduleFits (ctx : Context K F G) (s : State K F G) : Prop :=
  match s.pc with
  | .schedule _ => ScheduleFinite ctx s.params
  | .attempt 0 => ScheduleStarts ctx s.params
  | _ => True

/-- The locations in the body of the main loop. -/
def Pc.inBody : Pc F → Bool
  | .attempt _ | .decode (.prompt _) | .decode (.next _ _) | .decode .dtw | .sample _ _
  | .update _ _ | .rank _ | .emit | .advance => true
  | _ => false

/-- The schedule has one temperature for every addition, all within the range. In the main loop it
is empty only if it did not start. -/
structure Schedule (ctx : Context K F G) (s : State K F G) : Prop where
  building : ∀ t, s.pc = .schedule t → t = tempAfter ctx s.params s.temperatures.length ∧
    ctx.temp.lt ctx.temp.zero s.params.temperatureInc = true ∧
    ∀ k < s.temperatures.length, ctx.temp.lt (tempAfter ctx s.params k) ctx.temp.one = true
  built : s.pc = .window ∨ s.pc.inBody → s.temperatures = [] → ¬ ScheduleStarts ctx s.params

/-- What the main loop keeps. -/
structure Kept (s s' : State K F G) : Prop where
  params_eq : s'.params = s.params
  temperatures_eq : s'.temperatures = s.temperatures
  pc_ne : ∀ t, s'.pc ≠ .schedule t

section Step

variable [FloorRing K]

theorem kept_decoded {site : Site} (hsite : site ≠ .detect) (s : State K F G) :
    Kept s (decoded ctx x s site) := by
  cases site with
  | detect => exact absurd rfl hsite
  | prompt it =>
    refine ⟨rfl, rfl, fun t => ?_⟩
    show (if 0 < nMax ctx then _ else _ : Pc F) ≠ _
    split <;> nofun
  | next it i =>
    refine ⟨rfl, rfl, fun t => ?_⟩
    show (if (i : ℤ) + 1 < nMax ctx then _ else _ : Pc F) ≠ _
    split <;> nofun
  | dtw => exact ⟨rfl, rfl, nofun⟩

theorem kept_stepDecode {site : Site} (hsite : site ≠ .detect) (s : State K F G) :
    Kept s (stepDecode ctx x site s) := by
  rw [stepDecode]
  split
  · obtain ⟨h1, h2, h3⟩ := kept_decoded (x := x) hsite (s.computed ctx x)
    exact ⟨h1, h2, h3⟩
  · cases site with
    | detect => exact absurd rfl hsite
    | prompt | next | dtw => exact ⟨rfl, rfl, (by rintro _ ⟨⟩)⟩

/-- The main loop keeps the parameters and the schedule. -/
theorem kept_step (ctx : Context K F G) (hpc : s.pc = .window ∨ s.pc.inBody)
    (x : Input K F G) :
    Kept s (step ctx x s) := by
  refine step_cases (fun _ h => ?_) (fun _ h => ?_) (fun site h => ?_) (fun _ => ?_)
    (fun _ _ => ?_) (fun _ _ _ => ?_) (fun _ _ _ => ?_) (fun _ _ => ?_) (fun _ => ?_) (fun _ => ?_)
    (fun h => ?_)
  · simp [h, Pc.inBody] at hpc
  · simp [h, Pc.inBody] at hpc
  · refine kept_stepDecode ?_ s
    rintro rfl
    simp [h, Pc.inBody] at hpc
  · rw [stepWindow]
    split_ifs <;> exact ⟨rfl, rfl, (by rintro _ ⟨⟩)⟩
  · rw [stepAttempt]
    split
    · exact ⟨rfl, rfl, (by rintro _ ⟨⟩)⟩
    · split
      · exact ⟨rfl, rfl, (by rintro _ ⟨⟩)⟩
      · split <;> exact ⟨rfl, rfl, (by rintro _ ⟨⟩)⟩
  · rw [stepSample]
    split
    · exact ⟨rfl, rfl, (by rintro _ ⟨⟩)⟩
    · split <;> exact ⟨rfl, rfl, (by rintro _ ⟨⟩)⟩
  · rw [stepUpdate]
    split_ifs <;> exact ⟨rfl, rfl, (by rintro _ ⟨⟩)⟩
  · rw [stepRank]
    split <;> exact ⟨rfl, rfl, (by rintro _ ⟨⟩)⟩
  · rw [stepEmit]
    split_ifs <;> exact ⟨rfl, rfl, (by rintro _ ⟨⟩)⟩
  · exact ⟨rfl, rfl, (by rintro _ ⟨⟩)⟩
  · rcases h with h | h <;> simp [h, Pc.inBody] at hpc

end Step

theorem schedule_setup (h : s.temperatures = [] → ¬ ScheduleStarts ctx s.params) :
    Schedule ctx (setup ctx s) := by
  rw [setup]
  split
  · exact ⟨(by rintro _ ⟨⟩), fun h => by simp [Pc.inBody] at h⟩
  · split
    · exact ⟨(by rintro _ ⟨⟩), fun h => by simp [Pc.inBody] at h⟩
    · exact ⟨(by rintro _ ⟨⟩), fun _ => h⟩

theorem schedule_beginCall : Schedule ctx (beginCall ctx s) := by
  rw [beginCall]
  split
  · exact ⟨(by rintro _ ⟨⟩), fun h => by simp [Pc.inBody] at h⟩
  · split
    · rename_i hinc
      exact ⟨fun t ht => ⟨(Pc.schedule.inj ht).symm, hinc, fun k hk => absurd hk k.not_lt_zero⟩,
        fun h => by simp [Pc.inBody] at h⟩
    · exact schedule_setup fun h => absurd h (List.cons_ne_nil _ _)

theorem schedule_stepCall : Schedule ctx (stepCall ctx x s) := by
  rw [stepCall]
  split
  · exact ⟨(by rintro _ ⟨⟩), fun h => by simp [Pc.inBody] at h⟩
  · split
    · split <;> exact ⟨(by rintro _ ⟨⟩), fun h => by simp [Pc.inBody] at h⟩
    · exact schedule_beginCall

theorem schedule_stepSchedule {t : F} (hpc : s.pc = .schedule t) (h : Schedule ctx s) :
    Schedule ctx (stepSchedule ctx t s) := by
  obtain ⟨ht, hinc, hrange⟩ := h.building t hpc
  rw [stepSchedule]
  split
  · rename_i hlt
    refine ⟨fun t' ht' => ⟨?_, hinc, fun k hk => ?_⟩, fun h => by simp [Pc.inBody] at h⟩
    · have hadd : tempAfter ctx s.params (s.temperatures.length + 1) =
          ctx.temp.add (tempAfter ctx s.params s.temperatures.length) s.params.temperatureInc :=
        Function.iterate_succ_apply' ..
      show t' = tempAfter ctx s.params (s.temperatures ++ [t]).length
      rw [← Pc.schedule.inj ht', List.length_append, List.length_singleton, hadd, ← ht]
    · have hk : k < (s.temperatures ++ [t]).length := hk
      rw [List.length_append, List.length_singleton] at hk
      rcases Nat.lt_succ_iff_lt_or_eq.mp hk with hk | rfl
      · exact hrange k hk
      · exact ht ▸ hlt
  · rename_i hlt
    refine schedule_setup fun hnil hstart => hlt ?_
    rw [ht, hnil]
    exact hstart hinc

theorem schedule_stepDecode_detect [FloorRing K] : Schedule ctx (stepDecode ctx x .detect s) := by
  rw [stepDecode]
  split
  · show Schedule ctx (decodedDetect ctx x _)
    rw [decodedDetect]
    simp only
    split
    · exact ⟨(by rintro _ ⟨⟩), fun h => by simp [Pc.inBody] at h⟩
    · exact schedule_beginCall
  · exact ⟨(by rintro _ ⟨⟩), fun h => by simp [decodeFailed, Pc.inBody] at h⟩

theorem schedule_step [FloorRing K] (h : Schedule ctx s) (x : Input K F G) :
    Schedule ctx (step ctx x s) := by
  by_cases hpc : s.pc = .window ∨ s.pc.inBody
  · have hkept := kept_step ctx hpc x
    refine ⟨fun t ht => absurd ht (hkept.pc_ne t), fun _ => ?_⟩
    rw [hkept.temperatures_eq, hkept.params_eq]
    exact h.built hpc
  · have hbody : ∀ {P : Prop}, s.pc.inBody = true → P := fun h => absurd (.inr h) hpc
    refine step_cases (fun _ _ => schedule_stepCall) (fun t ht => schedule_stepSchedule ht h)
      (fun site hs => ?_) (fun hs => absurd (.inl hs) hpc) (fun _ hs => hbody (hs ▸ rfl))
      (fun _ _ hs => hbody (hs ▸ rfl)) (fun _ _ hs => hbody (hs ▸ rfl))
      (fun _ hs => hbody (hs ▸ rfl)) (fun hs => hbody (hs ▸ rfl)) (fun hs => hbody (hs ▸ rfl))
      fun _ => h
    cases site with
    | detect => exact schedule_stepDecode_detect
    | prompt | next | dtw => exact hbody (hs ▸ rfl)

theorem Reachable.schedule [FloorRing K] (h : Reachable ctx s) : Schedule ctx s :=
  h.invariant
    (fun s hs => ⟨fun t ht => by simp [hs.pc_eq] at ht,
      fun hpc => by simp [hs.pc_eq, Pc.inBody] at hpc⟩)
    fun _ x _ _ h => schedule_step h x

/-! ### The shift of the window -/

/-- The decoders that were reset in the current window have a positive shift. -/
def Shifts (s : State K F G) : Prop :=
  ∀ j, (s.decoders j).window ≤ s.windows ∧
    (s.pc.inBody = true → (s.decoders j).window = s.windows → 2 ≤ (s.decoders j).seekDelta)

/-- The steps outside of the main loop's body leave the decoders alone. -/
structure Outside (s s' : State K F G) : Prop where
  decoders_eq : s'.decoders = s.decoders
  windows_eq : s'.windows = s.windows
  pc_outside : s'.pc.inBody = false

theorem outside_setup (ctx : Context K F G) (s : State K F G) : Outside s (setup ctx s) := by
  rw [setup]
  split_ifs <;> exact ⟨rfl, rfl, rfl⟩

theorem outside_beginCall (ctx : Context K F G) (s : State K F G) : Outside s (beginCall ctx s) := by
  rw [beginCall]
  split
  · exact ⟨rfl, rfl, rfl⟩
  · split
    · exact ⟨rfl, rfl, rfl⟩
    · obtain ⟨h1, h2, h3⟩ := outside_setup ctx
        { s.ranged with temperatures := [s.params.temperature] }
      exact ⟨h1, h2, h3⟩

theorem outside_stepCall (s : State K F G) : Outside s (stepCall ctx x s) := by
  rw [stepCall]
  split
  · exact ⟨rfl, rfl, rfl⟩
  · split
    · split <;> exact ⟨rfl, rfl, rfl⟩
    · obtain ⟨h1, h2, h3⟩ := outside_beginCall ctx (s.called x)
      exact ⟨h1, h2, h3⟩

theorem outside_stepSchedule (t : F) (s : State K F G) : Outside s (stepSchedule ctx t s) := by
  rw [stepSchedule]
  split
  · exact ⟨rfl, rfl, rfl⟩
  · exact outside_setup ctx s

theorem outside_stepDecode_detect [FloorRing K] (s : State K F G) :
    Outside s (stepDecode ctx x .detect s) := by
  rw [stepDecode]
  split
  · show Outside s (decodedDetect ctx x _)
    rw [decodedDetect]
    simp only
    split
    · exact ⟨rfl, rfl, rfl⟩
    · obtain ⟨h1, h2, h3⟩ := outside_beginCall ctx
        { s.computed ctx x with
          langId := detectLang ctx x (s.computed ctx x)
          params := { s.params with language := some (detectLang ctx x (s.computed ctx x)) } }
      exact ⟨h1, h2, h3⟩
  · exact ⟨rfl, rfl, rfl⟩

omit [Field K] [LinearOrder K] in
theorem Shifts.outside {s' : State K F G} (h : Shifts s) (hout : Outside s s') : Shifts s' := by
  intro j
  rw [hout.decoders_eq, hout.windows_eq, hout.pc_outside]
  exact ⟨(h j).1, nofun⟩

omit [Field K] [LinearOrder K] in
/-- In the body of the main loop, a decoder keeps its shift, takes that of a decoder of the same
window, or gets a positive one. -/
theorem Shifts.inside {s' : State K F G} (h : Shifts s) (hpc : s.pc.inBody = true)
    (hwin : s'.windows = s.windows)
    (hdec : ∀ j, (s'.decoders j).window = (s.decoders j).window ∧
      (2 ≤ (s'.decoders j).seekDelta ∨ (s'.decoders j).seekDelta = (s.decoders j).seekDelta ∨
        ∃ k, (s.decoders k).window = s.windows ∧
          (s'.decoders j).seekDelta = (s.decoders k).seekDelta)) : Shifts s' := by
  intro j
  obtain ⟨hw, hd⟩ := hdec j
  rw [hw, hwin]
  refine ⟨(h j).1, fun _ hj => ?_⟩
  rcases hd with hd | hd | ⟨k, hk, hd⟩
  · exact hd
  · rw [hd]
    exact (h j).2 hpc hj
  · rw [hd]
    exact (h k).2 hpc hk

/-- The shift that an update leaves. -/
theorem seekDelta_updateDecoder {p : Params K F G} {seek seekEnd : ℤ} {i : ℕ} {d d' : Decoder K G}
    (hd : d.active) (h : updateDecoder ctx p seek seekEnd i d = some d') :
    d'.seekDelta = d.seekDelta ∨ 2 ≤ d'.seekDelta := by
  obtain ⟨token, -, ⟨-, rfl⟩ | ⟨-, g, hcon⟩⟩ := updateDecoder_spec hd h
  · exact .inl rfl
  · have hslide : (d.slide ctx i token).seekDelta = d.seekDelta ∨
        2 ≤ (d.slide ctx i token).seekDelta := by
      rw [Decoder.slide]
      split
      · rename_i hts
        refine .inr ?_
        show 2 ≤ 2 * ((token.id : ℤ) - ctx.vocab.tokenBeg)
        omega
      · exact .inl rfl
    rcases hcon.seekDelta_eq with heq | heq
    · rw [heq]
      exact hslide
    · rw [heq]
      exact .inr (by decide)

theorem shifts_stepSample {it i : ℕ} (hpc : s.pc = .sample it i) (hph : Phase ctx s)
    (h : Shifts s) : Shifts (stepSample ctx x it i s) := by
  rw [Phase] at hph
  rw [hpc] at hph
  have hbody : s.pc.inBody = true := by rw [hpc]; rfl
  rw [stepSample]
  split
  · refine h.inside hbody rfl fun j => ?_
    simp only
    split <;> exact ⟨rfl, .inr (.inl rfl)⟩
  · split
    · exact h.inside hbody rfl fun j => ⟨rfl, .inr (.inl rfl)⟩
    · rename_i hne
      have hcs : sortedCandidates ctx x s ≠ [] := by simpa using hne
      refine h.inside hbody rfl fun j => ?_
      have hre := reassign_decoders hcs i s.nDecodersCur s.decoders s.kvSelf j
      simp only
      split at hre
      · obtain ⟨cur, hcur, heq⟩ := hre
        obtain ⟨k, hk, -, t, -, rfl⟩ := mem_allCandidates (mem_sortCandidates.mp hcur)
        rw [heq]
        exact ⟨rfl, .inr (.inr ⟨k, hph.window_eq k hk, rfl⟩)⟩
      · rw [hre]
        exact ⟨rfl, .inr (.inl rfl)⟩

theorem shifts_stepUpdate {it i : ℕ} (hpc : s.pc = .update it i) (h : Shifts s) :
    Shifts (stepUpdate ctx it i s) := by
  have hbody : s.pc.inBody = true := by rw [hpc]; rfl
  have hup : ∀ j, ((s.updateAll ctx i).decoders j).seekDelta = (s.decoders j).seekDelta ∨
      2 ≤ ((s.updateAll ctx i).decoders j).seekDelta := by
    intro j
    rw [show (s.updateAll ctx i).decoders j = (updated ctx i s j).getD (s.decoders j) from rfl]
    rw [updated]
    split
    · rename_i hj
      cases hu : updateDecoder ctx s.params s.seek s.seekEnd i (s.decoders j) with
      | none => exact .inl rfl
      | some d => exact seekDelta_updateDecoder hj.2 hu
    · exact .inl rfl
  rw [stepUpdate]
  split
  · exact h.inside hbody rfl fun j => ⟨rfl, .inr (.inl rfl)⟩
  · split
    · exact h.inside hbody rfl fun j =>
        ⟨(updateAll_decoders ctx i s j).2.2.1, (hup j).symm.imp_right .inl⟩
    · refine h.inside hbody rfl fun j => ?_
      simp only [State.prepareNext]
      split <;> exact ⟨(updateAll_decoders ctx i s j).2.2.1, (hup j).symm.imp_right .inl⟩

theorem shifts_stepAttempt {it : ℕ} (hpc : s.pc = .attempt it) (h : Shifts s) :
    Shifts (stepAttempt ctx x it s) := by
  have hbody : s.pc.inBody = true := by rw [hpc]; rfl
  have hsame : ∀ s' : State K F G, s'.windows = s.windows → s'.decoders = s.decoders →
      Shifts s' := fun s' hw hd =>
    h.inside hbody hw fun j => by rw [hd]; exact ⟨rfl, .inr (.inl rfl)⟩
  rw [stepAttempt]
  split
  · exact hsame _ rfl rfl
  · rename_i t ht
    split
    · exact hsame _ rfl rfl
    · split
      · exact hsame _ rfl rfl
      · intro j
        simp only [State.attempted]
        split
        · refine ⟨le_rfl, fun _ _ => ?_⟩
          show (2 : ℤ) ≤ chunk
          decide
        · exact ⟨(h j).1, fun _ => (h j).2 hbody⟩

theorem shifts_stepRank {it : ℕ} (hpc : s.pc = .rank it) (h : Shifts s) :
    Shifts (stepRank ctx it s) := by
  have hbody : s.pc.inBody = true := by rw [hpc]; rfl
  have hrank : ∀ j, ((s.rankAll ctx).decoders j).window = (s.decoders j).window ∧
      ((s.rankAll ctx).decoders j).seekDelta = (s.decoders j).seekDelta := by
    intro j
    simp only [State.rankAll]
    split
    · obtain ⟨h1, h2, -⟩ := (s.decoders j).ranked_eq ctx s.params
      exact ⟨h2, h1⟩
    · exact ⟨rfl, rfl⟩
  rw [stepRank]
  split <;> exact h.inside hbody rfl fun j => ⟨(hrank j).1, .inr (.inl (hrank j).2)⟩

section Step

variable [FloorRing K]

theorem shifts_stepDecode {site : Site} (hpc : s.pc = .decode site) (h : Shifts s) :
    Shifts (stepDecode ctx x site s) := by
  have hbody : ∀ {P : Prop}, site ≠ .detect → (s.pc.inBody = true → P) → P := by
    intro P hsite hP
    refine hP ?_
    rw [hpc]
    cases site <;> first | rfl | exact absurd rfl hsite
  cases site with
  | detect => exact h.outside (outside_stepDecode_detect s)
  | prompt it =>
    refine hbody (by rintro ⟨⟩) fun hb => ?_
    rw [stepDecode]
    split
    · refine h.inside hb rfl fun j => ?_
      obtain ⟨b, scores, heq⟩ :=
        decodedPrompt_decoder_eq ctx x (s.computed ctx x) it j
      rw [show (decoded ctx x (s.computed ctx x) (.prompt it)).decoders j = _ from heq]
      exact ⟨rfl, .inr (.inl rfl)⟩
    · exact h.inside hb rfl fun j => ⟨rfl, .inr (.inl rfl)⟩
  | next it i =>
    refine hbody (by rintro ⟨⟩) fun hb => ?_
    rw [stepDecode]
    split
    · refine h.inside hb rfl fun j => ?_
      obtain ⟨scores, heq⟩ :=
        decodedNext_decoder_eq ctx x (s.computed ctx x) it i j
      rw [show (decoded ctx x (s.computed ctx x) (.next it i)).decoders j = _ from heq]
      exact ⟨rfl, .inr (.inl rfl)⟩
    · exact h.inside hb rfl fun j => ⟨rfl, .inr (.inl rfl)⟩
  | dtw =>
    refine hbody (by rintro ⟨⟩) fun hb => ?_
    rw [stepDecode]
    split <;> exact h.inside hb rfl fun j => ⟨rfl, .inr (.inl rfl)⟩

theorem shifts_step (hph : Phase ctx s) (h : Shifts s) (x : Input K F G) :
    Shifts (step ctx x s) := by
  refine step_cases (fun _ _ => h.outside (outside_stepCall s))
    (fun t _ => h.outside (outside_stepSchedule t s)) (fun _ hpc => shifts_stepDecode hpc h)
    (fun hpc => ?_) (fun _ hpc => shifts_stepAttempt hpc h)
    (fun _ _ hpc => shifts_stepSample hpc hph h) (fun _ _ hpc => shifts_stepUpdate hpc h)
    (fun _ hpc => shifts_stepRank hpc h) (fun hpc => ?_) (fun hpc => ?_) (fun _ => h)
  · rw [stepWindow]
    split
    · exact h.outside ⟨rfl, rfl, rfl⟩
    split
    · exact h.outside ⟨rfl, rfl, rfl⟩
    split
    · exact h.outside ⟨rfl, rfl, rfl⟩
    · -- a new window: no decoder was reset in it yet
      intro j
      have hle := (h j).1
      refine ⟨hle.trans (Nat.le_succ _), fun _ hj => ?_⟩
      have hj : (s.decoders j).window = s.windows + 1 := hj
      omega
  · have hbody : s.pc.inBody = true := by rw [hpc]; rfl
    rw [stepEmit]
    split_ifs <;> exact h.inside hbody rfl fun j => ⟨rfl, .inr (.inl rfl)⟩
  · exact h.outside ⟨rfl, rfl, rfl⟩

theorem Reachable.shifts (h : Reachable ctx s) : Shifts s :=
  h.invariant
    (fun s hs j => ⟨by rw [hs.window_eq]; exact Nat.zero_le _, fun hpc => by
      simp [hs.pc_eq, Pc.inBody] at hpc⟩)
    fun _ x hr _ h => shifts_step (Reachable.phase hr) h x

end Step

/-! ### Progress -/

/-- What an iteration of the main loop achieves: it makes an attempt, the decoder whose shift it
uses was reset in an attempt of the window, and the seek position moves forward. -/
structure Progress (ctx : Context K F G) (s : State K F G) : Prop where
  attempt : s.pc = .attempt 0 → s.temperatures[0]?.isSome
  computed : s.pc = .emit → s.best.window = s.windows ∧ (s.emitted ctx).seekDelta = s.best.seekDelta
  advances : s.pc = .advance → s.seek < (stepAdvance ctx s).seek

/-- A window moves forward if an attempt was made for it. -/
theorem shift_pos (hpc : s.pc = .advance) (hph : Phase ctx s) (hsh : Shifts s)
    (hne : s.temperatures ≠ []) : 0 < shift ctx s := by
  rw [Phase] at hph
  rw [hpc] at hph
  have hbest := (hsh s.bestDecoderId).2 (by rw [hpc]; rfl) (hph.best_eq hne)
  have hdelta : 2 ≤ s.seekDelta := hph.seekDelta_eq ▸ hbest
  have hlt := hph.lt_seekEnd
  rw [shift]
  split
  · simp only [chunk, deltaMin] at hlt ⊢
    omega
  · omega

section Step

variable [FloorRing K]

theorem outside_step (hwin : s.pc ≠ .window) (hbody : s.pc.inBody = false) (x : Input K F G) :
    Outside s (step ctx x s) := by
  have hno : ∀ {P : Prop}, s.pc.inBody = true → P := fun h => by rw [hbody] at h; cases h
  refine step_cases (fun _ _ => outside_stepCall s) (fun t _ => outside_stepSchedule t s)
    (fun site hs => ?_) (fun hs => absurd hs hwin) (fun _ hs => hno (hs ▸ rfl))
    (fun _ _ hs => hno (hs ▸ rfl)) (fun _ _ hs => hno (hs ▸ rfl)) (fun _ hs => hno (hs ▸ rfl))
    (fun hs => hno (hs ▸ rfl)) (fun hs => hno (hs ▸ rfl)) fun _ => ⟨rfl, rfl, hbody⟩
  cases site with
  | detect => exact outside_stepDecode_detect s
  | prompt | next | dtw => exact hno (hs ▸ rfl)

/-- In the body of the main loop the schedule has started, if every window was begun so. -/
theorem scheduleStarts (h : ReachableUnder ctx (ScheduleFits ctx) s) (hfits : ScheduleFits ctx s)
    (hpc : s.pc.inBody) : ScheduleStarts ctx s.params := by
  have hstart : s.pc.inBody → s.pc = .attempt 0 ∨ ScheduleStarts ctx s.params := by
    refine @Machine.ReachableUnder.invariant _ _ _ _ _ (fun s => s.pc.inBody →
      s.pc = .attempt 0 ∨ ScheduleStarts ctx s.params) _ h (fun s hs hb => ?_)
      (fun s x hr hG ih hb => ?_)
    · simp [hs.pc_eq, Pc.inBody] at hb
    · by_cases hwin : s.pc = .window
      · left
        rw [step] at hb ⊢
        simp only [hwin] at hb ⊢
        rw [stepWindow] at hb ⊢
        split at hb
        · cases hb
        split at hb
        · cases hb
        split at hb
        · cases hb
        rw [if_neg ‹_›, if_neg ‹_›, if_neg ‹_›]
      · cases hbody : s.pc.inBody with
        | false => rw [(outside_step hwin hbody x).pc_outside] at hb; cases hb
        | true =>
          right
          rw [(kept_step ctx (.inr hbody) x).params_eq]
          rcases ih hbody with h0 | hs
          · rw [ScheduleFits] at hG
            rw [h0] at hG
            exact hG
          · exact hs
  rcases hstart hpc with h0 | hs
  · rw [ScheduleFits] at hfits
    rw [h0] at hfits
    exact hfits
  · exact hs

theorem temperatures_ne_nil (h : ReachableUnder ctx (ScheduleFits ctx) s)
    (hfits : ScheduleFits ctx s) (hpc : s.pc.inBody) : s.temperatures ≠ [] :=
  fun hnil => (Reachable.schedule h.reachable).built (.inr hpc) hnil (scheduleStarts h hfits hpc)

theorem progress (h : ReachableUnder ctx (ScheduleFits ctx) s) (hfits : ScheduleFits ctx s) :
    Progress ctx s where
  attempt hpc := by
    have hne := temperatures_ne_nil h hfits (hpc ▸ rfl)
    rw [List.getElem?_eq_getElem (List.length_pos_iff.mpr hne)]
    rfl
  computed hpc := by
    have hph := Reachable.phase h.reachable
    rw [Phase] at hph
    rw [hpc] at hph
    exact ⟨hph.best_eq (temperatures_ne_nil h hfits (hpc ▸ rfl)), rfl⟩
  advances hpc := by
    have hpos := shift_pos hpc (Reachable.phase h.reachable) (Reachable.shifts h.reachable)
      (temperatures_ne_nil h hfits (hpc ▸ rfl))
    show s.seek < s.seek + shift ctx s
    omega

/-! ### Termination -/

/-- The call has ended: it returned, or the state is gone. -/
def Ended (s : State K F G) : Prop :=
  match s.pc with
  | .returned _ | .freed | .fault => True
  | _ => False

/-- What remains of a call: the stage, the additions or the audio, the attempts and the
iterations. -/
noncomputable def remaining (ctx : Context K F G) (s : State K F G) : ℕ ×ₗ ℕ ×ₗ ℕ ×ₗ ℕ :=
  let audio := (s.seekEnd - s.seek).toNat
  let attempts it := 2 * (s.temperatures.length - it)
  let iterations i := 3 * ((nMax ctx).toNat - i)
  match s.pc with
  | .decode .detect => toLex (2, toLex (0, toLex (0, 0)))
  | .schedule _ =>
    toLex (1, toLex (sInf {n | ctx.temp.lt (tempAfter ctx s.params n) ctx.temp.one = false} -
      s.temperatures.length, toLex (0, 0)))
  | .window => toLex (0, toLex (audio, toLex (attempts 0 + 3, 0)))
  | .attempt it => toLex (0, toLex (audio, toLex (attempts it + 2, 0)))
  | .decode (.prompt it) => toLex (0, toLex (audio, toLex (attempts it + 1, iterations 0 + 3)))
  | .sample it i => toLex (0, toLex (audio, toLex (attempts it + 1, iterations i + 2)))
  | .update it i => toLex (0, toLex (audio, toLex (attempts it + 1, iterations i + 1)))
  | .decode (.next it i) => toLex (0, toLex (audio, toLex (attempts it + 1, iterations i)))
  | .rank it => toLex (0, toLex (audio, toLex (attempts it + 1, 0)))
  | .emit => toLex (0, toLex (audio, toLex (1, 0)))
  | .decode .dtw => toLex (0, toLex (audio, toLex (0, 1)))
  | .advance => toLex (0, toLex (audio, toLex (0, 0)))
  | .returned _ | .freed | .fault => toLex (0, toLex (0, toLex (0, 0)))

omit [FloorRing K] in
/-- The setup of a call leads to its main loop. -/
theorem stage_setup (s : State K F G) :
    Ended (setup ctx s) ∨ (ofLex (remaining ctx (setup ctx s))).1 = 0 := by
  rw [setup]
  split
  · exact .inl trivial
  split
  · exact .inl trivial
  · exact .inr rfl

omit [FloorRing K] in
theorem stage_beginCall (s : State K F G) :
    Ended (beginCall ctx s) ∨ (ofLex (remaining ctx (beginCall ctx s))).1 < 2 := by
  rw [beginCall]
  split
  · exact .inl trivial
  split
  · exact .inr (Nat.one_lt_two)
  · exact (stage_setup _).imp_right fun h => by omega

omit [FloorRing K] in
/-- The additions that remain before the temperature leaves the range. -/
theorem remaining_stepSchedule {t : F} (hpc : s.pc = .schedule t) (hsched : Schedule ctx s)
    (hfin : ScheduleFinite ctx s.params) :
    Ended (stepSchedule ctx t s) ∨ remaining ctx (stepSchedule ctx t s) < remaining ctx s := by
  obtain ⟨ht, -, hrange⟩ := hsched.building t hpc
  rw [stepSchedule]
  split
  · rename_i hlt
    right
    have hout := Nat.sInf_mem (s := {n | ctx.temp.lt (tempAfter ctx s.params n) ctx.temp.one = false})
      hfin
    have hmore : s.temperatures.length <
        sInf {n | ctx.temp.lt (tempAfter ctx s.params n) ctx.temp.one = false} := by
      by_contra hle
      rcases Nat.lt_or_eq_of_le (not_lt.mp hle) with hk | hk
      · have := hrange _ hk
        rw [hout] at this
        cases this
      · rw [hk, Set.mem_ofPred_eq, ← ht, hlt] at hout
        cases hout
    simp only [remaining, hpc, Prod.Lex.toLex_lt_toLex, true_and, List.length_append,
      List.length_singleton]
    omega
  · refine (stage_setup s).imp_right fun hzero => Prod.Lex.lt_iff.mpr (.inl ?_)
    rw [hzero]
    simp [remaining, hpc]

theorem remaining_stepDecode {site : Site} (hpc : s.pc = .decode site) (hph : Phase ctx s)
    (x : Input K F G) :
    Ended (stepDecode ctx x site s) ∨ remaining ctx (stepDecode ctx x site s) < remaining ctx s := by
  rw [Phase] at hph
  rw [hpc] at hph
  rw [stepDecode]
  split
  swap
  · left
    cases site <;> trivial
  cases site with
  | detect =>
    show Ended (decodedDetect ctx x _) ∨ remaining ctx (decodedDetect ctx x _) < _
    rw [decodedDetect]
    simp only
    split
    · exact .inl trivial
    · refine (stage_beginCall _).imp_right fun hlt => Prod.Lex.lt_iff.mpr (.inl ?_)
      have htwo : (ofLex (remaining ctx s)).1 = 2 := by simp [remaining, hpc]
      rw [htwo]
      exact hlt
  | prompt it =>
    right
    by_cases hmax : 0 < nMax ctx <;>
      simp only [decoded, decodedPrompt, hmax, if_true, if_false, remaining, hpc, State.computed,
        Prod.Lex.toLex_lt_toLex, true_and] <;> omega
  | next it i =>
    have hlt : (i : ℤ) < nMax ctx := hph.lt_nMax
    right
    by_cases hmax : (i : ℤ) + 1 < nMax ctx <;>
      simp only [decoded, decodedNext, hmax, if_true, if_false, remaining, hpc, State.computed,
        Prod.Lex.toLex_lt_toLex, true_and] <;> omega
  | dtw =>
    right
    simp only [decoded, remaining, hpc, State.computed, Prod.Lex.toLex_lt_toLex, true_and]
    omega

/-- **Every step of a call leaves less to do.** -/
theorem remaining_step (h : ReachableUnder ctx (ScheduleFits ctx) s) (hfits : ScheduleFits ctx s)
    (hrun : ¬ Ended s) (x : Input K F G) :
    Ended (step ctx x s) ∨ remaining ctx (step ctx x s) < remaining ctx s := by
  have hph := Reachable.phase h.reachable
  have hsched := Reachable.schedule h.reachable
  rw [Phase] at hph
  rw [Ended] at hrun
  refine step_cases (P := fun s' => Ended s' ∨ remaining ctx s' < remaining ctx s)
    (fun _ hpc => ?_) (fun t hpc => ?_) (fun site hpc => ?_) (fun hpc => ?_) (fun it hpc => ?_)
    (fun it i hpc => ?_) (fun it i hpc => ?_) (fun it hpc => ?_) (fun hpc => ?_) (fun hpc => ?_)
    (fun hpc => ?_)
  · simp [hpc] at hrun
  · rw [ScheduleFits] at hfits
    rw [hpc] at hfits
    exact remaining_stepSchedule hpc hsched hfits
  · exact remaining_stepDecode hpc (Reachable.phase h.reachable) x
  · rw [stepWindow]
    split
    · exact .inl trivial
    split
    · exact .inl trivial
    split
    · exact .inl trivial
    right
    simp only [remaining, hpc, Prod.Lex.toLex_lt_toLex, true_and]
    omega
  · rw [hpc] at hph
    rw [stepAttempt]
    split
    · right
      simp only [remaining, hpc, Prod.Lex.toLex_lt_toLex, true_and]
      omega
    · split
      · exact .inl trivial
      · split
        · exact .inl trivial
        · right
          simp only [remaining, hpc, State.attempted, Prod.Lex.toLex_lt_toLex, true_and]
          omega
  · rw [stepSample]
    have hlt : ∀ s' : State K F G, s' = { s with
          pc := .update it i, decoders := s'.decoders, kvSelf := s'.kvSelf } →
        remaining ctx s' < remaining ctx s := by
      rintro s' heq
      rw [heq]
      simp only [remaining, hpc, Prod.Lex.toLex_lt_toLex, true_and]
      omega
    split
    · exact .inr (hlt _ rfl)
    · split
      · exact .inl trivial
      · exact .inr (hlt _ rfl)
  · rw [stepUpdate]
    split
    · exact .inl trivial
    · right
      split <;> simp only [remaining, hpc, State.updateAll, State.prepareNext,
        Prod.Lex.toLex_lt_toLex, true_and] <;> omega
  · rw [hpc] at hph
    have hlt := hph.it_lt
    rw [stepRank]
    right
    split <;> simp only [remaining, hpc, State.rankAll, Prod.Lex.toLex_lt_toLex, true_and] <;> omega
  · rw [stepEmit]
    split
    · exact .inl trivial
    · split
      · split
        · exact .inl trivial
        · right
          simp only [remaining, hpc, State.emitted, Prod.Lex.toLex_lt_toLex, true_and]
          omega
      · right
        simp only [remaining, hpc, State.emitted, Prod.Lex.toLex_lt_toLex, true_and]
        omega
  · have hpos := (progress h hfits).advances hpc
    rw [hpc] at hph
    have hlt := hph.lt_seekEnd
    right
    simp only [remaining, hpc, stepAdvance, Prod.Lex.toLex_lt_toLex, true_and] at hpos ⊢
    simp only [deltaMin] at hlt
    omega
  · rcases hpc with hpc | hpc <;> simp [hpc] at hrun

end Step

/-! ### Calls that the encoder callback ends -/

/-- A call at one temperature that `encoder_begin_callback` ends. -/
noncomputable def quietInput : Input ℝ ℚ Unit :=
  { calmInput { defaultParams .greedy with temperatureInc := 0 } fun _ => 0 with
    encoderBegin := false }

theorem quiet_run (n : ℕ) :
    (∃ code, (Machine.run (step (english 448 (by decide))) (fun _ => quietInput)
      (freshState (english 448 (by decide))) n).pc = .returned code) ∨
    (Machine.run (step (english 448 (by decide))) (fun _ => quietInput)
      (freshState (english 448 (by decide))) n).pc = .window := by
  induction n with
  | zero => exact .inl ⟨0, rfl⟩
  | succ n ih =>
    rw [Machine.run]
    generalize Machine.run (step (english 448 (by decide))) (fun _ => quietInput)
      (freshState (english 448 (by decide))) n = s at ih ⊢
    rw [step]
    rcases ih with ⟨code, hpc⟩ | hpc <;> simp only [hpc]
    · rw [show stepCall (english 448 (by decide)) quietInput s =
        beginCall (english 448 (by decide)) (s.called quietInput) from rfl]
      rw [beginCall]
      split
      · exact .inl ⟨0, rfl⟩
      split
      · rename_i hinc
        have hinc : ratTemperature.lt 0 0 = true := hinc
        norm_num [ratTemperature] at hinc
      · rw [setup]
        split
        · exact .inl ⟨-4, rfl⟩
        split
        · exact .inl ⟨-5, rfl⟩
        · exact .inr rfl
    · rw [stepWindow]
      split
      · exact .inl ⟨0, rfl⟩
      · exact .inl ⟨0, rfl⟩

/-- A temperature above the range of the schedule, with the default increment. -/
noncomputable def hotParams : Params ℝ ℚ Unit := { defaultParams .greedy with temperature := 2 }

/-- A call at that temperature, at the head of its main loop. -/
noncomputable def hotState : State ℝ ℚ Unit :=
  let ctx := english 448 smallTextCtx_le
  let calm := calmInput hotParams fun _ => 0
  step ctx calm (step ctx calm (freshState ctx))

theorem reachable_hotState : Reachable (english 448 (by decide)) hotState := by
  rw [hotState]
  exact (Reachable.step (.init (freshState_init _)) _).step _

/-- The call goes round its main loop without an attempt and without moving. -/
structure Stuck (s : State ℝ ℚ Unit) : Prop where
  temperatures_eq : s.temperatures = []
  best_eq : s.bestDecoderId = 0
  tokens_eq : (s.decoders 0).sequence.tokens = []
  resultLen_eq : (s.decoders 0).sequence.resultLen = 0
  decoder_eq : (s.decoders 0).seekDelta = 0
  seek_eq : s.seek = 0
  seekEnd_eq : s.seekEnd = 3000
  pc_cases : s.pc = .window ∨ s.pc = .attempt 0 ∨ s.pc = .emit ∨ s.pc = .advance ∧ s.seekDelta = 0

theorem stuck_hotState : Stuck hotState := by
  have hinc : ratTemperature.lt 0 (1 / 5) = true := by norm_num [ratTemperature]
  have hstart : ratTemperature.lt 2 ratTemperature.one = false := by norm_num [ratTemperature]
  have hcall : step (english 448 (by decide)) (calmInput hotParams fun _ => 0)
      (freshState (english 448 (by decide))) = { (freshState (english 448 (by decide))).called
        (calmInput hotParams fun _ => 0) with
          seekStart := 0, seekEnd := 3000, temperatures := [], pc := .schedule 2 } := by
    show (if ratTemperature.lt 0 (1 / 5) then _ else _ : State ℝ ℚ Unit) = _
    rw [hinc]
    rfl
  have hhot : hotState = setup (english 448 (by decide)) { (freshState (english 448
      (by decide))).called (calmInput hotParams fun _ => 0) with
        seekStart := 0, seekEnd := 3000, temperatures := [], pc := .schedule 2 } := by
    rw [hotState]
    simp only
    rw [hcall]
    show (if ratTemperature.lt 2 ratTemperature.one then _ else _ : State ℝ ℚ Unit) = _
    rw [hstart]
    rfl
  rw [hhot]
  exact ⟨rfl, rfl, rfl, rfl, rfl, rfl, rfl, .inl rfl⟩

theorem Stuck.step {s : State ℝ ℚ Unit} (h : Stuck s) :
    Stuck (step (english 448 (by decide)) (calmInput hotParams fun _ => 0) s) := by
  obtain ⟨htemp, hbest, htokens, hlen, hdelta, hseek, hend, hpc⟩ := h
  have hbest' : s.best = s.decoders 0 := by rw [State.best, hbest]
  rw [Full.step]
  rcases hpc with hpc | hpc | hpc | ⟨hpc, hsd⟩ <;> simp only [hpc]
  · have hmore : ¬ s.seekEnd ≤ s.seek + deltaMin := by
      rw [hseek, hend]
      decide
    rw [stepWindow]
    rw [if_neg hmore, if_neg (by rintro ⟨⟩), if_neg (by rintro ⟨⟩)]
    exact ⟨htemp, rfl, htokens, hlen, hdelta, hseek, hend, .inr (.inl rfl)⟩
  · rw [stepAttempt]
    rw [htemp]
    exact ⟨rfl, hbest, htokens, hlen, hdelta, hseek, hend, .inr (.inr (.inl rfl))⟩
  · rw [stepEmit]
    rw [hbest', hlen, if_neg (Nat.not_lt_zero _), if_neg (by rintro ⟨⟩)]
    exact ⟨htemp, hbest, htokens, hlen, hdelta, hseek, hend,
      .inr (.inr (.inr ⟨rfl, (congrArg Decoder.seekDelta hbest').trans hdelta⟩))⟩
  · have hshift : shift (english 448 (by decide)) s = 0 := by
      unfold shift singleTimestampEnding
      rw [hbest', htokens]
      exact hsd
    rw [stepAdvance]
    rw [hshift]
    exact ⟨htemp, hbest, htokens, hlen, hdelta, by rw [hseek]; rfl, hend, .inl rfl⟩

end Full

end WhisperCpp
