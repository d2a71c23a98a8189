import WhisperCpp.Full.Phases

/-!
# What a step leaves unchanged

Only a call and the output of a window change the segments, and only the end of the main loop's body
moves the window.

## Main definitions

* `Pc.Startup`, `Pc.BeforeOutput` — the locations before the main loop, and in its body before the output
* `SameWindow` — the window, the parameters and the segments are the same

## Main results

* `stepStartup_spec`, `stepBeforeOutput_spec`
-/

namespace WhisperCpp

namespace Full

/-- The locations before the main loop. -/
inductive Pc.Startup {F : Type*} : Pc F → Prop
  | returned (code : ℤ) : Startup (.returned code)
  | schedule (t : F) : Startup (.schedule t)
  | detect : Startup (.decode .detect)

/-- The locations from the head of the main loop to the output of the window. -/
inductive Pc.BeforeOutput {F : Type*} : Pc F → Prop
  | window : BeforeOutput .window
  | attempt (it : ℕ) : BeforeOutput (.attempt it)
  | prompt (it : ℕ) : BeforeOutput (.decode (.prompt it))
  | next (it i : ℕ) : BeforeOutput (.decode (.next it i))
  | sample (it i : ℕ) : BeforeOutput (.sample it i)
  | update (it i : ℕ) : BeforeOutput (.update it i)
  | rank (it : ℕ) : BeforeOutput (.rank it)

/-- The locations where nothing happens any more. -/
inductive Pc.Stopped {F : Type*} : Pc F → Prop
  | returned (code : ℤ) : Stopped (.returned code)
  | freed : Stopped .freed
  | fault : Stopped .fault

/-- The locations. -/
theorem Pc.location_cases {F : Type*} (pc : Pc F) : pc.Startup ∨ pc.BeforeOutput ∨ pc = .emit ∨
    pc = .decode .dtw ∨ pc = .advance ∨ pc = .freed ∨ pc = .fault := by
  cases pc with
  | returned code => exact .inl (.returned code)
  | schedule t => exact .inl (.schedule t)
  | decode site =>
    cases site with
    | detect => exact .inl .detect
    | prompt it => exact .inr (.inl (.prompt it))
    | next it i => exact .inr (.inl (.next it i))
    | dtw => simp
  | window => exact .inr (.inl .window)
  | attempt it => exact .inr (.inl (.attempt it))
  | sample it i => exact .inr (.inl (.sample it i))
  | update it i => exact .inr (.inl (.update it i))
  | rank it => exact .inr (.inl (.rank it))
  | emit | advance | freed | fault => simp

variable {K F G : Type*}

/-- The window, the parameters and the segments are the same. -/
structure SameWindow (s s' : State K F G) : Prop where
  params_eq : s'.params = s.params
  seek_eq : s'.seek = s.seek
  seekStart_eq : s'.seekStart = s.seekStart
  seekEnd_eq : s'.seekEnd = s.seekEnd
  resultAll_eq : s'.resultAll = s.resultAll

theorem SameWindow.refl (s : State K F G) : SameWindow s s := ⟨rfl, rfl, rfl, rfl, rfl⟩

variable [Field K] [LinearOrder K] {ctx : Context K F G} {s : State K F G}
  {x : Input K F G}

/-- What a step before the main loop leads to. -/
structure Started (s s' : State K F G) : Prop where
  pc_cases : s'.pc.Startup ∨ (s'.pc = .window ∧ s'.seek = s'.seekStart)
  resultAll_eq : s'.resultAll = s.resultAll

theorem started_setup (ctx : Context K F G) (s : State K F G) : Started s (setup ctx s) := by
  rw [setup]
  split
  · exact ⟨.inl (.returned _), rfl⟩
  · split
    · exact ⟨.inl (.returned _), rfl⟩
    · exact ⟨.inr ⟨rfl, rfl⟩, rfl⟩

theorem started_beginCall (ctx : Context K F G) (s : State K F G) :
    Started s (beginCall ctx s) := by
  rw [beginCall]
  split
  · exact ⟨.inl (.returned _), rfl⟩
  · split
    · exact ⟨.inl (.schedule _), rfl⟩
    · obtain ⟨hpc, hresult⟩ := started_setup ctx
        { s.ranged with temperatures := [s.params.temperature] }
      exact ⟨hpc, hresult⟩

theorem started_stepSchedule (ctx : Context K F G) (t : F) (s : State K F G) :
    Started s (stepSchedule ctx t s) := by
  rw [stepSchedule]
  split
  · exact ⟨.inl (.schedule _), rfl⟩
  · exact started_setup ctx s

theorem started_stepCall (ctx : Context K F G) (x : Input K F G) (s : State K F G) :
    Started (s.called x) (stepCall ctx x s) := by
  rw [stepCall]
  split
  · exact ⟨.inl (.returned _), rfl⟩
  · split
    · split
      · exact ⟨.inl (.returned _), rfl⟩
      · exact ⟨.inl .detect, rfl⟩
    · exact started_beginCall ctx _

variable [FloorRing K]

theorem started_stepDetect (ctx : Context K F G) (x : Input K F G) (s : State K F G) :
    Started s (stepDecode ctx x .detect s) := by
  rw [stepDecode]
  split
  · show Started s (decodedDetect ctx x (s.computed ctx x))
    rw [decodedDetect]
    simp only
    split
    · exact ⟨.inl (.returned _), rfl⟩
    · obtain ⟨hpc, hresult⟩ := started_beginCall ctx { s.computed ctx x with
        langId := detectLang ctx x (s.computed ctx x)
        params := { (s.computed ctx x).params with
          language := some (detectLang ctx x (s.computed ctx x)) } }
      exact ⟨hpc, hresult⟩
  · exact ⟨.inl (.returned _), rfl⟩

/-- **Before the main loop** a step stays there or gets to the main loop. A call removes the
segments, and no other step changes them. -/
theorem stepStartup_spec (ctx : Context K F G) (x : Input K F G) (hpc : s.pc.Startup) :
    ((step ctx x s).pc.Startup ∨
      ((step ctx x s).pc = .window ∧ (step ctx x s).seek = (step ctx x s).seekStart)) ∧
      ((step ctx x s).resultAll = [] ∨
        ((∀ code, s.pc ≠ .returned code) ∧ (step ctx x s).resultAll = s.resultAll)) := by
  rw [step]
  cases hpc' : s.pc with
  | returned code =>
    obtain ⟨h1, h2⟩ := started_stepCall ctx x s
    exact ⟨h1, .inl h2⟩
  | schedule t =>
    obtain ⟨h1, h2⟩ := started_stepSchedule ctx t s
    exact ⟨h1, .inr ⟨(by rintro _ ⟨⟩), h2⟩⟩
  | decode site =>
    rw [hpc'] at hpc
    cases hpc
    obtain ⟨h1, h2⟩ := started_stepDetect ctx x s
    exact ⟨h1, .inr ⟨(by rintro _ ⟨⟩), h2⟩⟩
  | _ => rw [hpc'] at hpc; cases hpc

/-- **In the body of the main loop**, up to the output, a step leaves the window and the segments as
they are, and stays there or stops. -/
theorem stepBeforeOutput_spec (ctx : Context K F G) (x : Input K F G) (hpc : s.pc.BeforeOutput) :
    SameWindow s (step ctx x s) ∧
      ((step ctx x s).pc.BeforeOutput ∨ (step ctx x s).pc = .emit ∨ (step ctx x s).pc.Stopped) := by
  rw [step]
  cases hpc' : s.pc with
  | window =>
    simp only [stepWindow]
    split
    · exact ⟨⟨rfl, rfl, rfl, rfl, rfl⟩, .inr (.inr (.returned _))⟩
    · split
      · exact ⟨⟨rfl, rfl, rfl, rfl, rfl⟩, .inr (.inr (.returned _))⟩
      · split
        · exact ⟨⟨rfl, rfl, rfl, rfl, rfl⟩, .inr (.inr (.returned _))⟩
        · exact ⟨⟨rfl, rfl, rfl, rfl, rfl⟩, .inl (.attempt _)⟩
  | attempt it =>
    simp only [stepAttempt]
    split
    · exact ⟨⟨rfl, rfl, rfl, rfl, rfl⟩, .inr (.inl rfl)⟩
    · split
      · exact ⟨⟨rfl, rfl, rfl, rfl, rfl⟩, .inr (.inr .fault)⟩
      · split
        · exact ⟨⟨rfl, rfl, rfl, rfl, rfl⟩, .inr (.inr .freed)⟩
        · exact ⟨⟨rfl, rfl, rfl, rfl, rfl⟩, .inl (.prompt _)⟩
  | decode site =>
    rw [hpc'] at hpc
    simp only [stepDecode]
    cases hpc with
    | prompt it =>
      split
      · refine ⟨⟨rfl, rfl, rfl, rfl, rfl⟩, .inl ?_⟩
        show (if 0 < nMax ctx then Pc.sample it 0 else Pc.rank it).BeforeOutput
        split
        · exact .sample _ _
        · exact .rank _
      · exact ⟨⟨rfl, rfl, rfl, rfl, rfl⟩, .inr (.inr (.returned _))⟩
    | next it i =>
      split
      · refine ⟨⟨rfl, rfl, rfl, rfl, rfl⟩, .inl ?_⟩
        show (if (i : ℤ) + 1 < nMax ctx then Pc.sample it (i + 1) else Pc.rank it).BeforeOutput
        split
        · exact .sample _ _
        · exact .rank _
      · exact ⟨⟨rfl, rfl, rfl, rfl, rfl⟩, .inr (.inr (.returned _))⟩
  | sample it i =>
    simp only [stepSample]
    split
    · exact ⟨⟨rfl, rfl, rfl, rfl, rfl⟩, .inl (.update _ _)⟩
    · split
      · exact ⟨⟨rfl, rfl, rfl, rfl, rfl⟩, .inr (.inr .fault)⟩
      · exact ⟨⟨rfl, rfl, rfl, rfl, rfl⟩, .inl (.update _ _)⟩
  | update it i =>
    simp only [stepUpdate]
    split
    · exact ⟨⟨rfl, rfl, rfl, rfl, rfl⟩, .inr (.inr .fault)⟩
    · split
      · exact ⟨⟨rfl, rfl, rfl, rfl, rfl⟩, .inl (.rank _)⟩
      · exact ⟨⟨rfl, rfl, rfl, rfl, rfl⟩, .inl (.next _ _)⟩
  | rank it =>
    simp only [stepRank]
    split
    · exact ⟨⟨rfl, rfl, rfl, rfl, rfl⟩, .inl (.attempt _)⟩
    · exact ⟨⟨rfl, rfl, rfl, rfl, rfl⟩, .inr (.inl rfl)⟩
  | _ => rw [hpc'] at hpc; cases hpc

end Full

end WhisperCpp
