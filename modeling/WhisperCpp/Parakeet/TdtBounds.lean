import WhisperCpp.Parakeet.Tdt

/-!
# How much a window emits

A token with duration zero leaves the decoder at its frame. `symbols_this_step` counts the tokens
that were emitted there, also over the end of a window, and at `max_symbols_per_step` the decoder
moves on by one frame; as it counts after the emission, one token is emitted at a frame also where
the limit is zero or less. On the graph path a step may fail, and the window ends there.

## Main definitions

* `GraphFailures`, `tdtDecodeWindowFailing` — `tdt_decode_window` with the steps that fail

## Main results

* `tdtDecodeWindowFailing_of_ok` — without failures, this is the decoder
* `tdtDecodeWindow_bounds` — the passes of a window and the tokens of a frame are bounded
-/

namespace WhisperCpp

namespace Parakeet

open FrameWalk

/-- Which graphs fail: the projection of the frames, the step of a pass, and the last update. -/
structure GraphFailures where
  encProj : Bool
  jointStep : ℕ → Bool
  lstmStep : Bool

section Model

variable {F E σ π : Type*} (m : TdtModel F E σ π) (opts : TdtDecodeOptions)

/-- The loop on the graph path, and the update behind it. -/
def decodeOnGraphs (fails : GraphFailures) (encProjPersist : List E) (t : ℕ)
    (start : TdtDecodeState σ π) : TdtWindow σ π :=
  let w := (graphBody m opts).walkUntil fails.jointStep encProjPersist 0 t (start, none)
  if w.1 then ⟨if w.2.state.2.isSome then 7 else 8, w.2.outs, w.2.steps, w.2.state.1⟩
  else if w.2.state.2.isSome && fails.lstmStep then ⟨9, w.2.outs, w.2.steps, w.2.state.1⟩
  else
    ⟨0, w.2.outs, w.2.steps,
      { flush m w.2.state with carryFrames := w.2.pos - encProjPersist.length }⟩

/-- `tdt_decode_window`, on the graph path with the failures of its steps. -/
def tdtDecodeWindowFailing (fails : GraphFailures) (encoderOutWindow : List F) (dEnc : ℕ)
    (state : TdtDecodeState σ π) : TdtWindow σ π :=
  let nFrames := encoderOutWindow.length
  if dEnc ≠ m.dEnc then ⟨1, [], 0, state⟩
  else if nFrames = 0 then ⟨0, [], 0, state⟩
  else
    let state := if state.initialized then state else tdtInitState m
    let t := min state.carryFrames nFrames
    let start := { state with carryFrames := state.carryFrames - t }
    if m.useGraphs then
      if fails.encProj then ⟨6, [], 0, state⟩
      else
        match runEncProj m encoderOutWindow with
        | none => ⟨6, [], 0, state⟩
        | some encProjPersist => decodeOnGraphs m opts fails encProjPersist t start
    else
      let w := (hostBody m opts).walk encoderOutWindow t start
      ⟨0, w.outs, w.steps, { w.state with carryFrames := w.pos - nFrames }⟩

theorem length_runEncProj {frames : List F} {encs : List E} (h : runEncProj m frames = some encs) :
    encs.length = frames.length := by
  rw [runEncProj] at h
  split_ifs at h
  rw [← Option.some.inj h, List.length_map]

/-- Without failures, this is the decoder. -/
theorem tdtDecodeWindowFailing_of_ok {fails : GraphFailures} (henc : fails.encProj = false)
    (hjoint : ∀ k, fails.jointStep k = false) (hlstm : fails.lstmStep = false) (frames : List F)
    (dEnc : ℕ) (s : TdtDecodeState σ π) :
    tdtDecodeWindowFailing m opts fails frames dEnc s = tdtDecodeWindow m opts frames dEnc s := by
  rw [tdtDecodeWindowFailing, tdtDecodeWindow]
  simp only [henc, Bool.false_eq_true, if_false]
  cases hproj : runEncProj m frames with
  | none => rfl
  | some encs =>
    simp only [decodeOnGraphs, Body.walkUntil_of_not_fails hjoint, hlstm, Bool.and_false,
      Bool.false_eq_true, if_false, length_runEncProj m hproj]

/-! ### The measure of a frame -/

/-- How many tokens are emitted at a frame at most. -/
def TdtDecodeOptions.symbolLimit : ℕ := (max 1 opts.maxSymbolsPerStep).toNat

/-- The symbols up to the limit bound the passes at a frame. -/
theorem hostBody_bounded :
    (hostBody m opts).Bounded
      (fun s => (opts.maxSymbolsPerStep - s.symbolsThisStep).toNat) opts.symbolLimit where
  length_le f s := by
    show (hostStep m opts f s).1.length ≤ 1
    rw [hostStep]
    dsimp only
    split_ifs <;> simp
  lt_of_stay f s h := (hostBody m opts).left_lt f s h
  pos_of_stay f s h := by
    change (hostStep m opts f s).2.1 = 0 at h
    show 0 < (opts.maxSymbolsPerStep - (hostStep m opts f s).2.2.symbolsThisStep).toNat
    rw [hostStep] at h ⊢
    dsimp only [TdtDecodeState.feed] at h ⊢
    split_ifs at h ⊢ with hblank hmove
    · exact absurd h advance_ne_zero
    · exact absurd h advance_ne_zero
    · push Not at hmove
      simp only
      omega
  le_limit s := by
    rw [TdtDecodeOptions.symbolLimit]
    omega
  pos_limit := by
    rw [TdtDecodeOptions.symbolLimit]
    omega

/-- Likewise with a pending token. -/
theorem graphBody_bounded :
    (graphBody m opts).Bounded
      (fun g => (opts.maxSymbolsPerStep - g.1.symbolsThisStep).toNat) opts.symbolLimit where
  length_le e g := by
    show (graphStep m opts e g).1.length ≤ 1
    rw [graphStep]
    dsimp only
    split_ifs <;> simp
  lt_of_stay e g h := (graphBody m opts).left_lt e g h
  pos_of_stay e g h := by
    change (graphStep m opts e g).2.1 = 0 at h
    show 0 < (opts.maxSymbolsPerStep - (graphStep m opts e g).2.2.1.symbolsThisStep).toNat
    rw [graphStep] at h ⊢
    dsimp only at h ⊢
    split_ifs at h ⊢ with hblank hmove
    · exact absurd h advance_ne_zero
    · exact absurd h advance_ne_zero
    · push Not at hmove
      simp only
      omega
  le_limit g := by
    rw [TdtDecodeOptions.symbolLimit]
    omega
  pos_limit := by
    rw [TdtDecodeOptions.symbolLimit]
    omega

/-! ### A window -/

/-- What a window takes and emits is bounded by its frames. -/
structure TdtWindow.Within (w : TdtWindow σ π) (nFrames limit : ℕ) : Prop where
  outSteps_le : w.outSteps ≤ nFrames * limit
  length_le : w.outTokens.length ≤ nFrames * limit
  length_at_le : ∀ t, (w.outTokens.filter (·.1 = t)).length ≤ limit

theorem within_nil (status : ℕ) (s : TdtDecodeState σ π) (nFrames limit : ℕ) :
    TdtWindow.Within ⟨status, [], 0, s⟩ nFrames limit :=
  ⟨Nat.zero_le _, Nat.zero_le _, fun _ => Nat.zero_le _⟩

/-- What a walk emits is bounded. -/
theorem within_walkUntil {F' S : Type*} {B : Body F' S ℕ} {measure : S → ℕ} {limit : ℕ}
    (hB : B.Bounded measure limit) (fails : ℕ → Bool) (frames : List F') (t : ℕ) (s : S) (status : ℕ)
    (s' : TdtDecodeState σ π) :
    let w := (B.walkUntil fails frames 0 t s).2
    TdtWindow.Within ⟨status, w.outs, w.steps, s'⟩ frames.length limit := by
  have hsteps : (B.walkUntil fails frames 0 t s).2.steps ≤ frames.length * limit :=
    hB.steps_le.trans (Nat.mul_le_mul_right _ (Nat.sub_le _ _))
  refine ⟨hsteps, hB.length_outs_le.trans hsteps, fun n => (hB.length_outs_at_le n).trans ?_⟩
  have hlim : max 1 (measure s) ≤ limit := max_le hB.pos_limit (hB.le_limit s)
  split_ifs
  · exact hlim
  · exact le_rfl

theorem within_walk {F' S : Type*} {B : Body F' S ℕ} {measure : S → ℕ} {limit : ℕ}
    (hB : B.Bounded measure limit) (frames : List F') (t : ℕ) (s : S) (status : ℕ)
    (s' : TdtDecodeState σ π) :
    TdtWindow.Within ⟨status, (B.walk frames t s).outs, (B.walk frames t s).steps, s'⟩ frames.length
      limit := by
  have hwalk := within_walkUntil hB (fun _ => false) frames t s status s'
  rwa [Body.walkUntil_of_not_fails (fun _ => rfl)] at hwalk

theorem within_decodeOnGraphs (fails : GraphFailures) (encs : List E) (t : ℕ)
    (start : TdtDecodeState σ π) :
    (decodeOnGraphs m opts fails encs t start).Within encs.length opts.symbolLimit := by
  rw [decodeOnGraphs]
  dsimp only
  split_ifs <;> exact within_walkUntil (graphBody_bounded m opts) _ _ _ _ _ _

/-- **A window takes no more passes than its frames times the limit, and no more tokens are emitted
at a frame than the limit**; the limit is `max_symbols_per_step`, or one if that is less. -/
theorem tdtDecodeWindow_bounds (fails : GraphFailures) (frames : List F) (dEnc : ℕ)
    (s : TdtDecodeState σ π) :
    (tdtDecodeWindowFailing m opts fails frames dEnc s).Within frames.length opts.symbolLimit := by
  rw [tdtDecodeWindowFailing]
  dsimp only
  generalize (if s.initialized then s else tdtInitState m) = s₀
  split_ifs with hdim hzero hgraphs henc
  · exact within_nil _ _ _ _
  · exact within_nil _ _ _ _
  · exact within_nil _ _ _ _
  · cases hproj : runEncProj m frames with
    | none => exact within_nil _ _ _ _
    | some encs =>
      rw [← length_runEncProj m hproj]
      exact within_decodeOnGraphs m opts fails encs _ _
  · exact within_walk (hostBody_bounded m opts) _ _ _ _ _

end Model

/-- A decoder that always finds token 1, with duration 0. -/
def insistent : TdtModel Unit Unit Unit Unit where
  dEnc := 1
  blankId := 0
  tdtDurations := [0]
  useGraphs := false
  encProj := id
  joint _ _ := (1, 0)
  zero := ()
  lstmStep _ _ := ()
  lastLayer := id

/-- **With a limit of zero, a symbol is emitted at a frame before the decoder moves on.** -/
theorem not_forall_le_maxSymbolsPerStep :
    ¬ ∀ t, (((tdtDecodeWindowFailing insistent ⟨0⟩ ⟨false, fun _ => false, false⟩ [()] 1
      (tdtInitState insistent)).outTokens.filter (·.1 = t)).length : ℤ) ≤
        (⟨0⟩ : TdtDecodeOptions).maxSymbolsPerStep := by
  have hrest (s : TdtDecodeState Unit Unit) :
      (hostBody insistent ⟨0⟩).walk [()] 1 s = ⟨[], 1, s, 0⟩ :=
    (hostBody insistent ⟨0⟩).walk_of_le le_rfl
  have hwalk : ((hostBody insistent ⟨0⟩).walk [()] 0 (tdtInitState insistent)).outs = [(0, 1)] := by
    rw [(hostBody insistent ⟨0⟩).walk_of_lt Nat.one_pos]
    exact congrArg (fun w => (w.push 0 [1]).outs) (hrest _)
  intro h
  have hzero : ((((hostBody insistent ⟨0⟩).walk [()] 0 (tdtInitState insistent)).outs.filter
    (·.1 = 0)).length : ℤ) ≤ 0 := h 0
  rw [hwalk] at hzero
  exact absurd hzero (by decide)

end Parakeet

end WhisperCpp
