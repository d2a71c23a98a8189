import Mathlib.Data.List.Chain
import WhisperCpp.Library.Pieces

/-!
# The end-of-utterance decoder

`eou_decode_window` takes up to a number of tokens from each encoder frame. An end-of-utterance
token is not emitted: it resets the prediction LSTM, and it closes a segment if tokens were emitted
since the last one. All that a window needs of the windows in front of it is in `EouDecodeState`.

## Main definitions

* `EouModel`, `EouDecodeState` — the networks, and the state between windows
* `eouDecodeWindow` — the function
* `eouStream` — a stream of windows, with tokens and boundaries at their place in the stream

## Main results

* `eouStream_eq` — the windows of a stream do not show, every segment has a token, and no frame has
  more tokens than its limit
-/

namespace WhisperCpp

namespace Parakeet

open Pieces

/-- What `ParakeetCtcModel` and `EouRuntimeWeights` give the decoder: encoder frames `F`, the LSTM's
`h` and `c` together as `σ`, and its output `π`. -/
structure EouModel (F σ π : Type*) where
  dEnc : ℕ
  blankId : ℕ
  eouId : ℤ
  eobId : ℤ
  pieces : List (List Char)
  /-- The best token of the joint network. -/
  joint : F → π → ℕ
  /-- `h` and `c` filled with zeros. -/
  zero : σ
  /-- One LSTM step on the embedding of a token. -/
  lstmStep : ℕ → σ → σ
  /-- The last layer's `h`. -/
  lastLayer : σ → π

/-- `EouDecodeOptions`. -/
structure EouDecodeOptions where
  maxSymbolsPerStep : ℤ

/-- `max_syms`. -/
def EouDecodeOptions.maxSyms (opts : EouDecodeOptions) : ℕ := (max 1 opts.maxSymbolsPerStep).toNat

/-- `EouDecodeState`. -/
@[ext] structure EouDecodeState (σ π : Type*) where
  lstm : σ
  predOut : π
  lastToken : ℤ
  symbolsThisStep : ℕ
  initialized : Bool
  hasEmittedTokenSinceLastEou : Bool

/-- `EouSegmentBoundary`. -/
@[ext] structure EouSegmentBoundary where
  tokenIndex : ℕ
  isEouFlush : Bool
  deriving DecidableEq, Repr

/-- `out_tokens` and `out_segments`, each entry with the frame it was appended at. -/
@[ext] structure EouOut where
  tokens : List (ℕ × ℕ)
  segments : List (ℕ × EouSegmentBoundary)
  deriving DecidableEq, Repr

/-- What the loops of `eou_decode_window` change. -/
@[ext] structure EouRun (σ π : Type*) where
  state : EouDecodeState σ π
  out : EouOut
  outSteps : ℕ

section Model

variable {F σ π : Type*} (m : EouModel F σ π)

/-- The LSTM reset to zeros and primed with the blank token. -/
def EouDecodeState.reset (s : EouDecodeState σ π) : EouDecodeState σ π :=
  { s with
    lstm := m.lstmStep m.blankId m.zero
    predOut := m.lastLayer (m.lstmStep m.blankId m.zero) }

/-- `eou_init_state`. -/
def eouInitState : EouDecodeState σ π where
  lstm := m.lstmStep m.blankId m.zero
  predOut := m.lastLayer (m.lstmStep m.blankId m.zero)
  lastToken := -1
  symbolsThisStep := 0
  initialized := true
  hasEmittedTokenSinceLastEou := false

/-- Whether a vocabulary piece is wrapped in angle brackets. -/
def EouModel.isSpecial (best : ℕ) : Bool :=
  match m.pieces[best]? with
  | some piece => piece.head? = some '<' && piece.getLast? = some '>'
  | none => false

/-- `++out_steps`. -/
def EouRun.countStep (r : EouRun σ π) : EouRun σ π := { r with outSteps := r.outSteps + 1 }

/-- `state.symbols_this_step = 0`. -/
def EouRun.startFrame (r : EouRun σ π) : EouRun σ π :=
  { r with state := { r.state with symbolsThisStep := 0 } }

/-- The branch of `<EOU>`. -/
def EouRun.flushSegment (r : EouRun σ π) (t : ℕ) : EouRun σ π :=
  let out : EouOut :=
    if r.state.hasEmittedTokenSinceLastEou then
      { r.out with segments := r.out.segments ++ [(t, ⟨r.out.tokens.length, true⟩)] }
    else r.out
  { r with
    state := { r.state.reset m with lastToken := m.blankId, hasEmittedTokenSinceLastEou := false }
    out := out }

/-- The branch of a token that is emitted. -/
def EouRun.emit (r : EouRun σ π) (t best : ℕ) : EouRun σ π :=
  { r with
    state :=
      { r.state with
        lstm := m.lstmStep best r.state.lstm
        predOut := m.lastLayer (m.lstmStep best r.state.lstm)
        lastToken := best
        symbolsThisStep := r.state.symbolsThisStep + 1
        hasEmittedTokenSinceLastEou := true }
    out := { r.out with tokens := r.out.tokens ++ [(t, best)] } }

/-- `while (state.symbols_this_step < max_syms)`. -/
def symbolLoop (maxSyms : ℕ) (encFrame : F) (t : ℕ) (r : EouRun σ π) : EouRun σ π :=
  if r.state.symbolsThisStep < maxSyms then
    let best := m.joint encFrame r.state.predOut
    let r' := r.countStep
    if best = m.blankId then r'
    else if (best : ℤ) = m.eobId then r'
    else if (best : ℤ) = m.eouId then r'.flushSegment m t
    else if m.isSpecial best then r'
    else symbolLoop maxSyms encFrame t (r'.emit m t best)
  else r
termination_by maxSyms - r.state.symbolsThisStep
decreasing_by
  simp only [EouRun.emit, EouRun.countStep]
  omega

/-- The loop over the frames of a window, from frame `t` on. -/
def frameLoop (maxSyms : ℕ) : ℕ → List F → EouRun σ π → EouRun σ π
  | _, [], r => r
  | t, encFrame :: frames, r =>
    frameLoop maxSyms (t + 1) frames (symbolLoop m maxSyms encFrame t r.startFrame)

/-- `eou_decode_window`, which appends to `out_tokens` and `out_segments`. -/
def eouDecodeWindow (opts : EouDecodeOptions) (encoderOutWindow : List F) (dEnc : ℕ)
    (state : EouDecodeState σ π) (out : EouOut) (outSteps : ℕ) : ℕ × EouRun σ π :=
  if dEnc ≠ m.dEnc then (1, ⟨state, out, outSteps⟩)
  else
    let state := if state.initialized then state else eouInitState m
    (0, frameLoop m opts.maxSyms 0 encoderOutWindow ⟨state, out, 0⟩)

/-- `b` behind `a`, as seen from `t` frames earlier. -/
def EouOut.append (t : ℕ) (a b : EouOut) : EouOut where
  tokens := a.tokens ++ b.tokens.map fun o => (o.1 + t, o.2)
  segments := a.segments ++ b.segments.map fun o =>
    (o.1 + t, { o.2 with tokenIndex := o.2.tokenIndex + a.tokens.length })

/-- A window of a stream, decoded into vectors of its own: `s` is the state, the number of frames
in front of the window and the outputs so far. -/
def eouStream (opts : EouDecodeOptions) (dEnc : ℕ) (s : EouDecodeState σ π × ℕ × EouOut)
    (window : List F) : EouDecodeState σ π × ℕ × EouOut :=
  let w := (eouDecodeWindow m opts window dEnc s.1 ⟨[], []⟩ 0).2
  (w.state, s.2.1 + window.length, s.2.2.append s.2.1 w.out)

/-! ### Windows do not show -/

variable {m} {maxSyms : ℕ}

theorem EouOut.append_nil {t : ℕ} {a : EouOut} : a.append t ⟨[], []⟩ = a := by
  simp [EouOut.append]

theorem EouOut.nil_append {a : EouOut} : (⟨[], []⟩ : EouOut).append 0 a = a := by
  simp [EouOut.append]

theorem EouOut.append_assoc {t u : ℕ} {a b c : EouOut} :
    a.append t (b.append u c) = (a.append t b).append (t + u) c := by
  simp [EouOut.append, Nat.add_comm, Nat.add_left_comm]

/-- A run seen from `t` frames earlier, behind other outputs. -/
def EouRun.behind (t : ℕ) (a : EouOut) (n : ℕ) (r : EouRun σ π) : EouRun σ π :=
  ⟨r.state, a.append t r.out, r.outSteps + n⟩

theorem behind_countStep {t n : ℕ} {a : EouOut} {r : EouRun σ π} :
    (r.behind t a n).countStep = r.countStep.behind t a n := by
  simp [EouRun.countStep, EouRun.behind, Nat.add_right_comm]

theorem behind_flushSegment {t u n : ℕ} {a : EouOut} {r : EouRun σ π} :
    (r.behind t a n).flushSegment m (u + t) = (r.flushSegment m u).behind t a n := by
  by_cases h : r.state.hasEmittedTokenSinceLastEou <;>
    simp [EouRun.flushSegment, EouRun.behind, EouOut.append, h, Nat.add_comm]

theorem behind_emit {t u n best : ℕ} {a : EouOut} {r : EouRun σ π} :
    (r.behind t a n).emit m (u + t) best = (r.emit m u best).behind t a n := by
  simp [EouRun.emit, EouRun.behind, EouOut.append]

theorem symbolLoop_behind {t u n : ℕ} {a : EouOut} {encFrame : F} {r : EouRun σ π} :
    symbolLoop m maxSyms encFrame (u + t) (r.behind t a n) =
      (symbolLoop m maxSyms encFrame u r).behind t a n := by
  have hstate : ∀ r : EouRun σ π, (r.behind t a n).state = r.state := fun _ => rfl
  fun_induction symbolLoop m maxSyms encFrame u r with
  | case1 r hlt best r' hblank =>
    rw [symbolLoop, hstate, if_pos hlt, if_pos hblank, behind_countStep]
  | case2 r hlt best r' hblank heob =>
    rw [symbolLoop, hstate, if_pos hlt, if_neg hblank, if_pos heob, behind_countStep]
  | case3 r hlt best r' hblank heob heou =>
    rw [symbolLoop, hstate, if_pos hlt, if_neg hblank, if_neg heob, if_pos heou, behind_countStep,
      behind_flushSegment]
  | case4 r hlt best r' hblank heob heou hspecial =>
    rw [symbolLoop, hstate, if_pos hlt, if_neg hblank, if_neg heob, if_neg heou, if_pos hspecial,
      behind_countStep]
  | case5 r hlt best r' hblank heob heou hspecial ih =>
    rw [symbolLoop, hstate, if_pos hlt, if_neg hblank, if_neg heob, if_neg heou, if_neg hspecial,
      behind_countStep, behind_emit, ih]
  | case6 r hlt =>
    rw [symbolLoop, hstate, if_neg hlt]

theorem frameLoop_behind {t u n : ℕ} {a : EouOut} {frames : List F} {r : EouRun σ π} :
    frameLoop m maxSyms (u + t) frames (r.behind t a n) =
      (frameLoop m maxSyms u frames r).behind t a n := by
  induction frames generalizing u r with
  | nil => rfl
  | cons encFrame frames ih =>
    have hstart : (r.behind t a n).startFrame = r.startFrame.behind t a n := rfl
    rw [frameLoop, frameLoop, hstart, symbolLoop_behind, Nat.add_right_comm, ih]

theorem frameLoop_append {t : ℕ} {a b : List F} {r : EouRun σ π} :
    frameLoop m maxSyms t (a ++ b) r =
      frameLoop m maxSyms (t + a.length) b (frameLoop m maxSyms t a r) := by
  induction a generalizing t r with
  | nil => rfl
  | cons encFrame a ih =>
    rw [List.cons_append, frameLoop, frameLoop, ih, List.length_cons, Nat.add_assoc, Nat.add_comm 1]

/-- What the loop over the symbols of a frame preserves: a step is counted, a segment closed or a
token emitted. -/
theorem symbolLoop_induct {P : EouRun σ π → Prop} {encFrame : F} {t : ℕ} {r : EouRun σ π}
    (hstep : ∀ r, P r → P r.countStep)
    (hflush : ∀ r, P r → P (r.flushSegment m t))
    (hemit : ∀ r best, r.state.symbolsThisStep < maxSyms → P r → P (r.emit m t best)) (h : P r) :
    P (symbolLoop m maxSyms encFrame t r) := by
  fun_induction symbolLoop m maxSyms encFrame t r with
  | case1 r hlt best r' hblank => exact hstep r h
  | case2 r hlt best r' hblank heob => exact hstep r h
  | case3 r hlt best r' hblank heob heou => exact hflush r' (hstep r h)
  | case4 r hlt best r' hblank heob heou hspecial => exact hstep r h
  | case5 r hlt best r' hblank heob heou hspecial ih =>
    exact ih (hemit r' best hlt (hstep r h))
  | case6 r hlt => exact h

/-- What every frame preserves a window preserves. -/
theorem frameLoop_induct {P : ℕ → EouRun σ π → Prop} {frames : List F} {t : ℕ} {r : EouRun σ π}
    (hframe : ∀ t encFrame r, P t r → P (t + 1) (symbolLoop m maxSyms encFrame t r.startFrame))
    (h : P t r) : P (t + frames.length) (frameLoop m maxSyms t frames r) := by
  induction frames generalizing t r with
  | nil => exact h
  | cons encFrame frames ih =>
    rw [frameLoop, List.length_cons, Nat.add_comm frames.length, ← Nat.add_assoc]
    exact ih (hframe t encFrame r h)

theorem frameLoop_initialized {frames : List F} {t : ℕ} {r : EouRun σ π}
    (h : r.state.initialized) : (frameLoop m maxSyms t frames r).state.initialized := by
  refine frameLoop_induct (P := fun _ r => r.state.initialized = true) ?_ h
  intro t encFrame r hr
  refine symbolLoop_induct (P := fun r => r.state.initialized = true) ?_ ?_ ?_ hr
  · exact fun _ h => h
  · exact fun _ h => h
  · exact fun _ _ _ h => h

variable {opts : EouDecodeOptions} {dEnc : ℕ}

/-- The state the frames of a window start from. -/
def eouPrepared (m : EouModel F σ π) (s : EouDecodeState σ π) : EouDecodeState σ π :=
  if s.initialized then s else eouInitState m

theorem eouPrepared_initialized {s : EouDecodeState σ π} : (eouPrepared m s).initialized := by
  rw [eouPrepared]
  split_ifs with h
  · exact h
  · rfl

theorem eouStream_of_eq {s : EouDecodeState σ π} {t : ℕ} {out : EouOut} {window : List F} :
    eouStream m opts m.dEnc (s, t, out) window =
      ((frameLoop m opts.maxSyms 0 window ⟨eouPrepared m s, ⟨[], []⟩, 0⟩).state, t + window.length,
        out.append t (frameLoop m opts.maxSyms 0 window ⟨eouPrepared m s, ⟨[], []⟩, 0⟩).out) := by
  simp only [eouStream, eouDecodeWindow, ne_eq, not_true_eq_false, if_false]
  rfl

theorem eouStream_of_ne (h : dEnc ≠ m.dEnc) {s : EouDecodeState σ π} {t : ℕ} {out : EouOut}
    {window : List F} :
    eouStream m opts dEnc (s, t, out) window = (s, t + window.length, out) := by
  simp [eouStream, eouDecodeWindow, h, EouOut.append_nil]

theorem eouStream_append (s : EouDecodeState σ π × ℕ × EouOut) (a b : List F) :
    eouStream m opts dEnc s (a ++ b) = eouStream m opts dEnc (eouStream m opts dEnc s a) b := by
  obtain ⟨s, t, out⟩ := s
  by_cases hdim : dEnc = m.dEnc
  · subst hdim
    rw [eouStream_of_eq, eouStream_of_eq, eouStream_of_eq, frameLoop_append]
    generalize hr : frameLoop m opts.maxSyms 0 a ⟨eouPrepared m s, ⟨[], []⟩, 0⟩ = r
    have hinit : r.state.initialized := by
      rw [← hr]
      exact frameLoop_initialized eouPrepared_initialized
    have hprep : eouPrepared m r.state = r.state := if_pos hinit
    have hbehind : r = EouRun.behind a.length r.out r.outSteps ⟨r.state, ⟨[], []⟩, 0⟩ := by
      simp [EouRun.behind, EouOut.append_nil]
    rw [hprep]
    conv_lhs => rw [hbehind, frameLoop_behind]
    simp only [EouRun.behind, EouOut.append_assoc, List.length_append, Nat.add_assoc]
  · simp [eouStream_of_ne hdim, Nat.add_assoc]

theorem eouStream_initialized {s : EouDecodeState σ π × ℕ × EouOut} {window : List F} :
    (eouStream m opts m.dEnc s window).1.initialized := by
  obtain ⟨s, t, out⟩ := s
  rw [eouStream_of_eq]
  exact frameLoop_initialized eouPrepared_initialized

/-- A stream in windows is the stream in one window. -/
theorem foldl_eouStream {s : EouDecodeState σ π × ℕ × EouOut} {windows : List (List F)}
    (h : windows ≠ []) :
    windows.foldl (eouStream m opts dEnc) s = eouStream m opts dEnc s windows.flatten := by
  refine foldl_eq (fun s windows => dEnc ≠ m.dEnc ∨ s.1.initialized ∨ windows ≠ []) ?_ ?_
    (.inr (.inr h))
  · rintro ⟨s, t, out⟩ hgood
    by_cases hdim : dEnc = m.dEnc
    · subst hdim
      have hinit : s.initialized := by simpa using hgood
      rw [eouStream_of_eq, frameLoop, EouOut.append_nil, eouPrepared, if_pos hinit]
      rfl
    · rw [eouStream_of_ne hdim]
      rfl
  · intro s a rest _
    refine ⟨eouStream_append s a _, ?_⟩
    by_cases hdim : dEnc = m.dEnc
    · subst hdim
      exact .inr (.inl eouStream_initialized)
    · exact .inl hdim

/-! ### Segments and symbols -/

/-- Segments end behind one another, the last one in front of a token that belongs to the next. -/
structure Segmented (r : EouRun σ π) : Prop where
  sorted : (0 :: r.out.segments.map (·.2.tokenIndex)).Pairwise (· < ·)
  le : ∀ e ∈ 0 :: r.out.segments.map (·.2.tokenIndex), e ≤ r.out.tokens.length
  lt : r.state.hasEmittedTokenSinceLastEou →
    ∀ e ∈ 0 :: r.out.segments.map (·.2.tokenIndex), e < r.out.tokens.length

theorem Segmented.flushSegment {r : EouRun σ π} (h : Segmented r) (t : ℕ) :
    Segmented (r.flushSegment m t) := by
  by_cases hflag : r.state.hasEmittedTokenSinceLastEou
  · have hends : (r.flushSegment m t).out.segments.map (·.2.tokenIndex) =
        r.out.segments.map (·.2.tokenIndex) ++ [r.out.tokens.length] := by
      simp [EouRun.flushSegment, hflag]
    have htokens : (r.flushSegment m t).out.tokens = r.out.tokens := by
      simp [EouRun.flushSegment, hflag]
    refine ⟨?_, ?_, by simp [EouRun.flushSegment]⟩
    · rw [hends, ← List.cons_append, List.pairwise_append]
      refine ⟨h.sorted, List.pairwise_singleton _ _, ?_⟩
      intro e he e' he'
      rw [List.mem_singleton.1 he']
      exact h.lt hflag e he
    · rw [hends, htokens, ← List.cons_append]
      intro e he
      rcases List.mem_append.1 he with he | he
      · exact h.le e he
      · exact (List.mem_singleton.1 he).le
  · exact ⟨by simpa [EouRun.flushSegment, hflag] using h.sorted,
      by simpa [EouRun.flushSegment, hflag] using h.le, by simp [EouRun.flushSegment]⟩

theorem Segmented.emit {r : EouRun σ π} (h : Segmented r) (t best : ℕ) :
    Segmented (r.emit m t best) where
  sorted := h.sorted
  le e he := by
    have := h.le e he
    simp only [EouRun.emit, List.length_append, List.length_singleton]
    omega
  lt _ e he := by
    have := h.le e he
    simp only [EouRun.emit, List.length_append, List.length_singleton]
    omega

theorem Segmented.symbolLoop {r : EouRun σ π} (h : Segmented r) (encFrame : F) (t : ℕ) :
    Segmented (symbolLoop m maxSyms encFrame t r) :=
  symbolLoop_induct (fun _ h => ⟨h.sorted, h.le, h.lt⟩) (fun _ h => h.flushSegment t)
    (fun _ best _ h => h.emit t best) h

theorem Segmented.frameLoop {r : EouRun σ π} (h : Segmented r) (frames : List F) (t : ℕ) :
    Segmented (frameLoop m maxSyms t frames r) := by
  refine frameLoop_induct (P := fun _ r => Segmented r) ?_ h
  intro t encFrame r h
  have hstart : Segmented r.startFrame := ⟨h.sorted, h.le, h.lt⟩
  exact hstart.symbolLoop encFrame t

/-- The number of tokens of frame `t`. -/
def EouOut.symbolsAt (out : EouOut) (t : ℕ) : ℕ := out.tokens.countP (·.1 = t)

theorem symbolsAt_emit {r : EouRun σ π} {t u best : ℕ} :
    (r.emit m t best).out.symbolsAt u = r.out.symbolsAt u + if t = u then 1 else 0 := by
  simp [EouOut.symbolsAt, EouRun.emit, List.countP_append, List.countP_cons]

theorem flushSegment_tokens {r : EouRun σ π} {t : ℕ} :
    (r.flushSegment m t).out.tokens = r.out.tokens := by
  by_cases h : r.state.hasEmittedTokenSinceLastEou <;> simp [EouRun.flushSegment, h]

/-- No frame has too many tokens, and those of frame `t` are counted. -/
structure AtFrame (maxSyms t : ℕ) (r : EouRun σ π) : Prop where
  le : ∀ o ∈ r.out.tokens, o.1 ≤ t
  counted : r.out.symbolsAt t ≤ r.state.symbolsThisStep
  bounded : ∀ u, r.out.symbolsAt u ≤ maxSyms

theorem AtFrame.emit {t best : ℕ} {r : EouRun σ π} (h : AtFrame maxSyms t r)
    (hlt : r.state.symbolsThisStep < maxSyms) : AtFrame maxSyms t (r.emit m t best) where
  le o ho := by
    rcases List.mem_append.1 ho with ho | ho
    · exact h.le o ho
    · exact (congrArg Prod.fst (List.mem_singleton.1 ho)).le
  counted := by
    have hcount := h.counted
    rw [symbolsAt_emit, if_pos rfl]
    change _ ≤ r.state.symbolsThisStep + 1
    omega
  bounded u := by
    have hcount := h.counted
    have hbound := h.bounded u
    rw [symbolsAt_emit]
    split_ifs with htu
    · subst htu
      omega
    · exact hbound

theorem AtFrame.symbolLoop {t : ℕ} {r : EouRun σ π} (h : AtFrame maxSyms t r) (encFrame : F) :
    AtFrame maxSyms t (symbolLoop m maxSyms encFrame t r) := by
  refine symbolLoop_induct ?_ ?_ ?_ h
  · exact fun _ h => ⟨h.le, h.counted, h.bounded⟩
  · intro r h
    have hcount : ∀ u, (r.flushSegment m t).out.symbolsAt u = r.out.symbolsAt u := by
      intro u
      rw [EouOut.symbolsAt, flushSegment_tokens, EouOut.symbolsAt]
    refine ⟨?_, ?_, ?_⟩
    · rw [flushSegment_tokens]
      exact h.le
    · rw [hcount]
      exact h.counted
    · intro u
      rw [hcount]
      exact h.bounded u
  · exact fun r best hlt h => h.emit hlt

theorem frameLoop_bounded {t : ℕ} {frames : List F} {r : EouRun σ π}
    (hlt : ∀ o ∈ r.out.tokens, o.1 < t) (h : ∀ u, r.out.symbolsAt u ≤ maxSyms) :
    ∀ u, (frameLoop m maxSyms t frames r).out.symbolsAt u ≤ maxSyms := by
  refine (frameLoop_induct (P := fun t r => (∀ o ∈ r.out.tokens, o.1 < t) ∧
    ∀ u, r.out.symbolsAt u ≤ maxSyms) ?_ ⟨hlt, h⟩).2
  rintro t encFrame r ⟨hlt, h⟩
  have hnone : r.out.symbolsAt t = 0 := by
    rw [EouOut.symbolsAt, List.countP_eq_zero]
    intro o ho
    simpa using (hlt o ho).ne
  have hstart : AtFrame maxSyms t r.startFrame := ⟨fun o ho => (hlt o ho).le, hnone.le, h⟩
  have hend := hstart.symbolLoop (m := m) encFrame
  exact ⟨fun o ho => Nat.lt_succ_of_le (hend.le o ho), hend.bounded⟩

/-- A state in front of a stream: not initialised yet, or by `eou_init_state`. -/
def EouDecodeState.Fresh (m : EouModel F σ π) (s : EouDecodeState σ π) : Prop :=
  s.initialized = false ∨ s = eouInitState m

theorem EouDecodeState.Fresh.prepared {s : EouDecodeState σ π} (h : s.Fresh m) :
    eouPrepared m s = eouInitState m := by
  rw [eouPrepared]
  split_ifs with hinit
  · exact h.resolve_left (by simp [hinit])
  · rfl

/-- A stream ends in the same state with the same tokens and boundaries in whatever windows it comes;
every boundary closes a segment with a token, and no frame has more tokens than its limit. -/
theorem eouStream_eq (s : EouDecodeState σ π) (hs : s.Fresh m) (windows : List (List F))
    (hwindows : windows ≠ []) :
    windows.foldl (eouStream m opts dEnc) (s, 0, ⟨[], []⟩) =
        eouStream m opts dEnc (s, 0, ⟨[], []⟩) windows.flatten ∧
      let out := (windows.foldl (eouStream m opts dEnc) (s, 0, ⟨[], []⟩)).2.2
      (0 :: out.segments.map (·.2.tokenIndex)).Pairwise (· < ·) ∧
        ∀ t, (out.symbolsAt t : ℤ) ≤ max 1 opts.maxSymbolsPerStep := by
  refine ⟨foldl_eouStream hwindows, ?_⟩
  rw [foldl_eouStream hwindows]
  by_cases hdim : dEnc = m.dEnc
  · subst hdim
    rw [eouStream_of_eq, hs.prepared, EouOut.nil_append]
    have hsegmented : Segmented (⟨eouInitState m, ⟨[], []⟩, 0⟩ : EouRun σ π) :=
      ⟨by simp, by simp, by simp [eouInitState]⟩
    refine ⟨(hsegmented.frameLoop _ _).sorted, fun t => ?_⟩
    have hbound : (frameLoop m opts.maxSyms 0 windows.flatten
        ⟨eouInitState m, ⟨[], []⟩, 0⟩).out.symbolsAt t ≤ opts.maxSyms :=
      frameLoop_bounded (by simp) (by simp [EouOut.symbolsAt]) t
    have hmax : (opts.maxSyms : ℤ) = max 1 opts.maxSymbolsPerStep := by
      rw [EouDecodeOptions.maxSyms]
      omega
    rw [← hmax]
    exact Int.ofNat_le.2 hbound
  · rw [eouStream_of_ne hdim]
    refine ⟨by simp, fun t => ?_⟩
    simp only [EouOut.symbolsAt, List.countP_nil]
    omega

end Model

/-- A network over token numbers: token `n` at frame `n`, as often as it is asked. -/
def echoModel : EouModel ℕ Unit Unit where
  dEnc := 512
  blankId := 1026
  eouId := 1024
  eobId := 1025
  pieces := []
  joint f _ := f
  zero := ()
  lstmStep _ _ := ()
  lastLayer := id

theorem eouStream_eq_echo :
    let s : EouDecodeState Unit Unit := ⟨(), (), -1, 0, false, false⟩
    let windows := [[7], [1024, 1024], [], [8, 1026]]
    windows.foldl (eouStream echoModel ⟨2⟩ 512) (s, 0, ⟨[], []⟩) =
        eouStream echoModel ⟨2⟩ 512 (s, 0, ⟨[], []⟩) windows.flatten ∧
      let out := (windows.foldl (eouStream echoModel ⟨2⟩ 512) (s, 0, ⟨[], []⟩)).2.2
      (0 :: out.segments.map (·.2.tokenIndex)).Pairwise (· < ·) ∧
        ∀ t, (out.symbolsAt t : ℤ) ≤ max 1 2 :=
  eouStream_eq _ (.inl rfl) [[7], [1024, 1024], [], [8, 1026]] (by simp)

/-- With `max_symbols_per_step` zero a frame still has one token. -/
theorem not_forall_symbolsAt_le :
    ¬∀ (F σ π : Type) (m : EouModel F σ π) (opts : EouDecodeOptions) (s : EouDecodeState σ π)
      (windows : List (List F)) (t : ℕ), s.Fresh m →
      ((windows.foldl (eouStream m opts m.dEnc) (s, 0, ⟨[], []⟩)).2.2.symbolsAt t : ℤ) ≤
        opts.maxSymbolsPerStep := by
  intro h
  have hle := h ℕ Unit Unit echoModel ⟨0⟩ (eouInitState echoModel) [[7]] 0 (.inr rfl)
  have hone : (([[7]].foldl (eouStream echoModel ⟨0⟩ echoModel.dEnc)
      (eouInitState echoModel, 0, ⟨[], []⟩)).2.2.symbolsAt 0 : ℤ) = 1 := by decide +kernel
  rw [hone] at hle
  exact absurd hle (by decide)

end Parakeet

end WhisperCpp
