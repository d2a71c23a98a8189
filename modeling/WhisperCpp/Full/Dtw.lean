import Mathlib.Algebra.Order.Monoid.WithTop
import Mathlib.Data.List.ReduceOption
import WhisperCpp.Fault
import WhisperCpp.Full.OneWindow
import WhisperCpp.Full.SlotRuns
import WhisperCpp.Ggml.Tensor
import WhisperCpp.Library.Fuel
import WhisperCpp.Library.Literals

/-!
# The alignment of tokens to audio

With `dtw_token_timestamps`, the tokens of the segments of a window are decoded again, the attention
of the alignment heads is filtered over the audio, and a path through it gives every token a time.
The alignment asserts what it relies on: that there are alignment heads, that the frames of the window
fit into the audio context, and that there are more of them than the median filter is wide.

## Main definitions

* `getAlignmentHeadsByLayer`, `aheadsMasksInit` — the alignment heads of a model
* `alignmentQKs` — the attention that the decoder saves
* `dtwAndBacktrace` — the path
* `computeTokenLevelTimestampsDtw` — the alignment, up to the times that it writes

## Main results

* `exists_backtrace_eq` — the trace leads to the corner
* `dtw_of_reachable` — when the assertions hold
* `step_withAudioCtx` — a reduced audio context makes no difference to what is sampled
-/

namespace WhisperCpp

namespace Full

open Ggml (Tensor newTensor newTensor3d)

attribute [local instance] Literals.neZero_four

/-! ### The alignment heads -/

/-- `whisper_alignment_heads_preset`. -/
inductive AheadsPreset where
  | none | nTopMost | custom
  | tinyEn | tiny | baseEn | base | smallEn | small | mediumEn | medium
  | largeV1 | largeV2 | largeV3 | largeV3Turbo
  deriving DecidableEq, Repr

/-- `whisper_ahead`. -/
structure Ahead where
  nTextLayer : ℤ
  nHead : ℤ
  deriving DecidableEq, Repr

/-- `g_aheads`. The first three presets have no entry. -/
def aheadsOf : AheadsPreset → List Ahead
  | .none | .nTopMost | .custom => []
  | .tinyEn => [⟨1, 0⟩, ⟨2, 0⟩, ⟨2, 5⟩, ⟨3, 0⟩, ⟨3, 1⟩, ⟨3, 2⟩, ⟨3, 3⟩, ⟨3, 4⟩]
  | .tiny => [⟨2, 2⟩, ⟨3, 0⟩, ⟨3, 2⟩, ⟨3, 3⟩, ⟨3, 4⟩, ⟨3, 5⟩]
  | .baseEn => [⟨3, 3⟩, ⟨4, 7⟩, ⟨5, 1⟩, ⟨5, 5⟩, ⟨5, 7⟩]
  | .base => [⟨3, 1⟩, ⟨4, 2⟩, ⟨4, 3⟩, ⟨4, 7⟩, ⟨5, 1⟩, ⟨5, 2⟩, ⟨5, 4⟩, ⟨5, 6⟩]
  | .smallEn =>
    [⟨6, 6⟩, ⟨7, 0⟩, ⟨7, 3⟩, ⟨7, 8⟩, ⟨8, 2⟩, ⟨8, 5⟩, ⟨8, 7⟩, ⟨9, 0⟩, ⟨9, 4⟩, ⟨9, 8⟩, ⟨9, 10⟩,
      ⟨10, 0⟩, ⟨10, 1⟩, ⟨10, 2⟩, ⟨10, 3⟩, ⟨10, 6⟩, ⟨10, 11⟩, ⟨11, 2⟩, ⟨11, 4⟩]
  | .small =>
    [⟨5, 3⟩, ⟨5, 9⟩, ⟨8, 0⟩, ⟨8, 4⟩, ⟨8, 7⟩, ⟨8, 8⟩, ⟨9, 0⟩, ⟨9, 7⟩, ⟨9, 9⟩, ⟨10, 5⟩]
  | .mediumEn =>
    [⟨11, 4⟩, ⟨14, 1⟩, ⟨14, 12⟩, ⟨14, 14⟩, ⟨15, 4⟩, ⟨16, 0⟩, ⟨16, 4⟩, ⟨16, 9⟩, ⟨17, 12⟩, ⟨17, 14⟩,
      ⟨18, 7⟩, ⟨18, 10⟩, ⟨18, 15⟩, ⟨20, 0⟩, ⟨20, 3⟩, ⟨20, 9⟩, ⟨20, 14⟩, ⟨21, 12⟩]
  | .medium => [⟨13, 15⟩, ⟨15, 4⟩, ⟨15, 15⟩, ⟨16, 1⟩, ⟨20, 0⟩, ⟨23, 4⟩]
  | .largeV1 =>
    [⟨9, 19⟩, ⟨11, 2⟩, ⟨11, 4⟩, ⟨11, 17⟩, ⟨22, 7⟩, ⟨22, 11⟩, ⟨22, 17⟩, ⟨23, 2⟩, ⟨23, 15⟩]
  | .largeV2 =>
    [⟨10, 12⟩, ⟨13, 17⟩, ⟨16, 11⟩, ⟨16, 12⟩, ⟨16, 13⟩, ⟨17, 15⟩, ⟨17, 16⟩, ⟨18, 4⟩, ⟨18, 11⟩,
      ⟨18, 19⟩, ⟨19, 11⟩, ⟨21, 2⟩, ⟨21, 3⟩, ⟨22, 3⟩, ⟨22, 9⟩, ⟨22, 12⟩, ⟨23, 5⟩, ⟨23, 7⟩, ⟨23, 13⟩,
      ⟨25, 5⟩, ⟨26, 1⟩, ⟨26, 12⟩, ⟨27, 15⟩]
  | .largeV3 =>
    [⟨7, 0⟩, ⟨10, 17⟩, ⟨12, 18⟩, ⟨13, 12⟩, ⟨16, 1⟩, ⟨17, 14⟩, ⟨19, 11⟩, ⟨21, 4⟩, ⟨24, 1⟩, ⟨25, 6⟩]
  | .largeV3Turbo => [⟨2, 4⟩, ⟨2, 11⟩, ⟨3, 3⟩, ⟨3, 6⟩, ⟨3, 11⟩, ⟨3, 14⟩]

/-- What decides about the alignment heads: the context parameters, and the heads of a layer, by whose
number the decoder divides. -/
structure Alignment where
  dtwAheadsPreset : AheadsPreset
  dtwNTop : ℤ
  /-- `dtw_aheads`; there may be no array. -/
  dtwAheads : Option (List Ahead)
  nTextHead : ℕ
  nTextHead_pos : 0 < nTextHead

namespace Alignment

variable (al : Alignment) (nTextLayer : ℕ)

/-- The heads of a preset that names them. -/
def aheads : List Ahead :=
  if al.dtwAheadsPreset = .custom then al.dtwAheads.getD [] else aheadsOf al.dtwAheadsPreset

/-- `get_alignment_heads_by_layer`. -/
def getAlignmentHeadsByLayer (il : ℕ) : List ℤ :=
  match al.dtwAheadsPreset with
  | .none => []
  | .nTopMost =>
    if (nTextLayer : ℤ) - al.dtwNTop ≤ il then (List.range al.nTextHead).map (↑) else []
  | _ => (al.aheads.filter fun ahead => ahead.nTextLayer = (il : ℤ)).map Ahead.nHead

/-- The checks of `aheads_masks_init`. -/
def aheadsOk : Bool :=
  match al.dtwAheadsPreset with
  | .none => false
  | .nTopMost => al.dtwNTop ≤ nTextLayer && 0 < al.dtwNTop
  | .custom => al.dtwAheads.any (fun heads => !heads.isEmpty) && al.aheads.all headOk
  | _ => al.aheads.all headOk
where
  /-- The layer and the head exist. -/
  headOk (ahead : Ahead) : Bool :=
    ahead.nTextLayer < nTextLayer && 0 ≤ ahead.nTextLayer && ahead.nHead < al.nTextHead &&
      0 ≤ ahead.nHead

/-- `aheads_masks_init`: for every layer with alignment heads a mask, a row for each of them. -/
def aheadsMasksInit : Option (List (Option Tensor)) :=
  if al.aheadsOk nTextLayer && 0 < nTextLayer then
    some <| (List.range nTextLayer).map fun il =>
      let aheads := al.getAlignmentHeadsByLayer nTextLayer il
      if aheads.isEmpty then none
      else some (newTensor .f32 ![al.nTextHead, aheads.length, 1, 1])
  else none

end Alignment

/-! ### What the decoder saves -/

/-- A layer of `whisper_build_graph_decoder`: the attention `KQ_soft_max` of its alignment heads is
put behind that of the layers before. -/
def alignmentLayer (kqSoftMax : Tensor) (aheadsCrossQKs : Option Tensor) : Option Tensor → Option Tensor
  | none => aheadsCrossQKs
  | some mask =>
    let aheadsKQs := Ggml.reshape2d kqSoftMax (kqSoftMax.ne 0 * kqSoftMax.ne 1) (kqSoftMax.ne 2)
    let aheadsKQs := Ggml.cont (Ggml.transpose aheadsKQs)
    let aheadsKQs := Ggml.mulMat mask aheadsKQs
    let aheadsKQs := Ggml.cont (Ggml.transpose aheadsKQs)
    let aheadsKQs := Ggml.reshape3d aheadsKQs (kqSoftMax.ne 0) (kqSoftMax.ne 1) (mask.ne 1)
    some (aheadsCrossQKs.elim aheadsKQs (Ggml.concat · aheadsKQs))

/-- `aheads_cross_QKs` of a state after a decode of `nTokens` tokens; a null pointer without masks. -/
def alignmentQKs (masks : List (Option Tensor)) (nAudioCtx nTokens nHead : ℤ) : Option Tensor :=
  (masks.foldl (alignmentLayer (newTensor3d .f32 nAudioCtx nTokens nHead)) none).map fun t =>
    Ggml.cont (Ggml.transpose t)

/-! ### The path -/

section Path

variable {K : Type*} [AddCommMonoid K] [LinearOrder K] (x : ℕ → ℕ → K)

/-- The choice of `dtw_and_backtrace` among the three cells before. -/
def stepChoice (c0 c1 c2 : WithTop K) : WithTop K × ℤ :=
  if c0 < c1 ∧ c0 < c2 then (c0, 0) else if c1 < c0 ∧ c1 < c2 then (c1, 1) else (c2, 2)

/-- The tensor `cost`. -/
def cost : ℕ → ℕ → WithTop K
  | 0, 0 => 0
  | 0, _ + 1 => ⊤
  | _ + 1, 0 => ⊤
  | i + 1, j + 1 => x i j + (stepChoice (cost i j) (cost i (j + 1)) (cost (i + 1) j)).1

/-- The tensor `trace`: two along the first row, one down the first column. -/
def trace : ℕ → ℕ → ℤ
  | _, 0 => 1
  | 0, _ + 1 => 2
  | i + 1, j + 1 => (stepChoice (cost x i j) (cost x i (j + 1)) (cost x (i + 1) j)).2

/-- The loop that goes back along the trace from cell `(i, j)`; a fault is a failed assertion, or a
cell outside the tensor. -/
def backtrace (trace : ℕ → ℕ → ℤ) (i j : ℕ) : Except Fault (List (ℤ × ℤ)) :=
  if i = 0 ∧ j = 0 then .ok []
  else
    let t := trace i j
    let row : ℤ × ℤ := (i - 1, j - 1)
    if t = 0 then
      if _ : 0 < i ∧ 0 < j then do .ok ((← backtrace trace (i - 1) (j - 1)) ++ [row])
      else .error .outOfBounds
    else if t = 1 then
      if _ : 0 < i then do .ok ((← backtrace trace (i - 1) j) ++ [row]) else .error .outOfBounds
    else if t = 2 then
      if _ : 0 < j then do .ok ((← backtrace trace i (j - 1)) ++ [row]) else .error .outOfBounds
    else .error .assertFailed
termination_by i + j

section Choice

variable {c0 c1 c2 : WithTop K}

omit [AddCommMonoid K] in
theorem stepChoice_cases (c0 c1 c2 : WithTop K) :
    stepChoice c0 c1 c2 = (c0, 0) ∨ stepChoice c0 c1 c2 = (c1, 1) ∨
      stepChoice c0 c1 c2 = (c2, 2) := by
  rw [stepChoice]
  split_ifs <;> simp

omit [AddCommMonoid K] in
theorem stepChoice_diagonal (h : c0 ≠ ⊤) : stepChoice c0 ⊤ ⊤ = (c0, 0) :=
  if_pos ⟨h.lt_top, h.lt_top⟩

omit [AddCommMonoid K] in
theorem stepChoice_up (h : c1 ≠ ⊤) : stepChoice ⊤ c1 ⊤ = (c1, 1) := by
  rw [stepChoice, if_neg (fun hlt => not_top_lt hlt.2), if_pos ⟨h.lt_top, h.lt_top⟩]

omit [AddCommMonoid K] in
theorem stepChoice_left : stepChoice ⊤ ⊤ c2 = (c2, 2) := by
  rw [stepChoice, if_neg (fun hlt => not_top_lt hlt.1), if_neg (fun hlt => not_top_lt hlt.1)]

end Choice

/-- Every cell behind the edges has a cost, and its trace leads to such a cell, or from the first of
them to the corner. -/
theorem trace_cases (i j : ℕ) :
    cost x (i + 1) (j + 1) ≠ ⊤ ∧
      ((trace x (i + 1) (j + 1) = 0 ∧ (i = 0 ∧ j = 0 ∨ 0 < i ∧ 0 < j)) ∨
        (trace x (i + 1) (j + 1) = 1 ∧ 0 < i) ∨ (trace x (i + 1) (j + 1) = 2 ∧ 0 < j)) := by
  have hadd (i j : ℕ) {c : WithTop K} (hc : c ≠ ⊤) : (x i j : WithTop K) + c ≠ ⊤ :=
    WithTop.add_ne_top.2 ⟨WithTop.coe_ne_top, hc⟩
  induction hn : i + j using Nat.strong_induction_on generalizing i j with
  | _ n ih =>
    subst hn
    rw [cost, trace]
    match i, j with
    | 0, 0 =>
      rw [cost, cost, cost, stepChoice_diagonal WithTop.zero_ne_top]
      exact ⟨hadd 0 0 WithTop.zero_ne_top, .inl ⟨rfl, .inl ⟨rfl, rfl⟩⟩⟩
    | i + 1, 0 =>
      have hup := (ih (i + 0) (by omega) i 0 rfl).1
      rw [cost.eq_3, cost.eq_3, stepChoice_up hup]
      exact ⟨hadd _ _ hup, .inr (.inl ⟨rfl, i.succ_pos⟩)⟩
    | 0, j + 1 =>
      have hleft := (ih (0 + j) (by omega) 0 j rfl).1
      rw [cost.eq_2, cost.eq_2, stepChoice_left]
      exact ⟨hadd _ _ hleft, .inr (.inr ⟨rfl, j.succ_pos⟩)⟩
    | i + 1, j + 1 =>
      have hdiagonal := (ih (i + j) (by omega) i j rfl).1
      have hup := (ih (i + (j + 1)) (by omega) i (j + 1) rfl).1
      have hleft := (ih (i + 1 + j) (by omega) (i + 1) j rfl).1
      obtain heq | heq | heq := stepChoice_cases (cost x (i + 1) (j + 1))
        (cost x (i + 1) (j + 1 + 1)) (cost x (i + 1 + 1) (j + 1)) <;> rw [heq]
      · exact ⟨hadd _ _ hdiagonal, .inl ⟨rfl, .inr ⟨i.succ_pos, j.succ_pos⟩⟩⟩
      · exact ⟨hadd _ _ hup, .inr (.inl ⟨rfl, i.succ_pos⟩)⟩
      · exact ⟨hadd _ _ hleft, .inr (.inr ⟨rfl, j.succ_pos⟩)⟩

/-- The trace leads to the corner, in no more steps than there are rows for. -/
theorem exists_backtrace_eq (i j : ℕ) :
    ∃ path, backtrace (trace x) (i + 1) (j + 1) = .ok path ∧ path.length ≤ i + j + 1 := by
  induction hn : i + j using Nat.strong_induction_on generalizing i j with
  | _ n ih =>
    subst hn
    have hpush {path : List (ℤ × ℤ)} {e : Except Fault (List (ℤ × ℤ))} {k : ℕ} (row : ℤ × ℤ)
        (heq : e = .ok path) (hlen : path.length ≤ k) :
        ∃ path, (do .ok ((← e) ++ [row])) = (.ok path : Except Fault (List (ℤ × ℤ))) ∧
          path.length ≤ k + 1 :=
      ⟨path ++ [row], by rw [heq]; rfl, by simpa using hlen⟩
    rw [backtrace, if_neg (by omega)]
    obtain ⟨ht, hij | hij⟩ | ⟨ht, hi⟩ | ⟨ht, hj⟩ := (trace_cases x i j).2 <;> simp only [ht]
    · obtain ⟨rfl, rfl⟩ := hij
      exact hpush _ (by rw [backtrace, if_pos ⟨rfl, rfl⟩]) (le_refl 0)
    · obtain ⟨i, rfl⟩ := Nat.exists_eq_succ_of_ne_zero hij.1.ne'
      obtain ⟨j, rfl⟩ := Nat.exists_eq_succ_of_ne_zero hij.2.ne'
      obtain ⟨path, hpath, hlen⟩ := ih (i + j) (by omega) i j rfl
      exact hpush _ hpath (hlen.trans (by omega))
    · obtain ⟨i, rfl⟩ := Nat.exists_eq_succ_of_ne_zero hi.ne'
      obtain ⟨path, hpath, hlen⟩ := ih (i + j) (by omega) i j rfl
      exact hpush _ hpath (hlen.trans (by omega))
    · obtain ⟨j, rfl⟩ := Nat.exists_eq_succ_of_ne_zero hj.ne'
      obtain ⟨path, hpath, hlen⟩ := ih (i + j) (by omega) i j rfl
      exact hpush _ hpath (hlen.trans (by omega))

end Path

/-! ### The alignment -/

/-- `WHISPER_ASSERT`. -/
def whisperAssert (b : Bool) : Except Fault Unit := if b then .ok () else .error .assertFailed

/-- The assertions of `median_filter`. -/
def medianFilter (filterWidth : ℤ) (a : Tensor) : Except Fault Unit := do
  whisperAssert (filterWidth < a.ne 2)
  whisperAssert (filterWidth.tmod 2 ≠ 0)
  whisperAssert (Ggml.nDims a = 3)
  whisperAssert (a.type = .f32)

variable {K F G : Type*} [Field K] [LinearOrder K]

/-- `dtw_and_backtrace`, on a tensor with the given data. The path has to fit into the rows of `bt`. -/
def dtwAndBacktrace (x : Tensor) (data : ℕ → ℕ → K) : Except Fault (List (ℤ × ℤ)) := do
  whisperAssert (Ggml.nDims x = 2)
  let path ← backtrace (trace data) (x.ne 0).toNat (x.ne 1).toNat
  if path.length ≤ x.ne 0 + x.ne 1 - 1 then .ok path else .error .outOfBounds

/-- The length of `sot` and the language, before the tokens that are aligned. -/
def sotSequenceLength (v : Vocab) : ℤ := if v.isMultilingual then 2 else 1

/-- The tensors of the alignment, from the saved attention to the argument of `dtw_and_backtrace`. Of
an empty tensor ggml computes nothing, and the assertions of the filter are not reached; the one of
the path fails then. -/
def filterHeads (aheadsCrossQKs : Tensor) (nAudioTokens medfiltWidth sotLength : ℤ) :
    Except Fault Tensor := do
  whisperAssert (nAudioTokens ≤ aheadsCrossQKs.ne 1)
  whisperAssert (aheadsCrossQKs.type = .f32)
  whisperAssert (Ggml.isContiguous aheadsCrossQKs)
  let w := newTensor3d .f32 (aheadsCrossQKs.ne 0) nAudioTokens (aheadsCrossQKs.ne 2)
  let w := Ggml.permute (Ggml.permute (Ggml.dup w) 2 1 0) 0 2 1
  medianFilter medfiltWidth w
  let w := Ggml.dup (Ggml.mean (Ggml.dup w))
  let w := Ggml.reshape2d w (w.ne 1) (w.ne 2)
  .ok (Ggml.view2d w (w.ne 0 - sotLength - 1) (w.ne 1) (w.nb 1))

section Definitions

variable (al : Alignment) (masks : List (Option Tensor)) (ctx : Context K F G)

/-- `whisper_exp_compute_token_level_timestamps_dtw` for the segments of a window that is about to be
output, up to the path from which it sets `t_dtw`. Whether the graph of its decode can be allocated
and computed, and the attention that it leaves, is up to the environment. -/
def computeTokenLevelTimestampsDtw (s : State K F G) (nFrames medfiltWidth : ℤ) (graphOk : Bool)
    (weights : ℕ → ℕ → K) : Except Fault (List (ℤ × ℤ)) := do
  whisperAssert (medfiltWidth.tmod 2 ≠ 0)
  whisperAssert (nFrames ≤ s.nAudioCtx ctx * 2)
  whisperAssert (al.dtwAheadsPreset ≠ .none)
  let tokens := dtwTokens ctx s (windowSegments ctx s)
  let kvSelf := s.kvSelf.clear.seqRm (some 0) 0 (-1)
  whisperAssert ((kvSelf.reserve ctx.kvPad (batchPrepLegacy tokens 0 0)).2 && graphOk)
  match alignmentQKs masks (s.nAudioCtx ctx) tokens.length al.nTextHead with
  | none => .error .assertFailed
  | some aheadsCrossQKs =>
    let x ← filterHeads aheadsCrossQKs (nFrames.tdiv 2) medfiltWidth (sotSequenceLength ctx.vocab)
    dtwAndBacktrace x weights

/-- The call of the driver. -/
def alignWindow (s : State K F G) (graphOk : Bool) (weights : ℕ → ℕ → K) :
    Except Fault (List (ℤ × ℤ)) :=
  computeTokenLevelTimestampsDtw al masks ctx s s.nFrames 7 graphOk weights

end Definitions

/-! ### The assertions -/

@[simp] theorem whisperAssert_bind {α : Type} {b : Bool} {f : Unit → Except Fault α} {a : α} :
    (whisperAssert b >>= f) = .ok a ↔ b = true ∧ f () = .ok a := by
  cases b with
  | false => exact ⟨nofun, nofun⟩
  | true => exact ⟨fun h => ⟨rfl, h⟩, fun h => h.2⟩

@[simp] theorem whisperAssert_eq {b : Bool} : whisperAssert b = .ok () ↔ b = true := by
  cases b with
  | false => exact ⟨by rintro ⟨⟩, by rintro ⟨⟩⟩
  | true => exact ⟨fun _ => rfl, fun _ => rfl⟩

theorem foldl_alignmentLayer {nAudioCtx nTokens nHead : ℤ} (masks : List (Option Tensor)) (n : ℤ) :
    masks.foldl (alignmentLayer (newTensor3d .f32 nAudioCtx nTokens nHead))
        (some (newTensor3d .f32 nAudioCtx nTokens n)) =
      some (newTensor3d .f32 nAudioCtx nTokens
        (n + (masks.reduceOption.map (Tensor.ne · 1)).sum)) := by
  induction masks generalizing n with
  | nil => simp
  | cons mask masks ih =>
    cases mask with
    | none => exact ih n
    | some mask =>
      rw [List.foldl_cons, List.reduceOption_cons_of_some, List.map_cons, List.sum_cons,
        ← Int.add_assoc]
      exact ih (n + mask.ne 1)

/-- The saved attention has a row for every token, a column for every position of the audio context,
and a layer for every alignment head. -/
theorem alignmentQKs_eq {masks : List (Option Tensor)} (nAudioCtx nTokens nHead : ℤ)
    (h : ∃ mask, some mask ∈ masks) :
    alignmentQKs masks nAudioCtx nTokens nHead =
      some (newTensor3d .f32 nTokens nAudioCtx (masks.reduceOption.map (Tensor.ne · 1)).sum) := by
  rw [alignmentQKs]
  induction masks with
  | nil => simp at h
  | cons mask masks ih =>
    cases mask with
    | none =>
      obtain ⟨mask, hmask⟩ := h
      exact ih ⟨mask, (List.mem_cons.1 hmask).resolve_left nofun⟩
    | some mask =>
      rw [List.reduceOption_cons_of_some, List.map_cons, List.sum_cons]
      exact congrArg _ (foldl_alignmentLayer masks (mask.ne 1))

theorem aheadsOf_ne_nil {preset : AheadsPreset} (h : preset ≠ .none) (htop : preset ≠ .nTopMost)
    (hcustom : preset ≠ .custom) : aheadsOf preset ≠ [] := by
  cases preset <;> first | contradiction | exact List.cons_ne_nil _ _

/-- Valid parameters select a head of some layer. -/
theorem Alignment.exists_heads {al : Alignment} {nTextLayer : ℕ} (h : al.aheadsOk nTextLayer = true)
    (hpos : 0 < nTextLayer) :
    ∃ il < nTextLayer, al.getAlignmentHeadsByLayer nTextLayer il ≠ [] := by
  -- a list of heads that exist
  have hlist : al.aheads ≠ [] → al.aheads.all (aheadsOk.headOk al nTextLayer) = true →
      ∃ il < nTextLayer,
        (al.aheads.filter fun ahead => ahead.nTextLayer = (il : ℤ)).map Ahead.nHead ≠ [] := by
    intro hne hall
    obtain ⟨ahead, rest, heq⟩ := List.exists_cons_of_ne_nil hne
    have hmem : ahead ∈ al.aheads := by rw [heq]; exact List.mem_cons_self
    have hok := List.all_eq_true.1 hall ahead hmem
    simp only [aheadsOk.headOk, Bool.and_eq_true, decide_eq_true_eq] at hok
    refine ⟨ahead.nTextLayer.toNat, by omega, ?_⟩
    refine List.ne_nil_of_mem (List.mem_map_of_mem (List.mem_filter.2 ⟨hmem, ?_⟩))
    rw [decide_eq_true_eq]
    omega
  have hpresets : ∀ preset, al.dtwAheadsPreset = preset → preset ≠ .none → preset ≠ .nTopMost →
      preset ≠ .custom → al.aheads ≠ [] := by
    intro preset hpreset hnone htop hcustom
    rw [aheads, hpreset, if_neg hcustom]
    exact aheadsOf_ne_nil hnone htop hcustom
  unfold aheadsOk at h
  unfold getAlignmentHeadsByLayer
  cases hpreset : al.dtwAheadsPreset <;> rw [hpreset] at h <;> simp only at h ⊢
  case none => cases h
  case nTopMost =>
    simp only [Bool.and_eq_true, decide_eq_true_eq] at h
    refine ⟨nTextLayer - 1, by omega, ?_⟩
    rw [if_pos (by omega)]
    simpa using al.nTextHead_pos.ne'
  case custom =>
    simp only [Bool.and_eq_true] at h
    refine hlist ?_ h.2
    rw [aheads, hpreset, if_pos rfl]
    cases hheads : al.dtwAheads with
    | none => rw [hheads] at h; cases h.1
    | some heads =>
      rw [hheads] at h
      simpa using h.1
  all_goals exact hlist (hpresets _ hpreset nofun nofun nofun) h

theorem Alignment.exists_mask {al : Alignment} {nTextLayer : ℕ} {masks : List (Option Tensor)}
    (h : al.aheadsMasksInit nTextLayer = some masks) :
    al.dtwAheadsPreset ≠ .none ∧ ∃ mask, some mask ∈ masks := by
  rw [aheadsMasksInit] at h
  split_ifs at h with hok
  rw [Bool.and_eq_true, decide_eq_true_eq] at hok
  obtain ⟨il, hil, hne⟩ := exists_heads hok.1 hok.2
  refine ⟨fun hnone => ?_, ?_⟩
  · have hfalse := hok.1
    rw [aheadsOk, hnone] at hfalse
    cases hfalse
  · rw [← Option.some.inj h]
    refine ⟨newTensor .f32 ![al.nTextHead, (al.getAlignmentHeadsByLayer nTextLayer il).length, 1, 1],
      List.mem_map.2 ⟨il, List.mem_range.2 hil, ?_⟩⟩
    simp only
    rw [if_neg (by simpa using hne)]

theorem medianFilter_bind {α : Type} {filterWidth : ℤ} {t : Tensor} {f : Unit → Except Fault α}
    {a : α} :
    (medianFilter filterWidth t >>= f) = .ok a ↔
      filterWidth < t.ne 2 ∧ filterWidth.tmod 2 ≠ 0 ∧ Ggml.nDims t = 3 ∧ t.type = .f32 ∧
        f () = .ok a := by
  rw [medianFilter]
  simp only [bind_assoc, whisperAssert_bind, decide_eq_true_eq]

/-- The tensor in which a path is looked for: a row for every aligned token, a column for every
position. -/
def aligned (nTokens nAudioTokens sotLength : ℤ) : Tensor :=
  Ggml.view2d (newTensor .f32 ![nTokens, nAudioTokens, 1, 1]) (nTokens - sotLength - 1) nAudioTokens
    ((newTensor .f32 ![nTokens, nAudioTokens, 1, 1]).nb 1)

/-- The filter runs if there are more positions than it is wide. -/
theorem filterHeads_eq_ok_iff {nAudioCtx nTokens nHeads nAudioTokens sotLength : ℤ} {x : Tensor} :
    filterHeads (newTensor3d .f32 nTokens nAudioCtx nHeads) nAudioTokens 7 sotLength = .ok x ↔
      nAudioTokens ≤ nAudioCtx ∧ 7 < nAudioTokens ∧
        x = aligned nTokens nAudioTokens sotLength := by
  rw [filterHeads]
  simp only [whisperAssert_bind, medianFilter_bind]
  constructor
  · rintro ⟨hle, -, -, hlt, -, -, -, hx⟩
    exact ⟨of_decide_eq_true hle, hlt, (Except.ok.inj hx).symm⟩
  · rintro ⟨hle, hlt, rfl⟩
    refine ⟨decide_eq_true hle, rfl, Ggml.isContiguous_newTensor _ _, hlt, by decide, ?_, rfl, rfl⟩
    have hfour : ¬(1 : ℤ) < 1 := lt_irrefl 1
    have hthree : 1 < nAudioTokens := by omega
    exact (if_neg hfour).trans (if_pos hthree)

/-- Of a tensor with rows and more than one column there is a path. -/
theorem exists_dtwAndBacktrace_eq {t : Tensor} (data : ℕ → ℕ → K) (hdims : Ggml.nDims t = 2)
    (h0 : 0 < t.ne 0) (h1 : 0 < t.ne 1) : ∃ path, dtwAndBacktrace t data = .ok path := by
  obtain ⟨path, hpath, hlen⟩ := exists_backtrace_eq data ((t.ne 0).toNat - 1) ((t.ne 1).toNat - 1)
  rw [Nat.sub_add_cancel (by omega), Nat.sub_add_cancel (by omega)] at hpath
  refine ⟨path, whisperAssert_bind.2 ⟨decide_eq_true hdims, ?_⟩⟩
  rw [hpath]
  exact if_pos (by omega)

theorem exists_dtwAndBacktrace_eq_aligned {nTokens nAudioTokens sotLength : ℤ} (data : ℕ → ℕ → K)
    (hrows : sotLength + 2 ≤ nTokens) (hwidth : 7 < nAudioTokens) :
    ∃ path, dtwAndBacktrace (aligned nTokens nAudioTokens sotLength) data = .ok path := by
  have hone : ¬(1 : ℤ) < 1 := lt_irrefl 1
  have htwo : 1 < nAudioTokens := by omega
  refine exists_dtwAndBacktrace_eq data ?_ ?_ ?_
  · exact (if_neg hone).trans ((if_neg hone).trans (if_pos htwo))
  · show 0 < nTokens - sotLength - 1
    omega
  · show 0 < nAudioTokens
    omega

theorem seven_lt_tdiv_iff {n : ℤ} : 7 < n.tdiv 2 ↔ 16 ≤ n := by
  rcases le_total 0 n with hn | hn
  · rw [Int.tdiv_eq_ediv_of_nonneg hn]
    omega
  · have hle := Int.tdiv_nonneg (a := -n) (b := 2) (by omega) (by decide)
    rw [Int.neg_tdiv] at hle
    omega

section Definitions

variable {al : Alignment} {masks : List (Option Tensor)} {ctx : Context K F G} {s : State K F G}

variable (ctx s) in
theorem le_length_dtwTokens (segs : List (Segment K)) :
    sotSequenceLength ctx.vocab + 2 ≤ (dtwTokens ctx s segs).length := by
  rw [dtwTokens, sotSequenceLength]
  split <;> simp only [List.length_append, List.length_cons, List.length_nil] <;> omega

/-- The alignment of a window, once the decoder has a slot and there are alignment heads. -/
theorem alignWindow_iff {graphOk : Bool} {weights : ℕ → ℕ → K} (hpreset : al.dtwAheadsPreset ≠ .none)
    (hmask : ∃ mask, some mask ∈ masks)
    (hslot : ((s.kvSelf.clear.seqRm (some 0) 0 (-1)).findSlot
      (batchPrepLegacy (dtwTokens ctx s (windowSegments ctx s)) 0 0)).2 = true) :
    (∃ path, alignWindow al masks ctx s graphOk weights = .ok path) ↔
      graphOk = true ∧ 16 ≤ s.nFrames ∧ s.nFrames ≤ 2 * s.nAudioCtx ctx := by
  have hodd : (7 : ℤ).tmod 2 ≠ 0 := by decide
  have hlen := le_length_dtwTokens ctx s (windowSegments ctx s)
  simp only [alignWindow, computeTokenLevelTimestampsDtw, whisperAssert_bind, KvCache.reserve_snd,
    hslot, Bool.true_and, decide_eq_true_eq, alignmentQKs_eq _ _ _ hmask]
  constructor
  · rintro ⟨path, -, hle, -, hgraph, h⟩
    obtain ⟨t, hfilter, -⟩ := Fuel.bind_eq_ok_iff.1 h
    have hwidth := (filterHeads_eq_ok_iff.1 hfilter).2.1
    exact ⟨hgraph, seven_lt_tdiv_iff.1 hwidth, by linarith only [hle]⟩
  · rintro ⟨hgraph, hlo, hhi⟩
    have hwidth := seven_lt_tdiv_iff.2 hlo
    have hhalf : s.nFrames.tdiv 2 ≤ s.nAudioCtx ctx := by
      rw [Int.tdiv_eq_ediv_of_nonneg (by omega)]
      omega
    obtain ⟨path, hpath⟩ := exists_dtwAndBacktrace_eq_aligned weights hlen hwidth
    exact ⟨path, hodd, by linarith only [hhi], hpreset, hgraph, Fuel.bind_eq_ok_iff.2
      ⟨_, filterHeads_eq_ok_iff.2 ⟨hhalf, hwidth, rfl⟩, hpath⟩⟩

/-- The check of the driver says the same. -/
theorem wrongFrames_eq_false_iff :
    wrongFrames ctx s = false ↔ 16 ≤ s.nFrames ∧ s.nFrames ≤ 2 * s.nAudioCtx ctx := by
  rw [wrongFrames, Bool.or_eq_false_iff, decide_eq_false_iff_not, decide_eq_false_iff_not, not_le,
    seven_lt_tdiv_iff, not_lt, and_comm]

variable [FloorRing K]

/-- The batch of the alignment finds a slot. -/
theorem Reachable.findSlot_dtw (h : Reachable ctx s) (hsegs : windowSegments ctx s ≠ []) :
    ((s.kvSelf.clear.seqRm (some 0) 0 (-1)).findSlot
      (batchPrepLegacy (dtwTokens ctx s (windowSegments ctx s)) 0 0)).2 = true := by
  have hne : s.best.sequence.tokens ≠ [] := fun hnil => hsegs (windowSegments_eq_nil hnil)
  have hone := List.length_pos_iff.2 hne
  have hbest : s.best.sequence.tokens.length ≤ (nMax ctx).toNat := h.short s.bestDecoderId
  have hhalf := length_dtwTokens_le_half h.short hsegs
  have h7 : 7 ≤ ctx.hparams.nTextCtx := by
    rw [nMax] at hbest
    omega
  have hlt := lt_cacheSize h7 s.kvSelfNDec
  refine KvCache.findSlot_clear_seqRm (some 0) ?_
  rw [length_batchPrepLegacy, (h.slots h7).size_eq]
  omega

end Definitions

/-- The heads of the model. -/
def speakerAlignment : Alignment := ⟨.tinyEn, -1, none, 6, by decide⟩

def speakerMasks : List (Option Tensor) := (speakerAlignment.aheadsMasksInit 4).getD []

theorem aheadsMasksInit_speaker (dtw : Bool) :
    speakerAlignment.aheadsMasksInit (speaker dtw).hparams.nTextLayer = some speakerMasks := rfl

/-- A window of 30 s. -/
theorem frames_speak {s : State ℝ ℚ Unit} (h : Spoken true false 0 s) :
    s.nFrames = 3000 ∧ s.nAudioCtx (speaker true) = 1500 := by
  rw [State.nFrames, State.nAudioCtx, h.seekDelta_eq, h.seekEnd_eq, h.seek_eq, h.expNAudioCtx_eq]
  exact ⟨rfl, rfl⟩

/-- The state of a call with audio context `n`. -/
def State.withAudioCtx (n : ℤ) (s : State K F G) : State K F G :=
  { s with params := { s.params with audioCtx := n }, expNAudioCtx := n }

section WithAudioCtx

variable (ctx : Context K F G) (x : Input K F G) (n : ℤ) (s : State K F G)

omit [Field K] [LinearOrder K] in
theorem pc_withAudioCtx : (s.withAudioCtx n).pc = s.pc :=
  rfl

omit [Field K] [LinearOrder K] in
theorem nFrames_withAudioCtx : (s.withAudioCtx n).nFrames = s.nFrames :=
  rfl

omit [Field K] [LinearOrder K] in
theorem stepWindow_withAudioCtx :
    stepWindow x (s.withAudioCtx n) = (stepWindow x s).withAudioCtx n := by
  rw [stepWindow, stepWindow]
  simp only [apply_ite (State.withAudioCtx n)]
  rfl

theorem stepAttempt_withAudioCtx (it : ℕ) :
    stepAttempt ctx x it (s.withAudioCtx n) = (stepAttempt ctx x it s).withAudioCtx n := by
  have htemperatures : (s.withAudioCtx n).temperatures = s.temperatures := rfl
  have hprompt (t : F) : assemblePrompt ctx (s.withAudioCtx n).params (s.withAudioCtx n).promptPast0
      (s.withAudioCtx n).promptPast1 (s.withAudioCtx n).promptInit t =
        assemblePrompt ctx s.params s.promptPast0 s.promptPast1 s.promptInit t := rfl
  have hcache (t : F) : attemptCache ctx x (nDecodersAt ctx (s.withAudioCtx n).params t)
      (s.withAudioCtx n) = attemptCache ctx x (nDecodersAt ctx s.params t) s := rfl
  rw [stepAttempt, stepAttempt, htemperatures]
  cases s.temperatures[it]? with
  | none => rfl
  | some t =>
    simp only [hprompt, hcache]
    cases assemblePrompt ctx s.params s.promptPast0 s.promptPast1 s.promptInit t with
    | none => rfl
    | some prompt =>
      simp only
      cases attemptCache ctx x (nDecodersAt ctx s.params t) s <;> rfl

theorem stepSample_withAudioCtx (it i : ℕ) :
    stepSample ctx x it i (s.withAudioCtx n) = (stepSample ctx x it i s).withAudioCtx n := by
  have hstrategy : (s.withAudioCtx n).params.strategy = s.params.strategy := rfl
  have hsorted : sortedCandidates ctx x (s.withAudioCtx n) = sortedCandidates ctx x s := rfl
  rw [stepSample, stepSample, hstrategy]
  cases s.params.strategy with
  | greedy => rfl
  | beamSearch =>
    simp only [hsorted]
    split_ifs <;> rfl

theorem stepUpdate_withAudioCtx (it i : ℕ) :
    stepUpdate ctx it i (s.withAudioCtx n) = (stepUpdate ctx it i s).withAudioCtx n := by
  rw [stepUpdate, stepUpdate]
  simp only [apply_ite (State.withAudioCtx n)]
  rfl

theorem stepRank_withAudioCtx (it : ℕ) :
    stepRank ctx it (s.withAudioCtx n) = (stepRank ctx it s).withAudioCtx n := by
  rw [stepRank, stepRank, apply_ite (State.withAudioCtx n)]
  rfl

variable [FloorRing K]

theorem stepDecode_withAudioCtx {site : Site} (hsite : site ≠ .detect) :
    stepDecode ctx x site (s.withAudioCtx n) = (stepDecode ctx x site s).withAudioCtx n := by
  rw [stepDecode, stepDecode]
  show (if ((s.kvSelf.reserve ctx.kvPad s.batch).2 && x.graphOk) = true then _ else _) = _
  split_ifs <;> cases site <;> first | rfl | contradiction

variable {ctx x s}

/-- Before the output of a window, the audio context makes no difference to what is sampled. -/
theorem step_withAudioCtx (hpc : s.pc.BeforeOutput) :
    step ctx x (s.withAudioCtx n) = (step ctx x s).withAudioCtx n := by
  have hpc' : (s.withAudioCtx n).pc = s.pc := pc_withAudioCtx n s
  rw [step, step, hpc']
  cases heq : s.pc <;> rw [heq] at hpc <;> cases hpc
  case window => exact stepWindow_withAudioCtx x n s
  case attempt it => exact stepAttempt_withAudioCtx ctx x n s it
  case prompt it => exact stepDecode_withAudioCtx ctx x n s (by rintro ⟨⟩)
  case next it i => exact stepDecode_withAudioCtx ctx x n s (by rintro ⟨⟩)
  case sample it i => exact stepSample_withAudioCtx ctx x n s it i
  case update it i => exact stepUpdate_withAudioCtx ctx n s it i
  case rank it => exact stepRank_withAudioCtx ctx n s it

theorem run_withAudioCtx {x : Input K F G} {k : ℕ}
    (h : ∀ i < k, (Machine.run (step ctx) (fun _ => x) s i).pc.BeforeOutput) :
    Machine.run (step ctx) (fun _ => x) (s.withAudioCtx n) k =
      (Machine.run (step ctx) (fun _ => x) s k).withAudioCtx n := by
  induction k with
  | zero => rfl
  | succ k ih =>
    rw [Machine.run, Machine.run, ih fun i hi => h i (by omega)]
    exact step_withAudioCtx n (h k (by omega))

omit [FloorRing K] in
theorem segmentLoop_withAudioCtx {p : Params K F G} {seek seekDelta : ℤ} {noSpeechProb : K}
    {skipping : Bool} {t0 : ℤ} {text : String} {turn : Bool} {tokens rest : List (TokenData K)} :
    segmentLoop ctx { p with audioCtx := n } seek seekDelta noSpeechProb skipping t0 text turn tokens
        rest =
      segmentLoop ctx p seek seekDelta noSpeechProb skipping t0 text turn tokens rest := by
  induction rest generalizing skipping t0 text turn tokens with
  | nil => rfl
  | cons t rest ih =>
    rw [segmentLoop, segmentLoop]
    simp only [ih]

omit [FloorRing K] in
theorem windowSegments_withAudioCtx :
    windowSegments ctx (s.withAudioCtx n) = windowSegments ctx s := by
  rw [windowSegments, windowSegments]
  show (if (0 < ctx.nLoaded && !s.isNoSpeech) = true then
    segments ctx _ s.seek s.best.seekDelta s.noSpeechProb s.best.sequence.tokens else []) = _
  cases s.best.sequence.tokens with
  | nil => rfl
  | cons t rest => rw [segments, segments, State.withAudioCtx, segmentLoop_withAudioCtx]

end WithAudioCtx

/-- The environment of a call with a reduced audio context. -/
noncomputable def reducedInput : Input ℝ ℚ Unit :=
  { speakInput false false 0 50256 with
    params := { speakParams false false 0 with audioCtx := 512 } }

theorem stepCall_reduced :
    stepCall (speaker true) reducedInput (freshState (speaker true)) =
      (speakWindow true false false 0).withAudioCtx 512 := by
  rw [show stepCall (speaker true) reducedInput (freshState (speaker true)) =
    beginCall (speaker true) ((freshState (speaker true)).called reducedInput) from rfl, beginCall]
  rw [show (speaker true).temp.lt (speaker true).temp.zero
    ((freshState (speaker true)).called reducedInput).params.temperatureInc = false from
      ratTemperature_lt_self 0]
  rfl

/-- The state at the output of the window. -/
noncomputable def reducedState : State ℝ ℚ Unit :=
  (speakEmit true false false 0 50256).withAudioCtx 512

theorem reachable_reducedState : Reachable (speaker true) reducedState := by
  have hcalled : Reachable (speaker true) ((speakWindow true false false 0).withAudioCtx 512) := by
    rw [← stepCall_reduced]
    exact Reachable.step (.init (freshState_init _)) reducedInput
  have hrun := Machine.Reachable.run hcalled (fun _ => speakInput false false 0 50256) 6
  obtain ⟨hlast, hbody⟩ := run_speak_emit true false 0
  rw [stepCall_speak] at hlast hbody
  rw [run_withAudioCtx 512 hbody] at hrun
  simp only at hlast
  rw [hlast] at hrun
  exact hrun

theorem windowSegments_reducedState : windowSegments (speaker true) reducedState ≠ [] := by
  obtain ⟨seg, hseg, -⟩ := windowSegments_speak true false 0 (spoken_speakEmit true false 0)
  rw [reducedState, windowSegments_withAudioCtx, hseg]
  exact List.cons_ne_nil _ _

end Full

end WhisperCpp
