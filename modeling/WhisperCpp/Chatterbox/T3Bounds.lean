import WhisperCpp.Fault
import WhisperCpp.Library.Traced
import WhisperCpp.Chatterbox.KvLayout
import Mathlib.Data.Int.Notation
import Mathlib.Tactic.SplitIfs

/-!
# The bounds of T3 decoding

The prompt and the steps of both variants of T3 write keys and values and look up position
embeddings. What each evaluation touches is recorded, also where it aborts: a view outside the
buffer fails an assertion when the graph is built, a row outside a table when the graph runs on the
CPU. Failures of an allocation are left out.

## Main definitions

* `T3Model` — what a file says, with how the converters make it
* `T3Model.evalPrompt`, `T3Model.evalStep` and their `Mtl` forms
* `T3Model.runT3` — the prompt and the steps
* `T3Model.Ok` — a write is in the slab of its layer and half, a row is in its table
* `T3Model.LengthsFit` — the lengths that the multilingual prompt does not check

## Main results

* `safe_evalStep`, `safe_evalStepMtl` — a step below `n_ctx` stays in the slab and in the table
* `t3_bounds` — all of a run stays in bounds exactly if the lengths fit
-/

namespace WhisperCpp

namespace Chatterbox

/-- `chatterbox_variant`. -/
inductive T3Variant
  | turbo
  | mtl
  deriving DecidableEq, Repr

/-- The tables of position embeddings. -/
inductive PosTable
  | wpe
  | text
  | speech
  deriving DecidableEq, Repr

/-- The passes that a graph is built for. -/
inductive T3Pass
  | turbo
  | mtl (path : KvPath)
  deriving DecidableEq, Repr

/-- The number of the slab of a layer, and of a half of it. -/
def T3Pass.slabIndex : T3Pass → ℕ → ℕ → ℕ
  | .turbo, il, _ => il
  | .mtl path, il, b => il * 2 + path.half b

/-- What is touched: a row of a table, or the keys and values of `N` positions. -/
inductive T3Access
  | row (table : PosTable) (i : ℕ)
  | kv (pass : T3Pass) (il nPast n : ℕ)
  deriving DecidableEq, Repr

/-- A model. The last fields are what the converters see to. -/
structure T3Model where
  variant : T3Variant
  backendIsCpu : Bool
  nCtx : ℕ
  nLayer : ℕ
  nEmbd : ℕ
  nHead : ℕ
  nKvHead : ℕ
  headDim : ℕ
  condPromptLen : ℕ
  perceiverQueries : ℕ
  emotionAdv : Bool
  maxSpeechTokens : ℕ
  stopSpeechToken : ℤ
  /-- The rows of `wpe`, `text_pos_emb` and `speech_pos_emb`. -/
  rows : PosTable → ℕ
  nCtx_lt : nCtx < 2 ^ 31
  nLayer_pos : 0 < nLayer
  turbo : variant = .turbo → 0 < nHead ∧ nHead ≤ nEmbd ∧ nCtx ≤ rows .wpe
  mtl : variant = .mtl → 0 < headDim ∧ 0 < nKvHead ∧ 0 < rows .speech ∧
    condPromptLen ≤ rows .speech ∧ 0 < maxSpeechTokens ∧ maxSpeechTokens ≤ rows .speech

/-- What a run does not compute: the sampled tokens, and whether it is cancelled. -/
structure T3Env where
  /-- `sample_next_token_mtl` and `sample_next_token_ex`, by what was generated. -/
  sample : List ℤ → ℤ
  /-- `cancel_flag` before a step. -/
  cancel : ℕ → Bool

/-- An evaluation, with what it touches. -/
abbrev T3Eval (β : Type) := Traced Fault T3Access β

namespace T3Model

open Traced

/-- The context that the loader sets. -/
def load (m : T3Model) (requestedCtx : ℤ) : T3Model :=
  { m with
    nCtx := if 0 < requestedCtx then min m.nCtx requestedCtx.toNat else m.nCtx
    nCtx_lt := by
      refine Nat.lt_of_le_of_lt ?_ m.nCtx_lt
      split_ifs
      · exact Nat.min_le_left _ _
      · exact Nat.le_refl _
    turbo := by
      intro hv
      refine ⟨(m.turbo hv).1, (m.turbo hv).2.1, Nat.le_trans ?_ (m.turbo hv).2.2⟩
      split_ifs
      · exact Nat.min_le_left _ _
      · exact Nat.le_refl _ }

variable (m : T3Model)

/-! ### Views -/

/-- The multilingual KV buffer. -/
def shape : KvShape := ⟨m.headDim, m.nKvHead, m.nCtx, m.nLayer, 4⟩

/-- `HD` of `build_transformer_core`. -/
def turboHeadDim : ℕ := m.nEmbd / m.nHead

/-- The bytes of a key. -/
def rowBytes : T3Pass → ℕ
  | .turbo => m.turboHeadDim * 4
  | .mtl _ => m.shape.kvPosStride

/-- `layer_off` of `build_transformer_core`. -/
def turboLayerOff (il : ℕ) : ℕ := il * (m.turboHeadDim * m.nCtx * m.nHead) * 4

/-- `k_dst` and `v_dst`. -/
def kvDst : T3Pass → ℕ → ℕ → ℕ → KvView
  | .turbo, il, nPast, n =>
    .view3d n m.nHead (m.turboHeadDim * 4) (m.turboHeadDim * m.nCtx * 4)
      (m.turboLayerOff il + nPast * (m.turboHeadDim * 4))
  | .mtl path, il, nPast, n => m.shape.kvDst path il nPast n

/-- `Kfull` and `Vfull`, in Turbo `K` and `V`. -/
def kvFull : T3Pass → ℕ → ℕ → KvView
  | .turbo, il, len =>
    .view3d len m.nHead (m.turboHeadDim * 4) (m.turboHeadDim * m.nCtx * 4) (m.turboLayerOff il)
  | .mtl path, il, len => m.shape.kvFull path il len

/-- The bytes of `memory_k` and of `memory_v`. -/
def memoryBytes : T3Pass → ℕ
  | .turbo => m.nEmbd * m.nLayer * m.nCtx * 4
  | .mtl _ => m.shape.kvBytes

/-- Where the slab of a layer, and of a half of it, begins. -/
def slabStart : T3Pass → ℕ → ℕ → ℕ
  | .turbo, il, _ => m.turboLayerOff il
  | .mtl path, il, b => (il * 2 + path.half b) * m.shape.kvBatchStride

/-- The bytes of a slab. -/
def slabBytes : T3Pass → ℕ
  | .turbo => m.turboHeadDim * m.nCtx * m.nHead * 4
  | .mtl _ => m.shape.kvBatchStride

/-- The size of a view as the assertion of `ggml_new_tensor_impl` takes it, without the strides. -/
def viewBytes (pass : T3Pass) (v : KvView) : ℕ := m.rowBytes pass * v.ne1 * v.ne2 * v.ne3

/-- The assertion of `ggml_new_tensor_impl` for a view. -/
def ViewFits (pass : T3Pass) (v : KvView) : Prop :=
  m.viewBytes pass v = 0 ∨ m.viewBytes pass v + v.offset ≤ m.memoryBytes pass

instance (pass : T3Pass) (v : KvView) : Decidable (m.ViewFits pass v) :=
  inferInstanceAs (Decidable (_ ∨ _))

/-! ### Evaluations -/

/-- The views of the layers are made when the graph is built. -/
def buildLayers (pass : T3Pass) (nPast n : ℕ) : T3Eval Unit :=
  (List.range m.nLayer).forM fun il => do
    ensure (m.ViewFits pass (m.kvDst pass il nPast n)) .assertFailed
    ensure (m.ViewFits pass (m.kvFull pass il (nPast + n))) .assertFailed

/-- The layers write their keys and values when the graph runs. -/
def runLayers (pass : T3Pass) (nPast n : ℕ) : T3Eval Unit :=
  touch ((List.range m.nLayer).map fun il => .kv pass il nPast n)

/-- `ggml_get_rows`. Only the CPU asserts that the rows are in the table. -/
def getRows (table : PosTable) (rows : List ℕ) : T3Eval Unit :=
  if m.backendIsCpu then
    rows.forM fun i => do
      ensure (i < m.rows table) .assertFailed
      touch [.row table i]
  else touch (rows.map fun i => .row table i)

/-- An `int` that has wrapped. -/
def toInt (n : ℕ) : ℤ := (n : ℤ).bmod (2 ^ 32)

/-- `prompt_len` of Turbo before it is an `int`. -/
def promptLen (nText : ℕ) : ℕ := 1 + m.condPromptLen + nText + 1

/-- `eval_prompt`. An `int` that has wrapped is not the length of the tokens that
`ggml_backend_tensor_set` writes. -/
def evalPrompt (nText : ℕ) : T3Eval (Option ℕ) := do
  if m.nCtx < toInt (m.promptLen nText) then return none
  ensure (toInt (m.promptLen nText) = m.promptLen nText) .assertFailed
  m.buildLayers .turbo 0 (m.promptLen nText)
  m.getRows .wpe (List.range (m.promptLen nText))
  m.runLayers .turbo 0 (m.promptLen nText)
  return some (m.promptLen nText)

/-- `eval_step`. -/
def evalStep (nPast : ℕ) : T3Eval Bool := do
  m.buildLayers .turbo nPast 1
  m.getRows .wpe [nPast]
  m.runLayers .turbo nPast 1
  return true

/-- `N` of the multilingual prompt before it is an `int`. -/
def promptLenMtl (nText : ℕ) : ℕ :=
  1 + m.perceiverQueries + (if m.emotionAdv then 1 else 0) + nText + 2

/-- `run_prompt_pass` and `run_prompt_pass_b2`. -/
def runPromptPass (path : KvPath) (nText : ℕ) : T3Eval Unit := do
  ensure (toInt (m.promptLenMtl nText) = m.promptLenMtl nText) .assertFailed
  m.buildLayers (.mtl path) 0 (m.promptLenMtl nText)
  m.getRows .speech (List.range m.condPromptLen)
  m.getRows .text (List.range nText)
  m.getRows .speech [0]
  m.runLayers (.mtl path) 0 (m.promptLenMtl nText)

/-- Two passes on the CPU, one for both halves elsewhere. -/
def runPasses (pass : KvPath → T3Eval Unit) : T3Eval Unit :=
  if m.backendIsCpu then do
    pass (.b1 false)
    pass (.b1 true)
  else pass .b2

/-- `eval_prompt_mtl`. -/
def evalPromptMtl (nText : ℕ) : T3Eval (Option ℕ) := do
  m.runPasses fun path => m.runPromptPass path nText
  return some (m.promptLenMtl nText)

/-- `run_step_pass` and `run_step_pass_b2`. -/
def runStepPass (path : KvPath) (nPast : ℕ) : T3Eval Unit := do
  m.buildLayers (.mtl path) nPast 1
  m.getRows .speech [nPast]
  m.runLayers (.mtl path) nPast 1

/-- `eval_step_mtl`. -/
def evalStepMtl (nPast : ℕ) : T3Eval Bool := do
  if 0 < m.maxSpeechTokens ∧ m.maxSpeechTokens ≤ nPast then return false
  m.runPasses fun path => m.runStepPass path nPast
  return true

/-! ### Runs -/

/-- The prompt of the variant. -/
def prompt (nText : ℕ) : T3Eval (Option ℕ) :=
  match m.variant with
  | .turbo => m.evalPrompt nText
  | .mtl => m.evalPromptMtl nText

/-- A step of the variant. -/
def step (nPast : ℕ) : T3Eval Bool :=
  match m.variant with
  | .turbo => m.evalStep nPast
  | .mtl => m.evalStepMtl nPast

/-- The same token three times. -/
def repeated (generated : List ℤ) : Bool :=
  match generated.reverse with
  | a :: b :: c :: _ => a == b && b == c
  | _ => false

/-- The steps that are left of `n_predict`. Nothing is returned where an exception is thrown. -/
def decode (env : T3Env) : ℕ → ℕ → List ℤ → T3Eval (Option (List ℤ))
  | 0, _, generated => return some generated
  | left + 1, nPast, generated => do
    if env.cancel left then return none
    if generated.getLast? = some m.stopSpeechToken then return some generated
    if m.nCtx < nPast + 1 then return some generated
    let ok ← m.step nPast
    if !ok then return none
    let generated := generated ++ [env.sample generated]
    if m.variant == .mtl && repeated generated then return some generated
    decode env left (nPast + 1) generated

/-- `run_t3` after the tokenizer. The loops of the command line are the same, with no cancel flag
and no check that there are tokens. -/
def runT3 (env : T3Env) (nText : ℕ) (nPredict : ℤ) : T3Eval (Option (List ℤ)) := do
  if nText = 0 then return none
  let some promptLen ← m.prompt nText | return none
  -- `generated.reserve` throws
  if nPredict < -1 then return none
  let generated ← m.decode env nPredict.toNat promptLen [env.sample []]
  return generated.map fun g => if g.getLast? = some m.stopSpeechToken then g.dropLast else g

/-! ### Bounds -/

/-- A row is in its table; a write is below `n_ctx`, and the bytes of all its rows are in the slab
of its layer and half. -/
def Ok : T3Access → Prop
  | .row table i => i < m.rows table
  | .kv pass il nPast n => nPast + n ≤ m.nCtx ∧ ∀ j h b, (j, h, b) ∈ (m.kvDst pass il nPast n).cells →
      m.slabStart pass il b ≤ (m.kvDst pass il nPast n).row j h b ∧
      (m.kvDst pass il nPast n).row j h b + m.rowBytes pass ≤
        m.slabStart pass il b + m.slabBytes pass

/-- The lengths fit: a Turbo prompt is too long for the context, or an `int`; a multilingual one is
in the context, and its text in the table of text positions. -/
def LengthsFit (nText : ℕ) : Prop :=
  match m.variant with
  | .turbo => m.nCtx < toInt (m.promptLen nText) ∨ m.promptLen nText < 2 ^ 31
  | .mtl => m.promptLenMtl nText ≤ m.nCtx ∧ nText ≤ m.rows .text

/-! ### Views and slabs -/

/-- The heads of a pass. -/
def heads : T3Pass → ℕ
  | .turbo => m.nHead
  | .mtl _ => m.nKvHead

/-- A pass of the variant. -/
def IsPass : T3Pass → Prop
  | .turbo => m.variant = .turbo
  | .mtl _ => m.variant = .mtl

variable {m}

theorem heads_pos {pass : T3Pass} (hpass : m.IsPass pass) : 0 < m.heads pass := by
  cases pass with
  | turbo => exact (m.turbo hpass).1
  | mtl path => exact (m.mtl hpass).2.1

theorem slabBytes_eq (pass : T3Pass) :
    m.slabBytes pass = m.heads pass * m.nCtx * m.rowBytes pass := by
  cases pass with
  | turbo =>
    rw [slabBytes, heads, rowBytes]
    ring
  | mtl path =>
    rw [slabBytes, heads, rowBytes, KvShape.kvBatchStride, KvShape.kvLayerElems,
      KvShape.kvPosStride, shape]
    ring

theorem slabStart_eq (pass : T3Pass) (il b : ℕ) :
    m.slabStart pass il b = pass.slabIndex il b * m.slabBytes pass := by
  cases pass with
  | turbo =>
    rw [slabStart, T3Pass.slabIndex, slabBytes, turboLayerOff]
    ring
  | mtl path => rfl

/-- The row of a position of a head is the row of its number in the buffer. -/
theorem row_kvDst {pass : T3Pass} {il nPast n j h b : ℕ}
    (hcell : (j, h, b) ∈ (m.kvDst pass il nPast n).cells) :
    j < n ∧ h < m.heads pass ∧ (m.kvDst pass il nPast n).row j h b =
      ((pass.slabIndex il b * m.heads pass + h) * m.nCtx + (nPast + j)) * m.rowBytes pass := by
  obtain ⟨hj, hh, hb⟩ := KvView.mem_cells.1 hcell
  cases pass with
  | turbo =>
    refine ⟨hj, hh, ?_⟩
    obtain rfl : b = 0 := Nat.lt_one_iff.1 hb
    simp only [kvDst, KvView.view3d, KvView.row, turboLayerOff, T3Pass.slabIndex,
      heads, rowBytes]
    ring
  | mtl path =>
    cases path with
    | b1 isUncond =>
      have hb : b < (KvPath.b1 isUncond).batch := hb
      exact ⟨hj, hh, m.shape.row_kvDst hb il nPast n j h⟩
    | b2 =>
      have hb : b < KvPath.b2.batch := hb
      exact ⟨hj, hh, m.shape.row_kvDst hb il nPast n j h⟩

/-- A write below `n_ctx` is in its slab. -/
theorem ok_kv {pass : T3Pass} {nPast n : ℕ} (h : nPast + n ≤ m.nCtx) (il : ℕ) :
    m.Ok (.kv pass il nPast n) := by
  refine ⟨h, fun j h' b hcell => ?_⟩
  obtain ⟨hj, hh, hrow⟩ := row_kvDst hcell
  have hin : h' * m.nCtx + (nPast + j) < m.heads pass * m.nCtx :=
    Strided.mul_add_lt hh (Nat.lt_of_lt_of_le (Nat.add_lt_add_left hj nPast) h)
  rw [hrow, slabStart_eq, slabBytes_eq]
  have hsplit : ((pass.slabIndex il b * m.heads pass + h') * m.nCtx + (nPast + j)) *
      m.rowBytes pass = pass.slabIndex il b * (m.heads pass * m.nCtx * m.rowBytes pass) +
        (h' * m.nCtx + (nPast + j)) * m.rowBytes pass := by ring
  rw [hsplit]
  refine ⟨Nat.le_add_right _ _, ?_⟩
  rw [Nat.add_assoc, ← Nat.succ_mul]
  exact Nat.add_le_add_left (Nat.mul_le_mul_right _ hin) _

theorem kvFull_eq (pass : T3Pass) (il len : ℕ) : m.kvFull pass il len = m.kvDst pass il 0 len := by
  cases pass with
  | turbo => simp only [kvFull, kvDst, Nat.zero_mul, Nat.add_zero]
  | mtl path =>
    cases path <;> simp only [kvFull, kvDst, KvShape.kvFull, KvShape.kvDst, Nat.zero_mul,
      Nat.add_zero]

/-- What a view takes of the slabs that it has rows in. -/
theorem rows_le {w heads nCtx nPast n : ℕ} (hheads : 0 < heads) (h : nPast + n ≤ nCtx) :
    w * n * heads + nPast * w ≤ heads * nCtx * w := by
  calc w * n * heads + nPast * w ≤ w * n * heads + nPast * w * heads :=
        Nat.add_le_add_left (Nat.le_mul_of_pos_right _ hheads) _
    _ = heads * (nPast + n) * w := by ring
    _ ≤ heads * nCtx * w := Nat.mul_le_mul_right w (Nat.mul_le_mul_left heads h)

/-- A view below `n_ctx` passes the assertion. -/
theorem viewFits {pass : T3Pass} (hpass : m.IsPass pass) {il nPast n : ℕ} (hil : il < m.nLayer)
    (h : nPast + n ≤ m.nCtx) : m.ViewFits pass (m.kvDst pass il nPast n) := by
  right
  have hrows := rows_le (w := m.rowBytes pass) (heads_pos hpass) h
  cases pass with
  | turbo =>
    have hembd : m.turboHeadDim * m.nHead ≤ m.nEmbd := Nat.div_mul_le_self _ _
    calc m.viewBytes .turbo (m.kvDst .turbo il nPast n) + (m.kvDst .turbo il nPast n).offset
        = (m.rowBytes .turbo * n * m.nHead + nPast * m.rowBytes .turbo) +
            il * (m.nHead * m.nCtx * m.rowBytes .turbo) := by
          simp only [viewBytes, kvDst, KvView.view3d, turboLayerOff, rowBytes]
          ring
      _ ≤ m.nHead * m.nCtx * m.rowBytes .turbo + il * (m.nHead * m.nCtx * m.rowBytes .turbo) :=
          Nat.add_le_add_right hrows _
      _ = (il + 1) * (m.turboHeadDim * m.nHead * m.nCtx * 4) := by
          rw [rowBytes]
          ring
      _ ≤ m.nLayer * (m.nEmbd * m.nCtx * 4) :=
          Nat.mul_le_mul hil (Nat.mul_le_mul_right _ (Nat.mul_le_mul_right _ hembd))
      _ = m.memoryBytes .turbo := by
          rw [memoryBytes]
          ring
  | mtl path =>
    have hslab : (il * 2 + 2) * (m.nKvHead * m.nCtx * m.shape.kvPosStride) ≤ m.shape.kvBytes := by
      calc (il * 2 + 2) * (m.nKvHead * m.nCtx * m.shape.kvPosStride)
          = (il + 1) * (2 * (m.nKvHead * m.nCtx * m.shape.kvPosStride)) := by ring
        _ ≤ m.nLayer * (2 * (m.nKvHead * m.nCtx * m.shape.kvPosStride)) :=
            Nat.mul_le_mul_right _ hil
        _ = m.shape.kvBytes := by
            rw [KvShape.kvBytes, KvShape.kvElementsB2, KvShape.kvPosStride, shape]
            ring
    have hrows : m.shape.kvPosStride * n * m.nKvHead + nPast * m.shape.kvPosStride ≤
      m.nKvHead * m.nCtx * m.shape.kvPosStride := hrows
    refine Nat.le_trans ?_ hslab
    cases path with
    | b1 isUncond =>
      have hhalf : (KvPath.b1 isUncond).half 0 ≤ 1 :=
        Nat.lt_succ_iff.1 (KvPath.half_lt Nat.one_pos)
      calc m.viewBytes (.mtl (.b1 isUncond)) (m.kvDst (.mtl (.b1 isUncond)) il nPast n) +
            (m.kvDst (.mtl (.b1 isUncond)) il nPast n).offset
          = (m.shape.kvPosStride * n * m.nKvHead + nPast * m.shape.kvPosStride) +
            (il * 2 + (KvPath.b1 isUncond).half 0) *
              (m.nKvHead * m.nCtx * m.shape.kvPosStride) := by
            simp only [viewBytes, kvDst, KvShape.kvDst, KvView.view3d, rowBytes,
              KvShape.layerOff_eq]
            rw [shape]
            ring
        _ ≤ m.nKvHead * m.nCtx * m.shape.kvPosStride +
            (il * 2 + 1) * (m.nKvHead * m.nCtx * m.shape.kvPosStride) :=
            Nat.add_le_add hrows (Nat.mul_le_mul_right _ (Nat.add_le_add_left hhalf _))
        _ = (il * 2 + 2) * (m.nKvHead * m.nCtx * m.shape.kvPosStride) := by ring
    | b2 =>
      calc m.viewBytes (.mtl .b2) (m.kvDst (.mtl .b2) il nPast n) +
            (m.kvDst (.mtl .b2) il nPast n).offset
          = (m.shape.kvPosStride * n * m.nKvHead + nPast * m.shape.kvPosStride) +
            m.shape.kvPosStride * n * m.nKvHead +
            il * 2 * (m.nKvHead * m.nCtx * m.shape.kvPosStride) := by
            simp only [viewBytes, kvDst, KvShape.kvDst, KvView.view4d, rowBytes,
              KvShape.layerOff_eq, KvPath.half]
            rw [shape]
            ring
        _ ≤ m.nKvHead * m.nCtx * m.shape.kvPosStride +
            m.nKvHead * m.nCtx * m.shape.kvPosStride +
            il * 2 * (m.nKvHead * m.nCtx * m.shape.kvPosStride) :=
            Nat.add_le_add_right
              (Nat.add_le_add hrows (Nat.le_trans (Nat.le_add_right _ _) hrows)) _
        _ = (il * 2 + 2) * (m.nKvHead * m.nCtx * m.shape.kvPosStride) := by ring

/-! ### Safety of the parts -/

theorem safe_getRows_iff (table : PosTable) (rows : List ℕ) :
    Safe m.Ok (m.getRows table rows) ↔ ∀ i ∈ rows, i < m.rows table := by
  rw [getRows]
  split_ifs
  · rw [safe_forM_iff]
    refine forall_congr' fun i => imp_congr_right fun _ => ?_
    rw [safe_seq_iff, safe_ensure_iff, safe_touch_iff, List.forall_mem_singleton]
    exact and_self_iff
  · rw [safe_touch_iff, List.forall_mem_map]
    rfl

theorem safe_buildLayers {pass : T3Pass} (hpass : m.IsPass pass) {nPast n : ℕ}
    (h : nPast + n ≤ m.nCtx) : Safe m.Ok (m.buildLayers pass nPast n) := by
  rw [buildLayers, safe_forM_iff]
  intro il hil
  have hil := List.mem_range.1 hil
  rw [safe_seq_iff, safe_ensure_iff, safe_ensure_iff, kvFull_eq]
  exact ⟨viewFits hpass hil h, viewFits hpass hil (by rwa [Nat.zero_add])⟩

/-- The writes of all layers are in their slabs exactly if the positions are below `n_ctx`. -/
theorem safe_runLayers_iff (pass : T3Pass) (nPast n : ℕ) :
    Safe m.Ok (m.runLayers pass nPast n) ↔ nPast + n ≤ m.nCtx := by
  rw [runLayers, safe_touch_iff, List.forall_mem_map]
  constructor
  · intro h
    exact (h 0 (List.mem_range.2 m.nLayer_pos)).1
  · intro h il _
    exact ok_kv h il

theorem toInt_eq_iff (n : ℕ) : toInt n = n ↔ n < 2 ^ 31 := by
  have hlt : toInt n < ((2 ^ 32 : ℕ) + 1) / 2 := Int.bmod_lt (Nat.two_pow_pos 32)
  constructor
  · intro h
    rw [h] at hlt
    omega
  · intro h
    exact Int.bmod_eq_of_le (by omega) (by omega)

theorem lengthsFit_turbo (hv : m.variant = .turbo) (nText : ℕ) : m.LengthsFit nText ↔
    m.nCtx < toInt (m.promptLen nText) ∨ m.promptLen nText < 2 ^ 31 := by
  rw [LengthsFit, hv]

theorem lengthsFit_mtl (hv : m.variant = .mtl) (nText : ℕ) :
    m.LengthsFit nText ↔ m.promptLenMtl nText ≤ m.nCtx ∧ nText ≤ m.rows .text := by
  rw [LengthsFit, hv]

/-- The prompt of Turbo is refused, or fits. -/
theorem safe_evalPrompt_iff (hv : m.variant = .turbo) (nText : ℕ) :
    Safe m.Ok (m.evalPrompt nText) ↔ m.LengthsFit nText := by
  rw [lengthsFit_turbo hv, evalPrompt]
  by_cases hlong : m.nCtx < toInt (m.promptLen nText)
  · rw [if_pos hlong]
    exact iff_of_true (safe_pure none) (.inl hlong)
  rw [if_neg hlong]
  simp only [safe_seq_iff, safe_ensure_iff, toInt_eq_iff, safe_pure, and_true]
  constructor
  · rintro ⟨hlt, -⟩
    exact .inr hlt
  · rintro (h | hlt)
    · exact absurd h hlong
    rw [(toInt_eq_iff _).2 hlt] at hlong
    have hle : 0 + m.promptLen nText ≤ m.nCtx := by omega
    have hpass : m.IsPass .turbo := hv
    refine ⟨hlt, safe_buildLayers hpass hle, ?_, (safe_runLayers_iff _ _ _).2 hle⟩
    rw [safe_getRows_iff]
    intro i hi
    have hi := List.mem_range.1 hi
    have hwpe := (m.turbo hv).2.2
    omega

/-- A pass over a multilingual prompt does not refuse it. -/
theorem safe_runPromptPass_iff (hv : m.variant = .mtl) (path : KvPath) (nText : ℕ) :
    Safe m.Ok (m.runPromptPass path nText) ↔ m.LengthsFit nText := by
  obtain ⟨-, -, hspeech, hcond, -⟩ := m.mtl hv
  rw [lengthsFit_mtl hv, runPromptPass]
  simp only [safe_seq_iff, safe_ensure_iff, toInt_eq_iff, safe_getRows_iff, safe_runLayers_iff,
    Nat.zero_add, List.mem_range]
  constructor
  · rintro ⟨-, -, -, htext, -, hle⟩
    refine ⟨hle, Nat.le_of_not_lt fun hlt => ?_⟩
    exact Nat.lt_irrefl _ (htext _ hlt)
  · rintro ⟨hle, htext⟩
    have hle' : 0 + m.promptLenMtl nText ≤ m.nCtx := by rwa [Nat.zero_add]
    have hpass : m.IsPass (.mtl path) := hv
    refine ⟨Nat.lt_of_le_of_lt hle m.nCtx_lt, safe_buildLayers hpass hle', ?_, ?_, ?_, hle⟩
    · exact fun i hi => Nat.lt_of_lt_of_le hi hcond
    · exact fun i hi => Nat.lt_of_lt_of_le hi htext
    · intro i hi
      obtain rfl := List.mem_singleton.1 hi
      exact hspeech

theorem safe_runPasses_iff {pass : KvPath → T3Eval Unit} {C : Prop}
    (h : ∀ path, Safe m.Ok (pass path) ↔ C) : Safe m.Ok (m.runPasses pass) ↔ C := by
  rw [runPasses]
  split_ifs
  · rw [safe_seq_iff, h, h, and_self_iff]
  · exact h .b2

theorem safe_evalPromptMtl_iff (hv : m.variant = .mtl) (nText : ℕ) :
    Safe m.Ok (m.evalPromptMtl nText) ↔ m.LengthsFit nText := by
  rw [evalPromptMtl, safe_seq_iff, safe_runPasses_iff fun path => safe_runPromptPass_iff hv path nText]
  exact and_iff_left (safe_pure _)

theorem safe_prompt_iff (m : T3Model) (nText : ℕ) :
    Safe m.Ok (m.prompt nText) ↔ m.LengthsFit nText := by
  rw [prompt]
  cases hv : m.variant with
  | turbo => exact safe_evalPrompt_iff hv nText
  | mtl => exact safe_evalPromptMtl_iff hv nText

/-- A step of Turbo below `n_ctx`. -/
theorem safe_evalStep (hv : m.variant = .turbo) {nPast : ℕ} (h : nPast + 1 ≤ m.nCtx) :
    Safe m.Ok (m.evalStep nPast) := by
  rw [evalStep]
  simp only [safe_seq_iff, safe_getRows_iff, safe_runLayers_iff, safe_pure, and_true]
  have hpass : m.IsPass .turbo := hv
  refine ⟨safe_buildLayers hpass h, fun i hi => ?_, h⟩
  obtain rfl := List.mem_singleton.1 hi
  exact Nat.lt_of_lt_of_le h (m.turbo hv).2.2

/-- A multilingual step below `n_ctx`: beyond the speech positions it is refused. -/
theorem safe_evalStepMtl (hv : m.variant = .mtl) {nPast : ℕ} (h : nPast + 1 ≤ m.nCtx) :
    Safe m.Ok (m.evalStepMtl nPast) := by
  obtain ⟨-, -, -, -, hmax, hrows⟩ := m.mtl hv
  rw [evalStepMtl]
  by_cases hstop : 0 < m.maxSpeechTokens ∧ m.maxSpeechTokens ≤ nPast
  · rw [if_pos hstop]
    exact safe_pure false
  rw [if_neg hstop, safe_seq_iff]
  refine ⟨(safe_runPasses_iff (C := True) fun path => iff_true_intro ?_).2 trivial, safe_pure true⟩
  have hpass : m.IsPass (.mtl path) := hv
  rw [runStepPass]
  simp only [safe_seq_iff, safe_getRows_iff, safe_runLayers_iff]
  refine ⟨safe_buildLayers hpass h, fun i hi => ?_, h⟩
  obtain rfl := List.mem_singleton.1 hi
  omega

theorem safe_step (m : T3Model) {nPast : ℕ} (h : nPast + 1 ≤ m.nCtx) :
    Safe m.Ok (m.step nPast) := by
  rw [step]
  cases hv : m.variant with
  | turbo => exact safe_evalStep hv h
  | mtl => exact safe_evalStepMtl hv h

/-- The steps check the context themselves, so all of them are safe. -/
theorem safe_decode (m : T3Model) (env : T3Env) (left nPast : ℕ) (generated : List ℤ) :
    Safe m.Ok (m.decode env left nPast generated) := by
  induction left generalizing nPast generated with
  | zero => exact safe_pure _
  | succ left ih =>
    rw [decode]
    split_ifs with hcancel hstop hctx
    · exact safe_pure _
    · exact safe_pure _
    · exact safe_pure _
    rw [safe_bind_iff]
    refine ⟨safe_step m (Nat.le_of_not_lt hctx), fun ok _ => ?_⟩
    dsimp only
    split_ifs
    · exact safe_pure _
    · exact safe_pure _
    · exact ih _ _

theorem safe_runT3_iff (m : T3Model) (env : T3Env) (nText : ℕ) (nPredict : ℤ) :
    Safe m.Ok (m.runT3 env nText nPredict) ↔ nText = 0 ∨ m.LengthsFit nText := by
  rw [runT3]
  by_cases hzero : nText = 0
  · rw [if_pos hzero]
    exact iff_of_true (safe_pure none) (.inl hzero)
  rw [if_neg hzero, safe_bind_iff, safe_prompt_iff, or_iff_right hzero]
  refine and_iff_left fun len? _ => ?_
  cases len? with
  | none => exact safe_pure none
  | some len =>
    dsimp only
    split_ifs
    · exact safe_pure none
    rw [safe_bind_iff]
    exact ⟨safe_decode m env _ len _, fun generated _ => safe_pure _⟩

/-- A multilingual model as the converter makes it. -/
def convertedMtl : T3Model where
  variant := .mtl
  backendIsCpu := true
  nCtx := 6148
  nLayer := 30
  nEmbd := 1024
  nHead := 16
  nKvHead := 16
  headDim := 64
  condPromptLen := 150
  perceiverQueries := 32
  emotionAdv := true
  maxSpeechTokens := 4096
  stopSpeechToken := 6562
  rows
    | .wpe => 0
    | .text => 2048
    | .speech => 4096
  nCtx_lt := by decide
  nLayer_pos := by decide
  turbo := fun hv => nomatch hv
  mtl := fun _ => by decide

/-- The whole of a run stays in bounds, whatever is sampled and however many steps there are,
exactly if the engine refuses the text or the lengths fit. -/
theorem t3_bounds (file : T3Model) (requestedCtx : ℤ) (nText : ℕ) :
    (∀ env nPredict, Safe (file.load requestedCtx).Ok
      ((file.load requestedCtx).runT3 env nText nPredict)) ↔
    nText = 0 ∨ (file.load requestedCtx).LengthsFit nText := by
  constructor
  · intro h
    exact (safe_runT3_iff _ ⟨fun _ => 0, fun _ => false⟩ nText 0).1 (h _ _)
  · intro h env nPredict
    exact (safe_runT3_iff _ env nText nPredict).2 h

/-- A text of five tokens in a context of 64. -/
theorem t3_bounds_context_64 : ∀ env nPredict, Safe (convertedMtl.load 64).Ok
    ((convertedMtl.load 64).runT3 env 5 nPredict) :=
  (t3_bounds convertedMtl 64 5).2 (.inr ((lengthsFit_mtl rfl 5).2 (by decide)))

/-! ### A multilingual prompt that is too long -/

/-- With a context of 40, five tokens are written past it. -/
theorem not_t3_bounds :
    ¬∀ (file : T3Model) (requestedCtx : ℤ) (nText : ℕ) (env : T3Env) (nPredict : ℤ),
      Safe (file.load requestedCtx).Ok ((file.load requestedCtx).runT3 env nText nPredict) := by
  intro h
  have hsafe := h convertedMtl 40 5 ⟨fun _ => 0, fun _ => false⟩ 1
  rw [safe_runT3_iff] at hsafe
  obtain hzero | hfit := hsafe
  · cases hzero
  · have hle : (41 : ℕ) ≤ 40 := ((lengthsFit_mtl rfl 5).1 hfit).1
    omega

end T3Model

end Chatterbox

end WhisperCpp
