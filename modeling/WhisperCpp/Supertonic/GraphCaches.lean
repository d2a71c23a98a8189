import WhisperCpp.Library.Machine
import Mathlib.Data.Int.Notation
import Mathlib.Data.List.Nodup
import Mathlib.Logic.Function.Basic
import Mathlib.Tactic.SplitIfs

/-!
# The thread-local graphs of Supertonic

A synthesis evaluates some thirty graphs that are kept from one call to the next. The allocator lets
an evaluation overwrite every input that is not an output, so an input must be written before each
evaluation. The masks of the relative-position attention are written where the graph is built, and
nowhere else.

## Main definitions

* `StageCall` — an evaluation of a cached graph, with its inputs and where they are written
* `SynthCall.stages` — the evaluations of a synthesis
* `Thread.evaluate`, `Thread.synthesize` — what they do to the caches of a thread
* `Thread.HistoryFree` — all inputs are written, and the results are those of a new thread
* `Thread.Fits` — no relative-position graph is found in its cache

## Main results

* `clobbered_run` — nothing is known of an input from one synthesis to the next
* `historyFree_iff` — a synthesis of any run is free of history exactly if it fits
-/

namespace WhisperCpp

namespace Supertonic

/-! ### Stages -/

/-- The thread-local caches. -/
inductive Slot
  | relpos (idx : ℕ)
  | ffn (idx : ℕ)
  | speech (idx : ℕ)
  | attn (group : ℕ)
  | resStyleQkv (group : ℕ)
  | styleAttn (group : ℕ)
  | group (group : ℕ)
  | tail
  | vocoder
  deriving DecidableEq

/-- What a cache compares: the model with its generation, and what the graph is built from. -/
structure BuildArgs where
  model : ℕ
  generation : ℕ
  dims : List ℕ
  sources : List String
  trace : Bool
  deriving DecidableEq

/-- An evaluation of a cached graph. The inputs are written by the build or by the call. -/
structure StageCall where
  slot : Slot
  dims : List ℕ
  sources : List String := []
  inputs : List String
  atBuild : List String := []
  atCall : List String

/-- `vector_estimator:onnx::MatMul_<n>`. -/
def matMul (n : ℕ) : String := "vector_estimator:onnx::MatMul_" ++ toString n

/-- `vector_main_block`. -/
def vectorMainBlock (index : ℕ) : String :=
  "vector_estimator:tts.ttl.vector_field.main_blocks." ++ toString index

/-- The names of `masks`. -/
def relposMasks : List String := (List.range 9).map fun i => "relpos_mask_" ++ toString i

namespace StageCall

/-- `relpos_attention_ggml`. -/
def relpos (idx L : ℕ) : StageCall where
  slot := .relpos idx
  dims := [idx, L, 256]
  inputs := "relpos_x" :: relposMasks
  atBuild := relposMasks
  atCall := ["relpos_x"]

/-- `ffn_block_ggml`. -/
def ffn (idx L : ℕ) : StageCall where
  slot := .ffn idx
  dims := [idx, L, 256]
  inputs := ["text_ffn_in"]
  atCall := ["text_ffn_in"]

/-- The cached part of `speech_prompted_attention_ggml`. -/
def speech (idx L : ℕ) : StageCall where
  slot := .speech idx
  dims := [idx, L, 50]
  sources :=
    ["text_encoder:" ++ if idx = 0 then "onnx::MatMul_3681" else "onnx::MatMul_3685",
      "text_encoder:tts.ttl.speech_prompted_text_encoder.attention" ++ toString (idx + 1) ++
        ".out_fc.linear.bias"]
  inputs := ["speech_attn_q_dlh", "speech_attn_k_dlh", "speech_attn_v_dlh"]
  atCall := ["speech_attn_q_dlh", "speech_attn_k_dlh", "speech_attn_v_dlh"]

/-- `run_text_attention_cache`. -/
def textAttention (slot : Slot) (qLen kvLen nHeads headDim : ℕ) (outW outB : String) :
    StageCall where
  slot := slot
  dims := [qLen, kvLen, nHeads, headDim]
  sources := [outW, outB]
  inputs := ["vector_attn_q_tc", "vector_attn_k_tc", "vector_attn_v_tc"]
  atCall := ["vector_attn_q_tc", "vector_attn_k_tc", "vector_attn_v_tc"]

/-- `att0_cache`, and `g1_attn_cache` to `g3_attn_cache`. -/
def attn (g L textLen : ℕ) : StageCall :=
  textAttention (.attn g) L textLen 4 64 (matMul (3110 + 45 * g))
    (vectorMainBlock (6 * g + 3) ++ ".attn.out_fc.linear.bias")

/-- `style0_attn_cache`, and `g1_style_attn_cache` to `g3_style_attn_cache`. -/
def styleAttn (g L : ℕ) : StageCall :=
  textAttention (.styleAttn g) L 50 2 128 (matMul (3119 + 45 * g))
    (vectorMainBlock (6 * g + 5) ++ ".attention.out_fc.linear.bias")

/-- `run_res_style_qkv_cache`. -/
def resStyleQkv (g L : ℕ) : StageCall where
  slot := .resStyleQkv g
  dims := [L, 512, 6 * g + 3, 6 * g + 4, 6 * g + 5]
  sources := [matMul (3116 + 45 * g), matMul (3117 + 45 * g), matMul (3118 + 45 * g)]
  inputs := ["res_style_lhs", "res_style_rhs", "res_style_ttl_lc", "res_style_kctx_lc"]
  atCall := ["res_style_lhs", "res_style_rhs", "res_style_ttl_lc", "res_style_kctx_lc"]

/-- `run_group_graph_cache`. -/
def group (g L textLen : ℕ) : StageCall where
  slot := .group g
  dims := [L, 512, textLen, g, 6 * g, 6 * g + 1, 6 * g + 2]
  sources := [matMul (3095 + 45 * g), matMul (3101 + 45 * g), matMul (3102 + 45 * g),
    matMul (3103 + 45 * g)]
  inputs := ["vector_group_in", "vector_group_temb", "vector_group_text"]
  atCall := ["vector_group_in", "vector_group_temb", "vector_group_text"]

/-- `run_tail_graph_cache`. -/
def tail (L Cin totalSteps : ℕ) : StageCall where
  slot := .tail
  dims := [L, 512, Cin, totalSteps]
  inputs := ["tail_in", "tail_mask", "tail_noise"]
  atCall := ["tail_in", "tail_mask", "tail_noise"]

/-- `supertonic_vocoder_forward_ggml`. -/
def vocoder (latentLen : ℕ) : StageCall where
  slot := .vocoder
  dims := [latentLen]
  inputs := ["vocoder_in", "vocoder_bn_scale", "vocoder_bn_shift"]
  atCall := ["vocoder_in", "vocoder_bn_scale", "vocoder_bn_shift"]

end StageCall

/-- A call of `synthesize`. `data` is the text, the voice and the noise; `cancelled` is what the polls
of the cancel flag give. -/
structure SynthCall (D : Type*) where
  /-- The address of the model. -/
  model : ℕ
  generation : ℕ
  data : D
  textLen : ℕ
  latentLen : ℕ
  latentChannels : ℕ
  steps : ℕ
  durationOk : Bool
  cancelled : ℕ → Bool

namespace SynthCall

variable {D : Type*} (c : SynthCall D)

/-- What the caches of a stage are compared with. The engine asks for no trace. -/
def args (st : StageCall) : BuildArgs := ⟨c.model, c.generation, st.dims, st.sources, false⟩

/-- `supertonic_text_encoder_forward_ggml`. -/
def textStages : List StageCall :=
  (List.range 4).flatMap (fun i => [.relpos i c.textLen, .ffn i c.textLen]) ++
    [.speech 0 c.textLen, .speech 1 c.textLen]

/-- `supertonic_vector_step_ggml`. -/
def vectorStages : List StageCall :=
  [.attn 0 c.latentLen c.textLen, .resStyleQkv 0 c.latentLen, .styleAttn 0 c.latentLen] ++
    [1, 2, 3].flatMap (fun g => [.group g c.latentLen c.textLen, .attn g c.latentLen c.textLen,
      .resStyleQkv g c.latentLen, .styleAttn g c.latentLen]) ++
    [.tail c.latentLen c.latentChannels c.steps]

/-- The loop over the steps, from a step, and what comes after it. -/
def stepStages : ℕ → ℕ → List StageCall
  | 0, step =>
    if c.cancelled (2 + step) || c.latentLen == 0 then [] else [.vocoder c.latentLen]
  | left + 1, step =>
    if c.cancelled (2 + step) then [] else c.vectorStages ++ stepStages left (step + 1)

/-- The synthesis gets to the text encoder. -/
def encodesText : Bool := !c.cancelled 0 && c.durationOk && !c.cancelled 1

/-- The evaluations of a synthesis, in order. -/
def stages : List StageCall :=
  if c.encodesText then c.textStages ++ c.stepStages c.steps 0 else []

end SynthCall

/-! ### The caches of a thread -/

/-- What is computed: what a build and a call write, and what a graph gives for its inputs. -/
structure Values (D V R : Type*) where
  /-- The masks. -/
  build : BuildArgs → String → V
  /-- From the call, and the results of its stages so far. -/
  feed : SynthCall D → List R → StageCall → String → V
  compute : BuildArgs → List (Option V) → R

/-- A cached graph: what it was built from, and what is in the memory of its inputs, where this is
known. -/
structure GraphCache (V : Type*) where
  key : Option BuildArgs
  memory : String → Option V

/-- The caches of a thread. -/
abbrev Thread (V : Type*) : Type _ := Slot → GraphCache V

/-- An evaluation, with what it finds in the inputs of its graph. -/
structure Evaluation (V : Type*) where
  args : BuildArgs
  read : List (Option V)

/-- Every input has been written since the last evaluation. -/
def Evaluation.Fed {V : Type*} (e : Evaluation V) : Prop := none ∉ e.read

namespace Thread

variable {D V R : Type*} (W : Values D V R)

/-- A new thread. -/
def init : Thread V := fun _ => ⟨none, fun _ => none⟩

/-- The cache of a stage after the lookup, built where it is not found. -/
def lookup (t : Thread V) (c : SynthCall D) (st : StageCall) : GraphCache V :=
  if (t st.slot).key = some (c.args st) then t st.slot
  else ⟨some (c.args st), fun x => if x ∈ st.atBuild then some (W.build (c.args st) x) else none⟩

/-- The memory of the inputs after the call has written its own. -/
def fed (t : Thread V) (c : SynthCall D) (results : List R) (st : StageCall) (x : String) :
    Option V :=
  if x ∈ st.atCall then some (W.feed c results st x) else (t.lookup W c st).memory x

/-- The evaluation of a stage. -/
def evaluate (t : Thread V) (c : SynthCall D) (results : List R) (st : StageCall) : Evaluation V :=
  ⟨c.args st, st.inputs.map (t.fed W c results st)⟩

/-- The caches after the evaluation of a stage. Nothing is known of the inputs. -/
def after (c : SynthCall D) (t : Thread V) (st : StageCall) : Thread V :=
  Function.update t st.slot ⟨some (c.args st), fun _ => none⟩

/-- The evaluations of stages one after the other, with the results so far. -/
def evaluateAll (c : SynthCall D) : List StageCall → List R → Thread V → List (Evaluation V)
  | [], _, _ => []
  | st :: rest, results, t =>
    let e := t.evaluate W c results st
    e :: evaluateAll c rest (results ++ [W.compute e.args e.read]) (t.after c st)

/-- The evaluations of a synthesis. -/
def synthesize (c : SynthCall D) (t : Thread V) : List (Evaluation V) :=
  evaluateAll W c c.stages [] t

/-- The caches after a synthesis. -/
def step (c : SynthCall D) (t : Thread V) : Thread V := c.stages.foldl (after c) t

/-- A synthesis is free of history: its graphs are fed, and it does what a new thread does. -/
def HistoryFree (t : Thread V) (c : SynthCall D) : Prop :=
  (∀ e ∈ t.synthesize W c, e.Fed) ∧ t.synthesize W c = init.synthesize W c

/-- If the synthesis gets to the text encoder, no relative-position graph is cached for its model and
text length. -/
def Fits (t : Thread V) (c : SynthCall D) : Prop :=
  c.encodesText = true →
    ∀ idx < 4, (t (.relpos idx)).key ≠ some (c.args (.relpos idx c.textLen))

/-- Nothing is known of any input. -/
def Clobbered (t : Thread V) : Prop := ∀ slot x, (t slot).memory x = none

/-- A stage does not rest on a build before its call. -/
def Ready (c : SynthCall D) (t : Thread V) (st : StageCall) : Prop :=
  st.atBuild = [] ∨ (t st.slot).key ≠ some (c.args st)

end Thread

/-- Every input is written by the build or by the call. -/
def StageCall.Covered (st : StageCall) : Prop := ∀ x ∈ st.inputs, x ∈ st.atCall ∨ x ∈ st.atBuild

/-- No cache with inputs that its build writes is used twice. -/
def StageCall.MasksOnce (calls : List StageCall) : Prop :=
  calls.Pairwise fun st st' => st'.atBuild = [] ∨ st'.slot ≠ st.slot

namespace Thread

variable {D V R : Type*} {W : Values D V R} {t t' : Thread V} {c : SynthCall D} {results : List R}
  {st st' : StageCall}

/-! ### One stage -/

theorem clobbered_init : Clobbered (init : Thread V) := fun _ _ => rfl

theorem Clobbered.after (h : t.Clobbered) : (t.after c st).Clobbered := by
  intro slot x
  rw [Thread.after]
  by_cases hslot : slot = st.slot
  · rw [hslot, Function.update_self]
  · rw [Function.update_of_ne hslot]
    exact h slot x

theorem ready_init (c : SynthCall D) (st : StageCall) : Ready c (init : Thread V) st :=
  .inr nofun

/-- A stage that is ready at first is ready when its turn comes. -/
theorem ready_after_iff (honce : st'.atBuild = [] ∨ st'.slot ≠ st.slot) :
    Ready c (t.after c st) st' ↔ Ready c t st' := by
  rcases honce with hbuild | hslot
  · exact iff_of_true (.inl hbuild) (.inl hbuild)
  · rw [Ready, Ready, after, Function.update_of_ne hslot]

/-- What a stage that is ready finds in its inputs. -/
theorem fed_eq (hready : t.Ready c st) {x : String} (hx : x ∈ st.atCall ∨ x ∈ st.atBuild) :
    t.fed W c results st x =
      some (if x ∈ st.atCall then W.feed c results st x else W.build (c.args st) x) := by
  rw [fed]
  split_ifs with hcall
  · rfl
  · have hbuild : x ∈ st.atBuild := hx.resolve_left hcall
    have hmiss : (t st.slot).key ≠ some (c.args st) :=
      hready.resolve_left (List.ne_nil_of_mem hbuild)
    rw [lookup, if_neg hmiss]
    exact if_pos hbuild

/-- A stage that is ready is fed. -/
theorem fed_evaluate (hcovered : st.Covered) (hready : t.Ready c st) :
    (t.evaluate W c results st).Fed := by
  intro hnone
  obtain ⟨x, hx, hread⟩ := List.mem_map.mp hnone
  rw [fed_eq hready (hcovered x hx)] at hread
  cases hread

/-- A stage that is ready does not depend on the thread. -/
theorem evaluate_eq (hcovered : st.Covered) (hready : t.Ready c st) (hready' : t'.Ready c st) :
    t.evaluate W c results st = t'.evaluate W c results st := by
  have hread : st.inputs.map (t.fed W c results st) = st.inputs.map (t'.fed W c results st) := by
    refine List.map_congr_left fun x hx => ?_
    rw [fed_eq hready (hcovered x hx), fed_eq hready' (hcovered x hx)]
  rw [evaluate, evaluate, hread]

/-- A stage that is not ready has an input that is not fed. -/
theorem not_fed_evaluate (hclobbered : t.Clobbered) (hready : ¬t.Ready c st)
    (hmask : st.atBuild ≠ [] → ∃ x ∈ st.inputs, x ∉ st.atCall) :
    ¬(t.evaluate W c results st).Fed := by
  obtain ⟨hbuild, hhit⟩ := not_or.mp hready
  obtain ⟨x, hx, hcall⟩ := hmask hbuild
  intro hfed
  refine hfed (List.mem_map.mpr ⟨x, hx, ?_⟩)
  rw [fed, if_neg hcall, lookup, if_pos (not_not.mp hhit)]
  exact hclobbered st.slot x

/-! ### All stages -/

variable {calls : List StageCall}

theorem Clobbered.foldl (h : t.Clobbered) : (calls.foldl (Thread.after c) t).Clobbered := by
  induction calls generalizing t with
  | nil => exact h
  | cons st rest ih => exact ih h.after

/-- Stages that are ready are fed, and do not depend on the thread. -/
theorem evaluateAll_eq (honce : StageCall.MasksOnce calls) (hcovered : ∀ st ∈ calls, st.Covered)
    (hready : ∀ st ∈ calls, t.Ready c st) (hready' : ∀ st ∈ calls, t'.Ready c st) :
    (∀ e ∈ t.evaluateAll W c calls results, e.Fed) ∧
      t.evaluateAll W c calls results = t'.evaluateAll W c calls results := by
  induction calls generalizing t t' results with
  | nil => exact ⟨nofun, rfl⟩
  | cons st rest ih =>
    obtain ⟨hst, hrest⟩ := List.pairwise_cons.mp honce
    obtain ⟨hcov, hcovRest⟩ := List.forall_mem_cons.mp hcovered
    obtain ⟨hr, hrRest⟩ := List.forall_mem_cons.mp hready
    obtain ⟨hr', hrRest'⟩ := List.forall_mem_cons.mp hready'
    rw [evaluateAll, evaluateAll, ← evaluate_eq hcov hr hr']
    obtain ⟨hfed, htail⟩ := ih hrest hcovRest
      (fun st' hst' => (ready_after_iff (hst st' hst')).mpr (hrRest st' hst'))
      (fun st' hst' => (ready_after_iff (hst st' hst')).mpr (hrRest' st' hst'))
    exact ⟨List.forall_mem_cons.mpr ⟨fed_evaluate hcov hr, hfed⟩, congrArg _ htail⟩

/-- Where all graphs are fed, the stages were ready. -/
theorem ready_of_fed (hclobbered : t.Clobbered) (honce : StageCall.MasksOnce calls)
    (hmask : ∀ st ∈ calls, st.atBuild ≠ [] → ∃ x ∈ st.inputs, x ∉ st.atCall)
    (hfed : ∀ e ∈ t.evaluateAll W c calls results, e.Fed) : ∀ st ∈ calls, t.Ready c st := by
  induction calls generalizing t results with
  | nil => exact nofun
  | cons st rest ih =>
    obtain ⟨hst, hrest⟩ := List.pairwise_cons.mp honce
    obtain ⟨hm, hmRest⟩ := List.forall_mem_cons.mp hmask
    rw [evaluateAll] at hfed
    obtain ⟨hf, hfRest⟩ := List.forall_mem_cons.mp hfed
    refine List.forall_mem_cons.mpr ⟨?_, fun st' hst' => ?_⟩
    · by_contra hready
      exact not_fed_evaluate hclobbered hready hm hf
    · exact (ready_after_iff (hst st' hst')).mp
        (ih hclobbered.after hrest hmRest hfRest st' hst')

end Thread

/-! ### The stages of a synthesis -/

namespace SynthCall

variable {D : Type*} {c : SynthCall D} {st : StageCall}

/-- A stage that writes all its inputs at each call. -/
def FedByCall (st : StageCall) : Prop := st.atBuild = [] ∧ st.inputs = st.atCall

theorem fedByCall_vectorStages (h : st ∈ c.vectorStages) : FedByCall st := by
  rw [vectorStages] at h
  simp only [List.flatMap_cons, List.flatMap_nil, List.cons_append, List.nil_append,
    List.mem_cons, List.not_mem_nil, or_false] at h
  rcases h with rfl | rfl | rfl | rfl | rfl | rfl | rfl | rfl | rfl | rfl | rfl | rfl | rfl | rfl |
    rfl | rfl
  all_goals exact ⟨rfl, rfl⟩

theorem fedByCall_stepStages {left step : ℕ} (h : st ∈ c.stepStages left step) : FedByCall st := by
  induction left generalizing step with
  | zero =>
    rw [stepStages] at h
    split_ifs at h
    · exact nomatch h
    · rw [List.mem_singleton.mp h]
      exact ⟨rfl, rfl⟩
  | succ left ih =>
    rw [stepStages] at h
    split_ifs at h
    · exact nomatch h
    · exact (List.mem_append.mp h).elim fedByCall_vectorStages ih

/-- The stages of the text encoder. -/
theorem mem_textStages : st ∈ c.textStages ↔
    (∃ idx < 4, st = .relpos idx c.textLen ∨ st = .ffn idx c.textLen) ∨
      st = .speech 0 c.textLen ∨ st = .speech 1 c.textLen := by
  rw [textStages, List.mem_append, List.mem_flatMap]
  simp only [List.mem_range, List.mem_cons, List.not_mem_nil, or_false]

/-- A stage either writes all its inputs at each call, or is a relative-position attention. -/
theorem mem_stages (h : st ∈ c.stages) :
    FedByCall st ∨ c.encodesText = true ∧ ∃ idx < 4, st = .relpos idx c.textLen := by
  rw [stages] at h
  split_ifs at h with htext
  · obtain hmem | hmem := List.mem_append.mp h
    · obtain ⟨idx, hidx, rfl | rfl⟩ | rfl | rfl := mem_textStages.mp hmem
      · exact .inr ⟨htext, idx, hidx, rfl⟩
      all_goals exact .inl ⟨rfl, rfl⟩
    · exact .inl (fedByCall_stepStages hmem)
  · exact nomatch h

theorem relpos_mem_stages (htext : c.encodesText = true) {idx : ℕ} (hidx : idx < 4) :
    .relpos idx c.textLen ∈ c.stages := by
  rw [stages, if_pos htext]
  exact List.mem_append_left _ (mem_textStages.mpr (.inl ⟨idx, hidx, .inl rfl⟩))

theorem covered_relpos (idx L : ℕ) : (StageCall.relpos idx L).Covered := by
  intro x hx
  obtain rfl | hmask := List.mem_cons.mp hx
  · exact .inl (List.mem_singleton_self _)
  · exact .inr hmask

theorem covered_stages : ∀ st ∈ c.stages, st.Covered := by
  intro st hst
  obtain ⟨-, hinputs⟩ | ⟨-, idx, -, rfl⟩ := mem_stages hst
  · intro x hx
    rw [hinputs] at hx
    exact .inl hx
  · exact covered_relpos idx c.textLen

/-- The masks are not written by the calls. -/
theorem mask_stages : ∀ st ∈ c.stages, st.atBuild ≠ [] → ∃ x ∈ st.inputs, x ∉ st.atCall := by
  intro st hst hbuild
  obtain ⟨hnil, -⟩ | ⟨-, idx, -, rfl⟩ := mem_stages hst
  · exact absurd hnil hbuild
  · refine ⟨"relpos_mask_0", ?_, ?_⟩
    · show _ ∈ "relpos_x" :: relposMasks
      decide
    · show _ ∉ ["relpos_x"]
      decide

theorem masksOnce_stages (c : SynthCall D) : StageCall.MasksOnce c.stages := by
  rw [stages]
  split_ifs
  · refine List.pairwise_append.mpr ⟨?_, ?_, fun _ _ st hst => .inl (fedByCall_stepStages hst).1⟩
    · have hlist : c.textStages = [.relpos 0 c.textLen, .ffn 0 c.textLen, .relpos 1 c.textLen,
          .ffn 1 c.textLen, .relpos 2 c.textLen, .ffn 2 c.textLen, .relpos 3 c.textLen,
          .ffn 3 c.textLen, .speech 0 c.textLen, .speech 1 c.textLen] := rfl
      rw [hlist]
      simp [StageCall.relpos, StageCall.ffn, StageCall.speech]
    · exact List.pairwise_of_forall_mem_list fun _ _ st hst => .inl (fedByCall_stepStages hst).1
  · exact .nil

end SynthCall

namespace Thread

variable {D V R : Type*} {t : Thread V} {c : SynthCall D}

/-- All stages are ready exactly if the synthesis fits. -/
theorem ready_stages_iff : (∀ st ∈ c.stages, t.Ready c st) ↔ t.Fits c := by
  constructor
  · intro h htext idx hidx
    exact (h _ (SynthCall.relpos_mem_stages htext hidx)).resolve_left nofun
  · intro h st hst
    obtain ⟨hbuild, -⟩ | ⟨htext, idx, hidx, rfl⟩ := SynthCall.mem_stages hst
    · exact .inl hbuild
    · exact .inr (h htext idx hidx)

theorem clobbered_run (xs : ℕ → SynthCall D) (n : ℕ) :
    (Machine.run step xs (init : Thread V) n).Clobbered :=
  Machine.run_invariant (F := fun _ _ => True) (fun _ _ _ h => h.foldl) clobbered_init
    fun _ _ => trivial

/-- In a run of a thread, a synthesis is free of history exactly if no relative-position graph is
found in its cache. -/
theorem historyFree_iff (W : Values D V R) (xs : ℕ → SynthCall D) (n : ℕ) :
    (Machine.run step xs init n).HistoryFree W (xs n) ↔
      (Machine.run step xs (init : Thread V) n).Fits (xs n) := by
  have honce := SynthCall.masksOnce_stages (xs n)
  have hcovered := SynthCall.covered_stages (c := xs n)
  rw [← ready_stages_iff]
  constructor
  · rintro ⟨hfed, -⟩
    exact ready_of_fed (clobbered_run xs n) honce SynthCall.mask_stages hfed
  · intro hready
    exact evaluateAll_eq honce hcovered hready fun st _ => ready_init (xs n) st

/-- Two syntheses of three tokens on one engine. -/
def threeTokens : SynthCall Unit where
  model := 0
  generation := 1
  data := ()
  textLen := 3
  latentLen := 2
  latentChannels := 144
  steps := 1
  durationOk := true
  cancelled _ := false

/-- The second synthesis of a text of the same length reads masks that the first has overwritten. -/
theorem not_historyFree : ¬∀ (W : Values Unit Unit Unit) (xs : ℕ → SynthCall Unit) (n : ℕ),
    (Machine.run step xs init n).HistoryFree W (xs n) := by
  intro h
  have hhistory := h ⟨fun _ _ => (), fun _ _ _ _ => (), fun _ _ => ()⟩ (fun _ => threeTokens) 1
  have hready := ready_of_fed (clobbered_run (fun _ => threeTokens) 1)
    (SynthCall.masksOnce_stages threeTokens) SynthCall.mask_stages hhistory.1
  have hmiss := (ready_stages_iff.mp hready) rfl 0 (by decide)
  exact hmiss (by decide)

end Thread

end Supertonic

end WhisperCpp
