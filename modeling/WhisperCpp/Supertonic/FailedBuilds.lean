import WhisperCpp.Chatterbox.CachedGraphs
import WhisperCpp.Supertonic.GraphCaches

/-!
# Builds of cached graphs that throw

The builds of the thread-local caches of Supertonic, with all points at which they throw, and what
happens after an exception, here and in S3Gen. The exception is caught or reaches the caller of the
engine, and the next synthesis goes on with the caches as they were left: with the key of a graph
that is not complete.

## Main definitions

* `Slot.graph` — the builds of the caches
* `CachedStage` — the stages of S3Gen and Supertonic with a cached graph

## Main results

* `CachedStage.consistent_iff` — in a run on a cache, no call evaluates an incomplete graph exactly
  if no build that throws past its key is followed by a call with the same key
-/

namespace WhisperCpp

namespace Supertonic

open CachedBuild

/-! ### The builds -/

/-- `conv1d_k1_channel_time_ggml` and `dense_matmul_time_ggml`, with `require_source_tensor` of their
arguments. -/
def requireDense (weight bias : String) : List BuildOp := .require weight :: BuildOp.requireBias bias

/-- The nodes of `build_relpos_cache`. -/
def relposNodes (idx : ℕ) : List BuildOp :=
  let p := "text_encoder:tts.ttl.text_encoder.attn_encoder.attn_layers." ++ toString idx
  requireDense (p ++ ".conv_q.weight") (p ++ ".conv_q.bias") ++
    requireDense (p ++ ".conv_k.weight") (p ++ ".conv_k.bias") ++
    requireDense (p ++ ".conv_v.weight") (p ++ ".conv_v.bias") ++
    [.require (p ++ ".emb_rel_k"), .require (p ++ ".emb_rel_v")] ++
    requireDense (p ++ ".conv_o.weight") (p ++ ".conv_o.bias") ++ [.expand "relpos_out"]

/-- The nodes of `build_ffn_cache`. -/
def ffnNodes (idx : ℕ) : List BuildOp :=
  let p := "text_encoder:tts.ttl.text_encoder.attn_encoder.ffn_layers." ++ toString idx
  requireDense (p ++ ".conv_1.weight") (p ++ ".conv_1.bias") ++
    requireDense (p ++ ".conv_2.weight") (p ++ ".conv_2.bias") ++ [.expand "text_ffn_out"]

/-- The nodes of `build_speech_attention_cache`. -/
def speechNodes (outWSource outBSource : String) : List BuildOp :=
  requireDense outWSource outBSource ++ [.expand "speech_attn_out"]

/-- The nodes of `build_text_attention_cache`. -/
def textAttentionNodes (outWSource outBSource : String) : List BuildOp :=
  .expand "vector_attn_ctx" :: requireDense outWSource outBSource ++ [.expand "vector_attn_out"]

/-- `vector_convnext_ggml`. -/
def vectorConvnext (p : String) : List BuildOp :=
  requireDense (p ++ ".dwconv.weight") (p ++ ".dwconv.bias") ++
    [.require (p ++ ".norm.norm.weight"), .require (p ++ ".norm.norm.bias"),
      .repeatLike (p ++ ".norm.norm.weight"), .repeatLike (p ++ ".norm.norm.bias")] ++
    requireDense (p ++ ".pwconv1.weight") (p ++ ".pwconv1.bias") ++
    [.require (p ++ ".pwconv2.weight"), .require (p ++ ".pwconv2.bias"), .require (p ++ ".gamma"),
      .repeatLike (p ++ ".pwconv2.bias"), .repeatLike (p ++ ".gamma")]

/-- `post_name` of a group. -/
def groupPost (g : ℕ) : String :=
  "ve_group" ++ toString g ++ "_block" ++ toString (6 * g + 2) ++ "_convnext0"

/-- `q_name`, `k_name` and `v_name` of a group. -/
def groupQkvNames (g : ℕ) : List String :=
  ["_attn_q", "_attn_k", "_attn_v"].map fun name => "ve_g" ++ toString g ++ name

/-- The nodes of `build_group_graph_cache`. -/
def groupNodes (g : ℕ) : List BuildOp :=
  let attn := vectorMainBlock (6 * g + 3) ++ ".attn."
  (List.range 4).flatMap (fun j =>
    vectorConvnext (vectorMainBlock (6 * g) ++ ".convnext." ++ toString j)) ++
  [.require (matMul (3095 + 45 * g)),
    .require (vectorMainBlock (6 * g + 1) ++ ".linear.linear.bias"), .repeatLike "t_proj"] ++
  vectorConvnext (vectorMainBlock (6 * g + 2) ++ ".convnext.0") ++
  [.expand (groupPost g)] ++
  requireDense (matMul (3101 + 45 * g)) (attn ++ "W_query.linear.bias") ++
  requireDense (matMul (3102 + 45 * g)) (attn ++ "W_key.linear.bias") ++
  requireDense (matMul (3103 + 45 * g)) (attn ++ "W_value.linear.bias") ++
  (groupQkvNames g).map .expand

/-- `post_name` after the attention of a group. -/
def resStylePost (g : ℕ) : String :=
  (if g = 0 then "ve" else "ve_g" ++ toString g) ++ "_block" ++ toString (6 * g + 4) ++ "_convnext0"

/-- `q_name`, `k_name` and `v_name` after the attention of a group. -/
def resStyleQkvNames (g : ℕ) : List String :=
  ["_q", "_k_tanh", "_v"].map fun name =>
    (if g = 0 then "ve_style0" else "ve_g" ++ toString g ++ "_style") ++ name

/-- The nodes of `build_res_style_qkv_cache`. -/
def resStyleNodes (g : ℕ) : List BuildOp :=
  let norm := vectorMainBlock (6 * g + 3) ++ ".norm.norm"
  let style := vectorMainBlock (6 * g + 5) ++ ".attention."
  [.require (norm ++ ".weight"), .require (norm ++ ".bias"), .repeatLike (norm ++ ".weight"),
    .repeatLike (norm ++ ".bias")] ++
  vectorConvnext (vectorMainBlock (6 * g + 4) ++ ".convnext.0") ++
  [.expand (resStylePost g)] ++
  requireDense (matMul (3116 + 45 * g)) (style ++ "W_query.linear.bias") ++
  requireDense (matMul (3117 + 45 * g)) (style ++ "W_key.linear.bias") ++
  requireDense (matMul (3118 + 45 * g)) (style ++ "W_value.linear.bias") ++
  (resStyleQkvNames g).map .expand

/-- The nodes of `build_tail_graph_cache`, with or without an operation of its own for the end. -/
def tailNodes (cblas : Bool) : List BuildOp :=
  (List.range 4).flatMap (fun j => vectorConvnext
    ("vector_estimator:tts.ttl.vector_field.last_convnext.convnext." ++ toString j)) ++
  .require "vector_estimator:tts.ttl.vector_field.proj_out.net.weight" ::
  (if cblas then [] else [.repeatLike "tail_mask", .expand "ve_proj_out"]) ++
  [.expand "ve_next_latent_tc"]

/-- The nodes of `build_supertonic_vocoder_cache`. The tensors are bound where the model is loaded. -/
def vocoderNodes : List BuildOp :=
  [.scalarF32 "normalizer_scale", .repeatLike "latent_std", .repeatLike "latent_mean",
    .repeatLike "embed_b"] ++
  (List.range 10).flatMap (fun i =>
    ["dw_b", "norm_g", "norm_b", "pw1_b", "pw2_b", "gamma"].map fun name =>
      .repeatLike ("convnext." ++ toString i ++ "." ++ name)) ++
  [.repeatLike "bn_scale", .repeatLike "bn_shift", .repeatLike "head1_b", .scalarF32 "head_prelu",
    .expand "wav"]

/-- The build of a cache, without a trace. -/
def Slot.graph (cblas : Bool) : Slot → CachedGraph
  | relpos idx => supertonicGraph [] [] (relposNodes idx) ["relpos_out"] relposMasks
  | ffn idx => supertonicGraph [] [] (ffnNodes idx) ["text_ffn_out"] []
  | speech idx => supertonicGraph ["out_w_source", "out_b_source"] []
      (speechNodes ("text_encoder:" ++ if idx = 0 then "onnx::MatMul_3681" else "onnx::MatMul_3685")
        ("text_encoder:tts.ttl.speech_prompted_text_encoder.attention" ++ toString (idx + 1) ++
          ".out_fc.linear.bias"))
      ["speech_attn_out"] []
  | attn g => supertonicGraph ["out_w_source", "out_b_source"] []
      (textAttentionNodes (matMul (3110 + 45 * g))
        (vectorMainBlock (6 * g + 3) ++ ".attn.out_fc.linear.bias"))
      ["vector_attn_out"] []
  | styleAttn g => supertonicGraph ["out_w_source", "out_b_source"] []
      (textAttentionNodes (matMul (3119 + 45 * g))
        (vectorMainBlock (6 * g + 5) ++ ".attention.out_fc.linear.bias"))
      ["vector_attn_out"] []
  | group g => supertonicGraph
      ["matmul_source", "q_matmul_source", "k_matmul_source", "v_matmul_source"]
      ["q_name", "k_name", "v_name"] (groupNodes g) (groupPost g :: groupQkvNames g) []
  | resStyleQkv g => supertonicGraph ["q_matmul_source", "k_matmul_source", "v_matmul_source"]
      ["residual_name", "norm_name", "post_name", "q_name", "k_name", "v_name"] (resStyleNodes g)
      (resStylePost g :: resStyleQkvNames g) []
  | tail => supertonicGraph [] [] (tailNodes cblas) ["ve_next_latent_tc"] []
  | vocoder => supertonicGraph [] [] vocoderNodes ["wav"] []

/-! ### The shape of the builds -/

theorem isNode_requireDense (weight bias : String) :
    (requireDense weight bias).all BuildOp.isNode = true := rfl

theorem isNode_vectorConvnext (p : String) : (vectorConvnext p).all BuildOp.isNode = true := rfl

theorem isNode_expand (names : List String) :
    (names.map BuildOp.expand).all BuildOp.isNode = true :=
  List.all_eq_true.mpr fun op hop => by
    obtain ⟨name, -, rfl⟩ := List.mem_map.mp hop
    rfl

theorem isNode_group (g : ℕ) : (groupNodes g).all BuildOp.isNode = true := by
  simp only [groupNodes, List.all_append, List.all_flatMap, isNode_requireDense,
    isNode_vectorConvnext, isNode_expand]
  rfl

theorem isNode_resStyle (g : ℕ) : (resStyleNodes g).all BuildOp.isNode = true := by
  simp only [resStyleNodes, List.all_append, isNode_requireDense, isNode_vectorConvnext,
    isNode_expand]
  rfl

theorem isNode_tail (cblas : Bool) : (tailNodes cblas).all BuildOp.isNode = true := by
  simp only [tailNodes, List.all_append, List.all_flatMap, isNode_vectorConvnext]
  cases cblas <;> rfl

/-- The build of a cache has the shape that its points need. -/
theorem Slot.ok_graph (cblas : Bool) (slot : Slot) : (slot.graph cblas).script.Ok := by
  cases slot with
  | relpos idx => exact ok_supertonicGraph _ _ _ rfl (by simp [relposNodes]) (by decide)
  | ffn idx => exact ok_supertonicGraph _ _ _ rfl (by simp [ffnNodes]) .nil
  | speech idx => exact ok_supertonicGraph _ _ _ rfl (by simp [speechNodes]) .nil
  | attn g | styleAttn g =>
    exact ok_supertonicGraph _ _ _ rfl (by simp [textAttentionNodes]) .nil
  | group g => exact ok_supertonicGraph _ _ _ (isNode_group g) (by simp +contextual [groupNodes]) .nil
  | resStyleQkv g =>
    exact ok_supertonicGraph _ _ _ (isNode_resStyle g)
      (by simp +contextual [resStyleNodes]) .nil
  | tail => exact ok_supertonicGraph _ _ _ (isNode_tail cblas) (by simp [tailNodes]) .nil
  | vocoder => exact ok_supertonicGraph _ _ _ rfl (by simp [vocoderNodes]) .nil

end Supertonic

/-! ### After an exception -/

namespace CachedBuild

open Chatterbox Supertonic StagedBuild

/-- The stages with a cached graph. `cblas` is whether `TTS_CPP_USE_CBLAS`, or its like, is set. -/
inductive CachedStage
  | s3gen (st : S3gen.GraphStage)
  | supertonic (cblas : Bool) (slot : Slot)

namespace CachedStage

/-- What a cache is compared with. -/
def Key : CachedStage → Type
  | s3gen st => st.Key
  | supertonic _ _ => BuildArgs

instance instDecidableEqKey : (st : CachedStage) → DecidableEq st.Key
  | s3gen st => inferInstanceAs (DecidableEq st.Key)
  | supertonic _ _ => inferInstanceAs (DecidableEq BuildArgs)

/-- The build of a stage. -/
def graph : CachedStage → CachedGraph
  | s3gen st => st.graph
  | supertonic cblas slot => slot.graph cblas

theorem ok_graph (st : CachedStage) : st.graph.script.Ok := by
  cases st with
  | s3gen st => exact st.ok_graph
  | supertonic cblas slot => exact slot.ok_graph cblas

/-- The cache after calls, `s3gen_release_synth_caches` and ends of threads. -/
def run (st : CachedStage) (xs : ℕ → Input st.Key) (n : ℕ) : StagedBuild.Slot st.Key Part :=
  Machine.run st.graph.script.step xs .init n

/-- A call rebuilds the graph completely or throws, or evaluates a graph that is complete. -/
def Consistent (st : CachedStage) (s : StagedBuild.Slot st.Key Part) (x : Input st.Key) : Prop :=
  st.graph.script.Sound s x

/-- In a run on a cache, no call evaluates an incomplete graph exactly if no build that throws past
its key is followed by a call with the same key. -/
theorem consistent_iff (st : CachedStage) (xs : ℕ → Input st.Key) :
    (∀ n, st.Consistent (st.run xs n) (xs n)) ↔
      ∀ n, st.graph.script.Fits (st.run xs n) (xs n) (xs (n + 1)) :=
  st.ok_graph.sound_iff xs

/-- Calls of the encoder for seven tokens, the first without its first tensor. -/
def withoutTensor (n : ℕ) : Input (s3gen .encoder).Key :=
  .call (7 : ℕ) fun i => n == 0 && i == 5

/-- The call after the exception evaluates a graph without nodes and without an allocator. -/
theorem not_consistent : ¬∀ (st : CachedStage) (xs : ℕ → Input st.Key) (n : ℕ),
    st.Consistent (st.run xs n) (xs n) := by
  intro h
  have hsound := h (.s3gen .encoder) withoutTensor 1
  have hfits := (ok_graph (.s3gen .encoder)).fits_of_sound (s := .init) (x := withoutTensor 0)
    (y := withoutTensor 1) hsound
  exact hfits _ _ _ rfl rfl (fun hhit => nomatch hhit.1) ⟨rfl, rfl⟩

end CachedStage

end CachedBuild

end WhisperCpp
