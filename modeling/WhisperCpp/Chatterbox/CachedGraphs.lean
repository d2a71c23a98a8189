import WhisperCpp.Ggml.CachedBuild

/-!
# The cached graphs of S3Gen

The builds of the encoder, the estimator of the flow, the F0 predictor, the STFT and the decoder,
with all points at which they throw. Each has one cache in the process.

## Main definitions

* `GraphStage` — the stages with a cache
* `GraphStage.graph` — their builds

## Main results

* `GraphStage.ok_graph` — the allocator of a graph comes after all points that may throw
-/

namespace WhisperCpp

namespace Chatterbox

namespace S3gen

open CachedBuild

/-- The stages of S3Gen with a cached graph. -/
inductive GraphStage
  | encoder
  /-- `cfm_estimator_forward` and `cfm_estimator_forward_b2`. -/
  | cfmEstimator
  | f0Predictor
  | stft
  | hift
  deriving DecidableEq

/-- `find_tensor` of tensors below a prefix. -/
def findTensors (pfx : String) (names : List String) : List BuildOp :=
  names.map fun name => .require (pfx ++ name)

/-- `load_conformer`. -/
def loadConformer (pfx : String) : List BuildOp :=
  findTensors pfx ["/norm_mha/w", "/norm_mha/b", "/norm_ff/w", "/norm_ff/b", "/attn/q/w",
    "/attn/q/b", "/attn/k/w", "/attn/k/b", "/attn/v/w", "/attn/v/b", "/attn/o/w", "/attn/o/b",
    "/attn/pos/w", "/attn/pos_bias_u", "/attn/pos_bias_v", "/ff/w1/w", "/ff/w1/b", "/ff/w2/w",
    "/ff/w2/b"]

/-- The nodes of `run_encoder`. -/
def encoderNodes : List BuildOp :=
  findTensors "flow/encoder" ["/embed/linear/w", "/embed/linear/b", "/embed/norm/w", "/embed/norm/b",
    "/pre_lookahead/conv1/w", "/pre_lookahead/conv1/b", "/pre_lookahead/conv2/w",
    "/pre_lookahead/conv2/b"] ++
  (List.range 6).flatMap (fun i => loadConformer ("flow/encoder/block" ++ toString i)) ++
  findTensors "flow/encoder" ["/up_layer/conv/w", "/up_layer/conv/b", "/up_embed/linear/w",
    "/up_embed/linear/b", "/up_embed/norm/w", "/up_embed/norm/b"] ++
  (List.range 4).flatMap (fun i => loadConformer ("flow/encoder/up_block" ++ toString i)) ++
  findTensors "flow" ["/encoder/after_norm/w", "/encoder/after_norm/b", "/encoder_proj/w",
    "/encoder_proj/b"]

/-- `load_cfm_resnet`. -/
def loadCfmResnet (pfx : String) : List BuildOp :=
  findTensors pfx ["/block1/block/0/weight", "/block1/block/0/bias", "/block1/block/2/weight",
    "/block1/block/2/bias", "/block2/block/0/weight", "/block2/block/0/bias",
    "/block2/block/2/weight", "/block2/block/2/bias", "/mlp/1/weight", "/mlp/1/bias",
    "/res_conv/weight", "/res_conv/bias"]

/-- `load_basic_tfm`. -/
def loadBasicTfm (pfx : String) : List BuildOp :=
  findTensors pfx ["/norm1/weight", "/norm1/bias", "/attn1/to_q/weight", "/attn1/to_k/weight",
    "/attn1/to_v/weight", "/attn1/to_out/0/weight", "/attn1/to_out/0/bias", "/norm3/weight",
    "/norm3/bias", "/ff/net/0/proj/weight", "/ff/net/0/proj/bias", "/ff/net/2/weight",
    "/ff/net/2/bias"]

/-- `load_tfm_stack`. -/
def loadTfmStack (pfx : String) (n : ℕ) : List BuildOp :=
  (List.range n).flatMap fun i => loadBasicTfm (pfx ++ "/" ++ toString i) ++ [.allocate "blocks"]

/-- The nodes of `cfm_estimator_forward` and of `cfm_estimator_forward_b2`, which ask for the same
tensors. -/
def cfmEstimatorNodes : List BuildOp :=
  loadCfmResnet "cfm/down_blocks/0/0" ++ loadTfmStack "cfm/down_blocks/0/1" 4 ++
  findTensors "cfm/down_blocks/0/2" ["/weight", "/bias"] ++
  (List.range 12).flatMap (fun i =>
    loadCfmResnet ("cfm/mid_blocks/" ++ toString i ++ "/0") ++
      loadTfmStack ("cfm/mid_blocks/" ++ toString i ++ "/1") 4) ++
  loadCfmResnet "cfm/up_blocks/0/0" ++ loadTfmStack "cfm/up_blocks/0/1" 4 ++
  findTensors "cfm/up_blocks/0/2" ["/weight", "/bias"] ++
  findTensors "cfm" ["/final_block/block/0/weight", "/final_block/block/0/bias",
    "/final_block/block/2/weight", "/final_block/block/2/bias", "/final_proj/weight",
    "/final_proj/bias"]

/-- The nodes of `run_f0_predictor`. -/
def f0PredictorNodes : List BuildOp :=
  (List.range 5).flatMap (fun i =>
    findTensors ("hift/f0_predictor/condnet/" ++ toString (i * 2)) ["/weight", "/bias"]) ++
  findTensors "hift/f0_predictor/classifier" ["/weight", "/bias"]

/-- `mk_inv`. -/
def mkInv (pref : String) : List BuildOp :=
  [.require pref, .allocate "g_inv_alpha_results", .allocate "g_hift_inv_alpha_entries"]

/-- `load_rb`. -/
def loadRb (pref : String) : List BuildOp :=
  .allocate "p" :: (List.range 3).flatMap fun i =>
    let a1 := pref ++ "/activations1/" ++ toString i ++ "/alpha"
    let a2 := pref ++ "/activations2/" ++ toString i ++ "/alpha"
    .require a1 :: findTensors (pref ++ "/convs1/" ++ toString i) ["/weight", "/bias"] ++
      .require a2 :: findTensors (pref ++ "/convs2/" ++ toString i) ["/weight", "/bias"] ++
      mkInv a1 ++ mkInv a2

/-- The nodes of `run_hift_decode`. -/
def hiftNodes : List BuildOp :=
  findTensors "hift/conv_pre" ["/weight", "/bias"] ++
  (List.range 3).flatMap (fun i =>
    findTensors ("hift/ups/" ++ toString i) ["/weight", "/bias"] ++
      findTensors ("hift/source_downs/" ++ toString i) ["/weight", "/bias"] ++
      loadRb ("hift/source_resblocks/" ++ toString i) ++
      (List.range 3).flatMap fun j => loadRb ("hift/resblocks/" ++ toString (i * 3 + j))) ++
  findTensors "hift/conv_post" ["/weight", "/bias"] ++ [.allocate "g_window_sum_cache"]

namespace GraphStage

/-- What a cache is compared with: the input length, for the estimator with whether the batch is two,
and for the decoder with the number of frames. -/
def Key : GraphStage → Type
  | cfmEstimator => ℕ × Bool
  | hift => ℕ × ℕ
  | _ => ℕ

instance instDecidableEqKey : (st : GraphStage) → DecidableEq st.Key
  | cfmEstimator => inferInstanceAs (DecidableEq (ℕ × Bool))
  | hift => inferInstanceAs (DecidableEq (ℕ × ℕ))
  | encoder | f0Predictor | stft => inferInstanceAs (DecidableEq ℕ)

/-- The build of a stage. The estimator alone does not check that there is a context. -/
def graph : GraphStage → CachedGraph
  | encoder => s3genGraph true "mu" encoderNodes
  | cfmEstimator => s3genGraph false "out" cfmEstimatorNodes
  | f0Predictor => s3genGraph true "out" f0PredictorNodes
  | stft => s3genGraph true "out" []
  | hift => s3genGraph true "wav" hiftNodes

end GraphStage

/-! ### The shape of the builds -/

theorem isNode_findTensors (pfx : String) (names : List String) :
    (findTensors pfx names).all BuildOp.isNode = true := by
  rw [findTensors, List.all_map]
  exact List.all_eq_true.mpr fun _ _ => rfl

theorem isNode_loadRb (pref : String) : (loadRb pref).all BuildOp.isNode = true := rfl

theorem isNode_loadTfmStack (pfx : String) (n : ℕ) :
    (loadTfmStack pfx n).all BuildOp.isNode = true := by
  rw [loadTfmStack, List.all_flatMap]
  exact List.all_eq_true.mpr fun _ _ => rfl

theorem isNode_encoder : encoderNodes.all BuildOp.isNode = true := by
  simp [encoderNodes, loadConformer, isNode_findTensors]

theorem isNode_cfmEstimator : cfmEstimatorNodes.all BuildOp.isNode = true := by
  simp [cfmEstimatorNodes, loadCfmResnet, isNode_findTensors, isNode_loadTfmStack]

theorem isNode_f0Predictor : f0PredictorNodes.all BuildOp.isNode = true := by
  simp [f0PredictorNodes, isNode_findTensors]

theorem isNode_hift : hiftNodes.all BuildOp.isNode = true := by
  simp [hiftNodes, isNode_findTensors, isNode_loadRb, BuildOp.isNode]

/-- The allocator of a graph comes after all points that may throw. -/
theorem GraphStage.ok_graph (st : GraphStage) : st.graph.script.Ok := by
  cases st with
  | encoder => exact ok_s3genGraph true "mu" isNode_encoder
  | cfmEstimator => exact ok_s3genGraph false "out" isNode_cfmEstimator
  | f0Predictor => exact ok_s3genGraph true "out" isNode_f0Predictor
  | stft => exact ok_s3genGraph true "out" rfl
  | hift => exact ok_s3genGraph true "wav" isNode_hift

end S3gen

end Chatterbox

end WhisperCpp
