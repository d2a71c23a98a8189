import WhisperCpp.Library.Lru
import Mathlib.Algebra.Ring.Int.Defs
import Mathlib.Data.Int.Notation
import Mathlib.Data.List.Induction
import Mathlib.Data.Nat.Notation
import Mathlib.Tactic.SplitIfs

/-!
# The graphs that the encoder keeps

`run_encoder` and `run_encoder_bypass_pre_encode` share a list of at most three graphs. A graph is
found again by the length of the input, its mode and the number of its layers; a call that names no
number of layers takes a graph with any, and no call compares the mel width.

## Main definitions

* `EncoderModel.buildEncoderGraphCached` — a new graph
* `EncoderModel.runEncoder`, `EncoderModel.runEncoderBypassPreEncode` — the calls
* `EncoderModel.CallFits` — the graph that a call finds is one that it would build

## Main results

* `cacheAfter_entry` — every kept graph is one that was built, with masks that fit their count
* `call_transparent_iff` — when a call returns what it returns on a model that keeps no graph
-/

namespace WhisperCpp

namespace Parakeet

/-! ### Graphs -/

/-- The nodes of a graph that are read back. -/
inductive EncoderNode
  | subOut
  | postFf10
  | postAttn0
  | postConv0
  | postFf20
  | block0Out
  | blockLastOut
  | encoderOut
  | logits
  deriving DecidableEq, Repr

/-- What a graph is built from. `EncoderGraph` has these as fields, except for `nMels`, which is in
the shape of `mel_in` only. -/
structure GraphSpec where
  tMel : ℕ
  nMels : ℕ
  tEnc : ℕ
  nRunLayers : ℤ
  allValid : Bool
  bypassPreEncode : Bool
  deriving DecidableEq, Repr

/-- A buffer such as `m0_host` with its count `m0_v`. -/
structure MaskBuffer (K : Type*) where
  host : List K
  v : ℤ

/-- The four time masks of the subsampling. -/
structure SubsamplingMasks (K : Type*) where
  m0 : MaskBuffer K
  m1 : MaskBuffer K
  m2 : MaskBuffer K
  m3 : MaskBuffer K

/-- `EncoderGraph`. -/
structure EncoderGraph (K : Type*) extends GraphSpec where
  peHost : List K
  attMaskHost : List K
  masks : SubsamplingMasks K

/-- What a call writes into the input tensors of a graph. A tensor the graph lacks gets nothing. -/
structure GraphInputs (K : Type*) where
  melIn : List K
  maskT0 : List K
  maskT1 : List K
  maskT2 : List K
  maskT3 : List K
  preEncodeIn : List K
  peIn : List K
  attMask : List K

/-- `EncoderOutputs`. -/
structure EncoderOutputs (K : Type*) where
  node : EncoderNode → List K
  nEncFrames : ℤ
  dModel : ℤ
  vocabSize : ℤ

/-- A graph on its inputs gives the values of its nodes, or fails. -/
abbrev Evaluation (K : Type*) := GraphSpec → GraphInputs K → Except ℤ (EncoderNode → List K)

/-- What the calls read of a model, of the environment and of the backend. -/
structure EncoderModel (K : Type*) where
  backendActive : Bool
  causalDownsampling : Bool
  dModel : ℤ
  nLayers : ℤ
  vocabSize : ℤ
  attChunkedLimited : Bool
  attContextLeft : ℤ
  attContextRight : ℤ
  /-- The model is a CTC model and has its head. -/
  ctcHead : Bool
  /-- `PARAKEET_MAX_LAYERS`. -/
  maxLayersEnv : Option ℤ
  /-- `compute_rel_pos_encoding`. -/
  relPosEncoding : ℕ → ℤ → List K
  /-- The value of a masked position, `-1.0e30f`. -/
  masked : K
  /-- What `ggml_init` and `ggml_gallocr_reserve` make of a graph: 0, -2 or -3. -/
  reserve : GraphSpec → ℤ

/-- A call. `mel` is read at `t * nMels + m`, and a null pointer is `none`. -/
inductive EncoderCall (K : Type*)
  | runEncoder (mel : ℕ → K) (nMelFrames nMels : ℕ) (maxLayers : ℤ) (captureIntermediates : Bool)
  | runEncoderBypassPreEncode (preEncodeIn : Option (ℕ → K)) (nPreEncodeFrames dModelIn : ℤ)
    (maxLayers : ℤ)

namespace EncoderCall

variable {K : Type*}

/-- `max_layers`. -/
def maxLayers : EncoderCall K → ℤ
  | runEncoder _ _ _ maxLayers _ => maxLayers
  | runEncoderBypassPreEncode _ _ _ maxLayers => maxLayers

/-- `n_mels` of the graph that a call builds. -/
def nMels : EncoderCall K → ℕ
  | runEncoder _ _ nMels _ _ => nMels
  | runEncoderBypassPreEncode _ _ _ _ => 0

end EncoderCall

/-- How a call looks for a graph, builds one, and uses it. -/
structure Request (K : Type*) where
  spec : GraphSpec
  fits : EncoderGraph K → Bool
  refresh : SubsamplingMasks K → SubsamplingMasks K
  inputs : EncoderGraph K → GraphInputs K
  captured : EncoderNode → Bool
  nEncFrames : ℤ

variable {K : Type*}

/-- The graph a call has used, with the masks it has refreshed. -/
def Request.used (req : Request K) : Except ℤ (EncoderGraph K) → List (EncoderGraph K)
  | .error _ => []
  | .ok g => [{ g with masks := req.refresh g.masks }]

/-! ### Layers and lengths -/

namespace EncoderModel

section Spec

variable (M : EncoderModel K)

/-- `sub_out_len`. -/
def subOutLen (lin : ℕ) : ℕ :=
  if M.causalDownsampling then lin / 2 + 1 else (lin + 2 * 1 - 3) / 2 + 1

/-- `n_run_layers`. -/
def runLayers (nRunLayersOverride : ℤ) : ℤ :=
  let n := if nRunLayersOverride < 0 then M.maxLayersEnv.getD M.nLayers else nRunLayersOverride
  let n := if n > M.nLayers then M.nLayers else n
  if n < 0 then 0 else n

/-- The lengths, the number of layers and the flags of `build_encoder_graph_cached`. -/
def graphSpec (nMelFrames nMels : ℕ) (nRunLayersOverride : ℤ) (allValid bypassPreEncode : Bool)
    (tEncOverride : ℕ) : GraphSpec where
  tMel := if bypassPreEncode then 0 else nMelFrames
  nMels := nMels
  tEnc := if bypassPreEncode then tEncOverride
    else M.subOutLen (M.subOutLen (M.subOutLen nMelFrames))
  nRunLayers := M.runLayers nRunLayersOverride
  allValid := allValid
  bypassPreEncode := bypassPreEncode

/-- The nodes that a graph has. -/
def hasNode (spec : GraphSpec) : EncoderNode → Bool
  | .subOut => !spec.bypassPreEncode
  | .encoderOut => true
  | .logits => M.ctcHead
  | _ => 0 < spec.nRunLayers

/-- `layers_match`. -/
def layersMatch (maxLayers : ℤ) (e : EncoderGraph K) : Bool :=
  let layersKey := if maxLayers ≥ 0 then maxLayers else -1
  layersKey < 0 || e.nRunLayers == layersKey

/-- What the fields of a graph say about each other. -/
structure SpecOk (spec : GraphSpec) : Prop where
  runLayers : ∃ k, spec.nRunLayers = M.runLayers k
  mel : spec.bypassPreEncode = false →
    spec.tEnc = M.subOutLen (M.subOutLen (M.subOutLen spec.tMel))
  bypass : spec.bypassPreEncode = true →
    spec.tMel = 0 ∧ spec.nMels = 0 ∧ spec.allValid = true

variable {M}

theorem SpecOk.runLayers_of_nonneg {spec : GraphSpec} (h : M.SpecOk spec) {k : ℤ} (hk : 0 ≤ k)
    (heq : spec.nRunLayers = k) : M.runLayers k = k := by
  obtain ⟨k', hk'⟩ := h.runLayers
  rw [hk'] at heq
  simp only [EncoderModel.runLayers] at heq ⊢
  generalize M.maxLayersEnv.getD M.nLayers = env at heq ⊢
  split_ifs at heq ⊢ <;> omega

theorem layersMatch_iff {maxLayers : ℤ} {e : EncoderGraph K} :
    layersMatch maxLayers e = true ↔ maxLayers < 0 ∨ e.nRunLayers = maxLayers := by
  rw [layersMatch]
  by_cases h : maxLayers ≥ 0
  · simp [h]
  · simp [h, show maxLayers < 0 by omega]

/-- A graph that fits has the layers of the graph that would be built, if a call without a number
of layers finds them so. -/
theorem nRunLayers_eq {e : EncoderGraph K} {maxLayers : ℤ} (hspec : M.SpecOk e.toGraphSpec)
    (hmatch : layersMatch maxLayers e = true)
    (hlayers : maxLayers < 0 → e.nRunLayers = M.runLayers maxLayers) :
    e.nRunLayers = M.runLayers maxLayers := by
  by_cases hneg : maxLayers < 0
  · exact hlayers hneg
  · have heq := (layersMatch_iff.1 hmatch).resolve_left hneg
    rw [hspec.runLayers_of_nonneg (by omega) heq, heq]

end Spec

end EncoderModel

/-! ### Masks -/

section Masks

variable [Zero K] [One K]

/-- A mask of `n` places, the first `v` of them valid. -/
def maskOf (n v : ℕ) : List K := (List.range n).map fun t => if t < v then 1 else 0

theorem length_maskOf (n v : ℕ) : (maskOf n v : List K).length = n := by
  rw [maskOf, List.length_map, List.length_range]

/-- `refresh_mask`. -/
def MaskBuffer.refresh (n v : ℕ) (buf : MaskBuffer K) : MaskBuffer K :=
  if buf.v = v ∧ buf.host.length = n then buf else ⟨maskOf n v, v⟩

/-- The buffer of a new graph. -/
def MaskBuffer.empty : MaskBuffer K := ⟨[], -1⟩

/-- A buffer that was filled holds the mask of its count. -/
def MaskBuffer.Sound (buf : MaskBuffer K) : Prop :=
  ∀ v : ℕ, buf.v = v → buf.host = maskOf buf.host.length v

theorem MaskBuffer.sound_empty : (MaskBuffer.empty : MaskBuffer K).Sound := by
  intro v hv
  have hneg : (-1 : ℤ) = v := hv
  omega

theorem MaskBuffer.sound_refresh {buf : MaskBuffer K} (h : buf.Sound) (n v : ℕ) :
    (buf.refresh n v).Sound := by
  rw [refresh]
  split_ifs
  · exact h
  · intro w hw
    obtain rfl : v = w := Int.ofNat.inj hw
    show maskOf n v = maskOf (maskOf n v).length v
    rw [length_maskOf]

/-- What a buffer held before does not matter. -/
theorem MaskBuffer.refresh_eq {buf : MaskBuffer K} (h : buf.Sound) (n v : ℕ) :
    buf.refresh n v = ⟨maskOf n v, v⟩ := by
  rw [refresh]
  split_ifs with hfresh
  · obtain ⟨hv, hlen⟩ := hfresh
    have hhost := h v hv
    rw [hlen] at hhost
    cases buf
    simp_all
  · rfl

/-- The masks of a new graph. -/
def SubsamplingMasks.empty : SubsamplingMasks K := ⟨.empty, .empty, .empty, .empty⟩

/-- All four buffers are sound. -/
def SubsamplingMasks.Sound (masks : SubsamplingMasks K) : Prop :=
  masks.m0.Sound ∧ masks.m1.Sound ∧ masks.m2.Sound ∧ masks.m3.Sound

theorem SubsamplingMasks.sound_empty :
    (SubsamplingMasks.empty : SubsamplingMasks K).Sound :=
  ⟨MaskBuffer.sound_empty, MaskBuffer.sound_empty, MaskBuffer.sound_empty, MaskBuffer.sound_empty⟩

end Masks

section Valid

variable [Zero K] [BEq K]

/-- The number of mel frames up to the last one that is not all zero. -/
def lastValid (mel : ℕ → K) (nMels : ℕ) : ℕ → ℕ
  | 0 => 0
  | t + 1 =>
    if (List.range nMels).any fun m => mel (t * nMels + m) != 0 then t + 1
    else lastValid mel nMels t

/-- `mel_valid`. -/
def melValid (mel : ℕ → K) (nMelFrames nMels : ℕ) : ℕ :=
  if lastValid mel nMels nMelFrames = 0 then nMelFrames else lastValid mel nMels nMelFrames

end Valid

/-! ### Building -/

namespace EncoderModel

variable (M : EncoderModel K) [Zero K]

/-- `att_mask_host`: a frame sees the frames of its chunk and `att_context_left` before it. -/
def attMask (t : ℕ) : List K :=
  if M.attChunkedLimited ∧ 0 ≤ M.attContextLeft ∧ 0 ≤ M.attContextRight then
    (List.range t).flatMap fun i => (List.range t).map fun j =>
      let chunk := M.attContextRight + 1
      let c := (i : ℤ) / chunk
      if max 0 (c * chunk - M.attContextLeft) ≤ j ∧
        (j : ℤ) ≤ min ((t : ℤ) - 1) ((c + 1) * chunk - 1) then 0 else M.masked
  else []

/-- `build_encoder_graph_cached`. -/
def buildEncoderGraphCached (spec : GraphSpec) : Except ℤ (EncoderGraph K) :=
  if M.reserve spec = 0 then
    .ok { spec with
      peHost := M.relPosEncoding spec.tEnc M.dModel
      attMaskHost := M.attMask spec.tEnc
      masks := .empty }
  else .error (M.reserve spec)

variable {M} in
theorem buildEncoderGraphCached_eq_ok {spec : GraphSpec} {g : EncoderGraph K}
    (h : M.buildEncoderGraphCached spec = .ok g) : g.toGraphSpec = spec ∧ g.masks = .empty := by
  rw [buildEncoderGraphCached] at h
  split_ifs at h
  cases h
  exact ⟨rfl, rfl⟩

/-! ### Calls -/

variable [One K] [BEq K]

/-- What `run_encoder` does with a graph. -/
def melRequest (mel : ℕ → K) (nMelFrames nMels : ℕ) (maxLayers : ℤ) (captureIntermediates : Bool) :
    Request K :=
  let v := melValid mel nMelFrames nMels
  let allValid := v == nMelFrames
  let l1 := M.subOutLen nMelFrames
  let v1 := M.subOutLen v
  let l2 := M.subOutLen l1
  let v2 := M.subOutLen v1
  let l3 := M.subOutLen l2
  let v3 := M.subOutLen v2
  { spec := M.graphSpec nMelFrames nMels maxLayers allValid false 0
    fits := fun e => !e.bypassPreEncode && e.tMel == nMelFrames && layersMatch maxLayers e &&
      e.allValid == allValid
    refresh := fun m => ⟨m.m0.refresh nMelFrames v, m.m1.refresh l1 v1, m.m2.refresh l2 v2,
      m.m3.refresh l3 v3⟩
    inputs := fun g =>
      { melIn := (List.range (nMels * nMelFrames)).map mel
        maskT0 := g.masks.m0.host
        maskT1 := g.masks.m1.host
        maskT2 := g.masks.m2.host
        maskT3 := g.masks.m3.host
        preEncodeIn := []
        peIn := g.peHost
        attMask := g.attMaskHost }
    captured := fun node => captureIntermediates || node == .encoderOut || node == .logits
    nEncFrames := l3 }

/-- What `run_encoder_bypass_pre_encode` does with a graph. -/
def bypassRequest (preEncodeIn : ℕ → K) (nPreEncodeFrames : ℕ) (maxLayers : ℤ) : Request K where
  spec := M.graphSpec 0 0 maxLayers true true nPreEncodeFrames
  fits := fun e => e.bypassPreEncode && e.tEnc == nPreEncodeFrames && layersMatch maxLayers e
  refresh := id
  inputs := fun g =>
    { melIn := []
      maskT0 := []
      maskT1 := []
      maskT2 := []
      maskT3 := []
      preEncodeIn := (List.range (M.dModel.toNat * nPreEncodeFrames)).map preEncodeIn
      peIn := g.peHost
      attMask := g.attMaskHost }
  captured := fun node => node == .encoderOut || node == .logits
  nEncFrames := nPreEncodeFrames

/-- What a call returns of the graph it was served with. -/
def result (eval : Evaluation K) (req : Request K) :
    Except ℤ (EncoderGraph K) → Except ℤ (EncoderOutputs K)
  | .error rc => .error rc
  | .ok g =>
    match eval g.toGraphSpec (req.inputs { g with masks := req.refresh g.masks }) with
    | .error rc => .error rc
    | .ok values =>
      .ok { node := fun n => if M.hasNode g.toGraphSpec n && req.captured n then values n else []
            nEncFrames := req.nEncFrames
            dModel := M.dModel
            vocabSize := M.vocabSize }

/-- The graph is found or built, put at the back, and evaluated. It stays where that fails. -/
def serve (eval : Evaluation K) (req : Request K) (cache : List (EncoderGraph K)) :
    Except ℤ (EncoderOutputs K) × List (EncoderGraph K) :=
  -- `k_encoder_graph_cache_max`
  let (r, kept) := Lru.fetch 3 req.fits (M.buildEncoderGraphCached req.spec) cache
  (M.result eval req r, kept ++ req.used r)

/-- `run_encoder`. -/
def runEncoder (eval : Evaluation K) (mel : ℕ → K) (nMelFrames nMels : ℕ) (maxLayers : ℤ)
    (captureIntermediates : Bool) (cache : List (EncoderGraph K)) :
    Except ℤ (EncoderOutputs K) × List (EncoderGraph K) :=
  if !M.backendActive then (.error (-1), cache)
  else M.serve eval (M.melRequest mel nMelFrames nMels maxLayers captureIntermediates) cache

/-- `run_encoder_bypass_pre_encode`. -/
def runEncoderBypassPreEncode (eval : Evaluation K) (preEncodeIn : Option (ℕ → K))
    (nPreEncodeFrames dModelIn maxLayers : ℤ) (cache : List (EncoderGraph K)) :
    Except ℤ (EncoderOutputs K) × List (EncoderGraph K) :=
  if !M.backendActive then (.error (-1), cache)
  else match preEncodeIn with
    | none => (.error (-1), cache)
    | some x =>
      if nPreEncodeFrames ≤ 0 then (.error (-1), cache)
      else if dModelIn ≠ M.dModel then (.error (-1), cache)
      else M.serve eval (M.bypassRequest x nPreEncodeFrames.toNat maxLayers) cache

/-- A call on the graphs kept so far. -/
def call (eval : Evaluation K) (cache : List (EncoderGraph K)) :
    EncoderCall K → Except ℤ (EncoderOutputs K) × List (EncoderGraph K)
  | .runEncoder mel nMelFrames nMels maxLayers captureIntermediates =>
    M.runEncoder eval mel nMelFrames nMels maxLayers captureIntermediates cache
  | .runEncoderBypassPreEncode preEncodeIn nPreEncodeFrames dModelIn maxLayers =>
    M.runEncoderBypassPreEncode eval preEncodeIn nPreEncodeFrames dModelIn maxLayers cache

/-- The graphs kept after some calls on a new model. -/
def cacheAfter (eval : Evaluation K) (calls : List (EncoderCall K)) : List (EncoderGraph K) :=
  calls.foldl (fun cache c => (M.call eval cache c).2) []

/-- What a call asks for; a call that is refused asks for nothing. -/
def request : EncoderCall K → Option (Request K)
  | .runEncoder mel nMelFrames nMels maxLayers captureIntermediates =>
    if M.backendActive then
      some (M.melRequest mel nMelFrames nMels maxLayers captureIntermediates)
    else none
  | .runEncoderBypassPreEncode none _ _ _ => none
  | .runEncoderBypassPreEncode (some x) nPreEncodeFrames dModelIn maxLayers =>
    if M.backendActive ∧ 0 < nPreEncodeFrames ∧ dModelIn = M.dModel then
      some (M.bypassRequest x nPreEncodeFrames.toNat maxLayers)
    else none

/-- The graph that a call finds has the number of layers and the mel width of the graph that the
call would build. -/
def CallFits (cache : List (EncoderGraph K)) (c : EncoderCall K) : Prop :=
  ∀ req, M.request c = some req → ∀ g, cache.find? req.fits = some g →
    (c.maxLayers < 0 → g.nRunLayers = M.runLayers c.maxLayers) ∧ g.nMels = c.nMels

/-- What a call does to the kept graphs: the graph used, found or new, goes to the back with its
masks refreshed, the others keep their order. -/
def Moves (cache : List (EncoderGraph K)) (c : EncoderCall K) (cache' : List (EncoderGraph K)) :
    Prop :=
  match M.request c with
  | none => cache' = cache
  | some req => ∃ r kept,
      Lru.Served 3 req.fits (M.buildEncoderGraphCached req.spec) cache r kept ∧
        cache' = kept ++ req.used r

theorem call_eq (eval : Evaluation K) (cache : List (EncoderGraph K)) (c : EncoderCall K) :
    M.call eval cache c = match M.request c with
      | none => (.error (-1), cache)
      | some req => M.serve eval req cache := by
  match c with
  | .runEncoder mel nMelFrames nMels maxLayers captureIntermediates =>
    rw [call, runEncoder, request]
    cases M.backendActive <;> rfl
  | .runEncoderBypassPreEncode none nPreEncodeFrames dModelIn maxLayers =>
    rw [call, runEncoderBypassPreEncode, request, ite_self]
  | .runEncoderBypassPreEncode (some x) nPreEncodeFrames dModelIn maxLayers =>
    rw [call, runEncoderBypassPreEncode, request]
    cases M.backendActive with
    | false => simp
    | true =>
      by_cases hn : nPreEncodeFrames ≤ 0
      · have hnot : ¬0 < nPreEncodeFrames := by omega
        simp [hn, hnot]
      · have hpos : 0 < nPreEncodeFrames := by omega
        by_cases hd : dModelIn = M.dModel <;> simp [hn, hpos, hd]

/-! ### The graphs that are kept -/

/-- A kept graph: it was built, and since then only its masks have changed. -/
structure Entry (g : EncoderGraph K) : Prop where
  spec : M.SpecOk g.toGraphSpec
  built : M.buildEncoderGraphCached g.toGraphSpec =
    .ok { g with masks := .empty }
  masks : g.masks.Sound

variable {M}

omit [BEq K] in
theorem entry_of_build {spec : GraphSpec} {g : EncoderGraph K} (hspec : M.SpecOk spec)
    (h : M.buildEncoderGraphCached spec = .ok g) : M.Entry g := by
  obtain ⟨rfl, hmasks⟩ := buildEncoderGraphCached_eq_ok h
  refine ⟨hspec, ?_, ?_⟩
  · rw [h, ← hmasks]
  · rw [hmasks]
    exact SubsamplingMasks.sound_empty

/-! ### Requests -/

/-- What a request must do for a found graph to be as good as a new one. -/
structure Faithful (M : EncoderModel K) (c : EncoderCall K) (req : Request K) : Prop where
  spec : M.SpecOk req.spec
  sound : ∀ masks : SubsamplingMasks K, masks.Sound → (req.refresh masks).Sound
  inputs : ∀ (g : EncoderGraph K) (masks : SubsamplingMasks K), masks.Sound →
    req.inputs { g with masks := req.refresh masks } =
      req.inputs { g with masks := req.refresh .empty }
  nRunLayers : req.spec.nRunLayers = M.runLayers c.maxLayers
  nMels : req.spec.nMels = c.nMels
  found : ∀ g : EncoderGraph K, M.SpecOk g.toGraphSpec → req.fits g = true →
    layersMatch c.maxLayers g = true ∧
      (g.nRunLayers = M.runLayers c.maxLayers → g.nMels = c.nMels → g.toGraphSpec = req.spec)

theorem faithful_melRequest (mel : ℕ → K) (nMelFrames nMels : ℕ) (maxLayers : ℤ)
    (captureIntermediates : Bool) :
    Faithful M (.runEncoder mel nMelFrames nMels maxLayers captureIntermediates)
      (M.melRequest mel nMelFrames nMels maxLayers captureIntermediates) where
  spec := ⟨⟨maxLayers, rfl⟩, fun _ => rfl, fun h => nomatch h⟩
  sound := fun masks ⟨h0, h1, h2, h3⟩ =>
    ⟨MaskBuffer.sound_refresh h0 _ _, MaskBuffer.sound_refresh h1 _ _,
      MaskBuffer.sound_refresh h2 _ _, MaskBuffer.sound_refresh h3 _ _⟩
  inputs := fun g masks ⟨h0, h1, h2, h3⟩ => by
    have hempty := MaskBuffer.sound_empty (K := K)
    simp only [melRequest, SubsamplingMasks.empty, MaskBuffer.refresh_eq h0,
      MaskBuffer.refresh_eq h1, MaskBuffer.refresh_eq h2, MaskBuffer.refresh_eq h3,
      MaskBuffer.refresh_eq hempty]
  nRunLayers := rfl
  nMels := rfl
  found := fun g hspec hfits => by
    simp only [melRequest, Bool.and_eq_true, Bool.not_eq_true', beq_iff_eq] at hfits
    obtain ⟨⟨⟨hbypass, hmel⟩, hlayers⟩, hvalid⟩ := hfits
    refine ⟨hlayers, fun hrun hnMels => ?_⟩
    have htEnc := hspec.mel hbypass
    rw [hmel] at htEnc
    obtain ⟨⟨tMel, nMels', tEnc, nRunLayers, allValid, bypassPreEncode⟩, peHost, attMask, masks⟩ := g
    dsimp only at hbypass hmel hvalid hrun hnMels htEnc
    subst hbypass hmel hvalid hrun hnMels htEnc
    rfl

omit [BEq K] in
theorem faithful_bypassRequest (preEncodeIn : ℕ → K) (nPreEncodeFrames dModelIn maxLayers : ℤ) :
    Faithful M (.runEncoderBypassPreEncode (some preEncodeIn) nPreEncodeFrames dModelIn maxLayers)
      (M.bypassRequest preEncodeIn nPreEncodeFrames.toNat maxLayers) where
  spec := ⟨⟨maxLayers, rfl⟩, (fun h => nomatch h), fun _ => ⟨rfl, rfl, rfl⟩⟩
  sound := fun _ h => h
  inputs := fun _ _ _ => rfl
  nRunLayers := rfl
  nMels := rfl
  found := fun g hspec hfits => by
    simp only [bypassRequest, Bool.and_eq_true, beq_iff_eq] at hfits
    obtain ⟨⟨hbypass, htEnc⟩, hlayers⟩ := hfits
    refine ⟨hlayers, fun hrun _ => ?_⟩
    obtain ⟨hmel, hnMels, hvalid⟩ := hspec.bypass hbypass
    obtain ⟨⟨tMel, nMels, tEnc, nRunLayers, allValid, bypassPreEncode⟩, peHost, attMask, masks⟩ := g
    dsimp only at hbypass hmel hvalid hrun hnMels htEnc
    subst hbypass hmel hvalid hrun hnMels htEnc
    rfl

theorem faithful_of_request {c : EncoderCall K} {req : Request K} (h : M.request c = some req) :
    Faithful M c req := by
  match c with
  | .runEncoder mel nMelFrames nMels maxLayers captureIntermediates =>
    rw [request] at h
    split_ifs at h
    cases h
    exact faithful_melRequest mel nMelFrames nMels maxLayers captureIntermediates
  | .runEncoderBypassPreEncode none _ _ _ => cases h
  | .runEncoderBypassPreEncode (some x) nPreEncodeFrames dModelIn maxLayers =>
    rw [request] at h
    split_ifs at h
    cases h
    exact faithful_bypassRequest x nPreEncodeFrames dModelIn maxLayers

/-- The graph that a call finds is the one it would build exactly if the call fits. -/
theorem callFits_iff {cache : List (EncoderGraph K)} {c : EncoderCall K}
    (hcache : ∀ g ∈ cache, M.Entry g) :
    M.CallFits cache c ↔ ∀ req, M.request c = some req → ∀ g, cache.find? req.fits = some g →
      g.toGraphSpec = req.spec := by
  refine forall_congr' fun req => imp_congr_right fun hreq => forall_congr' fun g =>
    imp_congr_right fun hfind => ?_
  have hfaithful := faithful_of_request hreq
  have hspec := (hcache g (List.mem_of_find?_eq_some hfind)).spec
  obtain ⟨hmatch, heq⟩ := hfaithful.found g hspec (List.find?_some hfind)
  constructor
  · rintro ⟨hlayers, hnMels⟩
    exact heq (nRunLayers_eq hspec hmatch hlayers) hnMels
  · intro h
    rw [← hfaithful.nRunLayers, ← hfaithful.nMels, ← h]
    exact ⟨fun _ => rfl, rfl⟩

/-! ### What a call does -/

theorem moves_call (eval : Evaluation K) (cache : List (EncoderGraph K)) (c : EncoderCall K) :
    M.Moves cache c (M.call eval cache c).2 := by
  rw [Moves, call_eq]
  cases M.request c with
  | none => rfl
  | some req => exact ⟨_, _, Lru.served_fetch _ _ _ _, rfl⟩

/-- What a call does to the graphs does not depend on their values. -/
theorem call_snd_eq (eval eval' : Evaluation K) (cache : List (EncoderGraph K))
    (c : EncoderCall K) : (M.call eval cache c).2 = (M.call eval' cache c).2 := by
  rw [call_eq, call_eq]
  cases M.request c <;> rfl

/-- A call keeps at most three graphs. -/
theorem Moves.length_le {cache cache' : List (EncoderGraph K)} {c : EncoderCall K}
    (h : M.Moves cache c cache') (hcache : cache.length ≤ 3) : cache'.length ≤ 3 := by
  rw [Moves] at h
  cases hreq : M.request c with
  | none =>
    rw [hreq] at h
    rwa [show cache' = cache from h]
  | some req =>
    rw [hreq] at h
    obtain ⟨r, kept, hserved, rfl⟩ := h
    have hlt := hserved.length_lt (by decide) hcache
    cases r with
    | error rc =>
      rw [Request.used, List.append_nil]
      exact Nat.le_of_lt hlt
    | ok g =>
      rw [Request.used, List.length_append]
      exact hlt

/-- A call keeps every graph one that was built, with sound masks. -/
theorem Moves.entry {cache cache' : List (EncoderGraph K)} {c : EncoderCall K}
    (h : M.Moves cache c cache') (hcache : ∀ g ∈ cache, M.Entry g) : ∀ g ∈ cache', M.Entry g := by
  rw [Moves] at h
  cases hreq : M.request c with
  | none =>
    rw [hreq] at h
    rwa [show cache' = cache from h]
  | some req =>
    rw [hreq] at h
    obtain ⟨r, kept, hserved, rfl⟩ := h
    have hfaithful := faithful_of_request hreq
    obtain ⟨hkept, hr⟩ := hserved.forall_mem hcache fun g hg => entry_of_build hfaithful.spec hg
    refine List.forall_mem_append.2 ⟨hkept, ?_⟩
    cases r with
    | error rc => exact fun g hg => nomatch hg
    | ok g =>
      obtain ⟨hspec, hbuilt, hmasks⟩ := hr g rfl
      intro g' hg'
      obtain rfl := List.mem_singleton.1 hg'
      exact ⟨hspec, hbuilt, hfaithful.sound _ hmasks⟩

variable (M) in
/-- The graphs after any calls. -/
theorem cacheAfter_entry (eval : Evaluation K) (calls : List (EncoderCall K)) :
    (M.cacheAfter eval calls).length ≤ 3 ∧ ∀ g ∈ M.cacheAfter eval calls, M.Entry g := by
  induction calls using List.reverseRecOn with
  | nil => exact ⟨Nat.zero_le 3, fun g hg => nomatch hg⟩
  | append_singleton calls c ih =>
    rw [cacheAfter, List.foldl_append, List.foldl_cons, List.foldl_nil, ← cacheAfter]
    have hmoves := M.moves_call eval (M.cacheAfter eval calls) c
    exact ⟨hmoves.length_le ih.1, hmoves.entry ih.2⟩

variable (M) in
theorem cacheAfter_eq (eval eval' : Evaluation K) (calls : List (EncoderCall K)) :
    M.cacheAfter eval calls = M.cacheAfter eval' calls := by
  rw [cacheAfter, cacheAfter]
  refine List.foldl_ext _ _ _ fun cache c _ => ?_
  exact call_snd_eq eval eval' cache c

/-! ### What a call returns -/

omit [BEq K] in
/-- A request that finds the graph it would build returns what it would return on no graphs. -/
theorem serve_eq_of_spec_eq {cache : List (EncoderGraph K)} {c : EncoderCall K} {req : Request K}
    (hfaithful : Faithful M c req) (hcache : ∀ g ∈ cache, M.Entry g)
    (hspec : ∀ g, cache.find? req.fits = some g → g.toGraphSpec = req.spec) (eval : Evaluation K) :
    (M.serve eval req cache).1 = (M.serve eval req []).1 := by
  rw [serve, serve, Lru.fetch_nil, Lru.fetch]
  cases hfind : cache.find? req.fits with
  | none => rfl
  | some g =>
    obtain ⟨-, hbuilt, hmasks⟩ := hcache g (List.mem_of_find?_eq_some hfind)
    show M.result eval req (.ok g) = M.result eval req (M.buildEncoderGraphCached req.spec)
    rw [← hspec g hfind, hbuilt, result, result, hfaithful.inputs g g.masks hmasks]

omit [One K] [BEq K] in
/-- A request that finds another graph returns something else for some values of the graphs. -/
theorem exists_serve_ne {cache : List (EncoderGraph K)} {req : Request K} {g : EncoderGraph K}
    (hfind : cache.find? req.fits = some g) (hne : g.toGraphSpec ≠ req.spec) :
    ∃ eval, (M.serve eval req cache).1 ≠ (M.serve eval req []).1 := by
  refine ⟨fun spec _ => if spec = g.toGraphSpec then .ok fun _ => [] else .error (-4), fun h => ?_⟩
  rw [serve, serve, Lru.fetch_nil, Lru.fetch, hfind] at h
  cases hbuild : M.buildEncoderGraphCached req.spec with
  | error rc =>
    rw [hbuild] at h
    simp [result] at h
  | ok g' =>
    have hspec := (buildEncoderGraphCached_eq_ok hbuild).1
    rw [hbuild] at h
    simp [result, hspec, Ne.symm hne] at h

/-- After any calls at most three graphs are kept, and a call moves to the back the one it uses. It
returns what it returns on a model that keeps no graph, whatever the values of the graphs are,
exactly if it fits the kept graphs. -/
theorem call_transparent_iff (M : EncoderModel K) (calls : List (EncoderCall K))
    (c : EncoderCall K) :
    (∀ eval, (M.cacheAfter eval calls).length ≤ 3 ∧
      M.Moves (M.cacheAfter eval calls) c (M.call eval (M.cacheAfter eval calls) c).2) ∧
    ((∀ eval, (M.call eval (M.cacheAfter eval calls) c).1 = (M.call eval [] c).1) ↔
      ∀ eval, M.CallFits (M.cacheAfter eval calls) c) := by
  refine ⟨fun eval => ⟨(M.cacheAfter_entry eval calls).1, moves_call eval _ c⟩, ?_, ?_⟩
  · intro h eval
    rw [callFits_iff (M.cacheAfter_entry eval calls).2]
    intro req hreq g hfind
    by_contra hne
    obtain ⟨eval', heval'⟩ := exists_serve_ne (M := M) hfind hne
    have heq := h eval'
    rw [call_eq, call_eq, hreq, M.cacheAfter_eq eval' eval] at heq
    exact heval' heq
  · intro h eval
    have hentry := (M.cacheAfter_entry eval calls).2
    have hfits := (callFits_iff hentry).1 (h eval)
    rw [call_eq, call_eq]
    cases hreq : M.request c with
    | none => rfl
    | some req =>
      exact serve_eq_of_spec_eq (faithful_of_request hreq) hentry (hfits req hreq) eval

end EncoderModel

/-! ### A call without a number of layers -/

/-- An encoder with two layers. -/
def twoLayers : EncoderModel ℤ where
  backendActive := true
  causalDownsampling := false
  dModel := 1
  nLayers := 2
  vocabSize := 0
  attChunkedLimited := false
  attContextLeft := -1
  attContextRight := -1
  ctcHead := false
  maxLayersEnv := none
  relPosEncoding := fun _ _ => []
  masked := 0
  reserve := fun _ => 0

/-- After a call with one layer, a call with all layers runs one. -/
theorem not_forall_call_eq :
    ¬∀ (M : EncoderModel ℤ) (calls : List (EncoderCall ℤ)) (c : EncoderCall ℤ)
      (eval : Evaluation ℤ),
      (M.call eval (M.cacheAfter eval calls) c).1 = (M.call eval [] c).1 := by
  intro h
  -- the value of `encoder_out` is the number of layers run
  have heq := h twoLayers [.runEncoder (fun _ => 1) 1 1 1 false]
    (.runEncoder (fun _ => 1) 1 1 (-1) false) fun spec _ => .ok fun _ => [spec.nRunLayers]
  have hout := congrArg (fun r => r.toOption.map fun out => out.node .encoderOut) heq
  revert hout
  decide

end Parakeet

end WhisperCpp
