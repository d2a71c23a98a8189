import Mathlib.Data.List.TakeWhile
import WhisperCpp.Library.Literals
import WhisperCpp.Loader.Weights

/-!
# The model of whisper

The header of a model gives the hyperparameters, the mel filters and the vocabulary. It decides which
tensors there are. The records of the weights follow.

## Main definitions

* `Hparams`, `readHparams`, `readFilters`, `readVocab` — the header
* `tensors` — the registered tensors
* `whisperModelLoad`, `initFromFile`, `initFromBuffer` — the whole load
-/

namespace WhisperCpp

namespace Loader

open Ggml (GgmlType Tensor newTensor)
open Reading (run)

attribute [local instance] Literals.neZero_fortyTwo

/-- What the source leaves to the memory it finds and to the backends: the values of variables that are
not initialised, and whether tensors can be created for the weights. -/
structure Env where
  magic : ℤ
  nMel : ℤ
  nFft : ℤ
  len : ℕ → ℤ
  backends : Registry → Except Fault Unit

/-! ### Hyperparameters -/

/-- `whisper_hparams`. -/
structure Hparams where
  nVocab : ℤ := 51864
  nAudioCtx : ℤ := 1500
  nAudioState : ℤ := 384
  nAudioHead : ℤ := 6
  nAudioLayer : ℤ := 4
  nTextCtx : ℤ := 448
  nTextState : ℤ := 384
  nTextHead : ℤ := 6
  nTextLayer : ℤ := 4
  nMels : ℤ := 80
  ftype : ℤ := 1
  nAudioConv1Kernel : ℤ := 3
  nAudioWindowSize : ℤ := 0
  nAudioLastWindowLayer : ℤ := -1
  isBci : Bool := false

/-- `GGML_FILE_MAGIC`. -/
def ggmlFileMagic : ℕ := 0x67676d6c

def readMagic (old : ℤ) : Load Unit := do
  let magic ← readU32 old
  if magic ≠ ggmlFileMagic then rejected else pure ()

/-- The hyperparameters of every model. -/
def readCommon (hp : Hparams) : Load Hparams := do
  let nVocab ← readI32 hp.nVocab
  let nAudioCtx ← readI32 hp.nAudioCtx
  let nAudioState ← readI32 hp.nAudioState
  let nAudioHead ← readI32 hp.nAudioHead
  let nAudioLayer ← readI32 hp.nAudioLayer
  let nTextCtx ← readI32 hp.nTextCtx
  let nTextState ← readI32 hp.nTextState
  let nTextHead ← readI32 hp.nTextHead
  let nTextLayer ← readI32 hp.nTextLayer
  let nMels ← readI32 hp.nMels
  let ftype ← readI32 hp.ftype
  pure { hp with
    nVocab, nAudioCtx, nAudioState, nAudioHead, nAudioLayer, nTextCtx, nTextState, nTextHead,
    nTextLayer, nMels, ftype }

/-- Those of a BCI model. -/
def readBci (hp : Hparams) : Load Hparams := do
  let nAudioConv1Kernel ← readI32 hp.nAudioConv1Kernel
  let nAudioWindowSize ← readI32 hp.nAudioWindowSize
  let nAudioLastWindowLayer ← readI32 hp.nAudioLastWindowLayer
  if nAudioConv1Kernel ≤ 0 then rejected
  else if nAudioWindowSize < 0 then rejected
  else
    pure { hp with nAudioConv1Kernel, nAudioWindowSize, nAudioLastWindowLayer, isBci := true }

/-- `ggml_ftype_to_ggml_type`. -/
def ggmlFtypeToGgmlType (ftype : ℤ) : Except Fault GgmlType :=
  match ftype with
  | 0 => .ok 0
  | 1 => .ok 1
  | 2 => .ok 2
  | 3 => .ok 3
  | 7 => .ok 8
  | 8 => .ok 6
  | 9 => .ok 7
  | 10 => .ok 10
  | 11 => .ok 11
  | 12 => .ok 12
  | 13 => .ok 13
  | 14 => .ok 14
  | 15 => .ok 16
  | 16 => .ok 17
  | 17 => .ok 18
  | 18 => .ok 19
  | 19 => .ok 20
  | 20 => .ok 21
  | 21 => .ok 22
  | 22 => .ok 23
  | 23 => .ok 29
  | 24 => .ok 30
  | 25 => .ok 39
  | 26 => .ok 40
  | 27 => .ok 41
  | _ => .error .assertFailed

/-- A computation that does not read. -/
def lift {α : Type} : Except Fault α → Load α
  | .ok a => pure a
  | .error f => fault f

def readHparams : Load (Hparams × GgmlType) := do
  let hp ← readCommon {}
  let hp ← if 256 < hp.nMels then readBci hp else pure hp
  let ftype := hp.ftype.tmod 1000
  let wtype ← lift (ggmlFtypeToGgmlType ftype)
  pure ({ hp with ftype }, wtype)

/-! ### Filters and vocabulary -/

/-- `whisper_filters`; of the data its bytes. -/
structure Filters where
  nMel : ℤ
  nFft : ℤ
  data : List UInt8

/-- The mel filters. There is no vector of a negative size. -/
def readFilters (env : Env) : Load Filters := do
  let nMel ← readI32 env.nMel
  let nFft ← readI32 env.nFft
  let size := wrap32 (nMel * nFft)
  if size < 0 then fault .uncaught
  else
    let bytes ← Reading.get (4 * size.toNat)
    pure ⟨nMel, nFft, bytes ++ List.replicate (4 * size.toNat - bytes.length) 0⟩

/-- The words `i`, …, of which `n` are left. The buffer keeps what it held before. -/
def readWords (env : Env) : ℕ → ℕ → List UInt8 → Load (List (List UInt8))
  | 0, _, _ => pure []
  | n + 1, i, tmp => do
    let len ← readU32 (env.len i)
    if 0 < len then
      let tmp := tmp.take len ++ List.replicate (len - tmp.length) 0
      let bytes ← Reading.get len
      let tmp := bytes ++ tmp.drop bytes.length
      let words ← readWords env n (i + 1) tmp
      pure (tmp :: words)
    else
      let words ← readWords env n (i + 1) tmp
      pure ([] :: words)

/-- The keys of `g_lang`, by their number. -/
def langs : List String :=
  ["en", "zh", "de", "es", "ru", "ko", "fr", "ja", "pt", "tr", "pl", "ca", "nl", "ar", "sv", "it",
    "id", "hi", "fi", "vi", "he", "uk", "el", "ms", "cs", "ro", "da", "hu", "ta", "no", "th", "ur",
    "hr", "bg", "lt", "la", "mi", "ml", "cy", "sk", "te", "fa", "lv", "bn", "sr", "az", "sl", "kn",
    "et", "mk", "br", "eu", "is", "hy", "ne", "mn", "bs", "kk", "sq", "sw", "gl", "mr", "pa", "si",
    "km", "sn", "yo", "so", "af", "oc", "ka", "be", "tg", "sd", "gu", "am", "yi", "lo", "uz", "fo",
    "ht", "ps", "tk", "nn", "mt", "sa", "lb", "my", "bo", "tl", "mg", "as", "tt", "haw", "ln", "ha",
    "ba", "jw", "su", "yue"]

/-- `whisper_lang_str`. -/
def langStr (id : ℤ) : Option String := if 0 ≤ id then langs[id.toNat]? else none

/-- The word of a token that is not in the file. A string cannot be made of a null pointer. -/
def extraWord (nVocab i : ℤ) : Except Fault String :=
  let isMultilingual := 51865 ≤ nVocab
  let numLanguages := nVocab - 51765 - if isMultilingual then 1 else 0
  let dt := if isMultilingual then numLanguages - 98 else 0
  let tokenEot := if isMultilingual then 50257 else 50256
  let tokenSot := if isMultilingual then 50258 else 50257
  if 50363 + dt < i then .ok ("[_TT_" ++ toString (i - (50363 + dt)) ++ "]")
  else if i = tokenEot then .ok "[_EOT_]"
  else if i = tokenSot then .ok "[_SOT_]"
  else if i = 50357 + dt then .ok "[_TRANSLATE_]"
  else if i = 50358 + dt then .ok "[_TRANSCRIBE_]"
  else if i = 50359 + dt then .ok "[_SOLM_]"
  else if i = 50360 + dt then .ok "[_PREV_]"
  else if i = 50361 + dt then .ok "[_NOSP_]"
  else if i = 50362 + dt then .ok "[_NOT_]"
  else if i = 50363 + dt then .ok "[_BEG_]"
  else if tokenSot < i ∧ i ≤ tokenSot + numLanguages then
    match langStr (i - tokenSot - 1) with
    | some lang => .ok ("[_LANG_" ++ lang ++ "]")
    | none => .error .uncaught
  else .ok ("[_extra_token_" ++ toString i ++ "]")

/-- `id_to_token`, in the order of the ids, from the words of the file on. -/
def readVocab (env : Env) (hp : Hparams) : Load (List (ℤ × List UInt8)) := do
  let nVocab ← readI32 0
  let words ← readWords env nVocab.toNat 0 []
  let extra ← lift ((List.range (hp.nVocab - nVocab).toNat).mapM fun k => do
    let word ← extraWord hp.nVocab (nVocab + k)
    pure (nVocab + k, word.toUTF8.toList))
  pure (words.zipIdx.map (fun (word, i) => ((i : ℤ), word)) ++ extra)

/-! ### Tensors -/

/-- The C string. -/
def cString (s : String) : Name :=
  ⟨s.toUTF8.toList.takeWhile (· ≠ 0), fun h => by
    have hne := List.mem_takeWhile_imp h
    rw [decide_eq_true_eq] at hne
    exact hne rfl⟩

def new1d (type : GgmlType) (ne0 : ℤ) : Tensor := newTensor type ![ne0, 1, 1, 1]

def new2d (type : GgmlType) (ne0 ne1 : ℤ) : Tensor := newTensor type ![ne0, ne1, 1, 1]

/-- The attention, its norm and its output, under the given names. -/
def attention (wtype : GgmlType) (state : ℤ) (norm attn : String) : List (String × Tensor) :=
  [(norm ++ ".weight", new1d .f32 state), (norm ++ ".bias", new1d .f32 state),
    (attn ++ ".query.weight", new2d wtype state state), (attn ++ ".query.bias", new1d .f32 state),
    (attn ++ ".key.weight", new2d wtype state state),
    (attn ++ ".value.weight", new2d wtype state state), (attn ++ ".value.bias", new1d .f32 state),
    (attn ++ ".out.weight", new2d wtype state state), (attn ++ ".out.bias", new1d .f32 state)]

/-- The norm and the weights of an MLP. -/
def mlp (wtype : GgmlType) (state : ℤ) (block : String) : List (String × Tensor) :=
  [(block ++ ".mlp_ln.weight", new1d .f32 state), (block ++ ".mlp_ln.bias", new1d .f32 state),
    (block ++ ".mlp.0.weight", new2d wtype state (wrap32 (4 * state))),
    (block ++ ".mlp.0.bias", new1d .f32 (wrap32 (4 * state))),
    (block ++ ".mlp.2.weight", new2d wtype (wrap32 (4 * state)) state),
    (block ++ ".mlp.2.bias", new1d .f32 state)]

/-- A layer of the encoder or the decoder. -/
def layer (wtype : GgmlType) (state : ℤ) (block : String) : List (String × Tensor) :=
  mlp wtype state block ++ attention wtype state (block ++ ".attn_ln") (block ++ ".attn")

def encoderTensors (hp : Hparams) (wtype : GgmlType) : List (String × Tensor) :=
  let vtype : GgmlType := if wtype = .f32 then .f32 else .f16
  let state := hp.nAudioState
  [("encoder.positional_embedding", new2d .f32 state hp.nAudioCtx),
    ("encoder.conv1.weight", Ggml.newTensor3d vtype hp.nAudioConv1Kernel hp.nMels state),
    ("encoder.conv1.bias", new2d .f32 1 state),
    ("encoder.conv2.weight", Ggml.newTensor3d vtype 3 state state),
    ("encoder.conv2.bias", new2d .f32 1 state),
    ("encoder.ln_post.weight", new1d .f32 state),
    ("encoder.ln_post.bias", new1d .f32 state)] ++
  (List.range hp.nAudioLayer.toNat).flatMap fun i =>
    layer wtype state ("encoder.blocks." ++ toString i)

def decoderTensors (hp : Hparams) (wtype : GgmlType) : List (String × Tensor) :=
  let state := hp.nTextState
  [("decoder.positional_embedding", new2d .f32 state hp.nTextCtx),
    ("decoder.token_embedding.weight", new2d wtype state hp.nVocab),
    ("decoder.ln.weight", new1d .f32 state),
    ("decoder.ln.bias", new1d .f32 state)] ++
  (List.range hp.nTextLayer.toNat).flatMap fun i =>
    let block := "decoder.blocks." ++ toString i
    layer wtype state block ++
      attention wtype state (block ++ ".cross_attn_ln") (block ++ ".cross_attn")

/-- `create_tensor`, for a list of tensors. -/
def register (tensors : List (String × Tensor)) : Registry :=
  tensors.foldl (fun reg (name, t) => reg.insert (cString name) t) ∅

/-- The tensors of a model. There are no vectors of a negative number of layers. -/
def tensors (hp : Hparams) (wtype : GgmlType) : Except Fault Registry :=
  if hp.nAudioLayer < 0 ∨ hp.nTextLayer < 0 then .error .uncaught
  else .ok (register (encoderTensors hp wtype ++ decoderTensors hp wtype))

/-! ### The load -/

/-- `whisper_context`, as far as it is loaded: `n_loaded` is the number of records. -/
structure Model where
  hparams : Hparams
  wtype : GgmlType
  filters : Filters
  vocab : List (ℤ × List UInt8)
  tensors : Registry
  loaded : List (List UInt8 × List UInt8)

/-- `whisper_model_load`, up to the weights. -/
def readModel (env : Env) : Load Model := do
  readMagic env.magic
  let (hparams, wtype) ← readHparams
  let filters ← readFilters env
  let vocab ← readVocab env hparams
  let tensors ← lift (tensors hparams wtype)
  lift (env.backends tensors)
  pure ⟨hparams, wtype, filters, vocab, tensors, []⟩

/-- `whisper_model_load`. -/
def whisperModelLoad {σ : Type} (L : ModelLoader σ) (env : Env) (st : σ) : Except Stop Model :=
  match run L.read (readModel env) st with
  | (.error e, _) => .error e
  | (.ok model, st) => (loadTensors L model.tensors st).map fun loaded => { model with loaded }

/-- A file at its beginning. -/
def openFile (bytes : List UInt8) : FileStream := ⟨bytes, false, nofun⟩

/-- A buffer at its beginning. -/
def openBuffer (bytes : List UInt8) : BufContext := ⟨bytes, 0, Nat.zero_le _⟩

/-- `whisper_init_from_file_with_params_no_state`, on a file that can be opened. -/
def initFromFile (env : Env) (bytes : List UInt8) : Except Stop Model :=
  whisperModelLoad fileLoader env (openFile bytes)

/-- `whisper_init_from_buffer_with_params_no_state`. -/
def initFromBuffer (env : Env) (bytes : List UInt8) : Except Stop Model :=
  whisperModelLoad bufferLoader env (openBuffer bytes)

/-! ### A small model -/

/-- An environment in which the memory is empty and every tensor can be created. -/
def emptyEnv : Env := ⟨0, 0, 0, fun _ => 0, fun _ => .ok ()⟩

/-- The header of a model without layers, with states of one element and a vocabulary of one extra
token. It has eleven tensors. -/
def smallHeader : List UInt8 :=
  [(ggmlFileMagic : ℤ), 1, 1, 1, 1, 0, 1, 1, 1, 0, 1, 0, 0, 0, 0].flatMap toBytes

/-- A record of type `f32`. -/
def record (ne : List ℤ) (name : String) (data : List UInt8) : List UInt8 :=
  ((ne.length : ℤ) :: (name.length : ℤ) :: 0 :: ne).flatMap toBytes ++ (cString name).1 ++ data

end Loader

end WhisperCpp
