import WhisperCpp.Loader.Model

/-!
# The model of the VAD

The model of the VAD is loaded like that of whisper: a header with the numbers of the layers and of
their channels, and then the records of the weights. The tensors are those of four encoder layers,
whatever the number of layers in the header.

## Main definitions

* `VadHparams`, `readVad` — the header
* `vadTensors` — the registered tensors
* `vadInit` — the whole load
-/

namespace WhisperCpp

namespace Loader

open Ggml (Tensor)
open Reading (run)

/-- What the source leaves to the memory it finds, to the backends, and to the rest of the
initialisation. -/
structure VadEnv where
  magic : ℤ
  strLen : ℤ
  major : ℤ
  minor : ℤ
  patch : ℤ
  nWindow : ℤ
  nContext : ℤ
  nEncoderLayers : ℤ
  encoderInChannels : ℕ → ℤ
  encoderOutChannels : ℕ → ℤ
  kernelSizes : ℕ → ℤ
  lstmInputSize : ℤ
  lstmHiddenSize : ℤ
  finalConvIn : ℤ
  finalConvOut : ℤ
  backends : Registry → Except Fault Unit
  initContext : Bool

/-- `whisper_vad_hparams`. -/
structure VadHparams where
  nEncoderLayers : ℤ
  encoderInChannels : List ℤ
  encoderOutChannels : List ℤ
  kernelSizes : List ℤ
  lstmInputSize : ℤ
  lstmHiddenSize : ℤ
  finalConvIn : ℤ
  finalConvOut : ℤ

/-- `whisper_vad_context`, as far as it is loaded. -/
structure VadModel where
  type : List UInt8
  version : String
  nWindow : ℤ
  nContext : ℤ
  hparams : VadHparams
  tensors : Registry
  loaded : List (List UInt8 × List UInt8)

section Header

variable (env : VadEnv)

/-- The type of the model. Its buffer has one byte more than it; of the length `-1`, all bytes are read
into a buffer without any. -/
def readVadType : Load (List UInt8) := do
  let strLen ← readI32 env.strLen
  if wrap32 (strLen + 1) < 0 then fault .uncaught
  else if strLen < 0 then fault .outOfBounds
  else
    let bytes ← Reading.get strLen.toNat
    pure (bytes ++ List.replicate (strLen.toNat - bytes.length) 0)

def readVersion : Load String := do
  let major ← readI32 env.major
  let minor ← readI32 env.minor
  let patch ← readI32 env.patch
  pure (toString major ++ "." ++ toString minor ++ "." ++ toString patch)

def readSizes : Load (ℤ × ℤ) := do
  let nWindow ← readI32 env.nWindow
  let nContext ← readI32 env.nContext
  pure (nWindow, nContext)

/-- The channels and the kernel size of the layers `i`, …, of which `n` are left. -/
def readChannels : ℕ → ℕ → Load (List (ℤ × ℤ × ℤ))
  | 0, _ => pure []
  | n + 1, i => do
    let encoderIn ← readI32 (env.encoderInChannels i)
    let encoderOut ← readI32 (env.encoderOutChannels i)
    let kernelSize ← readI32 (env.kernelSizes i)
    let channels ← readChannels n (i + 1)
    pure ((encoderIn, encoderOut, kernelSize) :: channels)

/-- The numbers behind the channels. -/
def readLstm (nEncoderLayers : ℤ) (channels : List (ℤ × ℤ × ℤ)) : Load VadHparams := do
  let lstmInputSize ← readI32 env.lstmInputSize
  let lstmHiddenSize ← readI32 env.lstmHiddenSize
  let finalConvIn ← readI32 env.finalConvIn
  let finalConvOut ← readI32 env.finalConvOut
  pure ⟨nEncoderLayers, channels.map fun c => c.1, channels.map fun c => c.2.1,
    channels.map fun c => c.2.2, lstmInputSize, lstmHiddenSize, finalConvIn, finalConvOut⟩

/-- The hyperparameters. There is no array of a negative size. -/
def readVadHparams : Load VadHparams := do
  let nEncoderLayers ← readI32 env.nEncoderLayers
  if nEncoderLayers < 0 then fault .uncaught
  else
    let channels ← readChannels env nEncoderLayers.toNat 0
    readLstm env nEncoderLayers channels

end Header

/-- The tensors of an encoder layer, with the sizes that the arrays hold for it. -/
def encoderLayer (hp : VadHparams) (i : ℕ) : Except Fault (List (String × Tensor)) :=
  match hp.kernelSizes[i]?, hp.encoderInChannels[i]?, hp.encoderOutChannels[i]? with
  | some kernelSize, some encoderIn, some encoderOut =>
    .ok [("_model.encoder." ++ toString i ++ ".reparam_conv.weight",
        Ggml.newTensor3d .f16 kernelSize encoderIn encoderOut),
      ("_model.encoder." ++ toString i ++ ".reparam_conv.bias", new1d .f32 encoderOut)]
  | _, _, _ => .error .outOfBounds

/-- The tensors of the model. -/
def vadTensors (hp : VadHparams) : Except Fault Registry := do
  let encoder0 ← encoderLayer hp 0
  let encoder1 ← encoderLayer hp 1
  let encoder2 ← encoderLayer hp 2
  let encoder3 ← encoderLayer hp 3
  let hstateDim := wrap32 (hp.lstmHiddenSize * 4)
  .ok (register (
    ("_model.stft.forward_basis_buffer", Ggml.newTensor3d .f16 256 1 258) ::
    encoder0 ++ encoder1 ++ encoder2 ++ encoder3 ++
    [("_model.decoder.rnn.weight_ih", new2d .f32 hp.lstmHiddenSize hstateDim),
      ("_model.decoder.rnn.bias_ih", new1d .f32 hstateDim),
      ("_model.decoder.rnn.weight_hh", new2d .f32 hp.lstmHiddenSize hstateDim),
      ("_model.decoder.rnn.bias_hh", new1d .f32 hstateDim),
      ("_model.decoder.decoder.2.weight", new2d .f16 hp.finalConvIn 1),
      ("_model.decoder.decoder.2.bias", new1d .f32 1)]))

/-- `whisper_vad_init_with_params`, up to the memory of the weights. -/
def readVad (env : VadEnv) : Load VadModel := do
  readMagic env.magic
  let type ← readVadType env
  let version ← readVersion env
  let (nWindow, nContext) ← readSizes env
  let hparams ← readVadHparams env
  let tensors ← lift (vadTensors hparams)
  pure ⟨type, version, nWindow, nContext, hparams, tensors, []⟩

/-- `whisper_vad_init_with_params`. -/
def vadInit {σ : Type} (L : ModelLoader σ) (env : VadEnv) (st : σ) : Except Stop VadModel :=
  match run L.read (readVad env) st with
  | (.error e, _) => .error e
  | (.ok model, st) =>
    match env.backends model.tensors with
    | .error f => .error (.fault f)
    | .ok () =>
      match loadTensors L model.tensors st with
      | .error e => .error e
      | .ok loaded => if env.initContext then .ok { model with loaded } else .error .rejected

/-- `whisper_vad_init_from_file_with_params`, on a file that can be opened. -/
def vadInitFromFile (env : VadEnv) (bytes : List UInt8) : Except Stop VadModel :=
  vadInit fileLoader env (openFile bytes)

end Loader

end WhisperCpp
