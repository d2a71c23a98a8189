import Mathlib.Algebra.Group.Defs
import Mathlib.Algebra.Group.Int.Defs
import Mathlib.Data.Int.Cast.Defs
import Mathlib.Data.Nat.Cast.Defs
import WhisperCpp.Fault
import WhisperCpp.Library.Rows

/-!
# The speaker cache

`streaming_update` puts the frames of a chunk into a FIFO, moves frames from its front to the speaker
cache, and compresses the cache when it overflows. Embeddings and predictions are in arrays of their
own. The arithmetic of floats is not looked at.

## Main definitions

* `SpeakerCache` — `SortformerSpeakerCache`
* `updateSilenceProfile`, `compressSpeakerCache`, `streamingUpdate` — the functions
* `aoscStep`, `aoscRun` — the calls of a session
-/

namespace WhisperCpp

namespace Parakeet

/-! ### Data -/

/-- Functions of `float` and `double` and their constants. -/
structure FloatOps (K L : Type*) where
  log : K → K
  /-- `(int) std::floor` -/
  floor : K → ℤ
  toDouble : K → L
  toFloat : L → K
  half : K
  two : K
  /-- `k_score_neg_inf` -/
  negInf : K
  /-- `k_score_pos_inf` -/
  posInf : K

/-- `std::nth_element` from the start of a vector: the order is not specified further. -/
structure NthElement where
  run : (ℕ → ℕ → Bool) → ℕ → List ℕ → List ℕ
  perm : ∀ lt k l, (run lt k l).Perm l

/-- The sizes of the model: `num_spks` and `D`. -/
structure SpeakerDims where
  numSpks : ℕ
  d : ℕ
  d_pos : 0 < d

/-- `SortformerStreamingConfig`. The lengths are what the caller asks for. -/
structure SpeakerCacheConfig (K : Type*) where
  spkcacheLen : ℤ
  fifoLen : ℤ
  spkcacheUpdatePeriod : ℤ
  spkcacheSilFramesPerSpk : ℕ
  silThreshold : K
  predScoreThreshold : K
  scoresBoostLatest : K
  strongBoostRate : K
  weakBoostRate : K
  minPosScoresRate : K

/-- `SortformerSpeakerCache`. -/
structure SpeakerCache (K : Type*) where
  spkcache : List K
  nRows : ℕ
  spkcachePreds : List K
  spkcachePredsValid : Bool
  fifo : List K
  nFifo : ℕ
  fifoPreds : List K
  meanSilEmb : List K
  nSilFrames : ℕ

/-- A chunk as `sortformer_aosc_step` gets it, where it does not return at once: `T_chunk_pre` rows,
of which `chunk_len_eff` rows from row `lc` on are committed, and the model, which predicts for the
rows of the cache, of the FIFO and of the chunk together. -/
structure AoscChunk (K : Type*) where
  tChunkPre : ℕ
  lc : ℕ
  chunkLenEff : ℕ
  embs : ℕ → K
  predict : List K → ℕ → K
  pos : 0 < chunkLenEff
  fits : lc + chunkLenEff ≤ tChunkPre

section Cache

-- arithmetic of floats and doubles: no law is used
variable {K L : Type*} [Zero K] [One K] [Add K] [Sub K] [Mul K] [Neg K] [IntCast K] [LT K]
  [DecidableLT K] [DecidableEq K] [Zero L] [Add L] [Mul L] [Div L] [NatCast L]
  (O : FloatOps K L) (N : NthElement) (dims : SpeakerDims) (cfg : SpeakerCacheConfig K)

/-- `sortformer_cache_reset`. -/
def SpeakerCache.reset : SpeakerCache K where
  spkcache := []
  nRows := 0
  spkcachePreds := []
  spkcachePredsValid := false
  fifo := []
  nFifo := 0
  fifoPreds := []
  meanSilEmb := List.replicate dims.d 0
  nSilFrames := 0

/-- `std::max`. -/
def stdMax (a b : K) : K := if a < b then b else a

/-! ### Silence -/

/-- `update_silence_profile`. A vector without values has no data. -/
def updateSilenceProfile (cache : SpeakerCache K) (embPop predsPop : List K) (nPop : ℕ) :
    Except Fault (SpeakerCache K) :=
  if nPop = 0 ∨ embPop = [] ∨ predsPop = [] then .ok cache
  else if embPop.length < nPop * dims.d ∨ predsPop.length < nPop * dims.numSpks then
    .error .outOfBounds
  else
    let isSilent t := (Rows.row dims.numSpks predsPop t).foldl (· + ·) 0 < cfg.silThreshold
    let silRows := ((List.range nPop).filter fun t => isSilent t).map (Rows.row dims.d embPop)
    if silRows.length = 0 then .ok cache
    else
      let mean := if cache.meanSilEmb.length ≠ dims.d then List.replicate dims.d 0
        else cache.meanSilEmb
      let silSum i := silRows.foldl (fun sum r => sum + O.toDouble (r.getD i 0)) (0 : L)
      let newN : L := ((cache.nSilFrames + silRows.length : ℕ) : L)
      .ok { cache with
        meanSilEmb := (List.range dims.d).map fun i =>
          O.toFloat ((O.toDouble (mean.getD i 0) * (cache.nSilFrames : L) + silSum i) / newN)
        nSilFrames := cache.nSilFrames + silRows.length }

/-! ### Scores -/

/-- The score of a frame and a speaker. -/
abbrev Scores (K : Type*) := ℕ → ℕ → K

/-- `compute_log_pred_scores`. -/
def computeLogPredScores (pred : Scores K) : Scores K :=
  let log1p t j := O.log (stdMax (1 - pred t j) cfg.predScoreThreshold)
  let log1Sum t := (List.range dims.numSpks).foldl (fun sum j => sum + log1p t j) 0
  fun t i => O.log (stdMax (pred t i) cfg.predScoreThreshold) - log1p t i + log1Sum t - O.log O.half

/-- `disable_low_scores`. -/
def disableLowScores (pred : Scores K) (nFrames : ℕ) (minPosScoresPerSpk : ℤ) (scores : Scores K) :
    Scores K :=
  let speech t i := if O.half < pred t i then scores t i else O.negInf
  let posCount i := ((List.range nFrames).filter fun t => 0 < speech t i).length
  fun t i =>
    if O.half < pred t i ∧ (¬0 < speech t i ∧ speech t i ≠ O.negInf) ∧
      minPosScoresPerSpk ≤ posCount i then O.negInf
    else speech t i

/-- The boost of the frames behind the first `spkcache_len`. -/
def boostLatest (nFrames spkcacheLen : ℕ) (scores : Scores K) : Scores K :=
  if 0 < cfg.scoresBoostLatest ∧ spkcacheLen < nFrames then
    fun t i => if spkcacheLen ≤ t ∧ scores t i ≠ O.negInf then scores t i + cfg.scoresBoostLatest
      else scores t i
  else scores

/-- `boost_topk_scores`. -/
def boostTopkScores (nFrames : ℕ) (nBoostPerSpk : ℤ) (scaleFactor : K) (scores : Scores K) :
    Scores K :=
  if nBoostPerSpk ≤ 0 ∨ nFrames = 0 then scores
  else
    let boost := -scaleFactor * O.log O.half
    let k := min nBoostPerSpk.toNat nFrames
    let top spk := (N.run (fun a b => scores b spk < scores a spk) k (List.range nFrames)).take k
    fun t spk => if t ∈ top spk ∧ scores t spk ≠ O.negInf then scores t spk + boost
      else scores t spk

/-- All the scores of a compression, with those of the rows for silence behind them. -/
def compressScores (predsIn : List K) (nFrames spkcacheLen spkcacheLenPerSpk : ℕ) : Scores K :=
  let pred t i := predsIn.getD (t * dims.numSpks + i) 0
  let scaled rate := O.floor (((spkcacheLenPerSpk : ℤ) : K) * rate)
  let scores := computeLogPredScores O dims cfg pred
  let scores := disableLowScores O pred nFrames (scaled cfg.minPosScoresRate) scores
  let scores := boostLatest O cfg nFrames spkcacheLen scores
  let scores := boostTopkScores O N nFrames (scaled cfg.strongBoostRate) O.two scores
  let scores := boostTopkScores O N nFrames (scaled cfg.weakBoostRate) 1 scores
  fun t i => if nFrames ≤ t then O.posInf else scores t i

/-- `MAX_INDEX`. -/
def maxIndex : ℕ := 2147483647

/-- `topk`: the indices with the best scores in order, with `MAX_INDEX` for disabled ones. -/
def topkIndices (scores : Scores K) (nTotal spkcacheLen : ℕ) : List ℕ :=
  let flatN := nTotal * dims.numSpks
  let flatScore idx := scores (idx % nTotal) (idx / nTotal)
  let k := min spkcacheLen flatN
  let topk := (N.run (fun a b => flatScore b < flatScore a) k (List.range flatN)).take k
  (topk.map fun idx => if flatScore idx = O.negInf then maxIndex else idx).mergeSort (· ≤ ·)

/-- The frame that row `r` of the compressed cache is filled with; a row without one is silence. -/
def pickedFrame (topk : List ℕ) (nTotal nFrames r : ℕ) : Option ℕ :=
  match topk[r]? with
  | none => none
  | some idx =>
    if idx = maxIndex then none
    else if nFrames ≤ idx % nTotal then none
    else some (idx % nTotal)

/-! ### Compression -/

/-- A row of the compressed cache is filled. -/
def gatherRow (meanSilEmb embIn predsIn : List K) (pick : ℕ → Option ℕ)
    (acc : List K × List K) (r : ℕ) : Except Fault (List K × List K) :=
  match pick r with
  | none => do
    let spkcache ← Rows.copy .outOfBounds acc.1 (r * dims.d) meanSilEmb (0 * dims.d) (1 * dims.d)
    .ok (spkcache, acc.2)
  | some t => do
    let spkcache ← Rows.copy .outOfBounds acc.1 (r * dims.d) embIn (t * dims.d) (1 * dims.d)
    let preds ← Rows.copy .outOfBounds acc.2 (r * dims.numSpks) predsIn (t * dims.numSpks)
      (1 * dims.numSpks)
    .ok (spkcache, preds)

/-- All rows of the compressed cache, from zeros on. -/
def gather (meanSilEmb embIn predsIn : List K) (pick : ℕ → Option ℕ) (spkcacheLen : ℕ) :
    Except Fault (List K × List K) :=
  (List.range spkcacheLen).foldlM (gatherRow dims meanSilEmb embIn predsIn pick)
    (List.replicate (spkcacheLen * dims.d) 0, List.replicate (spkcacheLen * dims.numSpks) 0)

/-- A cache of silence only. -/
def silenceOnly (meanSilEmb : List K) (spkcacheLen : ℕ) : Except Fault (List K × List K) :=
  if meanSilEmb.length = dims.d then gather dims meanSilEmb [] [] (fun _ => none) spkcacheLen
  else .ok (List.replicate (spkcacheLen * dims.d) 0, List.replicate (spkcacheLen * dims.numSpks) 0)

/-- The rows that the scores choose. -/
def gatherTopk (meanSilEmb embIn predsIn : List K) (nFrames spkcacheLen : ℕ) :
    Except Fault (List K × List K) :=
  if predsIn.length < nFrames * dims.numSpks then .error .outOfBounds
  else
    let perSpk := spkcacheLen / dims.numSpks - cfg.spkcacheSilFramesPerSpk
    let nTotal := nFrames + cfg.spkcacheSilFramesPerSpk
    let scores := compressScores O N dims cfg predsIn nFrames spkcacheLen perSpk
    let topk := topkIndices O N dims scores nTotal spkcacheLen
    gather dims meanSilEmb embIn predsIn (pickedFrame topk nTotal nFrames) spkcacheLen

/-- `compress_speaker_cache`. -/
def compressSpeakerCache (cache : SpeakerCache K) (embIn predsIn : List K) (nFrames : ℕ) :
    Except Fault (SpeakerCache K) :=
  let spkcacheLen := cfg.spkcacheLen.toNat
  -- `assign` with a negative count
  if cfg.spkcacheLen < 0 then .error .uncaught
  else if nFrames = 0 ∨ dims.numSpks = 0 ∨ spkcacheLen = 0 then
    .ok { cache with
      spkcache := List.replicate (spkcacheLen * dims.d) 0
      spkcachePreds := List.replicate (spkcacheLen * dims.numSpks) 0
      nRows := spkcacheLen
      spkcachePredsValid := true }
  else if spkcacheLen / dims.numSpks ≤ cfg.spkcacheSilFramesPerSpk then do
    let rows ← silenceOnly dims cache.meanSilEmb spkcacheLen
    .ok { cache with
      spkcache := rows.1
      spkcachePreds := rows.2
      nRows := spkcacheLen
      spkcachePredsValid := true }
  else do
    let mean := if cache.meanSilEmb.length ≠ dims.d then List.replicate dims.d 0
      else cache.meanSilEmb
    let rows ← gatherTopk O N dims cfg mean embIn predsIn nFrames spkcacheLen
    .ok { cache with
      spkcache := rows.1
      spkcachePreds := rows.2
      nRows := spkcacheLen
      spkcachePredsValid := true
      meanSilEmb := mean }

/-! ### The update -/

/-- The model's new predictions for the FIFO. -/
def refreshFifoPreds (predsFull : List K) (prevSpkcacheLen prevFifoLen : ℕ) :
    Except Fault (List K) :=
  if 0 < prevFifoLen then
    Rows.copy .outOfBounds (List.replicate (prevFifoLen * dims.numSpks) 0) (0 * dims.numSpks)
      predsFull (prevSpkcacheLen * dims.numSpks) (prevFifoLen * dims.numSpks)
  else .ok []

/-- The predictions of the FIFO are refreshed, and the chunk is appended. -/
def appendChunk (cache : SpeakerCache K) (committedChunk : List K) (chunkCommitted : ℕ)
    (predsFull : List K) (prevSpkcacheLen prevFifoLen lc : ℕ) : Except Fault (SpeakerCache K) := do
  let chunkOff := prevSpkcacheLen + prevFifoLen
  let newFifo := cache.nFifo + chunkCommitted
  let fifoPreds ← refreshFifoPreds dims predsFull prevSpkcacheLen prevFifoLen
  let fifo ← Rows.copy .outOfBounds (Rows.resize cache.fifo (newFifo * dims.d) 0)
    (cache.nFifo * dims.d) committedChunk (0 * dims.d) (chunkCommitted * dims.d)
  let fifoPreds ← Rows.copy .outOfBounds (Rows.resize fifoPreds (newFifo * dims.numSpks) 0)
    (cache.nFifo * dims.numSpks) predsFull ((chunkOff + lc) * dims.numSpks)
    (chunkCommitted * dims.numSpks)
  .ok { cache with fifo := fifo, fifoPreds := fifoPreds, nFifo := newFifo }

/-- `pop_out`. -/
def popOut (nFifo chunkCommitted prevFifoLen : ℕ) : ℕ :=
  let pop := max cfg.spkcacheUpdatePeriod ((chunkCommitted : ℤ) - cfg.fifoLen + prevFifoLen)
  let pop := min pop nFifo
  (if pop < 1 then 1 else pop).toNat

/-- Predictions for the rows of the cache, at the first overflow. -/
def seedSpkcachePreds (predsFull : List K) (nRows newSpkcache : ℕ) : Except Fault (List K) :=
  if 0 < nRows then
    Rows.copy .outOfBounds (List.replicate (newSpkcache * dims.numSpks) 0) (0 * dims.numSpks)
      predsFull (0 * dims.numSpks) (nRows * dims.numSpks)
  else .ok (List.replicate (newSpkcache * dims.numSpks) 0)

/-- The predictions of the cache with those of the popped frames. They are kept from the first
overflow on. -/
def pushPreds (cache : SpeakerCache K) (pop : ℕ) (predsFull : List K) : Except Fault (List K) :=
  let newSpkcache := cache.nRows + pop
  if cache.spkcachePredsValid then
    Rows.copy .outOfBounds (Rows.resize cache.spkcachePreds (newSpkcache * dims.numSpks) 0)
      (cache.nRows * dims.numSpks) cache.fifoPreds (0 * dims.numSpks) (pop * dims.numSpks)
  else if cfg.spkcacheLen < newSpkcache then do
    let seeded ← seedSpkcachePreds dims predsFull cache.nRows newSpkcache
    Rows.copy .outOfBounds seeded (cache.nRows * dims.numSpks) cache.fifoPreds (0 * dims.numSpks)
      (pop * dims.numSpks)
  else .ok cache.spkcachePreds

/-- The popped frames are appended to the cache. -/
def pushPopped (cache : SpeakerCache K) (pop : ℕ) (predsFull : List K) :
    Except Fault (SpeakerCache K) := do
  let newSpkcache := cache.nRows + pop
  let spkcache ← Rows.copy .outOfBounds (Rows.resize cache.spkcache (newSpkcache * dims.d) 0)
    (cache.nRows * dims.d) cache.fifo (0 * dims.d) (pop * dims.d)
  let spkcachePreds ← pushPreds dims cfg cache pop predsFull
  .ok { cache with spkcache := spkcache, spkcachePreds := spkcachePreds, nRows := newSpkcache }

/-- The rows behind the popped ones are moved to the front. -/
def moveToFront (w : ℕ) (flat : List K) (pop remaining : ℕ) : Except Fault (List K) :=
  if 0 < remaining then Rows.copy .outOfBounds flat (0 * w) flat (pop * w) (remaining * w)
  else .ok flat

/-- The popped frames are dropped from the FIFO. -/
def dropPopped (cache : SpeakerCache K) (pop : ℕ) : Except Fault (SpeakerCache K) := do
  let remaining := cache.nFifo - pop
  let fifo ← moveToFront dims.d cache.fifo pop remaining
  let fifoPreds ← moveToFront dims.numSpks cache.fifoPreds pop remaining
  .ok { cache with
    fifo := Rows.resize fifo (remaining * dims.d) 0
    fifoPreds := Rows.resize fifoPreds (remaining * dims.numSpks) 0
    nFifo := remaining }

/-- A cache that is too long is compressed. -/
def compressOnOverflow (cache : SpeakerCache K) : Except Fault (SpeakerCache K) :=
  if cfg.spkcacheLen < cache.nRows then
    compressSpeakerCache O N dims cfg
      { cache with spkcache := [], spkcachePreds := [], nRows := 0 }
      cache.spkcache cache.spkcachePreds cache.nRows
  else .ok cache

/-- `streaming_update`. -/
def streamingUpdate (cache : SpeakerCache K) (committedChunk : List K) (chunkCommitted : ℕ)
    (predsFull : List K) (prevSpkcacheLen prevFifoLen lc : ℕ) : Except Fault (SpeakerCache K) := do
  let cache ← appendChunk dims cache committedChunk chunkCommitted predsFull prevSpkcacheLen
    prevFifoLen lc
  if cfg.fifoLen < cache.nFifo then do
    let pop := popOut cfg cache.nFifo chunkCommitted prevFifoLen
    let cache ← updateSilenceProfile O dims cfg cache cache.fifo cache.fifoPreds pop
    let cache ← pushPopped dims cfg cache pop predsFull
    let cache ← dropPopped dims cache pop
    compressOnOverflow O N dims cfg cache
  else .ok cache

/-! ### The calls -/

/-- The rows of a chunk, in an array. -/
def AoscChunk.pre (c : AoscChunk K) : List K := (List.range (c.tChunkPre * dims.d)).map c.embs

/-- What the model gets: the rows of the cache, of the FIFO and of the chunk. -/
def catPre (cache : SpeakerCache K) (c : AoscChunk K) : List K :=
  cache.spkcache ++ cache.fifo ++ c.pre dims

/-- `speaker_probs` of all these rows. -/
def predsFull (cache : SpeakerCache K) (c : AoscChunk K) : List K :=
  (List.range ((cache.nRows + cache.nFifo + c.tChunkPre) * dims.numSpks)).map
    (c.predict (catPre dims cache c))

/-- `sortformer_aosc_step`, as far as it changes the cache. -/
def aoscStep (cache : SpeakerCache K) (c : AoscChunk K) : Except Fault (SpeakerCache K) :=
  streamingUpdate O N dims cfg cache ((c.pre dims).drop (c.lc * dims.d)) c.chunkLenEff
    (predsFull dims cache c) cache.nRows cache.nFifo c.lc

/-- A call that was made: the cache before it, and the chunk. -/
structure AoscCall (K : Type*) where
  before : SpeakerCache K
  chunk : AoscChunk K

/-- A call after others. -/
def aoscNext (s : SpeakerCache K × List (AoscCall K)) (c : AoscChunk K) :
    Except Fault (SpeakerCache K × List (AoscCall K)) := do
  let cache ← aoscStep O N dims cfg s.1 c
  .ok (cache, s.2 ++ [⟨s.1, c⟩])

/-- The cache after the calls for some chunks, and the calls. -/
def aoscRun (chunks : List (AoscChunk K)) : Except Fault (SpeakerCache K × List (AoscCall K)) :=
  chunks.foldlM (aoscNext O N dims cfg) (.reset dims, [])

end Cache

end Parakeet

end WhisperCpp
