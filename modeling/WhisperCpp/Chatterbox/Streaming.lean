import WhisperCpp.Chatterbox.S3gen
import WhisperCpp.Fault
import WhisperCpp.Library.Stretches
import Mathlib.Algebra.Order.Floor.Div
import Mathlib.Data.List.Range
import Mathlib.Tactic.Ring

/-!
# Streaming synthesis

`synthesize_streaming` synthesizes longer and longer prefixes of the tokens and takes from each the
frames that it has not emitted. A chunk that is not the last loses six frames; nothing sees to it
that it has more.

## Main definitions

* `EngineOpts` — the options that the two ways of synthesis read
* `boundaries` — where the chunks end
* `S3gen.synthesizeStreaming`, `S3gen.synthesizeBatch` — the two ways
* `S3gen.Streams` — the chunks tile what a batch gives
* `S3gen.ChunksFit` — every chunk has another frame

## Main results

* `boundaries_spec` — the boundaries increase from 0 to the number of tokens
* `streams_iff` — streaming works as intended exactly if the chunks fit
-/

namespace WhisperCpp

namespace Chatterbox

/-- The options of the engine. -/
structure EngineOpts (C : Type*) where
  common : C
  cfmSteps : ℤ
  streamCfmSteps : ℤ
  streamChunkTokens : ℤ
  streamFirstChunkTokens : ℤ
  /-- `reference_audio` or `voice_dir` is not empty. -/
  hasVoiceOverride : Bool

/-! ### Boundaries -/

/-- The loop over `cursor`, with a bound on its steps. A sum that does not fit an `int` has wrapped,
and the prefix that ends there is outside the tokens. -/
def cuts (chunkN totalN : ℕ) : ℕ → ℕ → Except Fault (List ℕ)
  | 0, _ => .error .outOfFuel
  | fuel + 1, cursor =>
    if cursor < totalN then
      if 2 ^ 31 ≤ cursor + chunkN then .error .outOfBounds
      else do
        let rest ← cuts chunkN totalN fuel (min (cursor + chunkN) totalN)
        return min (cursor + chunkN) totalN :: rest
    else .ok []

/-- A tiny last chunk joins the one before. -/
def mergeTail (chunkN : ℕ) (bounds : List ℕ) : List ℕ :=
  if 3 ≤ bounds.length ∧
      bounds.getD (bounds.length - 1) 0 - bounds.getD (bounds.length - 2) 0 < max 6 (chunkN / 3) then
    bounds.eraseIdx (bounds.length - 2)
  else bounds

/-- `boundaries`. -/
def boundaries (firstChunkN chunkN totalN : ℕ) : Except Fault (List ℕ) := do
  let cursor := min firstChunkN totalN
  let rest ← cuts chunkN totalN (totalN + 1) cursor
  return mergeTail chunkN (0 :: cursor :: rest)

/-- The chunks before the last. -/
def innerChunks (firstChunkN chunkN totalN : ℕ) : ℕ :=
  let n := (totalN - firstChunkN) ⌈/⌉ chunkN
  if 0 < n ∧ totalN - (firstChunkN + (n - 1) * chunkN) < max 6 (chunkN / 3) then n - 1 else n

section Cuts

variable {firstChunkN chunkN totalN cursor fuel : ℕ}

theorem lt_ceilDiv_iff (hchunk : 0 < chunkN) {m j : ℕ} : j < m ⌈/⌉ chunkN ↔ chunkN * j < m := by
  rw [← not_le, ← not_le, ceilDiv_le_iff_le_mul hchunk]

/-- The number of cuts after the next one. -/
theorem ceilDiv_next (hchunk : 0 < chunkN) (hcursor : cursor < totalN) :
    (totalN - cursor) ⌈/⌉ chunkN =
      (totalN - min (cursor + chunkN) totalN) ⌈/⌉ chunkN + 1 := by
  rw [Nat.ceilDiv_eq_add_pred_div, Nat.ceilDiv_eq_add_pred_div, ← Nat.add_div_right _ hchunk]
  rcases Nat.lt_or_ge totalN (cursor + chunkN) with hlast | hnext
  · rw [Nat.min_eq_right hlast.le, Nat.sub_self,
      Nat.div_eq_of_lt_le (k := 1) (by omega) (by omega),
      Nat.div_eq_of_lt_le (k := 1) (by omega) (by omega)]
  · rw [Nat.min_eq_left hnext]
    congr 1
    omega

/-- Evenly spaced cuts, and the end. -/
def evenCuts (chunkN totalN cursor : ℕ) : List ℕ :=
  ((List.range ((totalN - cursor) ⌈/⌉ chunkN)).map fun j => cursor + j * chunkN) ++ [totalN]

theorem evenCuts_of_le (hcursor : totalN ≤ cursor) :
    evenCuts chunkN totalN cursor = [totalN] := by
  rw [evenCuts, Nat.sub_eq_zero_of_le hcursor, zero_ceilDiv]
  rfl

theorem evenCuts_of_lt (hchunk : 0 < chunkN) (hcursor : cursor < totalN) :
    evenCuts chunkN totalN cursor =
      cursor :: evenCuts chunkN totalN (min (cursor + chunkN) totalN) := by
  rw [evenCuts, evenCuts, ceilDiv_next hchunk hcursor, List.range_succ_eq_map, List.map_cons,
    List.map_map, List.cons_append, Nat.zero_mul, Nat.add_zero]
  congr 2
  refine List.map_congr_left fun j hj => ?_
  have hlt := (lt_ceilDiv_iff hchunk).mp (List.mem_range.mp hj)
  have hmin : min (cursor + chunkN) totalN = cursor + chunkN := by omega
  rw [hmin, Function.comp_apply, Nat.succ_mul]
  omega

/-- A sum of the loop over `cursor` does not fit an `int`. -/
def CutsOverflow (chunkN totalN cursor : ℕ) : Prop :=
  cursor < totalN ∧ 2 ^ 31 ≤ cursor + (totalN - cursor) ⌈/⌉ chunkN * chunkN

theorem cutsOverflow_iff (hchunk : 0 < chunkN) (hcursor : cursor < totalN) :
    CutsOverflow chunkN totalN cursor ↔
      2 ^ 31 ≤ cursor + chunkN ∨ CutsOverflow chunkN totalN (min (cursor + chunkN) totalN) := by
  rw [CutsOverflow, CutsOverflow, ceilDiv_next hchunk hcursor, Nat.succ_mul]
  rcases Nat.lt_or_ge (cursor + chunkN) totalN with hnext | hlast
  · rw [Nat.min_eq_left hnext.le]
    omega
  · rw [Nat.min_eq_right hlast, Nat.sub_self, zero_ceilDiv]
    omega

instance : Decidable (CutsOverflow chunkN totalN cursor) :=
  inferInstanceAs (Decidable (cursor < totalN ∧ _))

/-- The cuts are evenly spaced, up to the last. -/
theorem cuts_eq (hchunk : 0 < chunkN) (hcursor : cursor ≤ totalN) (hfuel : totalN - cursor < fuel) :
    cuts chunkN totalN fuel cursor =
      if CutsOverflow chunkN totalN cursor then .error .outOfBounds
      else .ok (evenCuts chunkN totalN cursor).tail := by
  induction fuel generalizing cursor with
  | zero => omega
  | succ fuel ih =>
    rw [cuts]
    rcases Nat.eq_or_lt_of_le hcursor with rfl | hlt
    · rw [if_neg (Nat.lt_irrefl _), if_neg fun h => Nat.lt_irrefl _ h.1, evenCuts_of_le le_rfl]
      rfl
    rw [if_pos hlt, ih (Nat.min_le_right _ _) (by omega), evenCuts_of_lt hchunk hlt,
      List.tail_cons]
    by_cases hsum : 2 ^ 31 ≤ cursor + chunkN
    · rw [if_pos hsum, if_pos ((cutsOverflow_iff hchunk hlt).mpr (.inl hsum))]
    rw [if_neg hsum]
    by_cases hnext : CutsOverflow chunkN totalN (min (cursor + chunkN) totalN)
    · rw [if_pos hnext, if_pos ((cutsOverflow_iff hchunk hlt).mpr (.inr hnext))]
      rfl
    · have hover : ¬CutsOverflow chunkN totalN cursor := fun h =>
        ((cutsOverflow_iff hchunk hlt).mp h).elim hsum hnext
      rw [if_neg hnext, if_neg hover]
      have htail : min (cursor + chunkN) totalN ::
          (evenCuts chunkN totalN (min (cursor + chunkN) totalN)).tail =
            evenCuts chunkN totalN (min (cursor + chunkN) totalN) := by
        rcases Nat.lt_or_ge (min (cursor + chunkN) totalN) totalN with hmore | hend
        · rw [evenCuts_of_lt hchunk hmore, List.tail_cons]
        · rw [evenCuts_of_le hend, List.tail_cons]
          congr 1
          omega
      exact congrArg Except.ok htail

/-- The merge takes the last cut before the end. -/
theorem mergeTail_evenCuts (firstChunkN chunkN totalN : ℕ) :
    mergeTail chunkN (0 :: evenCuts chunkN totalN firstChunkN) =
      0 :: (((List.range (innerChunks firstChunkN chunkN totalN)).map
        fun j => firstChunkN + j * chunkN) ++ [totalN]) := by
  rw [evenCuts, mergeTail, innerChunks]
  cases hn : (totalN - firstChunkN) ⌈/⌉ chunkN with
  | zero => rfl
  | succ n =>
    -- The last two boundaries, after the others.
    have hsplit : 0 :: (((List.range (n + 1)).map fun j => firstChunkN + j * chunkN) ++ [totalN]) =
        (0 :: (List.range n).map fun j => firstChunkN + j * chunkN) ++
          [firstChunkN + n * chunkN, totalN] := by
      rw [List.range_succ, List.map_append, List.append_assoc, List.cons_append]
      rfl
    have hlen : (0 :: (List.range n).map fun j => firstChunkN + j * chunkN).length = n + 1 := by
      rw [List.length_cons, List.length_map, List.length_range]
    rw [hsplit, List.length_append, hlen, List.getD_eq_getElem?_getD, List.getD_eq_getElem?_getD,
      List.getElem?_append_right (by simp [hlen]), List.getElem?_append_right (by simp [hlen]),
      hlen, List.eraseIdx_append_of_length_le (by simp [hlen]), hlen]
    simp only [List.length_cons, List.length_nil, Nat.add_sub_cancel, show n + 1 + 2 = n + 3 from rfl,
      show n + 3 - 1 - (n + 1) = 1 by omega, show n + 3 - 2 - (n + 1) = 0 by omega,
      List.getElem?_cons_succ, List.getElem?_cons_zero, Option.getD_some, List.eraseIdx_cons_zero,
      show 3 ≤ n + (0 + 1 + 1 + 1) by omega, true_and, Nat.succ_pos, Nat.zero_add]
    split_ifs
    · rfl
    · exact hsplit.symm

/-- The boundaries, in closed form. -/
theorem boundaries_eq (hchunk : 0 < chunkN) :
    boundaries firstChunkN chunkN totalN =
      if CutsOverflow chunkN totalN firstChunkN then .error .outOfBounds
      else .ok (0 :: (((List.range (innerChunks firstChunkN chunkN totalN)).map
        fun j => firstChunkN + j * chunkN) ++ [totalN])) := by
  rw [boundaries, cuts_eq hchunk (Nat.min_le_right _ _) (by omega)]
  rcases Nat.lt_or_ge firstChunkN totalN with hlt | hge
  · rw [Nat.min_eq_left hlt.le]
    split_ifs with hover
    · rfl
    · rw [← mergeTail_evenCuts, evenCuts_of_lt hchunk hlt]
      rfl
  · rw [Nat.min_eq_right hge, if_neg fun h => Nat.lt_irrefl _ h.1,
      if_neg fun h => Nat.lt_irrefl _ (h.1.trans_le hge), ← mergeTail_evenCuts,
      evenCuts_of_le le_rfl, evenCuts_of_le hge]
    rfl

end Cuts

namespace EngineOpts

variable {C : Type*} (o : EngineOpts C)

/-- `chunk_n`. -/
def chunkN : ℕ := o.streamChunkTokens.toNat

/-- `first_chunk_n`. -/
def firstChunkN : ℕ :=
  if 0 < o.streamFirstChunkTokens then o.streamFirstChunkTokens.toNat else o.chunkN

end EngineOpts

/-- A chain through points given by an index. -/
theorem isChain_cons_map_range_concat_iff {α : Type*} (r : α → α → Prop) (f : ℕ → α) (a b : α)
    (k : ℕ) : (a :: ((List.range k).map f ++ [b])).IsChain r ↔
      (k = 0 → r a b) ∧ (0 < k → r a (f 0) ∧ r (f (k - 1)) b) ∧
        ∀ j, j + 1 < k → r (f j) (f (j + 1)) := by
  cases k with
  | zero => simp
  | succ k =>
    have hinner : (a :: (List.range (k + 1)).map f).IsChain r ↔
        r a (f 0) ∧ ∀ j, j < k → r (f j) (f (j + 1)) := by
      rw [List.range_succ_eq_map, List.map_cons, List.isChain_cons_cons, ← List.map_cons,
        ← List.range_succ_eq_map, List.isChain_map, List.isChain_range_succ]
    rw [List.range_succ, List.map_append, List.append_assoc, List.map_singleton,
      List.singleton_append, List.isChain_cons_append_cons_cons, ← List.map_singleton (f := f),
      ← List.map_append, ← List.range_succ, hinner]
    simp only [List.isChain_singleton, and_true, Nat.succ_pos, Nat.add_sub_cancel, true_imp_iff,
      Nat.succ_ne_zero, false_imp_iff, true_and, Nat.add_lt_add_iff_right]
    tauto

/-! ### The two ways -/

/-- A chunk with whether it was finalized. -/
structure StreamChunk (K : Type*) extends S3genChunk K where
  finalize : Bool

namespace S3gen

variable {C Mel K : Type*} [Zero K] [Mul K] (P : S3gen C Mel K)

/-- `seg_toks`. -/
def segToks (tokens : List ℤ) : List ℤ := tokens ++ List.replicate lookahead silenceToken

/-- The options of a chunk. -/
def chunkOpts (o : EngineOpts C) (first isLast : Bool) (cacheSource : List K) (emitted : ℕ) :
    S3genOpts C K where
  common := o.common
  cfmSteps := o.streamCfmSteps
  finalize := isLast
  appendLookaheadSilence := false
  skipMelFrames := emitted
  applyTrimFade := first
  hiftCacheSource := cacheSource
  sourceTailOut := true
  sourceTailSamples := 480

/-- The loop over the chunks, from a state with `hift_cache_source` and `prev_mels_emitted`. -/
def streamChunks (o : EngineOpts C) (seg : List ℤ) :
    Bool → List K → ℕ → List ℕ → Except ℤ (List (StreamChunk K))
  | _, _, _, [] => .ok []
  | first, cacheSource, emitted, stop :: stops => do
    let isLast := stop == seg.length
    let c ← P.synthesize (seg.take stop) (chunkOpts o first isLast cacheSource emitted)
    let rest ← streamChunks o seg false c.sourceTail (emitted + c.pcm.length / 480) stops
    return ⟨c, isLast⟩ :: rest

/-- `synthesize_streaming`, the chunks. -/
def synthesizeStreaming (o : EngineOpts C) (tokens : List ℤ) :
    Except Fault (Except ℤ (List (StreamChunk K))) :=
  match boundaries o.firstChunkN o.chunkN (segToks tokens).length with
  | .error e => .error e
  | .ok bounds => .ok (P.streamChunks o (segToks tokens) true [] 0 bounds.tail)

/-- The options of a batch. -/
def batchOpts (o : EngineOpts C) : S3genOpts C K where
  common := o.common
  cfmSteps := o.cfmSteps
  applyTrimFade := o.hasVoiceOverride

/-- `synthesize_batch`. -/
def synthesizeBatch (o : EngineOpts C) (tokens : List ℤ) : Except ℤ (S3genChunk K) :=
  P.synthesize tokens (batchOpts o)

/-! ### One chunk -/

section Chunk

/-- The frames up to the end of a prefix that a chunk can give. -/
def avail (common : C) (seg : List ℤ) (stop : ℕ) : ℤ :=
  2 * (P.nPrompt common + (seg.take stop).countP inVocab) - P.melLen1 common -
    if stop = seg.length then 0 else 6

variable {P} {o : EngineOpts C} {seg : List ℤ} {first : Bool} {cache : List K} {emitted stop : ℕ}

omit [Zero K] [Mul K] in
theorem encoderFrames_sub_leftOut (P : S3gen C Mel K) (o : EngineOpts C) (seg : List ℤ)
    (stop : ℕ) (first : Bool) (cache : List K) (emitted : ℕ) :
    (P.encoderFrames (seg.take stop) (chunkOpts o first (stop == seg.length) cache emitted) : ℤ) -
      P.leftOut (chunkOpts o first (stop == seg.length) cache emitted) =
        P.avail o.common seg stop - emitted := by
  rw [encoderFrames, leftOut, avail, chunkOpts, padded, List.countP_eq_length_filter]
  simp only [Bool.false_eq_true, if_false, List.append_nil, Int.toNat_natCast, beq_iff_eq]
  split_ifs <;> push_cast [lookahead] <;> ring

/-- What a chunk gives. -/
theorem synthesize_chunk_spec {c : S3genChunk K}
    (h : P.synthesize (seg.take stop) (chunkOpts o first (stop == seg.length) cache emitted) =
      .ok c) :
    c.melOff = emitted ∧ (emitted + c.tMel : ℤ) = P.avail o.common seg stop ∧
      c.pcm.length = c.tMel * upsample := by
  obtain ⟨hoff, hframes, hpcm⟩ := synthesize_spec h
  have hsub := encoderFrames_sub_leftOut P o seg stop first cache emitted
  refine ⟨hoff, ?_, hpcm⟩
  omega

/-- When a chunk gives a frame. -/
theorem synthesize_chunk_iff (hseg : seg ≠ []) (hstop : 0 < stop) (first : Bool)
    (cache : List K) :
    (∃ c, P.synthesize (seg.take stop) (chunkOpts o first (stop == seg.length) cache emitted) =
        .ok c ∧ 0 < c.tMel) ↔ (emitted : ℤ) < P.avail o.common seg stop := by
  constructor
  · rintro ⟨c, hc, hpos⟩
    obtain ⟨-, hframes, -⟩ := synthesize_chunk_spec hc
    omega
  · intro hlt
    have hsub := encoderFrames_sub_leftOut P o seg stop first cache emitted
    have htake : seg.take stop ≠ [] := by
      rw [Ne, List.take_eq_nil_iff]
      exact not_or.mpr ⟨hstop.ne', hseg⟩
    exact synthesize_of_lt htake (by omega)

end Chunk

/-! ### All chunks -/

section Chunks

variable {P} {o : EngineOpts C} {seg : List ℤ} {first : Bool} {cache : List K} {emitted : ℕ}
  {stops : List ℕ} {cs : List (StreamChunk K)}

theorem streamChunks_cons_iff {stop : ℕ} :
    P.streamChunks o seg first cache emitted (stop :: stops) = .ok cs ↔
      ∃ c rest, P.synthesize (seg.take stop)
          (chunkOpts o first (stop == seg.length) cache emitted) = .ok c ∧
        P.streamChunks o seg false c.sourceTail (emitted + c.tMel) stops = .ok rest ∧
        cs = ⟨c, stop == seg.length⟩ :: rest := by
  rw [streamChunks]
  cases hc : P.synthesize (seg.take stop)
      (chunkOpts o first (stop == seg.length) cache emitted) with
  | error e => exact ⟨nofun, fun ⟨c, rest, hok, _⟩ => nomatch hok⟩
  | ok c =>
    obtain ⟨-, -, hpcm⟩ := synthesize_chunk_spec hc
    have hemitted : emitted + c.pcm.length / 480 = emitted + c.tMel := by
      rw [hpcm, upsample, Nat.mul_div_cancel _ (by norm_num)]
    dsimp only [bind, Except.bind]
    rw [hemitted]
    cases hrest : P.streamChunks o seg false c.sourceTail (emitted + c.tMel) stops with
    | error e =>
      refine ⟨nofun, ?_⟩
      rintro ⟨c', rest, hc', hok, -⟩
      cases hc'
      exact nomatch hrest.symm.trans hok
    | ok rest =>
      constructor
      · rintro ⟨⟩
        exact ⟨c, rest, rfl, hrest, rfl⟩
      · rintro ⟨c', rest', hc', hok, rfl⟩
        cases hc'
        cases hrest.symm.trans hok
        rfl

/-- Every chunk has a frame if the frames that the prefixes give increase. -/
theorem streamChunks_iff (hseg : seg ≠ []) (hstops : ∀ stop ∈ stops, 0 < stop) :
    (∃ cs, P.streamChunks o seg first cache emitted stops = .ok cs ∧ ∀ c ∈ cs, 0 < c.tMel) ↔
      ((emitted : ℤ) :: stops.map (P.avail o.common seg)).IsChain (· < ·) := by
  induction stops generalizing first cache emitted with
  | nil => exact ⟨fun _ => .singleton _, fun _ => ⟨[], rfl, nofun⟩⟩
  | cons stop stops ih =>
    have hstop := hstops stop (List.mem_cons_self ..)
    have htail : ∀ stop ∈ stops, 0 < stop := fun x hx => hstops x (List.mem_cons_of_mem _ hx)
    rw [List.map_cons, List.isChain_cons_cons]
    constructor
    · rintro ⟨cs, hcs, hpos⟩
      obtain ⟨c, rest, hc, hrest, rfl⟩ := streamChunks_cons_iff.mp hcs
      obtain ⟨hc0, hrest0⟩ := List.forall_mem_cons.mp hpos
      obtain ⟨-, hframes, -⟩ := synthesize_chunk_spec hc
      refine ⟨(synthesize_chunk_iff hseg hstop first cache).mp ⟨c, hc, hc0⟩, ?_⟩
      rw [← hframes]
      exact_mod_cast (ih htail).mp ⟨rest, hrest, hrest0⟩
    · rintro ⟨hlt, hchain⟩
      obtain ⟨c, hc, hc0⟩ := (synthesize_chunk_iff hseg hstop first cache).mpr hlt
      obtain ⟨-, hframes, -⟩ := synthesize_chunk_spec hc
      rw [← hframes] at hchain
      have hok : ∃ rest, P.streamChunks o seg false c.sourceTail (emitted + c.tMel) stops =
          .ok rest ∧ ∀ c ∈ rest, 0 < c.tMel := (ih htail).mpr (by exact_mod_cast hchain)
      obtain ⟨rest, hrest, hrest0⟩ := hok
      exact ⟨_, streamChunks_cons_iff.mpr ⟨c, rest, hc, hrest, rfl⟩,
        List.forall_mem_cons.mpr ⟨hc0, hrest0⟩⟩

/-- What the chunks give. -/
theorem streamChunks_spec (h : P.streamChunks o seg first cache emitted stops = .ok cs) :
    cs.map (·.finalize) = stops.map (· == seg.length) ∧
      Stretch.Tiles emitted ((stops.map (P.avail o.common seg)).getLastD emitted)
        (cs.map fun c => ⟨c.melOff, c.melOff + c.tMel⟩) ∧
      (emitted * upsample + (cs.map (·.pcm.length)).sum : ℤ) =
        (stops.map (P.avail o.common seg)).getLastD emitted * upsample := by
  induction stops generalizing first cache emitted cs with
  | nil =>
    cases h
    exact ⟨rfl, rfl, by simp⟩
  | cons stop stops ih =>
    obtain ⟨c, rest, hc, hrest, rfl⟩ := streamChunks_cons_iff.mp h
    obtain ⟨hoff, hframes, hpcm⟩ := synthesize_chunk_spec hc
    obtain ⟨hfin, htiles, hsum⟩ := ih hrest
    rw [List.map_cons, List.map_cons, List.map_cons, List.map_cons, List.map_cons,
      List.getLastD_cons, ← hframes, List.sum_cons]
    push_cast at htiles hsum
    refine ⟨by rw [hfin], ⟨by rw [hoff], by simp, ?_⟩, ?_⟩
    · rw [hoff]
      exact htiles
    · rw [← hsum, hpcm]
      push_cast
      ring

end Chunks

/-! ### The utterance -/

/-- Streaming works as intended, with these chunks, where the batch gives `c`. -/
structure StreamedAs (o : EngineOpts C) (tokens : List ℤ) (bounds : List ℕ)
    (cs : List (StreamChunk K)) (c : S3genChunk K) : Prop where
  boundaries : boundaries o.firstChunkN o.chunkN (segToks tokens).length = .ok bounds
  head : bounds.head? = some 0
  last : bounds.getLast? = some (segToks tokens).length
  increasing : bounds.Pairwise (· < ·)
  streaming : P.synthesizeStreaming o tokens = .ok (.ok cs)
  length : cs.length + 1 = bounds.length
  finalize : cs.map (·.finalize) = List.replicate (cs.length - 1) false ++ [true]
  frame : ∀ c ∈ cs, 0 < c.tMel
  batch : P.synthesizeBatch o tokens = .ok c
  tiles : Stretch.Tiles 0 c.tMel (cs.map fun c => ⟨c.melOff, c.melOff + c.tMel⟩)
  samples : (cs.map (·.pcm.length)).sum = c.pcm.length

/-- Streaming works as intended. -/
def Streams (o : EngineOpts C) (tokens : List ℤ) : Prop :=
  ∃ bounds cs c, P.StreamedAs o tokens bounds cs c

/-- The number of chunks before the last of an utterance. -/
def inner (o : EngineOpts C) (tokens : List ℤ) : ℕ :=
  innerChunks o.firstChunkN o.chunkN (tokens.length + lookahead)

/-- Every chunk has another frame. -/
structure ChunksFit (o : EngineOpts C) (tokens : List ℤ) : Prop where
  ne_nil : tokens ≠ []
  noOverflow : ¬CutsOverflow o.chunkN (tokens.length + lookahead) o.firstChunkN
  /-- A chunk that is all has more than the prompt. -/
  one : inner o tokens = 0 →
    P.melLen1 o.common < 2 * (P.nPrompt o.common + tokens.countP inVocab + lookahead)
  /-- A first chunk before others has more than the prompt and the lookahead. -/
  first : 0 < inner o tokens → P.melLen1 o.common + 2 * lookahead <
    2 * (P.nPrompt o.common + ((segToks tokens).take o.firstChunkN).countP inVocab)
  /-- A chunk in between has a token that the filter keeps. -/
  between : ∀ j, j + 1 < inner o tokens →
    ∃ t ∈ ((segToks tokens).drop (o.firstChunkN + j * o.chunkN)).take o.chunkN, inVocab t

section Utterance

variable {P} {o : EngineOpts C} {tokens : List ℤ}

/-- Where the chunks of an utterance end. -/
def stops (o : EngineOpts C) (tokens : List ℤ) : List ℕ :=
  ((List.range (inner o tokens)).map fun j => o.firstChunkN + j * o.chunkN) ++
    [(segToks tokens).length]

theorem length_segToks (tokens : List ℤ) : (segToks tokens).length = tokens.length + lookahead := by
  rw [segToks, List.length_append, List.length_replicate]

theorem boundaries_segToks (hchunk : 0 < o.streamChunkTokens) :
    boundaries o.firstChunkN o.chunkN (segToks tokens).length =
      if CutsOverflow o.chunkN (tokens.length + lookahead) o.firstChunkN then .error .outOfBounds
      else .ok (0 :: stops o tokens) := by
  rw [boundaries_eq (by rw [EngineOpts.chunkN]; omega), stops, inner, length_segToks]

/-- The chunks before the last end before the end. -/
theorem cut_lt_of_lt_inner (hchunk : 0 < o.streamChunkTokens) {j : ℕ} (hj : j < inner o tokens) :
    o.firstChunkN + j * o.chunkN < (segToks tokens).length := by
  have hle : inner o tokens ≤ (tokens.length + lookahead - o.firstChunkN) ⌈/⌉ o.chunkN := by
    rw [inner, innerChunks]
    split_ifs <;> omega
  have hlt := (lt_ceilDiv_iff (by rw [EngineOpts.chunkN]; omega)).mp (hj.trans_le hle)
  rw [length_segToks, Nat.mul_comm j]
  omega

theorem firstChunkN_pos (hchunk : 0 < o.streamChunkTokens) : 0 < o.firstChunkN := by
  rw [EngineOpts.firstChunkN, EngineOpts.chunkN]
  split_ifs <;> omega

theorem stops_pos (hchunk : 0 < o.streamChunkTokens) : ∀ stop ∈ stops o tokens, 0 < stop := by
  intro stop hstop
  rcases List.mem_append.mp hstop with hcut | hlast
  · obtain ⟨j, -, rfl⟩ := List.mem_map.mp hcut
    have := firstChunkN_pos hchunk
    omega
  · rw [List.mem_singleton.mp hlast, length_segToks, lookahead]
    omega

theorem countP_segToks (tokens : List ℤ) :
    (segToks tokens).countP inVocab = tokens.countP inVocab + lookahead := by
  rw [segToks, List.countP_append]
  rfl

omit [Zero K] [Mul K] in
theorem avail_last (P : S3gen C Mel K) (common : C) (tokens : List ℤ) :
    P.avail common (segToks tokens) (segToks tokens).length =
      2 * (P.nPrompt common + (tokens.countP inVocab + lookahead)) - P.melLen1 common := by
  rw [avail, List.take_length, countP_segToks, if_pos rfl]
  push_cast
  ring

omit [Zero K] [Mul K] in
theorem avail_cut (P : S3gen C Mel K) (common : C) {seg : List ℤ} {stop : ℕ}
    (hstop : stop < seg.length) : P.avail common seg stop =
      2 * (P.nPrompt common + (seg.take stop).countP inVocab) - P.melLen1 common - 6 := by
  rw [avail, if_neg hstop.ne]

/-- A prefix has more tokens that the filter keeps exactly if there is one in between. -/
theorem countP_take_lt_iff {seg : List ℤ} {p chunkN : ℕ} :
    (seg.take p).countP inVocab < (seg.take (p + chunkN)).countP inVocab ↔
      ∃ t ∈ (seg.drop p).take chunkN, inVocab t := by
  rw [List.take_add, List.countP_append, Nat.lt_add_right_iff_pos, List.countP_pos_iff]

omit [Zero K] [Mul K] in
/-- The frames increase exactly if the chunks fit. -/
theorem isChain_avail_iff (hchunk : 0 < o.streamChunkTokens) (hne : tokens ≠ [])
    (hover : ¬CutsOverflow o.chunkN (tokens.length + lookahead) o.firstChunkN) :
    (0 :: (stops o tokens).map (P.avail o.common (segToks tokens))).IsChain (· < ·) ↔
      P.ChunksFit o tokens := by
  have hlast := avail_last P o.common tokens
  have hcut : ∀ j, j < inner o tokens → P.avail o.common (segToks tokens)
      (o.firstChunkN + j * o.chunkN) = 2 * (P.nPrompt o.common +
        ((segToks tokens).take (o.firstChunkN + j * o.chunkN)).countP inVocab) -
          P.melLen1 o.common - 6 :=
    fun j hj => avail_cut P o.common (cut_lt_of_lt_inner hchunk hj)
  have hbetween : ∀ j, j + 1 < inner o tokens →
      (P.avail o.common (segToks tokens) (o.firstChunkN + j * o.chunkN) <
          P.avail o.common (segToks tokens) (o.firstChunkN + (j + 1) * o.chunkN) ↔
        ∃ t ∈ ((segToks tokens).drop (o.firstChunkN + j * o.chunkN)).take o.chunkN, inVocab t) := by
    intro j hj
    rw [hcut j (by omega), hcut (j + 1) hj, ← countP_take_lt_iff, Nat.succ_mul, ← Nat.add_assoc]
    omega
  rw [stops, List.map_append, List.map_map, List.map_singleton,
    isChain_cons_map_range_concat_iff]
  constructor
  · rintro ⟨hone, hfirst, hchain⟩
    refine ⟨hne, hover, fun hinner => ?_, fun hinner => ?_, fun j hj =>
      (hbetween j hj).mp (hchain j hj)⟩
    · have := hone hinner
      omega
    · have h0 := (hfirst hinner).1
      rw [Function.comp_apply, hcut 0 hinner, Nat.zero_mul, Nat.add_zero] at h0
      rw [lookahead]
      omega
  · intro h
    refine ⟨fun hinner => ?_, fun hinner => ⟨?_, ?_⟩, fun j hj =>
      (hbetween j hj).mpr (h.between j hj)⟩
    · have := h.one hinner
      omega
    · have h0 := h.first hinner
      rw [lookahead] at h0
      rw [Function.comp_apply, hcut 0 hinner, Nat.zero_mul, Nat.add_zero]
      omega
    · -- The last chunk does not lose the six frames.
      have hle := (List.take_sublist (o.firstChunkN + (inner o tokens - 1) * o.chunkN)
        (segToks tokens)).countP_le (p := inVocab)
      rw [countP_segToks] at hle
      rw [Function.comp_apply, hcut _ (by omega), hlast]
      omega

omit [Zero K] [Mul K] in
theorem encoderFrames_batch (P : S3gen C Mel K) (o : EngineOpts C) (tokens : List ℤ) :
    (P.encoderFrames tokens (batchOpts o) : ℤ) - P.leftOut (batchOpts o) =
      P.avail o.common (segToks tokens) (segToks tokens).length := by
  rw [avail_last, encoderFrames, leftOut, batchOpts, padded, List.countP_eq_length_filter]
  simp only [if_true, List.length_append, List.length_replicate, Int.toNat_zero, Nat.add_zero]
  push_cast
  ring

theorem increasing_stops (hchunk : 0 < o.streamChunkTokens) :
    (0 :: stops o tokens).Pairwise (· < ·) := by
  rw [← List.isChain_iff_pairwise, stops, isChain_cons_map_range_concat_iff]
  have hcut : ∀ j, j < inner o tokens → o.firstChunkN + j * o.chunkN < (segToks tokens).length :=
    fun j => cut_lt_of_lt_inner hchunk
  have hfirst := firstChunkN_pos hchunk
  refine ⟨fun _ => by rw [length_segToks, lookahead]; omega,
    fun hinner => ⟨by omega, hcut _ (by omega)⟩, fun j hj => ?_⟩
  rw [Nat.succ_mul, EngineOpts.chunkN]
  omega

theorem finalize_stops (hchunk : 0 < o.streamChunkTokens) :
    (stops o tokens).map (· == (segToks tokens).length) =
      List.replicate (inner o tokens) false ++ [true] := by
  rw [stops, List.map_append, List.map_map, List.map_singleton, beq_self_eq_true,
    List.append_cancel_right_eq, List.eq_replicate_iff, List.length_map, List.length_range]
  refine ⟨rfl, fun b hb => ?_⟩
  obtain ⟨j, hj, rfl⟩ := List.mem_map.mp hb
  exact beq_eq_false_iff_ne.mpr (cut_lt_of_lt_inner hchunk (List.mem_range.mp hj)).ne

/-- Streaming works as intended exactly if the chunks fit. -/
theorem streams_iff (P : S3gen C Mel K) (o : EngineOpts C) (tokens : List ℤ)
    (hchunk : 0 < o.streamChunkTokens) : P.Streams o tokens ↔ P.ChunksFit o tokens := by
  have hseg : segToks tokens ≠ [] := by
    rw [← List.length_pos_iff, length_segToks, lookahead]
    omega
  constructor
  · rintro ⟨bounds, cs, c, h⟩
    have hne : tokens ≠ [] := by
      rintro rfl
      exact nomatch h.batch
    have hbounds := h.boundaries
    rw [boundaries_segToks hchunk] at hbounds
    split_ifs at hbounds with hover
    have hstream := h.streaming
    rw [synthesizeStreaming, boundaries_segToks hchunk, if_neg hover] at hstream
    rw [← isChain_avail_iff hchunk hne hover]
    exact (streamChunks_iff hseg (stops_pos hchunk)).mp
      ⟨cs, Except.ok.inj hstream, h.frame⟩
  · intro h
    have hbounds : boundaries o.firstChunkN o.chunkN (segToks tokens).length = _ :=
      boundaries_segToks hchunk
    rw [if_neg h.noOverflow] at hbounds
    have hchain := (isChain_avail_iff hchunk h.ne_nil h.noOverflow).mpr h
    have hok : ∃ cs, P.streamChunks o (segToks tokens) true [] 0 (stops o tokens) = .ok cs ∧
        ∀ c ∈ cs, 0 < c.tMel := (streamChunks_iff hseg (stops_pos hchunk)).mpr hchain
    obtain ⟨cs, hcs, hframe⟩ := hok
    obtain ⟨hfin, htiles, hsum⟩ := streamChunks_spec hcs
    rw [finalize_stops hchunk] at hfin
    have hlast : ((stops o tokens).map (P.avail o.common (segToks tokens))).getLastD 0 =
        P.avail o.common (segToks tokens) (segToks tokens).length := by
      rw [stops, List.map_append, List.map_singleton, List.getLastD_concat]
    have hlen : cs.length = inner o tokens + 1 := by
      rw [← List.length_map, hfin, List.length_append, List.length_replicate, List.length_singleton]
    -- The frames of all chunks are the frames of the batch.
    have htotal := encoderFrames_batch P o tokens
    have hpos : 0 < P.avail o.common (segToks tokens) (segToks tokens).length :=
      (List.pairwise_cons.mp (List.isChain_iff_pairwise.mp hchain)).1 _
        (List.mem_map_of_mem (List.mem_append_right _ (List.mem_singleton_self _)))
    obtain ⟨c, hc, -⟩ := synthesize_of_lt (P := P) (o := batchOpts o) h.ne_nil (by omega)
    obtain ⟨-, hframes, hpcm⟩ := synthesize_spec hc
    have hmel : P.avail o.common (segToks tokens) (segToks tokens).length = c.tMel := by omega
    rw [Nat.cast_zero, hlast, hmel] at htiles hsum
    refine ⟨0 :: stops o tokens, cs, c, hbounds, rfl, ?_, increasing_stops hchunk, ?_, ?_, ?_,
      hframe, hc, htiles, ?_⟩
    · rw [stops, ← List.cons_append, List.getLast?_concat]
    · rw [synthesizeStreaming, hbounds]
      exact congrArg Except.ok hcs
    · rw [hlen, List.length_cons, stops, List.length_append, List.length_map, List.length_range,
        List.length_singleton]
    · rw [hfin, hlen, Nat.add_sub_cancel]
    · rw [hpcm]
      rw [Int.zero_mul, Int.zero_add] at hsum
      exact_mod_cast hsum

/-- A voice with 250 tokens, and stages that give nothing but zeros. -/
def smallVoice : S3gen Unit Unit ℤ where
  nPrompt _ := 250
  melLen1 _ := 500
  flow _ _ _ _ _ := ()
  source _ _ _ := 0
  hift _ _ _ _ := 0
  fadeWeight _ := 1

/-- Chunks of 25 tokens after a shorter first one. -/
def chunksOf25 (first : ℤ) : EngineOpts Unit where
  common := ()
  cfmSteps := 10
  streamCfmSteps := 2
  streamChunkTokens := 25
  streamFirstChunkTokens := first
  hasVoiceOverride := false

/-- Forty tokens with a first chunk of ten. -/
theorem streams_ten_first : smallVoice.Streams (chunksOf25 10) (List.replicate 40 7) := by
  refine (streams_iff smallVoice (chunksOf25 10) (List.replicate 40 7) (by decide)).mpr
    ⟨by decide, by decide, by decide, by decide, fun j hj => ?_⟩
  have hinner : inner (chunksOf25 10) (List.replicate 40 7) = 2 := by decide
  obtain rfl : j = 0 := by omega
  exact ⟨7, by decide, by decide⟩

/-- The first chunk of two tokens loses six frames and has only four, so the utterance fails, where
the batch gives 86 frames. -/
theorem not_streams : ¬∀ (P : S3gen Unit Unit ℤ) (o : EngineOpts Unit) (tokens : List ℤ),
    0 < o.streamChunkTokens → 0 < o.streamFirstChunkTokens → P.Streams o tokens := by
  intro h
  obtain ⟨bounds, cs, c, hstreams⟩ :=
    h smallVoice (chunksOf25 2) (List.replicate 40 7) (by decide) (by decide)
  have hfails : smallVoice.synthesizeStreaming (chunksOf25 2) (List.replicate 40 7) =
      .ok (.error 1) := rfl
  exact nomatch Except.ok.inj (hfails.symm.trans hstreams.streaming)

end Utterance

end S3gen

end Chatterbox

end WhisperCpp
