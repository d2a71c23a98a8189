import Mathlib.Algebra.Ring.Int.Defs
import Mathlib.Data.List.Flatten
import WhisperCpp.Parakeet.SpeakerRows

/-!
# Runs of the speaker cache

A frame is committed by one call, and every call after that in which it is still in the FIFO predicts
for it again. The rows of the FIFO are the last frames, each with one of its predictions; the rows of
the cache are all frames before them until the first compression, and from then on each is a frame
with one of its predictions or silence.

## Main definitions

* `AoscCall.Place` — where a frame stands in what the model gets
* `FramePair` — a frame with one of its predictions
* `RunRows` — the invariant of a run
* `Consistent` — what it says of the arrays

## Main results

* `aoscRun_rows` — every run keeps the invariant, and only a negative length makes a call throw
* `spkcache_append_fifo` — no frame is lost, repeated or moved before the first compression
* `aoscRun_consistent_iff` — the cache stays consistent, unless a length is negative
-/

namespace WhisperCpp

namespace Parakeet

open Rows Fuel

section Runs

variable {K L : Type*} (dims : SpeakerDims) (cfg : SpeakerCacheConfig K)

/-! ### Frames -/

/-- The rows of a chunk. -/
def AoscChunk.rows (c : AoscChunk K) : List (List K) :=
  (List.range c.tChunkPre).map (Rows.row dims.d (c.pre dims))

/-- The frames of a chunk that are committed. -/
def AoscChunk.frames (c : AoscChunk K) : List (List K) := ((c.rows dims).drop c.lc).take c.chunkLenEff

/-- The values of these frames. -/
def AoscChunk.committed (c : AoscChunk K) : List K :=
  ((c.pre dims).drop (c.lc * dims.d)).take (c.chunkLenEff * dims.d)

/-- The frames that some calls committed. -/
def frames (calls : List (AoscCall K)) : List (List K) :=
  calls.flatMap fun call => call.chunk.frames dims

/-- The rows that the model gets in a call, with its predictions for them. -/
def AoscCall.rows (call : AoscCall K) : List (SpeakerRow K) :=
  (List.range (call.before.nRows + call.before.nFifo + call.chunk.tChunkPre)).map fun r =>
    (Rows.row dims.d (catPre dims call.before call.chunk) r,
      Rows.row dims.numSpks (predsFull dims call.before call.chunk) r)

/-- In a call behind `t` frames, row `r` is frame `i`: one that the call commits, one of the FIFO, or,
until the first compression, one of the cache. -/
def AoscCall.Place (call : AoscCall K) (t i r : ℕ) : Prop :=
  (t ≤ i ∧ i < t + call.chunk.chunkLenEff ∧
    r = call.before.nRows + call.before.nFifo + call.chunk.lc + (i - t)) ∨
  (i < t ∧ r + t = call.before.nRows + call.before.nFifo + i ∧
    (call.before.nRows ≤ r ∨ call.before.spkcachePredsValid = false))

/-- A frame with one of its predictions. -/
def FramePair (calls : List (AoscCall K)) (x : SpeakerRow K) : Prop :=
  ∃ front call back i r, calls = front ++ call :: back ∧
    call.Place (frames dims front).length i r ∧ (call.rows dims)[r]? = some x ∧
    (frames dims calls)[i]? = some x.1

/-- A mean that a cache has, or had before one of the calls. -/
def SilenceMean (r : SpeakerCache K × List (AoscCall K)) (mean : List K) : Prop :=
  mean = r.1.meanSilEmb ∨ ∃ call ∈ r.2, mean = call.before.meanSilEmb

/-- The call compresses the cache. -/
def AoscCall.Compresses (call : AoscCall K) : Prop :=
  let nFifo := call.before.nFifo + call.chunk.chunkLenEff
  cfg.fifoLen < nFifo ∧
    cfg.spkcacheLen <
      (call.before.nRows + popOut cfg nFifo call.chunk.chunkLenEff call.before.nFifo : ℕ)

variable {dims cfg} {s : SpeakerCache K} {calls : List (AoscCall K)} {v : CacheRows K}
  {older : List (List K)} {c : AoscChunk K} {x : SpeakerRow K}

/-! ### What the model gets -/

theorem AoscChunk.holds_pre (c : AoscChunk K) : Holds dims.d (c.pre dims) (c.rows dims) := by
  refine holds_of_length ?_
  rw [pre, List.length_map, List.length_range]

theorem AoscChunk.holds_committed (c : AoscChunk K) :
    Holds dims.d (c.committed dims) (c.frames dims) :=
  (c.holds_pre.drop c.lc).take c.chunkLenEff

theorem AoscChunk.length_rows (c : AoscChunk K) : (c.rows dims).length = c.tChunkPre := by
  rw [rows, List.length_map, List.length_range]

/-- The model gets the rows of the cache, of the FIFO and of the chunk. -/
theorem call_rows_fst (h : HasRows dims cfg s v) (c : AoscChunk K) :
    ((⟨s, c⟩ : AoscCall K).rows dims).map Prod.fst =
      v.spk.map Prod.fst ++ v.fifo.map Prod.fst ++ c.rows dims := by
  have hcat : Holds dims.d (catPre dims s c)
      (v.spk.map Prod.fst ++ v.fifo.map Prod.fst ++ c.rows dims) :=
    (h.spk.append_rows h.fifo).append_rows c.holds_pre
  rw [hcat.eq_map_row, AoscCall.rows, List.map_map, List.length_append, List.length_append,
    List.length_map, List.length_map, h.nRows, h.nFifo, c.length_rows]
  rfl

theorem call_rows_snd (s : SpeakerCache K) (c : AoscChunk K) :
    Holds dims.numSpks (predsFull dims s c) (((⟨s, c⟩ : AoscCall K).rows dims).map Prod.snd) := by
  rw [AoscCall.rows, List.map_map]
  refine holds_of_length ?_
  rw [predsFull, List.length_map, List.length_range]

/-! ### Pairs -/

theorem exists_getElem?_of_mem {α : Type*} {l : List α} {x : α} {a b : ℕ}
    (h : x ∈ (l.drop a).take b) : ∃ k < b, l[a + k]? = some x := by
  obtain ⟨k, hk⟩ := List.mem_iff_getElem?.1 h
  rw [List.getElem?_take] at hk
  split_ifs at hk with hlt
  rw [List.getElem?_drop] at hk
  exact ⟨k, hlt, hk⟩

theorem FramePair.snoc (h : FramePair dims calls x) (call : AoscCall K) :
    FramePair dims (calls ++ [call]) x := by
  obtain ⟨front, call', back, i, r, rfl, hplace, hrow, hframe⟩ := h
  refine ⟨front, call', back ++ [call], i, r, ?_, hplace, hrow, ?_⟩
  · rw [List.append_assoc, List.cons_append]
  · rw [frames, List.flatMap_append]
    exact (List.getElem?_append_left (List.getElem?_eq_some_iff.1 hframe).1).trans hframe

theorem SilenceMean.snoc {mean : List K} (h : SilenceMean (s, calls) mean) (s' : SpeakerCache K)
    (c : AoscChunk K) : SilenceMean (s', calls ++ [⟨s, c⟩]) mean := by
  refine .inr ?_
  rcases h with h | ⟨call, hcall, h⟩
  · exact ⟨⟨s, c⟩, List.mem_append_right _ (List.mem_singleton_self _), h⟩
  · exact ⟨call, List.mem_append_left _ hcall, h⟩

theorem frames_snoc (calls : List (AoscCall K)) (call : AoscCall K) :
    frames dims (calls ++ [call]) = frames dims calls ++ call.chunk.frames dims := by
  rw [frames, List.flatMap_append, List.flatMap_singleton]
  rfl

/-- The model predicts for the frames of the FIFO and of the chunk. -/
theorem appended_pair (h : HasRows dims cfg s v)
    (hframes : frames dims calls = older ++ v.fifo.map Prod.fst)
    (hx : x ∈ v.appended ((⟨s, c⟩ : AoscCall K).rows dims) c.lc c.chunkLenEff) :
    FramePair dims (calls ++ [⟨s, c⟩]) x := by
  have hfst := call_rows_fst h c
  have hlen : (frames dims calls).length = older.length + s.nFifo := by
    rw [hframes, List.length_append, List.length_map, h.nFifo]
  rcases List.mem_append.1 hx with hx | hx
  · obtain ⟨k, hk, hrow⟩ := exists_getElem?_of_mem hx
    rw [h.nRows] at hrow
    have hemb : (v.fifo.map Prod.fst)[k]? = some x.1 := by
      have hmap := congrArg (Option.map Prod.fst) hrow
      rwa [← List.getElem?_map, hfst, List.append_assoc,
        List.getElem?_append_right (by rw [List.length_map, h.nRows]; omega), List.length_map,
        h.nRows, Nat.add_sub_cancel_left,
        List.getElem?_append_left (by rwa [List.length_map])] at hmap
    rw [h.nFifo] at hk
    refine ⟨calls, ⟨s, c⟩, [], older.length + k, s.nRows + k, rfl, .inr ?_, hrow, ?_⟩
    · rw [hlen]
      exact ⟨by omega, by dsimp only; omega, .inl (Nat.le_add_right ..)⟩
    · rw [frames_snoc, hframes, List.append_assoc,
        List.getElem?_append_right (Nat.le_add_right ..), Nat.add_sub_cancel_left,
        List.getElem?_append_left (by rwa [List.length_map, h.nFifo])]
      exact hemb
  · obtain ⟨k, hk, hrow⟩ := exists_getElem?_of_mem hx
    rw [h.nRows, h.nFifo] at hrow
    have hemb : (c.rows dims)[c.lc + k]? = some x.1 := by
      have hmap := congrArg (Option.map Prod.fst) hrow
      have hold : (v.spk.map Prod.fst ++ v.fifo.map Prod.fst).length = s.nRows + s.nFifo := by
        rw [List.length_append, List.length_map, List.length_map, h.nRows, h.nFifo]
      rwa [← List.getElem?_map, hfst, List.getElem?_append_right (by omega), hold, Nat.add_assoc,
        Nat.add_sub_cancel_left] at hmap
    refine ⟨calls, ⟨s, c⟩, [], older.length + s.nFifo + k, s.nRows + s.nFifo + c.lc + k, rfl,
      .inl ?_, hrow, ?_⟩
    · rw [hlen]
      exact ⟨by omega, by dsimp only; omega, by dsimp only; omega⟩
    · rw [frames_snoc, ← hlen, List.getElem?_append_right (Nat.le_add_right ..),
        Nat.add_sub_cancel_left]
      exact (List.getElem?_take_of_lt hk).trans (List.getElem?_drop.trans hemb)

/-- Until the first compression, the model predicts for all frames of the cache too. -/
theorem kept_pair (h : HasRows dims cfg s v)
    (hframes : frames dims calls = older ++ v.fifo.map Prod.fst)
    (hvalid : s.spkcachePredsValid = false) (holder : v.spk.map Prod.fst = older)
    (hx : x ∈ ((⟨s, c⟩ : AoscCall K).rows dims).take v.spk.length) :
    FramePair dims (calls ++ [⟨s, c⟩]) x := by
  rw [← List.drop_zero (l := AoscCall.rows dims _)] at hx
  obtain ⟨k, hk, hrow⟩ := exists_getElem?_of_mem hx
  rw [Nat.zero_add] at hrow
  have holderLen : older.length = v.spk.length := by rw [← holder, List.length_map]
  have hlen : (frames dims calls).length = s.nRows + s.nFifo := by
    rw [hframes, List.length_append, List.length_map, holderLen, h.nRows, h.nFifo]
  refine ⟨calls, ⟨s, c⟩, [], k, k, rfl, .inr ?_, hrow, ?_⟩
  · rw [hlen, ← h.nRows]
    exact ⟨by omega, Nat.add_comm .., .inr hvalid⟩
  · have hmap := congrArg (Option.map Prod.fst) hrow
    rw [← List.getElem?_map, call_rows_fst h c, List.append_assoc,
      List.getElem?_append_left (by rwa [List.length_map]), holder] at hmap
    rw [frames_snoc, hframes, List.append_assoc, List.getElem?_append_left (by rwa [holderLen])]
    exact hmap

/-- A row of two arrays that hold the parts of rows. -/
theorem row_mem_of_holds {flat preds : List K} {rows : List (SpeakerRow K)}
    (h : Holds dims.d flat (rows.map Prod.fst)) (h' : Holds dims.numSpks preds (rows.map Prod.snd))
    {k : ℕ} (hk : k < rows.length) :
    (Rows.row dims.d flat k, Rows.row dims.numSpks preds k) ∈ rows := by
  have hfst := h.row (r := k) (by rwa [List.length_map])
  have hsnd := h'.row (r := k) (by rwa [List.length_map])
  rw [List.getElem?_map, List.getElem?_eq_getElem hk, Option.map_some] at hfst hsnd
  rw [← Option.some.inj hfst, ← Option.some.inj hsnd]
  exact List.getElem_mem hk

/-! ### The invariant -/

variable [Zero K] (dims cfg)

/-- A mean for silence, and no speaker. -/
def SilencePair (r : SpeakerCache K × List (AoscCall K)) (x : SpeakerRow K) : Prop :=
  SilenceMean r x.1 ∧ x.2 = List.replicate dims.numSpks 0

/-- The rows after some calls: `v.fifo` are the last frames and `older` those before them. -/
structure RunRows (r : SpeakerCache K × List (AoscCall K)) (v : CacheRows K)
    (older : List (List K)) : Prop where
  rows : HasRows dims cfg r.1 v
  frames_eq : frames dims r.2 = older ++ v.fifo.map Prod.fst
  fifoPairs : ∀ x ∈ v.fifo, FramePair dims r.2 x
  spkEmbs : r.1.spkcachePredsValid = false → v.spk.map Prod.fst = older
  spkPairs : r.1.spkcachePredsValid = true → ∀ x ∈ v.spk, FramePair dims r.2 x ∨ SilencePair dims r x
  valid : r.1.spkcachePredsValid = true ↔ ∃ call ∈ r.2, call.Compresses cfg
  zeroMean : SilenceMean r (List.replicate dims.d 0)
  nRows_le : (r.1.nRows : ℤ) ≤ max 0 cfg.spkcacheLen
  nFifo_le : (r.1.nFifo : ℤ) ≤ max 0 cfg.fifoLen

variable {dims cfg}

theorem runRows_reset : RunRows dims cfg (.reset dims, []) ⟨[], []⟩ [] where
  rows := hasRows_reset
  frames_eq := rfl
  fifoPairs _ hx := nomatch hx
  spkEmbs _ := rfl
  spkPairs h := nomatch h
  valid := ⟨nofun, fun ⟨_, h, _⟩ => nomatch h⟩
  zeroMean := .inl rfl
  nRows_le := Int.le_max_left ..
  nFifo_le := Int.le_max_left ..

/-! ### A call -/

theorem SilencePair.snoc (h : SilencePair dims (s, calls) x) (s' : SpeakerCache K)
    (c : AoscChunk K) : SilencePair dims (s', calls ++ [⟨s, c⟩]) x :=
  ⟨h.1.snoc s' c, h.2⟩

/-- The rows of the cache that a call pushes frames on. -/
theorem RunRows.kept_pairs (h : RunRows dims cfg (s, calls) v older) (s' : SpeakerCache K)
    (c : AoscChunk K)
    (hx : x ∈ v.kept ((⟨s, c⟩ : AoscCall K).rows dims) s.spkcachePredsValid) :
    FramePair dims (calls ++ [⟨s, c⟩]) x ∨ SilencePair dims (s', calls ++ [⟨s, c⟩]) x := by
  rw [CacheRows.kept] at hx
  split_ifs at hx with hvalid
  · exact (h.spkPairs hvalid x hx).imp (·.snoc _) (·.snoc s' c)
  · have hfalse := eq_false_of_ne_true hvalid
    exact .inl (kept_pair h.rows h.frames_eq hfalse (h.spkEmbs hfalse) hx)

omit [Zero K] in
theorem compresses_snoc (hvalid : s.spkcachePredsValid = true ↔ ∃ call ∈ calls, call.Compresses cfg)
    (c : AoscChunk K) :
    (∃ call ∈ calls ++ [⟨s, c⟩], call.Compresses cfg) ↔
      s.spkcachePredsValid = true ∨ (⟨s, c⟩ : AoscCall K).Compresses cfg := by
  rw [hvalid]
  constructor
  · rintro ⟨call, hcall, hcompr⟩
    rcases List.mem_append.1 hcall with hcall | hcall
    · exact .inl ⟨call, hcall, hcompr⟩
    · rw [List.mem_singleton.1 hcall] at hcompr
      exact .inr hcompr
  · rintro (⟨call, hcall, hcompr⟩ | hcompr)
    · exact ⟨call, List.mem_append_left _ hcall, hcompr⟩
    · exact ⟨_, List.mem_append_right _ (List.mem_singleton_self _), hcompr⟩

/-- The invariant after a call, from what is known of the rows that it is about. -/
theorem RunRows.of_rowStep (h : RunRows dims cfg (s, calls) v older) {s' : SpeakerCache K}
    {calls' : List (AoscCall K)} {v' : CacheRows K} {kept new : List (SpeakerRow K)} {pop : ℕ}
    (hkeep : ∀ x ∈ v.spk, FramePair dims calls x ∨ SilencePair dims (s, calls) x →
      FramePair dims calls' x ∨ SilencePair dims (s', calls') x)
    (hframes : frames dims calls' = older ++ new.map Prod.fst)
    (hnew : ∀ x ∈ new, FramePair dims calls' x)
    (hkept : ∀ x ∈ kept, FramePair dims calls' x ∨ SilencePair dims (s', calls') x)
    (hkeptFst : kept.map Prod.fst = v.spk.map Prod.fst)
    (hcompr : (∃ call ∈ calls', call.Compresses cfg) ↔ s.spkcachePredsValid = true ∨
      (cfg.fifoLen < new.length ∧ cfg.spkcacheLen < (kept.length + pop : ℕ)))
    (hzero : SilenceMean (s', calls') (List.replicate dims.d 0))
    (hbounds : cfg.fifoLen < new.length → pop ≤ new.length ∧
      ((new.length - pop : ℕ) : ℤ) ≤ max 0 cfg.fifoLen)
    (hrows : HasRows dims cfg s' v')
    (hstep : RowStep dims cfg v.spk kept new pop s.spkcachePredsValid s' v') :
    ∃ older', RunRows dims cfg (s', calls') v' older' := by
  have hpopped : older ++ new.map Prod.fst =
      older ++ (new.take pop).map Prod.fst ++ (new.drop pop).map Prod.fst := by
    rw [List.append_assoc, ← List.map_append, List.take_append_drop]
  have hfifoPairs : ∀ x ∈ new.drop pop, FramePair dims calls' x :=
    fun x hx => hnew x (List.mem_of_mem_drop hx)
  have hpushed : ∀ x ∈ kept ++ new.take pop, FramePair dims calls' x ∨
      SilencePair dims (s', calls') x :=
    List.forall_mem_append.2 ⟨hkept, fun x hx => .inl (hnew x (List.mem_of_mem_take hx))⟩
  have hnRows := hrows.nRows
  have hnFifo := hrows.nFifo
  cases hstep with
  | keep hfits hvalid =>
    refine ⟨older, hrows, hframes, hnew, ?_, ?_, ?_, hzero, ?_, ?_⟩
    · exact fun hfalse => h.spkEmbs (hvalid.symm.trans hfalse)
    · exact fun htrue x hx => hkeep x hx (h.spkPairs (hvalid.symm.trans htrue) x hx)
    · rw [hcompr, hvalid]
      exact ⟨.inl, fun hor => hor.resolve_right fun hboth => Int.not_lt.2 hfits hboth.1⟩
    · rw [← hnRows, h.rows.nRows]
      exact h.nRows_le
    · rw [← hnFifo]
      exact Int.le_trans hfits (Int.le_max_right ..)
  | move hover hfits hvalid =>
    refine ⟨older ++ (new.take pop).map Prod.fst, hrows, hframes.trans hpopped, hfifoPairs, ?_,
      fun _ => hpushed, ?_, hzero, ?_, ?_⟩
    · intro hfalse
      rw [List.map_append, hkeptFst, h.spkEmbs (hvalid.symm.trans hfalse)]
    · rw [hcompr, hvalid]
      exact ⟨.inl, fun hor => hor.resolve_right fun hboth => Int.not_lt.2 hfits hboth.2⟩
    · rw [← hnRows, List.length_append, List.length_take, Nat.min_eq_left (hbounds hover).1]
      exact Int.le_trans hfits (Int.le_max_right ..)
    · rw [← hnFifo, List.length_drop]
      exact (hbounds hover).2
  | compress hover hspkOver hvalid hpos hlen hmem =>
    refine ⟨older ++ (new.take pop).map Prod.fst, hrows, hframes.trans hpopped, hfifoPairs, ?_, ?_,
      ?_, hzero, ?_, ?_⟩
    · exact fun hfalse => absurd (hvalid.symm.trans hfalse) (by decide)
    · intro _ x hx
      rcases hmem x hx with hold | ⟨hmean | hmean, hpred⟩
      · exact hpushed x hold
      · exact .inr ⟨.inl hmean, hpred⟩
      · exact .inr ⟨hmean ▸ hzero, hpred⟩
    · rw [hcompr]
      exact ⟨fun _ => .inr ⟨hover, hspkOver⟩, fun _ => hvalid⟩
    · rw [← hnRows, hlen]
      exact Int.le_max_right ..
    · rw [← hnFifo, List.length_drop]
      exact (hbounds hover).2

/-! ### Consistency -/

/-- The arrays have the sizes that go with the counts, the counts are within the lengths asked for,
and each row is a frame with one of its predictions or, in the cache, silence. The cache has no
predictions before it is compressed. -/
structure Consistent (dims : SpeakerDims) (cfg : SpeakerCacheConfig K)
    (r : SpeakerCache K × List (AoscCall K)) : Prop where
  fifo : r.1.fifo.length = r.1.nFifo * dims.d
  fifoPreds : r.1.fifoPreds.length = r.1.nFifo * dims.numSpks
  spkcache : r.1.spkcache.length = r.1.nRows * dims.d
  spkcachePreds : r.1.spkcachePredsValid = true →
    r.1.spkcachePreds.length = r.1.nRows * dims.numSpks
  nFifo_le : (r.1.nFifo : ℤ) ≤ cfg.fifoLen
  nRows_le : (r.1.nRows : ℤ) ≤ cfg.spkcacheLen
  spkFrame : r.1.spkcachePredsValid = false → ∀ k < r.1.nRows,
    Rows.row dims.d r.1.spkcache k ∈ frames dims r.2
  fifoRow : ∀ k < r.1.nFifo,
    FramePair dims r.2 (Rows.row dims.d r.1.fifo k, Rows.row dims.numSpks r.1.fifoPreds k)
  spkRow : r.1.spkcachePredsValid = true → ∀ k < r.1.nRows,
    FramePair dims r.2 (Rows.row dims.d r.1.spkcache k, Rows.row dims.numSpks r.1.spkcachePreds k) ∨
      SilencePair dims r
        (Rows.row dims.d r.1.spkcache k, Rows.row dims.numSpks r.1.spkcachePreds k)

theorem RunRows.consistent {r : SpeakerCache K × List (AoscCall K)}
    (h : RunRows dims cfg r v older) (hfifo : 0 ≤ cfg.fifoLen) (hspk : 0 ≤ cfg.spkcacheLen) :
    Consistent dims cfg r where
  fifo := by rw [h.rows.fifo.length, List.length_map, h.rows.nFifo]
  fifoPreds := by rw [h.rows.fifoPreds.length, List.length_map, h.rows.nFifo]
  spkcache := by rw [h.rows.spk.length, List.length_map, h.rows.nRows]
  spkcachePreds hvalid := by
    rw [(h.rows.spkPreds (.inl hvalid)).length, List.length_map, h.rows.nRows]
  nFifo_le := by
    have hle := h.nFifo_le
    rwa [Int.max_eq_right hfifo] at hle
  nRows_le := by
    have hle := h.nRows_le
    rwa [Int.max_eq_right hspk] at hle
  spkFrame hvalid k hk := by
    have hrow := h.rows.spk.row (r := k) (by rwa [List.length_map, h.rows.nRows])
    rw [h.spkEmbs hvalid] at hrow
    rw [h.frames_eq]
    exact List.mem_append_left _ (List.mem_of_getElem? hrow)
  fifoRow k hk :=
    h.fifoPairs _ (row_mem_of_holds h.rows.fifo h.rows.fifoPreds (by rwa [h.rows.nFifo]))
  spkRow hvalid k hk :=
    h.spkPairs hvalid _ (row_mem_of_holds h.rows.spk (h.rows.spkPreds (.inl hvalid))
      (by rwa [h.rows.nRows]))

variable [One K] [Add K] [Sub K] [Mul K] [Neg K] [IntCast K] [LT K] [DecidableLT K] [DecidableEq K]
  [Zero L] [Add L] [Mul L] [Div L] [NatCast L] (O : FloatOps K L) (N : NthElement)

/-- A call keeps the invariant. -/
theorem RunRows.aoscStep (h : RunRows dims cfg (s, calls) v older) (c : AoscChunk K) :
    Meets (fun e => e = .uncaught ∧ cfg.spkcacheLen < 0)
      (fun s' => ∃ v' older', RunRows dims cfg (s', calls ++ [⟨s, c⟩]) v' older')
      (aoscStep O N dims cfg s c) := by
  have hm := call_rows_fst h.rows c
  have hfits : c.lc + c.chunkLenEff ≤ (c.rows dims).length := by
    rw [c.length_rows]
    exact c.fits
  have hspk : (((⟨s, c⟩ : AoscCall K).rows dims).take v.spk.length).map Prod.fst =
      v.spk.map Prod.fst := by
    rw [List.map_take, hm, List.append_assoc]
    exact List.take_left' (List.length_map ..)
  have hnewLen : (v.appended ((⟨s, c⟩ : AoscCall K).rows dims) c.lc c.chunkLenEff).length =
      s.nFifo + c.chunkLenEff := by
    rw [v.appended_length hm hfits, h.rows.nFifo]
  have hkeptLen : (v.kept ((⟨s, c⟩ : AoscCall K).rows dims) s.spkcachePredsValid).length =
      s.nRows := by
    rw [v.kept_length hspk, h.rows.nRows]
  refine (streamingUpdate_rows O N h.rows hm (call_rows_snd s c) (c.holds_pre.drop c.lc) hfits
    c.pos).mono fun s' ⟨v', hrows, hstep⟩ => ⟨v', ?_⟩
  refine h.of_rowStep ?_ ?_ ?_ ?_ (v.kept_fst hspk _) ?_ (h.zeroMean.snoc s' c) ?_ hrows hstep
  · exact fun x _ hx => hx.imp (·.snoc _) (·.snoc s' c)
  · rw [frames_snoc, h.frames_eq, v.appended_fst _ _ hm, List.append_assoc]
    rfl
  · exact fun x hx => appended_pair h.rows h.frames_eq hx
  · exact fun x hx => h.kept_pairs s' c hx
  · rw [compresses_snoc h.valid c, hnewLen, hkeptLen]
    rfl
  · rw [hnewLen]
    exact popOut_bounds cfg c.pos

/-! ### Runs -/

/-- Every run keeps the invariant. Only a negative length makes a call throw. -/
theorem aoscRun_rows (chunks : List (AoscChunk K)) :
    Meets (fun e => e = .uncaught ∧ cfg.spkcacheLen < 0)
      (fun r => r.2.map AoscCall.chunk = chunks ∧ ∃ v older, RunRows dims cfg r v older)
      (aoscRun O N dims cfg chunks) := by
  have hreset : ([] : List (AoscCall K)).map AoscCall.chunk = [] ∧ ∃ v older,
      RunRows dims cfg (.reset dims, []) v older := ⟨rfl, _, _, runRows_reset⟩
  refine Meets.foldlM_append
    (I := fun done r => r.2.map AoscCall.chunk = done ∧ ∃ v older, RunRows dims cfg r v older)
    ?_ [] (s := (.reset dims, [])) hreset chunks
  rintro done ⟨s, calls⟩ c ⟨hchunks, v, older, h⟩
  refine (h.aoscStep O N c).bind fun s' hs' => ⟨?_, hs'⟩
  rw [List.map_append, hchunks]
  rfl

/-! ### Before the first compression -/

/-- As long as no call compresses the cache, it holds, with the FIFO behind it, all committed frames
in order. -/
theorem spkcache_append_fifo (chunks : List (AoscChunk K)) :
    Meets (fun e => e = .uncaught ∧ cfg.spkcacheLen < 0)
      (fun r => (∀ call ∈ r.2, ¬call.Compresses cfg) →
        r.1.spkcache ++ r.1.fifo = chunks.flatMap (AoscChunk.committed dims))
      (aoscRun O N dims cfg chunks) := by
  refine (aoscRun_rows O N chunks).mono fun r ⟨hchunks, v, older, h⟩ hnone => ?_
  have hvalid : r.1.spkcachePredsValid = false := by
    refine eq_false_of_ne_true fun htrue => ?_
    obtain ⟨call, hcall, hcompr⟩ := h.valid.1 htrue
    exact hnone call hcall hcompr
  have hcommitted : Holds dims.d (chunks.flatMap (AoscChunk.committed dims))
      (chunks.flatMap (AoscChunk.frames dims)) :=
    holds_flatMap (fun c => c.holds_committed) chunks
  have hframes : frames dims r.2 = chunks.flatMap (AoscChunk.frames dims) := by
    rw [← hchunks, List.flatMap_map]
    rfl
  calc r.1.spkcache ++ r.1.fifo
      = (v.spk.map Prod.fst ++ v.fifo.map Prod.fst).flatten :=
        (h.rows.spk.append_rows h.rows.fifo).eq
    _ = (chunks.flatMap (AoscChunk.frames dims)).flatten := by
        rw [h.spkEmbs hvalid, ← h.frames_eq, hframes]
    _ = chunks.flatMap (AoscChunk.committed dims) := hcommitted.eq.symm

/-- The calls of a run return and leave a consistent cache exactly when neither length is
negative. -/
theorem aoscRun_consistent_iff (chunks : List (AoscChunk K)) :
    (∃ r, aoscRun O N dims cfg chunks = .ok r ∧ r.2.map AoscCall.chunk = chunks ∧
      Consistent dims cfg r) ↔ 0 ≤ cfg.fifoLen ∧ 0 ≤ cfg.spkcacheLen := by
  refine ⟨fun ⟨r, _, _, h⟩ => ?_, fun ⟨hfifo, hspk⟩ => ?_⟩
  · exact ⟨Int.le_trans (Int.natCast_nonneg _) h.nFifo_le,
      Int.le_trans (Int.natCast_nonneg _) h.nRows_le⟩
  · cases hr : aoscRun O N dims cfg chunks with
    | error e =>
      have hneg := ((aoscRun_rows O N chunks).of_error hr).2
      exact absurd hspk (Int.not_le.2 hneg)
    | ok r =>
      obtain ⟨hchunks, v, older, h⟩ := (aoscRun_rows O N chunks).of_ok hr
      exact ⟨r, rfl, hchunks, h.consistent hfifo hspk⟩

end Runs

/-- A cache of length `-1` and a FIFO of length 0: the first frame throws. -/
theorem not_forall_consistent :
    ¬∀ (O : FloatOps ℤ ℤ) (N : NthElement) (dims : SpeakerDims) (cfg : SpeakerCacheConfig ℤ)
      (chunks : List (AoscChunk ℤ)), ∃ r, aoscRun O N dims cfg chunks = .ok r ∧
        r.2.map AoscCall.chunk = chunks ∧ Consistent dims cfg r := by
  intro h
  have hrun : aoscRun ⟨id, id, id, id, 1, 2, -100, 100⟩ ⟨fun _ _ l => l, fun _ _ l => .refl l⟩
      ⟨4, 2, Nat.two_pos⟩ ⟨-1, 0, 144, 3, 0, 0, 0, 1, 2, 1⟩
      [⟨1, 0, 1, fun _ => 0, fun _ _ => 0, Nat.one_pos, Nat.le_refl 1⟩] = .error .uncaught := rfl
  obtain ⟨r, hr, _⟩ := h ⟨id, id, id, id, 1, 2, -100, 100⟩
    ⟨fun _ _ l => l, fun _ _ l => .refl l⟩ ⟨4, 2, Nat.two_pos⟩
    ⟨-1, 0, 144, 3, 0, 0, 0, 1, 2, 1⟩
    [⟨1, 0, 1, fun _ => 0, fun _ _ => 0, Nat.one_pos, Nat.le_refl 1⟩]
  rw [hrun] at hr
  cases hr

end Parakeet

end WhisperCpp
