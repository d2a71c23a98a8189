import WhisperCpp.Parakeet.SortformerSession

/-!
# The windows of a diarization session

The state of a session is a function of the signal fed so far and of the number of chunks emitted,
and that number is the greatest one that the signal has room for. So no cut of the signal into feeds
makes a difference.

## Main definitions

* `SortformerConfig.keepSamples` — how much of the signal before the next chunk stays in the ring
* `stateOf`, `finalStateOf` — the state for a signal
* `windowsOf` — the windows of a signal

## Main results

* `emitChunk_stateOf` — a pass of the loop
* `feeds_eq`, `run_eq` — the state after the feeds, and after `finalize`
* `run_windows` — the windows tile the signal, and the ring stays short
-/

namespace WhisperCpp

namespace Parakeet

open Stretch (Tiles)

/-! ### Lengths -/

namespace SortformerConfig

variable (cfg : SortformerConfig)

/-- How much of the signal before the next chunk is kept. -/
def keepSamples : ℕ := if cfg.cacheActive then cfg.chunkLeftContextSamples else cfg.historySamples

/-- How much of the signal behind a chunk is waited for. -/
def lookahead : ℕ := if cfg.cacheActive then cfg.chunkRightContextSamples else 0

/-- Where the window of chunk `k` starts. -/
def chunkStart (k : ℕ) : ℕ :=
  if cfg.cacheActive then k * cfg.chunkSamples - cfg.chunkLeftContextSamples
  else (k + 1) * cfg.chunkSamples - cfg.historySamples

/-- The number of chunks that are emitted of `n` samples before the end. -/
def chunkCount (n : ℕ) : ℕ := (n - cfg.lookahead) / cfg.chunkSamples

/-- Where the window of what is left starts. -/
def tailStart (n : ℕ) : ℕ :=
  if cfg.cacheActive then cfg.chunkCount n * cfg.chunkSamples - cfg.chunkLeftContextSamples
  else n - cfg.historySamples

/-- What the checks of `diarize_start` make sure of. -/
structure Valid : Prop where
  chunk_pos : 0 < cfg.chunkSamples
  chunk_le : cfg.chunkSamples ≤ cfg.historySamples

theorem chunkStart_le (k : ℕ) : cfg.chunkStart k ≤ (k + 1) * cfg.chunkSamples := by
  rw [chunkStart, Nat.succ_mul]
  split_ifs <;> omega

variable {cfg}

theorem chunkStart_lt (hv : cfg.Valid) (k : ℕ) : cfg.chunkStart k < (k + 1) * cfg.chunkSamples := by
  have hpos := hv.chunk_pos
  have hle := hv.chunk_le
  rw [chunkStart, Nat.succ_mul]
  split_ifs <;> omega

theorem chunkCount_mul_le (n : ℕ) : cfg.chunkCount n * cfg.chunkSamples ≤ n := by
  have hle := Nat.div_mul_le_self (n - cfg.lookahead) cfg.chunkSamples
  rw [← chunkCount] at hle
  omega

/-- There is room for another chunk exactly below the number of chunks. -/
theorem lt_chunkCount_iff (hv : cfg.Valid) {k n : ℕ} :
    k < cfg.chunkCount n ↔ (k + 1) * cfg.chunkSamples + cfg.lookahead ≤ n := by
  rw [chunkCount, ← Nat.succ_le_iff, Nat.le_div_iff_mul_le hv.chunk_pos]
  have hpos : 0 < (k + 1) * cfg.chunkSamples := Nat.mul_pos k.succ_pos hv.chunk_pos
  simp only [Nat.succ_eq_add_one]
  omega

/-- What is left after the chunks is shorter than a chunk with its right context. -/
theorem lt_chunkCount_mul (hv : cfg.Valid) (n : ℕ) :
    n < cfg.chunkCount n * cfg.chunkSamples + (cfg.chunkSamples + cfg.lookahead) := by
  have hnot := (not_congr (lt_chunkCount_iff hv)).1 (lt_irrefl (cfg.chunkCount n))
  rw [Nat.succ_mul] at hnot
  omega

theorem chunkCount_mono {n n' : ℕ} (h : n ≤ n') : cfg.chunkCount n ≤ cfg.chunkCount n' := by
  rw [chunkCount, chunkCount]
  exact Nat.div_le_div_right (by omega)

theorem samplesOf_le_samplesOf {sr ms ms' : ℤ} (hsr : 0 ≤ sr) (hms : 0 ≤ ms) (h : ms ≤ ms') :
    samplesOf sr ms ≤ samplesOf sr ms' := by
  have hmul := mul_le_mul_of_nonneg_left h hsr
  have hnonneg := mul_nonneg hsr hms
  rw [samplesOf, samplesOf, Int.tdiv_eq_ediv_of_nonneg hnonneg,
    Int.tdiv_eq_ediv_of_nonneg (hnonneg.trans hmul)]
  exact Int.toNat_le_toNat (Int.ediv_le_ediv (by decide) hmul)

theorem samplesOf_pos {sr ms : ℤ} (hsr : 1000 ≤ sr) (hms : 0 < ms) : 0 < samplesOf sr ms := by
  have hmul : 1000 * 1 ≤ sr * ms := mul_le_mul hsr (by omega) (by decide) (by omega)
  rw [samplesOf, Int.tdiv_eq_ediv_of_nonneg (by omega)]
  omega

theorem valid_of_diarizeStart {m : SortformerModel} {opts : SortformerStreamingOptions}
    (h : diarizeStart m opts = .ok cfg) : cfg.Valid := by
  rw [diarizeStart] at h
  split_ifs at h with hmodel hrate hchunk hhistory hle
  obtain rfl := Except.ok.inj h
  have hge : (1000 : ℤ) ≤ opts.sampleRate := by
    have := m.frames.sampleRate_ge
    omega
  exact ⟨samplesOf_pos hge (by omega), samplesOf_le_samplesOf (by omega) (by omega) (by omega)⟩

end SortformerConfig

/-! ### The state for a signal -/

section State

variable {σ α K : Type*} (cfg : SortformerConfig)

/-- The window of chunk `k`. -/
def chunkWindow (signal : List α) (k : ℕ) : ChunkWindow α :=
  let windowEnd := (k + 1) * cfg.chunkSamples + cfg.lookahead
  { chunkIndex := k
    windowStart := cfg.chunkStart k
    windowEnd := windowEnd
    emitStart := k * cfg.chunkSamples
    emitEnd := (k + 1) * cfg.chunkSamples
    isFinal := false
    samples := (signal.drop (cfg.chunkStart k)).take (windowEnd - cfg.chunkStart k) }

/-- The window of what is left behind the chunks. -/
def tailWindow (signal : List α) : ChunkWindow α where
  chunkIndex := cfg.chunkCount signal.length
  windowStart := cfg.tailStart signal.length
  windowEnd := signal.length
  emitStart := cfg.chunkCount signal.length * cfg.chunkSamples
  emitEnd := signal.length
  isFinal := true
  samples := (signal.drop (cfg.tailStart signal.length)).take
    (signal.length - cfg.tailStart signal.length)

/-- The windows of the first `k` chunks. -/
def chunkWindows (signal : List α) (k : ℕ) : List (ChunkWindow α) :=
  (List.range k).map (chunkWindow cfg signal)

/-- The windows of a signal. -/
def windowsOf (signal : List α) : List (ChunkWindow α) :=
  let k := cfg.chunkCount signal.length
  chunkWindows cfg signal k ++
    if k * cfg.chunkSamples < signal.length then [tailWindow cfg signal] else []

variable {cfg}

theorem chunkWindows_succ (signal : List α) (k : ℕ) :
    chunkWindows cfg signal (k + 1) = chunkWindows cfg signal k ++ [chunkWindow cfg signal k] := by
  rw [chunkWindows, List.range_succ, List.map_append]
  rfl

/-- A window does not change when more of the signal arrives. -/
theorem chunkWindow_append {signal : List α} (more : List α) {k : ℕ}
    (h : (k + 1) * cfg.chunkSamples + cfg.lookahead ≤ signal.length) :
    chunkWindow cfg (signal ++ more) k = chunkWindow cfg signal k := by
  have hle := cfg.chunkStart_le k
  have hdrop : cfg.chunkStart k ≤ signal.length := by omega
  rw [chunkWindow, chunkWindow, List.drop_append_of_le_length hdrop, List.take_append_of_le_length]
  rw [List.length_drop]
  omega

theorem chunkWindows_append (hv : cfg.Valid) {signal : List α} (more : List α) {k : ℕ}
    (h : k ≤ cfg.chunkCount signal.length) :
    chunkWindows cfg (signal ++ more) k = chunkWindows cfg signal k := by
  rw [chunkWindows, chunkWindows]
  refine List.map_congr_left fun i hi => chunkWindow_append more ?_
  have hlt := List.mem_range.1 hi
  exact (SortformerConfig.lt_chunkCount_iff hv).1 (by omega)

variable [IntCast K] [Add K] [Sub K] [Div K] [Max K] [Min K] [LE K] [DecidableLE K] [LT K]
  [DecidableLT K] (cfg) (D : Diarizer σ α K)

/-- A window is diarized: what is remembered, and the segments so far. -/
def hear (acc : σ × List (StreamingDiarizationSegment K)) (w : ChunkWindow α) :
    σ × List (StreamingDiarizationSegment K) :=
  ((D.diarize acc.1 w).2, acc.2 ++ clip cfg w (D.diarize acc.1 w).1)

/-- Windows are diarized one after the other. -/
def heard (windows : List (ChunkWindow α)) : σ × List (StreamingDiarizationSegment K) :=
  windows.foldl (hear cfg D) (D.init, [])

theorem heard_concat (windows : List (ChunkWindow α)) (w : ChunkWindow α) :
    heard cfg D (windows ++ [w]) = hear cfg D (heard cfg D windows) w := by
  rw [heard, List.foldl_append]
  rfl

/-- The state after `k` chunks of a signal. -/
def stateOf (finalized : Bool) (signal : List α) (k : ℕ) : SortformerStreamSession σ α K where
  ring := signal.drop (k * cfg.chunkSamples - cfg.keepSamples)
  ringOriginSample := k * cfg.chunkSamples - cfg.keepSamples
  emittedSamples := k * cfg.chunkSamples
  chunkIndex := k
  finalized := finalized
  cancelled := false
  memory := (heard cfg D (chunkWindows cfg signal k)).1
  segments := (heard cfg D (chunkWindows cfg signal k)).2
  windows := chunkWindows cfg signal k

/-- The state after `finalize`. -/
def finalStateOf (signal : List α) : SortformerStreamSession σ α K :=
  let k := cfg.chunkCount signal.length
  let s := stateOf cfg D true signal k
  if k * cfg.chunkSamples < signal.length then
    { s with
      memory := (heard cfg D (windowsOf cfg signal)).1
      segments := (heard cfg D (windowsOf cfg signal)).2
      windows := windowsOf cfg signal
      emittedSamples := signal.length
      chunkIndex := k + 1 }
  else
    let atS : K := ((k * cfg.chunkSamples : ℕ) : ℤ) / (cfg.sampleRate : K)
    { s with segments := s.segments ++ [⟨-1, atS, atS, k, true⟩] }

/-! ### A pass of the loop -/

variable {cfg D}

open SortformerStreamSession SortformerConfig

theorem availableEnd_stateOf (finalized : Bool) {signal : List α} {k : ℕ}
    (h : k * cfg.chunkSamples ≤ signal.length) :
    (stateOf cfg D finalized signal k).availableEnd = signal.length := by
  show k * cfg.chunkSamples - cfg.keepSamples +
    (signal.drop (k * cfg.chunkSamples - cfg.keepSamples)).length = signal.length
  rw [List.length_drop]
  omega

theorem length_ring_stateOf (finalized : Bool) (signal : List α) (k : ℕ) :
    (stateOf cfg D finalized signal k).ring.length =
      signal.length - (k * cfg.chunkSamples - cfg.keepSamples) :=
  List.length_drop

/-- The window of a process is read from the ring. -/
theorem processChunk_eq {s : SortformerStreamSession σ α K} {windowStart windowEnd emitEnd : ℕ}
    (isFinal : Bool) (signal : List α) (hopen : s.cancelled = false)
    (hne : windowStart < windowEnd) (horigin : s.ringOriginSample ≤ windowStart)
    (hend : windowEnd ≤ s.availableEnd) (hring : s.ring = signal.drop s.ringOriginSample) :
    s.processChunk cfg D windowStart windowEnd emitEnd isFinal =
      let window : ChunkWindow α :=
        { chunkIndex := s.chunkIndex
          windowStart := windowStart
          windowEnd := windowEnd
          emitStart := s.emittedSamples
          emitEnd := emitEnd
          isFinal := isFinal
          samples := (signal.drop windowStart).take (windowEnd - windowStart) }
      let after := hear cfg D (s.memory, s.segments) window
      .ok { s with
        memory := after.1
        segments := after.2
        windows := s.windows ++ [window]
        emittedSamples := emitEnd
        chunkIndex := s.chunkIndex + 1 } := by
  rw [processChunk, if_neg (by rw [hopen]; exact Bool.false_ne_true), if_neg (by omega),
    if_neg (by omega), hring, List.drop_drop, show s.ringOriginSample +
      (windowStart - s.ringOriginSample) = windowStart by omega]
  rfl

omit [IntCast K] [Add K] [Sub K] [Div K] [Max K] [Min K] [LE K] [DecidableLE K] [LT K]
  [DecidableLT K] in
/-- What is trimmed from the ring is not needed later. -/
theorem trim_eq {s : SortformerStreamSession σ α K} {keepFrom : ℕ} (signal : List α)
    (hring : s.ring = signal.drop s.ringOriginSample) (hend : keepFrom ≤ s.availableEnd) :
    s.trim keepFrom = .ok { s with
      ring := signal.drop (max s.ringOriginSample keepFrom)
      ringOriginSample := max s.ringOriginSample keepFrom } := by
  have hle : s.ringOriginSample ≤ s.availableEnd := Nat.le_add_right _ _
  rw [trim]
  split_ifs with hlt hout
  · omega
  · rw [hring, List.drop_drop, show s.ringOriginSample +
      (max s.ringOriginSample keepFrom - s.ringOriginSample) =
        max s.ringOriginSample keepFrom by omega]
  · rw [show max s.ringOriginSample keepFrom = s.ringOriginSample by omega, ← hring]

/-- A chunk with its right context is emitted. -/
theorem emitChunk_stateOf (hv : cfg.Valid) (finalized : Bool) {signal : List α} {k : ℕ}
    (h : (k + 1) * cfg.chunkSamples + cfg.lookahead ≤ signal.length) :
    (stateOf cfg D finalized signal k).emitChunk cfg D =
      .ok (stateOf cfg D finalized signal (k + 1)) := by
  have hpos := hv.chunk_pos
  have hle := hv.chunk_le
  have hsucc : (k + 1) * cfg.chunkSamples = k * cfg.chunkSamples + cfg.chunkSamples :=
    Nat.succ_mul ..
  have havail : (stateOf cfg D finalized signal k).availableEnd = signal.length :=
    availableEnd_stateOf finalized (by omega)
  have hstart : (if cfg.cacheActive = true then max (k * cfg.chunkSamples - cfg.keepSamples)
        (k * cfg.chunkSamples - cfg.chunkLeftContextSamples)
      else max (k * cfg.chunkSamples - cfg.keepSamples)
        ((k + 1) * cfg.chunkSamples + cfg.lookahead - cfg.historySamples)) =
      cfg.chunkStart k := by
    rw [chunkStart, keepSamples, lookahead]
    split_ifs <;> omega
  have hend : (if cfg.cacheActive = true then
      (k + 1) * cfg.chunkSamples + cfg.chunkRightContextSamples
      else (k + 1) * cfg.chunkSamples) = (k + 1) * cfg.chunkSamples + cfg.lookahead := by
    rw [lookahead]
    split_ifs <;> rfl
  have hkeep : (if cfg.cacheActive = true then
      (k + 1) * cfg.chunkSamples - cfg.chunkLeftContextSamples
      else (k + 1) * cfg.chunkSamples - cfg.historySamples) =
        (k + 1) * cfg.chunkSamples - cfg.keepSamples := by
    rw [keepSamples]
    split_ifs <;> rfl
  have horigin : k * cfg.chunkSamples - cfg.keepSamples ≤ cfg.chunkStart k := by
    rw [← hstart]
    split_ifs <;> exact Nat.le_max_left _ _
  have hne : cfg.chunkStart k < (k + 1) * cfg.chunkSamples + cfg.lookahead :=
    Nat.lt_of_lt_of_le (chunkStart_lt hv k) (Nat.le_add_right _ _)
  rw [emitChunk]
  simp only [show (stateOf cfg D finalized signal k).emittedSamples = k * cfg.chunkSamples from rfl,
    show (stateOf cfg D finalized signal k).ringOriginSample =
      k * cfg.chunkSamples - cfg.keepSamples from rfl, ← hsucc, hend, hstart, hkeep]
  rw [processChunk_eq false signal rfl hne horigin (by omega) rfl]
  simp only
  rw [trim_eq signal rfl (by
    show (k + 1) * cfg.chunkSamples - cfg.keepSamples ≤
      (stateOf cfg D finalized signal k).availableEnd
    omega)]
  have hmax : max (k * cfg.chunkSamples - cfg.keepSamples)
      ((k + 1) * cfg.chunkSamples - cfg.keepSamples) =
        (k + 1) * cfg.chunkSamples - cfg.keepSamples := by omega
  simp only [stateOf, hmax, heard_concat, chunkWindows_succ]
  rfl

theorem ready_stateOf (finalized : Bool) {signal : List α} {k : ℕ}
    (h : k * cfg.chunkSamples ≤ signal.length) :
    Ready cfg (stateOf cfg D finalized signal k) ↔
      (k + 1) * cfg.chunkSamples + cfg.lookahead ≤ signal.length := by
  rw [Ready, availableEnd_stateOf finalized h, lookahead, Nat.succ_mul]
  show k * cfg.chunkSamples + cfg.chunkSamples ≤ signal.length ∧ _ ↔ _
  simp only [show (stateOf cfg D finalized signal k).emittedSamples = k * cfg.chunkSamples from rfl]
  split_ifs with hactive
  · simp only [hactive, true_imp_iff]
    omega
  · simp [hactive]

/-- **A run of the loop** emits the chunks that are there. -/
theorem tryEmitChunks_stateOf (hv : cfg.Valid) (finalized : Bool) {signal : List α} {k : ℕ}
    (h : k ≤ cfg.chunkCount signal.length) :
    (stateOf cfg D finalized signal k).tryEmitChunks cfg D =
      .ok (stateOf cfg D finalized signal (cfg.chunkCount signal.length)) := by
  induction hd : cfg.chunkCount signal.length - k generalizing k with
  | zero =>
    obtain rfl : k = cfg.chunkCount signal.length := by omega
    have hnot : ¬Ready cfg (stateOf cfg D finalized signal (cfg.chunkCount signal.length)) := by
      rw [ready_stateOf finalized (SortformerConfig.chunkCount_mul_le _), ← lt_chunkCount_iff hv]
      exact lt_irrefl _
    rw [tryEmitChunks, if_neg (by exact Bool.false_ne_true), if_neg hnot]
  | succ d ih =>
    have hlt : k < cfg.chunkCount signal.length := by omega
    have hroom := (lt_chunkCount_iff hv).1 hlt
    have hpos := hv.chunk_pos
    have hsucc : (k + 1) * cfg.chunkSamples = k * cfg.chunkSamples + cfg.chunkSamples :=
      Nat.succ_mul ..
    have hready := (ready_stateOf (D := D) finalized (by omega)).2 hroom
    rw [tryEmitChunks, if_neg (by exact Bool.false_ne_true), if_pos hready,
      emitChunk_stateOf hv finalized hroom]
    have hmeasure : (stateOf cfg D finalized signal (k + 1)).availableEnd -
        (stateOf cfg D finalized signal (k + 1)).emittedSamples <
          (stateOf cfg D finalized signal k).availableEnd -
            (stateOf cfg D finalized signal k).emittedSamples := by
      rw [availableEnd_stateOf finalized (by omega), availableEnd_stateOf finalized (by omega)]
      show signal.length - (k + 1) * cfg.chunkSamples < signal.length - k * cfg.chunkSamples
      omega
    simp only
    rw [if_pos hmeasure]
    exact ih (by omega) (by omega)

/-! ### Feeds -/

/-- Samples arrive. -/
theorem stateOf_append (hv : cfg.Valid) (finalized : Bool) (signal more : List α) :
    { stateOf cfg D finalized signal (cfg.chunkCount signal.length) with
      ring := (stateOf cfg D finalized signal (cfg.chunkCount signal.length)).ring ++ more } =
      stateOf cfg D finalized (signal ++ more) (cfg.chunkCount signal.length) := by
  have hle : cfg.chunkCount signal.length * cfg.chunkSamples ≤ signal.length :=
    SortformerConfig.chunkCount_mul_le _
  simp only [stateOf, chunkWindows_append hv more (le_refl (cfg.chunkCount signal.length))]
  rw [List.drop_append_of_le_length (by omega)]

theorem feed_stateOf (hv : cfg.Valid) (signal samples : List α) :
    (stateOf cfg D false signal (cfg.chunkCount signal.length)).feed cfg D samples =
      .ok (stateOf cfg D false (signal ++ samples) (cfg.chunkCount (signal ++ samples).length)) := by
  rw [feed, if_neg (by exact Bool.false_ne_true), if_neg (by exact Bool.false_ne_true)]
  split_ifs with hnil
  · rw [hnil, List.append_nil]
  · rw [stateOf_append hv]
    refine tryEmitChunks_stateOf hv false (SortformerConfig.chunkCount_mono ?_)
    rw [List.length_append]
    omega

/-- **The state after the feeds** depends on the signal only. -/
theorem feeds_eq (hv : cfg.Valid) (samples : List (List α)) :
    feeds cfg D samples =
      .ok (stateOf cfg D false samples.flatten (cfg.chunkCount samples.flatten.length)) := by
  have hstart : start D = stateOf cfg D false [] (cfg.chunkCount 0) := by
    rw [show cfg.chunkCount 0 = 0 by rw [SortformerConfig.chunkCount, Nat.zero_sub, Nat.zero_div]]
    simp [stateOf, start, chunkWindows, heard]
  have hrun : ∀ (signal : List α) (samples : List (List α)),
      samples.foldlM (feed cfg D) (stateOf cfg D false signal (cfg.chunkCount signal.length)) =
        .ok (stateOf cfg D false (signal ++ samples.flatten)
          (cfg.chunkCount (signal ++ samples.flatten).length)) := by
    intro signal samples
    induction samples generalizing signal with
    | nil =>
      rw [List.flatten_nil, List.append_nil]
      rfl
    | cons first rest ih =>
      rw [List.foldlM_cons, feed_stateOf hv]
      show rest.foldlM (feed cfg D) _ = _
      rw [ih, List.flatten_cons, List.append_assoc]
  rw [feeds, hstart]
  exact hrun [] samples

/-! ### The end -/

/-- What `finalize` leaves. -/
theorem drain_stateOf (hv : cfg.Valid) (signal : List α) :
    (stateOf cfg D true signal (cfg.chunkCount signal.length)).drain cfg D =
      .ok (finalStateOf cfg D signal) := by
  have hle : cfg.chunkCount signal.length * cfg.chunkSamples ≤ signal.length :=
    SortformerConfig.chunkCount_mul_le _
  have hpos := hv.chunk_pos
  have hhistory := hv.chunk_le
  have havail : (stateOf cfg D true signal (cfg.chunkCount signal.length)).availableEnd =
      signal.length := availableEnd_stateOf true hle
  rw [drain, havail]
  simp only [show (stateOf cfg D true signal (cfg.chunkCount signal.length)).emittedSamples =
      cfg.chunkCount signal.length * cfg.chunkSamples from rfl,
    show (stateOf cfg D true signal (cfg.chunkCount signal.length)).ringOriginSample =
      cfg.chunkCount signal.length * cfg.chunkSamples - cfg.keepSamples from rfl,
    finalStateOf, windowsOf]
  by_cases htail : cfg.chunkCount signal.length * cfg.chunkSamples < signal.length
  · have hstart : (if cfg.cacheActive = true then
          max (cfg.chunkCount signal.length * cfg.chunkSamples - cfg.keepSamples)
            (cfg.chunkCount signal.length * cfg.chunkSamples - cfg.chunkLeftContextSamples)
        else max (cfg.chunkCount signal.length * cfg.chunkSamples - cfg.keepSamples)
          (signal.length - cfg.historySamples)) = cfg.tailStart signal.length := by
      rw [tailStart, keepSamples]
      split_ifs <;> omega
    have hne : cfg.tailStart signal.length < signal.length := by
      rw [tailStart]
      split_ifs <;> omega
    have horigin : cfg.chunkCount signal.length * cfg.chunkSamples - cfg.keepSamples ≤
        cfg.tailStart signal.length := by
      rw [← hstart]
      split_ifs <;> exact Nat.le_max_left _ _
    rw [if_pos htail, if_pos htail, if_pos htail, hstart,
      processChunk_eq true signal rfl hne horigin havail.ge rfl, heard_concat]
    rfl
  · rw [if_neg htail, if_neg htail]
    rfl

/-- **The state at the end** depends on the signal only. -/
theorem run_eq (hv : cfg.Valid) (samples : List (List α)) :
    run cfg D samples = .ok (finalStateOf cfg D samples.flatten) := by
  rw [run, feeds_eq hv]
  show (stateOf cfg D false samples.flatten _).finalize cfg D = _
  rw [SortformerStreamSession.finalize, if_neg (by exact Bool.false_ne_true)]
  rw [show { stateOf cfg D false samples.flatten (cfg.chunkCount samples.flatten.length) with
      finalized := true } =
    stateOf cfg D true samples.flatten (cfg.chunkCount samples.flatten.length) from rfl,
    tryEmitChunks_stateOf hv true (le_refl _)]
  exact drain_stateOf hv _

theorem windows_finalStateOf (signal : List α) :
    (finalStateOf cfg D signal).windows = windowsOf cfg signal := by
  rw [finalStateOf, windowsOf]
  split_ifs with htail
  · rfl
  · exact (List.append_nil _).symm

/-! ### The windows tile the signal -/

omit [IntCast K] [Add K] [Sub K] [Div K] [Max K] [Min K] [LE K] [DecidableLE K] [LT K]
  [DecidableLT K] in
theorem tiles_windowsOf (signal : List α) :
    Tiles 0 signal.length ((windowsOf cfg signal).map ChunkWindow.emits) := by
  have hle : cfg.chunkCount signal.length * cfg.chunkSamples ≤ signal.length :=
    SortformerConfig.chunkCount_mul_le _
  have hchunks : Tiles 0 (cfg.chunkCount signal.length * cfg.chunkSamples : ℕ)
      ((chunkWindows cfg signal (cfg.chunkCount signal.length)).map ChunkWindow.emits) := by
    have htiles := (Stretch.tiles_range' (fun i => ((i * cfg.chunkSamples : ℕ) : ℤ)) 0
      (cfg.chunkCount signal.length)).2 fun i _ _ => by
        rw [Nat.succ_mul]
        omega
    rw [Nat.zero_mul, Nat.zero_add, ← List.range_eq_range'] at htiles
    rw [chunkWindows, List.map_map]
    exact htiles
  rw [windowsOf]
  split_ifs with htail
  · rw [List.map_append, List.map_singleton, Stretch.tiles_concat_iff]
    refine ⟨_, hchunks, rfl, ?_, rfl⟩
    show ((cfg.chunkCount signal.length * cfg.chunkSamples : ℕ) : ℤ) ≤ signal.length
    omega
  · rw [List.append_nil]
    rwa [show cfg.chunkCount signal.length * cfg.chunkSamples = signal.length by omega] at hchunks

omit [IntCast K] [Add K] [Sub K] [Div K] [Max K] [Min K] [LE K] [DecidableLE K] [LT K]
  [DecidableLT K] in
/-- A window is a stretch of the signal around what it emits. -/
theorem mem_windowsOf (hv : cfg.Valid) {signal : List α} {w : ChunkWindow α}
    (hw : w ∈ windowsOf cfg signal) :
    w.windowStart ≤ w.emitStart ∧ w.emitEnd ≤ w.windowEnd ∧ w.windowEnd ≤ signal.length ∧
      w.samples = (signal.drop w.windowStart).take (w.windowEnd - w.windowStart) := by
  have hle := hv.chunk_le
  rw [windowsOf] at hw
  rcases List.mem_append.1 hw with hw | hw
  · obtain ⟨k, hk, rfl⟩ := List.mem_map.1 hw
    have hroom := (lt_chunkCount_iff hv).1 (List.mem_range.1 hk)
    refine ⟨?_, Nat.le_add_right _ _, hroom, rfl⟩
    show cfg.chunkStart k ≤ k * cfg.chunkSamples
    rw [chunkStart, Nat.succ_mul]
    split_ifs <;> omega
  · split_ifs at hw with htail
    · obtain rfl := List.mem_singleton.1 hw
      have hlt := lt_chunkCount_mul hv signal.length
      refine ⟨?_, le_refl _, le_refl _, rfl⟩
      show cfg.tailStart signal.length ≤ cfg.chunkCount signal.length * cfg.chunkSamples
      rw [tailStart]
      rw [lookahead] at hlt
      split_ifs at hlt ⊢ <;> omega
    · cases hw

/-- **The windows of a session** depend on the signal only. All of them are read from the ring, and
what they emit tiles the signal. After every feed the ring holds less than what is kept for the next
chunk, a chunk and its right context. -/
theorem run_windows {m : SortformerModel} {opts : SortformerStreamingOptions}
    (h : diarizeStart m opts = .ok cfg) (D : Diarizer σ α K) (samples : List (List α)) :
    (∃ s, run cfg D samples = .ok s ∧ s.windows = windowsOf cfg samples.flatten ∧
      Tiles 0 samples.flatten.length (s.windows.map ChunkWindow.emits) ∧
      ∀ w ∈ s.windows, w.windowStart ≤ w.emitStart ∧ w.emitEnd ≤ w.windowEnd ∧
        w.windowEnd ≤ samples.flatten.length ∧
        w.samples = (samples.flatten.drop w.windowStart).take (w.windowEnd - w.windowStart)) ∧
    ∀ j, ∃ s, feeds cfg D (samples.take j) = .ok s ∧
      s.ring.length < cfg.keepSamples + cfg.chunkSamples + cfg.lookahead := by
  have hv := valid_of_diarizeStart h
  constructor
  · refine ⟨_, run_eq hv samples, windows_finalStateOf _, ?_, ?_⟩
    · rw [windows_finalStateOf]
      exact tiles_windowsOf _
    · rw [windows_finalStateOf]
      exact fun w hw => mem_windowsOf hv hw
  · intro j
    refine ⟨_, feeds_eq hv (samples.take j), ?_⟩
    have hpos := hv.chunk_pos
    have hlt := lt_chunkCount_mul hv (samples.take j).flatten.length
    rw [length_ring_stateOf]
    omega

end State

/-! ### A left context that is longer than the history -/

/-- A model with a speaker cache. -/
def sortformer16k : SortformerModel where
  frames := { frames16k with isSortformer := true }
  sortformerReady := true
  modelVariant := "sortformer-streaming-v2.1-aosc"
  nLayers := 17
  nMels := 128

/-- Chunks and history of a second, and ten seconds of left context. -/
def longLeft : SortformerStreamingOptions :=
  ⟨16000, 1000, 1000, 200, true, 10000, 0, by decide, by decide, by decide, by decide⟩

/-- Its lengths. -/
def longLeftCfg : SortformerConfig := ⟨16000, 200, 16000, 16000, true, 160000, 0, 125, 0⟩

theorem diarizeStart_longLeft : diarizeStart sortformer16k longLeft = .ok longLeftCfg := by decide

/-- Nobody speaks. -/
def silence : Diarizer Unit ℚ ℚ := ⟨fun _ _ => ([], ()), ()⟩

theorem run_windows_longLeft :
    (∃ s, SortformerStreamSession.run longLeftCfg silence [[1], [], [2, 3]] = .ok s ∧
      s.windows = windowsOf longLeftCfg [1, 2, 3] ∧
      Tiles 0 ([[1], [], [2, 3]] : List (List ℚ)).flatten.length
        (s.windows.map ChunkWindow.emits) ∧
      ∀ w ∈ s.windows, w.windowStart ≤ w.emitStart ∧ w.emitEnd ≤ w.windowEnd ∧
        w.windowEnd ≤ ([[1], [], [2, 3]] : List (List ℚ)).flatten.length ∧
        w.samples = (([[1], [], [2, 3]] : List (List ℚ)).flatten.drop w.windowStart).take
          (w.windowEnd - w.windowStart)) ∧
    ∀ j, ∃ s, SortformerStreamSession.feeds longLeftCfg silence ([[1], [], [2, 3]].take j) = .ok s ∧
      s.ring.length <
        longLeftCfg.keepSamples + longLeftCfg.chunkSamples + longLeftCfg.lookahead :=
  run_windows diarizeStart_longLeft silence [[1], [], [2, 3]]

/-- With the speaker cache it is the left context that stays in the ring, however short the history
is. -/
theorem not_forall_ring_le_history :
    ¬∀ (m : SortformerModel) (opts : SortformerStreamingOptions) (cfg : SortformerConfig),
      diarizeStart m opts = .ok cfg → ∀ (D : Diarizer Unit ℚ ℚ) (samples : List (List ℚ))
        (last : List ℚ) (s : SortformerStreamSession Unit ℚ ℚ),
        SortformerStreamSession.feeds cfg D (samples ++ [last]) = .ok s →
          s.ring.length ≤ cfg.historySamples + cfg.chunkSamples + cfg.chunkRightContextSamples +
            last.length := by
  intro hall
  have hv := SortformerConfig.valid_of_diarizeStart diarizeStart_longLeft
  -- twenty seconds, and then one sample
  obtain ⟨signal, hsignal⟩ : ∃ signal : List ℚ, signal.length = 320000 :=
    ⟨List.replicate 320000 0, List.length_replicate⟩
  have hfeeds := feeds_eq (D := silence) hv ([signal] ++ [[0]])
  have hlen : ([signal] ++ [[0]]).flatten.length = 320001 := by
    rw [List.flatten_append, List.length_append, List.flatten_singleton, List.flatten_singleton,
      hsignal]
    rfl
  have hle := hall sortformer16k longLeft longLeftCfg diarizeStart_longLeft silence [signal] [0] _
    hfeeds
  rw [length_ring_stateOf, hlen] at hle
  revert hle
  decide

end Parakeet

end WhisperCpp
