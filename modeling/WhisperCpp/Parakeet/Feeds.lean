import WhisperCpp.Parakeet.Session

/-!
# A signal cut into feeds

How a signal is cut into feeds makes no difference to the segments of a session, as long as the samples
that wait can be counted by an `int`. The loop over the chunks decides by such a count; without it, a
chunk is emitted as soon as it is there, and what arrives later does not change it.

## Main definitions

* `emitAll` — the loop over the chunks, with the count as it is
* `FeedsFit` — no feed makes the count overflow

## Main results

* `emitAll_grow` — samples can arrive before or after a run of the loop
* `run_feeds` — the state after the feeds
* `segments_eq_of_feedsFit` — the segments depend on the signal only
-/

namespace WhisperCpp

namespace Parakeet

namespace Session

section General

variable {σ E α K : Type*} {M : StreamEngine σ E α} {s : Session K M}

/-- Samples arrive. -/
def grow (s : Session K M) (samples : List α) : Session K M :=
  { s with pending := s.pending ++ samples }

@[simp] theorem grow_pending (samples : List α) :
    (s.grow samples).pending = s.pending ++ samples := rfl

@[simp] theorem grow_cancelled (samples : List α) : (s.grow samples).cancelled = s.cancelled := rfl

@[simp] theorem grow_finalized (samples : List α) : (s.grow samples).finalized = s.finalized := rfl

@[simp] theorem grow_leftHistory (samples : List α) :
    (s.grow samples).leftHistory = s.leftHistory := rfl

theorem grow_nil : s.grow [] = s := by
  rw [grow, List.append_nil]

theorem grow_grow (a b : List α) : (s.grow a).grow b = s.grow (a ++ b) := by
  rw [grow, grow, grow, List.append_assoc]

variable [IntCast K] [Div K] (sampleRate : ℤ) (cfg : StreamConfig)

/-- `try_emit_chunks` without the cast. -/
def emitAll (hpos : 0 < cfg.chunkSamples) (s : Session K M) : Session K M :=
  if s.cancelled = false ∧ cfg.chunkSamples + cfg.rightLookaheadSamples ≤ s.pending.length then
    emitAll hpos (s.emitChunk sampleRate cfg)
  else s
termination_by s.pending.length
decreasing_by
  rw [emitChunk_pending, List.length_drop]
  omega

variable {sampleRate cfg} {hpos : 0 < cfg.chunkSamples}

theorem tryEmitChunks_eq (h : s.pending.length < 2147483648) :
    s.tryEmitChunks sampleRate cfg hpos = s.emitAll sampleRate cfg hpos := by
  fun_induction emitAll sampleRate cfg hpos s with
  | case1 s hready ih =>
    rw [tryEmitChunks, castInt_of_lt h, if_pos ⟨hready.1, Int.ofNat_le.2 hready.2⟩]
    refine ih ?_
    rw [emitChunk_pending, List.length_drop]
    omega
  | case2 s hready =>
    rw [tryEmitChunks, castInt_of_lt h, if_neg]
    rintro ⟨hopen, hle⟩
    exact hready ⟨hopen, Int.ofNat_le.1 hle⟩

theorem processWindow_grow (samples window : List α) (n i j : ℤ) (b : Bool) :
    (s.grow samples).processWindow sampleRate window n i j b =
      (s.processWindow sampleRate window n i j b).grow samples := by
  rw [processWindow, processWindow, grow_cancelled]
  by_cases hcancelled : s.cancelled = true
  · rw [if_pos hcancelled, if_pos hcancelled]
  · rw [if_neg hcancelled, if_neg hcancelled]
    by_cases hn : n ≤ 0
    · rw [if_pos hn, if_pos hn]
    · rw [if_neg hn, if_neg hn]
      rfl

/-- A chunk that is there is emitted alike, whatever is behind it. -/
theorem emitChunk_grow (samples : List α)
    (hready : cfg.chunkSamples + cfg.rightLookaheadSamples ≤ s.pending.length) :
    (s.grow samples).emitChunk sampleRate cfg = (s.emitChunk sampleRate cfg).grow samples := by
  have hchunk : cfg.chunkSamples ≤ s.pending.length := by omega
  rw [emitChunk, emitChunk]
  simp only [processWindow_grow, grow_pending, processWindow_pending,
    List.take_append_of_le_length hready, List.take_append_of_le_length hchunk,
    List.drop_append_of_le_length hchunk, grow_leftHistory, processWindow_leftHistory]
  rw [grow, grow]

/-- Samples can arrive before or after a run of the loop. -/
theorem emitAll_grow (samples : List α) :
    (s.grow samples).emitAll sampleRate cfg hpos =
      ((s.emitAll sampleRate cfg hpos).grow samples).emitAll sampleRate cfg hpos := by
  fun_induction emitAll sampleRate cfg hpos s with
  | case1 s hready ih =>
    have hgrown : cfg.chunkSamples + cfg.rightLookaheadSamples ≤
        (s.grow samples).pending.length := by
      rw [grow_pending, List.length_append]
      omega
    rw [emitAll, if_pos ⟨hready.1, hgrown⟩, emitChunk_grow samples hready.2]
    exact ih
  | case2 s hready => rfl

/-! ### The state after a feed -/

variable (cfg) in
/-- The samples that wait are fewer than a window needs, and the left history has at most its size. -/
structure Bounded (s : Session K M) : Prop where
  pending : s.pending.length < cfg.chunkSamples + cfg.rightLookaheadSamples
  leftHistory : s.leftHistory.length ≤ cfg.leftContextSamples

variable (cfg) in
/-- The session goes on. -/
structure Open (s : Session K M) : Prop where
  cancelled : s.cancelled = false
  finalized : s.finalized = false

theorem Open.emitAll (h : Open s) : Open (s.emitAll sampleRate cfg hpos) := by
  fun_induction Session.emitAll sampleRate cfg hpos s with
  | case1 s hready ih =>
    refine ih ⟨?_, ?_⟩
    · rw [emitChunk_cancelled, h.cancelled]
    · rw [emitChunk_finalized, h.finalized]
  | case2 s hready => exact h

theorem pending_emitAll_lt (h : s.cancelled = false) :
    (s.emitAll sampleRate cfg hpos).pending.length <
      cfg.chunkSamples + cfg.rightLookaheadSamples := by
  fun_induction emitAll sampleRate cfg hpos s with
  | case1 s hready ih =>
    refine ih ?_
    rw [emitChunk_cancelled, h]
  | case2 s hready => exact not_le.1 fun hle => hready ⟨h, hle⟩

theorem leftHistory_emitAll_le (hint : cfg.leftContextSamples + cfg.chunkSamples < 2147483648)
    (h : s.leftHistory.length ≤ cfg.leftContextSamples) :
    (s.emitAll sampleRate cfg hpos).leftHistory.length ≤ cfg.leftContextSamples := by
  fun_induction emitAll sampleRate cfg hpos s with
  | case1 s hready ih =>
    refine ih ?_
    have hlen : (s.leftHistory ++ s.pending.take cfg.chunkSamples).length < 2147483648 := by
      rw [List.length_append, List.length_take]
      omega
    rw [emitChunk_leftHistory]
    dsimp only
    rw [castInt_of_lt hlen]
    split_ifs with hlong
    · rw [List.length_drop]
      omega
    · omega
  | case2 s hready => exact h

theorem emitAll_of_pending_lt
    (h : s.pending.length < cfg.chunkSamples + cfg.rightLookaheadSamples) :
    s.emitAll sampleRate cfg hpos = s := by
  rw [emitAll, if_neg]
  exact fun hready => absurd hready.2 (not_le.2 h)

/-- A feed whose samples can be counted. -/
theorem step_feed (hopen : Open s) (hb : Bounded cfg s) {f : Feed α}
    (hfit : s.pending.length + (f.samples M).length < 2147483648) :
    s.step sampleRate cfg hpos (.feed f) = (s.grow (f.samples M)).emitAll sampleRate cfg hpos := by
  have hlen : (s.grow (f.samples M)).pending.length < 2147483648 := by
    rw [grow_pending, List.length_append]
    exact hfit
  rw [← tryEmitChunks_eq hlen]
  -- an empty feed returns at once
  have hempty : f.samples M = [] → (s.grow (f.samples M)).tryEmitChunks sampleRate cfg hpos = s := by
    intro hnil
    rw [tryEmitChunks_eq hlen, hnil, grow_nil, emitAll_of_pending_lt hb.pending]
  have hfinalized : ¬s.finalized = true := by
    rw [hopen.finalized]
    exact Bool.false_ne_true
  have hcancelled : ¬s.cancelled = true := by
    rw [hopen.cancelled]
    exact Bool.false_ne_true
  cases f with
  | f32 samples =>
    rw [step, feed, feedPcmF32, if_neg hfinalized, if_neg hcancelled]
    split_ifs with hnil
    · exact (hempty hnil).symm
    · rfl
  | i16 samples =>
    rw [step, feed, feedPcmI16, if_neg hfinalized, if_neg hcancelled]
    split_ifs with hnil
    · refine (hempty ?_).symm
      rw [Feed.samples, hnil, List.map_nil]
    · rfl

variable (sampleRate cfg hpos) in
/-- Each feed can be counted together with the samples that wait before it. -/
def FeedsFit : Session K M → List (Feed α) → Prop
  | _, [] => True
  | s, f :: feeds =>
    s.pending.length + (f.samples M).length < 2147483648 ∧
      FeedsFit (s.step sampleRate cfg hpos (.feed f)) feeds

/-- The state after the feeds: all samples arrive, and then the chunks are emitted. -/
theorem run_feeds (hint : cfg.leftContextSamples + cfg.chunkSamples < 2147483648)
    (hopen : Open s) (hb : Bounded cfg s) {feeds : List (Feed α)}
    (hfit : FeedsFit sampleRate cfg hpos s feeds) :
    s.run sampleRate cfg hpos (feeds.map .feed) =
        (s.grow (feeds.flatMap (Feed.samples M))).emitAll sampleRate cfg hpos ∧
      Open (s.run sampleRate cfg hpos (feeds.map .feed)) ∧
      Bounded cfg (s.run sampleRate cfg hpos (feeds.map .feed)) := by
  induction feeds generalizing s with
  | nil =>
    rw [List.flatMap_nil, grow_nil, emitAll_of_pending_lt hb.pending]
    exact ⟨rfl, hopen, hb⟩
  | cons f feeds ih =>
    obtain ⟨hfirst, hrest⟩ := hfit
    have hstep : s.step sampleRate cfg hpos (.feed f) =
        (s.grow (f.samples M)).emitAll sampleRate cfg hpos := step_feed hopen hb hfirst
    have hopen' : Open (s.step sampleRate cfg hpos (.feed f)) := by
      rw [hstep]
      exact Open.emitAll ⟨hopen.cancelled, hopen.finalized⟩
    have hb' : Bounded cfg (s.step sampleRate cfg hpos (.feed f)) := by
      rw [hstep]
      exact ⟨pending_emitAll_lt hopen.cancelled, leftHistory_emitAll_le hint hb.leftHistory⟩
    obtain ⟨hrun, hopen'', hb''⟩ := ih hopen' hb' hrest
    refine ⟨?_, hopen'', hb''⟩
    rw [run, List.map_cons, List.foldl_cons, ← run, hrun, hstep, List.flatMap_cons,
      ← grow_grow, emitAll_grow (s := s.grow (f.samples M))]

/-! ### Two ways to cut a signal -/

/-- Feeds that are short enough for every state. -/
theorem feedsFit_of_le (hopen : Open s) (hb : Bounded cfg s) {feeds : List (Feed α)}
    (h : ∀ f ∈ feeds, (f.samples M).length + cfg.chunkSamples + cfg.rightLookaheadSamples ≤
      2147483648)
    (hint : cfg.leftContextSamples + cfg.chunkSamples < 2147483648) :
    FeedsFit sampleRate cfg hpos s feeds := by
  induction feeds generalizing s with
  | nil => trivial
  | cons f feeds ih =>
    have hpending := hb.pending
    have hle := h f List.mem_cons_self
    have hfit : s.pending.length + (f.samples M).length < 2147483648 := by omega
    refine ⟨hfit, ih ?_ ?_ fun g hg => h g (List.mem_cons_of_mem _ hg)⟩
    · rw [step_feed hopen hb hfit]
      exact Open.emitAll ⟨hopen.cancelled, hopen.finalized⟩
    · rw [step_feed hopen hb hfit]
      exact ⟨pending_emitAll_lt hopen.cancelled, leftHistory_emitAll_le hint hb.leftHistory⟩

theorem FeedsFit.take {feeds : List (Feed α)} (h : FeedsFit sampleRate cfg hpos s feeds) (k : ℕ) :
    FeedsFit sampleRate cfg hpos s (feeds.take k) := by
  induction feeds generalizing s k with
  | nil => simpa using h
  | cons f feeds ih =>
    cases k with
    | zero => trivial
    | succ k => exact ⟨h.1, ih h.2 k⟩

omit [IntCast K] [Div K] in
theorem open_start : Open (start K M) := ⟨rfl, rfl⟩

omit [IntCast K] [Div K] in
theorem bounded_start (hpos : 0 < cfg.chunkSamples) : Bounded cfg (start K M) :=
  ⟨Nat.lt_of_lt_of_le hpos (Nat.le_add_right _ _), Nat.zero_le _⟩

variable (K M sampleRate cfg hpos) in
/-- What a session delivers for a signal in feeds. -/
def delivered (feeds : List (Feed α)) : List (StreamingSegment K) :=
  ((start K M).run sampleRate cfg hpos (feeds.map .feed ++ [.finalize])).segments

theorem delivered_eq (feeds : List (Feed α)) :
    delivered K M sampleRate cfg hpos feeds =
      (((start K M).run sampleRate cfg hpos (feeds.map .feed)).finalize
        sampleRate cfg hpos).segments := by
  rw [delivered, run, List.foldl_append]
  rfl

/-- No length of an accepted stream is near the end of an `int`. -/
theorem samplesOf_le {sr ms : ℤ} (h : sr * ms < 2 ^ 31) : samplesOf sr ms ≤ 2147483 := by
  rw [samplesOf]
  rcases lt_or_ge (sr * ms) 0 with hneg | hnonneg
  · rw [← Int.neg_neg (sr * ms), Int.neg_tdiv, Int.tdiv_eq_ediv_of_nonneg (by omega)]
    omega
  · rw [Int.tdiv_eq_ediv_of_nonneg hnonneg]
    omega

theorem contextSamples_lt {m : EncoderFrames} {opts : StreamingOptions}
    (h : streamStart m opts = .ok cfg) (hint : opts.NoOverflow) :
    cfg.leftContextSamples + cfg.chunkSamples < 2147483648 := by
  rw [streamStart] at h
  split_ifs at h
  obtain rfl := Except.ok.inj h
  have hchunk := samplesOf_le hint.chunk
  have hleft := samplesOf_le hint.left
  simp only
  omega

/-- **The segments depend on the signal only**, and after every feed the buffers are in their bounds, if
the samples that wait can be counted by an `int`. -/
theorem delivered_eq_of_feedsFit {m : EncoderFrames} {opts : StreamingOptions}
    (h : streamStart m opts = .ok cfg) (hint : opts.NoOverflow) {feeds feeds' : List (Feed α)}
    (hsame : feeds.flatMap (Feed.samples M) = feeds'.flatMap (Feed.samples M))
    (hfit : FeedsFit opts.sampleRate cfg (chunkSamples_pos h) (start K M) feeds)
    (hfit' : FeedsFit opts.sampleRate cfg (chunkSamples_pos h) (start K M) feeds') :
    delivered K M opts.sampleRate cfg (chunkSamples_pos h) feeds =
        delivered K M opts.sampleRate cfg (chunkSamples_pos h) feeds' ∧
      ∀ k, Bounded cfg ((start K M).run opts.sampleRate cfg (chunkSamples_pos h)
        ((feeds.take k).map .feed)) := by
  have hctx := contextSamples_lt h hint
  have hb := bounded_start (K := K) (M := M) (chunkSamples_pos h)
  constructor
  · have hrun := (run_feeds hctx open_start hb hfit).1
    have hrun' := (run_feeds hctx open_start hb hfit').1
    rw [delivered_eq, delivered_eq, hrun, hrun', hsame]
  · intro k
    exact (run_feeds hctx open_start hb (hfit.take k)).2.2

/-! ### What is delivered stays delivered -/

theorem segments_prefix_processWindow (window : List α) (n i j : ℤ) (b : Bool) :
    s.segments <+: (s.processWindow sampleRate window n i j b).segments := by
  rw [processWindow]
  split_ifs
  · exact List.prefix_rfl
  · exact List.prefix_rfl
  · exact List.prefix_append _ _

theorem segments_prefix_emitChunk :
    s.segments <+: (s.emitChunk sampleRate cfg).segments := by
  rw [emitChunk]
  exact segments_prefix_processWindow ..

theorem segments_prefix_emitAll :
    s.segments <+: (s.emitAll sampleRate cfg hpos).segments := by
  fun_induction emitAll sampleRate cfg hpos s with
  | case1 s hready ih => exact segments_prefix_emitChunk.trans ih
  | case2 s hready => exact List.prefix_rfl

theorem segments_prefix_tryEmitChunks :
    s.segments <+: (s.tryEmitChunks sampleRate cfg hpos).segments := by
  fun_induction tryEmitChunks sampleRate cfg hpos s with
  | case1 s hready ih => exact segments_prefix_emitChunk.trans ih
  | case2 s hready => exact List.prefix_rfl

theorem segments_prefix_flushRemainder :
    s.segments <+: (s.flushRemainder sampleRate).segments := by
  rw [flushRemainder]
  split_ifs
  · exact List.prefix_rfl
  · exact List.prefix_rfl
  · exact segments_prefix_processWindow ..

theorem segments_prefix_finalize :
    s.segments <+: (s.finalize sampleRate cfg hpos).segments := by
  rw [finalize]
  split_ifs
  · exact List.prefix_rfl
  · exact (segments_prefix_tryEmitChunks (s := { s with finalized := true })).trans
      segments_prefix_flushRemainder

/-- A chunk that is there is heard. -/
theorem segments_emitChunk_ne_nil (hopen : s.cancelled = false)
    (hwindow : 0 < castInt (s.leftHistory ++
      s.pending.take (cfg.chunkSamples + cfg.rightLookaheadSamples)).length) :
    (s.emitChunk sampleRate cfg).segments ≠ [] := by
  rw [emitChunk]
  simp only [processWindow, hopen, Bool.false_eq_true, if_false, if_neg (not_le.2 hwindow)]
  exact List.append_ne_nil_of_right_ne_nil _ (List.cons_ne_nil _ _)

/-- The last window is not processed if its length is not positive as an `int`. -/
theorem segments_flushRemainder (h : castInt (s.leftHistory ++ s.pending).length ≤ 0) :
    (s.flushRemainder sampleRate).segments = s.segments := by
  rw [flushRemainder]
  split_ifs
  · rfl
  · rfl
  · simp only [processWindow, if_pos h, ite_self]

end General

/-! ### A feed that cannot be counted -/

/-- An engine that writes one token for each window. -/
def countingEngine : StreamEngine ℤ Unit ℚ where
  vocab := ⟨[], -1, -1, -1, -1⟩
  frameSamples := 1280
  ofInt16 := fun sample => sample.toInt / 32768
  encode := fun _ => ()
  nEncFrames := fun _ => 0
  decode := fun n _ _ _ => (([n], 0), n + 1)
  initState := 0

/-- A second of chunks, without any context. -/
def secondChunks : StreamingOptions := ⟨16000, 1000, 0, 0⟩

/-- Its lengths. -/
def secondCfg : StreamConfig := ⟨16000, 0, 0⟩

theorem secondCfg_pos : 0 < secondCfg.chunkSamples := by decide

theorem streamStart_secondChunks : streamStart frames16k secondChunks = .ok secondCfg := by
  decide

theorem noOverflow_secondChunks : secondChunks.NoOverflow := ⟨by decide, by decide, by decide⟩

theorem delivered_eq_of_feedsFit_pieces :
    delivered ℚ countingEngine 16000 secondCfg secondCfg_pos
        [.f32 ⟨[1], by decide⟩, .i16 ⟨[], by decide⟩, .f32 ⟨[2, 3], by decide⟩] =
      delivered ℚ countingEngine 16000 secondCfg secondCfg_pos [.f32 ⟨[1, 2, 3], by decide⟩] ∧
    ∀ k, Bounded secondCfg ((start ℚ countingEngine).run 16000 secondCfg secondCfg_pos
      (([.f32 ⟨[1], by decide⟩, .i16 ⟨[], by decide⟩, .f32 ⟨[2, 3], by decide⟩] :
        List (Feed ℚ)).take k |>.map .feed)) :=
  delivered_eq_of_feedsFit streamStart_secondChunks noOverflow_secondChunks rfl
    (feedsFit_of_le open_start (bounded_start (by decide)) (by decide) (by decide))
    (feedsFit_of_le open_start (bounded_start (by decide)) (by decide) (by decide))

/-- A feed that brings the samples that wait to `2 ^ 31` is not heard, and nothing is heard at the end
either. -/
theorem delivered_of_length {a b : List ℚ} (ha : a.length = 1) (hb : b.length = 2147483647) :
    delivered ℚ countingEngine 16000 secondCfg secondCfg_pos
      [.f32 ⟨a, by omega⟩, .f32 ⟨b, by omega⟩] = [] := by
  have hne : ∀ {l : List ℚ} {n : ℕ}, l.length = n + 1 → l ≠ [] := by
    rintro l n hlen rfl
    cases hlen
  have hfirst : (start ℚ countingEngine).step 16000 secondCfg secondCfg_pos
      (.feed (.f32 ⟨a, by omega⟩)) = (start ℚ countingEngine).grow a := by
    have hlt : ((start ℚ countingEngine).grow a).pending.length < 16000 + 0 := by
      rw [grow_pending, start, List.nil_append, ha]
      decide
    rw [step_feed open_start (bounded_start (by decide)) (by
      rw [start, Feed.samples, List.length_nil, ha]
      decide)]
    exact emitAll_of_pending_lt hlt
  have hlen : (a ++ b).length = 2147483648 := by
    rw [List.length_append, ha, hb]
  have hcast : castInt (a ++ b).length < 0 := castInt_of_ge hlen.ge (by omega)
  have hwait : ∀ s : Session ℚ countingEngine, s.pending = a ++ b →
      s.tryEmitChunks 16000 secondCfg secondCfg_pos = s := by
    intro s hs
    rw [tryEmitChunks, hs, if_neg]
    rintro ⟨-, hle⟩
    exact absurd (hle.trans_lt hcast) (by decide)
  have hsecond : ((start ℚ countingEngine).grow a).step 16000 secondCfg secondCfg_pos
      (.feed (.f32 ⟨b, by omega⟩)) = (start ℚ countingEngine).grow (a ++ b) := by
    rw [step, feed, feedPcmF32, if_neg (by exact Bool.false_ne_true),
      if_neg (by exact Bool.false_ne_true), if_neg (hne hb), ← grow, grow_grow, hwait _ rfl]
    rfl
  have hfinal : ({ (start ℚ countingEngine).grow (a ++ b) with finalized := true }.flushRemainder
      16000).segments = [] := by
    refine segments_flushRemainder ?_
    rw [grow_pending, grow_leftHistory, start, List.nil_append, List.nil_append]
    exact hcast.le
  rw [delivered_eq, run, List.map_cons, List.map_cons, List.map_nil, List.foldl_cons, hfirst,
    List.foldl_cons, hsecond, List.foldl_nil, finalize, if_neg (by exact Bool.false_ne_true),
    hwait _ rfl, hfinal]

/-- A signal that fills a chunk is heard. -/
theorem delivered_ne_nil {feeds : List (Feed ℚ)}
    (hlen : 16000 ≤ (feeds.flatMap (Feed.samples countingEngine)).length)
    (hfit : FeedsFit 16000 secondCfg secondCfg_pos (start ℚ countingEngine) feeds) :
    delivered ℚ countingEngine 16000 secondCfg secondCfg_pos feeds ≠ [] := by
  have hrun := (run_feeds (show 0 + 16000 < 2147483648 by decide) open_start (bounded_start (by decide))
    hfit).1
  have htake : ((start ℚ countingEngine).grow
      (feeds.flatMap (Feed.samples countingEngine))).leftHistory ++
        ((start ℚ countingEngine).grow (feeds.flatMap (Feed.samples countingEngine))).pending.take
          (secondCfg.chunkSamples + secondCfg.rightLookaheadSamples) =
        (feeds.flatMap (Feed.samples countingEngine)).take 16000 := rfl
  have hne : ((start ℚ countingEngine).run 16000 secondCfg secondCfg_pos
      (feeds.map .feed)).segments ≠ [] := by
    rw [hrun, emitAll, if_pos ⟨rfl, hlen⟩]
    refine List.IsPrefix.ne_nil segments_prefix_emitAll (segments_emitChunk_ne_nil rfl ?_)
    rw [htake, List.length_take, Nat.min_eq_left hlen, castInt_of_lt (by decide)]
    decide
  rw [delivered_eq]
  exact List.IsPrefix.ne_nil segments_prefix_finalize hne

/-- **The same samples are heard in one way to cut them, and not in another.** -/
theorem not_forall_delivered_eq :
    ¬ ∀ (m : EncoderFrames) (opts : StreamingOptions) (cfg : StreamConfig)
      (h : streamStart m opts = .ok cfg) (feeds feeds' : List (Feed ℚ)), opts.NoOverflow →
      feeds.flatMap (Feed.samples countingEngine) = feeds'.flatMap (Feed.samples countingEngine) →
      delivered ℚ countingEngine opts.sampleRate cfg (chunkSamples_pos h) feeds =
        delivered ℚ countingEngine opts.sampleRate cfg (chunkSamples_pos h) feeds' := by
  intro hall
  have hhalf : (List.replicate 1073741824 (0 : ℚ)).length < 2147483648 := by
    rw [List.length_replicate]
    decide
  have hlong : (List.replicate 2147483647 (0 : ℚ)).length = 2147483647 := List.length_replicate
  have hone : (List.replicate 1 (0 : ℚ)).length = 1 := List.length_replicate
  have hsame : ∀ i j k l : ℕ, i + j = k + l →
      List.replicate i (0 : ℚ) ++ (List.replicate j 0 ++ []) =
        List.replicate k 0 ++ (List.replicate l 0 ++ []) := by
    intro i j k l hsum
    rw [List.append_nil, List.append_nil, List.replicate_append_replicate,
      List.replicate_append_replicate, hsum]
  have hlast := hall frames16k secondChunks secondCfg streamStart_secondChunks
    [.f32 ⟨List.replicate 1 0, by omega⟩, .f32 ⟨List.replicate 2147483647 0, by omega⟩]
    [.f32 ⟨List.replicate 1073741824 0, hhalf⟩, .f32 ⟨List.replicate 1073741824 0, hhalf⟩]
    noOverflow_secondChunks (hsame 1 2147483647 1073741824 1073741824 rfl)
  rw [show secondChunks.sampleRate = 16000 from rfl, delivered_of_length hone hlong] at hlast
  refine delivered_ne_nil ?_ ?_ hlast.symm
  · simp only [List.flatMap_cons, List.flatMap_nil, Feed.samples, List.length_append,
      List.length_replicate]
    omega
  · have hb : Bounded secondCfg (start ℚ countingEngine) := bounded_start (by decide)
    refine feedsFit_of_le open_start hb ?_ (by decide)
    intro f hf
    simp only [List.mem_cons, List.not_mem_nil, or_false, or_self] at hf
    subst hf
    rw [Feed.samples, List.length_replicate]
    decide

end Session

end Parakeet

end WhisperCpp
