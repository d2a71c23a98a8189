import WhisperCpp.Parakeet.Feeds

/-!
# The text of a stream

The texts of the segments of a stream, one after the other, are the text of its tokens. The rule that
`StreamingSegment` gives to its readers is another one: a space goes in front of a segment that starts a
word. The text of such a segment has that space already, unless it is the first.

## Main definitions

* `transcribeWindows` — the loop of `transcribe_samples_stream`
* `Written` — what the segments and the transcript of a stream have to do with each other
* `rebuild` — the documented rule

## Main results

* `Written.text_eq` — the segments make up the transcript
* `Written.rebuild_eq_iff` — when the documented rule gives the transcript
-/

namespace WhisperCpp

namespace Parakeet

open Session (startsWord)

/-! ### Transcribing a signal in windows -/

section Windows

variable {σ E α K : Type*} [IntCast K] [Mul K] [Div K]

/-- What `transcribe_samples_stream` has after some windows. -/
structure StreamResult (K : Type*) (M : StreamEngine σ E α) where
  decoder : σ
  transcript : Transcript M.vocab
  chunkIndex : ℕ
  segments : List (StreamingSegment K)

/-- `frames_per_window`. -/
def framesPerWindow (m : EncoderFrames) (chunkMs : ℤ) : ℕ :=
  let frames := (chunkMs * m.sampleRate / (1000 * m.frameSamples)).toNat
  if frames < 1 then 1 else frames

theorem framesPerWindow_pos (m : EncoderFrames) (chunkMs : ℤ) : 0 < framesPerWindow m chunkMs := by
  rw [framesPerWindow]
  split_ifs <;> omega

variable (M : StreamEngine σ E α) (strideMs : K) (encOut : E)

/-- The body of the loop, for the frames from `start` to `stop`. -/
def transcribeWindow (start stop : ℕ) (r : StreamResult K M) : StreamResult K M :=
  let decoded := M.decode r.decoder encOut start stop
  let winTokens := decoded.1.1
  let segment : StreamingSegment K :=
    { text := r.transcript.winText winTokens
      tokenIds := winTokens
      startS := ((start : ℤ) : K) * strideMs / ((1000 : ℤ) : K)
      endS := ((stop : ℤ) : K) * strideMs / ((1000 : ℤ) : K)
      chunkIndex := r.chunkIndex
      isFinal := true
      startsWord := startsWord M.vocab winTokens
      isEouBoundary := 0 < decoded.1.2 }
  { decoder := decoded.2
    transcript := r.transcript.extend winTokens
    chunkIndex := r.chunkIndex + 1
    segments := r.segments ++ [segment] }

/-- The loop over the windows. `cancelFlag` says what the flag is before each. -/
def transcribeWindows (m : EncoderFrames) (chunkMs : ℤ) (cancelFlag : ℕ → Bool) (start : ℕ)
    (r : StreamResult K M) : StreamResult K M :=
  if start < M.nEncFrames encOut then
    if cancelFlag r.chunkIndex then r
    else
      transcribeWindows m chunkMs cancelFlag (start + framesPerWindow m chunkMs)
        (transcribeWindow M strideMs encOut start
          (min (start + framesPerWindow m chunkMs) (M.nEncFrames encOut)) r)
  else r
termination_by M.nEncFrames encOut - start
decreasing_by
  have := framesPerWindow_pos m chunkMs
  omega

/-- `transcribe_samples_stream`, without its checks. -/
def transcribeSamplesStream (m : EncoderFrames) (chunkMs : ℤ) (cancelFlag : ℕ → Bool)
    (samples : List α) : StreamResult K M :=
  transcribeWindows M strideMs (M.encode samples) m chunkMs cancelFlag 0
    ⟨M.initState, .empty, 0, []⟩

end Windows

/-! ### Segments and transcript -/

/-- The segments of a stream: each has its tokens, and the text that they add. -/
inductive Written {K : Type*} (vocab : BpeVocab) :
    List (StreamingSegment K) → Transcript vocab → Prop
  | start : Written vocab [] .empty
  | window {segments : List (StreamingSegment K)} {t : Transcript vocab} {seg : StreamingSegment K} :
    Written vocab segments t → seg.text = t.winText seg.tokenIds →
      seg.startsWord = startsWord vocab seg.tokenIds →
      Written vocab (segments ++ [seg]) (t.extend seg.tokenIds)

section Segments

variable {K : Type*} {vocab : BpeVocab} {segments : List (StreamingSegment K)} {t : Transcript vocab}

theorem Written.tokenIds_eq (h : Written vocab segments t) :
    segments.flatMap StreamingSegment.tokenIds = t.tokenIds := by
  induction h with
  | start => rfl
  | window hprev htext hword ih =>
    rw [List.flatMap_append, ih, List.flatMap_singleton]
    rfl

/-- **The segments make up the transcript.** -/
theorem Written.text_eq (h : Written vocab segments t) :
    segments.flatMap StreamingSegment.text = t.text := by
  induction h with
  | start => rfl
  | window hprev htext hword ih =>
    rw [List.flatMap_append, ih, List.flatMap_singleton, htext, Transcript.text_append_winText]

theorem Written.text_eq_detokenize (h : Written vocab segments t) :
    segments.flatMap StreamingSegment.text =
      detokenize vocab (segments.flatMap StreamingSegment.tokenIds) := by
  rw [h.text_eq, h.tokenIds_eq, t.text_eq]

/-- The rule of `StreamingSegment`: a space in front of a segment that starts a word, once there is
text. -/
def rebuildStep (acc : Text) (seg : StreamingSegment K) : Text :=
  acc ++ ((if seg.startsWord = true ∧ acc ≠ [] then [space] else []) ++ seg.text)

/-- The transcript by that rule. -/
def rebuild (segments : List (StreamingSegment K)) : Text := segments.foldl rebuildStep []

theorem rebuild_snoc (seg : StreamingSegment K) :
    rebuild (segments ++ [seg]) = rebuildStep (rebuild segments) seg := by
  rw [rebuild, List.foldl_append, List.foldl_cons, List.foldl_nil, ← rebuild]

/-- Both are empty as long as no segment has text. -/
theorem rebuild_eq_nil_iff :
    rebuild segments = [] ↔ segments.flatMap StreamingSegment.text = [] := by
  induction segments using List.reverseRecOn with
  | nil => exact ⟨fun _ => rfl, fun _ => rfl⟩
  | append_singleton segments seg ih =>
    rw [rebuild_snoc, rebuildStep, List.flatMap_append, List.flatMap_singleton,
      List.append_eq_nil_iff, List.append_eq_nil_iff, List.append_eq_nil_iff]
    constructor
    · rintro ⟨hnil, -, htext⟩
      exact ⟨ih.1 hnil, htext⟩
    · rintro ⟨hnil, htext⟩
      refine ⟨ih.2 hnil, if_neg ?_, htext⟩
      rintro ⟨-, hne⟩
      exact hne (ih.2 hnil)

/-- The rule only adds to the text. -/
theorem length_text_le_rebuild :
    (segments.flatMap StreamingSegment.text).length ≤ (rebuild segments).length := by
  induction segments using List.reverseRecOn with
  | nil => exact le_rfl
  | append_singleton segments seg ih =>
    rw [rebuild_snoc, rebuildStep, List.flatMap_append, List.flatMap_singleton, List.length_append,
      List.length_append, List.length_append]
    omega

/-- Behind the first text no segment starts a word. -/
def Glued (vocab : BpeVocab) (segments : List (StreamingSegment K)) : Prop :=
  ∀ front seg back, segments = front ++ seg :: back →
    detokenize vocab (front.flatMap StreamingSegment.tokenIds) ≠ [] →
      startsWord vocab seg.tokenIds = false

theorem glued_snoc {seg : StreamingSegment K} :
    Glued vocab (segments ++ [seg]) ↔ Glued vocab segments ∧
      (detokenize vocab (segments.flatMap StreamingSegment.tokenIds) ≠ [] →
        startsWord vocab seg.tokenIds = false) := by
  constructor
  · intro h
    refine ⟨fun front seg' back heq hne => ?_, fun hne => h segments seg [] rfl hne⟩
    exact h front seg' (back ++ [seg]) (by rw [heq, List.append_assoc, List.cons_append]) hne
  · rintro ⟨hfront, hlast⟩ front seg' back heq hne
    rcases List.eq_nil_or_concat back with rfl | ⟨back', last, rfl⟩
    · obtain ⟨rfl, hseg⟩ := List.append_inj' heq rfl
      obtain rfl := List.singleton_inj.1 hseg
      exact hlast hne
    · rw [List.concat_eq_append, ← List.cons_append, ← List.append_assoc] at heq
      obtain ⟨rfl, -⟩ := List.append_inj' heq rfl
      exact hfront front seg' back' rfl hne

/-- **When the documented rule gives the transcript.** -/
theorem Written.rebuild_eq_iff (h : Written vocab segments t) :
    rebuild segments = t.text ↔ Glued vocab segments := by
  induction h with
  | start =>
    refine ⟨fun _ front seg back heq => ?_, fun _ => rfl⟩
    exact absurd heq.symm (List.append_ne_nil_of_right_ne_nil _ (List.cons_ne_nil _ _))
  | @window segments t seg hprev htext hword ih =>
    have hnil : rebuild segments = [] ↔
        detokenize vocab (segments.flatMap StreamingSegment.tokenIds) = [] := by
      rw [rebuild_eq_nil_iff, hprev.text_eq_detokenize]
    have hle : t.text.length ≤ (rebuild segments).length := by
      rw [← hprev.text_eq]
      exact length_text_le_rebuild
    rw [glued_snoc, ← ih, rebuild_snoc, rebuildStep, ← t.text_append_winText, ← htext, hword]
    constructor
    · intro heq
      -- the lengths leave no room for a space
      have hlen := congrArg List.length heq
      rw [List.length_append, List.length_append, List.length_append] at hlen
      have hsame : (rebuild segments).length = t.text.length := by omega
      have hcut := List.append_inj heq hsame
      refine ⟨hcut.1, fun hne => ?_⟩
      by_contra hstarts
      rw [Bool.not_eq_false] at hstarts
      rw [if_pos ⟨hstarts, fun hr => hne (hnil.1 hr)⟩] at hcut
      exact absurd (congrArg List.length hcut.2) (by rw [List.length_append]; simp)
    · rintro ⟨heq, hglued⟩
      rw [heq, if_neg]
      · rfl
      · rintro ⟨hstarts, hne⟩
        rw [← heq, ne_eq, hnil] at hne
        rw [hglued hne] at hstarts
        cases hstarts

end Segments

/-! ### The streams write such segments -/

section Streams

variable {σ E α K : Type*} [IntCast K] [Div K] {M : StreamEngine σ E α}

/-- What a session has delivered and its transcript. -/
def Session.Sound (s : Session K M) : Prop := Written M.vocab s.segments s.transcript

namespace Session.Sound

variable {s : Session K M} {sampleRate : ℤ} {cfg : StreamConfig} {hpos : 0 < cfg.chunkSamples}

theorem processWindow (h : s.Sound) (window : List α) (n i j : ℤ) (b : Bool) :
    (s.processWindow sampleRate window n i j b).Sound := by
  rw [Session.processWindow]
  split_ifs
  · exact h
  · exact h
  · exact Written.window h rfl rfl

theorem emitChunk (h : s.Sound) : (s.emitChunk sampleRate cfg).Sound := by
  rw [Session.Sound, Session.emitChunk]
  exact h.processWindow ..

theorem tryEmitChunks (h : s.Sound) : (s.tryEmitChunks sampleRate cfg hpos).Sound := by
  fun_induction Session.tryEmitChunks sampleRate cfg hpos s with
  | case1 s hready ih => exact ih h.emitChunk
  | case2 s hready => exact h

theorem flushRemainder (h : s.Sound) : (s.flushRemainder sampleRate).Sound := by
  rw [Session.flushRemainder]
  split_ifs
  · exact h
  · exact h
  · exact h.processWindow ..

theorem finalize (h : s.Sound) : (s.finalize sampleRate cfg hpos).Sound := by
  rw [Session.finalize]
  split_ifs
  · exact h
  · exact (Session.Sound.tryEmitChunks (s := { s with finalized := true }) h).flushRemainder

theorem step (h : s.Sound) (op : Op α) : (s.step sampleRate cfg hpos op).Sound := by
  have hgrown : ∀ samples, ({ s with pending := s.pending ++ samples }.tryEmitChunks sampleRate cfg
      hpos).Sound := fun samples =>
    Session.Sound.tryEmitChunks (s := { s with pending := s.pending ++ samples }) h
  cases op with
  | feed f =>
    cases f with
    | f32 samples =>
      rw [Session.step, feed, feedPcmF32]
      split_ifs
      · exact h
      · exact h
      · exact h
      · exact hgrown _
    | i16 samples =>
      rw [Session.step, feed, feedPcmI16]
      split_ifs
      · exact h
      · exact h
      · exact h
      · exact hgrown _
  | finalize => exact h.finalize
  | cancel => exact h

theorem run (h : s.Sound) (ops : List (Op α)) : (s.run sampleRate cfg hpos ops).Sound := by
  induction ops generalizing s with
  | nil => exact h
  | cons op ops ih => exact ih (h.step op)

end Session.Sound

theorem sound_run (sampleRate : ℤ) (cfg : StreamConfig) (hpos : 0 < cfg.chunkSamples)
    (ops : List (Op α)) : ((Session.start K M).run sampleRate cfg hpos ops).Sound := by
  have hstart : (Session.start K M).Sound := Written.start
  exact hstart.run ops

variable [Mul K]

theorem written_transcribeWindows {m : EncoderFrames} {strideMs : K} {encOut : E} {chunkMs : ℤ}
    {cancelFlag : ℕ → Bool} {start : ℕ} {r : StreamResult K M}
    (h : Written M.vocab r.segments r.transcript) :
    Written M.vocab
      (transcribeWindows M strideMs encOut m chunkMs cancelFlag start r).segments
      (transcribeWindows M strideMs encOut m chunkMs cancelFlag start r).transcript := by
  fun_induction transcribeWindows M strideMs encOut m chunkMs cancelFlag start r with
  | case1 start r hlt hcancel => exact h
  | case2 start r hlt hcancel ih => exact ih (Written.window h rfl rfl)
  | case3 start r hlt => exact h

theorem written_transcribeSamplesStream (M : StreamEngine σ E α) (strideMs : K) (m : EncoderFrames)
    (chunkMs : ℤ) (cancelFlag : ℕ → Bool) (samples : List α) :
    Written M.vocab (transcribeSamplesStream M strideMs m chunkMs cancelFlag samples).segments
      (transcribeSamplesStream M strideMs m chunkMs cancelFlag samples).transcript :=
  written_transcribeWindows .start

/-- **Streaming text is batch text.** The text of a prefix of a token sequence is a prefix of its text,
so that the text of a segment can be cut off; and the texts of the segments make up the text of all
tokens, whatever a caller does with a session, and wherever a transcription is cancelled. -/
theorem segmentTexts_eq_detokenize (M : StreamEngine σ E α) (sampleRate : ℤ) (cfg : StreamConfig)
    (hpos : 0 < cfg.chunkSamples) (ops : List (Op α)) (strideMs : K) (m : EncoderFrames)
    (chunkMs : ℤ) (cancelFlag : ℕ → Bool) (samples : List α) :
    (∀ ids tokenIds, ids <+: tokenIds → detokenize M.vocab ids <+: detokenize M.vocab tokenIds ∧
        (substr (detokenize M.vocab tokenIds) (detokenize M.vocab ids).length).isSome = true) ∧
      (let s := (Session.start K M).run sampleRate cfg hpos ops
       s.segments.flatMap StreamingSegment.text =
        detokenize M.vocab (s.segments.flatMap StreamingSegment.tokenIds)) ∧
      (let r := transcribeSamplesStream M strideMs m chunkMs cancelFlag samples
       r.segments.flatMap StreamingSegment.text =
        detokenize M.vocab (r.segments.flatMap StreamingSegment.tokenIds)) := by
  refine ⟨?_, ?_, ?_⟩
  · rintro ids tokenIds ⟨rest, rfl⟩
    refine ⟨detokenize_isPrefix _ (List.prefix_append _ _), ?_⟩
    exact Transcript.isSome_substr ⟨ids, detokenize M.vocab ids, rfl⟩ rest
  · exact Written.text_eq_detokenize (sound_run sampleRate cfg hpos ops)
  · exact (written_transcribeSamplesStream M strideMs m chunkMs cancelFlag samples).text_eq_detokenize

end Streams

/-! ### Two words -/

/-- An engine that hears the word `a` in each of two frames. -/
def twoWords : StreamEngine Unit Unit ℚ where
  vocab := ⟨[[0xE2, 0x96, 0x81, 0x61]], -1, -1, -1, -1⟩
  frameSamples := 1280
  ofInt16 := fun sample => sample.toInt / 32768
  encode := fun _ => ()
  nEncFrames := fun _ => 2
  decode := fun _ _ _ _ => (([0], 0), ())
  initState := ()

theorem segmentTexts_eq_detokenize_twoWords :
    (∀ ids tokenIds, ids <+: tokenIds →
        detokenize twoWords.vocab ids <+: detokenize twoWords.vocab tokenIds ∧
        (substr (detokenize twoWords.vocab tokenIds)
          (detokenize twoWords.vocab ids).length).isSome = true) ∧
      (let s := (Session.start ℚ twoWords).run 16000 Session.secondCfg Session.secondCfg_pos
        [.feed (.f32 ⟨[1, 2], by decide⟩), .finalize]
       s.segments.flatMap StreamingSegment.text =
        detokenize twoWords.vocab (s.segments.flatMap StreamingSegment.tokenIds)) ∧
      (let r := transcribeSamplesStream twoWords (80 : ℚ) frames16k 80 (fun _ => false) [1, 2]
       r.segments.flatMap StreamingSegment.text =
        detokenize twoWords.vocab (r.segments.flatMap StreamingSegment.tokenIds)) :=
  segmentTexts_eq_detokenize twoWords 16000 Session.secondCfg Session.secondCfg_pos _ 80 frames16k 80
    _ _

end Parakeet

end WhisperCpp
