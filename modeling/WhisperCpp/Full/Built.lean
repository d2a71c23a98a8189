import Mathlib.Data.List.Pairwise
import WhisperCpp.Full.Progress

/-!
# How the decoders build their sequences

Every token of a decoder was sampled from a distribution that the suppression rules were applied to
with just the tokens before it, although in beam search a decoder continues the sequences of others:
the sequence and the window shift are handed over together.

## Main definitions

* `Tracks` — the window shift of a decoder is that of its last timestamp
* `Follows` — a token may be sampled after others
* `Built` — a sequence of tokens that were sampled one after the other

## Main results

* `Built.monotone` — the timestamps of such a sequence do not go back
* `Reachable.building` — the decoders of a window have such sequences
-/

namespace WhisperCpp

namespace Full

variable {K F G : Type*}

/-! ### The last timestamp -/

/-- The last token behind the first timestamp. -/
def lastTs (v : Vocab) (tokens : List (TokenData K)) : Option ℕ :=
  ((ids tokens).filter (v.tokenBeg < ·)).getLast?

/-- The window shift of a decoder is that of the last timestamp among the tokens. -/
structure Tracks (v : Vocab) (tokens : List (TokenData K)) (d : Decoder K G) : Prop where
  hasTs_eq : d.hasTs = (lastTs v tokens).isSome
  seekDelta_eq : d.seekDelta = (lastTs v tokens).elim chunk fun id => 2 * ((id : ℤ) - v.tokenBeg)

theorem lastTs_concat (v : Vocab) (tokens : List (TokenData K)) (t : TokenData K) :
    lastTs v (tokens ++ [t]) = if v.tokenBeg < t.id then some t.id else lastTs v tokens := by
  rw [lastTs, ids, List.map_append, List.filter_append]
  by_cases ht : v.tokenBeg < t.id
  · simp [ht]
  · simp [ht, lastTs, ids]

theorem lastTs_eq_some {v : Vocab} {tokens : List (TokenData K)} {id : ℕ}
    (h : lastTs v tokens = some id) : v.tokenBeg < id ∧ id ∈ ids tokens := by
  have hmem := List.mem_of_getLast? h
  rw [List.mem_filter, decide_eq_true_eq] at hmem
  exact ⟨hmem.2, hmem.1⟩

theorem lastTs_eq_none {v : Vocab} {tokens : List (TokenData K)} (h : lastTs v tokens = none)
    {id : ℕ} (hid : id ∈ ids tokens) : id ≤ v.tokenBeg := by
  rw [lastTs, List.getLast?_eq_none_iff, List.filter_eq_nil_iff] at h
  simpa using h id hid

/-- In order, no timestamp is behind the last one. -/
theorem le_lastTs {v : Vocab} {tokens : List (TokenData K)} {id last : ℕ}
    (h : ((ids tokens).filter (v.tokenBeg ≤ ·)).Pairwise (· ≤ ·)) (hlast : lastTs v tokens = some last)
    (hid : id ∈ ids tokens) : id ≤ last := by
  by_cases hts : v.tokenBeg < id
  · have hsub : ((ids tokens).filter (v.tokenBeg < ·)).Sublist
        ((ids tokens).filter (v.tokenBeg ≤ ·)) :=
      List.monotone_filter_right _ fun id hid => by
        rw [decide_eq_true_eq] at hid ⊢
        exact hid.le
    have hmem : id ∈ (ids tokens).filter (v.tokenBeg < ·) := by
      rw [List.mem_filter, decide_eq_true_eq]
      exact ⟨hid, hts⟩
    have hle := (h.sublist hsub).rel_getLast hmem
    rw [lastTs, List.getLast?_eq_some_getLast (List.ne_nil_of_mem hmem), Option.some.injEq] at hlast
    rw [← hlast]
    exact hle
  · exact (not_lt.mp hts).trans (lastTs_eq_some hlast).1.le

variable [Field K] [LinearOrder K] {ctx : Context K F G} {s : State K F G} {x : Input K F G}

/-! ### Sequences of sampled tokens -/

section Built

variable [FloorRing K]

/-- The token may be sampled after the others. -/
def Follows (ctx : Context K F G) (p : Params K F G) (prev : List (TokenData K))
    (t : TokenData K) : Prop :=
  ∃ (d : Decoder K G) (temperature : F) (row : ℕ → K) (callback : (ℕ → WithBot K) → ℕ → WithBot K),
    d.sequence.tokens = prev ∧ Tracks ctx.vocab prev d ∧
      Sampled ctx.vocab (processLogits ctx p d temperature row callback).probs t

/-- Tokens that were sampled one after the other. -/
inductive Built (ctx : Context K F G) (p : Params K F G) : List (TokenData K) → Prop
  | nil : Built ctx p []
  | concat {prev : List (TokenData K)} {t : TokenData K} (h : Built ctx p prev)
    (ht : Follows ctx p prev t) : Built ctx p (prev ++ [t])

variable {p : Params K F G} {tokens prev : List (TokenData K)} {t : TokenData K}

theorem Built.take (h : Built ctx p tokens) (n : ℕ) : Built ctx p (tokens.take n) := by
  induction h with
  | nil =>
    rw [List.take_nil]
    exact .nil
  | @concat prev t hprev ht ih =>
    by_cases hn : n ≤ prev.length
    · rw [List.take_append_of_le_length hn]
      exact ih
    · rw [List.take_of_length_le (by simp; omega)]
      exact hprev.concat ht

/-- A sampled token is in the vocabulary, and a timestamp is its own. -/
theorem Follows.id_lt (h : Follows ctx p prev t) :
    t.id < ctx.vocab.nVocab ∧ (ctx.vocab.tokenBeg ≤ t.id → t.tid = t.id) := by
  obtain ⟨d, temperature, row, callback, -, -, hid, htid⟩ := h
  refine ⟨?_, htid⟩
  rcases hid with ⟨hlt, -⟩ | ⟨h0, -⟩
  · exact hlt
  · have := ctx.vocab.le_nVocab
    omega

/-- A sampled token that is not the first one of the vocabulary is one that the rules leave. -/
theorem Follows.left (h : Follows ctx p prev t) (h0 : t.id ≠ 0) :
    ∃ d : Decoder K G, d.sequence.tokens = prev ∧ Tracks ctx.vocab prev d ∧
      lateOff ctx.vocab p d t.id ctx.hparams.nAudioCtx = false ∧
      (p.logitsFilter = false → earlyOff ctx.vocab p d t.id = false) := by
  obtain ⟨d, temperature, row, callback, hprev, htr, hid, -⟩ := h
  have hne : (processLogits ctx p d temperature row callback).logits t.id ≠ ⊥ := by
    refine processLogits_probs_pos_iff.mp ?_
    rcases hid with ⟨-, hpos⟩ | ⟨hzero, -⟩
    · exact hpos
    · exact absurd hzero h0
  exact ⟨d, hprev, htr, processLogits_ne_bot hne⟩

/-- A sampled timestamp is not before the last one. -/
theorem Follows.lastTs_le {last : ℕ} (h : Follows ctx p prev t)
    (hlast : lastTs ctx.vocab prev = some last) (ht : ctx.vocab.tokenBeg ≤ t.id) : last ≤ t.id := by
  have hpos := ctx.vocab.tokenEot_lt_tokenBeg
  obtain ⟨d, -, htr, hlate, -⟩ := h.left (by omega)
  have hhas := htr.hasTs_eq
  have hdelta := htr.seekDelta_eq
  have hbeg := (lastTs_eq_some hlast).1
  rw [hlast] at hhas hdelta
  simp only [lateOff, Bool.or_eq_false_iff] at hlate
  have hback : backOff ctx.vocab d t.id = false := hlate.2
  rw [backOff, hhas, hdelta] at hback
  simp only [Option.isSome_some, Option.elim_some, ht, decide_true, Bool.true_and] at hback
  have hge := of_decide_eq_false hback
  omega

/-- **The timestamps do not go back.** -/
theorem Built.monotone (h : Built ctx p tokens) :
    ((ids tokens).filter (ctx.vocab.tokenBeg ≤ ·)).Pairwise (· ≤ ·) := by
  induction h with
  | nil => exact .nil
  | @concat prev t hprev ht ih =>
    rw [ids, List.map_append, List.filter_append]
    refine List.pairwise_append.mpr ⟨ih, ?_, fun id hid id' hid' => ?_⟩
    · exact (List.pairwise_singleton _ t.id).sublist List.filter_sublist
    · obtain ⟨hid', hts⟩ := List.mem_filter.mp hid'
      obtain rfl : id' = t.id := List.mem_singleton.mp hid'
      rw [decide_eq_true_eq] at hts
      have hmem : id ∈ ids prev := (List.mem_filter.mp hid).1
      cases hlast : lastTs ctx.vocab prev with
      | none => exact (lastTs_eq_none hlast hmem).trans hts
      | some last => exact (le_lastTs ih hlast hmem).trans (ht.lastTs_le hlast hts)

/-- The tokens are in the vocabulary, and the timestamps are their own. -/
theorem Built.id_lt (h : Built ctx p tokens) : ∀ t ∈ tokens,
    t.id < ctx.vocab.nVocab ∧ (ctx.vocab.tokenBeg ≤ t.id → t.tid = t.id) := by
  induction h with
  | nil => simp
  | concat _ ht ih =>
    intro u hu
    rcases List.mem_append.mp hu with hu | hu
    · exact ih u hu
    · rw [List.mem_singleton.mp hu]
      exact ht.id_lt

/-- The last token of a sequence followed the ones before it. -/
theorem Built.follows (h : Built ctx p (prev ++ [t])) : Follows ctx p prev t := by
  generalize heq : prev ++ [t] = tokens at h
  cases h with
  | nil => simp at heq
  | concat _ ht =>
    obtain ⟨rfl, hlast⟩ := List.append_inj' heq rfl
    rw [List.singleton_inj] at hlast
    exact hlast ▸ ht

end Built

/-! ### The decoders of a window -/

theorem Tracks.slide {prev : List (TokenData K)} {d : Decoder K G} {t : TokenData K} (i : ℕ)
    (h : Tracks ctx.vocab prev d) : Tracks ctx.vocab (prev ++ [t]) (d.slide ctx i t) := by
  rw [Decoder.slide]
  split
  · rename_i hts
    constructor
    · rw [lastTs_concat, if_pos hts]
      rfl
    · rw [lastTs_concat, if_pos hts]
      rfl
  · rename_i hts
    constructor
    · rw [lastTs_concat, if_neg hts]
      exact h.hasTs_eq
    · rw [lastTs_concat, if_neg hts]
      exact h.seekDelta_eq

theorem Tracks.reset (d : Decoder K G) (g : Option G) (window : ℕ) :
    Tracks ctx.vocab [] (d.reset g window) := ⟨rfl, rfl⟩

/-- An update of an active decoder keeps its tokens and its window shift follows them. -/
theorem updateDecoder_tracks {seek seekEnd : ℤ} {p : Params K F G} {i : ℕ} {d d' : Decoder K G}
    (hd : d.active) (hlen : d.sequence.tokens.length = i + 1)
    (htr : Tracks ctx.vocab d.sequence.tokens.dropLast d)
    (hres : d.sequence.resultLen ≤ d.sequence.tokens.length)
    (h : updateDecoder ctx p seek seekEnd i d = some d') :
    d'.sequence.resultLen ≤ d'.sequence.tokens.length ∧
      (d'.active → Tracks ctx.vocab d'.sequence.tokens d') := by
  have htok := (updateDecoder_tokens hd h).1
  obtain ⟨token, hlast, ⟨-, rfl⟩ | ⟨-, g, hcon⟩⟩ := updateDecoder_spec hd h
  · refine ⟨hres, fun hact => ?_⟩
    rw [Decoder.active_iff] at hact
    cases hact.2
  · have hslide : (d.slide ctx i token).sequence.resultLen ≤ i + 1 := by
      rw [Decoder.slide]
      split
      · exact le_rfl
      · exact hlen ▸ hres
    refine ⟨?_, fun hact => ?_⟩
    · rw [htok, hlen]
      rcases hcon.resultLen_eq with heq | heq
      · rw [heq]
        exact hslide
      · exact heq.le
    · have htoks : d.sequence.tokens = d.sequence.tokens.dropLast ++ [token] :=
        (List.dropLast_append_getLast? token hlast).symm
      have hall := htr.slide (t := token) i
      rw [← htoks] at hall
      rw [htok, hcon.eq_of_active hact]
      exact ⟨hall.hasTs_eq, hall.seekDelta_eq⟩

section Building

variable [FloorRing K]

/-- The decoder has a distribution for the tokens it has sampled. -/
def Processed (ctx : Context K F G) (p : Params K F G) (d : Decoder K G) : Prop :=
  ∃ (d' : Decoder K G) (temperature : F) (row : ℕ → K) (callback : (ℕ → WithBot K) → ℕ → WithBot K),
    d'.sequence.tokens = d.sequence.tokens ∧ Tracks ctx.vocab d.sequence.tokens d' ∧
      d.scores = processLogits ctx p d' temperature row callback

theorem Processed.follows {p : Params K F G} {d : Decoder K G} {t : TokenData K}
    (h : Processed ctx p d) (ht : Sampled ctx.vocab d.scores.probs t) :
    Follows ctx p d.sequence.tokens t := by
  obtain ⟨d', temperature, row, callback, htok, htr, hscores⟩ := h
  exact ⟨d', temperature, row, callback, htok, htr, hscores ▸ ht⟩

/-- What is known of an active decoder, by location. Between the sampling and the update of an
iteration the window shift is that of the tokens before. -/
def Tracking (ctx : Context K F G) (s : State K F G) (d : Decoder K G) : Prop :=
  match s.pc with
  | .decode (.prompt _) | .decode (.next _ _) => Tracks ctx.vocab d.sequence.tokens d
  | .sample _ _ => Tracks ctx.vocab d.sequence.tokens d ∧ Processed ctx s.params d
  | .update _ _ => Tracks ctx.vocab d.sequence.tokens.dropLast d
  | _ => True

/-- The tokens of the decoder were sampled one after the other, and its result is among them. -/
structure Sound (ctx : Context K F G) (p : Params K F G) (d : Decoder K G) : Prop where
  built : Built ctx p d.sequence.tokens
  resultLen_le : d.sequence.resultLen ≤ d.sequence.tokens.length

/-- The decoders of the current window. -/
structure Building (ctx : Context K F G) (s : State K F G) : Prop where
  sound : s.pc.inBody = true → ∀ j, (s.decoders j).window = s.windows →
    Sound ctx s.params (s.decoders j)
  tracking : ∀ j < s.nDecodersCur, (s.decoders j).active → Tracking ctx s (s.decoders j)

theorem Building.of_outside (h : s.pc.inBody = false) : Building ctx s where
  sound hb := by rw [h] at hb; cases hb
  tracking j _ _ := by
    rw [Tracking]
    split <;> simp_all [Pc.inBody]

/-- Where the decoders do not matter, only their sequences are kept. -/
theorem Building.of_sound (hsound : ∀ j, (s.decoders j).window = s.windows →
      Sound ctx s.params (s.decoders j))
    (hpc : ∀ d, Tracking ctx s d) : Building ctx s := ⟨fun _ => hsound, fun _ _ _ => hpc _⟩

/-- One more token. -/
theorem Sound.push {p : Params K F G} {d d' : Decoder K G} {t : TokenData K} (h : Sound ctx p d)
    (hd : Processed ctx p d) (ht : Sampled ctx.vocab d.scores.probs t)
    (hseq : d'.sequence = d.sequence.push t) : Sound ctx p d' := by
  constructor
  · rw [hseq, Sequence.tokens_push]
    exact h.built.concat (hd.follows ht)
  · have hle := h.resultLen_le
    rw [hseq, Sequence.resultLen_push, Sequence.tokens_push, List.length_append]
    omega

theorem building_stepAttempt {it : ℕ} (hpc : s.pc = .attempt it) (h : Building ctx s) :
    Building ctx (stepAttempt ctx x it s) := by
  have hsound := h.sound (by rw [hpc]; rfl)
  rw [stepAttempt]
  split
  · exact .of_sound hsound fun _ => trivial
  · split
    · exact .of_outside rfl
    · split
      · exact .of_outside rfl
      · refine ⟨fun _ j => ?_, fun j hj _ => ?_⟩
        · simp only [State.attempted]
          split
          · exact fun _ => ⟨.nil, le_rfl⟩
          · exact hsound j
        · simp only [State.attempted] at hj ⊢
          rw [if_pos hj]
          exact .reset _ _ _

/-- A step that gives the decoders distributions and leaves the rest of them. -/
theorem Building.sound_of_scores (h : Building ctx s) (hb : s.pc.inBody = true) (s' : State K F G)
    (hparams : s'.params = s.params) (hwin : s'.windows = s.windows)
    (hdec : ∀ j, ∃ b scores, s'.decoders j = { s.decoders j with iBatch := b, scores := scores }) :
    ∀ j, (s'.decoders j).window = s'.windows → Sound ctx s'.params (s'.decoders j) := by
  intro j hj
  obtain ⟨b, scores, heq⟩ := hdec j
  rw [heq, hwin] at hj
  rw [heq, hparams]
  obtain ⟨hbuilt, hlen⟩ := h.sound hb j hj
  exact ⟨hbuilt, hlen⟩

theorem building_decodedPrompt {it : ℕ} (hpc : s.pc = .decode (.prompt it)) (hph : Phase ctx s)
    (h : Building ctx s) (x : Input K F G) :
    Building ctx (decodedPrompt ctx x it (s.computed ctx x)) := by
  rw [Phase, hpc] at hph
  obtain ⟨hatt, hfresh⟩ := hph
  have hsound := h.sound_of_scores (by rw [hpc]; rfl) (decodedPrompt ctx x it (s.computed ctx x))
    rfl rfl (decodedPrompt_decoder_eq ctx x (s.computed ctx x) it)
  have htracks : ∀ j < s.nDecodersCur, Tracks ctx.vocab [] (s.decoders j) := by
    intro j hj
    have htr := h.tracking j hj (hfresh j hj).1
    rw [Tracking, hpc] at htr
    rw [← (hfresh j hj).2]
    exact htr
  by_cases hmax : 0 < nMax ctx
  · refine ⟨fun _ => hsound, fun j hj hact => ?_⟩
    have hj : j < s.nDecodersCur := hj
    rw [Tracking, show (decodedPrompt ctx x it (s.computed ctx x)).pc = .sample it 0 from
      if_pos hmax]
    obtain ⟨b, scores, heq⟩ := decodedPrompt_decoder_eq ctx x (s.computed ctx x) it j
    have htok : ((decodedPrompt ctx x it (s.computed ctx x)).decoders j).sequence.tokens = [] := by
      rw [heq]
      exact (hfresh j hj).2
    rw [Processed, htok]
    refine ⟨?_, ?_⟩
    · rw [heq]
      exact ⟨(htracks j hj).hasTs_eq, (htracks j hj).seekDelta_eq⟩
    · -- all decoders share the distribution of the first one
      refine ⟨{ s.decoders 0 with iBatch := s.prompt.length - 1 }, s.tCur,
        (s.computed ctx x).row ctx (s.prompt.length - 1), x.filter 0,
        (hfresh 0 hatt.nCur_pos).2, ?_, ?_⟩
      · exact ⟨(htracks 0 hatt.nCur_pos).hasTs_eq, (htracks 0 hatt.nCur_pos).seekDelta_eq⟩
      · simp only [decodedPrompt]
        by_cases h0 : j = 0
        · rw [if_pos h0]
          rfl
        · rw [if_neg h0, if_pos (show j < (s.computed ctx x).nDecodersCur from hj)]
          rfl
  · refine .of_sound hsound fun d => ?_
    rw [Tracking, show (decodedPrompt ctx x it (s.computed ctx x)).pc = .rank it from if_neg hmax]
    trivial

theorem building_decodedNext {it i : ℕ} (hpc : s.pc = .decode (.next it i))
    (h : Building ctx s) (x : Input K F G) :
    Building ctx (decodedNext ctx x it i (s.computed ctx x)) := by
  have hdec := decodedNext_decoder_eq ctx x (s.computed ctx x) it i
  have hsound := h.sound_of_scores (by rw [hpc]; rfl) (decodedNext ctx x it i (s.computed ctx x))
    rfl rfl fun j => by
      obtain ⟨scores, heq⟩ := hdec j
      exact ⟨_, scores, heq⟩
  by_cases hmax : (i : ℤ) + 1 < nMax ctx
  · refine ⟨fun _ => hsound, fun j hj hact => ?_⟩
    have hj : j < s.nDecodersCur := hj
    obtain ⟨scores, heq⟩ := hdec j
    have hact' : (s.decoders j).active := by
      rw [heq] at hact
      exact hact
    have htr := h.tracking j hj hact'
    rw [Tracking, hpc] at htr
    rw [Tracking, show (decodedNext ctx x it i (s.computed ctx x)).pc = .sample it (i + 1) from
      if_pos hmax]
    refine ⟨?_, s.decoders j, s.tCur, (s.computed ctx x).row ctx (s.decoders j).iBatch, x.filter j,
      ?_, ?_, ?_⟩
    · rw [heq]
      exact ⟨htr.hasTs_eq, htr.seekDelta_eq⟩
    · rw [heq]
      rfl
    · rw [heq]
      exact htr
    · simp only [decodedNext]
      rw [if_pos ⟨hj, hact'⟩]
      rfl
  · refine .of_sound hsound fun d => ?_
    rw [Tracking, show (decodedNext ctx x it i (s.computed ctx x)).pc = .rank it from if_neg hmax]
    trivial

theorem building_stepSample {it i : ℕ} (hpc : s.pc = .sample it i) (hph : Phase ctx s)
    (h : Building ctx s) : Building ctx (stepSample ctx x it i s) := by
  rw [Phase, hpc] at hph
  have hsound := h.sound (by rw [hpc]; rfl)
  have htracking : ∀ j < s.nDecodersCur, (s.decoders j).active →
      Tracks ctx.vocab (s.decoders j).sequence.tokens (s.decoders j) ∧
        Processed ctx s.params (s.decoders j) := by
    intro j hj hact
    have htr := h.tracking j hj hact
    rw [Tracking, hpc] at htr
    exact htr
  rw [stepSample]
  split
  · refine ⟨fun _ j => ?_, fun j hj => ?_⟩
    · simp only
      split
      · rename_i hj
        exact fun hw => (hsound j hw).push (htracking j hj.1 hj.2).2
          (sampleToken_sampled ctx.vocab _ _ _) rfl
      · exact hsound j
    · have hj : j < s.nDecodersCur := hj
      simp only
      split
      · rename_i hjact
        intro _
        have htr := (htracking j hj hjact.2).1
        rw [Tracking]
        simp only [sampleGreedy, Sequence.tokens_push, List.dropLast_concat]
        exact ⟨htr.hasTs_eq, htr.seekDelta_eq⟩
      · rename_i hjact
        exact fun hact => absurd ⟨hj, hact⟩ hjact
  · split
    · exact .of_outside rfl
    · rename_i hne
      have hcs : sortedCandidates ctx x s ≠ [] := by simpa using hne
      have hre := reassign_decoders hcs i s.nDecodersCur s.decoders s.kvSelf
      -- an active decoder continues the sequence of some active decoder, with its window shift
      have hcur : ∀ cur ∈ sortedCandidates ctx x s, ∃ k < s.nDecodersCur, (s.decoders k).active ∧
          ∃ t, Sampled ctx.vocab (s.decoders k).scores.probs t ∧
            cur.sequence = (s.decoders k).sequence.push t ∧ cur.hasTs = (s.decoders k).hasTs ∧
            cur.seekDelta = (s.decoders k).seekDelta := by
        intro cur hcur
        obtain ⟨k, hk, hact, t, ht, rfl⟩ := mem_allCandidates (mem_sortCandidates.mp hcur)
        exact ⟨k, hk, hact, t, ht, rfl, rfl, rfl⟩
      refine ⟨fun _ j => ?_, fun j hj => ?_⟩
      · have hrej := hre j
        simp only
        split at hrej
        · obtain ⟨cur, hmem, heq⟩ := hrej
          obtain ⟨k, hk, hact, t, ht, hseq, -⟩ := hcur cur hmem
          rw [heq]
          exact fun _ => (hsound k (hph.window_eq k hk)).push (htracking k hk hact).2 ht hseq
        · rw [hrej]
          exact hsound j
      · have hj : j < s.nDecodersCur := hj
        have hrej := hre j
        simp only
        split at hrej
        · obtain ⟨cur, hmem, heq⟩ := hrej
          obtain ⟨k, hk, hact, t, -, hseq, hhas, hdelta⟩ := hcur cur hmem
          intro _
          have htr := (htracking k hk hact).1
          rw [heq, Tracking]
          simp only [Decoder.inherit, hseq, Sequence.tokens_push, List.dropLast_concat]
          exact ⟨hhas.trans htr.hasTs_eq, hdelta.trans htr.seekDelta_eq⟩
        · rename_i hjact
          rw [hrej]
          exact fun hact => absurd ⟨hj, hact⟩ hjact

theorem building_stepUpdate {it i : ℕ} (hpc : s.pc = .update it i) (hph : Phase ctx s)
    (h : Building ctx s) : Building ctx (stepUpdate ctx it i s) := by
  rw [Phase, hpc] at hph
  have hsound := h.sound (by rw [hpc]; rfl)
  rw [stepUpdate]
  split
  · exact .of_outside rfl
  · rename_i hcrash
    have hdec : ∀ j, ((s.decoders j).window = s.windows →
          Sound ctx s.params ((s.updateAll ctx i).decoders j)) ∧
        (j < s.nDecodersCur → ((s.updateAll ctx i).decoders j).active →
          Tracks ctx.vocab ((s.updateAll ctx i).decoders j).sequence.tokens
            ((s.updateAll ctx i).decoders j)) := by
      intro j
      have heq : (s.updateAll ctx i).decoders j = (updated ctx i s j).getD (s.decoders j) := rfl
      by_cases hj : j < s.nDecodersCur ∧ (s.decoders j).active
      · obtain ⟨hbuilt, hle⟩ := hsound j (hph.window_eq j hj.1)
        obtain ⟨d, hd⟩ := Option.ne_none_iff_exists'.mp fun hnone => hcrash ⟨j, hj.1, hnone⟩
        rw [hd, Option.getD_some] at heq
        rw [updated, if_pos hj] at hd
        have htr := h.tracking j hj.1 hj.2
        rw [Tracking, hpc] at htr
        have htok := (updateDecoder_tokens hj.2 hd).1
        obtain ⟨hle', htr'⟩ :=
          updateDecoder_tracks hj.2 (hph.length_eq j hj.1 hj.2) htr hle hd
        rw [heq]
        exact ⟨fun _ => ⟨htok ▸ hbuilt, hle'⟩, fun _ => htr'⟩
      · rw [updated, if_neg hj, Option.getD_some] at heq
        rw [heq]
        exact ⟨hsound j, fun hlt hact => absurd ⟨hlt, hact⟩ hj⟩
    have hwin : ∀ j, ((s.updateAll ctx i).decoders j).window = (s.decoders j).window :=
      fun j => (updateAll_decoders ctx i s j).2.2.1
    split
    · exact .of_sound (fun j hj => (hdec j).1 ((hwin j).symm.trans hj)) fun _ => trivial
    · refine ⟨fun _ j => ?_, fun j hj => ?_⟩
      · obtain ⟨b, heq⟩ := prepareNext_decoder_eq it i (s.updateAll ctx i) j
        rw [heq]
        intro hj
        obtain ⟨hbuilt, hle⟩ := (hdec j).1 ((hwin j).symm.trans hj)
        exact ⟨hbuilt, hle⟩
      · obtain ⟨b, heq⟩ := prepareNext_decoder_eq it i (s.updateAll ctx i) j
        rw [heq]
        intro hact
        obtain ⟨hhas, hdelta⟩ := (hdec j).2 hj hact
        exact ⟨hhas, hdelta⟩

theorem building_stepRank {it : ℕ} (hpc : s.pc = .rank it) (h : Building ctx s) :
    Building ctx (stepRank ctx it s) := by
  have hsound := h.sound (by rw [hpc]; rfl)
  have hranked : ∀ j, ((s.rankAll ctx).decoders j).window = s.windows →
      Sound ctx s.params ((s.rankAll ctx).decoders j) := by
    intro j
    simp only [State.rankAll]
    split
    · obtain ⟨-, hwin, hlen, htok⟩ := (s.decoders j).ranked_eq ctx s.params
      intro hw
      obtain ⟨hbuilt, hle⟩ := hsound j (hwin ▸ hw)
      have htrunc : (s.decoders j).sequence.truncate.tokens =
          (s.decoders j).sequence.tokens.take (s.decoders j).sequence.resultLen := by
        rw [Sequence.truncate, Nat.sub_eq_zero_of_le hle, List.replicate_zero, List.append_nil]
      rcases htok with htok | htok
      · exact ⟨htok ▸ hbuilt, by rw [hlen, htok]; exact hle⟩
      · rw [htrunc] at htok
        refine ⟨htok ▸ hbuilt.take _, ?_⟩
        rw [hlen, htok, List.length_take]
        omega
    · exact hsound j
  rw [stepRank]
  split <;> exact .of_sound hranked fun _ => trivial

theorem building_stepDecode {site : Site} (hpc : s.pc = .decode site) (hph : Phase ctx s)
    (h : Building ctx s) (x : Input K F G) : Building ctx (stepDecode ctx x site s) := by
  cases site with
  | detect => exact .of_outside (outside_stepDecode_detect s).pc_outside
  | prompt it =>
    rw [stepDecode]
    split
    · exact building_decodedPrompt hpc hph h x
    · exact .of_outside rfl
  | next it i =>
    rw [stepDecode]
    split
    · exact building_decodedNext hpc h x
    · exact .of_outside rfl
  | dtw =>
    rw [stepDecode]
    split
    · exact .of_sound (h.sound (by rw [hpc]; rfl)) fun _ => trivial
    · exact .of_outside rfl

theorem building_step (h : Reachable ctx s) (hb : Building ctx s) (x : Input K F G) :
    Building ctx (step ctx x s) := by
  have hph := Reachable.phase h
  refine step_cases (fun _ _ => .of_outside (outside_stepCall s).pc_outside)
    (fun t _ => .of_outside (outside_stepSchedule t s).pc_outside)
    (fun _ hpc => building_stepDecode hpc hph hb x) (fun hpc => ?_)
    (fun _ hpc => building_stepAttempt hpc hb) (fun _ _ hpc => building_stepSample hpc hph hb)
    (fun _ _ hpc => building_stepUpdate hpc hph hb) (fun _ hpc => building_stepRank hpc hb)
    (fun hpc => ?_) (fun _ => .of_outside rfl) fun _ => hb
  · rw [stepWindow]
    split
    · exact .of_outside rfl
    split
    · exact .of_outside rfl
    split
    · exact .of_outside rfl
    · -- no decoder was reset in the new window yet
      refine .of_sound (fun j hj => ?_) fun _ => trivial
      have hle := (Reachable.shifts h j).1
      have hj : (s.decoders j).window = s.windows + 1 := hj
      omega
  · have hsound := hb.sound (by rw [hpc]; rfl)
    rw [stepEmit]
    split
    · exact .of_outside rfl
    split
    · split
      · exact .of_outside rfl
      · exact .of_sound hsound fun _ => trivial
    · exact .of_sound hsound fun _ => trivial

/-- **The decoders of a window sample one token after the other**, in every reachable state. -/
theorem Reachable.building (h : Reachable ctx s) : Building ctx s :=
  h.invariant (fun s hs => .of_outside (by rw [hs.pc_eq]; rfl)) fun _ x hr _ hb =>
    building_step hr hb x

end Building

end Full

end WhisperCpp
