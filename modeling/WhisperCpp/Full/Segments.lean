import WhisperCpp.Full.Context

/-!
# Segments of a window

When a window is done, its tokens are cut into segments at the timestamps. The first segment
starts at the timestamp the model thinks of at the first token, every cut starts the next segment,
and what remains after the last cut ends at the new seek position.

## Main definitions

* `segments` — the segments of a window

## Main results

* `segmentLoop_ordered` — where the timestamps are ordered, so are the segments
-/

namespace WhisperCpp

namespace Full

variable {K F G : Type*} [Field K] [LinearOrder K]

/-- The time of the `tid` of a token, in a window at `seek`. -/
def stamp (v : Vocab) (seek : ℤ) (t : TokenData K) : ℤ := seek + 2 * ((t.tid : ℤ) - v.tokenBeg)

section Definitions

variable (ctx : Context K F G) (p : Params K F G) (seek seekDelta : ℤ) (noSpeechProb : K)

/-- The loop over the tokens of a window. After a cut, `skipping` is set: the timestamps that follow
the cut belong to no segment and move the start of the next one. `tokens` are those since the last
cut. -/
def segmentLoop : Bool → ℤ → String → Bool → List (TokenData K) → List (TokenData K) →
    List (Segment K)
  | _, t0, text, turn, tokens, [] =>
    if text = "" then [] else [⟨t0, seek + seekDelta, text, noSpeechProb, tokens, turn⟩]
  | skipping, t0, text, turn, tokens, t :: rest =>
    if skipping && ctx.vocab.tokenBeg < t.id then
      segmentLoop true (stamp ctx.vocab seek t)
        (if p.printSpecial then text ++ ctx.vocab.idToToken t.id else text) turn tokens rest
    else
      let text := if p.printSpecial || t.id < ctx.vocab.tokenEot then
        text ++ ctx.vocab.idToToken t.id else text
      let turn := turn || (p.tdrzEnable && t.id == ctx.vocab.tokenSolm)
      let tokens := tokens ++ [t]
      if ctx.vocab.tokenBeg < t.id && !p.singleSegment then
        (if text = "" then []
          else [⟨t0, stamp ctx.vocab seek t, text, noSpeechProb, tokens, turn⟩]) ++
          segmentLoop true (stamp ctx.vocab seek t) "" false [] rest
      else segmentLoop false t0 text turn tokens rest

/-- The segments of a window with the given tokens. -/
def segments : List (TokenData K) → List (Segment K)
  | [] => []
  | t :: rest =>
    segmentLoop ctx p seek seekDelta noSpeechProb false (stamp ctx.vocab seek t) "" false []
      (t :: rest)

end Definitions

/-- The times of the timestamps at which a window is cut. -/
def cuts (v : Vocab) (seek : ℤ) (tokens : List (TokenData K)) : List ℤ :=
  (tokens.filter fun t => v.tokenBeg < t.id).map (stamp v seek)

/-- Segments in order: each starts not before `lo` and not after its end, which is not after the
start of the next one and not after `hi`. -/
def Ordered (lo hi : ℤ) : List (Segment K) → Prop
  | [] => lo ≤ hi
  | s :: rest => lo ≤ s.t0 ∧ s.t0 ≤ s.t1 ∧ Ordered s.t1 hi rest

section Lemmas

variable {ctx : Context K F G} {p : Params K F G} {seek seekDelta : ℤ} {noSpeechProb : K}

omit [Field K] [LinearOrder K] in
theorem Ordered.le {lo hi : ℤ} {segs : List (Segment K)} (h : Ordered lo hi segs) : lo ≤ hi := by
  induction segs generalizing lo with
  | nil => exact h
  | cons s segs ih => exact h.1.trans (h.2.1.trans (ih h.2.2))

omit [Field K] [LinearOrder K] in
theorem Ordered.mono {lo lo' hi hi' : ℤ} {segs : List (Segment K)} (h : Ordered lo hi segs)
    (hlo : lo' ≤ lo) (hhi : hi ≤ hi') : Ordered lo' hi' segs := by
  induction segs generalizing lo lo' with
  | nil => exact hlo.trans (h.trans hhi)
  | cons s segs ih => exact ⟨hlo.trans h.1, h.2.1, ih h.2.2 le_rfl⟩

omit [Field K] [LinearOrder K] in
/-- Segments before a point and segments after it are in order together. -/
theorem Ordered.append {lo mid hi : ℤ} {xs ys : List (Segment K)} (hx : Ordered lo mid xs)
    (hy : Ordered mid hi ys) : Ordered lo hi (xs ++ ys) := by
  induction xs generalizing lo with
  | nil => exact hy.mono hx le_rfl
  | cons s xs ih => exact ⟨hx.1, hx.2.1, ih hx.2.2⟩

omit [Field K] [LinearOrder K] in
theorem Ordered.t0_le_t1 {lo hi : ℤ} {segs : List (Segment K)} (h : Ordered lo hi segs) :
    ∀ s ∈ segs, lo ≤ s.t0 ∧ s.t0 ≤ s.t1 ∧ s.t1 ≤ hi := by
  induction segs generalizing lo with
  | nil => simp
  | cons s segs ih =>
    intro s' hs'
    rcases List.mem_cons.mp hs' with rfl | hs'
    · exact ⟨h.1, h.2.1, h.2.2.le⟩
    · obtain ⟨h1, h2, h3⟩ := ih h.2.2 s' hs'
      exact ⟨h.1.trans (h.2.1.trans h1), h2, h3⟩

omit [Field K] [LinearOrder K] in
theorem Ordered.isChain {lo hi : ℤ} {segs : List (Segment K)} (h : Ordered lo hi segs) :
    segs.IsChain fun a b => a.t1 ≤ b.t0 := by
  induction segs generalizing lo with
  | nil => exact .nil
  | cons s segs ih =>
    refine List.isChain_cons.mpr ⟨fun b hb => ?_, ih h.2.2⟩
    obtain ⟨rest, rfl⟩ : ∃ rest, segs = b :: rest := by
      cases segs with
      | nil => simp at hb
      | cons c rest => simp only [List.head?_cons, Option.mem_some_iff] at hb; exact ⟨rest, by rw [hb]⟩
    exact h.2.2.1

omit [Field K] [LinearOrder K] in
theorem cuts_cons (v : Vocab) (t : TokenData K) (rest : List (TokenData K)) :
    cuts v seek (t :: rest) =
      if v.tokenBeg < t.id then stamp v seek t :: cuts v seek rest else cuts v seek rest := by
  unfold cuts
  rw [List.filter_cons]
  by_cases h : v.tokenBeg < t.id <;> simp [h]

/-- **Ordered timestamps give ordered segments.** The start of the first segment, the cuts and the
end of the window are in order; with `single_segment` there are no cuts. -/
theorem segmentLoop_ordered {skipping : Bool} {t0 : ℤ} {text : String} {turn : Bool}
    {tokens rest : List (TokenData K)} (hend : t0 ≤ seek + seekDelta)
    (hskip : p.singleSegment = true → skipping = false)
    (hcuts : p.singleSegment = false →
      (t0 :: cuts ctx.vocab seek rest).Pairwise (· ≤ ·) ∧
        ∀ c ∈ cuts ctx.vocab seek rest, c ≤ seek + seekDelta) :
    Ordered t0 (seek + seekDelta)
      (segmentLoop ctx p seek seekDelta noSpeechProb skipping t0 text turn tokens rest) := by
  induction rest generalizing skipping t0 text turn tokens with
  | nil =>
    rw [segmentLoop]
    split
    · exact hend
    · exact ⟨le_rfl, hend, le_rfl⟩
  | cons t rest ih =>
    rw [segmentLoop]
    by_cases hts : ctx.vocab.tokenBeg < t.id
    · rw [cuts_cons, if_pos hts] at hcuts
      cases hsingle : p.singleSegment with
      | true =>
        rw [hskip hsingle]
        simp only [Bool.false_and, Bool.false_eq_true, if_false, Bool.not_true, Bool.and_false]
        exact ih hend (fun _ => rfl) fun h => by rw [hsingle] at h; cases h
      | false =>
        obtain ⟨hpw, hle⟩ := hcuts hsingle
        obtain ⟨hlo, hpw'⟩ := List.pairwise_cons.mp hpw
        have ht := hlo _ (List.mem_cons_self ..)
        have hrec : ∀ text turn tokens, Ordered (stamp ctx.vocab seek t) (seek + seekDelta)
            (segmentLoop ctx p seek seekDelta noSpeechProb true (stamp ctx.vocab seek t) text turn
              tokens rest) := fun text turn tokens =>
          ih (hle _ (List.mem_cons_self ..)) (fun h => by rw [hsingle] at h; cases h) fun _ =>
            ⟨hpw', fun c hc => hle c (List.mem_cons_of_mem _ hc)⟩
        have hcut : ∀ (text : String) (s : Segment K), s.t0 = t0 → s.t1 = stamp ctx.vocab seek t →
            Ordered t0 (stamp ctx.vocab seek t) (if text = "" then [] else [s]) := by
          intro text s h0 h1
          split
          · exact ht
          · exact ⟨h0.ge, by rw [h0, h1]; exact ht, h1.le⟩
        simp only [hts, decide_true, Bool.and_true, Bool.not_false, if_true]
        split
        · exact (hrec _ _ _).mono ht le_rfl
        · exact (hcut _ _ rfl rfl).append (hrec _ _ _)
    · rw [cuts_cons, if_neg hts] at hcuts
      simp only [hts, decide_false, Bool.and_false, Bool.false_eq_true, if_false, Bool.false_and]
      exact ih hend (fun _ => rfl) hcuts

/-- The segments hold no more tokens than the window. -/
theorem length_segmentLoop_le {skipping : Bool} {t0 : ℤ} {text : String} {turn : Bool}
    {tokens rest : List (TokenData K)} :
    ((segmentLoop ctx p seek seekDelta noSpeechProb skipping t0 text turn tokens rest).flatMap
      Segment.tokens).length ≤ tokens.length + rest.length := by
  induction rest generalizing skipping t0 text turn tokens with
  | nil =>
    rw [segmentLoop]
    split_ifs <;> simp
  | cons t rest ih =>
    have hcut : ∀ (text : String) (seg : Segment K),
        ((if text = "" then [] else [seg]).flatMap Segment.tokens).length ≤ seg.tokens.length := by
      intro text seg
      split_ifs <;> simp
    rw [segmentLoop, List.length_cons]
    split
    · exact ih.trans (by omega)
    · simp only
      split
      · rw [List.flatMap_append, List.length_append]
        refine (Nat.add_le_add (hcut _ _) ih).trans ?_
        simp only [List.length_append, List.length_singleton, List.length_nil]
        omega
      · refine ih.trans ?_
        rw [List.length_append, List.length_singleton]
        omega

theorem length_segments_le (tokens : List (TokenData K)) :
    ((segments ctx p seek seekDelta noSpeechProb tokens).flatMap Segment.tokens).length ≤
      tokens.length := by
  cases tokens with
  | nil => exact le_rfl
  | cons t rest =>
    rw [segments]
    exact length_segmentLoop_le.trans (by simp)

end Lemmas

end Full

end WhisperCpp
