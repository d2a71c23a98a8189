import Mathlib.Data.List.Sort
import WhisperCpp.Full.Logits

/-!
# One step of all decoders

An iteration of the decode loop lets every active decoder sample: in the greedy strategy one token
each, in beam search several candidates each, of which the best continuations are handed out to
the decoders while the KV cache is reshuffled. Then every decoder is updated: its window shift
moves with the timestamps, and it may complete or fail. At the end of an attempt the sequences are
ranked.

## Main definitions

* `sampleGreedy`, `candidates`, `reassign` — sampling and the distribution of beam candidates
* `updateDecoder` — completion, failure and the sliding window
* `Decoder.ranked`, `bestDecoder` — the ranking

## Main results

* `mem_sortCandidates` — sorting neither loses nor invents candidates
* `reassign_decoders` — every active decoder continues some candidate
* `updateDecoder_spec` — what an update can do
-/

namespace WhisperCpp

namespace Full

variable {K F G : Type*} [Field K] [LinearOrder K]

/-- `n_decoders`, the number of decoders a call asks for. -/
def nDecoders (p : Params K F G) : ℤ :=
  max 1 (match p.strategy with
    | .greedy => p.bestOf
    | .beamSearch => max p.bestOf p.beamSize)

/-- `n_decoders_cur` at temperature `t`. -/
def nDecodersAt (ctx : Context K F G) (p : Params K F G) (t : F) : ℕ :=
  (max 1 (match p.strategy with
    | .greedy => if ctx.temp.lt ctx.temp.zero t then p.bestOf else 1
    | .beamSearch => if ctx.temp.lt ctx.temp.zero t then p.bestOf else p.beamSize)).toNat

/-- `n_max`, the bound of the decode loop. -/
def nMax (ctx : Context K F G) : ℤ := (ctx.hparams.nTextCtx / 2 : ℕ) - 4

/-- A decoder at the start of an attempt. -/
def Decoder.reset (d : Decoder K G) (grammar : Option G) (window : ℕ) : Decoder K G :=
  { d with
    sequence := ⟨[], 0, 0, ⊥, ⊥, 0, ⊥⟩
    grammar := grammar
    seekDelta := chunk
    failed := false
    completed := false
    hasTs := false
    window := window }

/-- The sequence with a further token. -/
def Sequence.push (s : Sequence K) (t : TokenData K) : Sequence K :=
  { s with tokens := s.tokens ++ [t], sumLogprobsAll := s.sumLogprobsAll + t.plog }

/-! ### Sampling -/

/-- The greedy strategy: one token for the decoder. -/
def sampleGreedy (ctx : Context K F G) (t : F) (r : ℕ) (d : Decoder K G) : Decoder K G :=
  { d with
    sequence :=
      d.sequence.push (sampleToken ctx.vocab d.scores (ctx.temp.lt t ctx.temp.eps) r) }

/-- `beam_candidate`: a continuation of the sequence of decoder `decoderIdx`. -/
structure Candidate (K G : Type*) where
  decoderIdx : ℕ
  seekDelta : ℤ
  hasTs : Bool
  sequence : Sequence K
  grammar : Option G

/-- The candidates of decoder `j` in beam search. -/
def candidates (v : Vocab) (p : Params K F G) (r : ℕ → ℕ) (j : ℕ) (d : Decoder K G) :
    List (Candidate K G) :=
  (sampleTokenTopk v d.scores p.beamSize.toNat r).map fun t =>
    ⟨j, d.seekDelta, d.hasTs, d.sequence.push t, d.grammar⟩

/-- The candidates of all decoders. -/
def allCandidates (v : Vocab) (p : Params K F G) (r : ℕ → ℕ → ℕ) (nCur : ℕ)
    (decoders : ℕ → Decoder K G) : List (Candidate K G) :=
  (List.range nCur).flatMap fun j =>
    if (decoders j).active then candidates v p (r j) j (decoders j) else []

/-- The order of the candidates: the larger sum of log-probabilities first, then the smaller
decoder. The sort is not stable; the rank decides the rest. -/
def Before (a b : Candidate K G × ℕ) : Prop :=
  if a.1.sequence.sumLogprobsAll ≠ b.1.sequence.sumLogprobsAll then
    b.1.sequence.sumLogprobsAll < a.1.sequence.sumLogprobsAll
  else if a.1.decoderIdx ≠ b.1.decoderIdx then a.1.decoderIdx < b.1.decoderIdx
  else a.2 ≤ b.2

instance : DecidableRel (Before (K := K) (G := G)) := fun a b => by
  rw [Before]
  infer_instance

/-- `std::sort` of the candidates, with the ranks `tie` for what it leaves open. -/
def sortCandidates (tie : ℕ → ℕ) (cs : List (Candidate K G)) : List (Candidate K G) :=
  ((cs.zipIdx.map fun e => (e.1, tie e.2)).insertionSort Before).map Prod.fst

/-- The candidate handed out next, and the index after it. Equal sequences behind it are skipped,
except at the first token. -/
def takeCandidate (cs : List (Candidate K G)) (i curC : ℕ) : Option (Candidate K G × ℕ) :=
  let c := if cs.length ≤ curC then 0 else curC
  cs[c]?.map fun cur =>
    (cur, c + 1 + if 0 < i then
      ((cs.drop (c + 1)).takeWhile fun b => ids b.sequence.tokens = ids cur.sequence.tokens).length
    else 0)

/-- The decoder continues the candidate. -/
def Decoder.inherit (d : Decoder K G) (cur : Candidate K G) : Decoder K G :=
  { d with
    seekDelta := cur.seekDelta
    hasTs := cur.hasTs
    sequence := cur.sequence
    grammar := cur.grammar }

/-- The first loop over the decoders: hand out candidates, and tag the cells of the candidate's
origin with the temporary id of the decoder. -/
def reassignStep (cs : List (Candidate K G)) (i : ℕ) (acc : ℕ × (ℕ → Decoder K G) × KvCache)
    (j : ℕ) : ℕ × (ℕ → Decoder K G) × KvCache :=
  if (acc.2.1 j).active then
    match takeCandidate cs i acc.1 with
    | none => acc
    | some (cur, curC) =>
      (curC, Function.update acc.2.1 j ((acc.2.1 j).inherit cur),
        acc.2.2.seqCp cur.decoderIdx (maxDecoders + j) (-1) (-1))
  else acc

/-- The second loop: the temporary id becomes the id of the decoder. -/
def shuffleStep (decoders : ℕ → Decoder K G) (kv : KvCache) (j : ℕ) : KvCache :=
  if (decoders j).active then
    ((kv.seqRm (some j) (-1) (-1)).seqCp (maxDecoders + j) j (-1) (-1)).seqRm
      (some (maxDecoders + j)) (-1) (-1)
  else kv

/-- The distribution of the candidates in beam search. -/
def reassign (cs : List (Candidate K G)) (i nCur : ℕ) (decoders : ℕ → Decoder K G) (kv : KvCache) :
    (ℕ → Decoder K G) × KvCache :=
  let acc := (List.range nCur).foldl (reassignStep cs i) (0, decoders, kv)
  (acc.2.1, (List.range nCur).foldl (shuffleStep acc.2.1) acc.2.2)

/-! ### The update of a decoder -/

section Update

variable (ctx : Context K F G) (p : Params K F G) (seek seekEnd : ℤ) (i : ℕ)

/-- The sampled timestamp lies before the window shift found so far. -/
def goesBack (d : Decoder K G) (token : TokenData K) : Bool :=
  ctx.vocab.tokenBeg < token.id && d.hasTs &&
    2 * ((token.id : ℤ) - ctx.vocab.tokenBeg) < d.seekDelta && d.sequence.resultLen < i

/-- A timestamp token moves the window. -/
def Decoder.slide (d : Decoder K G) (token : TokenData K) : Decoder K G :=
  if ctx.vocab.tokenBeg < token.id then
    { d with
      seekDelta := 2 * ((token.id : ℤ) - ctx.vocab.tokenBeg)
      hasTs := true
      sequence := { d.sequence with resultLen := i + 1 } }
  else d

/-- `whisper_grammar_accept_token`. A decoder without a grammar accepts everything. -/
def Decoder.acceptToken (d : Decoder K G) (id : ℕ) : Option (Decoder K G) :=
  match d.grammar with
  | none => some d
  | some g => (ctx.grammar.acceptToken g id).map fun g' => { d with grammar := some g' }

/-- With the window shift of the decoder, no more than 100 ms of audio remain. -/
def endOfAudio (d : Decoder K G) : Bool := seekEnd ≤ seek + d.seekDelta + deltaMin

/-- The segment of the decoder ends. -/
def Decoder.complete (d : Decoder K G) : Decoder K G :=
  if p.singleSegment || p.noTimestamps then
    { d with
      seekDelta := chunk
      completed := true
      sequence := { d.sequence with resultLen := i + 1 } }
  else { d with completed := true }

/-- Whether the token ends the segment. -/
def endsSegment (d : Decoder K G) (id : ℕ) : Bool :=
  id == ctx.vocab.tokenEot || (0 < p.maxTokens && p.maxTokens ≤ i) ||
    (d.hasTs && endOfAudio seek seekEnd d)

/-- Completion and failure, after the window has moved. -/
def Decoder.conclude (d : Decoder K G) (id : ℕ) : Decoder K G :=
  if endsSegment ctx p seek seekEnd i d id then
    if d.sequence.resultLen = 0 && !p.noTimestamps then
      if endOfAudio seek seekEnd d then
        Decoder.complete p i { d with sequence := { d.sequence with resultLen := i + 1 } }
      else { d with failed := true }
    else d.complete p i
  else if ctx.nLoaded = 0 then { d with seekDelta := chunk, completed := true }
  else if i = nMax ctx - 1 ∧ (d.sequence.resultLen = 0 ∨ d.seekDelta < chunk / 2) then
    -- stuck in a repetition loop
    { d with failed := true }
  else d

/-- The update of an active decoder after sampling; none if the grammar crashes. -/
def updateDecoder (d : Decoder K G) : Option (Decoder K G) :=
  match d.sequence.tokens.getLast? with
  | none => none
  | some token =>
    if goesBack ctx i d token then some { d with failed := true }
    else ((d.slide ctx i token).acceptToken ctx token.id).map fun d' =>
      d'.conclude ctx p seek seekEnd i token.id

end Update

/-! ### Ranking -/

/-- `tokens.resize(result_len)`. -/
def Sequence.truncate (s : Sequence K) : Sequence K :=
  { s with
    tokens := s.tokens.take s.resultLen ++
      List.replicate (s.resultLen - s.tokens.length) ⟨0, 0, 0, 0, 0, 0⟩ }

/-- The score of a decoder that has not failed; it fails if it repeats itself. -/
def Decoder.ranked (ctx : Context K F G) (p : Params K F G) (d : Decoder K G) : Decoder K G :=
  if d.failed then d
  else
    let s := d.sequence.truncate.scored ctx.arith p
    { d with sequence := s, failed := 32 < s.resultLen ∧ s.entropy < p.entropyThold }

/-- `best_decoder_id`: the first best of the decoders that have not failed, else what it was. -/
def bestDecoder (decoders : ℕ → Decoder K G) (nCur best : ℕ) : ℕ :=
  ((List.range nCur).foldl (fun (b : WithBot K × ℕ) j =>
    if (decoders j).failed then b
    else if b.1 < (decoders j).sequence.score then ((decoders j).sequence.score, j) else b)
    (⊥, best)).2

/-! ### Candidates and their distribution -/

section Lemmas

variable {ctx : Context K F G} {p : Params K F G} {d d' : Decoder K G}

omit [LinearOrder K] in
@[simp] theorem Sequence.tokens_push (s : Sequence K) (t : TokenData K) :
    (s.push t).tokens = s.tokens ++ [t] := rfl

omit [LinearOrder K] in
@[simp] theorem Sequence.resultLen_push (s : Sequence K) (t : TokenData K) :
    (s.push t).resultLen = s.resultLen := rfl

omit [Field K] [LinearOrder K] in
@[simp] theorem Decoder.active_inherit (d : Decoder K G) (cur : Candidate K G) :
    (d.inherit cur).active = d.active := rfl

omit [Field K] [LinearOrder K] in
theorem Decoder.active_iff : d.active = true ↔ d.completed = false ∧ d.failed = false := by
  simp [Decoder.active]

omit [Field K] in
theorem mem_sortCandidates {tie : ℕ → ℕ} {cs : List (Candidate K G)} {c : Candidate K G} :
    c ∈ sortCandidates tie cs ↔ c ∈ cs := by
  have hperm : (sortCandidates tie cs).Perm cs := by
    rw [sortCandidates]
    refine ((List.perm_insertionSort _ _).map _).trans ?_
    rw [List.map_map]
    exact .of_eq (List.zipIdx_map_fst 0 cs)
  exact hperm.mem_iff

/-- A candidate continues the sequence of an active decoder by a sampled token. -/
theorem mem_allCandidates {r : ℕ → ℕ → ℕ} {nCur : ℕ} {decoders : ℕ → Decoder K G}
    {c : Candidate K G} (h : c ∈ allCandidates ctx.vocab p r nCur decoders) :
    ∃ j < nCur, (decoders j).active ∧ ∃ t, Sampled ctx.vocab (decoders j).scores.probs t ∧
      c = ⟨j, (decoders j).seekDelta, (decoders j).hasTs, (decoders j).sequence.push t,
        (decoders j).grammar⟩ := by
  obtain ⟨j, hj, hc⟩ := List.mem_flatMap.mp h
  split at hc
  · rename_i hact
    obtain ⟨t, ht, rfl⟩ := List.mem_map.mp hc
    exact ⟨j, List.mem_range.mp hj, hact, t, sampleTokenTopk_sampled ht, rfl⟩
  · cases hc

omit [Field K] [LinearOrder K] in
/-- From a nonempty list some candidate is handed out. -/
theorem exists_takeCandidate {cs : List (Candidate K G)} (hcs : cs ≠ []) (i curC : ℕ) :
    ∃ cur ∈ cs, ∃ curC', takeCandidate cs i curC = some (cur, curC') := by
  have hpos := List.length_pos_iff.mpr hcs
  have hlt : (if cs.length ≤ curC then 0 else curC) < cs.length := by split <;> omega
  have htake : ∃ curC', takeCandidate cs i curC = some (cs[if cs.length ≤ curC then 0 else curC],
      curC') := by
    simp only [takeCandidate, List.getElem?_eq_getElem hlt, Option.map_some]
    exact ⟨_, rfl⟩
  exact ⟨_, List.getElem_mem hlt, htake⟩

omit [Field K] [LinearOrder K] in
/-- One round of the first loop: an active decoder continues some candidate. -/
theorem reassignStep_active {cs : List (Candidate K G)} (hcs : cs ≠ []) {i : ℕ}
    {acc : ℕ × (ℕ → Decoder K G) × KvCache} {j : ℕ} (hj : (acc.2.1 j).active) :
    ∃ cur ∈ cs, (reassignStep cs i acc j).2.1 =
        Function.update acc.2.1 j ((acc.2.1 j).inherit cur) ∧
      (reassignStep cs i acc j).2.2 =
        acc.2.2.seqCp cur.decoderIdx (maxDecoders + j) (-1) (-1) := by
  obtain ⟨cur, hcur, curC, heq⟩ := exists_takeCandidate hcs i acc.1
  refine ⟨cur, hcur, ?_⟩
  rw [reassignStep]
  rw [if_pos hj, heq]
  exact ⟨rfl, rfl⟩

omit [Field K] [LinearOrder K] in
theorem reassignStep_inactive {cs : List (Candidate K G)} {i : ℕ}
    {acc : ℕ × (ℕ → Decoder K G) × KvCache} {j : ℕ} (hj : ¬ (acc.2.1 j).active) :
    reassignStep cs i acc j = acc := if_neg hj

omit [Field K] [LinearOrder K] in
theorem foldl_reassignStep {cs : List (Candidate K G)} (hcs : cs ≠ []) (i : ℕ) {js : List ℕ}
    (hnd : js.Nodup) (acc : ℕ × (ℕ → Decoder K G) × KvCache) (j : ℕ) :
    if j ∈ js ∧ (acc.2.1 j).active then
      ∃ cur ∈ cs, (js.foldl (reassignStep cs i) acc).2.1 j = (acc.2.1 j).inherit cur
    else (js.foldl (reassignStep cs i) acc).2.1 j = acc.2.1 j := by
  induction js generalizing acc with
  | nil => simp
  | cons k js ih =>
    obtain ⟨hk, hnd⟩ := List.nodup_cons.mp hnd
    have hrec := ih hnd (reassignStep cs i acc k)
    rw [List.foldl_cons]
    by_cases hact : (acc.2.1 k).active
    · obtain ⟨cur, hcur, hD, -⟩ := reassignStep_active hcs (i := i) hact
      rw [hD] at hrec
      by_cases hjk : j = k
      · subst hjk
        rw [if_neg (fun h => hk h.1), Function.update_self] at hrec
        rw [if_pos ⟨List.mem_cons_self .., hact⟩]
        exact ⟨cur, hcur, hrec⟩
      · simpa [Function.update_of_ne hjk, hjk] using hrec
    · rw [reassignStep_inactive hact] at hrec ⊢
      by_cases hjk : j = k
      · subst hjk
        rw [if_neg (fun h => hk h.1)] at hrec
        rw [if_neg (fun h => hact h.2)]
        exact hrec
      · simpa [hjk] using hrec

omit [Field K] [LinearOrder K] in
/-- **Every active decoder continues some candidate**, and the others are left alone. -/
theorem reassign_decoders {cs : List (Candidate K G)} (hcs : cs ≠ []) (i nCur : ℕ)
    (decoders : ℕ → Decoder K G) (kv : KvCache) (j : ℕ) :
    if j < nCur ∧ (decoders j).active then
      ∃ cur ∈ cs, (reassign cs i nCur decoders kv).1 j = (decoders j).inherit cur
    else (reassign cs i nCur decoders kv).1 j = decoders j := by
  have h := foldl_reassignStep hcs i (List.nodup_range (n := nCur)) (0, decoders, kv) j
  simpa [reassign] using h

/-! ### What an update can do -/

section Update

variable {seek seekEnd : ℤ} {i : ℕ}

/-- The window moves to a timestamp other than the first, and stays otherwise. -/
theorem Decoder.slide_eq (ctx : Context K F G) (i : ℕ) (d : Decoder K G) (token : TokenData K) :
    (d.slide ctx i token).sequence.tokens = d.sequence.tokens ∧
      (d.slide ctx i token).scores = d.scores ∧ (d.slide ctx i token).window = d.window ∧
      (d.slide ctx i token).active = d.active := by
  rw [Decoder.slide]
  split <;> exact ⟨rfl, rfl, rfl, rfl⟩

/-- Accepting a token changes the grammar only. -/
theorem Decoder.acceptToken_eq {id : ℕ} (h : d.acceptToken ctx id = some d') :
    ∃ g, d' = { d with grammar := g } := by
  rw [Decoder.acceptToken] at h
  split at h
  · exact ⟨d.grammar, (Option.some.inj h).symm⟩
  · obtain ⟨g, -, rfl⟩ := Option.map_eq_some_iff.mp h
    exact ⟨some g, rfl⟩

/-- What the conclusion of an update can do: nothing, or end the decoder, by completion with the
whole window or the shift found so far, or by failure. -/
structure Concludes (i : ℕ) (d d' : Decoder K G) : Prop where
  tokens_eq : d'.sequence.tokens = d.sequence.tokens
  scores_eq : d'.scores = d.scores
  window_eq : d'.window = d.window
  resultLen_eq : d'.sequence.resultLen = d.sequence.resultLen ∨ d'.sequence.resultLen = i + 1
  seekDelta_eq : d'.seekDelta = d.seekDelta ∨ d'.seekDelta = chunk
  eq_of_active : d'.active → d' = d

theorem Decoder.concludes (ctx : Context K F G) (p : Params K F G) (seek seekEnd : ℤ) (i : ℕ)
    (d : Decoder K G) (id : ℕ) (hd : d.active) :
    Concludes i d (d.conclude ctx p seek seekEnd i id) := by
  obtain ⟨hc, hf⟩ := Decoder.active_iff.mp hd
  unfold Decoder.conclude Decoder.complete
  split_ifs <;> constructor <;> simp [Decoder.active]

/-- **What an update can do.** The tokens stay. Either the sampled timestamp goes back and the
decoder fails, or the window moves and the decoder concludes from there. -/
theorem updateDecoder_spec (hd : d.active)
    (h : updateDecoder ctx p seek seekEnd i d = some d') :
    ∃ token, d.sequence.tokens.getLast? = some token ∧
      ((goesBack ctx i d token = true ∧ d' = { d with failed := true }) ∨
        (goesBack ctx i d token = false ∧
          ∃ g, Concludes i { d.slide ctx i token with grammar := g } d')) := by
  rw [updateDecoder] at h
  split at h
  · cases h
  · rename_i token htoken
    refine ⟨token, htoken, ?_⟩
    split at h
    · rename_i hback
      exact .inl ⟨hback, (Option.some.inj h).symm⟩
    · rename_i hback
      obtain ⟨d₁, hd₁, rfl⟩ := Option.map_eq_some_iff.mp h
      obtain ⟨g, rfl⟩ := Decoder.acceptToken_eq hd₁
      refine .inr ⟨by simpa using hback, g, Decoder.concludes ctx p seek seekEnd i _ token.id ?_⟩
      exact (d.slide_eq ctx i token).2.2.2.trans hd

end Update

theorem updateDecoder_tokens {seek seekEnd : ℤ} {i : ℕ} (hd : d.active)
    (h : updateDecoder ctx p seek seekEnd i d = some d') :
    d'.sequence.tokens = d.sequence.tokens ∧ d'.scores = d.scores ∧ d'.window = d.window := by
  obtain ⟨token, -, ⟨-, rfl⟩ | ⟨-, g, hcon⟩⟩ := updateDecoder_spec hd h
  · exact ⟨rfl, rfl, rfl⟩
  · obtain ⟨h1, h2, h3, -⟩ := d.slide_eq ctx i token
    exact ⟨hcon.tokens_eq.trans h1, hcon.scores_eq.trans h2, hcon.window_eq.trans h3⟩

/-! ### The ranking -/

theorem Decoder.ranked_eq (ctx : Context K F G) (p : Params K F G) (d : Decoder K G) :
    (d.ranked ctx p).seekDelta = d.seekDelta ∧ (d.ranked ctx p).window = d.window ∧
      (d.ranked ctx p).sequence.resultLen = d.sequence.resultLen ∧
      ((d.ranked ctx p).sequence.tokens = d.sequence.tokens ∨
        (d.ranked ctx p).sequence.tokens = d.sequence.truncate.tokens) := by
  rw [Decoder.ranked]
  split
  · exact ⟨rfl, rfl, rfl, .inl rfl⟩
  · rw [Sequence.scored]
    split <;> exact ⟨rfl, rfl, rfl, .inr rfl⟩

omit [Field K] in
/-- The best decoder is one of the current attempt, or the one chosen before. -/
theorem bestDecoder_cases (decoders : ℕ → Decoder K G) (nCur best : ℕ) :
    bestDecoder decoders nCur best = best ∨ bestDecoder decoders nCur best < nCur := by
  have hfold : ∀ (js : List ℕ) (b : WithBot K × ℕ), (∀ j ∈ js, j < nCur) →
      (b.2 = best ∨ b.2 < nCur) →
      (js.foldl (fun (b : WithBot K × ℕ) j => if (decoders j).failed then b
        else if b.1 < (decoders j).sequence.score then ((decoders j).sequence.score, j) else b)
        b).2 = best ∨
      (js.foldl (fun (b : WithBot K × ℕ) j => if (decoders j).failed then b
        else if b.1 < (decoders j).sequence.score then ((decoders j).sequence.score, j) else b)
        b).2 < nCur := by
    intro js
    induction js with
    | nil => exact fun b _ hb => hb
    | cons j js ih =>
      intro b hjs hb
      rw [List.foldl_cons]
      refine ih _ (fun k hk => hjs k (List.mem_cons_of_mem _ hk)) ?_
      split
      · exact hb
      · split
        · exact .inr (hjs j (List.mem_cons_self ..))
        · exact hb
  exact hfold _ _ (fun j hj => List.mem_range.mp hj) (.inl rfl)

end Lemmas

end Full

end WhisperCpp
