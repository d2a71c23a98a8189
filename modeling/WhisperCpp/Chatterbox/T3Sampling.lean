import Mathlib.Algebra.Order.BigOperators.Group.List
import Mathlib.Data.List.MinMax
import WhisperCpp.Chatterbox.RepeatPenalty
import WhisperCpp.Library.Ranks
import WhisperCpp.Library.SortUnique

/-!
# Sampling a speech token

The samplers of T3 turn logits into a token: they scale them, filter them and draw one of those that
are left. A score that is filtered out is `-INFINITY`. Of scores that a sort does not order nothing is
known. `exp`, `log`, the rounded subtraction from a threshold and the random draws are parameters.

## Main definitions

* `sampleNextTokenEx` — the sampler for one language
* `sampleNextTokenMtl` — the multilingual one

## Main results

* `exists_topPTurbo`, `exists_topPMtl` — `top_p` leaves a token with the largest score
* `topKTurbo_ne_bot_iff`, `topKMtl_ne_bot_iff` — what `top_k` leaves
* `exists_firstReach` — a draw above zero hits a token with a weight
-/

namespace WhisperCpp

namespace Chatterbox

open Ranks (ranked)
open SortUnique (sortBy)

/-- `chatterbox_sampling_params`. -/
structure SamplingParams (K : Type*) where
  topK : ℤ
  topP : K
  temp : K
  repeatPenalty : K
  minP : K
  cfgWeight : K

section Definitions

variable {K : Type*} [Field K] [LinearOrder K] (exp log lower : K → K) (tie : ℕ → ℕ) (n : ℕ)

/-- The weight of a score next to the largest one: `exp` of the difference, and zero for
`-INFINITY`. -/
def weight : WithBot K → WithBot K → K
  | .some mx, .some x => exp (x - mx)
  | _, _ => 0

/-- The largest of `n` scores. -/
def maxOf (s : ℕ → WithBot K) : WithBot K := ((List.range n).map s).foldl max ⊥

/-- The scores, as a list. -/
def scoreList (s : ℕ → WithBot K) : List (WithBot K) := (List.range n).map s

/-- The weights of `n` scores. -/
def weights (mx : WithBot K) (s : ℕ → WithBot K) : List K :=
  (List.range n).map fun i => weight exp mx (s i)

/-- The tokens up to the one with which the probabilities reach `top_p`. -/
def keepPrefix (topP : K) : K → List (ℕ × K) → List ℕ
  | _, [] => []
  | cum, (i, p) :: rest => i :: if topP ≤ cum + p then [] else keepPrefix topP (cum + p) rest

/-! ### The sampler for one language -/

/-- The temperature of `sample_next_token_ex`. -/
def scaleTurbo (temp : K) (logits : ℕ → K) : ℕ → K :=
  if 0 < temp ∧ temp ≠ 1 then fun i => logits i * (1 / temp) else logits

/-- `top_k` of `sample_next_token_ex`: if fewer than `top_k` scores are above the next one, that one
is lowered by `1e-10f`. -/
def topKTurbo (topK : ℤ) (s : ℕ → WithBot K) : ℕ → WithBot K :=
  if 0 < topK ∧ topK < n then
    let threshold := ranked (scoreList n s) topK.toNat
    let kept := (scoreList n s).countP fun x => decide (threshold < x)
    let threshold := if (kept : ℤ) < topK then threshold.map lower else threshold
    fun i => if s i ≤ threshold then ⊥ else s i
  else s

/-- `top_p` of `sample_next_token_ex`. -/
def topPTurbo (topP : K) (s : ℕ → WithBot K) : ℕ → WithBot K :=
  if topP < 1 then
    let sorted := sortBy (fun i => OrderDual.toDual (s i)) tie
      ((List.range n).filter fun i => s i ≠ ⊥)
    let mx := (sorted.head?.map s).getD 0
    let psum := (sorted.map fun i => weight exp mx (s i)).sum
    let keepSet := keepPrefix topP 0 (sorted.map fun i => (i, weight exp mx (s i) / psum))
    let keepSet := if keepSet = [] ∧ sorted ≠ [] then sorted.take 1 else keepSet
    fun i => if i ∈ keepSet then s i else ⊥
  else s

/-- The scores in front of the filters. -/
def turboLogits (params : SamplingParams K) (logits : ℕ → K) : ℕ → WithBot K :=
  fun i => (scaleTurbo params.temp logits i : K)

/-- The scores that `top_k` leaves. -/
def topKScores (params : SamplingParams K) (logits : ℕ → K) : ℕ → WithBot K :=
  topKTurbo lower n params.topK (turboLogits params logits)

/-- The scores that the filters of `sample_next_token_ex` leave. -/
def turboFiltered (params : SamplingParams K) (logits : ℕ → K) : ℕ → WithBot K :=
  topPTurbo exp tie n params.topP (topKScores lower n params logits)

/-- The scores with their penalty. -/
def turboScores (params : SamplingParams K) (generated : List ℤ) (logits : ℕ → K) :
    ℕ → WithBot K :=
  penalizeTurbo n generated params.repeatPenalty (turboFiltered exp lower tie n params logits)

/-- `psum` of `sample_next_token_ex`. -/
def turboPsum (params : SamplingParams K) (generated : List ℤ) (logits : ℕ → K) : K :=
  let scores := turboScores exp lower tie n params generated logits
  (weights exp n (maxOf n scores) scores).sum

/-- `sample_next_token_ex`; `draw` is `std::discrete_distribution`. -/
def sampleNextTokenEx (draw : List K → ℕ) (params : SamplingParams K) (generated : List ℤ)
    (logits : ℕ → K) : ℤ :=
  let scores := turboScores exp lower tie n params generated logits
  let psum := turboPsum exp lower tie n params generated logits
  if psum = 0 then 0
  else
    let probs := (weights exp n (maxOf n scores) scores).map (· / psum)
    if params.temp ≤ 0 then (((List.range n).argmax fun i => probs.getD i 0).getD 0 : ℕ)
    else (draw probs : ℕ)

/-! ### The multilingual sampler -/

/-- The logits with their guidance. -/
def guided (cfgWeight : K) (logitsCond logitsUncond : ℕ → K) : ℕ → K :=
  fun i => logitsCond i + cfgWeight * (logitsCond i - logitsUncond i)

/-- The temperature of `sample_next_token_mtl`. -/
def scaleMtl (temp : K) (l : ℕ → K) : ℕ → K :=
  if 0 < temp ∧ temp ≠ 1 then fun i => l i / temp else l

/-- `min_p`. -/
def minPMtl (minP : K) (l : ℕ → WithBot K) : ℕ → WithBot K :=
  if 0 < minP then
    let thresh := (maxOf n l).map (· + log minP)
    fun i => if l i < thresh then ⊥ else l i
  else l

/-- `top_p` of `sample_next_token_mtl`. -/
def topPMtl (topP : K) (l : ℕ → WithBot K) : ℕ → WithBot K :=
  if topP < 1 ∧ 0 < topP then
    let idx := sortBy (fun i => OrderDual.toDual (l i)) tie (List.range n)
    let maxl := (idx.head?.map l).getD ⊥
    let sum := (weights exp n maxl l).sum
    let kept := keepPrefix topP 0 (idx.map fun i => (i, weight exp maxl (l i) / sum))
    fun i => if i ∈ kept then l i else ⊥
  else l

/-- `top_k` of `sample_next_token_mtl`. -/
def topKMtl (topK : ℤ) (l : ℕ → WithBot K) : ℕ → WithBot K :=
  if 0 < topK ∧ topK < n then
    let cut := ranked (scoreList n l) (topK - 1).toNat
    fun i => if l i < cut then ⊥ else l i
  else l

/-- The logits in front of the filters. -/
def mtlLogits (params : SamplingParams K) (generated : List ℤ)
    (logitsCond logitsUncond : ℕ → K) : ℕ → WithBot K :=
  let l := penalizeMtl n generated params.repeatPenalty
    (guided params.cfgWeight logitsCond logitsUncond)
  fun i => (scaleMtl params.temp l i : K)

/-- The logits that `min_p` leaves. -/
def minPLogits (params : SamplingParams K) (generated : List ℤ)
    (logitsCond logitsUncond : ℕ → K) : ℕ → WithBot K :=
  minPMtl log n params.minP (mtlLogits n params generated logitsCond logitsUncond)

/-- The logits that `top_p` leaves. -/
def topPLogits (params : SamplingParams K) (generated : List ℤ)
    (logitsCond logitsUncond : ℕ → K) : ℕ → WithBot K :=
  topPMtl exp tie n params.topP (minPLogits log n params generated logitsCond logitsUncond)

/-- The logits that the filters of `sample_next_token_mtl` leave. -/
def mtlFiltered (params : SamplingParams K) (generated : List ℤ)
    (logitsCond logitsUncond : ℕ → K) : ℕ → WithBot K :=
  topKMtl n params.topK (topPLogits exp log tie n params generated logitsCond logitsUncond)

/-- The first index at which the weights reach `r`. -/
def firstReach (r : K) : K → ℕ → List K → Option ℕ
  | _, _, [] => none
  | cum, i, p :: probs => if r ≤ cum + p then some i else firstReach r (cum + p) (i + 1) probs

/-- `sample_next_token_mtl`; `u` is the draw of `std::uniform_real_distribution`, as a part of its
range. -/
def sampleNextTokenMtl (u : K) (stopToken : ℤ) (params : SamplingParams K) (generated : List ℤ)
    (logitsCond logitsUncond : ℕ → K) : ℤ :=
  let l := mtlFiltered exp log tie n params generated logitsCond logitsUncond
  let maxl := maxOf n l
  if maxl = ⊥ then stopToken
  else
    let probs := weights exp n maxl l
    ((firstReach (u * probs.sum) 0 0 probs).getD (n - 1) : ℕ)

end Definitions

/-! ### The largest score -/

section Largest

variable {K : Type*} [LinearOrder K] {n : ℕ} {s : ℕ → WithBot K}

theorem foldl_max_spec (l : List (WithBot K)) (b : WithBot K) :
    (∀ x ∈ l, x ≤ l.foldl max b) ∧ b ≤ l.foldl max b ∧ (l.foldl max b = b ∨ l.foldl max b ∈ l) := by
  induction l generalizing b with
  | nil => simp
  | cons a l ih =>
    obtain ⟨hle, hb, hmem⟩ := ih (max b a)
    rw [List.foldl_cons]
    refine ⟨?_, (le_max_left b a).trans hb, ?_⟩
    · intro x hx
      rcases List.mem_cons.1 hx with rfl | hx
      · exact (le_max_right b x).trans hb
      · exact hle x hx
    · rcases hmem with heq | hmem
      · rw [heq]
        rcases max_choice b a with h | h
        · exact .inl h
        · exact .inr (by rw [h]; exact List.mem_cons_self)
      · exact .inr (List.mem_cons_of_mem _ hmem)

theorem le_maxOf {i : ℕ} (hi : i < n) : s i ≤ maxOf n s :=
  (foldl_max_spec _ ⊥).1 _ (List.mem_map_of_mem (List.mem_range.2 hi))

/-- The largest score is one of them. -/
theorem exists_eq_maxOf (hn : 0 < n) : ∃ i < n, s i = maxOf n s := by
  rcases (foldl_max_spec ((List.range n).map s) ⊥).2.2 with hbot | hmem
  · exact ⟨0, hn, le_antisymm (le_maxOf hn) (by rw [maxOf, hbot]; exact bot_le)⟩
  · obtain ⟨i, hi, heq⟩ := List.mem_map.1 hmem
    exact ⟨i, List.mem_range.1 hi, heq⟩

theorem maxOf_ne_bot {i : ℕ} (hi : i < n) (hs : s i ≠ ⊥) : maxOf n s ≠ ⊥ := by
  intro hbot
  exact hs (le_bot_iff.1 (hbot ▸ le_maxOf hi))

omit [LinearOrder K] in
theorem mem_scoreList {i : ℕ} (hi : i < n) : s i ∈ scoreList n s :=
  List.mem_map_of_mem (List.mem_range.2 hi)

omit [LinearOrder K] in
@[simp] theorem length_scoreList : (scoreList n s).length = n := by
  simp [scoreList]

/-- A sort puts a largest score first. -/
theorem exists_head_sortBy (tie : ℕ → ℕ) {l : List ℕ} (hne : l ≠ []) :
    ∃ i rest, sortBy (fun i => OrderDual.toDual (s i)) tie l = i :: rest ∧ i ∈ l ∧
      ∀ j ∈ l, s j ≤ s i := by
  have hperm : (sortBy (fun i => OrderDual.toDual (s i)) tie l).Perm l := SortUnique.sortBy_perm
  have hpairwise : (sortBy (fun i => OrderDual.toDual (s i)) tie l).Pairwise fun a b =>
      OrderDual.toDual (s a) ≤ OrderDual.toDual (s b) := SortUnique.pairwise_sortBy
  cases hsorted : sortBy (fun i => OrderDual.toDual (s i)) tie l with
  | nil =>
    rw [hsorted] at hperm
    exact absurd hperm.symm.eq_nil hne
  | cons i rest =>
    rw [hsorted] at hperm hpairwise
    refine ⟨i, rest, rfl, hperm.subset List.mem_cons_self, fun j hj => ?_⟩
    rcases List.mem_cons.1 (hperm.symm.subset hj) with rfl | hrest
    · exact le_rfl
    · exact OrderDual.toDual_le_toDual.1 ((List.pairwise_cons.1 hpairwise).1 j hrest)

end Largest

/-! ### The filters -/

section Filters

variable {K : Type*} [Field K] [LinearOrder K] {exp log lower : K → K} {tie : ℕ → ℕ} {n : ℕ}
  {s : ℕ → WithBot K}

theorem head_mem_keepPrefix (topP cum p : K) (i : ℕ) (rest : List (ℕ × K)) :
    i ∈ keepPrefix topP cum ((i, p) :: rest) := by
  rw [keepPrefix]
  exact List.mem_cons_self

variable (exp tie) in
/-- `top_p` leaves a token with the largest score. -/
theorem exists_topPTurbo (topP : K) (hs : ∃ i < n, s i ≠ ⊥) :
    ∃ i < n, (∀ j < n, s j ≤ s i) ∧ topPTurbo exp tie n topP s i ≠ ⊥ := by
  obtain ⟨i₀, hi₀, hs₀⟩ := hs
  have hmem : i₀ ∈ (List.range n).filter fun i => s i ≠ ⊥ := by simp [hi₀, hs₀]
  obtain ⟨i, rest, hsorted, hi, hle⟩ := exists_head_sortBy (s := s) tie (List.ne_nil_of_mem hmem)
  obtain ⟨hin, hbot⟩ : i < n ∧ s i ≠ ⊥ := by simpa using hi
  refine ⟨i, hin, fun j hj => ?_, ?_⟩
  · by_cases hsj : s j = ⊥
    · rw [hsj]
      exact bot_le
    · exact hle j (by simp [hj, hsj])
  · rw [topPTurbo]
    split_ifs with htopP
    · simp only [hsorted, List.map_cons]
      rw [if_pos]
      · exact hbot
      · split_ifs
        · simp
        · exact head_mem_keepPrefix ..
    · exact hbot

/-- What `top_p` leaves was there. -/
theorem ne_bot_of_topPTurbo {topP : K} {i : ℕ} (h : topPTurbo exp tie n topP s i ≠ ⊥) :
    s i ≠ ⊥ := by
  rw [topPTurbo] at h
  split_ifs at h with htopP
  · intro hbot
    refine h ?_
    simp only [hbot, ite_self]
  · exact h

variable (exp tie s) in
theorem exists_topPMtl (topP : K) (hn : 0 < n) :
    ∃ i < n, (∀ j < n, s j ≤ s i) ∧ topPMtl exp tie n topP s i = s i := by
  have hne : List.range n ≠ [] := List.ne_nil_of_mem (List.mem_range.2 hn)
  obtain ⟨i, rest, hsorted, hi, hle⟩ := exists_head_sortBy (s := s) tie hne
  refine ⟨i, List.mem_range.1 hi, fun j hj => hle j (List.mem_range.2 hj), ?_⟩
  rw [topPMtl]
  split_ifs with htopP
  · simp only [hsorted, List.map_cons]
    rw [if_pos (head_mem_keepPrefix ..)]
  · rfl

/-- What is left is what was there. -/
theorem topPMtl_le (topP : K) (i : ℕ) : topPMtl exp tie n topP s i ≤ s i := by
  rw [topPMtl]
  split_ifs
  · dsimp only
    split_ifs
    · exact le_rfl
    · exact bot_le
  · exact le_rfl

theorem minPMtl_le (minP : K) (i : ℕ) : minPMtl log n minP s i ≤ s i := by
  rw [minPMtl]
  split_ifs
  · dsimp only
    split_ifs
    · exact bot_le
    · exact le_rfl
  · exact le_rfl

/-- The rank that `top_k` asks for, or the last one. -/
def lastRank (n : ℕ) (topK : ℤ) : ℕ := min topK.toNat n - 1

omit [Field K] in
/-- The score of the rank is not above the largest one. -/
theorem ranked_lastRank_le_maxOf (hn : 0 < n) (topK : ℤ) :
    ranked (scoreList n s) (lastRank n topK) ≤ maxOf n s := by
  have hrank : lastRank n topK < (scoreList n s).length := by
    rw [length_scoreList, lastRank]
    omega
  obtain ⟨i, hi, heq⟩ := List.mem_map.1 (Ranks.ranked_mem hrank)
  exact heq.symm.le.trans (le_maxOf (List.mem_range.1 hi))

omit [Field K] in
/-- Without a smaller `top_k` no score is below the last rank. -/
theorem ranked_lastRank_le {topK : ℤ} (hk : ¬ topK < n) {i : ℕ} (hi : i < n) :
    ranked (scoreList n s) (lastRank n topK) ≤ s i := by
  obtain ⟨k, hk', heq⟩ := Ranks.exists_ranked_eq (mem_scoreList (s := s) hi)
  rw [length_scoreList] at hk'
  rw [← heq]
  refine Ranks.ranked_le_ranked ?_ ?_
  · rw [lastRank]
    omega
  · rw [length_scoreList, lastRank]
    omega

omit [Field K] in
/-- **`top_k` of the multilingual sampler** leaves what is not below the rank. -/
theorem topKMtl_ne_bot_iff {topK : ℤ} (hk : 1 ≤ topK) {i : ℕ} (hi : i < n) :
    topKMtl n topK s i ≠ ⊥ ↔ s i ≠ ⊥ ∧ ranked (scoreList n s) (lastRank n topK) ≤ s i := by
  rw [topKMtl]
  split_ifs with hsmall
  · have hrank : (topK - 1).toNat = lastRank n topK := by
      rw [lastRank]
      omega
    dsimp only
    rw [hrank]
    split_ifs with hlt
    · exact iff_of_false (fun h => h rfl) fun h => absurd h.2 (not_le.2 hlt)
    · exact ⟨fun h => ⟨h, not_lt.1 hlt⟩, fun h => h.1⟩
  · rw [and_iff_left (ranked_lastRank_le (fun h => hsmall ⟨by omega, h⟩) hi)]

omit [Field K] in
theorem topKTurbo_eq_of_ne_bot {topK : ℤ} {i : ℕ} (h : topKTurbo lower n topK s i ≠ ⊥) :
    topKTurbo lower n topK s i = s i := by
  rw [topKTurbo] at h ⊢
  split_ifs at h ⊢ with hsmall
  · dsimp only at h ⊢
    split_ifs at h ⊢ <;> first | exact absurd rfl h | rfl
  · rfl

omit [Field K] in
/-- **`top_k` of the sampler for one language** leaves what is not below the rank iff the next rank is
below it or the threshold that is lowered separates them. -/
theorem topKTurbo_ne_bot_iff {topK : ℤ} (hk : 1 ≤ topK) (hs : ∀ i < n, s i ≠ ⊥) :
    (∀ i < n, topKTurbo lower n topK s i ≠ ⊥ ↔
        ranked (scoreList n s) (lastRank n topK) ≤ s i) ↔
      (topK < n →
        let v := ranked (scoreList n s) (lastRank n topK)
        ranked (scoreList n s) topK.toNat < v ∨
          v.map lower < v ∧ ∀ i < n, s i < v → s i ≤ v.map lower) := by
  by_cases hsmall : topK < n
  · obtain ⟨k, rfl⟩ : ∃ k : ℕ, topK = (k : ℤ) + 1 := ⟨(topK - 1).toNat, by omega⟩
    have hlast : lastRank n ((k : ℤ) + 1) = k := by
      rw [lastRank]
      omega
    have hnat : ((k : ℤ) + 1).toNat = k + 1 := by omega
    have hlength : k + 1 < (scoreList n s).length := by
      rw [length_scoreList]
      omega
    have hle := Ranks.ranked_le_ranked k.le_succ hlength
    have hkept : ((scoreList n s).countP fun x =>
        decide (ranked (scoreList n s) (k + 1) < x) : ℤ) < k + 1 ↔
        ranked (scoreList n s) k = ranked (scoreList n s) (k + 1) := by
      rw [← Ranks.countP_ranked_lt_iff hlength]
      omega
    rw [hlast, topKTurbo, if_pos ⟨by omega, hsmall⟩, hnat]
    simp only [hsmall, forall_const, hkept]
    by_cases htie : ranked (scoreList n s) k = ranked (scoreList n s) (k + 1)
    · -- the threshold is lowered
      rw [if_pos htie, ← htie, or_iff_right (lt_irrefl _)]
      generalize hv : ranked (scoreList n s) k = v
      obtain ⟨j, hj, hsj⟩ : ∃ j < n, s j = v := by
        obtain ⟨j, hj, heq⟩ := List.mem_map.1 (Ranks.ranked_mem (k.lt_succ_self.trans hlength))
        exact ⟨j, List.mem_range.1 hj, heq.trans hv⟩
      have hleft : ∀ i < n, ((if s i ≤ v.map lower then ⊥ else s i) ≠ ⊥ ↔ v.map lower < s i) := by
        intro i hi
        split_ifs with hbelow
        · exact iff_of_false (fun h => h rfl) (not_lt.2 hbelow)
        · exact iff_of_true (hs i hi) (not_le.1 hbelow)
      constructor
      · intro h
        refine ⟨?_, fun i hi hlt => ?_⟩
        · have hlow := (hleft j hj).1 ((h j hj).2 hsj.ge)
          rwa [hsj] at hlow
        · by_contra hnot
          exact absurd ((h i hi).1 ((hleft i hi).2 (not_le.1 hnot))) (not_le.2 hlt)
      · rintro ⟨hlow, hbetween⟩ i hi
        rw [hleft i hi]
        constructor
        · intro hlt
          by_contra hnot
          exact absurd (hbetween i hi (not_le.1 hnot)) (not_le.2 hlt)
        · exact hlow.trans_le
    · have hlt := lt_of_le_of_ne hle (Ne.symm htie)
      rw [if_neg htie]
      refine iff_of_true (fun i hi => ?_) (.inl hlt)
      split_ifs with hbelow
      · exact iff_of_false (fun h => h rfl) (not_le.2 (hbelow.trans_lt hlt))
      · exact iff_of_true (hs i hi)
          (Ranks.ranked_le_of_lt (mem_scoreList hi) hlength (not_le.1 hbelow))
  · refine iff_of_true (fun i hi => ?_) fun h => absurd h hsmall
    rw [topKTurbo, if_neg fun h => hsmall h.2]
    exact iff_of_true (hs i hi) (ranked_lastRank_le hsmall hi)

variable [IsStrictOrderedRing K]

/-- `min_p` leaves the tokens with the largest score. -/
theorem minPMtl_eq_maxOf {minP : K} (hlog : 0 < minP → log minP ≤ 0) {i : ℕ}
    (hi : s i = maxOf n s) : minPMtl log n minP s i = s i := by
  rw [minPMtl]
  split_ifs with hminP
  · have hthresh : (maxOf n s).map (· + log minP) ≤ maxOf n s := by
      cases maxOf n s with
      | bot => exact le_rfl
      | coe mx => exact WithBot.coe_le_coe.2 (add_le_of_nonpos_right (hlog hminP))
    dsimp only
    rw [if_neg (by rw [hi]; exact not_lt.2 hthresh)]
  · rfl

end Filters

/-! ### The draws -/

section Draws

variable {K : Type*} [Field K] [LinearOrder K] {exp : K → K} {n : ℕ} {s : ℕ → WithBot K}

omit [LinearOrder K] in
@[simp] theorem weight_bot (mx : WithBot K) : weight exp mx ⊥ = 0 := by
  cases mx <;> rfl

theorem weight_pos (hexp : ∀ x, 0 < exp x) {mx x : WithBot K} (hmx : mx ≠ ⊥) (hx : x ≠ ⊥) :
    0 < weight exp mx x := by
  cases mx with
  | bot => exact absurd rfl hmx
  | coe mx =>
    cases x with
    | bot => exact absurd rfl hx
    | coe x => exact hexp (x - mx)

theorem weight_nonneg (hexp : ∀ x, 0 < exp x) (mx x : WithBot K) : 0 ≤ weight exp mx x := by
  by_cases hx : x = ⊥
  · rw [hx, weight_bot]
  · by_cases hmx : mx = ⊥
    · rw [hmx]
      exact le_rfl
    · exact (weight_pos hexp hmx hx).le

theorem nonneg_of_mem_weights (hexp : ∀ x, 0 < exp x) {mx : WithBot K} {w : K}
    (hw : w ∈ weights exp n mx s) : 0 ≤ w := by
  obtain ⟨i, -, rfl⟩ := List.mem_map.1 hw
  exact weight_nonneg hexp mx (s i)

omit [LinearOrder K] in
@[simp] theorem length_weights (mx : WithBot K) : (weights exp n mx s).length = n := by
  simp [weights]

omit [LinearOrder K] in
@[simp] theorem getElem_weights (mx : WithBot K) {i : ℕ} (hi : i < (weights exp n mx s).length) :
    (weights exp n mx s)[i] = weight exp mx (s i) := by
  simp [weights]

variable [IsStrictOrderedRing K]

/-- A score that is left has a weight. -/
theorem weights_sum_pos (hexp : ∀ x, 0 < exp x) (hs : ∃ i < n, s i ≠ ⊥) :
    0 < (weights exp n (maxOf n s) s).sum := by
  obtain ⟨i, hi, hsi⟩ := hs
  refine (weight_pos hexp (maxOf_ne_bot hi hsi) hsi).trans_le ?_
  refine List.single_le_sum (fun w hw => nonneg_of_mem_weights hexp hw) _ ?_
  exact List.mem_map_of_mem (List.mem_range.2 hi)

/-- **A draw above zero** hits an index with a weight. -/
theorem exists_firstReach {r cum : K} {i : ℕ} {probs : List K} (hr : cum < r)
    (hle : r ≤ cum + probs.sum) :
    ∃ (j : ℕ) (h : j < probs.length),
      firstReach r cum i probs = some (i + j) ∧ 0 < probs[j] := by
  induction probs generalizing cum i with
  | nil =>
    rw [List.sum_nil, add_zero] at hle
    exact absurd hr (not_lt.2 hle)
  | cons p probs ih =>
    rw [firstReach]
    split_ifs with hreach
    · exact ⟨0, by simp, rfl, by simpa using hr.trans_le hreach⟩
    · rw [List.sum_cons, ← add_assoc] at hle
      obtain ⟨j, hj, heq, hpos⟩ := ih (i := i + 1) (not_le.1 hreach) hle
      refine ⟨j + 1, by simpa using hj, ?_, by simpa using hpos⟩
      rw [heq]
      congr 1
      omega

end Draws

end Chatterbox

end WhisperCpp
