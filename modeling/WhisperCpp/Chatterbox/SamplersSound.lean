import Mathlib.Algebra.BigOperators.Ring.List
import Mathlib.Analysis.SpecialFunctions.Log.Basic
import WhisperCpp.Chatterbox.T3Sampling

/-!
# The tokens that the samplers return

A sampler should return a token that its filters leave. The one for one language does not if scores
tie at `top_k` and the threshold that is lowered for them is still theirs, or lets a lower score pass;
the multilingual one does not if the random draw is zero.

## Main definitions

* `SamplingParams.Valid` — the parameters of an exact sampler
* `IsDiscrete` — a discrete distribution draws an index with a weight
* `TurboSound`, `MtlSound` — a sampler returns what its filters leave

## Main results

* `turboSound_iff`, `mtlSound_iff` — when they do
-/

namespace WhisperCpp

namespace Chatterbox

open Ranks (ranked)

section Sound

variable {K : Type*} [Field K] [LinearOrder K]

/-- The parameters are in range, and no logit is divided by zero. -/
structure SamplingParams.Valid (params : SamplingParams K) : Prop where
  temp_pos : 0 < params.temp
  one_le_topK : 1 ≤ params.topK
  topP_pos : 0 < params.topP
  topP_le_one : params.topP ≤ 1
  minP_nonneg : 0 ≤ params.minP
  minP_le_one : params.minP ≤ 1
  repeatPenalty_ne_zero : params.repeatPenalty ≠ 0

/-- A discrete distribution draws an index with a weight, if there is one. -/
def IsDiscrete (draw : List K → ℕ) : Prop :=
  ∀ probs : List K, (∀ p ∈ probs, 0 ≤ p) → 0 < probs.sum →
    ∃ h : draw probs < probs.length, 0 < probs[draw probs]

variable (exp log lower : K → K) (tie : ℕ → ℕ) (n : ℕ)

/-- `sample_next_token_ex` returns a token that is left; one with the largest logit is left; every
filter leaves a token, and `top_k` those that are not below its rank; and the return for an empty
distribution is not reached. -/
structure TurboSound (draw : List K → ℕ) (params : SamplingParams K) (generated : List ℤ)
    (logits : ℕ → K) : Prop where
  returns : ∃ i < n, sampleNextTokenEx exp lower tie n draw params generated logits = (i : ℤ) ∧
    turboFiltered exp lower tie n params logits i ≠ ⊥
  largest : ∃ i < n, (∀ j < n, turboLogits params logits j ≤ turboLogits params logits i) ∧
    turboFiltered exp lower tie n params logits i ≠ ⊥
  topK_left : ∃ i < n, topKScores lower n params logits i ≠ ⊥
  topK_iff : ∀ i < n, topKScores lower n params logits i ≠ ⊥ ↔
    ranked (scoreList n (turboLogits params logits)) (lastRank n params.topK) ≤
      turboLogits params logits i
  psum_ne_zero : turboPsum exp lower tie n params generated logits ≠ 0

/-- `sample_next_token_mtl` returns a token that is left; one with the largest logit is left; every
filter leaves a token, and `top_k` those that are not below its rank; and the return for an empty
distribution is not reached. -/
structure MtlSound (u : K) (stopToken : ℤ) (params : SamplingParams K) (generated : List ℤ)
    (logitsCond logitsUncond : ℕ → K) : Prop where
  returns : ∃ i < n, sampleNextTokenMtl exp log tie n u stopToken params generated logitsCond
      logitsUncond = (i : ℤ) ∧
    mtlFiltered exp log tie n params generated logitsCond logitsUncond i ≠ ⊥
  largest : ∃ i < n, (∀ j < n, mtlLogits n params generated logitsCond logitsUncond j ≤
      mtlLogits n params generated logitsCond logitsUncond i) ∧
    mtlFiltered exp log tie n params generated logitsCond logitsUncond i ≠ ⊥
  minP_left : ∃ i < n, minPLogits log n params generated logitsCond logitsUncond i ≠ ⊥
  topP_left : ∃ i < n, topPLogits exp log tie n params generated logitsCond logitsUncond i ≠ ⊥
  topK_iff : ∀ i < n, mtlFiltered exp log tie n params generated logitsCond logitsUncond i ≠ ⊥ ↔
    topPLogits exp log tie n params generated logitsCond logitsUncond i ≠ ⊥ ∧
      ranked (scoreList n (topPLogits exp log tie n params generated logitsCond logitsUncond))
          (lastRank n params.topK) ≤
        topPLogits exp log tie n params generated logitsCond logitsUncond i
  maxl_ne_bot : maxOf n (mtlFiltered exp log tie n params generated logitsCond logitsUncond) ≠ ⊥

end Sound

section Turbo

variable {K : Type*} [Field K] [LinearOrder K] [IsStrictOrderedRing K] {exp lower : K → K}
  {tie : ℕ → ℕ} {n : ℕ} {draw : List K → ℕ} {params : SamplingParams K} {generated : List ℤ}
  {logits : ℕ → K}

omit [IsStrictOrderedRing K] in
/-- A penalty removes nothing. -/
theorem turboScores_ne_bot_iff (generated : List ℤ) {i : ℕ} :
    turboScores exp lower tie n params generated logits i ≠ ⊥ ↔
      turboFiltered exp lower tie n params logits i ≠ ⊥ := by
  rw [turboScores, penalizeTurbo_eq, penalizeOnce]
  split_ifs
  · simp
  · rfl

variable (generated) in
/-- With a score that is left the distribution is not empty, and a token that is left is drawn. -/
theorem exists_sampleNextTokenEx (hexp : ∀ x, 0 < exp x) (hdraw : IsDiscrete draw)
    (hparams : params.Valid) (hleft : ∃ i < n, turboFiltered exp lower tie n params logits i ≠ ⊥) :
    turboPsum exp lower tie n params generated logits ≠ 0 ∧
      ∃ i < n, sampleNextTokenEx exp lower tie n draw params generated logits = (i : ℤ) ∧
        turboFiltered exp lower tie n params logits i ≠ ⊥ := by
  have hscores : ∃ i < n, turboScores exp lower tie n params generated logits i ≠ ⊥ := by
    simpa only [turboScores_ne_bot_iff] using hleft
  have hpsum : 0 < turboPsum exp lower tie n params generated logits :=
    weights_sum_pos hexp hscores
  refine ⟨hpsum.ne', ?_⟩
  have hprobs := hdraw ((weights exp n
      (maxOf n (turboScores exp lower tie n params generated logits))
      (turboScores exp lower tie n params generated logits)).map
    (· / turboPsum exp lower tie n params generated logits)) ?_ ?_
  · obtain ⟨hlt, hpos⟩ := hprobs
    rw [List.length_map, length_weights] at hlt
    rw [sampleNextTokenEx, if_neg hpsum.ne', if_neg (not_le.2 hparams.temp_pos)]
    refine ⟨_, hlt, rfl, (turboScores_ne_bot_iff generated).1 fun hbot => ?_⟩
    rw [List.getElem_map, getElem_weights, hbot, weight_bot, zero_div] at hpos
    exact lt_irrefl _ hpos
  · intro p hp
    obtain ⟨w, hw, rfl⟩ := List.mem_map.1 hp
    exact div_nonneg (nonneg_of_mem_weights hexp hw) hpsum.le
  · have hsum : ∀ (l : List K) (a : K), (l.map (· / a)).sum = l.sum / a := by
      intro l a
      simp only [div_eq_mul_inv, List.sum_map_mul_right, List.map_id']
    rw [hsum]
    exact div_pos hpsum hpsum

omit [IsStrictOrderedRing K] in
variable (exp tie) in
/-- What is left when `top_k` leaves the right scores. -/
theorem exists_turboFiltered (hn : 0 < n)
    (hleft : ∀ i < n, topKScores lower n params logits i ≠ ⊥ ↔
      ranked (scoreList n (turboLogits params logits)) (lastRank n params.topK) ≤
        turboLogits params logits i) :
    (∃ i < n, topKScores lower n params logits i ≠ ⊥) ∧
      ∃ i < n, (∀ j < n, turboLogits params logits j ≤ turboLogits params logits i) ∧
        turboFiltered exp lower tie n params logits i ≠ ⊥ := by
  obtain ⟨i₀, hi₀, hmax⟩ := exists_eq_maxOf (s := turboLogits params logits) hn
  have hleft₀ : topKScores lower n params logits i₀ ≠ ⊥ := by
    rw [hleft i₀ hi₀, hmax]
    exact ranked_lastRank_le_maxOf hn params.topK
  obtain ⟨i, hi, hle, hfiltered⟩ := exists_topPTurbo exp tie params.topP
    ⟨i₀, hi₀, hleft₀⟩
  refine ⟨⟨i₀, hi₀, hleft₀⟩, i, hi, fun j hj => ?_, hfiltered⟩
  calc turboLogits params logits j
      ≤ turboLogits params logits i₀ := hmax ▸ le_maxOf hj
    _ = topKScores lower n params logits i₀ := (topKTurbo_eq_of_ne_bot hleft₀).symm
    _ ≤ topKScores lower n params logits i := hle i₀ hi₀
    _ = turboLogits params logits i := topKTurbo_eq_of_ne_bot (ne_bot_of_topPTurbo hfiltered)

/-- **The sampler for one language** returns what its filters leave iff there is a token, and at
`top_k` the next rank is lower or the lowered threshold separates the tied scores from the lower
ones. -/
theorem turboSound_iff (hexp : ∀ x, 0 < exp x) (hdraw : IsDiscrete draw) (hparams : params.Valid)
    (generated : List ℤ) (logits : ℕ → K) :
    TurboSound exp lower tie n draw params generated logits ↔
      0 < n ∧ (params.topK < n →
        let v := ranked (scoreList n (turboLogits params logits)) (lastRank n params.topK)
        ranked (scoreList n (turboLogits params logits)) params.topK.toNat < v ∨
          v.map lower < v ∧
            ∀ i < n, turboLogits params logits i < v → turboLogits params logits i ≤ v.map lower) := by
  have hfinite : ∀ i < n, turboLogits params logits i ≠ ⊥ := fun i _ => WithBot.coe_ne_bot
  rw [← topKTurbo_ne_bot_iff hparams.one_le_topK hfinite]
  constructor
  · intro h
    obtain ⟨i, hi, -⟩ := h.returns
    exact ⟨i.zero_le.trans_lt hi, h.topK_iff⟩
  · rintro ⟨hn, hleft⟩
    obtain ⟨htopK, i, hi, hlargest, hfiltered⟩ :=
      exists_turboFiltered exp tie hn hleft
    obtain ⟨hpsum, hreturns⟩ :=
      exists_sampleNextTokenEx generated hexp hdraw hparams ⟨i, hi, hfiltered⟩
    exact ⟨hreturns, ⟨i, hi, hlargest, hfiltered⟩, htopK, hleft, hpsum⟩

end Turbo

section Mtl

variable {K : Type*} [Field K] [LinearOrder K] [IsStrictOrderedRing K] {exp log : K → K}
  {tie : ℕ → ℕ} {n : ℕ} {u : K} {stopToken : ℤ} {params : SamplingParams K}
  {generated : List ℤ} {logitsCond logitsUncond : ℕ → K}

variable (exp tie generated logitsCond logitsUncond) in
/-- Every filter leaves a token with the largest logit. -/
theorem exists_mtlFiltered (hlog : ∀ x, 0 < x → x ≤ 1 → log x ≤ 0) (hparams : params.Valid)
    (hn : 0 < n) :
    ∃ i < n, (∀ j < n, mtlLogits n params generated logitsCond logitsUncond j ≤
        mtlLogits n params generated logitsCond logitsUncond i) ∧
      minPLogits log n params generated logitsCond logitsUncond i ≠ ⊥ ∧
      topPLogits exp log tie n params generated logitsCond logitsUncond i ≠ ⊥ ∧
      mtlFiltered exp log tie n params generated logitsCond logitsUncond i ≠ ⊥ := by
  obtain ⟨i₀, hi₀, hmax⟩ := exists_eq_maxOf
    (s := mtlLogits n params generated logitsCond logitsUncond) hn
  have hminP : minPLogits log n params generated logitsCond logitsUncond i₀ =
      mtlLogits n params generated logitsCond logitsUncond i₀ :=
    minPMtl_eq_maxOf (fun hpos => hlog _ hpos hparams.minP_le_one) hmax
  obtain ⟨i, hi, hle, htopP⟩ := exists_topPMtl exp tie
    (minPLogits log n params generated logitsCond logitsUncond) params.topP hn
  have hlargest : mtlLogits n params generated logitsCond logitsUncond i₀ ≤
      minPLogits log n params generated logitsCond logitsUncond i := hminP ▸ hle i₀ hi₀
  have hminP' : minPLogits log n params generated logitsCond logitsUncond i ≠ ⊥ :=
    fun hbot => WithBot.coe_ne_bot (le_bot_iff.1 (hbot ▸ hlargest))
  have htopP' : topPLogits exp log tie n params generated logitsCond logitsUncond i ≠ ⊥ := by
    rw [topPLogits, htopP]
    exact hminP'
  refine ⟨i, hi, fun j hj => ?_, hminP', htopP', ?_⟩
  · calc mtlLogits n params generated logitsCond logitsUncond j
        ≤ mtlLogits n params generated logitsCond logitsUncond i₀ := hmax ▸ le_maxOf hj
      _ ≤ minPLogits log n params generated logitsCond logitsUncond i := hlargest
      _ ≤ mtlLogits n params generated logitsCond logitsUncond i := minPMtl_le _ i
  · refine (topKMtl_ne_bot_iff hparams.one_le_topK hi).2 ⟨htopP', ?_⟩
    obtain ⟨k, hk, hmaxP⟩ := exists_eq_maxOf
      (s := topPLogits exp log tie n params generated logitsCond logitsUncond) hn
    refine (ranked_lastRank_le_maxOf hn params.topK).trans ?_
    rw [← hmaxP]
    calc topPLogits exp log tie n params generated logitsCond logitsUncond k
        ≤ minPLogits log n params generated logitsCond logitsUncond k := topPMtl_le _ k
      _ ≤ minPLogits log n params generated logitsCond logitsUncond i := hle k hk
      _ = topPLogits exp log tie n params generated logitsCond logitsUncond i := htopP.symm

variable (stopToken) in
/-- The draw decides what is returned: above zero a token that is left, at zero the first token. -/
theorem sampleNextTokenMtl_spec (hexp : ∀ x, 0 < exp x) (hu : 0 ≤ u) (hu' : u < 1) (hn : 0 < n)
    (hleft : ∃ i < n, mtlFiltered exp log tie n params generated logitsCond logitsUncond i ≠ ⊥) :
    (0 < u → ∃ i < n, sampleNextTokenMtl exp log tie n u stopToken params generated logitsCond
        logitsUncond = (i : ℤ) ∧
      mtlFiltered exp log tie n params generated logitsCond logitsUncond i ≠ ⊥) ∧
    (u = 0 → sampleNextTokenMtl exp log tie n u stopToken params generated logitsCond
      logitsUncond = 0) := by
  have hsum := weights_sum_pos hexp hleft
  obtain ⟨i₀, hi₀, hne⟩ := hleft
  rw [sampleNextTokenMtl, if_neg (maxOf_ne_bot hi₀ hne)]
  constructor
  · intro hpos
    obtain ⟨j, hj, hreach, hweight⟩ := exists_firstReach (i := 0)
      (r := u * (weights exp n (maxOf n (mtlFiltered exp log tie n params generated logitsCond
        logitsUncond)) (mtlFiltered exp log tie n params generated logitsCond logitsUncond)).sum)
      (mul_pos hpos hsum) (by rw [zero_add]; exact mul_le_of_le_one_left hsum.le hu'.le)
    rw [length_weights] at hj
    refine ⟨j, hj, ?_, fun hbot => ?_⟩
    · simp only [hreach, Nat.zero_add, Option.getD_some]
    · rw [getElem_weights, hbot, weight_bot] at hweight
      exact lt_irrefl _ hweight
  · rintro rfl
    obtain ⟨n, rfl⟩ : ∃ m, n = m + 1 := ⟨n - 1, by omega⟩
    simp only [weights, List.range_succ_eq_map, List.map_cons, firstReach, zero_mul, zero_add]
    rw [if_pos (weight_nonneg hexp _ _)]
    rfl

/-- **The multilingual sampler** returns what its filters leave iff there is a token, and the draw is
above zero or the first token is left. -/
theorem mtlSound_iff (hexp : ∀ x, 0 < exp x) (hlog : ∀ x, 0 < x → x ≤ 1 → log x ≤ 0)
    (hu : 0 ≤ u) (hu' : u < 1) (hparams : params.Valid) (generated : List ℤ)
    (logitsCond logitsUncond : ℕ → K) :
    MtlSound exp log tie n u stopToken params generated logitsCond logitsUncond ↔
      0 < n ∧ (0 < u ∨
        mtlFiltered exp log tie n params generated logitsCond logitsUncond 0 ≠ ⊥) := by
  constructor
  · intro h
    obtain ⟨i, hi, hreturns, hleft⟩ := h.returns
    have hn := i.zero_le.trans_lt hi
    refine ⟨hn, ?_⟩
    by_contra hnot
    obtain ⟨hzero, hbot⟩ := not_or.1 hnot
    have hreturn := (sampleNextTokenMtl_spec stopToken hexp hu hu' hn
      ⟨i, hi, hleft⟩).2 (le_antisymm (not_lt.1 hzero) hu)
    rw [hreturns] at hreturn
    obtain rfl : i = 0 := by exact_mod_cast hreturn
    exact hbot hleft
  · rintro ⟨hn, hdraw⟩
    obtain ⟨i, hi, hlargest, hminP, htopP, hleft⟩ := exists_mtlFiltered exp tie generated
      logitsCond logitsUncond hlog hparams hn
    refine ⟨?_, ⟨i, hi, hlargest, hleft⟩, ⟨i, hi, hminP⟩, ⟨i, hi, htopP⟩, fun j hj =>
      topKMtl_ne_bot_iff hparams.one_le_topK hj, maxOf_ne_bot hi hleft⟩
    have hspec := sampleNextTokenMtl_spec stopToken hexp hu hu' hn ⟨i, hi, hleft⟩
    obtain hpos | hzero := hu.lt_or_eq
    · exact hspec.1 hpos
    · exact ⟨0, hn, hspec.2 hzero.symm,
        hdraw.resolve_left fun hpos => hpos.ne hzero⟩

end Mtl

/-! ### Both samplers -/

/-- The first index with a weight. -/
theorem isDiscrete_findIdx {K : Type*} [Field K] [LinearOrder K] [IsStrictOrderedRing K] :
    IsDiscrete fun probs : List K => probs.findIdx fun p => decide (0 < p) := by
  intro probs hnonneg hsum
  have hlt : probs.findIdx (fun p => decide (0 < p)) < probs.length := by
    rw [List.findIdx_lt_length]
    by_contra hnot
    refine hsum.ne' (List.sum_eq_zero fun p hp => le_antisymm ?_ (hnonneg p hp))
    exact not_lt.1 fun hpos => hnot ⟨p, hp, decide_eq_true hpos⟩
  exact ⟨hlt, of_decide_eq_true (List.findIdx_getElem (w := hlt))⟩

end Chatterbox

end WhisperCpp
