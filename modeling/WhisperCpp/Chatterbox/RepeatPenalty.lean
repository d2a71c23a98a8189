import Mathlib.Algebra.Group.Nat.Even
import Mathlib.Algebra.Order.Field.Basic
import Mathlib.Algebra.Order.Ring.Rat
import Mathlib.Data.Finset.Sort
import Mathlib.Order.WithBot
import Mathlib.Tactic.NormNum

/-!
# The repetition penalty of the two samplers

Both samplers lower the logits of the tokens that were generated: a positive one is divided by the
penalty, another one multiplied. `sample_next_token_ex` goes over the set of the tokens,
`sample_next_token_mtl` over their list, so that a token is penalised each time it was generated.

## Main definitions

* `penalizeMtl`, `penalizeTurbo` — the two loops
* `penalizeOnce` — every generated token once

## Main results

* `penalizeAll_apply` — what a loop does to a logit
* `iterate_penalized_eq_iff` — when a second penalty makes no difference
* `penalizeMtl_eq_iff` — when the two samplers agree
-/

namespace WhisperCpp

namespace Chatterbox

section Definitions

variable {α : Type*} {K : Type*} [Field K] [LinearOrder K]

/-- A loop over tokens that changes the entry of each one in the vocabulary. -/
def penalizeAll (n : ℕ) (f : α → α) (tokens : List ℤ) (l : ℕ → α) : ℕ → α :=
  tokens.foldl (fun l t =>
    if t < 0 ∨ (n : ℤ) ≤ t then l else Function.update l t.toNat (f (l t.toNat))) l

/-- A logit with its penalty. -/
def penalized (penalty x : K) : K := if 0 < x then x / penalty else x * penalty

/-- The penalty of `sample_next_token_mtl`, over the tokens as they were generated. -/
def penalizeMtl (n : ℕ) (generated : List ℤ) (penalty : K) (l : ℕ → K) : ℕ → K :=
  if penalty ≠ 1 then penalizeAll n (penalized penalty) generated l else l

/-- The penalty of `sample_next_token_ex`, over the set of the tokens. A score of `-INFINITY` is left
as it is. -/
def penalizeTurbo (n : ℕ) (generated : List ℤ) (penalty : K) (scores : ℕ → WithBot K) :
    ℕ → WithBot K :=
  if penalty ≠ 1 ∧ generated ≠ [] then
    penalizeAll n (WithBot.map (penalized penalty)) (generated.toFinset.sort (· ≤ ·)) scores
  else scores

/-- Every generated token of the vocabulary is penalised once. -/
def penalizeOnce (n : ℕ) (f : α → α) (generated : List ℤ) (l : ℕ → α) : ℕ → α :=
  fun i => if i < n ∧ (i : ℤ) ∈ generated then f (l i) else l i

end Definitions

/-! ### The loops -/

section Loops

variable {α : Type*} {n : ℕ} {f : α → α}

/-- **A loop** penalises an entry as often as its token comes. -/
theorem penalizeAll_apply (tokens : List ℤ) (l : ℕ → α) (i : ℕ) :
    penalizeAll n f tokens l i = if i < n then f^[tokens.count (i : ℤ)] (l i) else l i := by
  induction tokens generalizing l with
  | nil => simp [penalizeAll]
  | cons t tokens ih =>
    rw [penalizeAll, List.foldl_cons, ← penalizeAll, ih]
    by_cases hi : i < n
    · rw [if_pos hi, if_pos hi, List.count_cons]
      by_cases ht : t = i
      · rw [if_neg (by omega), ht, Int.toNat_natCast, Function.update_self]
        simp [Function.iterate_succ_apply]
      · have hne : (t == (i : ℤ)) = false := by simpa using ht
        rw [hne, if_neg Bool.false_ne_true, Nat.add_zero]
        split_ifs with hout
        · rfl
        · rw [Function.update_of_ne (by omega)]
    · rw [if_neg hi, if_neg hi]
      split_ifs with hout
      · rfl
      · rw [Function.update_of_ne (by omega)]

/-- Over tokens that are all different a loop penalises once. -/
theorem penalizeAll_of_nodup {tokens generated : List ℤ} (hnodup : tokens.Nodup)
    (hmem : ∀ t, t ∈ tokens ↔ t ∈ generated) (l : ℕ → α) :
    penalizeAll n f tokens l = penalizeOnce n f generated l := by
  funext i
  rw [penalizeAll_apply, penalizeOnce, hnodup.count]
  by_cases hi : i < n <;> by_cases hgenerated : (i : ℤ) ∈ generated <;>
    simp [hi, hmem, hgenerated]

end Loops

/-! ### Twice the penalty -/

section Penalty

variable {K : Type*} [Field K] [LinearOrder K] {penalty x : K}

theorem penalized_one (x : K) : penalized 1 x = x := by
  simp [penalized]

theorem penalized_zero (penalty : K) : penalized penalty 0 = 0 := by
  simp [penalized]

theorem penalized_zero_left (x : K) : penalized 0 x = 0 := by
  simp [penalized]

variable [IsStrictOrderedRing K]

/-- A positive penalty leaves the sign. -/
theorem iterate_penalized_of_pos (hpenalty : 0 < penalty) (c : ℕ) (x : K) :
    (penalized penalty)^[c] x = if 0 < x then x / penalty ^ c else x * penalty ^ c := by
  induction c with
  | zero => simp
  | succ c ih =>
    rw [Function.iterate_succ_apply', ih, penalized]
    by_cases hx : 0 < x
    · rw [if_pos hx, if_pos hx, if_pos (div_pos hx (pow_pos hpenalty c)), pow_succ, div_div]
    · have hle : ¬ 0 < x * penalty ^ c :=
        not_lt.2 (mul_nonpos_of_nonpos_of_nonneg (not_lt.1 hx) (pow_pos hpenalty c).le)
      rw [if_neg hx, if_neg hx, if_neg hle, pow_succ, mul_assoc]

/-- A negative one turns it over, and back. -/
theorem involutive_penalized (hpenalty : penalty < 0) :
    Function.Involutive (penalized penalty) := by
  intro x
  rw [penalized, penalized]
  obtain hx | rfl | hx := lt_trichotomy 0 x
  · rw [if_pos hx, if_neg (not_lt.2 (div_neg_of_pos_of_neg hx hpenalty).le),
      div_mul_cancel₀ x hpenalty.ne]
  · simp
  · rw [if_neg (not_lt.2 hx.le), if_pos (mul_pos_of_neg_of_neg hx hpenalty),
      mul_div_cancel_right₀ x hpenalty.ne]

theorem penalized_ne_self (hpenalty : penalty < 0) (hx : x ≠ 0) : penalized penalty x ≠ x := by
  rw [penalized]
  obtain hpos | hneg := lt_or_gt_of_ne hx.symm
  · rw [if_pos hpos]
    exact ((div_neg_of_pos_of_neg hpos hpenalty).trans hpos).ne
  · rw [if_neg (not_lt.2 hneg.le)]
    exact (hneg.trans (mul_pos_of_neg_of_neg hneg hpenalty)).ne'

/-- **Penalties after the first one** make no difference to zero only, or for a penalty that changes
nothing twice. -/
theorem iterate_penalized_eq_iff {c : ℕ} (hc : 2 ≤ c) :
    (penalized penalty)^[c] x = penalized penalty x ↔
      x = 0 ∨ penalty = 0 ∨ penalty = 1 ∨ penalty < 0 ∧ c % 2 = 1 := by
  have hpos : 0 < penalty → x ≠ 0 →
      ((penalized penalty)^[c] x = penalized penalty x ↔ penalty = 1) := by
    intro hpenalty hx
    have hpow : penalty ^ c = penalty ↔ penalty = 1 := by
      refine ⟨fun heq => ?_, fun heq => by simp [heq]⟩
      by_contra hne
      have := pow_right_injective₀ hpenalty hne (heq.trans (pow_one penalty).symm)
      omega
    rw [iterate_penalized_of_pos hpenalty, penalized, ← hpow]
    split_ifs
    · rw [div_eq_mul_inv, div_eq_mul_inv, mul_right_inj' hx, inv_inj]
    · exact mul_right_inj' hx
  have hneg : penalty < 0 → x ≠ 0 →
      ((penalized penalty)^[c] x = penalized penalty x ↔ c % 2 = 1) := by
    intro hpenalty hx
    rcases Nat.even_or_odd c with heven | hodd
    · rw [(involutive_penalized hpenalty).iterate_even heven, id, eq_comm]
      exact iff_of_false (penalized_ne_self hpenalty hx) (by grind)
    · rw [(involutive_penalized hpenalty).iterate_odd hodd]
      exact iff_of_true rfl (Nat.odd_iff.1 hodd)
  by_cases hx : x = 0
  · simp [hx, penalized_zero, Function.iterate_fixed]
  obtain hpenalty | rfl | hpenalty := lt_trichotomy penalty 0
  · have hne : penalty ≠ 1 := (hpenalty.trans zero_lt_one).ne
    simp [hneg hpenalty hx, hx, hpenalty, hpenalty.ne, hne]
  · obtain ⟨c, rfl⟩ : ∃ d, c = d + 1 := ⟨c - 1, by omega⟩
    simp [Function.iterate_succ_apply', penalized_zero_left]
  · simp [hpos hpenalty hx, hx, hpenalty.ne', hpenalty.le.not_gt]

end Penalty

/-! ### The two samplers -/

section Samplers

variable {K : Type*} [Field K] [LinearOrder K] [IsStrictOrderedRing K]

omit [IsStrictOrderedRing K] in
/-- **The penalty of `sample_next_token_ex`** is applied once. -/
theorem penalizeTurbo_eq (n : ℕ) (generated : List ℤ) (penalty : K) (scores : ℕ → WithBot K) :
    penalizeTurbo n generated penalty scores =
      penalizeOnce n (WithBot.map (penalized penalty)) generated scores := by
  rw [penalizeTurbo]
  split_ifs with h
  · exact penalizeAll_of_nodup (Finset.sort_nodup _ _) (by simp) scores
  · funext i
    rw [penalizeOnce]
    split_ifs with hi
    · have hone : penalty = 1 := by
        by_contra hne
        exact h ⟨hne, List.ne_nil_of_mem hi.2⟩
      cases scores i <;> simp [hone, penalized_one]
    · rfl

/-- **The penalty of `sample_next_token_mtl`** is applied once iff a second one makes no difference. -/
theorem penalizeMtl_eq_once_iff (n : ℕ) (generated : List ℤ) (penalty : K) (l : ℕ → K) :
    penalizeMtl n generated penalty l = penalizeOnce n (penalized penalty) generated l ↔
      ∀ i < n, 2 ≤ generated.count (i : ℤ) →
        l i = 0 ∨ penalty = 0 ∨ penalty = 1 ∨
          penalty < 0 ∧ generated.count (i : ℤ) % 2 = 1 := by
  have happly : ∀ i, penalizeMtl n generated penalty l i =
      if i < n then (penalized penalty)^[generated.count (i : ℤ)] (l i) else l i := by
    intro i
    rw [penalizeMtl]
    split_ifs with hone hi hi
    · rw [penalizeAll_apply, if_pos hi]
    · rw [penalizeAll_apply, if_neg hi]
    · rw [not_ne_iff.1 hone, Function.iterate_fixed (penalized_one (l i))]
    · rfl
  rw [funext_iff]
  refine forall_congr' fun i => ?_
  rw [happly, penalizeOnce]
  by_cases hi : i < n
  · by_cases hcount : 2 ≤ generated.count (i : ℤ)
    · have hmem : (i : ℤ) ∈ generated := List.count_pos_iff.1 (by omega)
      rw [if_pos hi, if_pos ⟨hi, hmem⟩, iterate_penalized_eq_iff hcount]
      exact ⟨fun h _ _ => h, fun h => h hi hcount⟩
    · refine iff_of_true ?_ fun _ h => absurd h hcount
      rw [if_pos hi]
      by_cases hmem : (i : ℤ) ∈ generated
      · have hone : generated.count (i : ℤ) = 1 := by
          have := List.count_pos_iff.2 hmem
          omega
        rw [hone, Function.iterate_one, if_pos ⟨hi, hmem⟩]
      · rw [List.count_eq_zero_of_not_mem hmem, Function.iterate_zero_apply,
          if_neg fun h => hmem h.2]
  · exact iff_of_true (by rw [if_neg hi, if_neg fun h => hi h.1]) fun h => absurd h hi

/-- **The repetition penalty.** The sampler for one language penalises every generated token of the
vocabulary once, whatever the order and the number of times it was generated. The multilingual one
does so, and the two have the same logits, iff every token that was generated twice or more has the
logit zero or a penalty that makes no difference the second time. -/
theorem penalizeMtl_eq_iff (n : ℕ) (generated : List ℤ) (penalty : K) (l : ℕ → K) :
    (∀ scores : ℕ → WithBot K, penalizeTurbo n generated penalty scores =
        penalizeOnce n (WithBot.map (penalized penalty)) generated scores) ∧
      (penalizeMtl n generated penalty l = penalizeOnce n (penalized penalty) generated l ∧
          (∀ i, penalizeTurbo n generated penalty (fun i => (l i : WithBot K)) i =
            (penalizeMtl n generated penalty l i : K)) ↔
        ∀ i < n, 2 ≤ generated.count (i : ℤ) →
          l i = 0 ∨ penalty = 0 ∨ penalty = 1 ∨
            penalty < 0 ∧ generated.count (i : ℤ) % 2 = 1) := by
  refine ⟨penalizeTurbo_eq n generated penalty, ?_⟩
  rw [← penalizeMtl_eq_once_iff]
  refine ⟨fun h => h.1, fun h => ⟨h, ?_⟩⟩
  intro i
  rw [penalizeTurbo_eq, h, penalizeOnce, penalizeOnce]
  split_ifs <;> rfl

end Samplers

/-- A token that was generated once, and another one twice. -/
theorem penalizeMtl_eq_iff_once :
    let generated : List ℤ := [1, 0, 1]
    let l : ℕ → ℚ := fun i => [3, 0][i]?.getD 0
    (∀ scores : ℕ → WithBot ℚ, penalizeTurbo 2 generated 2 scores =
        penalizeOnce 2 (WithBot.map (penalized 2)) generated scores) ∧
      (penalizeMtl 2 generated 2 l = penalizeOnce 2 (penalized 2) generated l ∧
          (∀ i, penalizeTurbo 2 generated 2 (fun i => (l i : WithBot ℚ)) i =
            (penalizeMtl 2 generated 2 l i : ℚ)) ↔
        ∀ i : ℕ, i < 2 → 2 ≤ generated.count (i : ℤ) →
          l i = 0 ∨ (2 : ℚ) = 0 ∨ (2 : ℚ) = 1 ∨
            (2 : ℚ) < 0 ∧ generated.count (i : ℤ) % 2 = 1) :=
  penalizeMtl_eq_iff 2 _ 2 _

/-- A logit of 3 that is penalised by 2 twice is 3/4. -/
theorem not_forall_penalizeMtl_eq_once :
    ¬ ∀ (n : ℕ) (generated : List ℤ) (penalty : ℚ) (l : ℕ → ℚ),
      penalizeMtl n generated penalty l = penalizeOnce n (penalized penalty) generated l := by
  intro h
  have h0 := congrFun (h 1 [0, 0] 2 fun _ => 3) 0
  revert h0
  decide +kernel

end Chatterbox

end WhisperCpp
