import Mathlib.Data.List.Chain
import Mathlib.Data.List.MinMax
import Mathlib.Order.Basic
import WhisperCpp.Library.Bpe

/-!
# Byte pair encoding in rounds

The reference form of byte pair encoding: in a round all occurrences of the pair with the lowest rank
are merged, from left to right. Merging one occurrence at a time gives the same parts if what is
merged is in no pair of lower rank.

## Main definitions

* `mergeEvery`, `mergeRounds` — a round, and all rounds
* `Layered` — a pair is merged before the pairs that its join is in

## Main results

* `mergeAll_eq_mergeRounds`
-/

namespace Bpe

variable {α : Type*}

/-- All pairs that satisfy `p`, from left to right. -/
def mergeEvery (p : List α → List α → Bool) : List (List α) → List (List α)
  | x :: y :: rest =>
    if p x y then (x ++ y) :: mergeEvery p rest else x :: mergeEvery p (y :: rest)
  | parts => parts

/-- The ranks of the pairs of neighbours. -/
def pairRanks (rank : List α → List α → Option ℤ) : List (List α) → List ℤ
  | x :: y :: rest => (rank x y).toList ++ pairRanks rank (y :: rest)
  | _ => []

section Progress

variable {rank : List α → List α → Option ℤ} {r : ℤ}

theorem length_mergeEvery_le (p : List α → List α → Bool) (parts : List (List α)) :
    (mergeEvery p parts).length ≤ parts.length := by
  induction parts using mergeEvery.induct p with
  | case1 x y rest hp ih =>
    simp [mergeEvery, hp]
    omega
  | case2 x y rest hp ih => simpa [mergeEvery, hp] using ih
  | case3 parts h =>
    rw [mergeEvery]
    exact h

/-- A round with an occurrence makes progress. -/
theorem length_mergeEvery_lt {parts : List (List α)} (h : r ∈ pairRanks rank parts) :
    (mergeEvery (fun x y => rank x y = some r) parts).length < parts.length := by
  induction parts using mergeEvery.induct (fun x y => rank x y = some r) with
  | case1 x y rest hp ih =>
    have hle := length_mergeEvery_le (fun x y => rank x y = some r) rest
    simp [mergeEvery, of_decide_eq_true hp]
    omega
  | case2 x y rest hp ih =>
    have hxy : rank x y ≠ some r := by simpa using hp
    have hmem : r ∈ pairRanks rank (y :: rest) := by
      simpa [pairRanks, Option.mem_toList, hxy] using h
    simpa [mergeEvery, hxy] using ih hmem
  | case3 parts h' =>
    rw [pairRanks] at h
    · cases h
    · exact h'

end Progress

/-- The reference: in each round all occurrences of the pair with the lowest rank. -/
def mergeRounds (rank : List α → List α → Option ℤ) (parts : List (List α)) : List (List α) :=
  match _h : (pairRanks rank parts).min? with
  | none => parts
  | some r => mergeRounds rank (mergeEvery (fun x y => rank x y = some r) parts)
termination_by parts.length
decreasing_by exact length_mergeEvery_lt (List.min?_mem _h)

/-- A pair has a lower rank than the pairs that its join is in. -/
def Layered (rank : List α → List α → Option ℤ) : Prop :=
  ∀ x y u v r s, rank x y = some r → rank u v = some s → x ++ y = u ∨ x ++ y = v → r < s

section Lemmas

variable {rank : List α → List α → Option ℤ} {r s limit : ℤ} {parts pre rest : List (List α)}
  {x y : List α}

/-- A pair with no rank below `r`. -/
def AtLeast (rank : List α → List α → Option ℤ) (r : ℤ) (u v : List α) : Prop :=
  ∀ s, rank u v = some s → r ≤ s

/-- A pair with a rank above `r`, or none. -/
def Above (rank : List α → List α → Option ℤ) (r : ℤ) (u v : List α) : Prop :=
  ∀ s, rank u v = some s → r < s

theorem Above.ne {u v : List α} (h : Above rank r u v) : rank u v ≠ some r :=
  fun hr => lt_irrefl r (h r hr)

theorem isChain_iff_pairRanks {P : ℤ → Prop} :
    parts.IsChain (fun u v => ∀ s, rank u v = some s → P s) ↔ ∀ s ∈ pairRanks rank parts, P s := by
  induction parts with
  | nil => simp [pairRanks]
  | cons x parts ih =>
    cases parts with
    | nil => simp [pairRanks]
    | cons y rest =>
      rw [List.isChain_cons_cons, ih, pairRanks, List.forall_mem_append]
      simp

/-- The search for the best pair: there is no better one, or it is the first of the lowest rank. -/
theorem bestFrom_spec (i : ℕ) (best : ℤ) (found : Option ℕ) (parts : List (List α)) :
    (bestFrom rank i best found parts = found ∧ parts.IsChain (AtLeast rank best)) ∨
      ∃ pre x y rest r, parts = pre ++ x :: y :: rest ∧
        bestFrom rank i best found parts = some (i + pre.length) ∧ rank x y = some r ∧ r < best ∧
        parts.IsChain (AtLeast rank r) ∧ (pre ++ [x]).IsChain (Above rank r) := by
  induction parts generalizing i best found with
  | nil => exact .inl ⟨rfl, .nil⟩
  | cons x parts ih =>
    cases parts with
    | nil => exact .inl ⟨rfl, .singleton x⟩
    | cons y rest =>
      -- a pair that is found behind the first one
      have hlater : ∀ {best found}, (∀ s, rank x y = some s → best ≤ s) →
          (∃ pre x' y' rest' r, y :: rest = pre ++ x' :: y' :: rest' ∧
            bestFrom rank (i + 1) best found (y :: rest) = some (i + 1 + pre.length) ∧
            rank x' y' = some r ∧ r < best ∧ (y :: rest).IsChain (AtLeast rank r) ∧
            (pre ++ [x']).IsChain (Above rank r)) →
          ∃ pre x' y' rest' r, x :: y :: rest = pre ++ x' :: y' :: rest' ∧
            bestFrom rank (i + 1) best found (y :: rest) = some (i + pre.length) ∧
            rank x' y' = some r ∧ r < best ∧ (x :: y :: rest).IsChain (AtLeast rank r) ∧
            (pre ++ [x']).IsChain (Above rank r) := by
        rintro best found hbest ⟨pre, x', y', rest', r, heq, hfound, hr, hlt, hchain, hpre⟩
        refine ⟨x :: pre, x', y', rest', r, by rw [heq]; rfl, ?_, hr, hlt, ?_, ?_⟩
        · rw [hfound, List.length_cons]
          congr 1
          omega
        · exact .cons_cons (fun s hs => (hlt.trans_le (hbest s hs)).le) hchain
        · rw [List.cons_append, List.isChain_cons]
          refine ⟨fun z hz => ?_, hpre⟩
          have hzy : z = y := by
            cases pre with
            | nil => simp_all
            | cons p pre => simp_all
          rw [hzy]
          exact fun s hs => hlt.trans_le (hbest s hs)
      rw [bestFrom]
      cases hxy : rank x y with
      | none =>
        rcases ih (i + 1) best found with ⟨hfound, hchain⟩ | h
        · exact .inl ⟨hfound, .cons_cons (by simp [AtLeast, hxy]) hchain⟩
        · exact .inr (hlater (by simp [hxy]) h)
      | some r₀ =>
        simp only
        split
        · rename_i hlt
          rcases ih (i + 1) r₀ (some i) with ⟨hfound, hchain⟩ | h
          · refine .inr ⟨[], x, y, rest, r₀, rfl, hfound, hxy, hlt, ?_, .singleton x⟩
            exact .cons_cons (by simp [AtLeast, hxy]) hchain
          · obtain ⟨pre, x', y', rest', r, heq, hfound, hr, hlt', hchain, hpre⟩ :=
              hlater (by simp [hxy]) h
            exact .inr ⟨pre, x', y', rest', r, heq, hfound, hr, hlt'.trans hlt, hchain, hpre⟩
        · rename_i hge
          rcases ih (i + 1) best found with ⟨hfound, hchain⟩ | h
          · exact .inl ⟨hfound, .cons_cons (by simpa [AtLeast, hxy] using hge) hchain⟩
          · exact .inr (hlater (by simpa [hxy] using hge) h)

theorem joinAt_length (pre rest : List (List α)) (x y : List α) :
    joinAt pre.length (pre ++ x :: y :: rest) = pre ++ (x ++ y) :: rest := by
  induction pre with
  | nil => rfl
  | cons p pre ih => simp [joinAt, ih]

/-- Nothing is merged. -/
theorem mergeEvery_of_isChain (h : parts.IsChain fun u v => rank u v ≠ some r) :
    mergeEvery (fun x y => rank x y = some r) parts = parts := by
  induction parts with
  | nil => rfl
  | cons x parts ih =>
    cases parts with
    | nil => rfl
    | cons y rest =>
      obtain ⟨hxy, hrest⟩ := List.isChain_cons_cons.mp h
      simp [mergeEvery, hxy, ih hrest]

/-- What is in front of the first occurrence stays. -/
theorem mergeEvery_append (h : (pre ++ [x]).IsChain fun u v => rank u v ≠ some r) :
    mergeEvery (fun x y => rank x y = some r) (pre ++ x :: rest) =
      pre ++ mergeEvery (fun x y => rank x y = some r) (x :: rest) := by
  induction pre with
  | nil => rfl
  | cons p pre ih =>
    have htail : (pre ++ [x]).IsChain fun u v => rank u v ≠ some r := h.tail
    cases pre with
    | nil =>
      have hpx : rank p x ≠ some r := (List.isChain_cons_cons.mp h).1
      simp [mergeEvery, hpx]
    | cons q pre =>
      have hpq : rank p q ≠ some r := (List.isChain_cons_cons.mp h).1
      have hstep : mergeEvery (fun x y => rank x y = some r) (p :: (q :: pre ++ x :: rest)) =
          p :: mergeEvery (fun x y => rank x y = some r) (q :: pre ++ x :: rest) := by
        simp [mergeEvery, hpq]
      rw [List.cons_append, hstep, ih htail]
      rfl

/-- The pairs of a join have a higher rank. -/
theorem Layered.above_join (h : Layered rank) (hr : rank x y = some r) (z : List α) :
    Above rank r z (x ++ y) ∧ Above rank r (x ++ y) z :=
  ⟨fun s hs => h _ _ _ _ r s hr hs (.inr rfl), fun s hs => h _ _ _ _ r s hr hs (.inl rfl)⟩

/-- Neighbours of the joined parts. -/
theorem isChain_join {R : List α → List α → Prop} (h : (pre ++ x :: y :: rest).IsChain R)
    (hleft : ∀ z, R z (x ++ y)) (hright : ∀ z, R (x ++ y) z) :
    (pre ++ (x ++ y) :: rest).IsChain R := by
  rw [List.isChain_append] at h ⊢
  obtain ⟨hpre, hrest, -⟩ := h
  refine ⟨hpre, ?_, ?_⟩
  · rw [List.isChain_cons]
    exact ⟨fun z _ => hright z, hrest.tail.tail⟩
  · intro z _ w hw
    rw [List.head?_cons, Option.mem_some_iff] at hw
    rw [← hw]
    exact hleft z

/-- **Merging the first occurrence** leaves what the round gives. -/
theorem mergeEvery_joinAt (hlayered : Layered rank) (hr : rank x y = some r)
    (hpre : (pre ++ [x]).IsChain (Above rank r)) :
    mergeEvery (fun x y => rank x y = some r) (pre ++ (x ++ y) :: rest) =
      mergeEvery (fun x y => rank x y = some r) (pre ++ x :: y :: rest) := by
  have hjoin : (pre ++ [x ++ y]).IsChain fun u v => rank u v ≠ some r := by
    have hdrop : pre.IsChain (Above rank r) := (List.isChain_append.mp hpre).1
    rw [List.isChain_append]
    refine ⟨hdrop.imp fun _ _ h => h.ne, .singleton _, fun z _ w hw => ?_⟩
    rw [List.head?_cons, Option.mem_some_iff] at hw
    rw [← hw]
    exact (hlayered.above_join hr z).1.ne
  rw [mergeEvery_append hjoin, mergeEvery_append (hpre.imp fun _ _ h => h.ne)]
  congr 1
  cases rest with
  | nil => simp [mergeEvery, hr]
  | cons z rest =>
    have hz : rank (x ++ y) z ≠ some r := (hlayered.above_join hr z).2.ne
    simp [mergeEvery, hr, hz]

/-- **A round is several single merges.** -/
theorem mergeAll_mergeEvery (hlayered : Layered rank)
    (hlimit : ∀ x y r, rank x y = some r → r < limit) (h : parts.IsChain (AtLeast rank r)) :
    mergeAll rank limit (mergeEvery (fun x y => rank x y = some r) parts) =
      mergeAll rank limit parts := by
  induction hlen : parts.length using Nat.strong_induction_on generalizing parts with
  | _ n ih =>
    rcases @bestFrom_spec α rank 0 limit none parts with ⟨-, hchain⟩ | hbest
    · rw [mergeEvery_of_isChain]
      exact hchain.imp fun u v huv hr => absurd (huv r hr) (not_le.mpr (hlimit u v r hr))
    · obtain ⟨pre, x, y, rest, s, rfl, hfound, hs, -, hchain, hpre⟩ := hbest
      rw [Nat.zero_add] at hfound
      rcases eq_or_ne s r with rfl | hne
      · rw [← mergeEvery_joinAt hlayered hs hpre, ih _ ?_ ?_ rfl]
        · rw [mergeAll.eq_1 rank limit (pre ++ x :: y :: rest), hfound]
          simp only [joinAt_length]
        · rw [← hlen]
          simp
        · refine isChain_join hchain (fun z s' hs' => ?_) fun z s' hs' => ?_
          · exact ((hlayered.above_join hs z).1 s' hs').le
          · exact ((hlayered.above_join hs z).2 s' hs').le
      · -- the lowest rank is not `r`, so `r` does not occur
        have hrs : r ≤ s := by
          have hxy := (List.isChain_append.mp h).2.1
          exact (List.isChain_cons_cons.mp hxy).1 s hs
        rw [mergeEvery_of_isChain]
        refine hchain.imp fun u v huv hr => ?_
        exact hne (le_antisymm (huv r hr) hrs)

/-- **One occurrence at a time is the same as whole rounds.** -/
theorem mergeAll_eq_mergeRounds (hlayered : Layered rank)
    (hlimit : ∀ x y r, rank x y = some r → r < limit) (parts : List (List α)) :
    mergeAll rank limit parts = mergeRounds rank parts := by
  induction parts using mergeRounds.induct rank with
  | case1 parts hmin =>
    rw [mergeRounds, hmin]
    have hnil : pairRanks rank parts = [] := List.min?_eq_none_iff.mp hmin
    rcases @bestFrom_spec α rank 0 limit none parts with ⟨hnone, -⟩ | hbest
    · rw [mergeAll, hnone]
    · obtain ⟨pre, x, y, rest, s, rfl, -, hs, -⟩ := hbest
      have hfalse := (@isChain_iff_pairRanks α rank _ fun _ => False).mpr (by rw [hnil]; simp)
      have hxy := (List.isChain_append.mp hfalse).2.1
      exact ((List.isChain_cons_cons.mp hxy).1 s hs).elim
  | case2 parts r hmin ih =>
    rw [mergeRounds, hmin]
    simp only
    rw [← ih, mergeAll_mergeEvery hlayered hlimit]
    refine isChain_iff_pairRanks.mpr fun s hs => ?_
    exact (List.min?_eq_some_iff.mp hmin).2 s hs

end Lemmas

end Bpe
