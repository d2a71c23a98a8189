import Mathlib.Algebra.Order.Field.Basic
import WhisperCpp.Full.Dtw
import WhisperCpp.Library.Warping

/-!
# The path of the alignment

`dtw_and_backtrace` takes, for every cell, the least of the three costs before it: the diagonal
one or the upper one if it is less than both others, and the left one otherwise. Where the
diagonal and the upper cost are the same and less than the left one, this takes the left one, and
more than the least.

## Main definitions

* `Settled` — no such tie comes in between

## Main results

* `exists_backtrace_isPath` — what is traced back is a monotone path with the accumulated cost
* `cost_eq_iff` — when the accumulated cost is the least
* `dtwAndBacktrace_iff` — the same, for the path that is returned
-/

namespace WhisperCpp

namespace Full

open Ggml (Tensor newTensor)
open Warping (Step IsPath pathCost minCost)

/-- A row of the result. -/
def btRow (c : ℕ × ℕ) : ℤ × ℤ := (c.1, c.2)

section Path

variable {K : Type*} [AddCommGroup K] [LinearOrder K] (x : ℕ → ℕ → K)

/-- The accumulated cost is that of the traced cell and what the cell itself costs. -/
theorem cost_of_trace (i j : ℕ) :
    (trace x (i + 1) (j + 1) = 0 → cost x (i + 1) (j + 1) = x i j + cost x i j) ∧
      (trace x (i + 1) (j + 1) = 1 → cost x (i + 1) (j + 1) = x i j + cost x i (j + 1)) ∧
      (trace x (i + 1) (j + 1) = 2 → cost x (i + 1) (j + 1) = x i j + cost x (i + 1) j) := by
  have hcost : cost x (i + 1) (j + 1) =
    x i j + (stepChoice (cost x i j) (cost x i (j + 1)) (cost x (i + 1) j)).1 := by rw [cost]
  have htrace : trace x (i + 1) (j + 1) =
    (stepChoice (cost x i j) (cost x i (j + 1)) (cost x (i + 1) j)).2 := by rw [trace]
  rw [hcost, htrace]
  obtain heq | heq | heq := stepChoice_cases (cost x i j) (cost x i (j + 1)) (cost x (i + 1) j) <;>
    rw [heq] <;> simp

/-- **What is traced back is a monotone path, and its cost is the accumulated one.** -/
theorem exists_backtrace_isPath (i j : ℕ) :
    ∃ path, backtrace (trace x) (i + 1) (j + 1) = .ok (path.map btRow) ∧ IsPath path (i, j) ∧
      cost x (i + 1) (j + 1) = pathCost x path := by
  induction hn : i + j using Nat.strong_induction_on generalizing i j with
  | _ n ih =>
    subst hn
    -- the row of the cell is put behind the path to the traced cell
    have hpush {k l : ℕ} (hstep : Step (k, l) (i, j)) (hlt : k + l < i + j)
        (hcost : cost x (i + 1) (j + 1) = x i j + cost x (k + 1) (l + 1)) :
        ∃ path, (do .ok ((← backtrace (trace x) (k + 1) (l + 1)) ++
            [(((i + 1 : ℕ) : ℤ) - 1, ((j + 1 : ℕ) : ℤ) - 1)])) =
            (.ok (path.map btRow) : Except Fault (List (ℤ × ℤ))) ∧ IsPath path (i, j) ∧
          cost x (i + 1) (j + 1) = pathCost x path := by
      obtain ⟨path, hpath, hmono, hsum⟩ := ih (k + l) hlt k l rfl
      refine ⟨path ++ [(i, j)], ?_, hmono.snoc hstep, ?_⟩
      · rw [hpath]
        simp [btRow, bind, Except.bind]
      · rw [hcost, hsum, Warping.pathCost_snoc, WithTop.coe_add]
    obtain ⟨hboth, hup, hleft⟩ := cost_of_trace x i j
    rw [backtrace, if_neg (by omega)]
    obtain ⟨ht, hij | hij⟩ | ⟨ht, hi⟩ | ⟨ht, hj⟩ := (trace_cases x i j).2
    · obtain ⟨rfl, rfl⟩ := hij
      refine ⟨[(0, 0)], ?_, .corner, ?_⟩
      · have hcorner : backtrace (trace x) 0 0 = .ok [] := by rw [backtrace, if_pos ⟨rfl, rfl⟩]
        simp [ht, hcorner, btRow, bind, Except.bind]
      · rw [hboth ht, cost]
        simp [pathCost]
    · obtain ⟨k, rfl⟩ := Nat.exists_eq_succ_of_ne_zero hij.1.ne'
      obtain ⟨l, rfl⟩ := Nat.exists_eq_succ_of_ne_zero hij.2.ne'
      simp only [ht]
      exact hpush (.inl rfl) (by omega) (hboth ht)
    · obtain ⟨k, rfl⟩ := Nat.exists_eq_succ_of_ne_zero hi.ne'
      simp only [ht]
      exact hpush (.inr (.inl rfl)) (by omega) (hup ht)
    · obtain ⟨l, rfl⟩ := Nat.exists_eq_succ_of_ne_zero hj.ne'
      simp only [ht]
      exact hpush (.inr (.inr rfl)) (by omega) (hleft ht)

/-! ### Ties -/

/-- On the way to the cell, the choice always finds a cell before from which the cost is least: the
left one is such a cell, or exactly one of the diagonal and the upper one is. -/
def Settled : ℕ → ℕ → Prop
  | 0, 0 => True
  | i + 1, 0 => Settled i 0
  | 0, j + 1 => Settled 0 j
  | i + 1, j + 1 =>
    let c := min (min (minCost x i j) (minCost x i (j + 1))) (minCost x (i + 1) j)
    (Settled (i + 1) j ∧ minCost x (i + 1) j = c) ∨
      Xor (Settled i j ∧ minCost x i j = c) (Settled i (j + 1) ∧ minCost x i (j + 1) = c)

variable [IsOrderedAddMonoid K]

/-- The accumulated cost is that of a path. -/
theorem minCost_le_cost (i j : ℕ) : ((minCost x i j : K) : WithTop K) ≤ cost x (i + 1) (j + 1) := by
  obtain ⟨path, -, hmono, hcost⟩ := exists_backtrace_isPath x i j
  rw [hcost, WithTop.coe_le_coe]
  exact Warping.minCost_le x hmono

omit [AddCommGroup K] [IsOrderedAddMonoid K] in
/-- Among costs that are not below `m`, the choice finds `m` if the left one is `m`, or exactly one
of the others. -/
theorem stepChoice_eq_iff {c0 c1 c2 m : WithTop K} (h0 : m ≤ c0) (h1 : m ≤ c1) (h2 : m ≤ c2) :
    (stepChoice c0 c1 c2).1 = m ↔ c2 = m ∨ Xor (c0 = m) (c1 = m) := by
  rw [stepChoice, xor_def]
  split_ifs with hc0 hc1
  · have hne1 : c1 ≠ m := (h0.trans_lt hc0.1).ne'
    have hne2 : c2 ≠ m := (h0.trans_lt hc0.2).ne'
    simp [hne1, hne2]
  · have hne0 : c0 ≠ m := (h1.trans_lt hc1.1).ne'
    have hne2 : c2 ≠ m := (h1.trans_lt hc1.2).ne'
    simp [hne0, hne2]
  · refine ⟨.inl, ?_⟩
    rintro (heq | ⟨heq, hne⟩ | ⟨heq, hne⟩)
    · exact heq
    · rw [heq] at hc0
      have hlt1 := h1.lt_of_ne' hne
      exact le_antisymm (not_lt.1 fun hlt2 => hc0 ⟨hlt1, hlt2⟩) h2
    · rw [heq] at hc1
      have hlt0 := h0.lt_of_ne' hne
      exact le_antisymm (not_lt.1 fun hlt2 => hc1 ⟨hlt0, hlt2⟩) h2

/-- **The accumulated cost is the least exactly where no tie comes in between.** -/
theorem cost_eq_iff (i j : ℕ) :
    cost x (i + 1) (j + 1) = ((minCost x i j : K) : WithTop K) ↔ Settled x i j := by
  have hcancel {a b : WithTop K} {k : K} : (k : WithTop K) + a = k + b ↔ a = b :=
    WithTop.add_left_inj WithTop.coe_ne_top
  induction i, j using Warping.cell_induction with
  | corner => simp [cost, Settled, minCost, stepChoice_diagonal]
  | column i ih =>
    have hup : cost x (i + 1) 1 ≠ ⊤ := (trace_cases x i 0).1
    rw [cost, Settled, minCost, cost.eq_3, cost.eq_3, stepChoice_up hup, WithTop.coe_add, hcancel]
    exact ih
  | row j ih =>
    rw [cost, Settled, minCost, cost.eq_2, cost.eq_2, stepChoice_left, WithTop.coe_add, hcancel]
    exact ih
  | inner i j ihBoth ihUp ihLeft =>
    have hle {k l : ℕ} {m : K} (hm : m ≤ minCost x k l) : (m : WithTop K) ≤ cost x (k + 1) (l + 1) :=
      (WithTop.coe_le_coe.2 hm).trans (minCost_le_cost x k l)
    -- a cell before has the least cost if it is settled and the least cost of a path to it is that
    have hcell {k l : ℕ} {m : K} (hm : m ≤ minCost x k l)
        (ih : cost x (k + 1) (l + 1) = ((minCost x k l : K) : WithTop K) ↔ Settled x k l) :
        cost x (k + 1) (l + 1) = m ↔ Settled x k l ∧ minCost x k l = m := by
      refine ⟨fun heq => ?_, fun h => by rw [ih.2 h.1, h.2]⟩
      have hmin : minCost x k l = m := by
        have := minCost_le_cost x k l
        rw [heq, WithTop.coe_le_coe] at this
        exact le_antisymm this hm
      exact ⟨ih.1 (by rw [heq, hmin]), hmin⟩
    have hboth : min (min (minCost x i j) (minCost x i (j + 1))) (minCost x (i + 1) j) ≤
      minCost x i j := (min_le_left _ _).trans (min_le_left _ _)
    have hup : min (min (minCost x i j) (minCost x i (j + 1))) (minCost x (i + 1) j) ≤
      minCost x i (j + 1) := (min_le_left _ _).trans (min_le_right _ _)
    have hleft : min (min (minCost x i j) (minCost x i (j + 1))) (minCost x (i + 1) j) ≤
      minCost x (i + 1) j := min_le_right _ _
    rw [cost, Settled, minCost, WithTop.coe_add, hcancel,
      stepChoice_eq_iff (hle hboth) (hle hup) (hle hleft), hcell hboth ihBoth, hcell hup ihUp,
      hcell hleft ihLeft]

end Path

/-! ### The result -/

section Result

variable {K : Type*} [Field K] [LinearOrder K] {x : Tensor} {N M : ℕ}

/-- A matrix has two dimensions unless it is a single column. -/
theorem nDims_matrix (hx : x.ne = ![(N : ℤ), M, 1, 1]) (hM : 1 ≤ M) :
    Ggml.nDims x = 2 ↔ 2 ≤ M := by
  rw [Ggml.nDims, hx]
  simp
  omega

/-- What `dtw_and_backtrace` is to compute for a matrix: a monotone path from corner to corner, and
an accumulated cost that is the least of all such paths and that of the path. -/
structure IsAlignment (data : ℕ → ℕ → K) (N M : ℕ) (path : List (ℕ × ℕ)) : Prop where
  isPath : IsPath path (N - 1, M - 1)
  length_le : path.length ≤ N + M - 1
  cost_eq : cost data N M = pathCost data path
  isLeast : IsLeast {k | ∃ path, IsPath path (N - 1, M - 1) ∧ pathCost data path = k}
    (pathCost data path)

/-- What `dtw_and_backtrace` returns. -/
theorem exists_dtwAndBacktrace_isPath (hx : x.ne = ![(N : ℤ), M, 1, 1]) (hN : 1 ≤ N) (hM : 1 ≤ M)
    (data : ℕ → ℕ → K) :
    ∃ path, IsPath path (N - 1, M - 1) ∧ cost data N M = pathCost data path ∧
      ∀ rows, dtwAndBacktrace x data = .ok rows ↔ 2 ≤ M ∧ rows = path.map btRow := by
  obtain ⟨i, rfl⟩ := Nat.exists_eq_succ_of_ne_zero (Nat.one_le_iff_ne_zero.1 hN)
  obtain ⟨j, rfl⟩ := Nat.exists_eq_succ_of_ne_zero (Nat.one_le_iff_ne_zero.1 hM)
  obtain ⟨path, hpath, hmono, hcost⟩ := exists_backtrace_isPath data i j
  refine ⟨path, hmono, hcost, fun rows => ?_⟩
  have hlen : path.length ≤ i + j + 1 := hmono.length_le
  have h0 : (x.ne 0).toNat = i + 1 := by rw [hx]; rfl
  have h1 : (x.ne 1).toNat = j + 1 := by rw [hx]; rfl
  have hfits : ((path.map btRow).length : ℤ) ≤ x.ne 0 + x.ne 1 - 1 := by
    rw [hx, List.length_map]
    simp
    omega
  rw [dtwAndBacktrace, whisperAssert_bind, decide_eq_true_iff, nDims_matrix hx hM, h0, h1, hpath]
  show 2 ≤ j + 1 ∧ (if ((path.map btRow).length : ℤ) ≤ x.ne 0 + x.ne 1 - 1 then _ else _) = _ ↔ _
  rw [if_pos hfits, Except.ok.injEq, eq_comm (a := path.map btRow)]

variable [IsStrictOrderedRing K]

/-- **When the path is one of least cost.** The matrix has at least two columns, and no tie between
the diagonal and the upper cell, below the left one, comes in between. -/
theorem dtwAndBacktrace_iff (hx : x.ne = ![(N : ℤ), M, 1, 1]) (hN : 1 ≤ N) (hM : 1 ≤ M)
    (data : ℕ → ℕ → K) :
    (∃ path, dtwAndBacktrace x data = .ok (path.map btRow) ∧ IsAlignment data N M path) ↔
      2 ≤ M ∧ Settled data (N - 1) (M - 1) := by
  obtain ⟨path, hmono, hcost, hresult⟩ := exists_dtwAndBacktrace_isPath hx hN hM data
  have hsettled : cost data N M = ((minCost data (N - 1) (M - 1) : K) : WithTop K) ↔
      Settled data (N - 1) (M - 1) := by
    rw [← cost_eq_iff, Nat.sub_add_cancel hN, Nat.sub_add_cancel hM]
  constructor
  · rintro ⟨path', hpath', halign⟩
    obtain ⟨hM2, hrows⟩ := (hresult _).1 hpath'
    refine ⟨hM2, hsettled.1 ?_⟩
    rw [halign.cost_eq, halign.isLeast.unique (Warping.isLeast_minCost data _ _)]
  · rintro ⟨hM2, hfound⟩
    refine ⟨path, (hresult _).2 ⟨hM2, rfl⟩, hmono, ?_, hcost, ?_⟩
    · have := hmono.length_le
      simp only at this
      omega
    · have hleast := hsettled.2 hfound
      rw [hcost, WithTop.coe_inj] at hleast
      rw [hleast]
      exact Warping.isLeast_minCost data _ _

omit [IsStrictOrderedRing K] in
theorem minCost_zero (i j : ℕ) : minCost (fun _ _ => (0 : K)) i j = 0 := by
  induction i, j using Warping.cell_induction with
  | corner => rw [minCost]
  | column i ih => rw [minCost, ih, zero_add]
  | row j ih => rw [minCost, ih, zero_add]
  | inner i j ihBoth ihUp ihLeft => rw [minCost, ihBoth, ihUp, ihLeft, min_self, min_self, zero_add]

/-- With equal costs the choice takes the left cell, which is as good as the others. -/
theorem exists_alignment_zero :
    ∃ path, dtwAndBacktrace (newTensor .f32 ![2, 2, 1, 1]) (fun _ _ => (0 : ℚ)) =
      .ok (path.map btRow) ∧ IsAlignment (fun _ _ => (0 : ℚ)) 2 2 path := by
  refine (dtwAndBacktrace_iff rfl (by decide) (by decide) _).2 ⟨le_rfl, ?_⟩
  simp [Settled, minCost_zero]

/-- Two tokens and two frames: the diagonal cell before the last and the upper one cost the same,
the left one more. -/
def tiedData : ℕ → ℕ → ℚ
  | 1, 0 => 1
  | _, _ => 0

/-- **The path of least cost is missed at a tie.** -/
theorem not_exists_alignment_tiedData :
    ¬ ∃ path, dtwAndBacktrace (newTensor .f32 ![2, 2, 1, 1]) tiedData = .ok (path.map btRow) ∧
      IsAlignment tiedData 2 2 path := by
  rintro ⟨path, -, halign⟩
  have hmin : minCost tiedData 1 1 = 0 := by simp [minCost, tiedData]
  have hcost : cost tiedData 2 2 = ((0 : ℚ) : WithTop ℚ) := by
    rw [halign.cost_eq, halign.isLeast.unique (Warping.isLeast_minCost tiedData _ _), hmin]
  rw [← hmin, cost_eq_iff] at hcost
  simp [Settled, minCost, tiedData] at hcost

end Result

end Full

end WhisperCpp
