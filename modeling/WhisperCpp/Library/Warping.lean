import Mathlib.Algebra.Order.Group.Defs
import Mathlib.Algebra.BigOperators.Group.List.Basic
import Mathlib.Data.List.Chain
import Mathlib.Order.Bounds.Basic
import Mathlib.Tactic.Linarith

/-!
# Warping paths

Dynamic time warping aligns two sequences along a path through the grid of their pairs. The path
starts at the corner and advances by one in the row, the column or both. Its cost is the sum of the
costs of its cells.

## Main definitions

* `Warping.Step`, `Warping.IsPath` — monotone paths
* `Warping.pathCost` — the cost of a path
* `Warping.minCost` — the least cost of a path to a cell, by recursion on the cell

## Main results

* `IsPath.length_le` — a path has no more cells than there are rows and columns
* `isLeast_minCost` — the recursion computes the least cost
-/

namespace Warping

/-- A cell of the grid comes after the cells above it, to the left of it and across. -/
@[elab_as_elim]
theorem cell_induction {motive : ℕ → ℕ → Prop} (corner : motive 0 0)
    (column : ∀ i, motive i 0 → motive (i + 1) 0) (row : ∀ j, motive 0 j → motive 0 (j + 1))
    (inner : ∀ i j, motive i j → motive i (j + 1) → motive (i + 1) j → motive (i + 1) (j + 1)) :
    ∀ i j, motive i j := by
  intro i
  induction i with
  | zero =>
    intro j
    induction j with
    | zero => exact corner
    | succ j ih => exact row j ih
  | succ i ihRow =>
    intro j
    induction j with
    | zero => exact column i (ihRow 0)
    | succ j ih => exact inner i j (ihRow j) (ihRow (j + 1)) ih

/-- By one in the row, the column or both. -/
def Step (c d : ℕ × ℕ) : Prop :=
  d = (c.1 + 1, c.2 + 1) ∨ d = (c.1 + 1, c.2) ∨ d = (c.1, c.2 + 1)

/-- A monotone path from the corner to `c`. -/
structure IsPath (path : List (ℕ × ℕ)) (c : ℕ × ℕ) : Prop where
  head_eq : path.head? = some (0, 0)
  last_eq : path.getLast? = some c
  chain : path.IsChain Step

variable {path : List (ℕ × ℕ)} {c d : ℕ × ℕ}

theorem IsPath.corner : IsPath [(0, 0)] (0, 0) :=
  ⟨rfl, rfl, List.isChain_singleton _⟩

/-- A path is prolonged by one step. -/
theorem IsPath.snoc (h : IsPath path c) (hstep : Step c d) : IsPath (path ++ [d]) d where
  head_eq := by rw [List.head?_append, h.head_eq, Option.some_or]
  last_eq := List.getLast?_concat
  chain := by
    rw [List.isChain_append]
    refine ⟨h.chain, List.isChain_singleton _, ?_⟩
    intro a ha b hb
    rw [h.last_eq, Option.mem_some_iff] at ha
    rw [List.head?_cons, Option.mem_some_iff] at hb
    subst ha hb
    exact hstep

/-- A path is the corner alone, or its last step prolongs a path. -/
theorem IsPath.cases_last (h : IsPath path c) :
    path = [(0, 0)] ∧ c = (0, 0) ∨ ∃ front b, path = front ++ [c] ∧ IsPath front b ∧ Step b c := by
  obtain rfl | ⟨front, a, rfl⟩ := List.eq_nil_or_concat path
  · exact absurd h.head_eq nofun
  have hlast := h.last_eq
  rw [List.concat_eq_append, List.getLast?_concat, Option.some_inj] at hlast
  subst hlast
  rw [List.concat_eq_append] at h ⊢
  obtain rfl | hne := eq_or_ne front []
  · have hhead := h.head_eq
    rw [List.nil_append, List.head?_cons, Option.some_inj] at hhead
    subst hhead
    exact .inl ⟨rfl, rfl⟩
  · have hchain := List.isChain_append.1 h.chain
    refine .inr ⟨front, front.getLast hne, rfl, ⟨?_, List.getLast?_eq_getLast_of_ne_nil hne, ?_⟩, ?_⟩
    · rw [← h.head_eq, List.head?_append_of_ne_nil _ hne]
    · exact hchain.1
    · exact hchain.2.2 _ (List.getLast?_eq_getLast_of_ne_nil hne) _ rfl

theorem IsPath.length_le (h : IsPath path c) : path.length ≤ c.1 + c.2 + 1 := by
  induction hn : path.length generalizing path c with
  | zero => exact Nat.zero_le _
  | succ n ih =>
    obtain ⟨rfl, rfl⟩ | ⟨front, b, rfl, hfront, hstep⟩ := h.cases_last
    · simpa using hn.ge
    · have hle := ih hfront (by simpa using hn)
      obtain rfl | rfl | rfl := hstep <;> simp only <;> omega

/-! ### The least cost -/

section Cost

variable {K : Type*} [AddCommGroup K] [LinearOrder K] (x : ℕ → ℕ → K)

/-- The cost of a path. -/
def pathCost (path : List (ℕ × ℕ)) : K := (path.map fun c => x c.1 c.2).sum

omit [LinearOrder K] in
theorem pathCost_snoc (path : List (ℕ × ℕ)) (c : ℕ × ℕ) :
    pathCost x (path ++ [c]) = x c.1 c.2 + pathCost x path := by
  rw [pathCost, List.map_append, List.sum_append, add_comm, pathCost]
  simp

/-- The least cost of a path to a cell. -/
def minCost : ℕ → ℕ → K
  | 0, 0 => x 0 0
  | i + 1, 0 => x (i + 1) 0 + minCost i 0
  | 0, j + 1 => x 0 (j + 1) + minCost 0 j
  | i + 1, j + 1 =>
    x (i + 1) (j + 1) + min (min (minCost i j) (minCost i (j + 1))) (minCost (i + 1) j)

variable [IsOrderedAddMonoid K]

/-- A step costs what its cell costs. -/
theorem minCost_le_of_step {b c : ℕ × ℕ} (h : Step b c) :
    minCost x c.1 c.2 ≤ x c.1 c.2 + minCost x b.1 b.2 := by
  obtain ⟨i, j⟩ := b
  obtain rfl | rfl | rfl := h
  · rw [minCost]
    exact add_le_add_right ((min_le_left _ _).trans (min_le_left _ _)) _
  · cases j with
    | zero => rw [minCost]
    | succ j =>
      rw [minCost]
      exact add_le_add_right ((min_le_left _ _).trans (min_le_right _ _)) _
  · cases i with
    | zero => rw [minCost]
    | succ i =>
      rw [minCost]
      exact add_le_add_right (min_le_right _ _) _

/-- No path costs less. -/
theorem minCost_le (h : IsPath path c) : minCost x c.1 c.2 ≤ pathCost x path := by
  induction hn : path.length generalizing path c with
  | zero =>
    rw [List.length_eq_zero_iff] at hn
    subst hn
    exact absurd h.head_eq nofun
  | succ n ih =>
    obtain ⟨rfl, rfl⟩ | ⟨front, b, rfl, hfront, hstep⟩ := h.cases_last
    · simp [minCost, pathCost]
    · rw [pathCost_snoc]
      exact (minCost_le_of_step x hstep).trans
        (add_le_add_right (ih hfront (by simpa using hn)) _)

omit [IsOrderedAddMonoid K] in
/-- Some path costs this. -/
theorem exists_path_minCost (i j : ℕ) :
    ∃ path, IsPath path (i, j) ∧ pathCost x path = minCost x i j := by
  have hsnoc {i j k l : ℕ} (hpath : ∃ path, IsPath path (i, j) ∧ pathCost x path = minCost x i j)
      (hstep : Step (i, j) (k, l)) :
      ∃ path, IsPath path (k, l) ∧ pathCost x path = x k l + minCost x i j := by
    obtain ⟨path, hpath, hcost⟩ := hpath
    exact ⟨path ++ [(k, l)], hpath.snoc hstep, by rw [pathCost_snoc, hcost]⟩
  induction i, j using cell_induction with
  | corner => exact ⟨[(0, 0)], .corner, by simp [minCost, pathCost]⟩
  | column i ih =>
    rw [minCost]
    exact hsnoc ih (.inr (.inl rfl))
  | row j ih =>
    rw [minCost]
    exact hsnoc ih (.inr (.inr rfl))
  | inner i j ihBoth ihRow ihColumn =>
    rw [minCost]
    obtain h | h := min_choice (min (minCost x i j) (minCost x i (j + 1))) (minCost x (i + 1) j)
    · rw [h]
      obtain h' | h' := min_choice (minCost x i j) (minCost x i (j + 1))
      · rw [h']
        exact hsnoc ihBoth (.inl rfl)
      · rw [h']
        exact hsnoc ihRow (.inr (.inl rfl))
    · rw [h]
      exact hsnoc ihColumn (.inr (.inr rfl))

/-- **The recursion computes the least cost.** -/
theorem isLeast_minCost (i j : ℕ) :
    IsLeast {k | ∃ path, IsPath path (i, j) ∧ pathCost x path = k} (minCost x i j) := by
  refine ⟨exists_path_minCost x i j, ?_⟩
  rintro _ ⟨path, hpath, rfl⟩
  exact minCost_le x hpath

end Cost

end Warping
