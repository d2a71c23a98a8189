import Mathlib.Algebra.Order.BigOperators.Group.List
import Mathlib.Algebra.Order.Ring.Nat
import Mathlib.Data.Finset.Card
import Mathlib.Order.Interval.Finset.Nat

/-!
# Free windows between blocks

An array of `n` cells of which some contiguous blocks may be taken: a block of length `l` meets at
most `l + (k - 1)` of the windows of length `k`, so a free window exists as soon as these counts
leave a start over. This is the arithmetic behind first-fit allocation of contiguous cells when
the free space is fragmented.

## Main results

* `exists_free_window` — the union bound over the blocks
* `exists_free_window_of_length_le` — the same, with one bound for the lengths
-/

namespace Windows

/-- Position `x` lies in one of the blocks, each given by its start and its length. -/
def Covered (blocks : List (ℕ × ℕ)) (x : ℕ) : Prop := ∃ b ∈ blocks, b.1 ≤ x ∧ x < b.1 + b.2

@[simp] theorem not_covered_nil (x : ℕ) : ¬ Covered [] x := by simp [Covered]

theorem covered_cons {b : ℕ × ℕ} {blocks : List (ℕ × ℕ)} {x : ℕ} :
    Covered (b :: blocks) x ↔ (b.1 ≤ x ∧ x < b.1 + b.2) ∨ Covered blocks x := by
  simp [Covered]

theorem covered_append {bs cs : List (ℕ × ℕ)} {x : ℕ} :
    Covered (bs ++ cs) x ↔ Covered bs x ∨ Covered cs x := by
  simp [Covered, or_and_right, exists_or]

/-- The starts of the windows of length `k` that meet a block are few. -/
theorem exists_starts (k : ℕ) (blocks : List (ℕ × ℕ)) :
    ∃ bad : Finset ℕ, bad.card ≤ (blocks.map fun b => b.2 + (k - 1)).sum ∧
      ∀ w x, w ≤ x → x < w + k → Covered blocks x → w ∈ bad := by
  induction blocks with
  | nil => exact ⟨∅, by simp, fun w x _ _ h => absurd h (not_covered_nil x)⟩
  | cons b blocks ih =>
    obtain ⟨bad, hcard, hbad⟩ := ih
    refine ⟨Finset.Ico (b.1 + 1 - k) (b.1 + b.2) ∪ bad, ?_, fun w x hwx hxw hx => ?_⟩
    · have hu := Finset.card_union_le (Finset.Ico (b.1 + 1 - k) (b.1 + b.2)) bad
      rw [Nat.card_Ico] at hu
      rw [List.map_cons, List.sum_cons]
      omega
    · rcases covered_cons.mp hx with hb | hx
      · exact Finset.mem_union_left _ (Finset.mem_Ico.mpr ⟨by omega, by omega⟩)
      · exact Finset.mem_union_right _ (hbad w x hwx hxw hx)

/-- **The union bound.** If the windows that meet a block do not use up all starts, some window of
length `k` meets none. -/
theorem exists_free_window {n k : ℕ} {blocks : List (ℕ × ℕ)}
    (h : (blocks.map fun b => b.2 + (k - 1)).sum + k ≤ n) :
    ∃ w, w + k ≤ n ∧ ∀ x, w ≤ x → x < w + k → ¬ Covered blocks x := by
  obtain ⟨bad, hcard, hbad⟩ := exists_starts k blocks
  have hlt : bad.card < (Finset.range (n - k + 1)).card := by rw [Finset.card_range]; omega
  obtain ⟨w, hw, hwbad⟩ := Finset.exists_mem_notMem_of_card_lt_card hlt
  refine ⟨w, ?_, fun x hwx hxw hx => hwbad (hbad w x hwx hxw hx)⟩
  have := Finset.mem_range.mp hw
  omega

theorem sum_map_le {blocks : List (ℕ × ℕ)} {l c : ℕ} (h : ∀ b ∈ blocks, b.2 ≤ l) :
    (blocks.map fun b => b.2 + c).sum ≤ blocks.length * (l + c) := by
  have hle : ∀ x ∈ blocks.map fun b => b.2 + c, x ≤ l + c := by
    intro x hx
    obtain ⟨b, hb, rfl⟩ := List.mem_map.mp hx
    exact Nat.add_le_add_right (h b hb) c
  simpa using List.sum_le_card_nsmul _ _ hle

/-- One large block, and further blocks no longer than `l`. -/
theorem exists_free_window_of_length_le {n k l : ℕ} {b : ℕ × ℕ} {blocks : List (ℕ × ℕ)}
    (hl : ∀ c ∈ blocks, c.2 ≤ l)
    (h : b.2 + (k - 1) + blocks.length * (l + (k - 1)) + k ≤ n) :
    ∃ w, w + k ≤ n ∧ ∀ x, w ≤ x → x < w + k → ¬ Covered (b :: blocks) x := by
  refine exists_free_window ?_
  have := sum_map_le (c := k - 1) hl
  rw [List.map_cons, List.sum_cons]
  omega

end Windows
