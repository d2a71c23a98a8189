import Mathlib.Data.List.Sort
import Mathlib.Order.Basic
import WhisperCpp.Library.SortUnique

/-!
# Stable sorting by a key

Sorting by insertion leaves the elements with the same key in their order, and this determines the
result.

## Main definitions

* `sort`

## Main results

* `filter_sort` — the elements with one key
* `sortBy_id` — sorting by a key and then by the index
-/

namespace StableSort

open SortUnique

variable {α β : Type*} [LinearOrder β] {key : α → β} {l m : List α} {k : β}

/-- The order by a key. -/
def LeKey (key : α → β) (a b : α) : Prop := key a ≤ key b

instance : DecidableRel (LeKey key) := fun _ _ => inferInstanceAs (Decidable (_ ≤ _))

instance : Std.Total (LeKey key) := ⟨fun a b => le_total (key a) (key b)⟩

instance : IsTrans α (LeKey key) := ⟨fun _ _ _ h h' => le_trans (α := β) h h'⟩

/-- The stable sort. -/
def sort (key : α → β) (l : List α) : List α := l.insertionSort (LeKey key)

theorem sort_perm (key : α → β) (l : List α) : (sort key l).Perm l := List.perm_insertionSort _ _

theorem pairwise_sort (key : α → β) (l : List α) :
    (sort key l).Pairwise fun a b => key a ≤ key b := List.pairwise_insertionSort (LeKey key) l

theorem sort_sort (key : α → β) (l : List α) : sort key (sort key l) = sort key l :=
  (pairwise_sort key l).insertionSort_eq

theorem filter_orderedInsert (a : α) (l : List α) :
    (l.orderedInsert (LeKey key) a).filter (fun x => key x = k) =
      (a :: l).filter fun x => key x = k := by
  induction l with
  | nil => rfl
  | cons b l ih =>
    rw [List.orderedInsert_cons]
    split
    · rfl
    · rename_i hlt
      have hlt : key b < key a := not_le.mp hlt
      by_cases ha : key a = k
      · have hb : key b ≠ k := (hlt.trans_eq ha).ne
        simp [ih, ha, hb]
      · simp [List.filter_cons, ih, ha]

/-- **The elements with one key stay in their order.** -/
theorem filter_sort (key : α → β) (k : β) (l : List α) :
    (sort key l).filter (fun x => key x = k) = l.filter fun x => key x = k := by
  induction l with
  | nil => rfl
  | cons a l ih =>
    rw [sort, List.insertionSort_cons, filter_orderedInsert]
    simp only [List.filter_cons]
    rw [← ih, sort]

/-- What is inserted has the lowest index. -/
theorem map_orderedInsert_before {i : ℕ} {a : α} {l : List (α × ℕ)} (h : ∀ x ∈ l, i ≤ x.2) :
    (l.orderedInsert (Before key) (a, i)).map Prod.fst =
      (l.map Prod.fst).orderedInsert (LeKey key) a := by
  induction l with
  | nil => rfl
  | cons b l ih =>
    obtain ⟨hb, hl⟩ := List.forall_mem_cons.mp h
    have hiff : Before key (a, i) b ↔ LeKey key a b.1 := by
      show key a < key b.1 ∨ key a = key b.1 ∧ i ≤ b.2 ↔ key a ≤ key b.1
      rw [and_iff_left hb, le_iff_lt_or_eq]
    rw [List.orderedInsert_cons, List.map_cons, List.orderedInsert_cons]
    by_cases hle : LeKey key a b.1
    · rw [if_pos (hiff.mpr hle), if_pos hle]
      rfl
    · rw [if_neg (hiff.not.mpr hle), if_neg hle, List.map_cons, ih hl]

/-- **Sorting by the index where the keys are equal is stable.** -/
theorem sortBy_id (key : α → β) (l : List α) : sortBy key id l = sort key l := by
  have hfrom : ∀ n, (((l.zipIdx n).map fun e => (e.1, id e.2)).insertionSort (Before key)).map
      Prod.fst = sort key l := by
    induction l with
    | nil => exact fun n => rfl
    | cons a l ih =>
      intro n
      rw [List.zipIdx_cons, List.map_cons, List.insertionSort_cons, map_orderedInsert_before, ih, sort,
        sort, List.insertionSort_cons]
      intro x hx
      obtain ⟨e, he, rfl⟩ := List.mem_map.mp ((List.perm_insertionSort _ _).mem_iff.mp hx)
      exact (Nat.le_succ n).trans (List.le_snd_of_mem_zipIdx he)
  exact hfrom 0

end StableSort
