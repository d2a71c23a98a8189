import Mathlib.Data.List.Destutter
import Mathlib.Data.List.Sort
import Mathlib.Order.Defs.LinearOrder

/-!
# Sorting by a key and removing duplicates

Sorting by a key with a sort that need not be stable, and then keeping the first of every run of
elements with the same key. The order of elements with the same key is given by ranks.

## Main definitions

* `sortBy`, `uniqueBy`

## Main results

* `pairwise_uniqueBy_sortBy` — the keys of the result increase
* `exists_mem_uniqueBy_sortBy` — every key of the list is in the result
-/

namespace SortUnique

variable {α β : Type*} [LinearOrder β] (key : α → β)

/-- The order of the sort: by key, and by rank where the keys are equal. -/
def Before (a b : α × ℕ) : Prop := key a.1 < key b.1 ∨ key a.1 = key b.1 ∧ a.2 ≤ b.2

instance : DecidableRel (Before key) := fun _ _ => inferInstanceAs (Decidable (_ ∨ _))

instance : Std.Total (Before key) := ⟨fun a b => by
  rcases lt_trichotomy (key a.1) (key b.1) with h | h | h
  · exact .inl (.inl h)
  · exact (le_total a.2 b.2).imp (.inr ⟨h, ·⟩) (.inr ⟨h.symm, ·⟩)
  · exact .inr (.inl h)⟩

instance : IsTrans (α × ℕ) (Before key) := ⟨by
  rintro a b c (h | ⟨h, h'⟩) (g | ⟨g, g'⟩)
  · exact .inl (h.trans g)
  · exact .inl (h.trans_eq g)
  · exact .inl (h.trans_lt g)
  · exact .inr ⟨h.trans g, h'.trans g'⟩⟩

/-- `std::sort` by a key. Nothing is known of the ranks `tie`. -/
def sortBy (tie : ℕ → ℕ) (l : List α) : List α :=
  ((l.zipIdx.map fun e => (e.1, tie e.2)).insertionSort (Before key)).map Prod.fst

/-- `std::unique` by a key. -/
def uniqueBy (l : List α) : List α := l.destutter fun a b => key a ≠ key b

variable {key} {tie : ℕ → ℕ} {l : List α} {a : α}

theorem sortBy_perm : (sortBy key tie l).Perm l := by
  refine ((List.perm_insertionSort _ _).map _).trans ?_
  rw [List.map_map]
  exact .of_eq (List.zipIdx_map_fst 0 l)

theorem mem_sortBy (key : α → β) (tie : ℕ → ℕ) : a ∈ sortBy key tie l ↔ a ∈ l := sortBy_perm.mem_iff

theorem pairwise_sortBy : (sortBy key tie l).Pairwise fun a b => key a ≤ key b :=
  List.pairwise_map.mpr <| (List.pairwise_insertionSort (Before key) _).imp fun h =>
    h.elim le_of_lt fun h => h.1.le

theorem mem_of_mem_uniqueBy (key : α → β) (h : a ∈ uniqueBy key l) : a ∈ l :=
  (List.destutter_sublist _ l).subset h

/-- Every element has one with the same key that is kept. -/
theorem exists_mem_uniqueBy (key : α → β) (h : a ∈ l) : ∃ b ∈ uniqueBy key l, key b = key a := by
  have hcons : ∀ (l : List α) (x : α), a ∈ x :: l →
      ∃ b ∈ l.destutter' (fun a b => key a ≠ key b) x, key b = key a := by
    intro l
    induction l with
    | nil =>
      intro x hx
      rw [List.mem_singleton] at hx
      exact ⟨x, List.mem_destutter' .., hx ▸ rfl⟩
    | cons y l ih =>
      intro x hx
      by_cases hxy : key x = key y
      · rw [List.destutter'_cons_neg _ (not_not.mpr hxy)]
        -- `x` stands for `y` too
        rcases List.mem_cons.mp hx with rfl | hx
        · exact ⟨a, List.mem_destutter' .., rfl⟩
        · rcases List.mem_cons.mp hx with rfl | hx
          · exact ⟨x, List.mem_destutter' .., hxy⟩
          · exact ih x (List.mem_cons_of_mem _ hx)
      · rw [List.destutter'_cons_pos _ hxy]
        rcases List.mem_cons.mp hx with rfl | hx
        · exact ⟨a, List.mem_cons_self .., rfl⟩
        · obtain ⟨b, hb, hkey⟩ := ih y hx
          exact ⟨b, List.mem_cons_of_mem _ hb, hkey⟩
  cases l with
  | nil => cases h
  | cons x l => exact hcons l x h

/-- A sorted list without duplicates is strictly sorted. -/
theorem pairwise_uniqueBy (h : l.Pairwise fun a b => key a ≤ key b) :
    (uniqueBy key l).Pairwise fun a b => key a < key b := by
  have hle : (uniqueBy key l).Pairwise fun a b => key a ≤ key b :=
    h.sublist (List.destutter_sublist _ l)
  have hne : (uniqueBy key l).IsChain fun a b => key a ≠ key b := List.isChain_destutter _ l
  have : IsTrans α fun a b => key a < key b := ⟨fun _ _ _ => lt_trans⟩
  rw [← List.isChain_iff_pairwise, List.isChain_iff_getElem] at *
  exact fun i hi => lt_of_le_of_ne (hle i hi) (hne i hi)

/-- **The keys increase.** -/
theorem pairwise_uniqueBy_sortBy (key : α → β) (tie : ℕ → ℕ) (l : List α) :
    (uniqueBy key (sortBy key tie l)).Pairwise fun a b => key a < key b :=
  pairwise_uniqueBy pairwise_sortBy

/-- **No key is lost.** -/
theorem exists_mem_uniqueBy_sortBy (h : a ∈ l) :
    ∃ b ∈ uniqueBy key (sortBy key tie l), b ∈ l ∧ key b = key a := by
  obtain ⟨b, hb, hkey⟩ := exists_mem_uniqueBy key ((mem_sortBy key tie).mpr h)
  exact ⟨b, hb, (mem_sortBy key tie).mp (mem_of_mem_uniqueBy key hb), hkey⟩

/-- Two elements of a list are the same, or one is before the other. -/
theorem eq_or_of_pairwise {R : α → α → Prop} (h : l.Pairwise R) {b : α} (ha : a ∈ l) (hb : b ∈ l) :
    a = b ∨ R a b ∨ R b a := by
  induction l with
  | nil => cases ha
  | cons x l ih =>
    obtain ⟨hx, hl⟩ := List.pairwise_cons.mp h
    rcases List.mem_cons.mp ha with ha | ha <;> rcases List.mem_cons.mp hb with hb | hb
    · exact .inl (ha.trans hb.symm)
    · exact .inr (.inl (ha ▸ hx b hb))
    · exact .inr (.inr (hb ▸ hx a ha))
    · exact ih hl ha hb

/-- What holds between every element and the later ones holds in the result, if the keys were in
order. -/
theorem pairwise_uniqueBy_sortBy_of {R : α → α → Prop}
    (h : l.Pairwise fun a b => key a ≤ key b ∧ R a b) :
    (uniqueBy key (sortBy key tie l)).Pairwise fun a b => key a < key b ∧ R a b := by
  refine (pairwise_uniqueBy_sortBy key tie l).imp_of_mem fun ha hb hlt => ⟨hlt, ?_⟩
  have ha := (mem_sortBy key tie).mp (mem_of_mem_uniqueBy key ha)
  have hb := (mem_sortBy key tie).mp (mem_of_mem_uniqueBy key hb)
  rcases eq_or_of_pairwise h ha hb with rfl | hab | hba
  · exact (lt_irrefl _ hlt).elim
  · exact hab.2
  · exact (hlt.not_ge hba.1).elim

end SortUnique
