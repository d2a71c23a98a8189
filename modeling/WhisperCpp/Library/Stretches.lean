import Mathlib.Data.Int.Notation
import Mathlib.Data.List.Chain

/-!
# Stretches in order

Lists of stretches of integers that follow each other, with at least a given gap between them.

## Main definitions

* `Stretch`
* `Stretch.Laid` — the stretches follow each other between two bounds
* `Stretch.InOrder` — the stretches follow each other
* `Stretch.Tiles` — the stretches follow each other without gaps from one bound to the other

## Main results

* `Stretch.Laid.concat`, `Stretch.laid_cons_iff` — how such lists grow at their ends
* `Stretch.Laid.sublist` — leaving some out
* `Stretch.tiles_range'` — the stretches between consecutive points
-/

/-- A stretch of integers, `[start, stop)`. -/
@[ext] structure Stretch where
  start : ℤ
  stop : ℤ
  deriving DecidableEq, Repr

namespace Stretch

/-- The stretches follow each other between `lo` and `hi`, with at least `gap` between them. -/
structure Laid (gap lo hi : ℤ) (l : List Stretch) : Prop where
  bounds : ∀ x ∈ l, lo ≤ x.start ∧ x.start ≤ x.stop ∧ x.stop ≤ hi
  apart : l.Pairwise fun x y => x.stop + gap ≤ y.start

variable {gap lo lo' mid hi hi' : ℤ} {x : Stretch} {l l' : List Stretch}

@[simp] theorem laid_nil : Laid gap lo hi [] := ⟨nofun, .nil⟩

theorem Laid.mono (h : Laid gap lo hi l) (hlo : lo' ≤ lo) (hhi : hi ≤ hi') :
    Laid gap lo' hi' l :=
  ⟨fun x hx => by have := h.bounds x hx; omega, h.apart⟩

theorem Laid.sublist (h : Laid gap lo hi l) (hsub : l'.Sublist l) : Laid gap lo hi l' :=
  ⟨fun x hx => h.bounds x (hsub.subset hx), h.apart.sublist hsub⟩

/-- A further stretch at the end. -/
theorem Laid.concat (h : Laid gap lo mid l) (hlo : lo ≤ x.start) (hmid : mid + gap ≤ x.start)
    (hx : x.start ≤ x.stop) (hhi : x.stop ≤ hi) (hgap : 0 ≤ gap) : Laid gap lo hi (l ++ [x]) := by
  refine ⟨fun y hy => ?_, List.pairwise_append.mpr ⟨h.apart, List.pairwise_singleton _ _, ?_⟩⟩
  · rcases List.mem_append.mp hy with hy | hy
    · have := h.bounds y hy
      omega
    · rw [List.mem_singleton.mp hy]
      exact ⟨hlo, hx, hhi⟩
  · intro y hy z hz
    rw [List.mem_singleton.mp hz]
    have := h.bounds y hy
    omega

/-- A stretch in front of others. -/
theorem laid_cons_iff (hgap : 0 ≤ gap) : Laid gap lo hi (x :: l) ↔
    lo ≤ x.start ∧ x.start ≤ x.stop ∧ x.stop ≤ hi ∧ Laid gap (x.stop + gap) hi l := by
  constructor
  · intro h
    obtain ⟨hx, hpw⟩ := List.pairwise_cons.mp h.apart
    obtain ⟨h1, h2, h3⟩ := h.bounds x (List.mem_cons_self ..)
    exact ⟨h1, h2, h3, fun y hy => ⟨hx y hy, (h.bounds y (List.mem_cons_of_mem _ hy)).2⟩, hpw⟩
  · rintro ⟨h1, h2, h3, h4⟩
    refine ⟨fun y hy => ?_, List.pairwise_cons.mpr ⟨fun y hy => (h4.bounds y hy).1, h4.apart⟩⟩
    rcases List.mem_cons.mp hy with rfl | hy
    · exact ⟨h1, h2, h3⟩
    · have := h4.bounds y hy
      omega

/-! ### Without bounds -/

/-- The stretches follow each other. -/
structure InOrder (l : List Stretch) : Prop where
  le : ∀ x ∈ l, x.start ≤ x.stop
  chain : l.IsChain fun x y => x.stop ≤ y.start

instance (l : List Stretch) : Decidable (InOrder l) :=
  decidable_of_iff ((∀ x ∈ l, x.start ≤ x.stop) ∧ l.IsChain fun x y => x.stop ≤ y.start)
    ⟨fun h => ⟨h.1, h.2⟩, fun h => ⟨h.le, h.chain⟩⟩

theorem InOrder.left_of_append (h : InOrder (l ++ l')) : InOrder l :=
  ⟨fun x hx => h.le x (List.mem_append_left l' hx), h.chain.left_of_append⟩

/-- A further stretch at the end. -/
theorem inOrder_concat_iff : InOrder (l ++ [x]) ↔
    InOrder l ∧ x.start ≤ x.stop ∧ ∀ y ∈ l.getLast?, y.stop ≤ x.start := by
  constructor
  · intro h
    refine ⟨h.left_of_append, h.le x (by simp), fun y hy => ?_⟩
    exact (List.isChain_append.mp h.chain).2.2 y hy x rfl
  · rintro ⟨h, hx, hlast⟩
    refine ⟨fun y hy => ?_, List.isChain_append.mpr ⟨h.chain, .singleton x, fun y hy z hz => ?_⟩⟩
    · rcases List.mem_append.mp hy with hy | hy
      · exact h.le y hy
      · rw [List.mem_singleton.mp hy]
        exact hx
    · obtain rfl : x = z := Option.some.inj hz
      exact hlast y hy

/-- Stretches that follow each other end in order. -/
theorem InOrder.stop_le (h : InOrder l) : l.IsChain fun x y => x.stop ≤ y.stop := by
  rw [List.isChain_iff_getElem]
  intro i hi
  have hchain := List.isChain_iff_getElem.mp h.chain i hi
  have hle := h.le l[i + 1] (List.getElem_mem hi)
  omega

/-! ### Without gaps -/

/-- The stretches follow each other without gaps from `lo` to `hi`. -/
def Tiles (lo hi : ℤ) : List Stretch → Prop
  | [] => lo = hi
  | x :: rest => x.start = lo ∧ x.start ≤ x.stop ∧ Tiles x.stop hi rest

/-- A further stretch at the end. -/
theorem tiles_concat_iff : Tiles lo hi (l ++ [x]) ↔
    ∃ mid, Tiles lo mid l ∧ x.start = mid ∧ x.start ≤ x.stop ∧ x.stop = hi := by
  induction l generalizing lo with
  | nil =>
    constructor
    · rintro ⟨hstart, hle, hstop⟩
      exact ⟨lo, rfl, hstart, hle, hstop⟩
    · rintro ⟨mid, rfl, hstart, hle, hstop⟩
      exact ⟨hstart, hle, hstop⟩
  | cons y l ih => simp [Tiles, ih, and_assoc]

/-- The stretches between the points of a sequence tile iff the sequence does not go back. -/
theorem tiles_range' (f : ℕ → ℤ) (m k : ℕ) :
    Tiles (f m) (f (m + k)) ((List.range' m k).map fun i => ⟨f i, f (i + 1)⟩) ↔
      ∀ i, m ≤ i → i < m + k → f i ≤ f (i + 1) := by
  induction k generalizing m with
  | zero => exact ⟨fun _ i h1 h2 => by omega, fun _ => rfl⟩
  | succ k ih =>
    rw [List.range'_succ, List.map_cons, Tiles, show m + (k + 1) = m + 1 + k by omega, ih]
    constructor
    · rintro ⟨-, hm, hrest⟩ i h1 h2
      rcases Nat.eq_or_lt_of_le h1 with rfl | hlt
      · exact hm
      · exact hrest i hlt h2
    · intro h
      exact ⟨rfl, h m (Nat.le_refl m) (by omega), fun i h1 h2 => h i (by omega) h2⟩

end Stretch
