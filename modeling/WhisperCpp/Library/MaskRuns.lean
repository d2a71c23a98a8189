import Mathlib.Data.Nat.Notation
import Mathlib.Order.Nat
import Mathlib.Tactic.SplitIfs

/-!
# The runs of a mask

The maximal stretches of a mask of `n` places on which it holds, as half-open intervals, and how a
reader that opens and closes them as it goes along finds them.

## Main definitions

* `IsRun` — a maximal stretch
* `Scanned` — what a reader has found

## Main results

* `exists_isRun` — every place of the mask is in a run
* `Scanned.of_true`, `Scanned.of_false` — one more place is read
* `Scanned.mem_finish`, `Scanned.pairwise_finish` — with the open run these are all, in order
-/

namespace MaskRuns

variable {mask : ℕ → Bool} {n a b t : ℕ}

/-- A maximal stretch of the first `n` places on which the mask holds. -/
structure IsRun (mask : ℕ → Bool) (n a b : ℕ) : Prop where
  lt : a < b
  le : b ≤ n
  holds : ∀ t, a ≤ t → t < b → mask t = true
  left : ∀ t, t + 1 = a → mask t = false
  right : b < n → mask b = false

/-- The stretch that ends behind `t` begins somewhere. -/
theorem exists_start (hmask : mask t = true) :
    ∃ a ≤ t, (∀ i, a ≤ i → i ≤ t → mask i = true) ∧ ∀ i, i + 1 = a → mask i = false := by
  induction t with
  | zero =>
    refine ⟨0, le_rfl, fun i _ hi => ?_, nofun⟩
    rwa [Nat.le_zero.1 hi]
  | succ t ih =>
    cases hprev : mask t with
    | false =>
      refine ⟨t + 1, le_rfl, fun i hi hi' => ?_, fun i hi => ?_⟩
      · rwa [Nat.le_antisymm hi' hi]
      · rwa [Nat.succ.inj hi]
    | true =>
      obtain ⟨a, hat, hall, hleft⟩ := ih hprev
      refine ⟨a, Nat.le_succ_of_le hat, fun i hi hi' => ?_, hleft⟩
      obtain rfl | hlt := Nat.eq_or_lt_of_le hi'
      · exact hmask
      · exact hall i hi (Nat.le_of_lt_succ hlt)

/-- The stretch that begins at `t` ends somewhere. -/
theorem exists_stop (ht : t < n) (hmask : mask t = true) :
    ∃ b, t < b ∧ b ≤ n ∧ (∀ i, t ≤ i → i < b → mask i = true) ∧ (b < n → mask b = false) := by
  induction hd : n - t generalizing t with
  | zero => omega
  | succ d ih =>
    by_cases hnext : t + 1 < n ∧ mask (t + 1) = true
    · obtain ⟨b, htb, hbn, hall, hright⟩ := ih hnext.1 hnext.2 (by omega)
      refine ⟨b, by omega, hbn, fun i hi hi' => ?_, hright⟩
      obtain rfl | hlt := Nat.eq_or_lt_of_le hi
      · exact hmask
      · exact hall i hlt hi'
    · refine ⟨t + 1, Nat.lt_succ_self t, ht, fun i hi hi' => ?_, fun hlt => ?_⟩
      · rwa [← Nat.le_antisymm hi (Nat.le_of_lt_succ hi')]
      · exact Bool.eq_false_iff.2 fun htrue => hnext ⟨hlt, htrue⟩

/-- **Every place of the mask is in a run.** -/
theorem exists_isRun (ht : t < n) (hmask : mask t = true) :
    ∃ a b, IsRun mask n a b ∧ a ≤ t ∧ t < b := by
  obtain ⟨a, hat, hall, hleft⟩ := exists_start hmask
  obtain ⟨b, htb, hbn, hall', hright⟩ := exists_stop ht hmask
  refine ⟨a, b, ⟨by omega, hbn, fun i hi hi' => ?_, hleft, hright⟩, hat, htb⟩
  obtain hle | hlt := Nat.le_total i t
  · exact hall i hi hle
  · exact hall' i hlt hi'

/-- A run that has ended stays one. -/
theorem isRun_succ_iff (hb : b < n) : IsRun mask (n + 1) a b ↔ IsRun mask n a b :=
  ⟨fun h => ⟨h.lt, hb.le, h.holds, h.left, fun _ => h.right (Nat.lt_succ_of_lt hb)⟩,
    fun h => ⟨h.lt, Nat.le_succ_of_le hb.le, h.holds, h.left, fun _ => h.right hb⟩⟩

/-! ### A reader -/

/-- What a reader knows after `n` places: the runs that have ended, in order, and the start of the
one that has not. -/
structure Scanned (mask : ℕ → Bool) (n : ℕ) (active : Bool) (start : ℕ) (runs : List (ℕ × ℕ)) :
    Prop where
  mem_iff : ∀ r, r ∈ runs ↔ IsRun mask n r.1 r.2 ∧ r.2 < n
  pairwise : runs.Pairwise fun r r' => r.2 < r'.1
  opened : active = true → IsRun mask n start n
  closed : active = false → ∀ a, ¬ IsRun mask n a n

section Scanned

variable {active : Bool} {start : ℕ} {runs : List (ℕ × ℕ)}

theorem scanned_zero (start : ℕ) : Scanned mask 0 false start [] where
  mem_iff _ := iff_of_false List.not_mem_nil fun h => Nat.not_lt_zero _ h.2
  pairwise := List.Pairwise.nil
  opened := nofun
  closed _ _ h := Nat.not_lt_zero _ h.lt

/-- The mask holds at the next place: the run goes on, or one begins there. -/
theorem Scanned.of_true (h : Scanned mask n active start runs) (hmask : mask n = true) :
    Scanned mask (n + 1) true (if active then start else n) runs where
  mem_iff r := by
    rw [h.mem_iff]
    constructor
    · rintro ⟨hrun, hlt⟩
      exact ⟨(isRun_succ_iff hlt).2 hrun, Nat.lt_succ_of_lt hlt⟩
    · rintro ⟨hrun, hlt⟩
      obtain heq | hlt := Nat.lt_succ_iff_lt_or_eq.1 hlt |>.symm
      · have hout := hrun.right (by omega)
        rw [heq, hmask] at hout
        cases hout
      · exact ⟨(isRun_succ_iff hlt).1 hrun, hlt⟩
  pairwise := h.pairwise
  opened _ := by
    cases hactive : active with
    | true =>
      have hrun := h.opened hactive
      refine ⟨Nat.lt_succ_of_lt hrun.lt, le_rfl, fun t ht ht' => ?_, hrun.left, fun hlt => by omega⟩
      obtain hlt | rfl := Nat.lt_succ_iff_lt_or_eq.1 ht'
      · exact hrun.holds t ht hlt
      · exact hmask
    | false =>
      refine ⟨Nat.lt_succ_self n, le_rfl, fun t ht ht' => ?_, fun t ht => ?_, fun hlt => by omega⟩
      · have ht : n ≤ t := ht
        rwa [show t = n by omega]
      · have ht : t + 1 = n := ht
        refine Bool.eq_false_iff.2 fun htrue => ?_
        obtain ⟨a, b, hrun, -, htb⟩ := exists_isRun (n := n) (by omega) htrue
        have hle := hrun.le
        obtain rfl : b = n := by omega
        exact h.closed hactive a hrun
  closed := nofun

/-- **With the run that is still open, these are all.** -/
theorem Scanned.mem_finish (h : Scanned mask n active start runs) (r : ℕ × ℕ) :
    r ∈ (if active then runs ++ [(start, n)] else runs) ↔ IsRun mask n r.1 r.2 := by
  have hended : IsRun mask n r.1 r.2 ↔ r ∈ runs ∨ IsRun mask n r.1 r.2 ∧ r.2 = n := by
    rw [h.mem_iff, ← and_or_left, and_iff_left_of_imp]
    exact fun hrun => Nat.lt_or_eq_of_le hrun.le
  rw [hended]
  cases hactive : active with
  | true =>
    rw [if_pos rfl, List.mem_append, List.mem_singleton]
    refine or_congr_right ⟨?_, fun ⟨hrun, heq⟩ => Prod.ext ?_ heq⟩
    · rintro rfl
      exact ⟨h.opened hactive, rfl⟩
    · -- two runs with one end begin at the same place
      have hopen := h.opened hactive
      have hlt := hrun.lt
      have hlt' := hopen.lt
      by_contra hne
      obtain hbefore | hbehind := Nat.lt_or_gt_of_ne hne
      · have hout := hopen.left (start - 1) (by omega)
        rw [hrun.holds _ (by omega) (by omega)] at hout
        cases hout
      · have hout := hrun.left (r.1 - 1) (by omega)
        rw [hopen.holds _ (by omega) (by omega)] at hout
        cases hout
  | false =>
    rw [if_neg Bool.false_ne_true]
    refine (or_iff_left ?_).symm
    rintro ⟨hrun, heq⟩
    exact h.closed hactive r.1 (heq ▸ hrun)

theorem Scanned.pairwise_finish (h : Scanned mask n active start runs) :
    (if active then runs ++ [(start, n)] else runs).Pairwise fun r r' => r.2 < r'.1 := by
  cases hactive : active with
  | true =>
    rw [if_pos rfl, List.pairwise_append]
    refine ⟨h.pairwise, List.pairwise_singleton .., fun r hr r' hr' => ?_⟩
    rw [List.mem_singleton] at hr'
    rw [hr']
    obtain ⟨hrun, hlt⟩ := (h.mem_iff r).1 hr
    -- the end of a run is not in another one
    by_contra hle
    have hout := hrun.right hlt
    rw [(h.opened hactive).holds r.2 (Nat.le_of_not_lt hle) hlt] at hout
    cases hout
  | false => exact h.pairwise

/-- The mask does not hold at the next place: the run ends, if there is one. -/
theorem Scanned.of_false (h : Scanned mask n active start runs) (hmask : mask n = false) :
    Scanned mask (n + 1) false start (if active then runs ++ [(start, n)] else runs) where
  mem_iff r := by
    rw [h.mem_finish]
    constructor
    · intro hrun
      exact ⟨⟨hrun.lt, Nat.le_succ_of_le hrun.le, hrun.holds, hrun.left, fun _ => by
        obtain heq | hlt := Nat.eq_or_lt_of_le hrun.le
        · rwa [heq]
        · exact hrun.right hlt⟩, Nat.lt_succ_of_le hrun.le⟩
    · rintro ⟨hrun, hlt⟩
      exact ⟨hrun.lt, Nat.le_of_lt_succ hlt, hrun.holds, hrun.left, fun _ => hrun.right hlt⟩
  pairwise := h.pairwise_finish
  opened := nofun
  closed _ a hrun := by
    have hlast := hrun.holds n (Nat.le_of_lt_succ hrun.lt) (Nat.lt_succ_self n)
    rw [hmask] at hlast
    cases hlast

end Scanned

end MaskRuns
