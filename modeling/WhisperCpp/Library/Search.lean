import Mathlib.Data.List.Infix
import Mathlib.Data.Nat.Find

/-!
# Searching in a list

The first place where one list is found in another, as `std::string::find` returns it.

## Main definitions

* `findSub`
* `FirstAt` — what the search finds

## Main results

* `findSub_eq_some_iff`
* `FirstAt.drop`, `FirstAt.append`, `FirstAt.of_append` — the same place seen from behind the start
  and in what goes on
-/

namespace Search

variable {α : Type*}

/-- The first place of `needle` in a list. -/
def findSub [DecidableEq α] (needle : List α) : List α → Option ℕ
  | [] => if needle = [] then some 0 else none
  | a :: l => if needle <+: a :: l then some 0 else (findSub needle l).map (· + 1)

/-- `needle` is in `l` at `p` and not before. -/
structure FirstAt (needle l : List α) (p : ℕ) : Prop where
  le_length : p ≤ l.length
  here : needle <+: l.drop p
  first : ∀ q < p, ¬ needle <+: l.drop q

section Lemmas

variable {needle l m : List α} {p q c : ℕ}

theorem FirstAt.unique (hp : FirstAt needle l p) (hq : FirstAt needle l q) : p = q := by
  rcases Nat.lt_trichotomy p q with hlt | heq | hlt
  · exact absurd hp.here (hq.first p hlt)
  · exact heq
  · exact absurd hq.here (hp.first q hlt)

theorem FirstAt.add_length_le (h : FirstAt needle l p) : p + needle.length ≤ l.length := by
  have hlen := h.here.length_le
  have hle := h.le_length
  rw [List.length_drop] at hlen
  omega

/-- The place, seen from behind the first `c` elements. -/
theorem FirstAt.drop (h : FirstAt needle l p) (hc : c ≤ p) : FirstAt needle (l.drop c) (p - c) := by
  have hle := h.le_length
  refine ⟨?_, ?_, ?_⟩
  · rw [List.length_drop]
    omega
  · rw [List.drop_drop, Nat.add_sub_cancel' hc]
    exact h.here
  · intro q hq
    rw [List.drop_drop]
    exact h.first (c + q) (by omega)

/-- What is found behind the first `c` elements is in the list. -/
theorem prefix_drop_of_firstAt_drop (h : FirstAt needle (l.drop c) p) : needle <+: l.drop (c + p) := by
  rw [← List.drop_drop]
  exact h.here

/-- A place that ends in `l` is one in `l`. -/
theorem prefix_drop_append_iff (h : p + needle.length ≤ l.length) :
    needle <+: (l ++ m).drop p ↔ needle <+: l.drop p := by
  rw [List.drop_append_of_le_length (by omega)]
  constructor
  · intro hpre
    refine List.prefix_of_prefix_length_le hpre (List.prefix_append _ _) ?_
    rw [List.length_drop]
    omega
  · intro hpre
    exact hpre.trans (List.prefix_append _ _)

theorem FirstAt.append (h : FirstAt needle l p) : FirstAt needle (l ++ m) p := by
  have hend := h.add_length_le
  refine ⟨?_, (prefix_drop_append_iff hend).mpr h.here, ?_⟩
  · rw [List.length_append]
    omega
  · intro q hq hpre
    exact h.first q hq ((prefix_drop_append_iff (by omega)).mp hpre)

theorem FirstAt.of_append (h : FirstAt needle (l ++ m) p) (hend : p + needle.length ≤ l.length) :
    FirstAt needle l p := by
  refine ⟨by omega, (prefix_drop_append_iff hend).mp h.here, ?_⟩
  intro q hq hpre
  exact h.first q hq ((prefix_drop_append_iff (by omega)).mpr hpre)

/-- Where there is a place, there is a first one. -/
theorem exists_firstAt (hle : p ≤ l.length) (h : needle <+: l.drop p) :
    ∃ q ≤ p, FirstAt needle l q := by
  classical
  have hex : ∃ q, needle <+: l.drop q := ⟨p, h⟩
  refine ⟨Nat.find hex, Nat.find_min' hex h, (Nat.find_min' hex h).trans hle, Nat.find_spec hex, ?_⟩
  intro q hq
  exact Nat.find_min hex hq

end Lemmas

section Find

variable [DecidableEq α] {needle l : List α} {p : ℕ}

theorem firstAt_of_findSub (h : findSub needle l = some p) : FirstAt needle l p := by
  induction l generalizing p with
  | nil =>
    rw [findSub] at h
    split at h
    · rename_i hnil
      obtain rfl := Option.some.inj h
      exact ⟨le_rfl, hnil ▸ List.nil_prefix, nofun⟩
    · cases h
  | cons a l ih =>
    rw [findSub] at h
    split at h
    · rename_i hpre
      obtain rfl := Option.some.inj h
      exact ⟨Nat.zero_le _, hpre, nofun⟩
    · rename_i hpre
      obtain ⟨q, hq, rfl⟩ := Option.map_eq_some_iff.mp h
      have hfirst := ih hq
      refine ⟨Nat.succ_le_succ hfirst.le_length, hfirst.here, ?_⟩
      intro r hr
      cases r with
      | zero => exact hpre
      | succ r => exact hfirst.first r (Nat.lt_of_succ_lt_succ hr)

theorem not_prefix_of_findSub (h : findSub needle l = none) (hle : p ≤ l.length) :
    ¬ needle <+: l.drop p := by
  induction l generalizing p with
  | nil =>
    rw [findSub] at h
    split at h
    · cases h
    · rename_i hnil
      rw [List.drop_nil, List.prefix_nil]
      exact hnil
  | cons a l ih =>
    rw [findSub] at h
    split at h
    · cases h
    · rename_i hpre
      cases p with
      | zero => exact hpre
      | succ p => exact ih (Option.map_eq_none_iff.mp h) (Nat.le_of_succ_le_succ hle)

/-- **The search finds the first place.** -/
theorem findSub_eq_some_iff : findSub needle l = some p ↔ FirstAt needle l p := by
  refine ⟨firstAt_of_findSub, fun h => ?_⟩
  cases hfind : findSub needle l with
  | none => exact absurd h.here (not_prefix_of_findSub hfind h.le_length)
  | some q => rw [(firstAt_of_findSub hfind).unique h]

end Find

end Search
