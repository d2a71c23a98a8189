import Mathlib.Data.List.Infix

/-!
# Cutting a list as it is read

A list is read from the left, and in front of every element it is decided whether the piece that is
being filled ends there. The decision may depend on the piece so far. This is how greedy wrapping
and greedy merging work.

## Main definitions

* `cutBy` — the pieces

## Main results

* `flatten_cutBy` — the pieces are the list
* `cutBy_eq_singleton_iff` — when there is only one piece
-/

namespace Cuts

variable {α : Type*}

/-- The pieces of a list that is read behind `piece`. -/
def cutBy (cut : List α → α → Bool) : List α → List α → List (List α)
  | piece, [] => [piece]
  | piece, a :: rest =>
    if cut piece a then piece :: cutBy cut [a] rest else cutBy cut (piece ++ [a]) rest

section Lemmas

variable {cut : List α → α → Bool} {piece l : List α} {a : α}

@[simp] theorem cutBy_nil : cutBy cut piece [] = [piece] := rfl

theorem cutBy_cons_of_cut (h : cut piece a = true) :
    cutBy cut piece (a :: l) = piece :: cutBy cut [a] l := by
  rw [cutBy, if_pos h]

theorem cutBy_cons_of_not_cut (h : cut piece a = false) :
    cutBy cut piece (a :: l) = cutBy cut (piece ++ [a]) l := by
  rw [cutBy, h, if_neg Bool.false_ne_true]

/-- Nothing is lost, and nothing moves. -/
theorem flatten_cutBy : (cutBy cut piece l).flatten = piece ++ l := by
  induction l generalizing piece with
  | nil => simp
  | cons a l ih =>
    cases h : cut piece a with
    | true => rw [cutBy_cons_of_cut h, List.flatten_cons, ih, List.singleton_append]
    | false => rw [cutBy_cons_of_not_cut h, ih, List.append_assoc, List.singleton_append]

/-- There is a first piece, and it goes on from the given one. -/
theorem exists_cutBy_eq_cons :
    ∃ more rest, cutBy cut piece l = (piece ++ more) :: rest := by
  induction l generalizing piece with
  | nil => exact ⟨[], [], by simp⟩
  | cons a l ih =>
    cases h : cut piece a with
    | true => exact ⟨[], cutBy cut [a] l, by rw [cutBy_cons_of_cut h, List.append_nil]⟩
    | false =>
      obtain ⟨more, rest, heq⟩ := @ih (piece ++ [a])
      exact ⟨a :: more, rest, by rw [cutBy_cons_of_not_cut h, heq, List.append_assoc]; rfl⟩

theorem cutBy_ne_nil : cutBy cut piece l ≠ [] := by
  obtain ⟨more, rest, heq⟩ := @exists_cutBy_eq_cons _ cut piece l
  rw [heq]
  exact List.cons_ne_nil _ _

/-- There is one piece iff it is nowhere decided to cut. -/
theorem cutBy_eq_singleton_iff :
    cutBy cut piece l = [piece ++ l] ↔
      ∀ pre a post, l = pre ++ a :: post → cut (piece ++ pre) a = false := by
  induction l generalizing piece with
  | nil => simp
  | cons a l ih =>
    cases h : cut piece a with
    | true =>
      rw [cutBy_cons_of_cut h]
      refine ⟨fun heq => absurd (List.cons.inj heq).2 cutBy_ne_nil, fun hall => ?_⟩
      have hcut := hall [] a l rfl
      rw [List.append_nil, h] at hcut
      cases hcut
    | false =>
      rw [cutBy_cons_of_not_cut h, List.append_cons piece a l, ih]
      constructor
      · intro hall pre b post heq
        rcases List.cons_eq_append_iff.mp heq with ⟨rfl, hl⟩ | ⟨pre', rfl, hl⟩
        · obtain ⟨rfl, -⟩ := List.cons.inj hl
          rwa [List.append_nil]
        · have hb := hall pre' b post hl
          rwa [List.append_assoc, List.singleton_append] at hb
      · intro hall pre b post heq
        rw [List.append_assoc, List.singleton_append]
        exact hall (a :: pre) b post (by rw [heq, List.cons_append])

/-- One piece is the whole list. -/
theorem length_cutBy_eq_one_iff :
    (cutBy cut piece l).length = 1 ↔ cutBy cut piece l = [piece ++ l] := by
  refine ⟨fun h => ?_, fun h => by rw [h, List.length_singleton]⟩
  obtain ⟨q, hq⟩ := List.length_eq_one_iff.mp h
  have hflat := @flatten_cutBy _ cut piece l
  rw [hq, List.flatten_singleton] at hflat
  rw [hq, hflat]

end Lemmas

end Cuts
