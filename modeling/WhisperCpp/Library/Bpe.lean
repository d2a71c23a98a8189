import Mathlib.Data.List.Basic
import Mathlib.Data.Int.Notation

/-!
# Byte pair encoding

A list of parts in which neighbours are joined, always the pair with the lowest rank and of those
the first one, until no pair has a rank below a limit.

## Main definitions

* `mergeAll`

## Main results

* `flatten_mergeAll` — the parts stay a division of the same list
* `mergeAll_map` — merging what a homomorphism makes of the parts
-/

namespace Bpe

variable {α β : Type*}

/-- The parts at `i` and behind it become one. -/
def joinAt : ℕ → List (List α) → List (List α)
  | 0, x :: y :: rest => (x ++ y) :: rest
  | i + 1, x :: rest => x :: joinAt i rest
  | _, parts => parts

/-- The best pair of the parts from number `i` on, where `found` is the best one before, with rank
`best`. -/
def bestFrom (rank : List α → List α → Option ℤ) :
    ℕ → ℤ → Option ℕ → List (List α) → Option ℕ
  | i, best, found, x :: y :: rest =>
    match rank x y with
    | some r =>
      if r < best then bestFrom rank (i + 1) r (some i) (y :: rest)
      else bestFrom rank (i + 1) best found (y :: rest)
    | none => bestFrom rank (i + 1) best found (y :: rest)
  | _, _, found, _ => found

section Progress

variable {rank : List α → List α → Option ℤ} {limit : ℤ} {parts : List (List α)}

theorem bestFrom_lt {i j : ℕ} {best : ℤ} {found : Option ℕ}
    (h : bestFrom rank i best found parts = some j) :
    found = some j ∨ j + 1 < i + parts.length := by
  induction parts generalizing i best found with
  | nil => exact .inl h
  | cons x parts ih =>
    cases parts with
    | nil => exact .inl h
    | cons y rest =>
      have hstep : ∀ {best found}, bestFrom rank (i + 1) best found (y :: rest) = some j →
          found = some j ∨ j + 1 < i + (x :: y :: rest).length := by
        intro best found hnext
        rcases ih hnext with hfound | hlt
        · exact .inl hfound
        · rw [List.length_cons]
          exact .inr (by omega)
      rw [bestFrom] at h
      split at h
      · split at h
        · rcases hstep h with hi | hlt
          · obtain rfl := Option.some.inj hi
            simp only [List.length_cons]
            exact .inr (by omega)
          · exact .inr hlt
        · exact hstep h
      · exact hstep h

theorem length_joinAt {i : ℕ} (h : i + 1 < parts.length) :
    (joinAt i parts).length < parts.length := by
  induction i generalizing parts with
  | zero =>
    match parts, h with
    | x :: y :: rest, _ => exact Nat.lt_succ_self _
  | succ i ih =>
    match parts, h with
    | x :: rest, h => exact Nat.succ_lt_succ (ih (Nat.lt_of_succ_lt_succ h))

end Progress

/-- All merges. -/
def mergeAll (rank : List α → List α → Option ℤ) (limit : ℤ) (parts : List (List α)) :
    List (List α) :=
  match _h : bestFrom rank 0 limit none parts with
  | none => parts
  | some i => mergeAll rank limit (joinAt i parts)
termination_by parts.length
decreasing_by
  refine length_joinAt ?_
  have hlt := (bestFrom_lt _h).resolve_left nofun
  omega

section Lemmas

variable {rank : List β → List β → Option ℤ} {limit : ℤ}

theorem flatten_joinAt (i : ℕ) (parts : List (List α)) :
    (joinAt i parts).flatten = parts.flatten := by
  induction i generalizing parts with
  | zero =>
    match parts with
    | [] => rfl
    | [x] => rfl
    | x :: y :: rest => rw [joinAt, List.flatten_cons, List.append_assoc]; rfl
  | succ i ih =>
    cases parts with
    | nil => rfl
    | cons x rest => rw [joinAt, List.flatten_cons, ih, List.flatten_cons]

/-- Merging divides the same list. -/
theorem flatten_mergeAll (rank : List α → List α → Option ℤ) (limit : ℤ) (parts : List (List α)) :
    (mergeAll rank limit parts).flatten = parts.flatten := by
  induction parts using mergeAll.induct rank limit with
  | case1 parts hnone =>
    rw [mergeAll, hnone]
  | case2 parts i hsome ih =>
    rw [mergeAll, hsome]
    exact ih.trans (flatten_joinAt i parts)

theorem joinAt_map {f : List α → List β} (hf : ∀ a b, f (a ++ b) = f a ++ f b) (i : ℕ)
    (parts : List (List α)) : joinAt i (parts.map f) = (joinAt i parts).map f := by
  induction i generalizing parts with
  | zero =>
    match parts with
    | [] => rfl
    | [x] => rfl
    | x :: y :: rest =>
      rw [joinAt, List.map_cons, List.map_cons, List.map_cons, hf]
      rfl
  | succ i ih =>
    cases parts with
    | nil => rfl
    | cons x rest => rw [List.map_cons, joinAt, joinAt, ih, List.map_cons]

theorem bestFrom_map (f : List α → List β) (i : ℕ) (best : ℤ) (found : Option ℕ)
    (parts : List (List α)) : bestFrom rank i best found (parts.map f) =
      bestFrom (fun a b => rank (f a) (f b)) i best found parts := by
  induction parts generalizing i best found with
  | nil => rfl
  | cons x parts ih =>
    cases parts with
    | nil => rfl
    | cons y rest =>
      simp only [List.map_cons] at ih ⊢
      rw [bestFrom, bestFrom]
      simp only [ih]

/-- **Merging the images of parts**, where the image of a join is the join of the images. -/
theorem mergeAll_map {f : List α → List β} (hf : ∀ a b, f (a ++ b) = f a ++ f b)
    (parts : List (List α)) : mergeAll rank limit (parts.map f) =
      (mergeAll (fun a b => rank (f a) (f b)) limit parts).map f := by
  induction parts using mergeAll.induct (fun a b => rank (f a) (f b)) limit with
  | case1 parts hnone =>
    have hmap := (bestFrom_map f 0 limit none parts).trans hnone
    rw [mergeAll, hmap, mergeAll, hnone]
  | case2 parts i hsome ih =>
    have hmap := (bestFrom_map f 0 limit none parts).trans hsome
    rw [mergeAll, hmap, mergeAll, hsome]
    show mergeAll rank limit (joinAt i (parts.map f)) = _
    rw [joinAt_map hf]
    exact ih

end Lemmas

end Bpe
