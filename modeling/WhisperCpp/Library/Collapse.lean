import Mathlib.Data.List.Destutter

/-!
# Merging repeats

A list is read from the left, and of elements with equal keys that follow each other only the first
is kept. A reader that remembers the last key can be given the list in parts.

## Main definitions

* `Collapse.firsts` — the first elements, behind an element with a given key
* `Collapse.lastKey` — the key that a reader remembers

## Main results

* `firsts_append` — a list in two parts
* `firsts_eq_destutter` — the first elements of a list with nothing in front of it
-/

namespace Collapse

variable {α β : Type*} [DecidableEq β] (key : α → β)

/-- The elements whose key is another one than that in front of them, behind the key `prev`. -/
def firsts (prev : β) : List α → List α
  | [] => []
  | a :: l => if key a = prev then firsts (key a) l else a :: firsts (key a) l

/-- The key of the last element, or the one in front of the list. -/
def lastKey (prev : β) (l : List α) : β := (l.getLast?.map key).getD prev

variable {key} {prev : β} {a : α} {l m : List α}

omit [DecidableEq β] in
@[simp] theorem lastKey_nil : lastKey key prev [] = prev := rfl

omit [DecidableEq β] in
@[simp] theorem lastKey_cons : lastKey key prev (a :: l) = lastKey key (key a) l := by
  rw [lastKey, lastKey]
  cases l with
  | nil => rfl
  | cons b l => rw [List.getLast?_cons_cons, List.getLast?_cons]; rfl

theorem firsts_append :
    firsts key prev (l ++ m) = firsts key prev l ++ firsts key (lastKey key prev l) m := by
  induction l generalizing prev with
  | nil => rfl
  | cons a l ih =>
    rw [List.cons_append, firsts, firsts, lastKey_cons, ih]
    split
    · rfl
    · rfl

theorem cons_firsts (a : α) (l : List α) :
    a :: firsts key (key a) l = l.destutter' (fun a b => key a ≠ key b) a := by
  induction l generalizing a with
  | nil => rfl
  | cons b l ih =>
    rw [firsts, List.destutter']
    by_cases h : key b = key a
    · rw [if_pos h, if_neg (not_not.2 h.symm), ← ih a, h]
    · rw [if_neg h, if_pos (Ne.symm h), ih b]

/-- With nothing in front of them, these are the first elements of the runs. -/
theorem firsts_eq_destutter (h : ∀ a ∈ l.head?, key a ≠ prev) :
    firsts key prev l = l.destutter fun a b => key a ≠ key b := by
  cases l with
  | nil => rfl
  | cons a l => rw [firsts, if_neg (h a rfl), cons_firsts, List.destutter]

end Collapse
