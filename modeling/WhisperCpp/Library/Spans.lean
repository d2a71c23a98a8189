import Mathlib.Algebra.BigOperators.Group.List.Basic
import Mathlib.Algebra.GroupWithZero.Nat
import Mathlib.Data.List.Basic

/-!
# Spans of addresses

A span is a number of addresses from one on. How many spans of a list an address is in says whether
they overlap, and does not depend on their order: spans are split, joined, put in and taken out by
counting.

## Main definitions

* `Span`, `Span.Has` — addresses from one on
* `Span.count`, `cover` — in how many spans an address is

## Main results

* `Span.count_split` — a span in two parts
* `cover_set`, `cover_eraseIdx` — one of the spans is another, or is taken out
* `disjoint_of_cover_le_one` — spans that do not overlap
-/

namespace Spans

/-- The addresses from `offset` on, as many as `size`. -/
@[ext] structure Span where
  offset : ℕ
  size : ℕ
  deriving DecidableEq, Repr

/-- An address is in a span. -/
def Span.Has (b : Span) (x : ℕ) : Prop := b.offset ≤ x ∧ x < b.offset + b.size

instance (b : Span) (x : ℕ) : Decidable (b.Has x) := inferInstanceAs (Decidable (_ ∧ _))

/-- No address is in both. -/
def Span.Disjoint (b b' : Span) : Prop := ∀ x, b.Has x → ¬ b'.Has x

/-- One, in the span. -/
def Span.count (b : Span) (x : ℕ) : ℕ := if b.Has x then 1 else 0

/-- In how many spans an address is. -/
def cover (l : List Span) (x : ℕ) : ℕ := (l.map fun b => b.count x).sum

theorem Span.count_of_has {b : Span} {x : ℕ} (h : b.Has x) : b.count x = 1 := if_pos h

theorem Span.count_mk (o s x : ℕ) : (Span.mk o s).count x = if o ≤ x ∧ x < o + s then 1 else 0 :=
  rfl

/-- **In two parts.** -/
theorem Span.count_split (o s t x : ℕ) :
    (Span.mk o (s + t)).count x = (Span.mk o s).count x + (Span.mk (o + s) t).count x := by
  rw [count_mk, count_mk, count_mk]
  split_ifs <;> omega

@[simp] theorem Span.count_zero (o x : ℕ) : (Span.mk o 0).count x = 0 := by
  rw [count_mk, if_neg]
  omega

section Cover

variable {l l' : List Span} {b b' : Span} {x i : ℕ}

@[simp] theorem cover_nil : cover [] x = 0 := rfl

@[simp] theorem cover_cons : cover (b :: l) x = b.count x + cover l x := by
  rw [cover, List.map_cons, List.sum_cons]
  rfl

@[simp] theorem cover_append : cover (l ++ l') x = cover l x + cover l' x := by
  rw [cover, List.map_append, List.sum_append]
  rfl

/-- One of the spans is taken out. -/
theorem cover_eraseIdx (h : l[i]? = some b) : cover (l.eraseIdx i) x + b.count x = cover l x := by
  induction l generalizing i with
  | nil => simp at h
  | cons a l ih =>
    cases i with
    | zero =>
      simp only [List.getElem?_cons_zero, Option.some.injEq] at h
      subst h
      simp only [List.eraseIdx_cons_zero, cover_cons]
      omega
    | succ i =>
      simp only [List.getElem?_cons_succ] at h
      simp only [List.eraseIdx_cons_succ, cover_cons]
      have := ih h
      omega

/-- One of the spans is another. -/
theorem cover_set (h : l[i]? = some b) :
    cover (l.set i b') x + b.count x = cover l x + b'.count x := by
  induction l generalizing i with
  | nil => simp at h
  | cons a l ih =>
    cases i with
    | zero =>
      simp only [List.getElem?_cons_zero, Option.some.injEq] at h
      subst h
      simp only [List.set_cons_zero, cover_cons]
      omega
    | succ i =>
      simp only [List.getElem?_cons_succ] at h
      simp only [List.set_cons_succ, cover_cons]
      have := ih h
      omega

theorem count_le_cover (h : b ∈ l) : b.count x ≤ cover l x := by
  obtain ⟨front, back, rfl⟩ := List.append_of_mem h
  rw [cover_append, cover_cons]
  omega

/-- **Spans that do not overlap.** -/
theorem disjoint_of_cover_le_one (h : ∀ x, cover l x ≤ 1) : l.Pairwise Span.Disjoint := by
  induction l with
  | nil => exact List.Pairwise.nil
  | cons a l ih =>
    refine List.pairwise_cons.mpr ⟨fun b hb x ha hbx => ?_, ih fun x => ?_⟩
    · have hx := h x
      have hle := count_le_cover (x := x) hb
      rw [cover_cons, Span.count_of_has ha] at hx
      rw [Span.count_of_has hbx] at hle
      omega
    · have hx := h x
      rw [cover_cons] at hx
      omega

end Cover

end Spans
