import Mathlib.Data.List.Flatten

/-!
# Input in pieces

A function that consumes a list of input, emits a list of output and carries a state can be given
its input at once or in pieces. `runs` feeds pieces one after the other; `Cut f s a b` says that a
cut between `a` and `b` makes no difference, and `runs_eq` collects cuts into whole runs. `foldl_eq`
is the same for a function without outputs.
-/

namespace WhisperCpp

namespace Pieces

variable {α β σ : Type*}

/-- The pieces one after the other: outputs are appended, and the state is carried. -/
def runs (f : σ → List α → List β × σ) : σ → List (List α) → List β × σ
  | s, [] => ([], s)
  | s, a :: rest =>
    let here := f s a
    let later := runs f here.2 rest
    (here.1 ++ later.1, later.2)

/-- Nothing changes if the input `a ++ b` is cut behind `a`. -/
def Cut (f : σ → List α → List β × σ) (s : σ) (a b : List α) : Prop :=
  f s (a ++ b) = ((f s a).1 ++ (f (f s a).2 b).1, (f (f s a).2 b).2)

variable {f : σ → List α → List β × σ} {s : σ} {a b : List α} {rest : List (List α)}

@[simp] theorem runs_nil : runs f s [] = ([], s) := rfl

theorem runs_cons :
    runs f s (a :: rest) = ((f s a).1 ++ (runs f (f s a).2 rest).1, (runs f (f s a).2 rest).2) :=
  rfl

@[simp] theorem runs_singleton : runs f s [a] = f s a := by
  simp [runs_cons]

theorem runs_append {l m : List (List α)} :
    runs f s (l ++ m) =
      ((runs f s l).1 ++ (runs f (runs f s l).2 m).1, (runs f (runs f s l).2 m).2) := by
  induction l generalizing s with
  | nil => simp
  | cons a l ih => simp [runs_cons, ih]

/-- A run in pieces is the run at once, if each piece can be cut off what follows it. What `good`
says must carry over to the remaining pieces. -/
theorem runs_eq (good : σ → List (List α) → Prop)
    (hnil : ∀ s, good s [] → f s [] = ([], s))
    (hcons : ∀ s a rest, good s (a :: rest) → Cut f s a rest.flatten ∧ good (f s a).2 rest)
    {pieces : List (List α)} (h : good s pieces) : runs f s pieces = f s pieces.flatten := by
  induction pieces generalizing s with
  | nil => rw [runs_nil, List.flatten_nil, hnil s h]
  | cons a rest ih =>
    obtain ⟨hcut, hgood⟩ := hcons s a rest h
    rw [runs_cons, ih hgood, List.flatten_cons, hcut]

/-- The same without outputs: a run in pieces is a fold. -/
theorem foldl_eq {g : σ → List α → σ} (good : σ → List (List α) → Prop)
    (hnil : ∀ s, good s [] → g s [] = s)
    (hcons : ∀ s a rest, good s (a :: rest) →
      g s (a ++ rest.flatten) = g (g s a) rest.flatten ∧ good (g s a) rest)
    {pieces : List (List α)} (h : good s pieces) : pieces.foldl g s = g s pieces.flatten := by
  induction pieces generalizing s with
  | nil => rw [List.foldl_nil, List.flatten_nil, hnil s h]
  | cons a rest ih =>
    obtain ⟨hcut, hgood⟩ := hcons s a rest h
    rw [List.foldl_cons, ih hgood, List.flatten_cons, hcut]

end Pieces

end WhisperCpp
