import Mathlib.Data.List.Infix

/-!
# Programs that read

A program that reads asks for some number of elements, gets at most as many, and goes on from what
it got; it ends with a value or an error. What it reads from is a source, a function from a number
of elements to these elements and a new state. Two sources that deliver the same are not told apart
by any program.

## Main definitions

* `Reading` — the programs
* `run` — a program on a source
* `fromList` — the source that delivers the elements of a list

## Main results

* `run_bind` — the parts of a program run one after the other
* `run_rel` — a relation between two sources that reads respect is respected by every program
* `run_fromList_suffix` — a program on a list leaves an end of it
-/

namespace WhisperCpp

variable {β ε α γ σ τ : Type}

/-- A program that reads elements of `β`. -/
inductive Reading (β ε α : Type) where
  | pure (a : α)
  | fail (e : ε)
  | read (n : ℕ) (next : List β → Reading β ε α)

namespace Reading

/-- One program, and then another. -/
def bind : Reading β ε α → (α → Reading β ε γ) → Reading β ε γ
  | pure a, f => f a
  | fail e, _ => fail e
  | read n next, f => read n fun bytes => (next bytes).bind f

instance : Monad (Reading β ε) where
  pure := Reading.pure
  bind := Reading.bind

/-- The program that reads and returns what it got. -/
def get (n : ℕ) : Reading β ε (List β) := read n pure

/-- A program on a source. -/
def run (src : ℕ → σ → List β × σ) : Reading β ε α → σ → Except ε α × σ
  | pure a, s => (.ok a, s)
  | fail e, s => (.error e, s)
  | read n next, s => run src (next (src n s).1) (src n s).2

section Run

variable (src : ℕ → σ → List β × σ) (s : σ)

@[simp] theorem run_pure (a : α) : run src (Pure.pure a : Reading β ε α) s = (.ok a, s) := rfl

@[simp] theorem run_fail (e : ε) : run src (fail e : Reading β ε α) s = (.error e, s) := rfl

@[simp] theorem run_get (n : ℕ) :
    run src (get n : Reading β ε (List β)) s = (.ok (src n s).1, (src n s).2) := rfl

/-- The parts of a program run one after the other. -/
theorem run_bind (p : Reading β ε α) (f : α → Reading β ε γ) :
    run src (p >>= f) s =
      match run src p s with
      | (.ok a, s') => run src (f a) s'
      | (.error e, s') => (.error e, s') := by
  induction p generalizing s with
  | pure a => rfl
  | fail e => rfl
  | read n next ih => exact ih (src n s).1 (src n s).2

variable {src s}

theorem run_bind_ok {p : Reading β ε α} {f : α → Reading β ε γ} {a : α} {s' : σ}
    (h : run src p s = (.ok a, s')) : run src (p >>= f) s = run src (f a) s' := by
  rw [run_bind, h]

theorem run_bind_error {p : Reading β ε α} {f : α → Reading β ε γ} {e : ε} {s' : σ}
    (h : run src p s = (.error e, s')) : run src (p >>= f) s = (.error e, s') := by
  rw [run_bind, h]

/-- A sequence that returns has two parts that return. -/
theorem of_run_bind_ok {p : Reading β ε α} {f : α → Reading β ε γ} {c : γ}
    (h : (run src (p >>= f) s).1 = .ok c) :
    ∃ a s', run src p s = (.ok a, s') ∧ (run src (f a) s').1 = .ok c := by
  rw [run_bind] at h
  split at h
  · next a s' hrun => exact ⟨a, s', hrun, h⟩
  · cases h

/-- What every read preserves, a program preserves. -/
theorem run_invariant {P : σ → Prop} (hread : ∀ n s, P s → P (src n s).2) (p : Reading β ε α)
    (h : P s) : P (run src p s).2 := by
  induction p generalizing s with
  | pure a => exact h
  | fail e => exact h
  | read n next ih => exact ih (src n s).1 (hread n s h)

end Run

/-- Sources that deliver the same from related states are not told apart. -/
theorem run_rel {src : ℕ → σ → List β × σ} {tgt : ℕ → τ → List β × τ} {R : σ → τ → Prop}
    (hread : ∀ n s t, R s t → (src n s).1 = (tgt n t).1 ∧ R (src n s).2 (tgt n t).2)
    (p : Reading β ε α) {s : σ} {t : τ} (h : R s t) :
    (run src p s).1 = (run tgt p t).1 ∧ R (run src p s).2 (run tgt p t).2 := by
  induction p generalizing s t with
  | pure a => exact ⟨rfl, h⟩
  | fail e => exact ⟨rfl, h⟩
  | read n next ih =>
    obtain ⟨heq, hrel⟩ := hread n s t h
    rw [run, run, heq]
    exact ih (tgt n t).1 hrel

/-- The source that delivers the elements of a list. -/
def fromList (n : ℕ) (l : List β) : List β × List β := (l.take n, l.drop n)

/-- A program on a list leaves an end of it. -/
theorem run_fromList_suffix (p : Reading β ε α) (l : List β) : (run fromList p l).2 <:+ l :=
  run_invariant (P := (· <:+ l)) (fun n _ h => (List.drop_suffix n _).trans h) p List.suffix_rfl

end Reading

end WhisperCpp
