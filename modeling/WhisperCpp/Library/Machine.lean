import Mathlib.Data.Nat.Notation
import Mathlib.Order.WellFounded

/-!
# Machines driven by their inputs

A deterministic machine `step : ι → σ → σ` that reads one input at every step. Everything the
environment decides is in the inputs, so a statement about every run is a statement about every
stream of inputs.

## Main definitions

* `Machine.ReachableUnder` — the states reached by steps that are all taken in states satisfying
  a condition
* `Machine.run` — the run of a stream of inputs
* `Machine.StopsIn` — where a run stops

## Main results

* `ReachableUnder.invariant` — the induction rule for safety
* `run_invariant` — the induction rule for runs whose inputs fit
* `run_rel` — the induction rule for two machines on the same inputs
* `exists_stop` — the measure rule for termination
-/

namespace Machine

variable {σ ι : Type*} {step : ι → σ → σ} {G G' Init Inv Stop : σ → Prop}

/-- The states that a machine reaches from `Init` by steps taken in states that satisfy `G`. -/
inductive ReachableUnder (step : ι → σ → σ) (G Init : σ → Prop) : σ → Prop
  /-- An initial state. -/
  | init {s : σ} (h : Init s) : ReachableUnder step G Init s
  /-- A step from a state that satisfies the condition. -/
  | step {s : σ} (x : ι) (h : ReachableUnder step G Init s) (hG : G s) :
    ReachableUnder step G Init (step x s)

/-- The states that a machine reaches from `Init`. -/
abbrev Reachable (step : ι → σ → σ) (Init : σ → Prop) : σ → Prop :=
  ReachableUnder step (fun _ => True) Init

/-- What holds initially and is preserved by every step holds in every reachable state. The step
may use what is already known of reachable states. -/
theorem ReachableUnder.invariant {s : σ} (h : ReachableUnder step G Init s)
    (hinit : ∀ s, Init s → Inv s)
    (hstep : ∀ s x, ReachableUnder step G Init s → G s → Inv s → Inv (step x s)) : Inv s := by
  induction h with
  | init h => exact hinit _ h
  | step x h hG ih => exact hstep _ x h hG ih

theorem ReachableUnder.mono {s : σ} (h : ReachableUnder step G Init s) (hG : ∀ s, G s → G' s) :
    ReachableUnder step G' Init s := by
  induction h with
  | init h => exact .init h
  | step x _ h ih => exact .step x ih (hG _ h)

/-- A state reached under a condition is reached. -/
theorem ReachableUnder.reachable {s : σ} (h : ReachableUnder step G Init s) :
    Reachable step Init s :=
  h.mono fun _ _ => trivial

/-- The state after `n` steps from `s` on the inputs `xs`. -/
def run (step : ι → σ → σ) (xs : ℕ → ι) (s : σ) : ℕ → σ
  | 0 => s
  | n + 1 => step (xs n) (run step xs s n)

theorem ReachableUnder.run {s : σ} (h : ReachableUnder step G Init s) {xs : ℕ → ι}
    (hG : ∀ n, G (Machine.run step xs s n)) (n : ℕ) :
    ReachableUnder step G Init (Machine.run step xs s n) := by
  induction n with
  | zero => exact h
  | succ n ih => exact .step (xs n) ih (hG n)

theorem Reachable.run {s : σ} (h : Reachable step Init s) (xs : ℕ → ι) (n : ℕ) :
    Reachable step Init (Machine.run step xs s n) :=
  ReachableUnder.run h (fun _ => trivial) n

/-- What the steps of a run preserve, while its inputs fit. -/
theorem run_invariant {F : σ → ι → Prop} (hstep : ∀ s x, F s x → Inv s → Inv (step x s)) {s : σ}
    (h : Inv s) {xs : ℕ → ι} {n : ℕ} (hF : ∀ m < n, F (run step xs s m) (xs m)) :
    Inv (run step xs s n) := by
  induction n with
  | zero => exact h
  | succ n ih =>
    have hn := ih fun m hm => hF m (Nat.lt_succ_of_lt hm)
    exact hstep _ _ (hF n (Nat.lt_succ_self n)) hn

/-- Two machines that read the same inputs stay related, while the inputs fit the states of the
first. -/
theorem run_rel {τ : Type*} {step' : ι → τ → τ} {R : σ → τ → Prop} {F : σ → ι → Prop}
    (hstep : ∀ s t x, F s x → R s t → R (step x s) (step' x t)) {s : σ} {t : τ} (h : R s t)
    {xs : ℕ → ι} {n : ℕ} (hF : ∀ m < n, F (run step xs s m) (xs m)) :
    R (run step xs s n) (run step' xs t n) := by
  induction n with
  | zero => exact h
  | succ n ih =>
    have hn := ih fun m hm => hF m (Nat.lt_succ_of_lt hm)
    exact hstep _ _ _ (hF n (Nat.lt_succ_self n)) hn

/-- A run first steps and then runs on the remaining inputs. -/
theorem run_succ' (step : ι → σ → σ) (xs : ℕ → ι) (s : σ) (n : ℕ) :
    run step xs s (n + 1) = run step (fun k => xs (k + 1)) (step (xs 0) s) n := by
  induction n with
  | zero => rfl
  | succ n ih =>
    show step (xs (n + 1)) (run step xs s (n + 1)) = _
    rw [ih]
    rfl

/-- The run of `xs` from `s` stops in `s'`, the first of its states that satisfies `Stop`. -/
def StopsIn (step : ι → σ → σ) (Stop : σ → Prop) (xs : ℕ → ι) (s s' : σ) : Prop :=
  ∃ n, run step xs s n = s' ∧ Stop s' ∧ ∀ m < n, ¬ Stop (run step xs s m)

/-- A run stops in one state only. -/
theorem StopsIn.unique {xs : ℕ → ι} {s s₁ s₂ : σ} (h₁ : StopsIn step Stop xs s s₁)
    (h₂ : StopsIn step Stop xs s s₂) : s₁ = s₂ := by
  obtain ⟨n₁, rfl, hstop₁, hbefore₁⟩ := h₁
  obtain ⟨n₂, rfl, hstop₂, hbefore₂⟩ := h₂
  obtain hlt | rfl | hlt := lt_trichotomy n₁ n₂
  · exact absurd hstop₁ (hbefore₂ n₁ hlt)
  · rfl
  · exact absurd hstop₂ (hbefore₁ n₂ hlt)

/-- **Termination by a measure.** If every step that does not stop makes the measure smaller, every
run stops. -/
theorem exists_stop {α : Type*} [LT α] [WellFoundedLT α] (μ : σ → α)
    (hstep : ∀ s x, Inv s → G s → ¬ Stop s →
      Inv (step x s) ∧ (Stop (step x s) ∨ μ (step x s) < μ s))
    {s : σ} (hs : Inv s) (xs : ℕ → ι) (hG : ∀ n, G (run step xs s n)) :
    ∃ n, Stop (run step xs s n) := by
  induction hm : μ s using WellFoundedLT.induction generalizing s xs with
  | ind m ih =>
    by_cases hstop : Stop s
    · exact ⟨0, hstop⟩
    obtain ⟨hinv, hnext | hlt⟩ := hstep s (xs 0) hs (hG 0) hstop
    · exact ⟨1, hnext⟩
    · obtain ⟨n, hn⟩ := ih _ (hm ▸ hlt) hinv (fun k => xs (k + 1))
        (fun n => run_succ' step xs s n ▸ hG (n + 1)) rfl
      exact ⟨n + 1, by rw [run_succ']; exact hn⟩

end Machine
