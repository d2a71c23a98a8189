import Mathlib.Data.Nat.Notation
import Mathlib.Logic.Basic
import Mathlib.Tactic.SplitIfs

/-!
# Computations that leave a trace

A computation leaves a list of what it has touched, also where it faults. It is safe if everything
it touches may be touched and it does not fault.

## Main definitions

* `Traced` — a trace with an outcome
* `Traced.Safe` — the trace is allowed, and there is a value

## Main results

* `safe_bind_iff`, `safe_forM_iff` — safety of a sequence and of a loop over a list
-/

/-- A trace with an outcome. -/
structure Traced (ε α : Type*) (β : Type) where
  trace : List α
  outcome : Except ε β

namespace Traced

variable {ε α : Type*} {β γ : Type}

/-- The first computation, and then the second on its value. -/
def bind (t : Traced ε α β) (f : β → Traced ε α γ) : Traced ε α γ :=
  match t.outcome with
  | .error e => ⟨t.trace, .error e⟩
  | .ok b => ⟨t.trace ++ (f b).trace, (f b).outcome⟩

instance : Monad (Traced ε α) where
  pure b := ⟨[], .ok b⟩
  bind := bind

/-- Something is touched. -/
def touch (xs : List α) : Traced ε α Unit := ⟨xs, .ok ()⟩

/-- A fault. -/
def fault (e : ε) : Traced ε α β := ⟨[], .error e⟩

/-- A fault unless a condition holds. -/
def ensure (c : Prop) [Decidable c] (e : ε) : Traced ε α Unit := if c then pure () else fault e

/-- Everything touched is allowed, and there is a value. -/
def Safe (P : α → Prop) (t : Traced ε α β) : Prop :=
  (∀ a ∈ t.trace, P a) ∧ ∃ b, t.outcome = .ok b

variable {P : α → Prop}

@[simp] theorem safe_pure (b : β) : Safe P (pure b : Traced ε α β) :=
  ⟨(fun _ ha => nomatch ha), b, rfl⟩

@[simp] theorem safe_touch_iff (xs : List α) :
    Safe P (touch xs : Traced ε α Unit) ↔ ∀ a ∈ xs, P a :=
  ⟨And.left, fun h => ⟨h, (), rfl⟩⟩

@[simp] theorem safe_ensure_iff (c : Prop) [Decidable c] (e : ε) :
    Safe P (ensure c e : Traced ε α Unit) ↔ c := by
  rw [ensure]
  split_ifs with hc
  · exact iff_of_true (safe_pure ()) hc
  · refine iff_of_false ?_ hc
    rintro ⟨-, b, hb⟩
    cases hb

/-- A sequence is safe if its parts are. -/
theorem safe_bind_iff (t : Traced ε α β) (f : β → Traced ε α γ) :
    Safe P (t >>= f) ↔ Safe P t ∧ ∀ b, t.outcome = .ok b → Safe P (f b) := by
  show Safe P (bind t f) ↔ _
  obtain ⟨trace, outcome⟩ := t
  cases outcome with
  | error e =>
    refine iff_of_false ?_ ?_
    · rintro ⟨-, b, hb⟩
      cases hb
    · rintro ⟨⟨-, b, hb⟩, -⟩
      cases hb
  | ok b =>
    constructor
    · rintro ⟨htrace, hvalue⟩
      refine ⟨⟨fun a ha => htrace a (List.mem_append_left _ ha), b, rfl⟩, ?_⟩
      intro b' hb'
      obtain rfl := Except.ok.inj hb'
      exact ⟨fun a ha => htrace a (List.mem_append_right _ ha), hvalue⟩
    · rintro ⟨⟨htrace, -⟩, hnext⟩
      obtain ⟨htrace', hvalue⟩ := hnext b rfl
      refine ⟨fun a ha => ?_, hvalue⟩
      obtain ha | ha := List.mem_append.1 ha
      · exact htrace a ha
      · exact htrace' a ha

/-- After a computation without a value there is only one way to go on. -/
theorem safe_seq_iff (t : Traced ε α Unit) (f : Unit → Traced ε α γ) :
    Safe P (t >>= f) ↔ Safe P t ∧ Safe P (f ()) := by
  rw [safe_bind_iff]
  refine and_congr_right ?_
  rintro ⟨-, b, hb⟩
  exact ⟨fun h => h b hb, fun h _ _ => h⟩

/-- A loop over a list is safe if it is for every element. -/
theorem safe_forM_iff {δ : Type*} (xs : List δ) (f : δ → Traced ε α Unit) :
    Safe P (xs.forM f) ↔ ∀ x ∈ xs, Safe P (f x) := by
  induction xs with
  | nil => exact iff_of_true (safe_pure _) (fun x hx => nomatch hx)
  | cons x xs ih =>
    rw [List.forall_mem_cons, ← ih]
    exact safe_seq_iff (f x) fun _ => xs.forM f

end Traced
