import WhisperCpp.Library.Fuel
import Mathlib.Data.List.Basic
import Mathlib.Tactic.SplitIfs

/-!
# Programs that take from a list

A consumer takes elements from the front of a list and knows how many it has taken. It ends with a
value or an error. What decodes a code decodes it in front of everything, so that consumers can be
put one behind the other as their codes are.

## Main definitions

* `Consumer.take`, `Consumer.need`, `Consumer.seek`, `Consumer.collect` — the programs
* `Consumer.Decodes` — a code, and what it is a code of
* `Consumer.Ensures` — what is known of every value
* `Consumer.Keeps` — what is left stays a part of the list

## Main results

* `Consumer.Decodes.bind`, `Consumer.decodes_collect` — codes one behind the other
* `Consumer.Ensures.bind`, `Consumer.ensures_collect` — what is known of the parts
-/

/-- A program on what is left of a list, and on the number of elements in front of it. -/
abbrev Consumer (β ε α : Type) := StateT (ℕ × List β) (Except ε) α

namespace Consumer

variable {β ε α γ : Type}

/-- No value. -/
def fail (e : ε) : Consumer β ε α := fun _ => .error e

/-- Some elements. -/
def take (e : ε) (n : ℕ) : Consumer β ε (List β) := fun s =>
  if s.2.length < n then .error e else .ok (s.2.take n, (s.1 + n, s.2.drop n))

/-- There have to be elements. -/
def need (e : ε) (n : ℕ) : Consumer β ε Unit := fun s =>
  if s.2.length < n then .error e else .ok ((), s)

/-- The number of elements in front. -/
def tell : Consumer β ε ℕ := fun s => .ok (s.1, s)

/-- Forward, to a number of elements in front. -/
def seek (e : ε) (n : ℕ) : Consumer β ε Unit := fun s =>
  if s.1 + s.2.length < n then .error e else .ok ((), (n, s.2.drop (n - s.1)))

/-- Some values, each with those before it. -/
def collect (step : List α → Consumer β ε α) : ℕ → List α → Consumer β ε (List α)
  | 0, acc => pure acc
  | n + 1, acc => do
    let a ← step acc
    collect step n (acc ++ [a])

theorem bind_apply (d : Consumer β ε α) (f : α → Consumer β ε γ) (s : ℕ × List β) :
    (d >>= f) s = (d s).bind fun r => f r.1 r.2 := rfl

/-- Both parts of what ends with a value do. -/
theorem bind_eq_ok {d : Consumer β ε α} {f : α → Consumer β ε γ} {s s' : ℕ × List β} {c : γ}
    (h : (d >>= f) s = .ok (c, s')) : ∃ a s₁, d s = .ok (a, s₁) ∧ f a s₁ = .ok (c, s') := by
  obtain ⟨⟨a, s₁⟩, hd, hf⟩ := Fuel.bind_eq_ok_iff.mp h
  exact ⟨a, s₁, hd, hf⟩

/-! ### Codes -/

/-- In front of everything, the code is decoded. -/
def Decodes (d : Consumer β ε α) (code : List β) (a : α) : Prop :=
  ∀ pos rest, d (pos, code ++ rest) = .ok (a, (pos + code.length, rest))

section Decodes

variable {d : Consumer β ε α} {f : α → Consumer β ε γ} {code code' : List β} {a : α} {c : γ} {e : ε}
  {n : ℕ}

theorem decodes_pure (a : α) : Decodes (pure a : Consumer β ε α) [] a := fun _ _ => rfl

/-- **Codes one behind the other.** -/
theorem Decodes.bind (h : Decodes d code a) (h' : Decodes (f a) code' c) :
    Decodes (d >>= f) (code ++ code') c := by
  intro pos rest
  rw [bind_apply, List.append_assoc, h]
  show f a (pos + code.length, code' ++ rest) = _
  rw [h', List.length_append, Nat.add_assoc]

/-- Behind a code, what takes nothing. -/
theorem Decodes.followed (h : Decodes d code a) (h' : Decodes (f a) [] c) :
    Decodes (d >>= f) code c := by
  have hbind := h.bind h'
  rwa [List.append_nil] at hbind

/-- What is made of a value. -/
theorem Decodes.map (h : Decodes d code a) (g : α → γ) :
    Decodes (d >>= fun x => pure (g x)) code (g a) := h.followed (decodes_pure (g a))

theorem decodes_take (h : code.length = n) : Decodes (take e n) code code := by
  intro pos rest
  subst h
  simp [take]

/-- A code in which there are enough elements. -/
theorem Decodes.need (hn : n ≤ code.length) (h : Decodes d code a) :
    Decodes (Consumer.need e n >>= fun _ => d) code a := by
  intro pos rest
  have hlen : ¬ (code ++ rest).length < n := by
    rw [List.length_append]
    omega
  rw [bind_apply, Consumer.need, if_neg hlen]
  exact h pos rest

/-- The codes of the values, one behind the other. -/
theorem decodes_collect {step : List α → Consumer β ε α} {enc : α → List β} {xs acc : List α}
    (h : ∀ ys x zs, xs = ys ++ x :: zs → Decodes (step (acc ++ ys)) (enc x) x) :
    Decodes (collect step xs.length acc) (xs.flatMap enc) (acc ++ xs) := by
  induction xs generalizing acc with
  | nil =>
    rw [List.append_nil]
    exact decodes_pure acc
  | cons x xs ih =>
    have hx : Decodes (step acc) (enc x) x := by
      have hfirst := h [] x xs rfl
      rwa [List.append_nil] at hfirst
    have hxs : Decodes (collect step xs.length (acc ++ [x])) (xs.flatMap enc)
        (acc ++ [x] ++ xs) := by
      refine ih fun ys y zs heq => ?_
      have hnext := h (x :: ys) y zs (by rw [heq, List.cons_append])
      rwa [List.append_assoc, List.singleton_append]
    rw [List.append_assoc, List.singleton_append] at hxs
    exact hx.bind hxs

end Decodes

/-! ### Values -/

/-- Every value that is decoded. -/
def Ensures (d : Consumer β ε α) (P : α → Prop) : Prop := ∀ s a s', d s = .ok (a, s') → P a

section Ensures

variable {d : Consumer β ε α} {f : α → Consumer β ε γ} {P : α → Prop} {Q : γ → Prop} {e : ε} {n : ℕ}

theorem ensures_pure {a : α} (h : P a) : Ensures (pure a : Consumer β ε α) P := by
  intro s b s' heq
  cases heq
  exact h

theorem ensures_fail : Ensures (fail e : Consumer β ε α) P := nofun

theorem ensures_true : Ensures d fun _ => True := fun _ _ _ _ => trivial

/-- **One after the other.** -/
theorem Ensures.bind (h : Ensures d P) (h' : ∀ a, P a → Ensures (f a) Q) : Ensures (d >>= f) Q := by
  intro s c s' heq
  obtain ⟨a, s₁, hd, hf⟩ := bind_eq_ok heq
  exact h' a (h s a s₁ hd) s₁ c s' hf

theorem Ensures.mono {P' : α → Prop} (h : Ensures d P) (hP : ∀ a, P a → P' a) : Ensures d P' :=
  fun s a s' heq => hP a (h s a s' heq)

theorem ensures_take : Ensures (take e n : Consumer β ε (List β)) fun l => l.length = n := by
  intro s l s' heq
  rw [take] at heq
  split_ifs at heq with hlt
  cases heq
  rw [List.length_take]
  omega

/-- What one more value preserves. -/
theorem ensures_collect {step : List α → Consumer β ε α} {I : List α → Prop} {acc : List α}
    (hacc : I acc) (hstep : ∀ l, I l → Ensures (step l) fun a => I (l ++ [a])) (n : ℕ) :
    Ensures (collect step n acc) fun l => I l ∧ l.length = acc.length + n := by
  induction n generalizing acc with
  | zero => exact ensures_pure ⟨hacc, rfl⟩
  | succ n ih =>
    refine (hstep acc hacc).bind fun a ha => (ih ha).mono fun l hl => ⟨hl.1, ?_⟩
    rw [hl.2, List.length_append, List.length_singleton, Nat.add_assoc, Nat.add_comm 1]

end Ensures

/-! ### Places -/

/-- What is left is what is behind the elements in front. -/
def At (l : List β) (s : ℕ × List β) : Prop := s.1 ≤ l.length ∧ s.2 = l.drop s.1

/-- From a place in a list to a place in it. -/
def Keeps (d : Consumer β ε α) : Prop := ∀ l s a s', At l s → d s = .ok (a, s') → At l s'

section Keeps

variable {d : Consumer β ε α} {f : α → Consumer β ε γ} {e : ε} {n : ℕ}

theorem keeps_pure (a : α) : Keeps (pure a : Consumer β ε α) := by
  intro l s b s' hat heq
  cases heq
  exact hat

theorem keeps_fail : Keeps (fail e : Consumer β ε α) := nofun

theorem Keeps.bind (h : Keeps d) (h' : ∀ a, Keeps (f a)) : Keeps (d >>= f) := by
  intro l s c s' hat heq
  obtain ⟨a, s₁, hd, hf⟩ := bind_eq_ok heq
  exact h' a l s₁ c s' (h l s a s₁ hat hd) hf

theorem At.forward {l : List β} {s : ℕ × List β} (h : At l s) (hn : n ≤ s.2.length) :
    At l (s.1 + n, s.2.drop n) := by
  obtain ⟨hle, hrest⟩ := h
  rw [hrest, List.length_drop] at hn
  refine ⟨?_, by rw [hrest, List.drop_drop]⟩
  show s.1 + n ≤ l.length
  omega

theorem keeps_take : Keeps (take e n : Consumer β ε (List β)) := by
  intro l s a s' hat heq
  rw [take] at heq
  split_ifs at heq with hlt
  cases heq
  exact hat.forward (by omega)

theorem keeps_need : Keeps (need e n : Consumer β ε Unit) := by
  intro l s a s' hat heq
  rw [need] at heq
  split_ifs at heq
  cases heq
  exact hat

theorem keeps_collect {step : List α → Consumer β ε α} (h : ∀ l, Keeps (step l)) (n : ℕ)
    (acc : List α) : Keeps (collect step n acc) := by
  induction n generalizing acc with
  | zero => exact keeps_pure acc
  | succ n ih => exact (h acc).bind fun a => ih (acc ++ [a])

end Keeps

end Consumer
