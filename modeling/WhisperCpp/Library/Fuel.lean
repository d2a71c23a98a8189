import Mathlib.Data.List.Basic
import Mathlib.Data.Nat.Notation

/-!
# Functions that return when given enough fuel

A recursion without a visible measure is modelled by a function of a fuel argument into `Except`.
`Returns f a` says that `f` returns `a` for all large enough fuel, which is what termination with
result `a` means for the function the model stands for. The combinators below follow the monadic
structure of such a definition: a value, a call one level down, a sequence, a loop over a list.
-/

namespace Fuel

universe u

variable {ε : Type*} {α β : Type u}

/-- For all large enough fuel, `f` returns `a`. -/
def Returns (f : ℕ → Except ε α) (a : α) : Prop := ∃ k, ∀ fuel, k ≤ fuel → f fuel = .ok a

theorem Returns.unique {f : ℕ → Except ε α} {a b : α} (ha : Returns f a) (hb : Returns f b) :
    a = b := by
  obtain ⟨k, hk⟩ := ha
  obtain ⟨l, hl⟩ := hb
  have h := (hk _ (Nat.le_add_right k l)).symm.trans (hl _ (Nat.le_add_left l k))
  exact Except.ok.inj h

/-- Some fuel is enough. -/
theorem Returns.exists_ok {f : ℕ → Except ε α} {a : α} (h : Returns f a) :
    ∃ fuel, f fuel = .ok a := by
  obtain ⟨k, hk⟩ := h
  exact ⟨k, hk k (Nat.le_refl k)⟩

theorem returns_ok (a : α) : Returns (fun _ => (.ok a : Except ε α)) a := ⟨0, fun _ _ => rfl⟩

theorem Returns.congr {f g : ℕ → Except ε α} {a : α} (hf : Returns f a) (h : ∀ n, g n = f n) :
    Returns g a := by
  obtain ⟨k, hk⟩ := hf
  exact ⟨k, fun fuel hfuel => (h fuel).trans (hk fuel hfuel)⟩

/-- A call that spends one unit of fuel. -/
theorem Returns.succ {f g : ℕ → Except ε α} {a : α} (hf : Returns f a)
    (h : ∀ n, g (n + 1) = f n) : Returns g a := by
  obtain ⟨k, hk⟩ := hf
  refine ⟨k + 1, fun fuel hfuel => ?_⟩
  obtain ⟨m, rfl⟩ : ∃ m, fuel = m + 1 := ⟨fuel - 1, by omega⟩
  rw [h, hk m (by omega)]

theorem Returns.bind {f : ℕ → Except ε α} {g : ℕ → α → Except ε β} {a : α} {b : β}
    (hf : Returns f a) (hg : Returns (fun fuel => g fuel a) b) :
    Returns (fun fuel => f fuel >>= g fuel) b := by
  obtain ⟨k, hk⟩ := hf
  obtain ⟨l, hl⟩ := hg
  refine ⟨max k l, fun fuel hfuel => ?_⟩
  change (f fuel).bind (g fuel) = _
  rw [hk fuel (by omega)]
  exact hl fuel (by omega)

/-- A loop whose body appends to its accumulator appends what the rounds append. -/
theorem returns_foldlM_append {γ : Type*} {f : ℕ → List α → γ → Except ε (List α)}
    {P : γ → List α → Prop} (xs : List γ)
    (h : ∀ x ∈ xs, ∃ out, P x out ∧ ∀ acc, Returns (fun fuel => f fuel acc x) (acc ++ out)) :
    ∃ out : List α, (∀ a ∈ out, ∃ x ∈ xs, ∃ o, P x o ∧ a ∈ o) ∧
      (∀ x ∈ xs, ∃ o, P x o ∧ ∀ a ∈ o, a ∈ out) ∧
      ∀ acc, Returns (fun fuel => xs.foldlM (f fuel) acc) (acc ++ out) := by
  induction xs with
  | nil => exact ⟨[], by simp, by simp, fun acc => by rw [List.append_nil]; exact returns_ok acc⟩
  | cons x xs ih =>
    obtain ⟨o, hP, ho⟩ := h x (List.mem_cons_self ..)
    obtain ⟨out, hmem, hall, hret⟩ := ih fun y hy => h y (List.mem_cons_of_mem _ hy)
    refine ⟨o ++ out, ?_, ?_, fun acc => ?_⟩
    · intro a ha
      rcases List.mem_append.mp ha with ha | ha
      · exact ⟨x, List.mem_cons_self .., o, hP, ha⟩
      · obtain ⟨y, hy, rest⟩ := hmem a ha
        exact ⟨y, List.mem_cons_of_mem _ hy, rest⟩
    · intro y hy
      rcases List.mem_cons.mp hy with rfl | hy
      · exact ⟨o, hP, fun a ha => List.mem_append_left _ ha⟩
      · obtain ⟨o', hP', ho'⟩ := hall y hy
        exact ⟨o', hP', fun a ha => List.mem_append_right _ (ho' a ha)⟩
    · rw [← List.append_assoc]
      exact (ho acc).bind (g := fun fuel acc => xs.foldlM (f fuel) acc) (hret (acc ++ o))

/-- A loop that appends, in terms of what each round appends. -/
theorem returns_foldlM_flatMap {γ : Type*} {f : ℕ → List α → γ → Except ε (List α)}
    {g : γ → List α} (xs : List γ)
    (h : ∀ x ∈ xs, ∀ acc, Returns (fun fuel => f fuel acc x) (acc ++ g x)) (acc : List α) :
    Returns (fun fuel => xs.foldlM (f fuel) acc) (acc ++ xs.flatMap g) := by
  induction xs generalizing acc with
  | nil => rw [List.flatMap_nil, List.append_nil]; exact returns_ok acc
  | cons x xs ih =>
    rw [List.flatMap_cons, ← List.append_assoc]
    exact (h x (List.mem_cons_self ..) acc).bind
      (ih (fun y hy => h y (List.mem_cons_of_mem _ hy)) (acc ++ g x))

/-- A computation in two parts returns iff both parts do. -/
theorem bind_eq_ok_iff {x : Except ε α} {f : α → Except ε β} {b : β} :
    x >>= f = .ok b ↔ ∃ a, x = .ok a ∧ f a = .ok b := by
  cases x with
  | error e => exact ⟨nofun, fun ⟨_, h, _⟩ => nomatch h⟩
  | ok a => exact ⟨fun h => ⟨a, rfl, h⟩, fun ⟨_, ha, h⟩ => by cases ha; exact h⟩

/-- Every round of a loop that returns has returned. -/
theorem exists_ok_of_foldlM_ok {γ σ : Type*} {step : σ → γ → Except ε σ} {xs : List γ} {s t : σ}
    (h : xs.foldlM step s = .ok t) : ∀ x ∈ xs, ∃ s' t', step s' x = .ok t' := by
  induction xs generalizing s with
  | nil => simp
  | cons x xs ih =>
    rw [List.foldlM_cons] at h
    cases hx : step s x with
    | error e => rw [hx] at h; cases h
    | ok s' =>
      rw [hx] at h
      intro y hy
      rcases List.mem_cons.mp hy with rfl | hy
      · exact ⟨s, s', hx⟩
      · exact ih h y hy

/-! ### Outcomes

`Meets E P x`: the computation `x` returns something that satisfies `P`, or ends in an error that
satisfies `E`. With `E` saying which errors are possible, this is partial correctness. -/

/-- What a computation returns satisfies `P`, and what it throws satisfies `E`. -/
def Meets (E : ε → Prop) (P : α → Prop) : Except ε α → Prop
  | .ok a => P a
  | .error e => E e

variable {E : ε → Prop} {P : α → Prop} {Q : β → Prop}

theorem Meets.of_ok {x : Except ε α} {a : α} (h : Meets E P x) (ha : x = .ok a) : P a := by
  subst ha
  exact h

theorem Meets.of_error {x : Except ε α} {e : ε} (h : Meets E P x) (he : x = .error e) : E e := by
  subst he
  exact h

theorem meets_of_ok {x : Except ε α} {a : α} (hx : x = .ok a) (ha : P a) : Meets E P x := by
  subst hx
  exact ha

theorem Meets.mono {P' : α → Prop} {x : Except ε α} (h : Meets E P x) (hP : ∀ a, P a → P' a) :
    Meets E P' x := by
  cases x with
  | error e => exact h
  | ok a => exact hP a h

theorem Meets.bind {x : Except ε α} {f : α → Except ε β} (hx : Meets E P x)
    (hf : ∀ a, P a → Meets E Q (f a)) : Meets E Q (x >>= f) := by
  cases x with
  | error e => exact hx
  | ok a => exact hf a hx

/-- The first part returned. -/
theorem Meets.bind_ok {x : Except ε α} {a : α} {f : α → Except ε β} (hx : x = .ok a)
    (hf : Meets E Q (f a)) : Meets E Q (x >>= f) := by
  subst hx
  exact hf

theorem Meets.foldlM {γ : Type*} {step : α → γ → Except ε α} {xs : List γ} {s : α} (hs : P s)
    (hstep : ∀ s, P s → ∀ x ∈ xs, Meets E P (step s x)) : Meets E P (xs.foldlM step s) := by
  induction xs generalizing s with
  | nil => exact hs
  | cons x xs ih =>
    rw [List.foldlM_cons]
    exact (hstep s hs x (List.mem_cons_self ..)).bind fun s' hs' =>
      ih hs' fun t ht y hy => hstep t ht y (List.mem_cons_of_mem _ hy)

/-- A loop, with a property of the values that it has gone through. -/
theorem Meets.foldlM_append {γ : Type*} {f : α → γ → Except ε α} {I : List γ → α → Prop}
    (hstep : ∀ done s x, I done s → Meets E (I (done ++ [x])) (f s x)) (done : List γ) {s : α}
    (hs : I done s) (xs : List γ) : Meets E (I (done ++ xs)) (xs.foldlM f s) := by
  induction xs generalizing done s with
  | nil =>
    rw [List.append_nil]
    exact hs
  | cons x xs ih =>
    rw [List.foldlM_cons, List.append_cons]
    exact (hstep done s x hs).bind fun s' hs' => ih _ hs'

/-! ### Returning at all -/

/-- The computation returns. -/
def Succeeds (x : Except ε α) : Prop := ∃ a, x = .ok a

theorem succeeds_ok (a : α) : Succeeds (.ok a : Except ε α) := ⟨a, rfl⟩

theorem not_succeeds_error (e : ε) : ¬ Succeeds (.error e : Except ε α) := nofun

/-- A sequence returns if the first part does, and then the second. -/
theorem succeeds_bind_iff {x : Except ε α} {f : α → Except ε β} :
    Succeeds (x >>= f) ↔ ∃ a, x = .ok a ∧ Succeeds (f a) := by
  cases x with
  | error e => exact iff_of_false (not_succeeds_error e) fun ⟨_, h, _⟩ => nomatch h
  | ok a =>
    refine ⟨fun h => ⟨a, rfl, h⟩, fun ⟨b, hb, h⟩ => ?_⟩
    cases hb
    exact h

/-- If a part returns, what is behind it decides. -/
theorem succeeds_bind_of_ok {x : Except ε α} {a : α} {f : α → Except ε β} (hx : x = .ok a) :
    Succeeds (x >>= f) ↔ Succeeds (f a) := by
  subst hx
  rfl

/-- A loop whose rounds return or not whatever has been computed. -/
theorem succeeds_foldlM_iff {γ : Type*} {step : α → γ → Except ε α} {P : γ → Prop} {xs : List γ}
    (h : ∀ s, ∀ x ∈ xs, Succeeds (step s x) ↔ P x) (s : α) :
    Succeeds (xs.foldlM step s) ↔ ∀ x ∈ xs, P x := by
  induction xs generalizing s with
  | nil => exact iff_of_true (succeeds_ok s) nofun
  | cons x xs ih =>
    obtain ⟨hx, hxs⟩ := (List.forall_mem_cons (p := fun x => ∀ s, Succeeds (step s x) ↔ P x)).mp
      fun x hx s => h s x hx
    rw [List.foldlM_cons, succeeds_bind_iff, List.forall_mem_cons, ← hx s]
    constructor
    · rintro ⟨s', hs', hrest⟩
      exact ⟨⟨s', hs'⟩, (ih (fun s y hy => hxs y hy s) s').mp hrest⟩
    · rintro ⟨⟨s', hs'⟩, hrest⟩
      exact ⟨s', hs', (ih (fun s y hy => hxs y hy s) s').mpr hrest⟩

theorem succeeds_mapM_iff {γ : Type*} {f : γ → Except ε α} {xs : List γ} :
    Succeeds (xs.mapM f) ↔ ∀ x ∈ xs, Succeeds (f x) := by
  induction xs with
  | nil => exact iff_of_true (succeeds_ok []) nofun
  | cons x xs ih =>
    rw [List.mapM_cons, succeeds_bind_iff, List.forall_mem_cons, ← ih]
    constructor
    · rintro ⟨a, ha, hrest⟩
      obtain ⟨as, has, -⟩ := succeeds_bind_iff.mp hrest
      exact ⟨⟨a, ha⟩, as, has⟩
    · rintro ⟨⟨a, ha⟩, as, has⟩
      exact ⟨a, ha, succeeds_bind_iff.mpr ⟨as, has, succeeds_ok _⟩⟩

/-- A map whose parts all return. -/
theorem mapM_eq_ok {γ : Type*} {f : γ → Except ε α} {g : γ → α} {xs : List γ}
    (h : ∀ x ∈ xs, f x = .ok (g x)) : xs.mapM f = .ok (xs.map g) := by
  induction xs with
  | nil => rfl
  | cons x xs ih =>
    rw [List.mapM_cons, h x (List.mem_cons_self ..), ih fun y hy => h y (List.mem_cons_of_mem _ hy)]
    rfl

theorem length_of_mapM_eq_ok {γ : Type*} {f : γ → Except ε α} {xs : List γ} {ys : List α}
    (h : xs.mapM f = .ok ys) : ys.length = xs.length := by
  induction xs generalizing ys with
  | nil =>
    cases h
    rfl
  | cons x xs ih =>
    rw [List.mapM_cons, bind_eq_ok_iff] at h
    obtain ⟨a, -, hrest⟩ := h
    obtain ⟨as, has, hcons⟩ := bind_eq_ok_iff.mp hrest
    cases hcons
    rw [List.length_cons, List.length_cons, ih has]

end Fuel
