import Mathlib.Logic.Basic
import Mathlib.Tactic.ByContra
import Mathlib.Tactic.SplitIfs

/-!
# A slot with a key

A cache for one value: it keeps the value of the last key, and a new key builds another one. What it
gives is right if the key says all that the value depends on; this module says what is needed for
one call.

## Main definitions

* `KeyedSlot` — a key with a value
* `KeyedSlot.fetch` — the value for a key, built unless it is there
* `KeyedSlot.Holds` — what the value has to do with its key
* `KeyedSlot.Stale` — the slot has another value for the key

## Main results

* `value_fetch_iff` — a call gives what it would build exactly if the slot is not stale
* `Holds.fetch` — a call keeps what the values have to do with their keys
-/

/-- A cache for one value. -/
structure KeyedSlot (κ α : Type*) where
  key : κ
  value : Option α

namespace KeyedSlot

variable {κ α : Type*} [DecidableEq κ]

/-- A call with a key: the value is built unless it is there. -/
def fetch (s : KeyedSlot κ α) (k : κ) (build : α) : KeyedSlot κ α :=
  if s.key ≠ k ∨ s.value = none then ⟨k, some build⟩ else s

/-- A call that looks only at the key. -/
def fetchByKey (s : KeyedSlot κ α) (k : κ) (build : α) : KeyedSlot κ α :=
  if s.key ≠ k then ⟨k, some build⟩ else s

omit [DecidableEq κ] in
/-- The value, where there is one, is one for the key. -/
def Holds (P : κ → α → Prop) (s : KeyedSlot κ α) : Prop := ∀ v, s.value = some v → P s.key v

omit [DecidableEq κ] in
/-- The slot has another value for the key. -/
def Stale (s : KeyedSlot κ α) (k : κ) (build : α) : Prop :=
  ∃ v, s.key = k ∧ s.value = some v ∧ v ≠ build

variable {P : κ → α → Prop} {s : KeyedSlot κ α} {k : κ} {build : α}

/-- What a call does. -/
theorem fetch_cases (s : KeyedSlot κ α) (k : κ) (build : α) :
    s.fetch k build = ⟨k, some build⟩ ∨
      ∃ v, s.key = k ∧ s.value = some v ∧ s.fetch k build = s := by
  rw [fetch]
  split_ifs with h
  · exact .inl rfl
  · obtain ⟨hkey, hvalue⟩ := not_or.mp h
    obtain ⟨v, hv⟩ := Option.ne_none_iff_exists'.mp hvalue
    exact .inr ⟨v, not_not.mp hkey, hv, rfl⟩

/-- Where a slot without a value does not have the key, looking at the key is enough. -/
theorem fetchByKey_eq (h : s.value = none → s.key ≠ k) : s.fetchByKey k build = s.fetch k build := by
  rw [fetchByKey, fetch]
  by_cases hkey : s.key = k
  · rw [if_neg (not_not.mpr hkey), if_neg fun hor => hor.elim (· hkey) fun hnone => h hnone hkey]
  · rw [if_pos hkey, if_pos (.inl hkey)]

/-- A call gives what it would build exactly if the slot does not have another value for the key. -/
theorem value_fetch_iff : (s.fetch k build).value = some build ↔ ¬s.Stale k build := by
  obtain heq | ⟨v, hkey, hv, heq⟩ := s.fetch_cases k build
  · rw [heq]
    refine iff_of_true rfl ?_
    rintro ⟨v, hkey, hv, hne⟩
    rw [fetch, if_neg fun hor => hor.elim (· hkey) fun hnone => nomatch hnone.symm.trans hv] at heq
    exact hne (Option.some.inj (hv.symm.trans (congrArg value heq)))
  · rw [heq, hv, Option.some.injEq]
    constructor
    · rintro rfl ⟨w, -, hw, hne⟩
      exact hne (Option.some.inj (hw.symm.trans hv))
    · intro hstale
      by_contra hne
      exact hstale ⟨v, hkey, hv, hne⟩

/-- A call keeps what the value has to do with its key. -/
theorem Holds.fetch (h : s.Holds P) (hbuild : P k build) : (s.fetch k build).Holds P := by
  obtain heq | ⟨v, -, -, heq⟩ := s.fetch_cases k build
  · rw [heq]
    rintro v ⟨⟩
    exact hbuild
  · rwa [heq]

omit [DecidableEq κ] in
/-- A slot is not stale where the key decides what is built. -/
theorem Holds.not_stale (h : s.Holds P) (hunique : ∀ v, P k v → v = build) : ¬s.Stale k build := by
  rintro ⟨v, rfl, hv, hne⟩
  exact hne (hunique v (h v hv))

end KeyedSlot
