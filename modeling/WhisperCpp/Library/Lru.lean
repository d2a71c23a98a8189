import Mathlib.Data.List.Basic

/-!
# A list that keeps the entries used last

The entries are in the order of their last use. A request takes the first entry that fits, or a new
one, for which the entries in front make room; the caller puts back at the end what it has used.

## Main definitions

* `Lru.fetch` — the entry for a request, and the entries that stay
* `Lru.Served` — all that a request can do

## Main results

* `served_fetch` — a request does one of these
* `Served.length_lt`, `Served.forall_mem` — the room for the entry used, and what holds of
  every entry
-/

namespace Lru

variable {ε α : Type*}

/-- Entries in front leave until there is room for one more. -/
def evict (capacity : ℕ) (cache : List α) : List α := cache.drop (cache.length + 1 - capacity)

/-- The entry for a request, and the entries that stay. -/
def fetch (capacity : ℕ) (p : α → Bool) (built : Except ε α) (cache : List α) :
    Except ε α × List α :=
  match cache.find? p with
  | some x => (.ok x, cache.eraseP p)
  | none => (built, evict capacity cache)

/-- A request is served with the first entry that fits, which leaves its place, or else with a new
entry, for which others make room, also where it cannot be built. -/
inductive Served (capacity : ℕ) (p : α → Bool) (built : Except ε α) (cache : List α) :
    Except ε α → List α → Prop
  /-- An entry fits. -/
  | hit (front : List α) (x : α) (back : List α) (hcache : cache = front ++ x :: back)
    (hfront : ∀ y ∈ front, p y = false) (hx : p x = true) :
    Served capacity p built cache (.ok x) (front ++ back)
  /-- No entry fits. -/
  | miss (hcache : ∀ y ∈ cache, p y = false) :
    Served capacity p built cache built (evict capacity cache)

variable {capacity : ℕ} {p : α → Bool} {built : Except ε α} {cache : List α}

/-- The first element that fits, and the list without it. -/
theorem find?_split {l : List α} {x : α} (h : l.find? p = some x) : ∃ front back,
    l = front ++ x :: back ∧ (∀ y ∈ front, p y = false) ∧ p x = true ∧
      l.eraseP p = front ++ back := by
  obtain ⟨hx, front, back, rfl, hfront⟩ := List.find?_eq_some_iff_append.1 h
  have hfront : ∀ y ∈ front, p y = false := by simpa using hfront
  refine ⟨front, back, rfl, hfront, hx, ?_⟩
  rw [List.eraseP_append_right _ (by simpa using hfront), List.eraseP_cons_of_pos hx]

theorem served_fetch (capacity : ℕ) (p : α → Bool) (built : Except ε α) (cache : List α) :
    Served capacity p built cache (fetch capacity p built cache).1
      (fetch capacity p built cache).2 := by
  cases hfind : cache.find? p with
  | none =>
    rw [fetch, hfind]
    refine .miss fun y hy => ?_
    simpa using List.find?_eq_none.1 hfind y hy
  | some x =>
    obtain ⟨front, back, hsplit, hfront, hx, herase⟩ := find?_split hfind
    rw [fetch, hfind]
    simp only [herase]
    exact .hit front x back hsplit hfront hx

theorem fetch_nil (capacity : ℕ) (p : α → Bool) (built : Except ε α) :
    fetch capacity p built [] = (built, []) := by
  rw [fetch, List.find?_nil, evict, List.drop_nil]

/-- There is room for the entry that is put back. -/
theorem Served.length_lt {r : Except ε α} {kept : List α}
    (h : Served capacity p built cache r kept) (hpos : 0 < capacity)
    (hcache : cache.length ≤ capacity) : kept.length < capacity := by
  cases h with
  | hit front x back hsplit =>
    rw [hsplit, List.length_append, List.length_cons] at hcache
    rw [List.length_append]
    omega
  | miss =>
    rw [evict, List.length_drop]
    omega

/-- What holds of the entries and of every new one holds of the entries that stay and of the one
used. -/
theorem Served.forall_mem {P : α → Prop} {r : Except ε α} {kept : List α}
    (h : Served capacity p built cache r kept) (hcache : ∀ x ∈ cache, P x)
    (hbuilt : ∀ x, built = .ok x → P x) : (∀ x ∈ kept, P x) ∧ ∀ x, r = .ok x → P x := by
  cases h with
  | hit front x back hsplit =>
    rw [hsplit, List.forall_mem_append, List.forall_mem_cons] at hcache
    obtain ⟨hfront, hx, hback⟩ := hcache
    refine ⟨List.forall_mem_append.2 ⟨hfront, hback⟩, fun y hy => ?_⟩
    rwa [← Except.ok.inj hy]
  | miss => exact ⟨fun x hx => hcache x (List.mem_of_mem_drop hx), hbuilt⟩

end Lru
