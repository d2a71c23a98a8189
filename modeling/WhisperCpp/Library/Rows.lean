import Mathlib.Data.List.Basic
import Mathlib.Tactic.SplitIfs

/-!
# Arrays of rows

A matrix of rows of one width, one after the other in an array. `Holds w flat rows` says that the
array `flat` is the matrix `rows`; copying, growing and shrinking at multiples of the width are then
operations on rows.

## Main definitions

* `Rows.Holds` — an array holds rows
* `Rows.copy`, `Rows.resize` — `memcpy` and `resize`
* `Rows.row` — a row of an array

## Main results

* `Holds.copy` — rows are copied
* `Holds.append`, `Holds.shift` — rows are copied behind others, or to the front
* `Holds.row` — the rows are the stretches of the array
-/

namespace Rows

variable {α ε : Type*} {w : ℕ} {flat flat' : List α} {rows rows' : List (List α)}

/-- An array holds rows of width `w`. -/
structure Holds (w : ℕ) (flat : List α) (rows : List (List α)) : Prop where
  eq : flat = rows.flatten
  width : ∀ r ∈ rows, r.length = w

/-- The `n` values of `src` from `j` on are copied to `dst` from `i` on; they must be inside. -/
def copy (e : ε) (dst : List α) (i : ℕ) (src : List α) (j n : ℕ) : Except ε (List α) :=
  if i + n ≤ dst.length ∧ j + n ≤ src.length then
    .ok (dst.take i ++ (src.drop j).take n ++ dst.drop (i + n))
  else .error e

/-- The array gets length `n`, with `x` in new places. -/
def resize (flat : List α) (n : ℕ) (x : α) : List α :=
  flat.take n ++ List.replicate (n - flat.length) x

/-- Row `r` of an array. -/
def row (w : ℕ) (flat : List α) (r : ℕ) : List α := (flat.drop (r * w)).take w

/-! ### Parts of an array -/

theorem holds_nil (w : ℕ) : Holds w ([] : List α) [] := ⟨rfl, fun _ hr => nomatch hr⟩

theorem Holds.length (h : Holds w flat rows) : flat.length = rows.length * w := by
  rw [h.eq, List.length_flatten, List.map_congr_left h.width, List.map_const',
    List.sum_replicate_nat]

theorem Holds.append_rows (h : Holds w flat rows) (h' : Holds w flat' rows') :
    Holds w (flat ++ flat') (rows ++ rows') := by
  refine ⟨?_, List.forall_mem_append.2 ⟨h.width, h'.width⟩⟩
  rw [h.eq, h'.eq, List.flatten_append]

/-- The first `k` rows are the first `k * w` values. -/
theorem Holds.take (h : Holds w flat rows) (k : ℕ) :
    Holds w (flat.take (k * w)) (rows.take k) := by
  refine ⟨?_, fun r hr => h.width r (List.mem_of_mem_take hr)⟩
  induction k generalizing flat rows with
  | zero => rw [Nat.zero_mul, List.take_zero, List.take_zero, List.flatten_nil]
  | succ k ih =>
    cases rows with
    | nil => rw [h.eq, List.take_nil, List.flatten_nil, List.take_nil]
    | cons r rows =>
      have hr : r.length = w := h.width r List.mem_cons_self
      have hrest : Holds w rows.flatten rows :=
        ⟨rfl, fun s hs => h.width s (List.mem_cons_of_mem _ hs)⟩
      rw [h.eq, List.flatten_cons, List.take_succ_cons, List.flatten_cons, ← ih hrest,
        Nat.succ_mul, Nat.add_comm, ← hr, List.take_length_add_append]

theorem Holds.drop (h : Holds w flat rows) (k : ℕ) :
    Holds w (flat.drop (k * w)) (rows.drop k) := by
  refine ⟨?_, fun r hr => h.width r (List.mem_of_mem_drop hr)⟩
  have htake := (h.take k).eq
  have hsplit : flat.take (k * w) ++ flat.drop (k * w) =
      (rows.take k).flatten ++ (rows.drop k).flatten := by
    rw [List.take_append_drop, ← List.flatten_append, List.take_append_drop, h.eq]
  rw [htake] at hsplit
  exact List.append_cancel_left hsplit

theorem holds_replicate (n : ℕ) (x : α) :
    Holds w (List.replicate (n * w) x) (List.replicate n (List.replicate w x)) := by
  refine ⟨List.flatten_replicate_replicate.symm, fun r hr => ?_⟩
  rw [List.eq_of_mem_replicate hr, List.length_replicate]

/-! ### Operations -/

/-- Rows are copied. -/
theorem Holds.copy (e : ε) {dst src : List α} {drows srows : List (List α)}
    (hd : Holds w dst drows) (hs : Holds w src srows) {i j n : ℕ} (hi : i + n ≤ drows.length)
    (hj : j + n ≤ srows.length) :
    ∃ flat, Rows.copy e dst (i * w) src (j * w) (n * w) = .ok flat ∧
      Holds w flat (drows.take i ++ (srows.drop j).take n ++ drows.drop (i + n)) := by
  have hin : i * w + n * w ≤ dst.length := by
    rw [hd.length, ← Nat.add_mul]
    exact Nat.mul_le_mul_right w hi
  have hout : j * w + n * w ≤ src.length := by
    rw [hs.length, ← Nat.add_mul]
    exact Nat.mul_le_mul_right w hj
  refine ⟨_, if_pos ⟨hin, hout⟩, ?_⟩
  rw [← Nat.add_mul]
  exact ((hd.take i).append_rows ((hs.drop j).take n)).append_rows (hd.drop (i + n))

/-- Rows are copied over the first ones. -/
theorem Holds.copy_front (e : ε) {dst src : List α} {drows srows : List (List α)}
    (hd : Holds w dst drows) (hs : Holds w src srows) {j n : ℕ} (hn : n ≤ drows.length)
    (hj : j + n ≤ srows.length) :
    ∃ flat, Rows.copy e dst (0 * w) src (j * w) (n * w) = .ok flat ∧
      Holds w flat ((srows.drop j).take n ++ drows.drop n) := by
  obtain ⟨flat, hcopy, hrows⟩ := hd.copy e hs (i := 0) (j := j) (n := n) (by omega) hj
  rw [List.take_zero, List.nil_append, Nat.zero_add] at hrows
  exact ⟨flat, hcopy, hrows⟩

theorem Holds.resize_le (h : Holds w flat rows) (x : α) {n : ℕ} (hn : n ≤ rows.length) :
    Holds w (resize flat (n * w) x) (rows.take n) := by
  have hle : n * w ≤ flat.length := by
    rw [h.length]
    exact Nat.mul_le_mul_right w hn
  rw [resize, Nat.sub_eq_zero_of_le hle, List.replicate_zero, List.append_nil]
  exact h.take n

theorem Holds.resize_ge (h : Holds w flat rows) (x : α) {n : ℕ} (hn : rows.length ≤ n) :
    Holds w (resize flat (n * w) x)
      (rows ++ List.replicate (n - rows.length) (List.replicate w x)) := by
  have hle : flat.length ≤ n * w := by
    rw [h.length]
    exact Nat.mul_le_mul_right w hn
  rw [resize, List.take_of_length_le hle, h.length, ← Nat.sub_mul]
  exact h.append_rows (holds_replicate _ x)

/-- Rows are copied over the last ones. -/
theorem Holds.copy_back (e : ε) {dst src : List α} {done rest srows : List (List α)}
    (hd : Holds w dst (done ++ rest)) (hs : Holds w src srows) {j : ℕ}
    (hj : j + rest.length ≤ srows.length) :
    ∃ flat, Rows.copy e dst (done.length * w) src (j * w) (rest.length * w) = .ok flat ∧
      Holds w flat (done ++ (srows.drop j).take rest.length) := by
  obtain ⟨flat, hcopy, hrows⟩ := hd.copy e hs (i := done.length) (j := j) (n := rest.length)
    (Nat.le_of_eq List.length_append.symm) hj
  rw [List.take_left, List.drop_of_length_le (Nat.le_of_eq List.length_append),
    List.append_nil] at hrows
  exact ⟨flat, hcopy, hrows⟩

/-- Rows are copied behind others, for which the array grows. -/
theorem Holds.append (e : ε) (x : α) {src : List α} {srows : List (List α)} (h : Holds w flat rows)
    (hs : Holds w src srows) {j n : ℕ} (hj : j + n ≤ srows.length) :
    ∃ flat', Rows.copy e (resize flat ((rows.length + n) * w) x) (rows.length * w) src (j * w)
        (n * w) = .ok flat' ∧ Holds w flat' (rows ++ (srows.drop j).take n) := by
  have hgrown := h.resize_ge x (Nat.le_add_right rows.length n)
  rw [Nat.add_sub_cancel_left] at hgrown
  have hback := hgrown.copy_back e hs (j := j) (by rwa [List.length_replicate])
  rwa [List.length_replicate] at hback

/-- A row is copied to the first of the places that are still to be filled. -/
theorem Holds.copy_row (e : ε) {dst src : List α} {done srows : List (List α)} {z x : List α}
    {k t : ℕ} (hd : Holds w dst (done ++ List.replicate (k + 1) z)) (hs : Holds w src srows)
    (ht : srows[t]? = some x) :
    ∃ flat, Rows.copy e dst (done.length * w) src (t * w) (1 * w) = .ok flat ∧
      Holds w flat (done ++ [x] ++ List.replicate k z) := by
  obtain ⟨hlt, hx⟩ := List.getElem?_eq_some_iff.1 ht
  obtain ⟨flat, hcopy, hrows⟩ := hd.copy e hs (i := done.length) (j := t) (n := 1) (by
    rw [List.length_append, List.length_replicate]
    omega) hlt
  have hone : (srows.drop t).take 1 = [x] := by
    rw [List.drop_eq_getElem_cons hlt, List.take_succ_cons, List.take_zero, hx]
  rw [List.take_left, hone, List.drop_append, List.drop_of_length_le (Nat.le_add_right _ _),
    List.nil_append, List.drop_replicate] at hrows
  have hk : k + 1 - (done.length + 1 - done.length) = k := by omega
  rw [hk] at hrows
  exact ⟨flat, hcopy, hrows⟩

/-- The first rows are overwritten by those behind them, and the array shrinks. -/
theorem Holds.shift (e : ε) (x : α) (h : Holds w flat rows) {j n : ℕ} (hn : j + n = rows.length) :
    ∃ flat', Rows.copy e flat (0 * w) flat (j * w) (n * w) = .ok flat' ∧
      Holds w (resize flat' (n * w) x) (rows.drop j) := by
  obtain ⟨flat', hcopy, hrows⟩ :=
    h.copy_front e h (j := j) (n := n) (by omega) (Nat.le_of_eq hn)
  have hall : (rows.drop j).take n = rows.drop j := by
    refine List.take_of_length_le ?_
    rw [List.length_drop]
    omega
  have hlen : (rows.drop j).length = n := by
    rw [List.length_drop]
    omega
  rw [hall] at hrows
  have hshrunk := hrows.resize_le x (n := n) (by
    rw [List.length_append, hlen]
    exact Nat.le_add_right _ _)
  rw [List.take_left' hlen] at hshrunk
  exact ⟨flat', hcopy, hshrunk⟩

/-! ### Rows -/

theorem Holds.row (h : Holds w flat rows) {r : ℕ} (hr : r < rows.length) :
    rows[r]? = some (Rows.row w flat r) := by
  have hone := ((h.drop r).take 1).eq
  rw [Nat.one_mul] at hone
  rw [Rows.row, hone, List.drop_eq_getElem_cons hr, List.take_succ_cons, List.take_zero,
    List.flatten_singleton]
  exact List.getElem?_eq_getElem hr

/-- The rows of an array are determined by it. -/
theorem Holds.eq_map_row (h : Holds w flat rows) :
    rows = (List.range rows.length).map (Rows.row w flat) := by
  refine List.ext_getElem? fun r => ?_
  rw [List.getElem?_map]
  rcases Nat.lt_or_ge r rows.length with hr | hr
  · rw [h.row hr, List.getElem?_range hr, Option.map_some]
  · have hrange : (List.range rows.length)[r]? = none :=
      List.getElem?_eq_none (by rw [List.length_range]; exact hr)
    rw [List.getElem?_eq_none hr, hrange, Option.map_none]

theorem holds_flatMap {γ : Type*} {f : γ → List α} {g : γ → List (List α)}
    (h : ∀ c, Holds w (f c) (g c)) (l : List γ) : Holds w (l.flatMap f) (l.flatMap g) := by
  induction l with
  | nil => exact holds_nil w
  | cons c l ih =>
    rw [List.flatMap_cons, List.flatMap_cons]
    exact (h c).append_rows ih

/-- An array of the right length holds its rows. -/
theorem holds_of_length {n : ℕ} (h : flat.length = n * w) :
    Holds w flat ((List.range n).map (Rows.row w flat)) := by
  induction n generalizing flat with
  | zero =>
    rw [Nat.zero_mul] at h
    rw [List.eq_nil_of_length_eq_zero h]
    exact holds_nil w
  | succ n ih =>
    have hlen : (flat.drop w).length = n * w := by
      rw [List.length_drop, h, Nat.succ_mul]
      omega
    have hrow : ∀ r, Rows.row w flat (r + 1) = Rows.row w (flat.drop w) r := by
      intro r
      rw [Rows.row, Rows.row, List.drop_drop, Nat.succ_mul, Nat.add_comm]
    have hhead : Rows.row w flat 0 = flat.take w := by
      rw [Rows.row, Nat.zero_mul, List.drop_zero]
    have hmap : (List.range (n + 1)).map (Rows.row w flat) =
        [flat.take w] ++ (List.range n).map (Rows.row w (flat.drop w)) := by
      rw [List.range_succ_eq_map, List.map_cons, List.map_map, hhead]
      exact congrArg _ (List.map_congr_left fun r _ => hrow r)
    have hfirst : Holds w (flat.take w) [flat.take w] := by
      refine ⟨List.flatten_singleton.symm, fun r hr => ?_⟩
      rw [List.mem_singleton.1 hr, List.length_take, h, Nat.succ_mul]
      omega
    rw [hmap]
    have happend := hfirst.append_rows (ih hlen)
    rwa [List.take_append_drop] at happend

end Rows
