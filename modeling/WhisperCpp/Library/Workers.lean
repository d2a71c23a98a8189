import Mathlib.Data.List.Perm.Basic
import Mathlib.Data.List.Nodup
import Mathlib.Data.Nat.ModEq
import Mathlib.Logic.Function.Basic
import Mathlib.Tactic.SplitIfs

/-!
# Workers that stride over a range

With `t + 1` workers, worker `i` takes every `t + 1`-st number from `i` on, or each takes a block.
Either way they take each number once. Where every write goes to a cell of its own, the order of the
writes does not matter.

## Main definitions

* `Workers.stride`, `Workers.stop` — what a worker takes below a bound, and where it stands then
* `Workers.store` — writes to a memory

## Main results

* `stride_append` — a bound in between
* `flatMap_stride_perm`, `flatMap_parts` — the workers take each number once
* `store_perm` — writes to distinct cells in any order
-/

namespace Workers

/-- `for (; i < n; i += t + 1)`. -/
def stride (t n i : ℕ) : List ℕ :=
  if i < n then i :: stride t n (i + (t + 1)) else []
termination_by n - i

/-- The number at which this loop ends. -/
def stop (t n i : ℕ) : ℕ :=
  if i < n then stop t n (i + (t + 1)) else i
termination_by n - i

variable {t n i k b : ℕ}

/-- A loop with a larger bound goes on where the one with the smaller bound ends. -/
theorem stride_append (h : b ≤ n) : stride t n i = stride t b i ++ stride t n (stop t b i) := by
  fun_induction stop t b i with
  | case1 i hi ih =>
    rw [stride, if_pos (by omega), ih, stride.eq_1 t b i, if_pos hi, List.cons_append]
  | case2 i hi => rw [stride.eq_1 t b i, if_neg hi, List.nil_append]

theorem le_stop : n ≤ stop t n i := by
  fun_induction stop t n i with
  | case1 i hi ih => exact ih
  | case2 i hi => exact Nat.not_lt.1 hi

theorem mem_stride : k ∈ stride t n i ↔ i ≤ k ∧ k < n ∧ k % (t + 1) = i % (t + 1) := by
  fun_induction stride t n i with
  | case1 i hi ih =>
    rw [List.mem_cons, ih, Nat.add_mod_right]
    constructor
    · rintro (rfl | ⟨hle, hlt, hmod⟩)
      · exact ⟨le_rfl, hi, rfl⟩
      · exact ⟨by omega, hlt, hmod⟩
    · rintro ⟨hle, hlt, hmod⟩
      obtain rfl | hgt := Nat.eq_or_lt_of_le hle
      · exact .inl rfl
      · refine .inr ⟨?_, hlt, hmod⟩
        -- two numbers with the same remainder are at least `t + 1` apart
        have hdvd : t + 1 ∣ k - i := (Nat.modEq_iff_dvd' hle).1 hmod.symm
        have := Nat.le_of_dvd (by omega) hdvd
        omega
  | case2 i hi =>
    refine ⟨nofun, fun h => ?_⟩
    omega

theorem pairwise_stride : (stride t n i).Pairwise (· < ·) := by
  fun_induction stride t n i with
  | case1 i hi ih =>
    refine List.pairwise_cons.2 ⟨fun k hk => ?_, ih⟩
    have := (mem_stride.1 hk).1
    omega
  | case2 i hi => exact List.Pairwise.nil

/-- **Together the workers take each number once.** -/
theorem flatMap_stride_perm : ((List.range (t + 1)).flatMap (stride t n)).Perm (List.range n) := by
  rw [List.perm_ext_iff_of_nodup ?_ List.nodup_range]
  · intro k
    rw [List.mem_flatMap, List.mem_range]
    constructor
    · rintro ⟨i, -, hk⟩
      exact (mem_stride.1 hk).2.1
    · intro hk
      refine ⟨k % (t + 1), List.mem_range.2 (Nat.mod_lt _ t.succ_pos), mem_stride.2 ⟨?_, hk, ?_⟩⟩
      · exact Nat.mod_le _ _
      · rw [Nat.mod_mod]
  · rw [List.nodup_flatMap]
    refine ⟨fun i _ => pairwise_stride.imp fun h => Nat.ne_of_lt h, ?_⟩
    refine List.nodup_range.imp_of_mem fun {i j} hi hj hne k hki hkj => hne ?_
    have hmodi := (mem_stride.1 hki).2.2
    have hmodj := (mem_stride.1 hkj).2.2
    rw [Nat.mod_eq_of_lt (List.mem_range.1 hi)] at hmodi
    rw [Nat.mod_eq_of_lt (List.mem_range.1 hj)] at hmodj
    exact hmodi.symm.trans hmodj

/-! ### Blocks -/

/-- **Workers that take one block each, from where the last one ends, take each number once.** -/
theorem flatMap_blocks {f : ℕ → ℕ} (hf : Monotone f) (n : ℕ) :
    ((List.range n).flatMap fun i => List.range' (f i) (f (i + 1) - f i)) =
      List.range' (f 0) (f n - f 0) := by
  induction n with
  | zero => simp
  | succ n ih =>
    have h0 : f 0 ≤ f n := hf n.zero_le
    have h1 : f n ≤ f (n + 1) := hf n.le_succ
    have hstart : f n = f 0 + (f n - f 0) := by omega
    rw [List.range_succ, List.flatMap_append, ih, List.flatMap_singleton]
    nth_rewrite 2 [hstart]
    rw [List.range'_append_1]
    congr 1
    omega

/-- The blocks of a range, cut into `t` parts. -/
theorem flatMap_parts (ht : 0 < t) (n : ℕ) :
    ((List.range t).flatMap fun i => List.range' (n * i / t) (n * (i + 1) / t - n * i / t)) =
      List.range n := by
  have hmono : Monotone fun i => n * i / t := fun i j h => Nat.div_le_div_right (Nat.mul_le_mul_left n h)
  have hblocks := flatMap_blocks hmono t
  simp only [Nat.mul_zero, Nat.zero_div, Nat.sub_zero, Nat.mul_div_cancel _ ht] at hblocks
  rw [hblocks, List.range_eq_range']

/-! ### Writes -/

section Store

variable {β : Type*} {l l' : List (ℕ × β)} {mem : ℕ → β} {a : ℕ} {v : β}

/-- Writes, one after the other. -/
def store (l : List (ℕ × β)) (mem : ℕ → β) : ℕ → β :=
  l.foldl (fun mem w => Function.update mem w.1 w.2) mem

theorem store_of_not_mem (h : a ∉ l.map Prod.fst) : store l mem a = mem a := by
  induction l generalizing mem with
  | nil => rfl
  | cons w l ih =>
    rw [List.map_cons, List.mem_cons, not_or] at h
    exact (ih h.2).trans (Function.update_of_ne h.1 _ _)

theorem store_of_mem (hl : (l.map Prod.fst).Nodup) (h : (a, v) ∈ l) : store l mem a = v := by
  induction l generalizing mem with
  | nil => exact absurd h List.not_mem_nil
  | cons w l ih =>
    rw [List.map_cons, List.nodup_cons] at hl
    obtain rfl | hmem := List.mem_cons.1 h
    · exact (store_of_not_mem hl.1).trans (Function.update_self _ _ _)
    · exact ih hl.2 hmem

/-- **Writes to distinct cells can be done in any order.** -/
theorem store_perm (hl : (l.map Prod.fst).Nodup) (h : l.Perm l') : store l mem = store l' mem := by
  have hl' : (l'.map Prod.fst).Nodup := (h.map Prod.fst).nodup_iff.1 hl
  funext a
  by_cases ha : a ∈ l.map Prod.fst
  · obtain ⟨⟨a, v⟩, hmem, rfl⟩ := List.mem_map.1 ha
    rw [store_of_mem hl hmem, store_of_mem hl' (h.subset hmem)]
  · rw [store_of_not_mem ha, store_of_not_mem fun ha' => ha ((h.map Prod.fst).symm.subset ha')]

end Store

end Workers
