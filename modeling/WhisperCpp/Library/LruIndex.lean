import WhisperCpp.Library.Lru
import Mathlib.Data.List.Nodup
import Mathlib.Data.Nat.Notation
import Mathlib.Logic.Function.Basic

/-!
# A list in the order of use, with an index

The nodes of a list stand in the order of their last use, the latest first. An index finds a node
by its key. Nodes have a number, so that one who holds a node can tell whether it is still there.

## Main definitions

* `LruIndex` — the list and the index
* `LruIndex.lookup`, `LruIndex.push`, `LruIndex.popBack`, `LruIndex.clear` — the operations
* `LruIndex.Sound` — the list and the index are in bijection

## Main results

* `sound_lookup`, `sound_push`, `sound_popBack`, `sound_clear` — the operations keep the bijection
* `Sound.key_of_lookup` — a node that is found has the key
-/

variable {κ α : Type*}

/-- A node of the list. -/
structure LruNode (κ α : Type*) where
  id : ℕ
  key : κ
  val : α

/-- The list, the index, and the number of the next node. -/
structure LruIndex (κ α : Type*) where
  lru : List (LruNode κ α)
  idx : κ → Option ℕ
  next : ℕ

namespace LruIndex

/-- No nodes. -/
def empty : LruIndex κ α := ⟨[], fun _ => none, 0⟩

/-- All nodes leave. -/
def clear (c : LruIndex κ α) : LruIndex κ α := { c with lru := [], idx := fun _ => none }

/-- The node with a number. -/
def node? (c : LruIndex κ α) (i : ℕ) : Option (LruNode κ α) := c.lru.find? (·.id == i)

/-- A node moves to the front. -/
def splice (c : LruIndex κ α) (i : ℕ) : LruIndex κ α :=
  match c.node? i with
  | none => c
  | some n => { c with lru := n :: c.lru.eraseP (·.id == i) }

/-- The number of the node with a key, which moves to the front. -/
def lookup (c : LruIndex κ α) (k : κ) : Option ℕ × LruIndex κ α :=
  match c.idx k with
  | none => (none, c)
  | some i => (some i, c.splice i)

variable [DecidableEq κ]

/-- The node at the back leaves. -/
def popBack (c : LruIndex κ α) : LruIndex κ α :=
  match c.lru.getLast? with
  | none => c
  | some n => { c with lru := c.lru.dropLast, idx := Function.update c.idx n.key none }

/-- A new node comes to the front. -/
def push (c : LruIndex κ α) (k : κ) (a : α) : LruIndex κ α where
  lru := ⟨c.next, k, a⟩ :: c.lru
  idx := Function.update c.idx k (some c.next)
  next := c.next + 1

/-- The list and the index are in bijection. -/
structure Sound (c : LruIndex κ α) : Prop where
  keys : (c.lru.map LruNode.key).Nodup
  ids : (c.lru.map LruNode.id).Nodup
  fresh : ∀ n ∈ c.lru, n.id < c.next
  index : ∀ k i, c.idx k = some i ↔ ∃ n ∈ c.lru, n.key = k ∧ n.id = i

variable {c : LruIndex κ α} {k : κ} {i : ℕ} {a : α}

omit [DecidableEq κ] in
theorem mem_of_node? {n : LruNode κ α} (h : c.node? i = some n) : n ∈ c.lru ∧ n.id = i :=
  ⟨List.mem_of_find?_eq_some h, by simpa using List.find?_some h⟩

omit [DecidableEq κ] in
theorem splice_perm (c : LruIndex κ α) (i : ℕ) : (c.splice i).lru.Perm c.lru := by
  rw [splice]
  cases hnode : c.node? i with
  | none => exact List.Perm.refl _
  | some n =>
    obtain ⟨front, back, hsplit, -, -, herase⟩ := Lru.find?_split hnode
    show (n :: c.lru.eraseP (·.id == i)).Perm c.lru
    rw [herase, hsplit]
    exact List.perm_middle.symm

omit [DecidableEq κ] in
@[simp] theorem splice_idx (c : LruIndex κ α) (i : ℕ) : (c.splice i).idx = c.idx := by
  rw [splice]
  cases c.node? i <;> rfl

omit [DecidableEq κ] in
@[simp] theorem splice_next (c : LruIndex κ α) (i : ℕ) : (c.splice i).next = c.next := by
  rw [splice]
  cases c.node? i <;> rfl

omit [DecidableEq κ] in
/-- A lookup keeps the nodes, the index and the numbers. -/
theorem lookup_keeps (c : LruIndex κ α) (k : κ) :
    (c.lookup k).2.lru.Perm c.lru ∧ (c.lookup k).2.idx = c.idx ∧ (c.lookup k).2.next = c.next := by
  rw [lookup]
  cases c.idx k with
  | none => exact ⟨List.Perm.refl _, rfl, rfl⟩
  | some i => exact ⟨c.splice_perm i, c.splice_idx i, c.splice_next i⟩

omit [DecidableEq κ] in
theorem lookup_fst (c : LruIndex κ α) (k : κ) : (c.lookup k).1 = c.idx k := by
  rw [lookup]
  cases c.idx k <;> rfl

/-- A node that leaves is one of the list, and the others keep their order. -/
theorem popBack_cases (c : LruIndex κ α) :
    (c.lru = [] ∧ c.popBack = c) ∨ ∃ front n, c.lru = front ++ [n] ∧
      c.popBack = { c with lru := front, idx := Function.update c.idx n.key none } := by
  obtain hnil | ⟨front, n, hsplit⟩ := List.eq_nil_or_concat c.lru
  · refine .inl ⟨hnil, ?_⟩
    rw [popBack, hnil, List.getLast?_nil]
  · rw [List.concat_eq_append] at hsplit
    refine .inr ⟨front, n, hsplit, ?_⟩
    rw [popBack, hsplit, List.getLast?_concat, List.dropLast_concat]

theorem popBack_subset (c : LruIndex κ α) : ∀ n ∈ c.popBack.lru, n ∈ c.lru := by
  intro n hn
  obtain ⟨-, heq⟩ | ⟨front, m, hsplit, heq⟩ := c.popBack_cases
  · rwa [heq] at hn
  · rw [heq] at hn
    rw [hsplit]
    exact List.mem_append_left _ hn

theorem popBack_next (c : LruIndex κ α) : c.popBack.next = c.next := by
  obtain ⟨-, heq⟩ | ⟨front, m, -, heq⟩ := c.popBack_cases <;> rw [heq]

theorem popBack_length (c : LruIndex κ α) : c.popBack.lru.length = c.lru.length - 1 := by
  obtain ⟨hnil, heq⟩ | ⟨front, m, hsplit, heq⟩ := c.popBack_cases
  · rw [heq, hnil]
    rfl
  · rw [heq, hsplit, List.length_append]
    rfl

/-! ### The bijection -/

omit [DecidableEq κ] in
theorem sound_empty : (empty : LruIndex κ α).Sound where
  keys := List.nodup_nil
  ids := List.nodup_nil
  fresh := fun n hn => nomatch hn
  index := fun k i => by simp [empty]

omit [DecidableEq κ] in
theorem sound_clear (c : LruIndex κ α) : c.clear.Sound where
  keys := List.nodup_nil
  ids := List.nodup_nil
  fresh := fun n hn => nomatch hn
  index := fun k i => by simp [clear]

omit [DecidableEq κ] in
/-- A key is in the index exactly if a node has it. -/
theorem Sound.idx_eq_none (h : c.Sound) : c.idx k = none ↔ ∀ n ∈ c.lru, n.key ≠ k := by
  constructor
  · intro hnone n hn hkey
    rw [(h.index k n.id).2 ⟨n, hn, hkey, rfl⟩] at hnone
    cases hnone
  · intro hkeys
    by_contra hne
    obtain ⟨i, hi⟩ := Option.ne_none_iff_exists'.1 hne
    obtain ⟨n, hn, hkey, -⟩ := (h.index k i).1 hi
    exact hkeys n hn hkey

omit [DecidableEq κ] in
theorem sound_lookup (h : c.Sound) (k : κ) : (c.lookup k).2.Sound := by
  obtain ⟨hperm, hidx, hnext⟩ := c.lookup_keeps k
  refine ⟨(hperm.map _).nodup_iff.2 h.keys, (hperm.map _).nodup_iff.2 h.ids, ?_, ?_⟩
  · intro n hn
    rw [hnext]
    exact h.fresh n (hperm.mem_iff.1 hn)
  · intro k' i
    rw [hidx, h.index]
    simp only [hperm.mem_iff]

omit [DecidableEq κ] in
/-- Every node with the number that a lookup gives has the key. -/
theorem Sound.key_of_lookup (h : c.Sound) (hlookup : (c.lookup k).1 = some i) :
    ∀ n ∈ c.lru, n.id = i → n.key = k := by
  intro n hn hid
  rw [lookup_fst] at hlookup
  obtain ⟨m, hm, hkey, hid'⟩ := (h.index k i).1 hlookup
  have hnm : n = m := List.inj_on_of_nodup_map h.ids hn hm (hid.trans hid'.symm)
  rw [hnm, hkey]

theorem sound_popBack (h : c.Sound) : c.popBack.Sound := by
  obtain ⟨-, heq⟩ | ⟨front, m, hsplit, heq⟩ := c.popBack_cases
  · rwa [heq]
  rw [heq]
  have hkeys := h.keys
  have hids := h.ids
  rw [hsplit, List.map_append] at hkeys hids
  have hout : ∀ n ∈ front, n.key ≠ m.key := fun n hn =>
    (List.nodup_append.1 hkeys).2.2 n.key (List.mem_map_of_mem hn) m.key (by simp)
  refine ⟨(List.nodup_append.1 hkeys).1, (List.nodup_append.1 hids).1, ?_, ?_⟩
  · intro n hn
    refine h.fresh n ?_
    rw [hsplit]
    exact List.mem_append_left _ hn
  · intro k i
    show Function.update c.idx m.key none k = some i ↔ ∃ n ∈ front, n.key = k ∧ n.id = i
    by_cases hk : k = m.key
    · rw [hk, Function.update_self]
      constructor
      · intro hnone
        cases hnone
      · rintro ⟨n, hn, hkey, -⟩
        exact absurd hkey (hout n hn)
    · rw [Function.update_of_ne hk, h.index]
      constructor
      · rintro ⟨n, hn, hkey, hid⟩
        rw [hsplit, List.mem_append, List.mem_singleton] at hn
        obtain hn | rfl := hn
        · exact ⟨n, hn, hkey, hid⟩
        · exact absurd hkey.symm hk
      · rintro ⟨n, hn, hkey, hid⟩
        refine ⟨n, ?_, hkey, hid⟩
        rw [hsplit]
        exact List.mem_append_left _ hn

theorem sound_push (h : c.Sound) (hk : ∀ n ∈ c.lru, n.key ≠ k) (a : α) : (c.push k a).Sound where
  keys := by
    refine List.nodup_cons.2 ⟨fun hmem => ?_, h.keys⟩
    obtain ⟨n, hn, hkey⟩ := List.mem_map.1 hmem
    exact hk n hn hkey
  ids := by
    refine List.nodup_cons.2 ⟨fun hmem => ?_, h.ids⟩
    obtain ⟨n, hn, hid⟩ := List.mem_map.1 hmem
    exact absurd hid (Nat.ne_of_lt (h.fresh n hn))
  fresh := by
    intro n hn
    obtain rfl | hn := List.mem_cons.1 hn
    · exact Nat.lt_succ_self _
    · exact Nat.lt_succ_of_lt (h.fresh n hn)
  index := by
    intro k' i
    show Function.update c.idx k (some c.next) k' = some i ↔
      ∃ n ∈ (⟨c.next, k, a⟩ : LruNode κ α) :: c.lru, n.key = k' ∧ n.id = i
    rw [List.exists_mem_cons_iff]
    by_cases hk' : k' = k
    · rw [hk', Function.update_self, Option.some_inj]
      refine ⟨fun hi => .inl ⟨rfl, hi⟩, ?_⟩
      rintro (⟨-, hi⟩ | ⟨n, hn, hkey, -⟩)
      · exact hi
      · exact absurd hkey (hk n hn)
    · rw [Function.update_of_ne hk', h.index]
      refine ⟨.inr, ?_⟩
      rintro (⟨hkey, -⟩ | hn)
      · exact absurd hkey.symm hk'
      · exact hn

end LruIndex
