import Mathlib.Data.Finset.Basic
import Mathlib.Data.Int.Notation
import Mathlib.Logic.Function.Basic
import Mathlib.Order.Interval.Finset.Nat

/-!
# The self-attention KV cache

`whisper_kv_cache` keeps, for every row of the key and value tensors, the position of the token the
row was computed for and the set of sequences that may attend to it. The operations below are the
ones of the source: the contiguous slot search, copying and removing the tag of a sequence,
clearing, and the attention mask of a batch.

The rows themselves are floating point data. A cell of the model remembers instead the token its
row was last written for (`Cell.token`), which no operation reads: it is there to state that a
sequence finds its own tokens.

## Main definitions

* `KvCache`, `KvCache.findSlot`, `KvCache.seqRm`, `KvCache.seqCp`, `KvCache.clear`
* `KvCache.reserve` — the slot search as `whisper_decode_internal` uses it
* `KvCache.Attends` — the attention mask
-/

namespace WhisperCpp

/-- `whisper_kv_cell`, with the token its key and value rows were written for. -/
structure Cell where
  pos : ℤ
  seqId : Finset ℕ
  token : ℕ

/-- `whisper_kv_cache`. Cells from `size` on do not exist in the source and are never read. -/
structure KvCache where
  head : ℕ
  size : ℕ
  /-- How many cells the graph of the current batch reads. -/
  n : ℕ
  cells : ℕ → Cell

/-- One token of a `whisper_batch`. The source keeps a list of sequence ids per token, "always 1,
here for consistency with llama.cpp". -/
structure BatchEntry where
  token : ℕ
  pos : ℤ
  seqId : ℕ
  /-- Whether the logits of this token are read back. -/
  logits : Bool
  deriving DecidableEq, Repr

/-- The largest `whisper_pos`. -/
def posMax : ℤ := 2147483647

/-- `whisper_batch_prep_legacy`: consecutive tokens of one sequence, logits for the last. -/
def batchPrepLegacy (tokens : List ℕ) (nPast : ℤ) (seqId : ℕ) : List BatchEntry :=
  tokens.zipIdx.map fun e => ⟨e.1, nPast + e.2, seqId, e.2 + 1 = tokens.length⟩

namespace Cell

/-- A cell as `std::vector::resize` makes it. -/
def free : Cell := ⟨-1, ∅, 0⟩

/-- Whether `whisper_kv_cache_seq_rm` touches the cell. No sequence id stands for a negative one,
which removes every tag. -/
def Selected (seq : Option ℕ) (p0 p1 : ℤ) (cell : Cell) : Prop :=
  p0 ≤ cell.pos ∧ cell.pos < p1 ∧ ∀ s ∈ seq, s ∈ cell.seqId

instance (seq : Option ℕ) (p0 p1 : ℤ) (cell : Cell) : Decidable (cell.Selected seq p0 p1) :=
  inferInstanceAs (Decidable (_ ∧ _ ∧ _))

/-- The tags that `whisper_kv_cache_seq_rm` leaves on a cell it touches. -/
def tagsLeft (seq : Option ℕ) (cell : Cell) : Finset ℕ := seq.elim ∅ cell.seqId.erase

/-- The body of the loop of `whisper_kv_cache_seq_rm`. -/
def seqRm (seq : Option ℕ) (p0 p1 : ℤ) (cell : Cell) : Cell :=
  if cell.Selected seq p0 p1 then
    { cell with
      pos := if cell.tagsLeft seq = ∅ then -1 else cell.pos
      seqId := cell.tagsLeft seq }
  else cell

/-- The body of the loop of `whisper_kv_cache_seq_cp`. -/
def seqCp (src dst : ℕ) (p0 p1 : ℤ) (cell : Cell) : Cell :=
  if src ∈ cell.seqId ∧ p0 ≤ cell.pos ∧ cell.pos < p1 then
    { cell with seqId := insert dst cell.seqId }
  else cell

end Cell

namespace KvCache

/-- `whisper_kv_cache_init`. -/
def init (c : KvCache) (nCtx : ℕ) : KvCache :=
  { c with head := 0, size := nCtx, cells := fun _ => Cell.free }

/-- The inner loop of the slot search: the first of the `nTokens` cells from `head` on that is
taken. -/
def firstTaken (cells : ℕ → Cell) (head nTokens : ℕ) : Option ℕ :=
  (List.range nTokens).find? fun i => 0 ≤ (cells (head + i)).pos

/-- The outer loop of `whisper_kv_cache_find_slot`: the head it leaves, and whether the cells from
there on are free. -/
def findSlotLoop (cells : ℕ → Cell) (nCtx nTokens : ℕ) (h : nTokens ≤ nCtx) (head nTested : ℕ) :
    ℕ × Bool :=
  if nCtx < head + nTokens then
    findSlotLoop cells nCtx nTokens h 0 (nTested + (nCtx - head))
  else
    match firstTaken cells head nTokens with
    | none => (head, true)
    | some i =>
      if nCtx ≤ nTested + (i + 1) then (head + (i + 1), false)
      else findSlotLoop cells nCtx nTokens h (head + (i + 1)) (nTested + (i + 1))
termination_by (nCtx - nTested, head)
decreasing_by
  · rw [Prod.lex_def]
    omega
  · exact Prod.Lex.left _ _ (by omega)

/-- The last loop of `whisper_kv_cache_find_slot`: the batch enters the cells from `head` on. -/
def enter : (ℕ → Cell) → ℕ → List BatchEntry → ℕ → Cell
  | cells, _, [] => cells
  | cells, head, e :: batch =>
    enter (Function.update cells head ⟨e.pos, insert e.seqId (cells head).seqId, e.token⟩)
      (head + 1) batch

/-- `whisper_kv_cache_find_slot`: the cache it leaves and what it returns. -/
def findSlot (c : KvCache) (batch : List BatchEntry) : KvCache × Bool :=
  if h : batch.length ≤ c.size then
    match findSlotLoop c.cells c.size batch.length h c.head 0 with
    | (head, true) => ({ c with head := head, cells := enter c.cells head batch }, true)
    | (head, false) => ({ c with head := head }, false)
  else (c, false)

/-- The loop of `whisper_kv_cache_cell_max`, from cell `i` down. -/
def cellMaxFrom (cells : ℕ → Cell) : ℕ → ℕ
  | 0 => 1
  | i + 1 =>
    if 0 ≤ (cells (i + 1)).pos ∧ (cells (i + 1)).seqId.Nonempty then i + 2
    else cellMaxFrom cells i

/-- `whisper_kv_cache_cell_max`. -/
def cellMax (c : KvCache) : ℕ := cellMaxFrom c.cells (c.size - 1)

/-- `whisper_kv_cache_clear`. -/
def clear (c : KvCache) : KvCache :=
  { c with
    head := 0
    cells := fun i => if i < c.size then { c.cells i with pos := -1, seqId := ∅ } else c.cells i }

/-- The lower end of a range of positions: negative means from the start. -/
def fromPos (p0 : ℤ) : ℤ := if p0 < 0 then 0 else p0

/-- The upper end of a range of positions: negative means to the end. -/
def toPos (p1 : ℤ) : ℤ := if p1 < 0 then posMax else p1

/-- `whisper_kv_cache_seq_rm`. The head moves to the first cell that becomes free. -/
def seqRm (c : KvCache) (seq : Option ℕ) (p0 p1 : ℤ) : KvCache :=
  { c with
    head := ((List.range c.size).find? fun i =>
      (c.cells i).Selected seq (fromPos p0) (toPos p1) ∧ (c.cells i).tagsLeft seq = ∅).getD c.head
    cells := fun i =>
      if i < c.size then (c.cells i).seqRm seq (fromPos p0) (toPos p1) else c.cells i }

/-- `whisper_kv_cache_seq_cp`. -/
def seqCp (c : KvCache) (src dst : ℕ) (p0 p1 : ℤ) : KvCache :=
  { c with
    head := 0
    cells := fun i =>
      if i < c.size then (c.cells i).seqCp src dst (fromPos p0) (toPos p1) else c.cells i }

/-- `GGML_PAD`: the next multiple of `n`. -/
def ggmlPad (x n : ℕ) : ℕ := (x + n - 1) / n * n

/-- The first part of `whisper_decode_internal`: find a slot for the batch, then choose how many
cells its graph reads. -/
def reserve (pad : ℕ) (c : KvCache) (batch : List BatchEntry) : KvCache × Bool :=
  match c.findSlot batch with
  | (c', false) => (c', false)
  | (c', true) => ({ c' with n := min c'.size (max pad (ggmlPad c'.cellMax pad)) }, true)

/-- The attention mask of `whisper_decode_internal`: batch token `e` may attend to cell `i`. -/
def Attends (c : KvCache) (e : BatchEntry) (i : ℕ) : Prop :=
  i < c.n ∧ e.seqId ∈ (c.cells i).seqId ∧ (c.cells i).pos ≤ e.pos

instance (c : KvCache) (e : BatchEntry) (i : ℕ) : Decidable (c.Attends e i) :=
  inferInstanceAs (Decidable (_ ∧ _ ∧ _))

/-! ### Small lemmas about the operations -/

@[simp] theorem size_init (c : KvCache) (nCtx : ℕ) : (c.init nCtx).size = nCtx := rfl
@[simp] theorem size_clear (c : KvCache) : c.clear.size = c.size := rfl
@[simp] theorem size_seqRm (c : KvCache) (seq : Option ℕ) (p0 p1 : ℤ) :
    (c.seqRm seq p0 p1).size = c.size := rfl
@[simp] theorem size_seqCp (c : KvCache) (src dst : ℕ) (p0 p1 : ℤ) :
    (c.seqCp src dst p0 p1).size = c.size := rfl

@[simp] theorem size_findSlot (c : KvCache) (batch : List BatchEntry) :
    (c.findSlot batch).1.size = c.size := by
  rw [findSlot]
  split
  · split <;> rfl
  · rfl

theorem cells_clear {c : KvCache} {i : ℕ} (hi : i < c.size) :
    c.clear.cells i = { c.cells i with pos := -1, seqId := ∅ } := if_pos hi

theorem cells_seqRm {c : KvCache} {seq : Option ℕ} {p0 p1 : ℤ} {i : ℕ} (hi : i < c.size) :
    (c.seqRm seq p0 p1).cells i = (c.cells i).seqRm seq (fromPos p0) (toPos p1) := if_pos hi

theorem cells_seqCp {c : KvCache} {src dst : ℕ} {p0 p1 : ℤ} {i : ℕ} (hi : i < c.size) :
    (c.seqCp src dst p0 p1).cells i = (c.cells i).seqCp src dst (fromPos p0) (toPos p1) :=
  if_pos hi

theorem fromPos_nonneg (p0 : ℤ) : 0 ≤ fromPos p0 := by
  rw [fromPos]
  split <;> omega

theorem reserve_fst_cells (pad : ℕ) (c : KvCache) (batch : List BatchEntry) :
    (c.reserve pad batch).1.cells = (c.findSlot batch).1.cells := by
  rw [reserve]
  split <;> simp_all

theorem reserve_snd (pad : ℕ) (c : KvCache) (batch : List BatchEntry) :
    (c.reserve pad batch).2 = (c.findSlot batch).2 := by
  rw [reserve]
  split <;> simp_all

@[simp] theorem size_reserve (pad : ℕ) (c : KvCache) (batch : List BatchEntry) :
    (c.reserve pad batch).1.size = c.size := by
  rw [← size_findSlot c batch]
  rw [reserve]
  split <;> simp_all

theorem reserve_fst_head (pad : ℕ) (c : KvCache) (batch : List BatchEntry) :
    (c.reserve pad batch).1.head = (c.findSlot batch).1.head := by
  rw [reserve]
  split <;> simp_all

theorem le_ggmlPad {x n : ℕ} (hn : 0 < n) : x ≤ ggmlPad x n := by
  have := Nat.lt_div_mul_add (a := x + n - 1) hn
  rw [ggmlPad]
  omega

theorem lt_cellMaxFrom {cells : ℕ → Cell} {i k : ℕ} (hik : i ≤ k) (hpos : 0 ≤ (cells i).pos)
    (hseq : (cells i).seqId.Nonempty) : i < cellMaxFrom cells k := by
  induction k with
  | zero => rw [Nat.le_zero.mp hik]; exact Nat.one_pos
  | succ k ih =>
    rw [cellMaxFrom]
    split
    · omega
    · rename_i hk
      have hne : i ≠ k + 1 := by
        rintro rfl
        exact hk ⟨hpos, hseq⟩
      exact ih (by omega)

/-- The graph of a batch reads every cell in use. -/
theorem lt_n_reserve {pad : ℕ} (hpad : 0 < pad) {c : KvCache} {batch : List BatchEntry}
    (h : (c.findSlot batch).2 = true) {i : ℕ} (hi : i < c.size)
    (hpos : 0 ≤ ((c.findSlot batch).1.cells i).pos)
    (hseq : ((c.findSlot batch).1.cells i).seqId.Nonempty) :
    i < (c.reserve pad batch).1.n := by
  have hsize := size_findSlot c batch
  rw [reserve]
  rcases hf : c.findSlot batch with ⟨c', _ | _⟩
  · rw [hf] at h; cases h
  · rw [hf] at hpos hseq hsize
    have hmax : i < c'.cellMax := lt_cellMaxFrom (by simp only at hsize; omega) hpos hseq
    have := le_ggmlPad (x := c'.cellMax) hpad
    show i < min c'.size (max pad (ggmlPad c'.cellMax pad))
    simp only at hsize
    omega

end KvCache

end WhisperCpp
