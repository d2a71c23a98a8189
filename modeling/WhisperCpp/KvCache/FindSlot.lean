import WhisperCpp.KvCache.Slots

/-!
# The slot search for any batch

`whisper_decode_internal` hands batches to `whisper_kv_cache_find_slot` in which every token has one
sequence. The function itself takes any batch: a token has `n_seq_id` sequences, and the cell of the
token gets them all. The search is the same one, `findSlotLoop`.

The size of a cache is an `int` in `whisper_kv_cache_init` and so is the number of tokens of a batch,
so `cache.head + n_tokens` and `n_tested` do not leave `uint32_t` and are plain numbers here. The
loop of the search has no bound of its own; that it ends is the termination proof of
`findSlotLoop`.

## Main definitions

* `BatchRow`, `enterRows`, `findSlotRows` — batches with any number of sequences for a token
* `SlotTaken` — what a successful search does

## Main results

* `findSlotRows_spec` — when the search succeeds, and what it changes
-/

namespace WhisperCpp

/-- One token of a `whisper_batch`, with all of its sequence ids. -/
structure BatchRow where
  token : ℕ
  pos : ℤ
  seqIds : List ℕ

/-- A token with one sequence. -/
def BatchEntry.row (e : BatchEntry) : BatchRow := ⟨e.token, e.pos, [e.seqId]⟩

namespace KvCache

/-- The tags of a cell after the inner loop of the last loop of `whisper_kv_cache_find_slot`. -/
def insertSeqs (seqId : Finset ℕ) (seqIds : List ℕ) : Finset ℕ :=
  seqIds.foldl (fun ids seq => insert seq ids) seqId

/-- The last loop of `whisper_kv_cache_find_slot`. -/
def enterRows : (ℕ → Cell) → ℕ → List BatchRow → ℕ → Cell
  | cells, _, [] => cells
  | cells, head, r :: batch =>
    enterRows
      (Function.update cells head ⟨r.pos, insertSeqs (cells head).seqId r.seqIds, r.token⟩)
      (head + 1) batch

/-- `whisper_kv_cache_find_slot`. -/
def findSlotRows (c : KvCache) (batch : List BatchRow) : KvCache × Bool :=
  if h : batch.length ≤ c.size then
    match findSlotLoop c.cells c.size batch.length h c.head 0 with
    | (head, true) => ({ c with head := head, cells := enterRows c.cells head batch }, true)
    | (head, false) => ({ c with head := head }, false)
  else (c, false)

section Rows

variable {c : KvCache} {batch : List BatchRow} {cells : ℕ → Cell} {head : ℕ}

theorem insertSeqs_eq (seqId : Finset ℕ) (seqIds : List ℕ) :
    insertSeqs seqId seqIds = seqId ∪ seqIds.toFinset := by
  induction seqIds generalizing seqId with
  | nil => simp [insertSeqs]
  | cons seq seqIds ih =>
    have hfold : insertSeqs seqId (seq :: seqIds) = insertSeqs (insert seq seqId) seqIds := rfl
    rw [hfold, ih, List.toFinset_cons, Finset.insert_union, Finset.union_insert]

theorem enterRows_of_notMem {i : ℕ} (hi : i < head ∨ head + batch.length ≤ i) :
    enterRows cells head batch i = cells i := by
  induction batch generalizing cells head with
  | nil => rfl
  | cons r batch ih =>
    rw [List.length_cons] at hi
    rw [enterRows, ih (by omega), Function.update_of_ne (by omega)]

/-- The cell that row `k` of the batch enters. -/
theorem enterRows_add {k : ℕ} (hk : k < batch.length) :
    enterRows cells head batch (head + k) =
      ⟨batch[k].pos, (cells (head + k)).seqId ∪ batch[k].seqIds.toFinset, batch[k].token⟩ := by
  induction batch generalizing cells head k with
  | nil => simp at hk
  | cons r batch ih =>
    cases k with
    | zero =>
      rw [enterRows, enterRows_of_notMem (.inl (by omega)), Nat.add_zero, Function.update_self,
        insertSeqs_eq]
      rfl
    | succ k =>
      rw [enterRows, show head + (k + 1) = head + 1 + k by omega, ih (by simpa using hk),
        Function.update_of_ne (by omega)]
      rfl

/-- Batches with one sequence for every token enter as before. -/
theorem enterRows_row (entries : List BatchEntry) :
    enterRows cells head (entries.map BatchEntry.row) = enter cells head entries := by
  induction entries generalizing cells head with
  | nil => rfl
  | cons e entries ih =>
    rw [List.map_cons, enterRows, enter, ih]
    rfl

/-- The search that `whisper_decode_internal` makes is this one. -/
theorem findSlotRows_row (c : KvCache) (entries : List BatchEntry) :
    c.findSlotRows (entries.map BatchEntry.row) = c.findSlot entries := by
  rw [findSlotRows, findSlot]
  simp only [List.length_map, enterRows_row] <;> rfl

/-- What a successful search does: the batch enters the cells from the new head on, and nothing
else changes. -/
structure SlotTaken (c : KvCache) (batch : List BatchRow) (c' : KvCache) : Prop where
  fits : c'.head + batch.length ≤ c.size
  free : FreeWindow c.cells c'.head batch.length
  pos_eq : ∀ k (hk : k < batch.length), (c'.cells (c'.head + k)).pos = batch[k].pos
  seqId_eq : ∀ k (hk : k < batch.length), (c'.cells (c'.head + k)).seqId =
    (c.cells (c'.head + k)).seqId ∪ batch[k].seqIds.toFinset
  /-- A free cell without tags has exactly those of its token afterwards. -/
  seqId_eq_of_empty : ∀ k (hk : k < batch.length), (c.cells (c'.head + k)).seqId = ∅ →
    (c'.cells (c'.head + k)).seqId = batch[k].seqIds.toFinset
  frame : ∀ i, i < c'.head ∨ c'.head + batch.length ≤ i → c'.cells i = c.cells i
  size_eq : c'.size = c.size
  n_eq : c'.n = c.n

/-- The batch in a free window. -/
theorem slotTaken_enterRows (hfits : head + batch.length ≤ c.size)
    (hfree : FreeWindow c.cells head batch.length) :
    SlotTaken c batch { c with head := head, cells := enterRows c.cells head batch } where
  fits := hfits
  free := hfree
  pos_eq k hk := by simp only [enterRows_add hk]
  seqId_eq k hk := by simp only [enterRows_add hk]
  seqId_eq_of_empty k hk hempty := by
    simp only at hempty ⊢
    rw [enterRows_add hk, hempty, Finset.empty_union]
  frame i hi := enterRows_of_notMem hi
  size_eq := rfl
  n_eq := rfl

theorem findSlotRows_taken (h : (c.findSlotRows batch).2 = true) :
    SlotTaken c batch (c.findSlotRows batch).1 := by
  rw [findSlotRows] at h ⊢
  split at h
  · rename_i hle
    have hfree := @findSlotLoop_free c.cells c.size batch.length c.head 0 hle
    rw [dif_pos hle]
    rcases hl : findSlotLoop c.cells c.size batch.length hle c.head 0 with ⟨head, _ | _⟩
    · rw [hl] at h
      cases h
    · rw [hl] at hfree
      obtain ⟨hin, hwin⟩ := hfree rfl
      exact slotTaken_enterRows hin hwin
  · cases h

/-- A search that fails leaves the cells as they are. -/
theorem findSlotRows_fail (h : (c.findSlotRows batch).2 = false) :
    (c.findSlotRows batch).1.cells = c.cells := by
  rw [findSlotRows] at h ⊢
  split at h
  · rename_i hle
    rw [dif_pos hle]
    rcases hl : findSlotLoop c.cells c.size batch.length hle c.head 0 with ⟨head, _ | _⟩
    · rfl
    · rw [hl] at h
      cases h
  · rename_i hle
    rw [dif_neg hle]

/-- A free window anywhere in the cache is enough. -/
theorem findSlotRows_complete {w : ℕ} (hc : c.head ≤ c.size) (hw : w + batch.length ≤ c.size)
    (hfree : FreeWindow c.cells w batch.length) : (c.findSlotRows batch).2 = true := by
  have hle : batch.length ≤ c.size := by omega
  have hfound := @findSlotLoop_complete c.cells c.size batch.length c.head c.head 0 w hle hc hw
    hfree (.inl ⟨rfl, fun w h1 h2 => absurd h1 (by omega)⟩)
  rw [findSlotRows, dif_pos hle]
  rcases hl : findSlotLoop c.cells c.size batch.length hle c.head 0 with ⟨head, _ | _⟩
  · rw [hl] at hfound
    cases hfound
  · rfl

end Rows

/-- **The slot search is exact.** Whatever cells are taken and wherever the head stands, it succeeds
iff as many contiguous cells as the batch has tokens are free somewhere in the cache. Then the head
is the start of such a run, and these cells and no others have been assigned the positions and the
sequences of the batch. When it fails, no cell has changed. -/
theorem findSlotRows_spec (c : KvCache) (batch : List BatchRow) (hc : c.head ≤ c.size) :
    ((c.findSlotRows batch).2 = true ↔
      ∃ w, w + batch.length ≤ c.size ∧ FreeWindow c.cells w batch.length) ∧
    ((c.findSlotRows batch).2 = true → SlotTaken c batch (c.findSlotRows batch).1) ∧
    ((c.findSlotRows batch).2 = false → (c.findSlotRows batch).1.cells = c.cells) := by
  refine ⟨⟨fun h => ?_, ?_⟩, findSlotRows_taken, findSlotRows_fail⟩
  · have htaken := findSlotRows_taken h
    exact ⟨_, htaken.fits, htaken.free⟩
  · rintro ⟨w, hw, hfree⟩
    exact findSlotRows_complete hc hw hfree

/-- Four cells, the second of them taken, and the head behind the first free run. -/
def gapCache : KvCache := ⟨3, 4, 0, fun i => if i = 1 then ⟨7, {0}, 0⟩ else Cell.free⟩

/-- Two tokens, the first of them of two sequences. -/
def forkBatch : List BatchRow := [⟨10, 8, [0, 1]⟩, ⟨11, 9, [0]⟩]

theorem findSlotRows_spec_gap : SlotTaken gapCache forkBatch (gapCache.findSlotRows forkBatch).1 := by
  have hspec := findSlotRows_spec gapCache forkBatch (by decide)
  refine hspec.2.1 (hspec.1.mpr ⟨2, by decide, ?_⟩)
  show ∀ i < 2, (gapCache.cells (2 + i)).pos < 0
  decide

end KvCache

end WhisperCpp
