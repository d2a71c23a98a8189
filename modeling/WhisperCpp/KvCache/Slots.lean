import WhisperCpp.KvCache.Cache
import WhisperCpp.Library.Windows

/-!
# The slot search

`whisper_kv_cache_find_slot` looks for contiguous free cells, first from the head to the end of
the cache, then from the beginning. It stops as soon as as many cells have been tested as there
are, which is before every start has been tried a second time but not before every start has been
tried once: where a free window exists, it finds one.

## Main results

* `findSlot_complete` — a free window is found wherever it is
* `findSlot_eq` — what the cache is after a successful search
* `Valid.run` — every sequence of operations keeps the cells valid
-/

namespace WhisperCpp

namespace KvCache

/-- The `n` cells from `head` on are free, in the sense of the test of the search. -/
def FreeWindow (cells : ℕ → Cell) (head n : ℕ) : Prop := ∀ i < n, (cells (head + i)).pos < 0

theorem firstTaken_eq_none {cells : ℕ → Cell} {head n : ℕ} :
    firstTaken cells head n = none ↔ FreeWindow cells head n := by
  simp [firstTaken, FreeWindow]

theorem lt_of_firstTaken {cells : ℕ → Cell} {head n i : ℕ} (h : firstTaken cells head n = some i) :
    i < n ∧ 0 ≤ (cells (head + i)).pos := by
  refine ⟨List.mem_range.mp (List.mem_of_find?_eq_some h), ?_⟩
  simpa using List.find?_some h

/-- A window is not free if it reaches a cell that the search found taken. -/
theorem not_freeWindow {cells : ℕ → Cell} {head n i w : ℕ}
    (h : firstTaken cells head n = some i) (hw : head ≤ w) (hwi : w ≤ head + i) :
    ¬ FreeWindow cells w n := by
  intro hfree
  obtain ⟨hi, hpos⟩ := lt_of_firstTaken h
  have := hfree (head + i - w) (by omega)
  rw [show w + (head + i - w) = head + i by omega] at this
  omega

theorem findSlotLoop_fst_le {cells : ℕ → Cell} {nCtx n head nTested : ℕ} (h : n ≤ nCtx)
    (hhead : head ≤ nCtx) : (findSlotLoop cells nCtx n h head nTested).1 ≤ nCtx := by
  induction head, nTested using findSlotLoop.induct cells nCtx n h with
  | case1 head nTested hwrap ih =>
    rw [findSlotLoop, if_pos hwrap]
    exact ih (Nat.zero_le _)
  | case2 head nTested hwrap hnone =>
    rw [findSlotLoop, if_neg hwrap, hnone]
    exact hhead
  | case3 head nTested hwrap i hi hfull =>
    have := (lt_of_firstTaken hi).1
    rw [findSlotLoop, if_neg hwrap, hi]
    simp only [if_pos hfull]
    omega
  | case4 head nTested hwrap i hi hfull ih =>
    have := (lt_of_firstTaken hi).1
    rw [findSlotLoop, if_neg hwrap, hi]
    simp only [if_neg hfull]
    exact ih (by omega)

/-- What the search returns is a free window inside the cache. -/
theorem findSlotLoop_free {cells : ℕ → Cell} {nCtx n head nTested : ℕ} (h : n ≤ nCtx)
    (hfound : (findSlotLoop cells nCtx n h head nTested).2 = true) :
    (findSlotLoop cells nCtx n h head nTested).1 + n ≤ nCtx ∧
      FreeWindow cells (findSlotLoop cells nCtx n h head nTested).1 n := by
  induction head, nTested using findSlotLoop.induct cells nCtx n h with
  | case1 head nTested hwrap ih =>
    rw [findSlotLoop, if_pos hwrap] at hfound ⊢
    exact ih hfound
  | case2 head nTested hwrap hnone =>
    rw [findSlotLoop, if_neg hwrap, hnone]
    exact ⟨Nat.le_of_not_lt hwrap, firstTaken_eq_none.mp hnone⟩
  | case3 head nTested hwrap i hi hfull =>
    rw [findSlotLoop, if_neg hwrap, hi] at hfound
    simp only [if_pos hfull] at hfound
    cases hfound
  | case4 head nTested hwrap i hi hfull ih =>
    rw [findSlotLoop, if_neg hwrap, hi] at hfound ⊢
    simp only [if_neg hfull] at hfound ⊢
    exact ih hfound

/-- The starts that a search from `start` has excluded when it stands at `head`: those between the
two before it wraps around, and all but those between `head` and `start` afterwards. -/
def Excluded (cells : ℕ → Cell) (nCtx n start head nTested : ℕ) : Prop :=
  (start + nTested = head ∧ ∀ w, start ≤ w → w < head → ¬ FreeWindow cells w n) ∨
    (start + nTested = nCtx + head ∧ (∀ w < head, ¬ FreeWindow cells w n) ∧
      ∀ w, start ≤ w → w + n ≤ nCtx → ¬ FreeWindow cells w n)

/-- Trying one more start excludes the starts up to the taken cell it met. -/
theorem Excluded.step {cells : ℕ → Cell} {nCtx n start head nTested i : ℕ}
    (h : Excluded cells nCtx n start head nTested) (hi : firstTaken cells head n = some i) :
    Excluded cells nCtx n start (head + (i + 1)) (nTested + (i + 1)) := by
  rcases h with ⟨heq, hw⟩ | ⟨heq, hw, hend⟩
  · refine .inl ⟨by omega, fun w hsw hwh => ?_⟩
    rcases Nat.lt_or_ge w head with hlt | hge
    · exact hw w hsw hlt
    · exact not_freeWindow hi hge (by omega)
  · refine .inr ⟨by omega, fun w hwh => ?_, hend⟩
    rcases Nat.lt_or_ge w head with hlt | hge
    · exact hw w hlt
    · exact not_freeWindow hi hge (by omega)

/-- A search that has not tested as many cells as there are, and stands where the window does not
fit any more, wraps around for the first time. -/
theorem Excluded.wrap {cells : ℕ → Cell} {nCtx n start head nTested : ℕ} (hhead : head ≤ nCtx)
    (h : Excluded cells nCtx n start head nTested) (hwrap : nCtx < head + n) {w : ℕ}
    (hwn : w + n ≤ nCtx) (hfree : FreeWindow cells w n) :
    Excluded cells nCtx n start 0 (nTested + (nCtx - head)) := by
  rcases h with ⟨heq, hw⟩ | ⟨heq, hw, hend⟩
  · exact .inr ⟨by omega, fun w hw0 => absurd hw0 (Nat.not_lt_zero w), fun w hsw hwn =>
      hw w hsw (by omega)⟩
  · exact absurd hfree (hw w (by omega))

/-- **The search is complete.** If some window inside the cache is free, a search that starts
anywhere in the cache returns one. -/
theorem findSlotLoop_complete {cells : ℕ → Cell} {nCtx n start head nTested w : ℕ} (h : n ≤ nCtx)
    (hhead : head ≤ nCtx) (hwn : w + n ≤ nCtx)
    (hfree : FreeWindow cells w n) (hex : Excluded cells nCtx n start head nTested) :
    (findSlotLoop cells nCtx n h head nTested).2 = true := by
  induction head, nTested using findSlotLoop.induct cells nCtx n h with
  | case1 head nTested hwrap ih =>
    rw [findSlotLoop, if_pos hwrap]
    exact ih (Nat.zero_le _) (hex.wrap hhead hwrap hwn hfree)
  | case2 head nTested hwrap hnone =>
    rw [findSlotLoop, if_neg hwrap, hnone]
  | case3 head nTested hwrap i hi hfull =>
    -- as many cells tested as there are: every start is excluded
    have hi' := (lt_of_firstTaken hi).1
    rcases hex.step hi with ⟨heq, hw⟩ | ⟨heq, hw, hend⟩
    · exact absurd hfree (hw w (by omega) (by omega))
    · rcases Nat.lt_or_ge w start with hlt | hge
      · exact absurd hfree (hw w (by omega))
      · exact absurd hfree (hend w hge hwn)
  | case4 head nTested hwrap i hi hfull ih =>
    have := (lt_of_firstTaken hi).1
    rw [findSlotLoop, if_neg hwrap, hi]
    simp only [if_neg hfull]
    exact ih (by omega) (hex.step hi)

/-! ### The slot of a batch -/

/-- What a successful search leaves: a free window inside the cache, with the batch entered. -/
theorem findSlot_eq {c : KvCache} {batch : List BatchEntry} (h : (c.findSlot batch).2 = true) :
    ∃ head, head + batch.length ≤ c.size ∧ FreeWindow c.cells head batch.length ∧
      (c.findSlot batch).1 = { c with head := head, cells := enter c.cells head batch } := by
  rw [findSlot] at h ⊢
  split at h
  · rename_i hle
    have hfree := @findSlotLoop_free c.cells c.size batch.length c.head 0 hle
    rw [dif_pos hle]
    rcases hl : findSlotLoop c.cells c.size batch.length hle c.head 0 with ⟨head, _ | _⟩
    · rw [hl] at h; cases h
    · rw [hl] at hfree
      obtain ⟨hin, hwin⟩ := hfree rfl
      exact ⟨head, hin, hwin, rfl⟩
  · cases h

/-- A failed search changes nothing but the head. -/
theorem findSlot_fail {c : KvCache} {batch : List BatchEntry} (h : (c.findSlot batch).2 = false) :
    ∃ head, (c.findSlot batch).1 = { c with head := head } := by
  rw [findSlot] at h ⊢
  split at h
  · rename_i hle
    rw [dif_pos hle]
    rcases hl : findSlotLoop c.cells c.size batch.length hle c.head 0 with ⟨head, _ | _⟩
    · exact ⟨head, rfl⟩
    · rw [hl] at h; cases h
  · rename_i hle
    rw [dif_neg hle]
    exact ⟨c.head, rfl⟩

theorem findSlot_head_le {c : KvCache} (batch : List BatchEntry) (hc : c.head ≤ c.size) :
    (c.findSlot batch).1.head ≤ c.size := by
  rw [findSlot]
  split
  · rename_i hle
    have hfst := @findSlotLoop_fst_le c.cells c.size batch.length c.head 0 hle hc
    rcases hl : findSlotLoop c.cells c.size batch.length hle c.head 0 with ⟨head, _ | _⟩ <;>
      (rw [hl] at hfst; exact hfst)
  · exact hc

/-- **The slot search succeeds whenever a free window exists.** -/
theorem findSlot_complete {c : KvCache} {batch : List BatchEntry} {w : ℕ} (hc : c.head ≤ c.size)
    (hw : w + batch.length ≤ c.size) (hfree : FreeWindow c.cells w batch.length) :
    (c.findSlot batch).2 = true := by
  have hle : batch.length ≤ c.size := by omega
  have hfound := @findSlotLoop_complete c.cells c.size batch.length c.head c.head 0 w hle hc hw hfree
    (.inl ⟨rfl, fun w h1 h2 => absurd h1 (by omega)⟩)
  rw [findSlot]
  rw [dif_pos hle]
  rcases hl : findSlotLoop c.cells c.size batch.length hle c.head 0 with ⟨head, _ | _⟩
  · rw [hl] at hfound; cases hfound
  · rfl

/-- In a cleared cache every batch that is not too long finds a slot. -/
theorem findSlot_clear {c : KvCache} {batch : List BatchEntry} (h : batch.length ≤ c.size) :
    (c.clear.findSlot batch).2 = true := by
  refine findSlot_complete (w := 0) (Nat.zero_le _) (by simpa using h) fun i hi => ?_
  rw [cells_clear (by omega)]
  show (-1 : ℤ) < 0
  decide

theorem enter_of_notMem {cells : ℕ → Cell} {head : ℕ} {batch : List BatchEntry} {i : ℕ}
    (hi : i < head ∨ head + batch.length ≤ i) : enter cells head batch i = cells i := by
  induction batch generalizing cells head with
  | nil => rfl
  | cons e batch ih =>
    rw [List.length_cons] at hi
    rw [enter, ih (by omega), Function.update_of_ne (by omega)]

/-- The cell that batch token `k` enters. -/
theorem enter_add {cells : ℕ → Cell} {head : ℕ} {batch : List BatchEntry} {k : ℕ} {e : BatchEntry}
    (hk : batch[k]? = some e) : enter cells head batch (head + k) =
      ⟨e.pos, insert e.seqId (cells (head + k)).seqId, e.token⟩ := by
  induction batch generalizing cells head k with
  | nil => simp at hk
  | cons e' batch ih =>
    cases k with
    | zero =>
      simp only [List.getElem?_cons_zero, Option.some.injEq] at hk
      subst hk
      rw [enter, enter_of_notMem (.inl (by omega)), Nat.add_zero, Function.update_self]
    | succ k =>
      rw [List.getElem?_cons_succ] at hk
      rw [enter, show head + (k + 1) = head + 1 + k by omega, ih hk,
        Function.update_of_ne (by omega)]

/-- Every cell is as before or holds a batch token. -/
theorem enter_cases (cells : ℕ → Cell) (head : ℕ) (batch : List BatchEntry) (i : ℕ) :
    enter cells head batch i = cells i ∨
      ∃ e ∈ batch, enter cells head batch i = ⟨e.pos, insert e.seqId (cells i).seqId, e.token⟩ := by
  by_cases hi : i < head ∨ head + batch.length ≤ i
  · exact .inl (enter_of_notMem hi)
  · obtain ⟨k, rfl⟩ : ∃ k, i = head + k := ⟨i - head, by omega⟩
    have hk : k < batch.length := by omega
    exact .inr ⟨batch[k], List.getElem_mem hk, enter_add (List.getElem?_eq_getElem hk)⟩

/-! ### Valid caches -/

/-- The cells that exist are consistent: the position is `-1` or one of a token, and a cell is free
iff it carries no tag. -/
structure Valid (c : KvCache) : Prop where
  /-- The search starts inside the cache, or at its end. -/
  head_le : c.head ≤ c.size
  /-- No position is below `-1`. -/
  neg_one_le : ∀ i < c.size, -1 ≤ (c.cells i).pos
  /-- Positions fit `whisper_pos`. -/
  pos_lt : ∀ i < c.size, (c.cells i).pos < posMax
  /-- Free cells are those without a tag. -/
  pos_eq_iff : ∀ i < c.size, (c.cells i).pos = -1 ↔ (c.cells i).seqId = ∅

theorem Valid.neg_iff {c : KvCache} (h : c.Valid) {i : ℕ} (hi : i < c.size) :
    (c.cells i).pos < 0 ↔ (c.cells i).seqId = ∅ := by
  have := h.neg_one_le i hi
  rw [← h.pos_eq_iff i hi]
  omega

theorem Valid.nonneg_of_mem {c : KvCache} (h : c.Valid) {i seq : ℕ} (hi : i < c.size)
    (hseq : seq ∈ (c.cells i).seqId) : 0 ≤ (c.cells i).pos := by
  by_contra hneg
  rw [(h.neg_iff hi).mp (by omega)] at hseq
  exact absurd hseq (Finset.notMem_empty seq)

theorem valid_init (c : KvCache) (nCtx : ℕ) : (c.init nCtx).Valid where
  head_le := Nat.zero_le _
  neg_one_le i hi := by simp [init, Cell.free]
  pos_lt i hi := by simp [init, Cell.free, posMax]
  pos_eq_iff i hi := by simp [init, Cell.free]

theorem Valid.clear {c : KvCache} : c.clear.Valid where
  head_le := Nat.zero_le _
  neg_one_le i hi := by simp [cells_clear (c := c) hi]
  pos_lt i hi := by simp [cells_clear (c := c) hi, posMax]
  pos_eq_iff i hi := by simp [cells_clear (c := c) hi]

/-- Entering batch tokens with positions of their own keeps the cells valid. -/
theorem Valid.findSlot {c : KvCache} {batch : List BatchEntry} (h : c.Valid)
    (hpos : ∀ e ∈ batch, 0 ≤ e.pos ∧ e.pos < posMax) : (c.findSlot batch).1.Valid := by
  have hhead := findSlot_head_le batch h.head_le
  cases hf : (c.findSlot batch).2 with
  | false =>
    obtain ⟨head, heq⟩ := findSlot_fail hf
    rw [heq] at hhead ⊢
    exact ⟨hhead, h.neg_one_le, h.pos_lt, h.pos_eq_iff⟩
  | true =>
    obtain ⟨head, hin, hwin, heq⟩ := findSlot_eq hf
    rw [heq] at hhead ⊢
    have hcell := enter_cases c.cells head batch
    refine ⟨hhead, fun i hi => ?_, fun i hi => ?_, fun i hi => ?_⟩
    · show -1 ≤ (KvCache.enter c.cells head batch i).pos
      rcases hcell i with hi' | ⟨e, he, hi'⟩ <;> rw [hi']
      · exact h.neg_one_le i hi
      · have := (hpos e he).1
        simp only
        omega
    · show (KvCache.enter c.cells head batch i).pos < posMax
      rcases hcell i with hi' | ⟨e, he, hi'⟩ <;> rw [hi']
      · exact h.pos_lt i hi
      · exact (hpos e he).2
    · show (KvCache.enter c.cells head batch i).pos = -1 ↔ _
      rcases hcell i with hi' | ⟨e, he, hi'⟩ <;> simp only [hi']
      · exact h.pos_eq_iff i hi
      · have := (hpos e he).1
        constructor
        · intro hp
          omega
        · intro hs
          exact absurd hs (Finset.insert_ne_empty _ _)

theorem Valid.reserve {pad : ℕ} {c : KvCache} {batch : List BatchEntry} (h : c.Valid)
    (hpos : ∀ e ∈ batch, 0 ≤ e.pos ∧ e.pos < posMax) : (c.reserve pad batch).1.Valid := by
  have hv := h.findSlot hpos
  have hs : (c.reserve pad batch).1.size = (c.findSlot batch).1.size := by simp
  refine ⟨?_, ?_, ?_, ?_⟩
  · rw [reserve_fst_head, hs]
    exact hv.head_le
  all_goals rw [reserve_fst_cells, hs]
  · exact hv.neg_one_le
  · exact hv.pos_lt
  · exact hv.pos_eq_iff

theorem Cell.seqRm_pos_eq_iff {cell : Cell} {seq : Option ℕ} {p0 p1 : ℤ} (hp0 : 0 ≤ p0)
    (h : cell.pos = -1 ↔ cell.seqId = ∅) :
    (cell.seqRm seq p0 p1).pos = -1 ↔ (cell.seqRm seq p0 p1).seqId = ∅ := by
  rw [Cell.seqRm]
  split
  · rename_i hsel
    have := hsel.1
    simp only
    split
    · simp_all
    · rename_i hleft
      simp only [hleft, iff_false]
      omega
  · exact h

theorem Valid.seqRm {c : KvCache} (h : c.Valid) (seq : Option ℕ) (p0 p1 : ℤ) :
    (c.seqRm seq p0 p1).Valid where
  head_le := by
    show Option.getD _ _ ≤ c.size
    cases hf : (List.range c.size).find? fun i =>
        (c.cells i).Selected seq (fromPos p0) (toPos p1) ∧ (c.cells i).tagsLeft seq = ∅ with
    | none => exact h.head_le
    | some i => exact (List.mem_range.mp (List.mem_of_find?_eq_some hf)).le
  neg_one_le i hi := by
    have := h.neg_one_le i hi
    rw [cells_seqRm (c := c) hi, Cell.seqRm]
    split
    · simp only
      split <;> omega
    · exact this
  pos_lt i hi := by
    have := h.pos_lt i hi
    rw [cells_seqRm (c := c) hi, Cell.seqRm]
    split
    · simp only
      split
      · simp [posMax]
      · exact this
    · exact this
  pos_eq_iff i hi := by
    rw [cells_seqRm (c := c) hi]
    exact Cell.seqRm_pos_eq_iff (fromPos_nonneg p0) (h.pos_eq_iff i hi)

/-- In a cleared cache it makes no difference that the cells are cleared again. -/
theorem findSlot_clear_seqRm {c : KvCache} {batch : List BatchEntry} (seq : Option ℕ)
    (h : batch.length ≤ c.size) : ((c.clear.seqRm seq 0 (-1)).findSlot batch).2 = true := by
  refine findSlot_complete (w := 0) (Valid.clear.seqRm seq 0 (-1)).head_le (by simpa using h)
    fun i hi => ?_
  have hcell : i < c.clear.size := hi.trans_le h
  have hpos : (c.clear.cells i).pos = -1 := by rw [cells_clear (hi.trans_le h)]
  have hnot : ¬ (c.clear.cells i).Selected seq (fromPos 0) (toPos (-1)) := by
    rintro ⟨h0, -, -⟩
    rw [hpos] at h0
    exact absurd h0 (by decide)
  rw [Nat.zero_add, cells_seqRm hcell, Cell.seqRm, if_neg hnot, hpos]
  decide

theorem Valid.seqCp {c : KvCache} (h : c.Valid) (src dst : ℕ) (p0 p1 : ℤ) :
    (c.seqCp src dst p0 p1).Valid where
  head_le := Nat.zero_le _
  neg_one_le i hi := by
    rw [cells_seqCp (c := c) hi, Cell.seqCp]
    split <;> exact h.neg_one_le i hi
  pos_lt i hi := by
    rw [cells_seqCp (c := c) hi, Cell.seqCp]
    split <;> exact h.pos_lt i hi
  pos_eq_iff i hi := by
    rw [cells_seqCp (c := c) hi, Cell.seqCp]
    split
    · rename_i hsel
      have hp := h.nonneg_of_mem hi hsel.1
      simp only [Finset.insert_ne_empty, iff_false]
      omega
    · exact h.pos_eq_iff i hi

/-! ### Sequences of operations -/

/-- The operations on the cache of a state. -/
inductive Op where
  /-- The cache is recreated for more decoders. -/
  | init (nCtx : ℕ)
  | clear
  /-- A slot is looked for, and taken if there is one. -/
  | reserve (pad : ℕ) (batch : List BatchEntry)
  | seqRm (seq : Option ℕ) (p0 p1 : ℤ)
  | seqCp (src dst : ℕ) (p0 p1 : ℤ)

namespace Op

/-- What the operation does. -/
def apply : Op → KvCache → KvCache
  | .init nCtx, c => c.init nCtx
  | .clear, c => c.clear
  | .reserve pad batch, c => (c.reserve pad batch).1
  | .seqRm seq p0 p1, c => c.seqRm seq p0 p1
  | .seqCp src dst p0 p1, c => c.seqCp src dst p0 p1

/-- The positions of a batch are positions. -/
def Positions : Op → Prop
  | .reserve _ batch => ∀ e ∈ batch, 0 ≤ e.pos ∧ e.pos < posMax
  | _ => True

end Op

theorem Valid.apply {c : KvCache} (h : c.Valid) {op : Op} (hop : op.Positions) :
    (op.apply c).Valid := by
  cases op with
  | init nCtx => exact valid_init c nCtx
  | clear => exact .clear
  | reserve pad batch => exact h.reserve hop
  | seqRm seq p0 p1 => exact h.seqRm seq p0 p1
  | seqCp src dst p0 p1 => exact h.seqCp src dst p0 p1

/-- **Any sequence of operations keeps the cells valid**, whatever ids and ranges it uses. -/
theorem Valid.run {c : KvCache} (h : c.Valid) {ops : List Op} (hops : ∀ op ∈ ops, op.Positions) :
    (ops.foldl (fun c op => op.apply c) c).Valid := by
  induction ops generalizing c with
  | nil => exact h
  | cons op ops ih =>
    exact ih (h.apply (hops op (List.mem_cons_self ..))) fun o ho =>
      hops o (List.mem_cons_of_mem _ ho)

/-! ### Room for a batch -/

/-- The taken cells lie in the given blocks. -/
def TakenIn (c : KvCache) (blocks : List (ℕ × ℕ)) : Prop :=
  ∀ i < c.size, 0 ≤ (c.cells i).pos → Windows.Covered blocks i

/-- A batch finds a slot if the taken cells lie in one block and some further short ones. -/
theorem TakenIn.findSlot {c : KvCache} {batch : List BatchEntry} {b : ℕ × ℕ}
    {blocks : List (ℕ × ℕ)} {l : ℕ} (h : c.TakenIn (b :: blocks)) (hc : c.head ≤ c.size)
    (hl : ∀ d ∈ blocks, d.2 ≤ l)
    (hroom : b.2 + (batch.length - 1) + blocks.length * (l + (batch.length - 1)) + batch.length
      ≤ c.size) : (c.findSlot batch).2 = true := by
  obtain ⟨w, hw, hfree⟩ := Windows.exists_free_window_of_length_le hl hroom
  refine findSlot_complete hc hw fun i hi => ?_
  by_contra hpos
  exact hfree (w + i) (by omega) (by omega) (h (w + i) (by omega) (by omega))

theorem takenIn_clear (c : KvCache) : c.clear.TakenIn [] := by
  intro i hi hpos
  rw [cells_clear (c := c) hi] at hpos
  have hpos : (0 : ℤ) ≤ -1 := hpos
  exact absurd hpos (by decide)

/-- Entering a batch takes one more block. -/
theorem TakenIn.reserve {c : KvCache} {blocks : List (ℕ × ℕ)} (h : c.TakenIn blocks) (pad : ℕ)
    (batch : List BatchEntry) :
    ∃ head, (c.reserve pad batch).1.TakenIn (blocks ++ [(head, batch.length)]) := by
  cases hf : (c.findSlot batch).2 with
  | false =>
    obtain ⟨head, heq⟩ := findSlot_fail hf
    refine ⟨head, fun i hi hpos => Windows.covered_append.2 (.inl ?_)⟩
    rw [size_reserve] at hi
    rw [reserve_fst_cells, heq] at hpos
    exact h i hi hpos
  | true =>
    obtain ⟨head, -, -, heq⟩ := findSlot_eq hf
    refine ⟨head, fun i hi hpos => Windows.covered_append.2 ?_⟩
    rw [size_reserve] at hi
    rw [reserve_fst_cells, heq] at hpos
    have hpos : 0 ≤ (enter c.cells head batch i).pos := hpos
    by_cases hout : i < head ∨ head + batch.length ≤ i
    · rw [enter_of_notMem hout] at hpos
      exact .inl (h i hi hpos)
    · exact .inr ⟨_, List.mem_singleton_self _, by omega, by omega⟩

/-- A cache that is retagged and thinned out: no cell is taken that was free. -/
structure Thins (c c' : KvCache) : Prop where
  size_eq : c'.size = c.size
  valid : c.Valid → c'.Valid
  taken : ∀ i < c.size, 0 ≤ (c'.cells i).pos → 0 ≤ (c.cells i).pos

theorem Thins.refl (c : KvCache) : Thins c c := ⟨rfl, id, fun _ _ => id⟩

theorem Thins.trans {c₁ c₂ c₃ : KvCache} (h₁ : Thins c₁ c₂) (h₂ : Thins c₂ c₃) : Thins c₁ c₃ :=
  ⟨h₂.size_eq.trans h₁.size_eq, fun h => h₂.valid (h₁.valid h), fun i hi hpos =>
    h₁.taken i hi (h₂.taken i (h₁.size_eq ▸ hi) hpos)⟩

theorem thins_seqRm (c : KvCache) (seq : Option ℕ) (p0 p1 : ℤ) : Thins c (c.seqRm seq p0 p1) where
  size_eq := rfl
  valid h := h.seqRm seq p0 p1
  taken i hi hpos := by
    rw [cells_seqRm hi, Cell.seqRm] at hpos
    split at hpos
    · simp only at hpos
      split at hpos
      · exact absurd hpos (by decide)
      · exact hpos
    · exact hpos

theorem thins_seqCp (c : KvCache) (src dst : ℕ) (p0 p1 : ℤ) :
    Thins c (c.seqCp src dst p0 p1) where
  size_eq := rfl
  valid h := h.seqCp src dst p0 p1
  taken i hi hpos := by
    rw [cells_seqCp hi, Cell.seqCp] at hpos
    split_ifs at hpos <;> exact hpos

theorem thins_foldl {α : Type*} {f : KvCache → α → KvCache} (hf : ∀ c a, Thins c (f c a))
    (c : KvCache) (l : List α) : Thins c (l.foldl f c) := by
  induction l generalizing c with
  | nil => exact .refl c
  | cons a l ih => exact (hf c a).trans (ih (f c a))

theorem TakenIn.thins {c c' : KvCache} {blocks : List (ℕ × ℕ)} (h : c.TakenIn blocks)
    (hthins : Thins c c') : c'.TakenIn blocks := by
  intro i hi hpos
  rw [hthins.size_eq] at hi
  exact h i hi (hthins.taken i hi hpos)

/-! ### A cell to spare -/

/-- Some cell is free, or would be without sequence `0`. -/
def HasSpare (c : KvCache) : Prop := ∃ w < c.size, (c.cells w).seqId ⊆ {0}

theorem TakenIn.hasSpare {c : KvCache} {blocks : List (ℕ × ℕ)} (h : c.TakenIn blocks)
    (hvalid : c.Valid) (hlt : (blocks.map Prod.snd).sum < c.size) : c.HasSpare := by
  have hroom : (blocks.map fun b => b.2 + (1 - 1)).sum + 1 ≤ c.size := by
    rw [Nat.sub_self]
    exact hlt
  obtain ⟨w, hw, hfree⟩ := Windows.exists_free_window hroom
  refine ⟨w, hw, ?_⟩
  have hneg : (c.cells w).pos < 0 := by
    by_contra hpos
    exact hfree w le_rfl (Nat.lt_succ_self w) (h w hw (not_lt.1 hpos))
  rw [(hvalid.neg_iff hw).1 hneg]
  exact Finset.empty_subset _

theorem HasSpare.clear {c : KvCache} (h : 0 < c.size) : c.clear.HasSpare := by
  refine ⟨0, h, ?_⟩
  rw [cells_clear (c := c) h]
  exact Finset.empty_subset _

theorem HasSpare.seqRm {c : KvCache} (h : c.HasSpare) (seq : Option ℕ) (p0 p1 : ℤ) :
    (c.seqRm seq p0 p1).HasSpare := by
  obtain ⟨w, hw, hsub⟩ := h
  refine ⟨w, hw, ?_⟩
  rw [cells_seqRm hw, Cell.seqRm]
  split
  · cases seq with
    | none => exact Finset.empty_subset _
    | some seq => exact (Finset.erase_subset seq _).trans hsub
  · exact hsub

/-- Without sequence `0` the spare cell is free. -/
theorem HasSpare.findSlot {c : KvCache} (h : c.HasSpare) (hvalid : c.Valid) {batch : List BatchEntry}
    (hbatch : batch.length = 1) : ((c.seqRm (some 0) 0 (-1)).findSlot batch).2 = true := by
  obtain ⟨w, hw, hsub⟩ := h
  refine findSlot_complete (w := w) (hvalid.seqRm _ _ _).head_le (by rw [hbatch]; exact hw) ?_
  intro i hi
  obtain rfl : i = 0 := by omega
  rw [Nat.add_zero, cells_seqRm hw, Cell.seqRm]
  rcases Finset.subset_singleton_iff.1 hsub with hempty | hzero
  · have hneg := (hvalid.neg_iff hw).2 hempty
    rw [if_neg fun hsel => absurd hsel.1 (by rw [fromPos]; simp; omega)]
    exact hneg
  · have hmem : 0 ∈ (c.cells w).seqId := by rw [hzero]; exact Finset.mem_singleton_self 0
    have hsel : (c.cells w).Selected (some 0) (fromPos 0) (toPos (-1)) := by
      refine ⟨hvalid.nonneg_of_mem hw hmem, hvalid.pos_lt w hw, fun s hs => ?_⟩
      rw [← Option.some.inj hs]
      exact hmem
    have hleft : (c.cells w).tagsLeft (some 0) = ∅ := by
      show (c.cells w).seqId.erase 0 = ∅
      rw [hzero]
      rfl
    rw [if_pos hsel, hleft]
    show (-1 : ℤ) < 0
    decide

/-- A batch of sequence `0` leaves it. -/
theorem HasSpare.reserve {pad : ℕ} {c : KvCache} (h : c.HasSpare) {batch : List BatchEntry}
    (hbatch : ∀ e ∈ batch, e.seqId = 0) : (c.reserve pad batch).1.HasSpare := by
  obtain ⟨w, hw, hsub⟩ := h
  refine ⟨w, by rw [size_reserve]; exact hw, ?_⟩
  rw [reserve_fst_cells]
  cases hf : (c.findSlot batch).2 with
  | false =>
    obtain ⟨head, heq⟩ := findSlot_fail hf
    rw [heq]
    exact hsub
  | true =>
    obtain ⟨head, -, -, heq⟩ := findSlot_eq hf
    rw [heq]
    rcases enter_cases c.cells head batch w with hcell | ⟨e, he, hcell⟩
    · show (KvCache.enter c.cells head batch w).seqId ⊆ {0}
      rw [hcell]
      exact hsub
    · show (KvCache.enter c.cells head batch w).seqId ⊆ {0}
      rw [hcell, hbatch e he]
      exact Finset.insert_subset (Finset.mem_singleton_self 0) hsub

end KvCache

end WhisperCpp
