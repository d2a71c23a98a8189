import WhisperCpp.KvCache.Slots

/-!
# The cache as a map from sequences to tokens

What the cells are for: a sequence id stands for a list of tokens, and the cells that carry it are
one for each index of the list, at that position and written for that token. The operations of the
cache are operations on the map: entering a batch appends, copying a tag assigns, removing a tag
empties, and the mask of a batch token shows its own list up to its own position.

## Main definitions

* `Holds`, `Refines` — the cells of one sequence, of all sequences
* `appendBatch` — what a batch does to the map
* `Sees` — what a batch token attends to

## Main results

* `Refines.seqCp`, `Refines.seqRm`, `refines_clear`, `Refines.reserve` — the operations refine those
  of the map
* `Holds.sees` — the mask shows a sequence its own tokens
-/

namespace WhisperCpp

namespace KvCache

/-- The cells tagged `seq` are one for each index of `tokens`. -/
structure Holds (c : KvCache) (seq : ℕ) (tokens : List ℕ) : Prop where
  /-- A tagged cell is at the position of the token it was written for. -/
  of_mem : ∀ i < c.size, seq ∈ (c.cells i).seqId →
    ∃ p : ℕ, (c.cells i).pos = p ∧ tokens[p]? = some (c.cells i).token
  /-- Every position has a cell. -/
  exists_mem : ∀ p < tokens.length, ∃ i < c.size, seq ∈ (c.cells i).seqId ∧ (c.cells i).pos = p
  /-- No position has two. -/
  inj : ∀ i < c.size, ∀ j < c.size, seq ∈ (c.cells i).seqId → seq ∈ (c.cells j).seqId →
    (c.cells i).pos = (c.cells j).pos → i = j

/-- The cache stands for the map `m` from sequence ids to token lists. -/
def Refines (c : KvCache) (m : ℕ → List ℕ) : Prop := ∀ seq, c.Holds seq (m seq)

theorem Holds.nil_iff {c : KvCache} {seq : ℕ} :
    c.Holds seq [] ↔ ∀ i < c.size, seq ∉ (c.cells i).seqId := by
  constructor
  · intro h i hi hmem
    obtain ⟨p, -, hp⟩ := h.of_mem i hi hmem
    simp at hp
  · intro h
    exact ⟨fun i hi hmem => absurd hmem (h i hi), fun p hp => absurd hp (Nat.not_lt_zero p),
      fun i hi _ _ hmem => absurd hmem (h i hi)⟩

/-- A cache whose cells tagged `seq'` are those of another cache tagged `seq`. -/
theorem Holds.congr {c c' : KvCache} {seq seq' : ℕ} {tokens : List ℕ} (h : c.Holds seq tokens)
    (hsize : c'.size = c.size)
    (htag : ∀ i < c.size, seq' ∈ (c'.cells i).seqId ↔ seq ∈ (c.cells i).seqId)
    (hcell : ∀ i < c.size, seq ∈ (c.cells i).seqId →
      (c'.cells i).pos = (c.cells i).pos ∧ (c'.cells i).token = (c.cells i).token) :
    c'.Holds seq' tokens where
  of_mem i hi hmem := by
    rw [hsize] at hi
    have hmem := (htag i hi).mp hmem
    rw [(hcell i hi hmem).1, (hcell i hi hmem).2]
    exact h.of_mem i hi hmem
  exists_mem p hp := by
    obtain ⟨i, hi, hmem, hpos⟩ := h.exists_mem p hp
    exact ⟨i, hsize ▸ hi, (htag i hi).mpr hmem, (hcell i hi hmem).1.trans hpos⟩
  inj i hi j hj hmi hmj hpos := by
    rw [hsize] at hi hj
    have hmi := (htag i hi).mp hmi
    have hmj := (htag j hj).mp hmj
    rw [(hcell i hi hmi).1, (hcell j hj hmj).1] at hpos
    exact h.inj i hi j hj hmi hmj hpos

theorem refines_init (c : KvCache) (nCtx : ℕ) : (c.init nCtx).Refines fun _ => [] :=
  fun seq => Holds.nil_iff.mpr fun _ _ => Finset.notMem_empty seq

theorem refines_clear (c : KvCache) : c.clear.Refines fun _ => [] := by
  refine fun seq => Holds.nil_iff.mpr fun i hi => ?_
  rw [cells_clear (c := c) hi]
  exact Finset.notMem_empty seq

/-- **Copying a tag is assignment**, if the destination is empty. -/
theorem Refines.seqCp {c : KvCache} {m : ℕ → List ℕ} (h : c.Refines m) (hc : c.Valid)
    {src dst : ℕ} (hdst : m dst = []) :
    (c.seqCp src dst (-1) (-1)).Refines (Function.update m dst (m src)) := by
  have hfree := Holds.nil_iff.mp (hdst ▸ h dst)
  have hcell : ∀ i < c.size, (c.cells i).seqCp src dst (fromPos (-1)) (toPos (-1)) =
      if src ∈ (c.cells i).seqId then { c.cells i with seqId := insert dst (c.cells i).seqId }
      else c.cells i := by
    intro i hi
    rw [Cell.seqCp]
    refine if_congr (and_iff_left_of_imp fun hmem => ?_) rfl rfl
    exact ⟨hc.nonneg_of_mem hi hmem, hc.pos_lt i hi⟩
  intro seq
  by_cases hseq : seq = dst
  · subst hseq
    rw [Function.update_self]
    refine (h src).congr rfl (fun i hi => ?_) fun i hi hmem => ?_
    · rw [cells_seqCp hi, hcell i hi]
      split
      · rename_i hsrc
        simp [hsrc]
      · rename_i hsrc
        simp [hsrc, hfree i hi]
    · rw [cells_seqCp hi, hcell i hi, if_pos hmem]
      exact ⟨rfl, rfl⟩
  · rw [Function.update_of_ne hseq]
    refine (h seq).congr rfl (fun i hi => ?_) fun i hi hmem => ?_ <;>
      rw [cells_seqCp hi, hcell i hi]
    · split <;> simp [hseq]
    · split <;> exact ⟨rfl, rfl⟩

/-- **Removing a tag empties the sequence** and leaves the others alone. -/
theorem Refines.seqRm {c : KvCache} {m : ℕ → List ℕ} (h : c.Refines m) (hc : c.Valid)
    {s : ℕ} : (c.seqRm (some s) (-1) (-1)).Refines (Function.update m s []) := by
  have hsel : ∀ i < c.size, (c.cells i).Selected (some s) (fromPos (-1)) (toPos (-1)) ↔
      s ∈ (c.cells i).seqId := by
    intro i hi
    constructor
    · intro hsel
      exact hsel.2.2 s rfl
    · intro hmem
      refine ⟨hc.nonneg_of_mem hi hmem, hc.pos_lt i hi, fun t ht => ?_⟩
      rw [← Option.some.inj ht]
      exact hmem
  intro seq
  by_cases hseq : seq = s
  · subst hseq
    rw [Function.update_self]
    refine Holds.nil_iff.mpr fun i hi => ?_
    rw [cells_seqRm (c := c) hi, Cell.seqRm]
    split
    · exact Finset.notMem_erase seq _
    · rename_i hn
      exact fun hmem => hn ((hsel i hi).mpr hmem)
  · rw [Function.update_of_ne hseq]
    refine (h seq).congr rfl (fun i hi => ?_) fun i hi hmem => ?_ <;>
      rw [cells_seqRm hi, Cell.seqRm]
    · split <;> simp [Cell.tagsLeft, hseq]
    · split
      · -- the cell keeps the tag `seq`, so it is not freed
        have hleft : (c.cells i).tagsLeft (some s) ≠ ∅ :=
          Finset.ne_empty_of_mem (Finset.mem_erase.mpr ⟨hseq, hmem⟩)
        exact ⟨if_neg hleft, rfl⟩
      · exact ⟨rfl, rfl⟩

/-! ### Entering a batch -/

/-- What a batch does to the map: every token is appended to its sequence. -/
def appendBatch (m : ℕ → List ℕ) : List BatchEntry → ℕ → List ℕ
  | [] => m
  | e :: batch => appendBatch (Function.update m e.seqId (m e.seqId ++ [e.token])) batch

/-- Every token of the batch is at the next position of its sequence. -/
def Consecutive (m : ℕ → List ℕ) : List BatchEntry → Prop
  | [] => True
  | e :: batch => e.pos = (m e.seqId).length ∧
      Consecutive (Function.update m e.seqId (m e.seqId ++ [e.token])) batch

theorem Refines.update {c : KvCache} {m : ℕ → List ℕ} (h : c.Refines m) {i : ℕ} (hi : i < c.size)
    (hfree : (c.cells i).seqId = ∅) {e : BatchEntry} (he : e.pos = (m e.seqId).length) :
    Refines
      { c with
        cells := Function.update c.cells i ⟨e.pos, insert e.seqId (c.cells i).seqId, e.token⟩ }
      (Function.update m e.seqId (m e.seqId ++ [e.token])) := by
  -- a cell tagged before is another one than the new cell
  have hne : ∀ {k seq}, seq ∈ (c.cells k).seqId → k ≠ i := by
    rintro k seq hmem rfl
    rw [hfree] at hmem
    exact Finset.notMem_empty seq hmem
  intro seq
  by_cases hseq : seq = e.seqId
  · subst hseq
    rw [Function.update_self]
    have hold := h e.seqId
    have hlt : ∀ k < c.size, e.seqId ∈ (c.cells k).seqId → (c.cells k).pos < e.pos := by
      intro k hk hmem
      obtain ⟨p, hp, htok⟩ := hold.of_mem k hk hmem
      have := (List.getElem?_eq_some_iff.mp htok).1
      omega
    refine ⟨fun k hk hmem => ?_, fun p hp => ?_, fun k hk l hl hmk hml hpos => ?_⟩
    · by_cases hki : k = i
      · subst hki
        simp only [Function.update_self]
        exact ⟨(m e.seqId).length, he, by simp⟩
      · simp only [Function.update_of_ne hki] at hmem ⊢
        obtain ⟨p, hp, htok⟩ := hold.of_mem k hk hmem
        refine ⟨p, hp, ?_⟩
        rw [List.getElem?_append_left (List.getElem?_eq_some_iff.mp htok).1]
        exact htok
    · rw [List.length_append, List.length_singleton] at hp
      rcases Nat.lt_succ_iff_lt_or_eq.mp hp with hp | rfl
      · obtain ⟨k, hk, hmem, hpos⟩ := hold.exists_mem p hp
        refine ⟨k, hk, ?_⟩
        simp only [Function.update_of_ne (hne hmem)]
        exact ⟨hmem, hpos⟩
      · refine ⟨i, hi, ?_⟩
        simp only [Function.update_self]
        exact ⟨Finset.mem_insert_self _ _, he⟩
    · by_cases hki : k = i <;> by_cases hli : l = i
      · rw [hki, hli]
      · subst hki
        simp only [Function.update_self, Function.update_of_ne hli] at hml hpos
        exact absurd hpos (hlt l hl hml).ne'
      · subst hli
        simp only [Function.update_self, Function.update_of_ne hki] at hmk hpos
        exact absurd hpos (hlt k hk hmk).ne
      · simp only [Function.update_of_ne hki, Function.update_of_ne hli] at hmk hml hpos
        exact hold.inj k hk l hl hmk hml hpos
  · rw [Function.update_of_ne hseq]
    refine (h seq).congr rfl (fun k hk => ?_) fun k hk hmem => ?_
    · by_cases hki : k = i
      · subst hki
        simp [hfree, hseq]
      · simp only [Function.update_of_ne hki]
    · simp [Function.update_of_ne (hne hmem)]

theorem Refines.enter {c : KvCache} {m : ℕ → List ℕ} (h : c.Refines m) {head : ℕ}
    {batch : List BatchEntry} (hin : head + batch.length ≤ c.size)
    (hfree : ∀ i < batch.length, (c.cells (head + i)).seqId = ∅) (hb : Consecutive m batch) :
    Refines { c with cells := KvCache.enter c.cells head batch } (appendBatch m batch) := by
  induction batch generalizing c m head with
  | nil => exact h
  | cons e batch ih =>
    rw [List.length_cons] at hin hfree
    have hstep := h.update (i := head) (by omega) (hfree 0 (by omega)) hb.1
    refine @ih _ _ hstep (head + 1) (by simp only; omega) (fun i hi => ?_) hb.2
    have hcell := hfree (i + 1) (by omega)
    rw [show head + (i + 1) = head + 1 + i by omega] at hcell
    show (Function.update c.cells head _ (head + 1 + i)).seqId = ∅
    rw [Function.update_of_ne (by omega)]
    exact hcell

/-- The refinement does not depend on where the next search starts or how much the graph reads. -/
theorem Refines.congr_cells {c c' : KvCache} {m : ℕ → List ℕ} (h : c.Refines m)
    (hsize : c'.size = c.size) (hcells : c'.cells = c.cells) : c'.Refines m :=
  fun seq => (h seq).congr hsize (fun _ _ => by rw [hcells]) fun _ _ _ => by
    rw [hcells]
    exact ⟨rfl, rfl⟩

/-- **Taking a slot for a batch appends its tokens to their sequences.** -/
theorem Refines.reserve {pad : ℕ} {c : KvCache} {m : ℕ → List ℕ} {batch : List BatchEntry}
    (h : c.Refines m) (hc : c.Valid) (hfound : (c.findSlot batch).2 = true)
    (hb : Consecutive m batch) : (c.reserve pad batch).1.Refines (appendBatch m batch) := by
  obtain ⟨head, hin, hwin, heq⟩ := findSlot_eq hfound
  have hent := h.enter hin (fun i hi => (hc.neg_iff (by omega)).mp (hwin i hi)) hb
  refine hent.congr_cells (by simp) ?_
  rw [reserve_fst_cells, heq]

theorem consecutive_legacy {m : ℕ → List ℕ} {seq k n : ℕ} (tokens : List ℕ) {nPast : ℤ}
    (h : nPast + k = (m seq).length) :
    Consecutive m ((tokens.zipIdx k).map fun e => ⟨e.1, nPast + e.2, seq, e.2 + 1 = n⟩) ∧
      appendBatch m ((tokens.zipIdx k).map fun e => ⟨e.1, nPast + e.2, seq, e.2 + 1 = n⟩) =
        Function.update m seq (m seq ++ tokens) := by
  induction tokens generalizing m k with
  | nil => simp [Consecutive, appendBatch]
  | cons tok tokens ih =>
    have hrec := ih (m := Function.update m seq (m seq ++ [tok])) (k := k + 1) (by
      simp only [Function.update_self, List.length_append, List.length_singleton]
      omega)
    rw [List.zipIdx_cons, List.map_cons]
    refine ⟨⟨h, hrec.1⟩, hrec.2.trans ?_⟩
    rw [Function.update_self, Function.update_idem, List.append_assoc, List.singleton_append]

/-- Consecutive tokens of one sequence, as `whisper_batch_prep_legacy` lays them out. -/
theorem consecutive_batchPrepLegacy {m : ℕ → List ℕ} {seq : ℕ} (tokens : List ℕ) {nPast : ℤ}
    (h : nPast = (m seq).length) : Consecutive m (batchPrepLegacy tokens nPast seq) :=
  (consecutive_legacy tokens (k := 0) (by simpa using h)).1

theorem appendBatch_batchPrepLegacy {m : ℕ → List ℕ} {seq : ℕ} (tokens : List ℕ) {nPast : ℤ}
    (h : nPast = (m seq).length) : appendBatch m (batchPrepLegacy tokens nPast seq) =
      Function.update m seq (m seq ++ tokens) :=
  (consecutive_legacy tokens (k := 0) (by simpa using h)).2

/-- One token for each of several sequences. -/
theorem consecutive_map {m : ℕ → List ℕ} {f : ℕ → BatchEntry} {seqs : List ℕ}
    (hnd : seqs.Nodup) (hf : ∀ s ∈ seqs, (f s).seqId = s ∧ (f s).pos = (m s).length) :
    Consecutive m (seqs.map f) := by
  induction seqs generalizing m with
  | nil => trivial
  | cons s seqs ih =>
    obtain ⟨hs, hnd⟩ := List.nodup_cons.mp hnd
    have hfs := hf s (List.mem_cons_self ..)
    refine ⟨by rw [hfs.1]; exact hfs.2, ih hnd fun t ht => ?_⟩
    have hne : t ≠ s := fun heq => hs (heq ▸ ht)
    rw [hfs.1, Function.update_of_ne hne]
    exact hf t (List.mem_cons_of_mem _ ht)

theorem appendBatch_map {m : ℕ → List ℕ} {f : ℕ → BatchEntry} {seqs : List ℕ}
    (hnd : seqs.Nodup) (hf : ∀ s ∈ seqs, (f s).seqId = s) (seq : ℕ) :
    appendBatch m (seqs.map f) seq = if seq ∈ seqs then m seq ++ [(f seq).token] else m seq := by
  induction seqs generalizing m with
  | nil => rfl
  | cons s seqs ih =>
    obtain ⟨hs, hnd⟩ := List.nodup_cons.mp hnd
    rw [List.map_cons, appendBatch, ih hnd fun t ht => hf t (List.mem_cons_of_mem _ ht),
      hf s (List.mem_cons_self ..)]
    by_cases hseq : seq = s
    · subst hseq
      simp [hs]
    · simp [hseq]

/-! ### What a batch token attends to -/

/-- Batch token `e` attends to one cell for each token of `tokens` up to its own position, and to
no cell of another sequence. -/
structure Sees (c : KvCache) (e : BatchEntry) (tokens : List ℕ) : Prop where
  /-- The mask exposes the cells of the sequence up to the position, and no others. -/
  attends_iff : ∀ i, c.Attends e i ↔
    i < c.size ∧ e.seqId ∈ (c.cells i).seqId ∧ (c.cells i).pos ≤ e.pos
  /-- An exposed cell was written for the token at its position. -/
  token_eq : ∀ i, c.Attends e i → ∃ p : ℕ, (c.cells i).pos = p ∧ tokens[p]? = some (c.cells i).token
  /-- Every token up to the position has one exposed cell. -/
  existsUnique : ∀ p < tokens.length, (p : ℤ) ≤ e.pos →
    ∃! i, c.Attends e i ∧ (c.cells i).pos = p

/-- **The mask of a batch token shows its own sequence.** -/
theorem Holds.sees {pad : ℕ} (hpad : 0 < pad) {c : KvCache} {batch : List BatchEntry}
    {e : BatchEntry} {tokens : List ℕ} (hc : (c.reserve pad batch).1.Valid)
    (hfound : (c.findSlot batch).2 = true)
    (h : (c.reserve pad batch).1.Holds e.seqId tokens) :
    (c.reserve pad batch).1.Sees e tokens := by
  have hn : (c.reserve pad batch).1.n ≤ (c.reserve pad batch).1.size := by
    rw [reserve]
    rcases hf : c.findSlot batch with ⟨c', _ | _⟩
    · rw [hf] at hfound; cases hfound
    · exact Nat.min_le_left _ _
  have hatt : ∀ i, (c.reserve pad batch).1.Attends e i ↔ i < (c.reserve pad batch).1.size ∧
      e.seqId ∈ ((c.reserve pad batch).1.cells i).seqId ∧
        ((c.reserve pad batch).1.cells i).pos ≤ e.pos := by
    intro i
    constructor
    · rintro ⟨hi, hmem, hpos⟩
      exact ⟨by omega, hmem, hpos⟩
    · rintro ⟨hi, hmem, hpos⟩
      refine ⟨lt_n_reserve hpad hfound (by simpa using hi) ?_ ?_, hmem, hpos⟩
      · rw [← reserve_fst_cells pad]
        exact hc.nonneg_of_mem hi hmem
      · rw [← reserve_fst_cells pad]
        exact ⟨e.seqId, hmem⟩
  refine ⟨hatt, fun i hi => ?_, fun p hp hpe => ?_⟩
  · obtain ⟨hi, hmem, -⟩ := (hatt i).mp hi
    exact h.of_mem i hi hmem
  · obtain ⟨i, hi, hmem, hpos⟩ := h.exists_mem p hp
    refine ⟨i, ⟨(hatt i).mpr ⟨hi, hmem, by omega⟩, hpos⟩, fun j hj => ?_⟩
    obtain ⟨hj', hmem', -⟩ := (hatt j).mp hj.1
    exact h.inj j hj' i hi hmem' hmem (by rw [hj.2, hpos])

end KvCache

end WhisperCpp
