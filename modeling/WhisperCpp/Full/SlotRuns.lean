import WhisperCpp.Full.Built
import WhisperCpp.Full.English
import WhisperCpp.KvCache.Slots

/-!
# Every batch finds a slot

The cache of a state has room for every batch that a call decodes. Behind the prompt the cells are
taken in blocks of at most one cell a decoder, one block an iteration; beam search copies and removes
tags, and takes no cell. Between calls there is always a cell to spare for the detection of the
language. The positions of a batch stay below the text context, provided that it is not smaller than
what every prompt may hold.

## Main definitions

* `Stocked` — what holds of the cache everywhere
* `AtSite`, `Filled` — what holds of it at a decode, and during an attempt

## Main results

* `slot_of_reachable` — every batch finds a slot, at positions inside the text context
-/

namespace WhisperCpp

namespace Full

open KvCache (TakenIn HasSpare Thins ggmlPad)

variable {K F G : Type*} [Field K] [LinearOrder K]
  {ctx : Context K F G} {s : State K F G} {x : Input K F G}

/-- The size of a cache that was made for `n` decoders. -/
def cacheSize (ctx : Context K F G) (n : ℕ) : ℕ :=
  ggmlPad ctx.hparams.nTextCtx 256 * if 1 < n then n + 2 else 1

/-- What holds of the cache everywhere. -/
structure Stocked (ctx : Context K F G) (s : State K F G) : Prop where
  valid : s.kvSelf.Valid
  size_eq : s.kvSelf.size = cacheSize ctx s.kvSelfNDec
  spare : s.kvSelf.HasSpare

/-- The cells that are taken behind the prompt lie in `n` blocks. -/
structure Filled (n : ℕ) (s : State K F G) : Prop where
  taken : ∃ head blocks, s.kvSelf.TakenIn ((head, s.prompt.length) :: blocks) ∧
    blocks.length ≤ n ∧ ∀ b ∈ blocks, b.2 ≤ s.nDecodersCur
  nCur_le : s.nDecodersCur ≤ s.kvSelfNDec

/-- The batch about to be decoded, and the room for it. -/
def AtSite (ctx : Context K F G) (s : State K F G) : Site → Prop
  | .detect => s.batch = batchPrepLegacy [ctx.vocab.tokenSot] 0 0 ∧
      (s.kvSelf.findSlot s.batch).2 = true
  | .prompt _ => s.batch = batchPrepLegacy s.prompt 0 0 ∧ s.kvSelf.TakenIn [] ∧
      s.nDecodersCur ≤ s.kvSelfNDec
  | .next _ i => Filled i s ∧ s.batch.length ≤ s.nDecodersCur ∧
      ∀ e ∈ s.batch, e.pos = (s.prompt.length + i : ℕ) ∧ e.seqId < s.nDecodersCur
  | .dtw => s.kvSelf.TakenIn [] ∧
      ∃ tokens, s.batch = batchPrepLegacy tokens 0 0 ∧ tokens.length ≤ ctx.hparams.nTextCtx / 2

/-- What holds at the location of a state. -/
def SlotsAt (ctx : Context K F G) (s : State K F G) : Prop :=
  match s.pc with
  | .decode site => AtSite ctx s site
  | .sample _ i => Filled i s
  | .update _ i => Filled i s
  | _ => True

/-! ### The length of a sequence -/

/-- No decoder has more tokens than there are iterations. -/
def Short (ctx : Context K F G) (s : State K F G) : Prop :=
  ∀ j, (s.decoders j).sequence.tokens.length ≤ (nMax ctx).toNat

theorem short_setup (h : Short ctx s) : Short ctx (setup ctx s) := by
  rw [setup]
  split
  · exact h
  · split <;> exact h

theorem short_beginCall (h : Short ctx s) : Short ctx (beginCall ctx s) := by
  rw [beginCall]
  split
  · exact h
  · split
    · exact h
    · exact short_setup h

theorem short_stepCall (h : Short ctx s) : Short ctx (stepCall ctx x s) := by
  rw [stepCall]
  split
  · exact h
  · split
    · split <;> exact h
    · exact short_beginCall h

theorem short_stepAttempt {it : ℕ} (h : Short ctx s) : Short ctx (stepAttempt ctx x it s) := by
  rw [stepAttempt]
  split
  · exact h
  · split
    · exact h
    · split
      · exact h
      · intro j
        show (if j < _ then _ else _ : Decoder K G).sequence.tokens.length ≤ _
        split
        · exact Nat.zero_le _
        · exact h j

theorem short_stepSample {it i : ℕ} (hpc : s.pc = .sample it i) (hph : Phase ctx s)
    (h : Short ctx s) : Short ctx (stepSample ctx x it i s) := by
  rw [Phase] at hph
  rw [hpc] at hph
  have hmax : i + 1 ≤ (nMax ctx).toNat := by
    have := hph.lt_nMax
    omega
  rw [stepSample]
  split
  · intro j
    show (if _ then _ else _ : Decoder K G).sequence.tokens.length ≤ _
    split
    · rename_i hj
      rw [sampleGreedy, Sequence.tokens_push, List.length_append, List.length_singleton,
        hph.length_eq j hj.1 hj.2]
      exact hmax
    · exact h j
  · split
    · exact h
    · rename_i hne
      have hcs : sortedCandidates ctx x s ≠ [] := by simpa using hne
      intro j
      have hre := reassign_decoders hcs i s.nDecodersCur s.decoders s.kvSelf j
      show ((reassign _ _ _ _ _).1 j).sequence.tokens.length ≤ _
      split at hre
      · obtain ⟨cur, hcur, heq⟩ := hre
        obtain ⟨k, hk, hka, t, -, rfl⟩ := mem_allCandidates (mem_sortCandidates.mp hcur)
        rw [heq, Decoder.inherit]
        simp only [Sequence.tokens_push, List.length_append, List.length_singleton,
          hph.length_eq k hk hka]
        exact hmax
      · rw [hre]
        exact h j

theorem short_stepUpdate {it i : ℕ} (h : Short ctx s) : Short ctx (stepUpdate ctx it i s) := by
  have hup : Short ctx (s.updateAll ctx i) := fun j =>
    (congrArg List.length (updateAll_decoders ctx i s j).1).trans_le (h j)
  rw [stepUpdate]
  split
  · exact h
  · split
    · exact hup
    · intro j
      obtain ⟨b, heq⟩ := prepareNext_decoder_eq it i (s.updateAll ctx i) j
      rw [heq]
      exact hup j

theorem short_stepEmit (h : Short ctx s) : Short ctx (stepEmit ctx s) := by
  rw [stepEmit]
  split
  · exact h
  · split
    · split <;> exact h
    · exact h

section Step

variable [FloorRing K]

/-- The ranking cuts a sequence off at its result. -/
theorem short_stepRank {it : ℕ} (hpc : s.pc = .rank it) (hph : Phase ctx s) (hb : Building ctx s)
    (h : Short ctx s) : Short ctx (stepRank ctx it s) := by
  rw [Phase] at hph
  rw [hpc] at hph
  have hsound := hb.sound (by rw [hpc]; rfl)
  have hrank : Short ctx (s.rankAll ctx) := by
    intro j
    show (if j < _ then _ else _ : Decoder K G).sequence.tokens.length ≤ _
    split
    · rename_i hj
      have hle := (hsound j (hph.window_eq j hj)).resultLen_le
      obtain ⟨-, -, -, htokens | htokens⟩ := (s.decoders j).ranked_eq ctx s.params
      · rw [htokens]
        exact h j
      · rw [htokens, Sequence.truncate, List.length_append, List.length_take,
          List.length_replicate]
        have := h j
        omega
    · exact h j
  rw [stepRank]
  split <;> exact hrank

theorem short_stepDecode {site : Site} (h : Short ctx s) : Short ctx (stepDecode ctx x site s) := by
  rw [stepDecode]
  split
  · cases site with
    | detect =>
      show Short ctx (decodedDetect ctx x (s.computed ctx x))
      rw [decodedDetect]
      simp only
      split
      · exact h
      · exact short_beginCall h
    | prompt it =>
      intro j
      show ((decodedPrompt ctx x it (s.computed ctx x)).decoders j).sequence.tokens.length ≤ _
      rw [(decodedPrompt_decoders ctx x (s.computed ctx x) it j).2.2]
      exact h j
    | next it i =>
      intro j
      show ((decodedNext ctx x it i (s.computed ctx x)).decoders j).sequence.tokens.length ≤ _
      rw [(decodedNext_decoders ctx x (s.computed ctx x) it i j).2.2]
      exact h j
    | dtw => exact h
  · cases site <;> exact h

theorem Reachable.short (h : Reachable ctx s) : Short ctx s := by
  refine h.invariant (fun s hinit j => ?_) fun s x hr _ hs => ?_
  · rw [hinit.tokens_eq]
    exact Nat.zero_le _
  · have hr : Reachable ctx s := hr
    refine step_cases (fun _ _ => short_stepCall hs) (fun t _ => ?_) (fun _ _ => short_stepDecode hs)
      (fun _ => ?_) (fun _ _ => short_stepAttempt hs) (fun _ _ hpc => short_stepSample hpc hr.phase hs)
      (fun _ _ _ => short_stepUpdate hs) (fun _ hpc => short_stepRank hpc hr.phase hr.building hs)
      (fun _ => short_stepEmit hs) (fun _ => hs) fun _ => hs
    · rw [stepSchedule]
      split
      · exact hs
      · exact short_setup hs
    · rw [stepWindow]
      split
      · exact hs
      · split
        · exact hs
        · split <;> exact hs

end Step

/-! ### Room -/

theorem length_batchPrepLegacy (tokens : List ℕ) (nPast : ℤ) (seqId : ℕ) :
    (batchPrepLegacy tokens nPast seqId).length = tokens.length := by
  rw [batchPrepLegacy, List.length_map, List.length_zipIdx]

theorem mem_batchPrepLegacy {tokens : List ℕ} {seqId : ℕ} {e : BatchEntry}
    (h : e ∈ batchPrepLegacy tokens 0 seqId) :
    e.seqId = seqId ∧ 0 ≤ e.pos ∧ e.pos < tokens.length := by
  obtain ⟨⟨token, p⟩, hp, rfl⟩ := List.mem_map.1 h
  have hlt := List.snd_lt_of_mem_zipIdx hp
  refine ⟨rfl, ?_, ?_⟩ <;> simp only <;> omega

/-- The prompt, and at every iteration a cell for every decoder, leave room for one more. -/
theorem room_le {n m i P : ℕ} (hm : 1 ≤ m) (hmn : m ≤ n) (hP : P ≤ ctx.hparams.nTextCtx / 2 + 4)
    (hi : (i : ℤ) < nMax ctx) :
    P + (m - 1) + i * (m + (m - 1)) + m ≤ cacheSize ctx n := by
  have hlt : i + 5 ≤ ctx.hparams.nTextCtx / 2 := by
    rw [nMax] at hi
    omega
  have hpad := KvCache.le_ggmlPad (x := ctx.hparams.nTextCtx) (n := 256) (by decide)
  have hsize : ctx.hparams.nTextCtx * (if 1 < n then n + 2 else 1) ≤ cacheSize ctx n :=
    Nat.mul_le_mul_right _ hpad
  refine le_trans ?_ hsize
  have hhalf : 2 * (ctx.hparams.nTextCtx / 2) ≤ ctx.hparams.nTextCtx := Nat.mul_div_le _ 2
  generalize ctx.hparams.nTextCtx / 2 = h at hP hlt hhalf
  split_ifs with hn
  · have hblocks : i * (m + (m - 1)) ≤ i * (2 * m) := Nat.mul_le_mul_left i (by omega)
    have hmul : (i + 5) * (2 * m) ≤ h * (2 * n) := Nat.mul_le_mul hlt (by omega)
    have hcells : h * (2 * n) ≤ ctx.hparams.nTextCtx * n := by
      rw [← Nat.mul_assoc, Nat.mul_comm h 2]
      exact Nat.mul_le_mul_right n hhalf
    rw [Nat.add_mul] at hmul
    rw [Nat.mul_add ctx.hparams.nTextCtx]
    omega
  · obtain rfl : m = 1 := by omega
    omega

theorem Filled.room {i k : ℕ} (h : Filled i s)
    (hsize : s.kvSelf.size = cacheSize ctx s.kvSelfNDec) (hcur : 0 < s.nDecodersCur)
    (hprompt : s.prompt.length ≤ ctx.hparams.nTextCtx / 2 + 4) (hi : (i : ℤ) < nMax ctx)
    (hk : k ≤ s.nDecodersCur) :
    ∃ b blocks, s.kvSelf.TakenIn (b :: blocks) ∧ (∀ c ∈ blocks, c.2 ≤ s.nDecodersCur) ∧
      b.2 + (k - 1) + blocks.length * (s.nDecodersCur + (k - 1)) + k ≤ s.kvSelf.size := by
  obtain ⟨head, blocks, htaken, hlen, hblocks⟩ := h.taken
  refine ⟨_, blocks, htaken, hblocks, ?_⟩
  have hroom := room_le hcur h.nCur_le hprompt hi
  have hmul : blocks.length * (s.nDecodersCur + (k - 1)) ≤
      i * (s.nDecodersCur + (s.nDecodersCur - 1)) := Nat.mul_le_mul hlen (by omega)
  rw [hsize]
  simp only
  omega

/-- There is a cell to spare behind the prompt. -/
theorem Filled.hasSpare {i : ℕ} (h : Filled i s) (hvalid : s.kvSelf.Valid)
    (hsize : s.kvSelf.size = cacheSize ctx s.kvSelfNDec) (hcur : 0 < s.nDecodersCur)
    (hprompt : s.prompt.length ≤ ctx.hparams.nTextCtx / 2 + 4) (hi : (i : ℤ) < nMax ctx) :
    s.kvSelf.HasSpare := by
  obtain ⟨b, blocks, htaken, hblocks, hroom⟩ := h.room hsize hcur hprompt hi (k := 1) hcur
  refine htaken.hasSpare hvalid ?_
  have hsum := Windows.sum_map_le (c := 0) hblocks
  rw [List.map_cons, List.sum_cons]
  simp only [Nat.add_zero, Nat.sub_self] at hsum hroom
  have hsnd : blocks.map Prod.snd = blocks.map fun b => b.2 := rfl
  rw [hsnd]
  omega

theorem lt_cacheSize (h7 : 7 ≤ ctx.hparams.nTextCtx) (n : ℕ) :
    ctx.hparams.nTextCtx / 2 + 4 < cacheSize ctx n := by
  have hpad : ctx.hparams.nTextCtx / 2 + 4 < ggmlPad ctx.hparams.nTextCtx 256 := by
    rw [ggmlPad]
    omega
  refine hpad.trans_le (Nat.le_mul_of_pos_right _ ?_)
  split_ifs <;> omega

/-- A cleared cache has room for a batch, and a cell to spare behind it. -/
theorem Stocked.room_cleared (hs : Stocked ctx s) (h7 : 7 ≤ ctx.hparams.nTextCtx)
    (htaken : s.kvSelf.TakenIn []) {batch : List BatchEntry}
    (hlen : batch.length ≤ ctx.hparams.nTextCtx / 2 + 4) :
    (s.kvSelf.findSlot batch).2 = true := by
  have hlt := lt_cacheSize h7 s.kvSelfNDec
  refine KvCache.findSlot_complete (w := 0) hs.valid.head_le (by rw [hs.size_eq]; omega)
    fun i hi => ?_
  by_contra hpos
  obtain ⟨b, hb, -⟩ := htaken (0 + i) (by rw [hs.size_eq]; omega) (not_lt.1 hpos)
  exact absurd hb List.not_mem_nil

/-- The positions of a batch. -/
theorem AtSite.pos {site : Site} (h : AtSite ctx s site) (hpc : s.pc = .decode site)
    (hph : Phase ctx s) (h7 : 7 ≤ ctx.hparams.nTextCtx) :
    ∀ e ∈ s.batch, 0 ≤ e.pos ∧ e.pos < ctx.hparams.nTextCtx := by
  rw [Phase] at hph
  rw [hpc] at hph
  intro e he
  cases site with
  | detect =>
    rw [h.1] at he
    obtain ⟨-, hpos, hlt⟩ := mem_batchPrepLegacy he
    rw [List.length_singleton] at hlt
    omega
  | prompt it =>
    rw [h.1] at he
    obtain ⟨-, hpos, hlt⟩ := mem_batchPrepLegacy he
    have := hph.1.length_prompt_le
    omega
  | next it i =>
    have hpos := (h.2.2 e he).1
    have hprompt := hph.length_prompt_le
    have hi := hph.lt_nMax
    rw [nMax] at hi
    omega
  | dtw =>
    obtain ⟨-, tokens, hbatch, hlen⟩ := h
    rw [hbatch] at he
    obtain ⟨-, hpos, hlt⟩ := mem_batchPrepLegacy he
    omega

/-- The batch finds a slot. -/
theorem AtSite.findSlot {site : Site} (h : AtSite ctx s site) (hpc : s.pc = .decode site)
    (hph : Phase ctx s) (hs : Stocked ctx s) (h7 : 7 ≤ ctx.hparams.nTextCtx) :
    (s.kvSelf.findSlot s.batch).2 = true := by
  rw [Phase] at hph
  rw [hpc] at hph
  cases site with
  | detect => exact h.2
  | prompt it =>
    refine hs.room_cleared h7 h.2.1 ?_
    rw [h.1, length_batchPrepLegacy]
    exact hph.1.length_prompt_le
  | next it i =>
    obtain ⟨b, blocks, htaken, hblocks, hroom⟩ :=
      h.1.room hs.size_eq hph.nCur_pos hph.length_prompt_le hph.lt_nMax h.2.1
    exact htaken.findSlot hs.valid.head_le hblocks hroom
  | dtw =>
    obtain ⟨htaken, tokens, hbatch, hlen⟩ := h
    refine hs.room_cleared h7 htaken ?_
    rw [hbatch, length_batchPrepLegacy]
    omega

/-! ### The decodes -/

/-- What a decode leaves of the cache. -/
theorem AtSite.stocked {site : Site} (h : AtSite ctx s site) (hpc : s.pc = .decode site)
    (hph : Phase ctx s) (hs : Stocked ctx s) (h7 : 7 ≤ ctx.hparams.nTextCtx) :
    Stocked ctx { s with kvSelf := (s.kvSelf.reserve ctx.kvPad s.batch).1 } := by
  have hvalid : (s.kvSelf.reserve ctx.kvPad s.batch).1.Valid := hs.valid.reserve fun e he => by
    obtain ⟨hpos, hlt⟩ := h.pos hpc hph h7 e he
    have hle := ctx.hparams.nTextCtx_le
    exact ⟨hpos, by rw [posMax]; omega⟩
  have hsize := KvCache.size_reserve ctx.kvPad s.kvSelf s.batch
  have hlt := lt_cacheSize h7 s.kvSelfNDec
  refine ⟨hvalid, hsize.trans hs.size_eq, ?_⟩
  rw [Phase] at hph
  rw [hpc] at hph
  cases site with
  | detect =>
    refine hs.spare.reserve fun e he => ?_
    rw [h.1] at he
    exact (mem_batchPrepLegacy he).1
  | prompt it =>
    refine hs.spare.reserve fun e he => ?_
    rw [h.1] at he
    exact (mem_batchPrepLegacy he).1
  | next it i =>
    by_cases hone : s.nDecodersCur = 1
    · -- a single decoder: every cell carries its tag alone
      refine hs.spare.reserve fun e he => ?_
      have := (h.2.2 e he).2
      omega
    · have hpos := hph.nCur_pos
      obtain ⟨head, blocks, htaken, hlen, hblocks⟩ := h.1.taken
      obtain ⟨head', htaken'⟩ := htaken.reserve ctx.kvPad s.batch
      refine htaken'.hasSpare hvalid ?_
      have hroom := room_le hpos h.1.nCur_le hph.length_prompt_le hph.lt_nMax
      have hsum := Windows.sum_map_le (c := 0) hblocks
      have hmul : blocks.length * (s.nDecodersCur + 0) ≤
          i * (s.nDecodersCur + (s.nDecodersCur - 1)) := Nat.mul_le_mul hlen (by omega)
      have hbatch := h.2.1
      rw [hsize, hs.size_eq, List.map_append, List.sum_append, List.map_cons, List.sum_cons,
        List.map_singleton, List.sum_singleton]
      simp only [Nat.add_zero] at hsum hmul ⊢
      have hsnd : blocks.map Prod.snd = blocks.map fun b => b.2 := rfl
      rw [hsnd]
      omega
  | dtw =>
    refine hs.spare.reserve fun e he => ?_
    obtain ⟨-, tokens, hbatch, -⟩ := h
    rw [hbatch] at he
    exact (mem_batchPrepLegacy he).1

/-- Everything that holds at a location. -/
structure Slots (ctx : Context K F G) (s : State K F G) : Prop extends Stocked ctx s where
  slotsAt : SlotsAt ctx s

/-- A step that does not change the cache. -/
theorem Stocked.slots {s' : State K F G} (h : Stocked ctx s) (hkv : s'.kvSelf = s.kvSelf)
    (hn : s'.kvSelfNDec = s.kvSelfNDec) (hat : SlotsAt ctx s') : Slots ctx s' where
  valid := hkv ▸ h.valid
  size_eq := by rw [hkv, hn, h.size_eq]
  spare := hkv ▸ h.spare
  slotsAt := hat

theorem slots_setup (h : Stocked ctx s) : Slots ctx (setup ctx s) := by
  rw [setup]
  split
  · exact h.slots rfl rfl trivial
  · split <;> exact h.slots rfl rfl trivial

theorem slots_beginCall (h : Stocked ctx s) : Slots ctx (beginCall ctx s) := by
  rw [beginCall]
  split
  · exact h.slots rfl rfl trivial
  · split
    · exact h.slots rfl rfl trivial
    · exact slots_setup ⟨h.valid, h.size_eq, h.spare⟩

theorem slots_stepCall (h : Stocked ctx s) : Slots ctx (stepCall ctx x s) := by
  rw [stepCall]
  split
  · exact h.slots rfl rfl trivial
  · split
    · split
      · exact h.slots rfl rfl trivial
      · exact ⟨⟨h.valid.seqRm _ _ _, h.size_eq, h.spare.seqRm _ _ _⟩, rfl,
          h.spare.findSlot h.valid rfl⟩
    · exact slots_beginCall ⟨h.valid, h.size_eq, h.spare⟩

theorem slots_stepSchedule (t : F) (h : Stocked ctx s) : Slots ctx (stepSchedule ctx t s) := by
  rw [stepSchedule]
  split
  · exact h.slots rfl rfl trivial
  · exact slots_setup h

theorem slots_stepWindow (h : Stocked ctx s) : Slots ctx (stepWindow x s) := by
  rw [stepWindow]
  split
  · exact h.slots rfl rfl trivial
  · split
    · exact h.slots rfl rfl trivial
    · split <;> exact h.slots rfl rfl trivial

/-- The cache of an attempt is cleared, and made for at least as many decoders. -/
theorem attemptCache_spec {n : ℕ} {kv : KvCache × ℕ} (h : attemptCache ctx x n s = some kv)
    (hsize : s.kvSelf.size = cacheSize ctx s.kvSelfNDec) :
    ∃ c : KvCache, kv.1 = c.clear ∧ c.size = cacheSize ctx kv.2 ∧ n ≤ kv.2 := by
  rw [attemptCache] at h
  split at h
  · split at h
    · obtain rfl := Option.some.inj h
      exact ⟨_, rfl, rfl, le_rfl⟩
    · cases h
  · rename_i hlt
    obtain rfl := Option.some.inj h
    exact ⟨s.kvSelf, rfl, hsize, not_lt.1 hlt⟩

theorem slots_stepAttempt {it : ℕ} (h : Stocked ctx s) (h7 : 7 ≤ ctx.hparams.nTextCtx) :
    Slots ctx (stepAttempt ctx x it s) := by
  rw [stepAttempt]
  split
  · exact h.slots rfl rfl trivial
  · split
    · exact h.slots rfl rfl trivial
    · split
      · exact h.slots rfl rfl trivial
      · rename_i t _ _ prompt _ _ kv hkv
        obtain ⟨c, hclear, hsize, hn⟩ := attemptCache_spec hkv h.size_eq
        have hpos : 0 < c.size := by
          have := lt_cacheSize h7 kv.2
          omega
        refine ⟨⟨?_, ?_, ?_⟩, rfl, ?_, hn⟩
        · show kv.1.Valid
          rw [hclear]
          exact .clear
        · show kv.1.size = _
          rw [hclear, KvCache.size_clear, hsize]
          rfl
        · show kv.1.HasSpare
          rw [hclear]
          exact .clear hpos
        · show kv.1.TakenIn []
          rw [hclear]
          exact KvCache.takenIn_clear c

omit [Field K] [LinearOrder K] in
/-- Retagging keeps the blocks. -/
theorem Filled.thins {s' : State K F G} {n : ℕ} (h : Filled n s)
    (hthins : Thins s.kvSelf s'.kvSelf) (hprompt : s'.prompt = s.prompt)
    (hcur : s'.nDecodersCur = s.nDecodersCur) (hn : s'.kvSelfNDec = s.kvSelfNDec) :
    Filled n s' := by
  obtain ⟨head, blocks, htaken, hlen, hblocks⟩ := h.taken
  refine ⟨⟨head, blocks, ?_, hlen, ?_⟩, ?_⟩
  · rw [hprompt]
    exact htaken.thins hthins
  · rw [hcur]
    exact hblocks
  · rw [hcur, hn]
    exact h.nCur_le

omit [Field K] [LinearOrder K] in
theorem thins_shuffleStep (decoders : ℕ → Decoder K G) (kv : KvCache) (j : ℕ) :
    Thins kv (shuffleStep decoders kv j) := by
  rw [shuffleStep]
  split
  · exact ((KvCache.thins_seqRm _ _ _ _).trans (KvCache.thins_seqCp _ _ _ _ _)).trans
      (KvCache.thins_seqRm _ _ _ _)
  · exact .refl kv

omit [Field K] [LinearOrder K] in
theorem thins_foldl_reassignStep (cs : List (Candidate K G)) (i : ℕ) (js : List ℕ)
    (acc : ℕ × (ℕ → Decoder K G) × KvCache) :
    Thins acc.2.2 (js.foldl (reassignStep cs i) acc).2.2 := by
  induction js generalizing acc with
  | nil => exact .refl _
  | cons j js ih =>
    refine Thins.trans ?_ (ih (reassignStep cs i acc j))
    rw [reassignStep]
    split
    · split
      · exact .refl _
      · exact KvCache.thins_seqCp _ _ _ _ _
    · exact .refl _

omit [Field K] [LinearOrder K] in
/-- Beam search takes no cell. -/
theorem thins_reassign (cs : List (Candidate K G)) (i nCur : ℕ) (decoders : ℕ → Decoder K G)
    (kv : KvCache) : Thins kv (reassign cs i nCur decoders kv).2 :=
  (thins_foldl_reassignStep cs i _ (0, decoders, kv)).trans
    (KvCache.thins_foldl (fun c j => thins_shuffleStep _ c j) _ _)

theorem slots_stepSample {it i : ℕ} (hpc : s.pc = .sample it i) (hph : Phase ctx s)
    (h : Slots ctx s) : Slots ctx (stepSample ctx x it i s) := by
  obtain ⟨hs, hat⟩ := h
  rw [Phase] at hph
  rw [SlotsAt] at hat
  rw [hpc] at hph hat
  rw [stepSample]
  split
  · exact ⟨⟨hs.valid, hs.size_eq, hs.spare⟩, ⟨hat.taken, hat.nCur_le⟩⟩
  · split
    · exact hs.slots rfl rfl trivial
    · have hthins := thins_reassign (sortedCandidates ctx x s) i s.nDecodersCur s.decoders s.kvSelf
      set s' : State K F G := { s with
        decoders := (reassign (sortedCandidates ctx x s) i s.nDecodersCur s.decoders s.kvSelf).1
        kvSelf := (reassign (sortedCandidates ctx x s) i s.nDecodersCur s.decoders s.kvSelf).2
        pc := .update it i }
      have hfilled : Filled i s' := hat.thins hthins rfl rfl rfl
      have hvalid : s'.kvSelf.Valid := hthins.valid hs.valid
      have hsize : s'.kvSelf.size = cacheSize ctx s'.kvSelfNDec := hthins.size_eq.trans hs.size_eq
      have hspare : s'.kvSelf.HasSpare :=
        hfilled.hasSpare hvalid hsize hph.nCur_pos hph.length_prompt_le hph.lt_nMax
      exact ⟨⟨hvalid, hsize, hspare⟩, hfilled⟩

theorem slots_stepUpdate {it i : ℕ} (hpc : s.pc = .update it i) (h : Slots ctx s) :
    Slots ctx (stepUpdate ctx it i s) := by
  obtain ⟨hs, hat⟩ := h
  rw [SlotsAt] at hat
  rw [hpc] at hat
  rw [stepUpdate]
  split
  · exact hs.slots rfl rfl trivial
  · split
    · exact hs.slots rfl rfl trivial
    · have hmem : ∀ j ∈ (s.updateAll ctx i).activeDecoders, j < s.nDecodersCur :=
        fun j hj => (mem_activeDecoders.1 hj).1
      refine hs.slots rfl rfl ⟨⟨hat.taken, hat.nCur_le⟩, ?_, fun e he => ?_⟩
      · show (nextBatch i (s.updateAll ctx i)).length ≤ s.nDecodersCur
        rw [nextBatch, List.length_map, State.activeDecoders]
        exact (List.length_filter_le _ _).trans List.length_range.le
      · obtain ⟨j, hj, rfl⟩ := List.mem_map.1 he
        exact ⟨by push_cast; rfl, hmem j hj⟩

theorem slots_stepRank {it : ℕ} (h : Stocked ctx s) : Slots ctx (stepRank ctx it s) := by
  rw [stepRank]
  split <;> exact h.slots rfl rfl trivial

variable (ctx s) in
theorem length_dtwTokens_le (segs : List (Segment K)) :
    (dtwTokens ctx s segs).length ≤ (segs.flatMap Segment.tokens).length + 4 := by
  have hfilter : (segs.flatMap fun seg =>
      (ids seg.tokens).filter (· < ctx.vocab.tokenEot)).length ≤
        (segs.flatMap Segment.tokens).length := by
    induction segs with
    | nil => exact le_rfl
    | cons seg segs ih =>
      have hseg := List.length_filter_le (fun id => decide (id < ctx.vocab.tokenEot)) (ids seg.tokens)
      rw [ids, List.length_map] at hseg
      simp only [List.flatMap_cons, List.length_append]
      exact Nat.add_le_add hseg ih
  rw [dtwTokens]
  simp only [List.length_append, List.length_cons, List.length_nil]
  split_ifs <;> simp only [List.length_singleton, List.length_nil] <;> omega

variable (ctx s) in
/-- The tokens of a window's segments. -/
theorem length_windowSegments_le :
    ((windowSegments ctx s).flatMap Segment.tokens).length ≤ s.best.sequence.tokens.length := by
  rw [windowSegments]
  split_ifs
  · exact length_segments_le _
  · exact Nat.zero_le _

theorem windowSegments_eq_nil (h : s.best.sequence.tokens = []) : windowSegments ctx s = [] := by
  rw [windowSegments, h, segments, ite_self]

/-- A window with segments has a token, so that there is an iteration. -/
theorem length_dtwTokens_le_half (hshort : Short ctx s) (hsegs : windowSegments ctx s ≠ []) :
    (dtwTokens ctx s (windowSegments ctx s)).length ≤ ctx.hparams.nTextCtx / 2 := by
  have hne : s.best.sequence.tokens ≠ [] := fun hnil => hsegs (windowSegments_eq_nil hnil)
  have hone := List.length_pos_iff.2 hne
  have hbest : s.best.sequence.tokens.length ≤ (nMax ctx).toNat := hshort s.bestDecoderId
  have htokens := length_dtwTokens_le ctx s (windowSegments ctx s)
  have hsegments := length_windowSegments_le ctx s
  rw [nMax] at hbest
  omega

theorem slots_stepEmit (hshort : Short ctx s) (h : Stocked ctx s)
    (h7 : 7 ≤ ctx.hparams.nTextCtx) : Slots ctx (stepEmit ctx s) := by
  rw [stepEmit]
  split
  · exact h.slots rfl rfl trivial
  · split
    · rename_i hsegs
      split
      · exact h.slots rfl rfl trivial
      · have hpos : 0 < s.kvSelf.size := by
          have := lt_cacheSize h7 s.kvSelfNDec
          have := h.size_eq
          omega
        refine ⟨⟨KvCache.Valid.clear.seqRm _ _ _, h.size_eq, (HasSpare.clear hpos).seqRm _ _ _⟩,
          (KvCache.takenIn_clear s.kvSelf).thins (KvCache.thins_seqRm _ _ _ _), _, rfl, ?_⟩
        refine length_dtwTokens_le_half hshort ?_
        simp only [Bool.and_eq_true, Bool.not_eq_true', List.isEmpty_eq_false_iff] at hsegs
        exact hsegs.2
    · exact h.slots rfl rfl trivial

section Step

variable [FloorRing K]

variable (ctx x) in
theorem thins_decodedPrompt (s : State K F G) (it : ℕ) :
    Thins s.kvSelf (decodedPrompt ctx x it s).kvSelf :=
  KvCache.thins_foldl (fun c j => KvCache.thins_seqCp c 0 j _ _) _ _

theorem slots_stepDecode {site : Site} (hpc : s.pc = .decode site) (hph : Phase ctx s)
    (h : Slots ctx s) (h7 : 7 ≤ ctx.hparams.nTextCtx) : Slots ctx (stepDecode ctx x site s) := by
  have hat := h.slotsAt
  rw [SlotsAt] at hat
  rw [hpc] at hat
  have hs := hat.stocked hpc hph h.toStocked h7
  rw [stepDecode]
  split
  · cases site with
    | detect =>
      show Slots ctx (decodedDetect ctx x (s.computed ctx x))
      rw [decodedDetect]
      simp only
      split
      · exact hs.slots rfl rfl trivial
      · exact slots_beginCall ⟨hs.valid, hs.size_eq, hs.spare⟩
    | prompt it =>
      rw [Phase] at hph
      rw [hpc] at hph
      have hthins := thins_decodedPrompt ctx x (s.computed ctx x) it
      obtain ⟨head, htaken⟩ := hat.2.1.reserve ctx.kvPad s.batch
      rw [List.nil_append, hat.1, length_batchPrepLegacy, ← hat.1] at htaken
      have htaken : (s.computed ctx x).kvSelf.TakenIn [(head, s.prompt.length)] := htaken
      have hvalid := hthins.valid hs.valid
      have hsize : (decodedPrompt ctx x it (s.computed ctx x)).kvSelf.size =
          cacheSize ctx s.kvSelfNDec := hthins.size_eq.trans hs.size_eq
      have hlt := lt_cacheSize h7 s.kvSelfNDec
      have hprompt := hph.1.length_prompt_le
      refine ⟨⟨hvalid, hsize, (htaken.thins hthins).hasSpare hvalid ?_⟩, ?_⟩
      · rw [hsize, List.map_singleton, List.sum_singleton]
        simp only
        omega
      · have hfilled : Filled 0 (s.computed ctx x) :=
          ⟨⟨head, [], htaken, le_rfl, List.forall_mem_nil _⟩, hat.2.2⟩
        have hfilled : Filled 0 (decodedPrompt ctx x it (s.computed ctx x)) :=
          hfilled.thins hthins rfl rfl rfl
        show SlotsAt ctx (decodedPrompt ctx x it (s.computed ctx x))
        rw [SlotsAt]
        by_cases hmax : 0 < nMax ctx
        · rw [show (decodedPrompt ctx x it (s.computed ctx x)).pc = .sample it 0 from if_pos hmax]
          exact hfilled
        · rw [show (decodedPrompt ctx x it (s.computed ctx x)).pc = .rank it from if_neg hmax]
          trivial
    | next it i =>
      obtain ⟨head, blocks, htaken, hlen, hblocks⟩ := hat.1.taken
      obtain ⟨head', htaken'⟩ := htaken.reserve ctx.kvPad s.batch
      have hfilled : Filled (i + 1) (s.computed ctx x) := by
        refine ⟨⟨head, blocks ++ [(head', s.batch.length)], htaken', ?_, fun b hb => ?_⟩,
          hat.1.nCur_le⟩
        · rw [List.length_append, List.length_singleton]
          exact Nat.succ_le_succ hlen
        · rcases List.mem_append.1 hb with hb | hb
          · exact hblocks b hb
          · rw [List.mem_singleton.1 hb]
            exact hat.2.1
      refine ⟨⟨hs.valid, hs.size_eq, hs.spare⟩, ?_⟩
      show SlotsAt ctx (decodedNext ctx x it i (s.computed ctx x))
      rw [SlotsAt]
      by_cases hmax : (i : ℤ) + 1 < nMax ctx
      · rw [show (decodedNext ctx x it i (s.computed ctx x)).pc = .sample it (i + 1) from
          if_pos hmax]
        exact ⟨hfilled.taken, hfilled.nCur_le⟩
      · rw [show (decodedNext ctx x it i (s.computed ctx x)).pc = .rank it from if_neg hmax]
        trivial
    | dtw => exact hs.slots rfl rfl trivial
  · cases site <;> exact hs.slots rfl rfl trivial

theorem slots_step (hr : Reachable ctx s) (h : Slots ctx s) (h7 : 7 ≤ ctx.hparams.nTextCtx)
    (x : Input K F G) : Slots ctx (step ctx x s) :=
  step_cases (fun _ _ => slots_stepCall h.toStocked) (fun t _ => slots_stepSchedule t h.toStocked)
    (fun _ hpc => slots_stepDecode hpc hr.phase h h7) (fun _ => slots_stepWindow h.toStocked)
    (fun _ _ => slots_stepAttempt h.toStocked h7) (fun _ _ hpc => slots_stepSample hpc hr.phase h)
    (fun _ _ hpc => slots_stepUpdate hpc h)
    (fun _ _ => slots_stepRank h.toStocked)
    (fun _ => slots_stepEmit hr.short h.toStocked h7)
    (fun _ => h.toStocked.slots rfl rfl trivial) fun _ => h

omit [FloorRing K] in
theorem slots_init (h : Init ctx s) (h7 : 7 ≤ ctx.hparams.nTextCtx) : Slots ctx s := by
  obtain ⟨c, hc⟩ := h.kvSelf_eq
  have hsize : s.kvSelf.size = cacheSize ctx s.kvSelfNDec := by
    rw [hc, h.kvSelfNDec_eq]
    exact (Nat.mul_one _).symm
  have hlt := lt_cacheSize h7 s.kvSelfNDec
  refine ⟨⟨?_, hsize, ⟨0, by omega, ?_⟩⟩, ?_⟩
  · rw [hc]
    exact KvCache.valid_init _ _
  · rw [hc]
    exact Finset.empty_subset _
  · rw [SlotsAt]
    rw [h.pc_eq]
    trivial

theorem Reachable.slots (h : Reachable ctx s) (h7 : 7 ≤ ctx.hparams.nTextCtx) : Slots ctx s :=
  h.invariant (fun _ hinit => slots_init hinit h7) fun _ x hr _ hs => slots_step hr hs h7 x

theorem Reachable.findSlot {site : Site} (h : Reachable ctx s) (hpc : s.pc = .decode site)
    (h7 : 7 ≤ ctx.hparams.nTextCtx) : (s.kvSelf.findSlot s.batch).2 = true ∧
      ∀ e ∈ s.batch, 0 ≤ e.pos ∧ e.pos < ctx.hparams.nTextCtx := by
  have hslots := h.slots h7
  have hat := hslots.slotsAt
  rw [SlotsAt] at hat
  rw [hpc] at hat
  exact ⟨hat.findSlot hpc h.phase hslots.toStocked h7, hat.pos hpc h.phase h7⟩

/-- **Every decode finds a slot for its batch**, at positions inside the text context, if the context
is not smaller than the longest prompt. -/
theorem slot_of_reachable {site : Site} (h : Reachable ctx s) (hpc : s.pc = .decode site)
    (h7 : 7 ≤ ctx.hparams.nTextCtx) : (s.kvSelf.reserve ctx.kvPad s.batch).2 = true ∧
      ∀ e ∈ s.batch, 0 ≤ e.pos ∧ e.pos < ctx.hparams.nTextCtx := by
  rw [KvCache.reserve_snd]
  exact h.findSlot hpc h7

end Step

/-! ### A context that is too small -/

theorem le_promptVocab : 51864 ≤ 51865 := by decide

theorem promptVocab_le : 51865 ≤ 51866 := by decide

/-- The multilingual vocabulary. -/
def promptVocab : Vocab :=
  { englishVocab with
    nVocab := 51865
    le_nVocab := le_promptVocab
    nVocab_le := promptVocab_le }

/-- A multilingual model with a text context of `nTextCtx`. -/
noncomputable def promptContext (nTextCtx : ℕ) (h : nTextCtx ≤ 2147483647) : Context ℝ ℚ Unit :=
  { english nTextCtx h with vocab := promptVocab }

/-- Some history, and a prompt with everything that a prompt can hold. -/
noncomputable def fullPromptParams : Params ℝ ℚ Unit :=
  { defaultParams .greedy with
    noContext := false
    noTimestamps := true
    promptTokens := some [64, 64]
    temperatureInc := 0 }

/-- The first attempt of the first call is about to start. -/
noncomputable def fullPromptStart (nTextCtx : ℕ) (h : nTextCtx ≤ 2147483647) : State ℝ ℚ Unit :=
  let ctx := promptContext nTextCtx h
  let calm := calmInput fullPromptParams fun _ => 0
  step ctx calm (step ctx calm (freshState ctx))

/-- It is about to decode its prompt. -/
noncomputable def fullPromptState (nTextCtx : ℕ) (h : nTextCtx ≤ 2147483647) : State ℝ ℚ Unit :=
  step (promptContext nTextCtx h) (calmInput fullPromptParams fun _ => 0) (fullPromptStart nTextCtx h)

theorem reachable_fullPromptState (nTextCtx : ℕ) (h : nTextCtx ≤ 2147483647) :
    Reachable (promptContext nTextCtx h) (fullPromptState nTextCtx h) := by
  rw [fullPromptState, fullPromptStart]
  exact (((Reachable.step (.init (freshState_init _)) _).step _).step _)

/-- The prompt has half the text context of history, and four tokens more. -/
theorem fullPromptState_eq {nTextCtx : ℕ} (h : nTextCtx ≤ 2147483647) (hn : nTextCtx / 2 = 3) :
    (fullPromptState nTextCtx h).pc = .decode (.prompt 0) ∧
      (fullPromptState nTextCtx h).batch.map BatchEntry.pos = [0, 1, 2, 3, 4, 5, 6] := by
  have hmax : maxPromptCtx (promptContext nTextCtx h) (fullPromptStart nTextCtx h).params = 3 := by
    show min (16384 : ℤ) (nTextCtx / 2 : ℕ) = 3
    rw [hn]
    rfl
  have htakes : takesHistory (promptContext nTextCtx h) (fullPromptStart nTextCtx h).params
      (fullPromptStart nTextCtx h).promptPast0 (fullPromptStart nTextCtx h).promptPast1 0 = true := by
    rw [takesHistory, hmax]
    show (true && ratTemperature.lt 0 ratTemperature.cutoff && true && true) = true
    rw [show ratTemperature.lt 0 ratTemperature.cutoff = true by norm_num [ratTemperature]]
    rfl
  have htake : nTake1 (promptContext nTextCtx h) (fullPromptStart nTextCtx h).params
      (fullPromptStart nTextCtx h).promptPast0 (fullPromptStart nTextCtx h).promptPast1 = 2 := by
    rw [nTake1, hmax]
    rfl
  have hprompt : assemblePrompt (promptContext nTextCtx h) (fullPromptStart nTextCtx h).params
      (fullPromptStart nTextCtx h).promptPast0 (fullPromptStart nTextCtx h).promptPast1
      (fullPromptStart nTextCtx h).promptInit 0 =
        some [promptVocab.tokenPrev, 64, 64, promptVocab.tokenSot,
          promptVocab.tokenLang 0, promptVocab.tokenTranscribe,
          promptVocab.tokenNot] := by
    have hpast : (fullPromptStart nTextCtx h).promptPast1 = [64, 64] := rfl
    have hinit : (fullPromptStart nTextCtx h).promptInit = [promptVocab.tokenSot,
      promptVocab.tokenLang 0, promptVocab.tokenTranscribe,
      promptVocab.tokenNot] := rfl
    rw [assemblePrompt, if_pos htakes, htake, if_neg (by decide), hpast, hinit]
    rfl
  have htemp : (fullPromptStart nTextCtx h).temperatures[0]? = some 0 := rfl
  have hstep : fullPromptState nTextCtx h = stepAttempt (promptContext nTextCtx h)
      (calmInput fullPromptParams fun _ => 0) 0 (fullPromptStart nTextCtx h) := rfl
  rw [hstep, stepAttempt, htemp]
  simp only [hprompt]
  exact ⟨rfl, rfl⟩

/-- In a context of six tokens the last token of a full prompt has position six. -/
theorem not_forall_slot : ¬∀ (ctx : Context ℝ ℚ Unit) (s : State ℝ ℚ Unit) (site : Site),
    Reachable ctx s → s.pc = .decode site → (s.kvSelf.reserve ctx.kvPad s.batch).2 = true ∧
      ∀ e ∈ s.batch, 0 ≤ e.pos ∧ e.pos < ctx.hparams.nTextCtx := by
  intro h
  obtain ⟨hpc, hpos⟩ := fullPromptState_eq (show 6 ≤ 2147483647 by decide) rfl
  obtain ⟨-, hlt⟩ := h _ _ _ (reachable_fullPromptState 6 (by decide)) hpc
  have hmem : (6 : ℤ) ∈ (fullPromptState 6 (by decide)).batch.map BatchEntry.pos := by
    rw [hpos]
    decide
  obtain ⟨e, he, h6⟩ := List.mem_map.1 hmem
  have := (hlt e he).2
  rw [h6] at this
  exact absurd this (by decide)

theorem slot_of_reachable_fullPrompt :
    ((fullPromptState 7 (by decide)).kvSelf.reserve 1 (fullPromptState 7 (by decide)).batch).2 =
        true ∧
      ∀ e ∈ (fullPromptState 7 (by decide)).batch, 0 ≤ e.pos ∧ e.pos < (7 : ℕ) :=
  slot_of_reachable (reachable_fullPromptState 7 (by decide)) (fullPromptState_eq _ rfl).1
    (show 7 ≤ (promptContext 7 (by decide)).hparams.nTextCtx by decide)

end Full

end WhisperCpp
