import WhisperCpp.Library.Spans
import Mathlib.Algebra.Order.Group.Nat
import Mathlib.Data.Nat.Bits
import Mathlib.Tactic.SplitIfs

/-!
# The allocator of a graph's memory

`ggml_dyn_tallocr` gives addresses in chunks of memory that are allocated later, as large as they
have turned out to be. It keeps the free blocks of each chunk.

## Main definitions

* `DynTallocr`, `DynTallocr.alloc`, `DynTallocr.freeBytes` — the allocator
* `Tiles` — every byte is free or in use
* `Client`, `Client.step` — what is in use, and what can be done with it

## Main results

* `Tiles.alloc`, `Tiles.freeBytes` — what the operations keep
* `apart_of_run` — what is in use does not overlap, over every run
-/

namespace WhisperCpp

namespace Galloc

open Spans

/-- What happens instead of a result. -/
inductive Stop where
  /-- `GGML_ASSERT` or `GGML_ABORT`. -/
  | aborted
  /-- There is no such chunk. -/
  | noChunk
  deriving DecidableEq, Repr

/-! ### The allocator -/

/-- `tallocr_chunk`. A free block is a span. -/
structure Chunk where
  freeBlocks : List Span
  maxSize : ℕ
  deriving DecidableEq, Repr

/-- `ggml_dyn_tallocr`. -/
structure DynTallocr where
  alignment : ℕ
  maxChunkSize : ℕ
  chunks : List Chunk
  deriving DecidableEq, Repr

/-- `buffer_address`. -/
structure Address where
  chunk : ℕ
  offset : ℕ
  deriving DecidableEq, Repr

/-- `aligned_offset`, of no buffer. -/
def alignedOffset (offset alignment : ℕ) : ℕ :=
  (offset + (alignment - offset % alignment) % alignment) % 2 ^ 64

/-- `ggml_dyn_tallocr_new`. -/
def DynTallocr.new (alignment maxBufferSize : ℕ) : DynTallocr where
  alignment := alignment
  maxChunkSize := min maxBufferSize ((2 ^ 64 - 1) / 2)
  chunks := []

/-- A block of one of the chunks, in the search for the best: the chunk and the block, and its
size. -/
def fitStep (size c : ℕ) (best : Option (ℕ × ℕ) × ℕ) (block : Span × ℕ) : Option (ℕ × ℕ) × ℕ :=
  if size ≤ block.1.size ∧ block.1.size ≤ best.2 then (some (c, block.2), block.1.size) else best

/-- A block that fits best, besides the last ones. `best_fit_size` is of each chunk. -/
def bestFit (size : ℕ) (chunks : List Chunk) : Option (ℕ × ℕ) :=
  chunks.zipIdx.foldl (fun best chunk =>
    (chunk.1.freeBlocks.dropLast.zipIdx.foldl (fitStep size chunk.2) (best, 2 ^ 64 - 1)).1) none

/-- The last block of one of the chunks, in the search for the best, and how far it is reused. -/
def lastStep (size : ℕ) (best : Option (ℕ × ℕ) × ℤ) (chunk : Chunk × ℕ) : Option (ℕ × ℕ) × ℤ :=
  match chunk.1.freeBlocks.getLast? with
  | none => best
  | some block =>
    let reuseFactor := ((chunk.1.maxSize : ℤ) - block.offset - size).bmod (2 ^ 64)
    if size ≤ block.size ∧
        (best.2 < 0 ∧ best.2 < reuseFactor ∨ 0 ≤ reuseFactor ∧ reuseFactor < best.2) then
      (some (chunk.2, chunk.1.freeBlocks.length - 1), reuseFactor)
    else best

/-- A last block that fits best. -/
def lastFit (size : ℕ) (chunks : List Chunk) : Option (ℕ × ℕ) :=
  (chunks.zipIdx.foldl (lastStep size) (none, -2 ^ 63)).1

/-- The size of a new chunk. The last one is as large as can be. -/
def DynTallocr.chunkSize (minSize : ℕ) (a : DynTallocr) : ℕ :=
  if a.chunks.length = 15 then (2 ^ 64 - 1) / 2 else max minSize a.maxChunkSize

/-- `ggml_dyn_tallocr_new_chunk`. -/
def DynTallocr.newChunk (minSize : ℕ) (a : DynTallocr) : Option DynTallocr :=
  if 16 ≤ a.chunks.length then none
  else some { a with chunks := a.chunks ++ [⟨[⟨0, a.chunkSize minSize⟩], 0⟩] }

/-- A block without its front. It is removed if it is empty. -/
def carveBlock (size i : ℕ) (block : Span) (blocks : List Span) : List Span :=
  let block' : Span := ⟨(block.offset + size) % 2 ^ 64, (block.size + 2 ^ 64 - size) % 2 ^ 64⟩
  if block'.size = 0 then blocks.eraseIdx i else blocks.set i block'

/-- The front of a block is in use. -/
def DynTallocr.carve (c i size : ℕ) (a : DynTallocr) : Except Stop (Address × DynTallocr) :=
  match a.chunks[c]? with
  | none => .error .noChunk
  | some chunk =>
    match chunk.freeBlocks[i]? with
    | none => .error .noChunk
    | some block =>
      let chunk' : Chunk :=
        ⟨carveBlock size i block chunk.freeBlocks,
          max chunk.maxSize ((block.offset + size) % 2 ^ 64)⟩
      .ok (⟨c, block.offset⟩, { a with chunks := a.chunks.set c chunk' })

/-- `ggml_dyn_tallocr_alloc`. -/
def DynTallocr.alloc (size : ℕ) (a : DynTallocr) : Except Stop (Address × DynTallocr) :=
  let size := alignedOffset size a.alignment
  match (bestFit size a.chunks).or (lastFit size a.chunks) with
  | some (c, i) => a.carve c i size
  | none =>
    match a.newChunk size with
    | none => .error .aborted
    | some a => a.carve (a.chunks.length - 1) 0 size

/-- A freed span behind a block, and the block behind it. -/
def mergeBehind (size : ℕ) (block : Span) : List Span → List Span
  | [] => [⟨block.offset, block.size + size⟩]
  | next :: rest =>
    if block.offset + (block.size + size) = next.offset then
      ⟨block.offset, block.size + size + next.size⟩ :: rest
    else ⟨block.offset, block.size + size⟩ :: next :: rest

/-- A freed span in front of a block, and the block in front of it. -/
def mergeInFront (freed block : Span) (front : List Span) : List Span :=
  match front.getLast? with
  | none => [⟨freed.offset, block.size + freed.size⟩]
  | some prev =>
    if prev.offset + prev.size = freed.offset then
      front.dropLast ++ [⟨prev.offset, prev.size + (block.size + freed.size)⟩]
    else front ++ [⟨freed.offset, block.size + freed.size⟩]

/-- The loop over the blocks, behind those it has passed. -/
def merge (freed : Span) (front : List Span) : List Span → Option (List Span)
  | [] => none
  | block :: rest =>
    if block.offset + block.size = freed.offset then
      some (front ++ mergeBehind freed.size block rest)
    else if freed.offset + freed.size = block.offset then
      some (mergeInFront freed block front ++ rest)
    else merge freed (front ++ [block]) rest

/-- `ggml_dyn_tallocr_insert_block`, of not more than `MAX_FREE_BLOCKS` blocks. -/
def insertBlock (freed : Span) (blocks : List Span) : Except Stop (List Span) :=
  if 256 ≤ blocks.length then .error .aborted
  else .ok (blocks.takeWhile (fun b => b.offset < freed.offset) ++ freed ::
    blocks.dropWhile fun b => b.offset < freed.offset)

/-- The free blocks with one more. -/
def freeBlock (freed : Span) (blocks : List Span) : Except Stop (List Span) :=
  match merge freed [] blocks with
  | some blocks => .ok blocks
  | none => insertBlock freed blocks

/-- `ggml_dyn_tallocr_free_bytes`. -/
def DynTallocr.freeBytes (addr : Address) (size : ℕ) (a : DynTallocr) : Except Stop DynTallocr :=
  match a.chunks[addr.chunk]? with
  | none => .error .noChunk
  | some chunk =>
    (freeBlock ⟨addr.offset, alignedOffset size a.alignment⟩ chunk.freeBlocks).map fun blocks =>
      { a with chunks := a.chunks.set addr.chunk { chunk with freeBlocks := blocks } }

/-! ### Blocks -/

section Blocks

variable {freed block : Span} {front rest blocks blocks' : List Span}
  {size capacity alignment x : ℕ}

/-- A block is in a chunk, and begins at a multiple of the alignment. -/
def Fits (capacity alignment : ℕ) (b : Span) : Prop :=
  b.offset + b.size ≤ capacity ∧ alignment ∣ b.offset

theorem cover_mergeBehind (h : block.offset + block.size = freed.offset) :
    cover (mergeBehind freed.size block rest) x =
      block.count x + freed.count x + cover rest x := by
  have hjoin : (Span.mk block.offset (block.size + freed.size)).count x =
      block.count x + freed.count x := by
    rw [Span.count_split, h]
  cases rest with
  | nil => rw [mergeBehind, cover_cons, hjoin, cover_nil]
  | cons next rest =>
    rw [mergeBehind]
    split_ifs with hnext
    · rw [cover_cons, cover_cons, Span.count_split, hjoin, hnext, Nat.add_assoc]
    · rw [cover_cons, cover_cons, hjoin]

theorem cover_mergeInFront (h : freed.offset + freed.size = block.offset) :
    cover (mergeInFront freed block front) x =
      cover front x + freed.count x + block.count x := by
  have hjoin : (Span.mk freed.offset (block.size + freed.size)).count x =
      freed.count x + block.count x := by
    rw [Nat.add_comm, Span.count_split, h]
  rw [mergeInFront]
  cases hlast : front.getLast? with
  | none =>
    rw [List.getLast?_eq_none_iff.mp hlast, cover_cons, hjoin, cover_nil]
    omega
  | some prev =>
    obtain ⟨front, rfl⟩ := List.getLast?_eq_some_iff.mp hlast
    simp only
    split_ifs with hprev
    · have hcount : (Span.mk prev.offset (prev.size + (block.size + freed.size))).count x =
          prev.count x + (freed.count x + block.count x) := by
        rw [Span.count_split, hprev, hjoin]
      rw [List.dropLast_concat, cover_append, cover_append, cover_cons, cover_cons, cover_nil,
        hcount]
      omega
    · rw [cover_append, cover_cons, cover_nil, hjoin]
      omega

/-- **A freed span is merged**: its bytes are free, and the others are as they were. -/
theorem cover_merge (h : merge freed front rest = some blocks) :
    cover blocks x = cover front x + cover rest x + freed.count x := by
  induction rest generalizing front with
  | nil => cases h
  | cons block rest ih =>
    rw [merge] at h
    split_ifs at h with hbehind hfront
    · cases h
      rw [cover_append, cover_mergeBehind hbehind, cover_cons]
      omega
    · cases h
      rw [cover_append, cover_mergeInFront hfront, cover_cons]
      omega
    · rw [ih h, cover_append, cover_cons, cover_cons, cover_nil]
      omega

theorem cover_insertBlock (h : insertBlock freed blocks = .ok blocks') :
    cover blocks' x = cover blocks x + freed.count x := by
  rw [insertBlock] at h
  split_ifs at h
  cases h
  have hsplit := List.takeWhile_append_dropWhile (p := fun b : Span => b.offset < freed.offset)
    (l := blocks)
  rw [cover_append, cover_cons, ← congrArg (cover · x) hsplit, cover_append]
  omega

/-- **A freed span**: its bytes are free, and the others are as they were. -/
theorem cover_freeBlock (h : freeBlock freed blocks = .ok blocks') :
    cover blocks' x = cover blocks x + freed.count x := by
  rw [freeBlock] at h
  cases hmerge : merge freed [] blocks with
  | none =>
    rw [hmerge] at h
    exact cover_insertBlock h
  | some l =>
    rw [hmerge] at h
    cases h
    rw [cover_merge hmerge, cover_nil, Nat.zero_add]

theorem fits_mergeBehind (hblock : Fits capacity alignment block)
    (hrest : ∀ b ∈ rest, Fits capacity alignment b)
    (h : block.offset + block.size = freed.offset) (hfreed : Fits capacity alignment freed) :
    ∀ b ∈ mergeBehind freed.size block rest, Fits capacity alignment b := by
  have hbound := hfreed.1
  have hjoin : Fits capacity alignment ⟨block.offset, block.size + freed.size⟩ :=
    ⟨by show block.offset + (block.size + freed.size) ≤ capacity; omega, hblock.2⟩
  cases rest with
  | nil => simpa [mergeBehind] using hjoin
  | cons next rest =>
    obtain ⟨hnext, hrest⟩ := List.forall_mem_cons.mp hrest
    have hnextBound := hnext.1
    rw [mergeBehind]
    split_ifs with heq
    · refine List.forall_mem_cons.mpr ⟨⟨?_, hblock.2⟩, hrest⟩
      show block.offset + (block.size + freed.size + next.size) ≤ capacity
      omega
    · exact List.forall_mem_cons.mpr ⟨hjoin, List.forall_mem_cons.mpr ⟨hnext, hrest⟩⟩

theorem fits_mergeInFront (hblock : Fits capacity alignment block)
    (hfront : ∀ b ∈ front, Fits capacity alignment b)
    (h : freed.offset + freed.size = block.offset) (hfreed : Fits capacity alignment freed) :
    ∀ b ∈ mergeInFront freed block front, Fits capacity alignment b := by
  have hbound := hblock.1
  have hjoin : Fits capacity alignment ⟨freed.offset, block.size + freed.size⟩ :=
    ⟨by show freed.offset + (block.size + freed.size) ≤ capacity; omega, hfreed.2⟩
  rw [mergeInFront]
  cases hlast : front.getLast? with
  | none => simpa using hjoin
  | some prev =>
    obtain ⟨front, rfl⟩ := List.getLast?_eq_some_iff.mp hlast
    obtain ⟨hfront, hprev⟩ := List.forall_mem_append.mp hfront
    simp only [List.mem_singleton, forall_eq] at hprev
    simp only
    split_ifs with heq
    · rw [List.dropLast_concat]
      refine List.forall_mem_append.mpr ⟨hfront, ?_⟩
      simp only [List.mem_singleton, forall_eq]
      refine ⟨?_, hprev.2⟩
      show prev.offset + (prev.size + (block.size + freed.size)) ≤ capacity
      omega
    · refine List.forall_mem_append.mpr ⟨List.forall_mem_append.mpr ⟨hfront, ?_⟩, ?_⟩
      · simpa using hprev
      · simpa using hjoin

theorem fits_merge (h : merge freed front rest = some blocks)
    (hfront : ∀ b ∈ front, Fits capacity alignment b)
    (hrest : ∀ b ∈ rest, Fits capacity alignment b) (hfreed : Fits capacity alignment freed) :
    ∀ b ∈ blocks, Fits capacity alignment b := by
  induction rest generalizing front with
  | nil => cases h
  | cons block rest ih =>
    obtain ⟨hblock, hrest⟩ := List.forall_mem_cons.mp hrest
    rw [merge] at h
    split_ifs at h with hbehind hinFront
    · cases h
      exact List.forall_mem_append.mpr ⟨hfront, fits_mergeBehind hblock hrest hbehind hfreed⟩
    · cases h
      exact List.forall_mem_append.mpr ⟨fits_mergeInFront hblock hfront hinFront hfreed, hrest⟩
    · exact ih h (List.forall_mem_append.mpr ⟨hfront, by simpa using hblock⟩) hrest

theorem fits_freeBlock (h : freeBlock freed blocks = .ok blocks')
    (hblocks : ∀ b ∈ blocks, Fits capacity alignment b) (hfreed : Fits capacity alignment freed) :
    ∀ b ∈ blocks', Fits capacity alignment b := by
  rw [freeBlock] at h
  cases hmerge : merge freed [] blocks with
  | none =>
    rw [hmerge] at h
    change insertBlock freed blocks = .ok blocks' at h
    rw [insertBlock] at h
    split_ifs at h
    cases h
    refine List.forall_mem_append.mpr ⟨fun b hb => ?_,
      List.forall_mem_cons.mpr ⟨hfreed, fun b hb => ?_⟩⟩
    · exact hblocks b ((List.takeWhile_sublist _).subset hb)
    · exact hblocks b ((List.dropWhile_sublist _).subset hb)
  | some l =>
    rw [hmerge] at h
    cases h
    exact fits_merge hmerge nofun hblocks hfreed

end Blocks

/-! ### The search -/

/-- A block with enough bytes. -/
def HasBlock (chunks : List Chunk) (size : ℕ) (p : ℕ × ℕ) : Prop :=
  ∃ (chunk : Chunk) (block : Span), chunks[p.1]? = some chunk ∧
    chunk.freeBlocks[p.2]? = some block ∧ size ≤ block.size

section Search

variable {size : ℕ} {chunks : List Chunk} {p : ℕ × ℕ}

theorem hasBlock_bestFit (h : p ∈ bestFit size chunks) : HasBlock chunks size p := by
  have hall : ∀ p ∈ bestFit size chunks, HasBlock chunks size p := by
    refine List.foldlRecOn (motive := fun best : Option (ℕ × ℕ) =>
      ∀ p ∈ best, HasBlock chunks size p) _ _ nofun fun best hbest chunk hchunk => ?_
    refine List.foldlRecOn (motive := fun best : Option (ℕ × ℕ) × ℕ =>
      ∀ p ∈ best.1, HasBlock chunks size p) _ _ hbest fun best hbest block hblock => ?_
    rw [fitStep]
    split_ifs with hfits
    · rintro p (_ | _)
      have hdrop := List.mem_zipIdx_iff_getElem?.mp hblock
      refine ⟨chunk.1, block.1, List.mem_zipIdx_iff_getElem?.mp hchunk, ?_, hfits.1⟩
      rw [List.getElem?_dropLast] at hdrop
      split_ifs at hdrop
      exact hdrop
    · exact hbest
  exact hall p h

theorem hasBlock_lastFit (h : p ∈ lastFit size chunks) : HasBlock chunks size p := by
  have hall : ∀ p ∈ lastFit size chunks, HasBlock chunks size p := by
    refine List.foldlRecOn (motive := fun best : Option (ℕ × ℕ) × ℤ =>
      ∀ p ∈ best.1, HasBlock chunks size p) _ _ nofun fun best hbest chunk hchunk => ?_
    rw [lastStep]
    cases hlast : chunk.1.freeBlocks.getLast? with
    | none => exact hbest
    | some block =>
      simp only
      split_ifs with hfits
      · rintro p (_ | _)
        rw [List.getLast?_eq_getElem?] at hlast
        exact ⟨chunk.1, block, List.mem_zipIdx_iff_getElem?.mp hchunk, hlast, hfits.1⟩
      · exact hbest
  exact hall p h

end Search

/-! ### What the operations keep -/

/-- Every byte of a chunk is in one free block, or in use. -/
structure ChunkTiles (alignment : ℕ) (chunk : Chunk) (capacity : ℕ) (live : ℕ → ℕ) : Prop where
  tiles : ∀ x, cover chunk.freeBlocks x + live x = if x < capacity then 1 else 0
  fits : ∀ b ∈ chunk.freeBlocks, Fits capacity alignment b
  max : ∀ x, 0 < live x → x < chunk.maxSize
  maxSize_le : chunk.maxSize ≤ capacity
  capacity_lt : capacity < 2 ^ 63

/-- **Every byte is free or in use.** Of each byte of a chunk, `live` is how often it is in use. -/
structure Tiles (a : DynTallocr) (live : ℕ → ℕ → ℕ) : Prop where
  chunk : ∀ (c : ℕ) (chunk : Chunk), a.chunks[c]? = some chunk →
    ∃ capacity, ChunkTiles a.alignment chunk capacity (live c)
  none : ∀ c x, a.chunks.length ≤ c → live c x = 0
  maxChunkSize_lt : a.maxChunkSize < 2 ^ 63

/-- A span more in use. -/
def addLive (live : ℕ → ℕ → ℕ) (addr : Address) (size : ℕ) : ℕ → ℕ → ℕ := fun c x =>
  live c x + if c = addr.chunk then (Span.mk addr.offset size).count x else 0

/-- An address that has been given. -/
def Given (a : DynTallocr) (addr : Address) (size : ℕ) : Prop :=
  ∃ chunk : Chunk, a.chunks[addr.chunk]? = some chunk ∧ addr.offset + size ≤ chunk.maxSize ∧
    a.alignment ∣ addr.offset

/-- The chunks stay, and are as large as they were. -/
def Grows (a a' : DynTallocr) : Prop := a'.alignment = a.alignment ∧
  ∀ (c : ℕ) (chunk : Chunk), a.chunks[c]? = some chunk →
    ∃ chunk' : Chunk, a'.chunks[c]? = some chunk' ∧ chunk.maxSize ≤ chunk'.maxSize

section Operations

variable {a a' : DynTallocr} {live : ℕ → ℕ → ℕ} {addr : Address} {size c i : ℕ}

theorem Given.mono (h : Given a addr size) (hgrows : Grows a a') : Given a' addr size := by
  obtain ⟨chunk, hchunk, hle, hdvd⟩ := h
  obtain ⟨chunk', hchunk', hmax⟩ := hgrows.2 _ chunk hchunk
  exact ⟨chunk', hchunk', hle.trans hmax, hgrows.1 ▸ hdvd⟩

/-- Less at an address that has been given. -/
theorem Given.less {size' : ℕ} (h : Given a addr size) (hle : size' ≤ size) :
    Given a addr size' := by
  obtain ⟨chunk, hchunk, hmax, hdvd⟩ := h
  exact ⟨chunk, hchunk, by omega, hdvd⟩

/-- The back of an address that has been given. -/
theorem Given.back {size' : ℕ} (h : Given a addr size) (hle : size' ≤ size)
    (hdvd : a.alignment ∣ size') : Given a ⟨addr.chunk, addr.offset + size'⟩ (size - size') := by
  obtain ⟨chunk, hchunk, hmax, hoffset⟩ := h
  refine ⟨chunk, hchunk, ?_, Nat.dvd_add hoffset hdvd⟩
  show addr.offset + size' + (size - size') ≤ chunk.maxSize
  omega

theorem Grows.refl (a : DynTallocr) : Grows a a := ⟨rfl, fun _ chunk h => ⟨chunk, h, le_refl _⟩⟩

theorem Grows.trans {a'' : DynTallocr} (h : Grows a a') (h' : Grows a' a'') : Grows a a'' := by
  refine ⟨h'.1.trans h.1, fun c chunk hchunk => ?_⟩
  obtain ⟨chunk', hchunk', hle⟩ := h.2 c chunk hchunk
  obtain ⟨chunk'', hchunk'', hle'⟩ := h'.2 c chunk' hchunk'
  exact ⟨chunk'', hchunk'', hle.trans hle'⟩

/-- Another chunk in the place of one. -/
theorem grows_set {chunk chunk' : Chunk} (hchunk : a.chunks[c]? = some chunk)
    (hle : chunk.maxSize ≤ chunk'.maxSize) :
    Grows a { a with chunks := a.chunks.set c chunk' } := by
  refine ⟨rfl, fun d x hx => ?_⟩
  by_cases hcd : c = d
  · subst hcd
    rw [hx] at hchunk
    cases hchunk
    have hlt := (List.getElem?_eq_some_iff.mp hx).1
    exact ⟨chunk', by rw [List.getElem?_set_self hlt], hle⟩
  · exact ⟨x, by rw [List.getElem?_set_ne hcd, hx], le_refl _⟩

/-- What is in use in the other chunks is in use. -/
theorem tiles_set {chunk chunk' : Chunk} {live' : ℕ → ℕ → ℕ} {capacity : ℕ} (h : Tiles a live)
    (hchunk : a.chunks[c]? = some chunk) (hother : ∀ d, d ≠ c → live' d = live d)
    (htiles : ChunkTiles a.alignment chunk' capacity (live' c)) :
    Tiles { a with chunks := a.chunks.set c chunk' } live' := by
  have hlt := (List.getElem?_eq_some_iff.mp hchunk).1
  refine ⟨fun d x hx => ?_, fun d x hd => ?_, h.maxChunkSize_lt⟩
  · by_cases hcd : c = d
    · subst hcd
      rw [List.getElem?_set_self hlt] at hx
      cases hx
      exact ⟨capacity, htiles⟩
    · rw [List.getElem?_set_ne hcd] at hx
      rw [hother d (Ne.symm hcd)]
      exact h.chunk d x hx
  · rw [List.length_set] at hd
    rw [hother d (by omega)]
    exact h.none d x hd

/-- A size that is brought up to the alignment. -/
theorem alignedOffset_spec {alignment : ℕ} (hpos : 0 < alignment) (halign : alignment ≤ 2 ^ 62)
    (hsize : size < 2 ^ 62) : alignment ∣ alignedOffset size alignment ∧
      size ≤ alignedOffset size alignment ∧ alignedOffset size alignment < 2 ^ 63 := by
  have hmod := Nat.mod_lt size hpos
  have hmod' := Nat.mod_lt (alignment - size % alignment) hpos
  rw [alignedOffset, Nat.mod_eq_of_lt (by omega)]
  refine ⟨?_, by omega, by omega⟩
  have hdecomp := Nat.div_add_mod size alignment
  by_cases hzero : size % alignment = 0
  · rw [hzero, Nat.sub_zero, Nat.mod_self]
    exact Nat.dvd_of_mod_eq_zero hzero
  · rw [Nat.mod_eq_of_lt (by omega : alignment - size % alignment < alignment)]
    refine ⟨size / alignment + 1, ?_⟩
    rw [Nat.mul_add, Nat.mul_one]
    omega

theorem alignedOffset_of_dvd {alignment : ℕ} (hdvd : alignment ∣ size) (hsize : size < 2 ^ 64) :
    alignedOffset size alignment = size := by
  rw [alignedOffset, Nat.mod_eq_zero_of_dvd hdvd, Nat.sub_zero, Nat.mod_self, Nat.add_zero,
    Nat.mod_eq_of_lt hsize]

theorem alignedOffset_lt {alignment : ℕ} (hpos : 0 < alignment) :
    alignedOffset size alignment < size + alignment := by
  have hmod := Nat.mod_lt (alignment - size % alignment) hpos
  exact lt_of_le_of_lt (Nat.mod_le _ _) (by omega)

theorem alignedOffset_mono {alignment size' : ℕ} (hpos : 0 < alignment)
    (halign : alignment ≤ 2 ^ 62) (hsize : size' < 2 ^ 62) (hle : size ≤ size') :
    alignedOffset size alignment ≤ alignedOffset size' alignment := by
  obtain ⟨hdvd, -, -⟩ := alignedOffset_spec hpos halign (lt_of_le_of_lt hle hsize)
  obtain ⟨hdvd', hle', -⟩ := alignedOffset_spec hpos halign hsize
  have hlt : alignedOffset size alignment < size + alignment := alignedOffset_lt hpos
  by_contra hnot
  have hgap := Nat.le_of_dvd (by omega) (Nat.dvd_sub hdvd hdvd')
  omega

/-- A block in two parts. -/
theorem count_parts {block : Span} (hsize : size ≤ block.size) (x : ℕ) :
    block.count x = (Span.mk block.offset size).count x +
      (Span.mk (block.offset + size) (block.size - size)).count x := by
  rw [← Span.count_split, Nat.add_sub_cancel' hsize]

/-- The rest of a block. -/
theorem carveBlock_eq {block : Span} {blocks : List Span} (hsize : size ≤ block.size)
    (hbound : block.offset + block.size < 2 ^ 64) :
    carveBlock size i block blocks = if block.size - size = 0 then blocks.eraseIdx i
      else blocks.set i ⟨block.offset + size, block.size - size⟩ := by
  have hoffset : (block.offset + size) % 2 ^ 64 = block.offset + size := Nat.mod_eq_of_lt (by omega)
  have hrest : (block.size + 2 ^ 64 - size) % 2 ^ 64 = block.size - size := by omega
  rw [carveBlock, hoffset, hrest]

/-- The front of a block is in use, and the rest of it is free. -/
theorem cover_carveBlock {block : Span} {blocks : List Span} {x : ℕ}
    (hblock : blocks[i]? = some block) (hsize : size ≤ block.size)
    (hbound : block.offset + block.size < 2 ^ 64) :
    cover (carveBlock size i block blocks) x + (Span.mk block.offset size).count x =
      cover blocks x := by
  have hparts := count_parts hsize x
  rw [carveBlock_eq hsize hbound]
  split_ifs with hempty
  · rw [hempty, Span.count_zero] at hparts
    have herase := cover_eraseIdx (x := x) hblock
    omega
  · have hset : cover (blocks.set i ⟨block.offset + size, block.size - size⟩) x + block.count x =
        cover blocks x + (Span.mk (block.offset + size) (block.size - size)).count x :=
      cover_set hblock
    omega

theorem fits_carveBlock {block : Span} {blocks : List Span} {capacity alignment : ℕ}
    (hblocks : ∀ b ∈ blocks, Fits capacity alignment b) (hblock : blocks[i]? = some block)
    (hsize : size ≤ block.size) (hbound : block.offset + block.size < 2 ^ 64)
    (hdvd : alignment ∣ size) :
    ∀ b ∈ carveBlock size i block blocks, Fits capacity alignment b := by
  obtain ⟨hle, hoffset⟩ := hblocks block (List.mem_of_getElem? hblock)
  rw [carveBlock_eq hsize hbound]
  split_ifs with hempty
  · exact fun b hb => hblocks b (List.mem_of_mem_eraseIdx hb)
  · intro b hb
    rcases List.mem_or_eq_of_mem_set hb with hb | rfl
    · exact hblocks b hb
    · refine ⟨?_, Nat.dvd_add hoffset hdvd⟩
      show block.offset + size + (block.size - size) ≤ capacity
      omega

/-- **The front of a block** goes into use. -/
theorem Tiles.carve {p : ℕ × ℕ} (h : Tiles a live) (hhas : HasBlock a.chunks size p)
    (hdvd : a.alignment ∣ size) (hcarve : a.carve p.1 p.2 size = .ok (addr, a')) :
    Tiles a' (addLive live addr size) ∧ Grows a a' ∧ Given a' addr size := by
  obtain ⟨chunk, block, hchunk, hblock, hsize⟩ := hhas
  obtain ⟨capacity, htiles⟩ := h.chunk _ chunk hchunk
  obtain ⟨hle, hoffset⟩ := htiles.fits block (List.mem_of_getElem? hblock)
  have hcapacity := htiles.capacity_lt
  have hmod : (block.offset + size) % 2 ^ 64 = block.offset + size := Nat.mod_eq_of_lt (by omega)
  have hlt := (List.getElem?_eq_some_iff.mp hchunk).1
  rw [DynTallocr.carve, hchunk] at hcarve
  simp only [hblock, hmod] at hcarve
  cases hcarve
  refine ⟨tiles_set h hchunk (fun d hd => ?_) ⟨fun x => ?_, ?_, fun x hx => ?_, ?_, hcapacity⟩,
    grows_set hchunk (le_max_left _ _), ?_⟩
  · funext x
    simp [addLive, hd]
  · have hcover := cover_carveBlock (x := x) hblock hsize (by omega)
    have hone := htiles.tiles x
    simp only [addLive, if_true]
    omega
  · exact fits_carveBlock htiles.fits hblock hsize (by omega) hdvd
  · simp only [addLive, if_true] at hx
    show x < max chunk.maxSize (block.offset + size)
    by_cases hlive : 0 < live p.1 x
    · exact lt_max_of_lt_left (htiles.max x hlive)
    · have hhas : (Span.mk block.offset size).Has x := by
        by_contra hnot
        rw [Span.count, if_neg hnot] at hx
        omega
      exact lt_max_of_lt_right hhas.2
  · exact max_le htiles.maxSize_le (by omega)
  · exact ⟨_, List.getElem?_set_self hlt, le_max_right _ _, hoffset⟩

theorem chunkSize_spec (hsize : size < 2 ^ 63) (hmax : a.maxChunkSize < 2 ^ 63) :
    size ≤ a.chunkSize size ∧ a.chunkSize size < 2 ^ 63 := by
  rw [DynTallocr.chunkSize]
  split_ifs
  · exact ⟨by omega, by decide⟩
  · exact ⟨le_max_left _ _, max_lt hsize hmax⟩

/-- A new chunk is free. -/
theorem Tiles.newChunk (h : Tiles a live) (hsize : size < 2 ^ 63)
    (hnew : a.newChunk size = some a') :
    Tiles a' live ∧ Grows a a' ∧ HasBlock a'.chunks size (a'.chunks.length - 1, 0) := by
  obtain ⟨hle, hlt⟩ := chunkSize_spec hsize h.maxChunkSize_lt
  rw [DynTallocr.newChunk] at hnew
  split_ifs at hnew with hmany
  cases hnew
  refine ⟨⟨fun c chunk hchunk => ?_, fun c x hc => ?_, h.maxChunkSize_lt⟩,
    ⟨rfl, fun c chunk hchunk => ?_⟩, ?_⟩
  · rw [List.getElem?_append] at hchunk
    split_ifs at hchunk with hold
    · exact h.chunk c chunk hchunk
    · obtain ⟨rfl⟩ : chunk = ⟨[⟨0, a.chunkSize size⟩], 0⟩ :=
        List.mem_singleton.mp (List.mem_of_getElem? hchunk)
      refine ⟨a.chunkSize size, fun x => ?_, by simp [Fits], fun x hx => ?_, Nat.zero_le _, hlt⟩
      · rw [h.none c x (by omega), cover_cons, cover_nil, Span.count_mk]
        simp
      · rw [h.none c x (by omega)] at hx
        omega
  · rw [List.length_append, List.length_singleton] at hc
    exact h.none c x (by omega)
  · have hold := (List.getElem?_eq_some_iff.mp hchunk).1
    exact ⟨chunk, by rw [List.getElem?_append_left hold, hchunk], le_refl _⟩
  · exact ⟨⟨[⟨0, a.chunkSize size⟩], 0⟩, ⟨0, a.chunkSize size⟩, by simp, rfl, hle⟩

/-- **`alloc`** gives bytes that were free. -/
theorem Tiles.alloc (h : Tiles a live) (hpos : 0 < a.alignment) (halign : a.alignment ≤ 2 ^ 62)
    (hsize : size < 2 ^ 62) (halloc : a.alloc size = .ok (addr, a')) :
    Tiles a' (addLive live addr (alignedOffset size a.alignment)) ∧ Grows a a' ∧
      Given a' addr (alignedOffset size a.alignment) := by
  obtain ⟨hdvd, -, hlt⟩ := alignedOffset_spec hpos halign hsize
  rw [DynTallocr.alloc] at halloc
  cases hpick : (bestFit (alignedOffset size a.alignment) a.chunks).or
      (lastFit (alignedOffset size a.alignment) a.chunks) with
  | some p =>
    have hhas : HasBlock a.chunks (alignedOffset size a.alignment) p := by
      rcases Option.or_eq_some_iff.mp hpick with hbest | ⟨-, hlast⟩
      · exact hasBlock_bestFit hbest
      · exact hasBlock_lastFit hlast
    rw [hpick] at halloc
    exact h.carve hhas hdvd halloc
  | none =>
    rw [hpick] at halloc
    cases hnew : a.newChunk (alignedOffset size a.alignment) with
    | none =>
      rw [hnew] at halloc
      cases halloc
    | some b =>
      rw [hnew] at halloc
      obtain ⟨htiles, hgrows, hhas⟩ := h.newChunk hlt hnew
      obtain ⟨htiles', hgrows', hgiven⟩ := htiles.carve hhas (by rwa [hgrows.1]) halloc
      exact ⟨htiles', hgrows.trans hgrows', hgiven⟩

/-- **`freeBytes`** takes back what is in use. -/
theorem Tiles.freeBytes (h : Tiles a (addLive live addr (alignedOffset size a.alignment)))
    (hgiven : Given a addr (alignedOffset size a.alignment))
    (hfree : a.freeBytes addr size = .ok a') : Tiles a' live ∧ Grows a a' := by
  obtain ⟨chunk, hchunk, hle, hdvd⟩ := hgiven
  obtain ⟨capacity, htiles⟩ := h.chunk _ chunk hchunk
  have hmax := htiles.maxSize_le
  rw [DynTallocr.freeBytes, hchunk] at hfree
  cases hblocks : freeBlock ⟨addr.offset, alignedOffset size a.alignment⟩ chunk.freeBlocks with
  | error e =>
    simp only [hblocks] at hfree
    cases hfree
  | ok blocks =>
    simp only [hblocks] at hfree
    cases hfree
    refine ⟨tiles_set h hchunk (fun d hd => ?_) ⟨fun x => ?_, ?_, fun x hx => ?_, hmax,
      htiles.capacity_lt⟩, grows_set hchunk (le_refl _)⟩
    · funext x
      simp [addLive, hd]
    · have hone := htiles.tiles x
      simp only [addLive, if_true] at hone
      rw [cover_freeBlock hblocks]
      omega
    · refine fits_freeBlock hblocks htiles.fits ⟨?_, hdvd⟩
      show addr.offset + alignedOffset size a.alignment ≤ capacity
      omega
    · refine htiles.max x ?_
      simp only [addLive, if_true]
      omega

/-- A new allocator has no chunk. -/
theorem tiles_new (alignment maxBufferSize : ℕ) :
    Tiles (DynTallocr.new alignment maxBufferSize) fun _ _ => 0 where
  chunk := by
    intro c chunk hchunk
    simp [DynTallocr.new] at hchunk
  none := fun _ _ _ => rfl
  maxChunkSize_lt := by
    show min maxBufferSize ((2 ^ 64 - 1) / 2) < 2 ^ 63
    exact lt_of_le_of_lt (min_le_right _ _) (by decide)

end Operations

/-! ### What is in use -/

/-- Of addresses with sizes, how often a byte is in use. -/
def liveOf (inUse : List (Address × ℕ)) : ℕ → ℕ → ℕ :=
  inUse.foldr (fun p live => addLive live p.1 p.2) fun _ _ => 0

/-- Bytes of one chunk that do not overlap. -/
def Apart (p q : Address × ℕ) : Prop :=
  p.1.chunk = q.1.chunk → (Span.mk p.1.offset p.2).Disjoint ⟨q.1.offset, q.2⟩

section InUse

variable {p q : Address × ℕ} {inUse : List (Address × ℕ)} {a : DynTallocr} {i : ℕ}

theorem liveOf_cons : liveOf (p :: inUse) = addLive (liveOf inUse) p.1 p.2 := rfl

theorem addLive_comm (live : ℕ → ℕ → ℕ) :
    addLive (addLive live p.1 p.2) q.1 q.2 = addLive (addLive live q.1 q.2) p.1 p.2 := by
  funext c x
  simp only [addLive]
  omega

/-- What is in use, apart from one. -/
theorem liveOf_eraseIdx (h : inUse[i]? = some p) :
    liveOf inUse = addLive (liveOf (inUse.eraseIdx i)) p.1 p.2 := by
  induction inUse generalizing i with
  | nil => simp at h
  | cons q l ih =>
    cases i with
    | zero =>
      simp only [List.getElem?_cons_zero, Option.some.injEq] at h
      subst h
      rfl
    | succ i =>
      simp only [List.getElem?_cons_succ] at h
      rw [List.eraseIdx_cons_succ, liveOf_cons, liveOf_cons, ih h, addLive_comm]

theorem liveOf_perm {l : List (Address × ℕ)} (h : inUse.Perm l) : liveOf inUse = liveOf l := by
  induction h with
  | nil => rfl
  | cons p _ ih => rw [liveOf_cons, liveOf_cons, ih]
  | swap p q l => rw [liveOf_cons, liveOf_cons, liveOf_cons, liveOf_cons, addLive_comm]
  | trans _ _ ih ih' => rw [ih, ih']

theorem count_le_liveOf (h : q ∈ inUse) (x : ℕ) :
    (Span.mk q.1.offset q.2).count x ≤ liveOf inUse q.1.chunk x := by
  obtain ⟨i, hi⟩ := List.mem_iff_getElem?.mp h
  rw [liveOf_eraseIdx hi, addLive, if_pos rfl]
  omega

theorem Tiles.le_one {live : ℕ → ℕ → ℕ} (h : Tiles a live) (c x : ℕ) : live c x ≤ 1 := by
  by_cases hc : c < a.chunks.length
  · obtain ⟨capacity, htiles⟩ := h.chunk c _ (List.getElem?_eq_getElem hc)
    have hone := htiles.tiles x
    split_ifs at hone <;> omega
  · rw [h.none c x (by omega)]
    omega

/-- **What is in use does not overlap.** -/
theorem pairwise_apart (h : ∀ c x, liveOf inUse c x ≤ 1) : inUse.Pairwise Apart := by
  induction inUse with
  | nil => exact List.Pairwise.nil
  | cons p l ih =>
    refine List.pairwise_cons.mpr ⟨fun q hq hchunk x hp hqx => ?_, ih fun c x => ?_⟩
    · have hone := h p.1.chunk x
      have hle := count_le_liveOf hq x
      rw [← hchunk, Span.count_of_has hqx] at hle
      rw [liveOf_cons, addLive, if_pos rfl, Span.count_of_has hp] at hone
      omega
    · have hone := h c x
      rw [liveOf_cons, addLive] at hone
      omega

end InUse

/-! ### Runs -/

/-- A call on an allocator. What is freed is in use. -/
inductive Op where
  | alloc (size : ℕ) (size_lt : size < 2 ^ 62)
  | free (i : ℕ)

/-- An allocator, and the addresses in use with the sizes that were asked for. -/
structure Client where
  talloc : DynTallocr
  inUse : List (Address × ℕ)

/-- What a call does. -/
def Op.apply : Op → Client → Except Stop Client
  | alloc size _, s =>
    (s.talloc.alloc size).map fun r => ⟨r.2, (r.1, size) :: s.inUse⟩
  | free i, s =>
    match s.inUse[i]? with
    | none => .ok s
    | some p => (s.talloc.freeBytes p.1 p.2).map fun talloc => ⟨talloc, s.inUse.eraseIdx i⟩

/-- Calls, one after another. -/
def run (ops : List Op) (s : Client) : Except Stop Client := ops.foldlM (fun s op => op.apply s) s

/-- The bytes that are in use for a size that was asked for. -/
def Client.bytes (s : Client) : List (Address × ℕ) :=
  s.inUse.map fun p => (p.1, alignedOffset p.2 s.talloc.alignment)

/-- What the calls keep. -/
structure Client.Sound (s : Client) : Prop where
  pos : 0 < s.talloc.alignment
  alignment_le : s.talloc.alignment ≤ 2 ^ 62
  tiles : Tiles s.talloc (liveOf s.bytes)
  given : ∀ p ∈ s.bytes, Given s.talloc p.1 p.2

section Runs

variable {s s' : Client} {op : Op}

/-- **A call keeps what is known.** -/
theorem Client.Sound.apply (h : s.Sound) (hop : op.apply s = .ok s') :
    s'.Sound ∧ s'.talloc.alignment = s.talloc.alignment := by
  cases op with
  | alloc size hsize =>
    cases hr : s.talloc.alloc size with
    | error e =>
      rw [Op.apply, hr] at hop
      cases hop
    | ok r =>
      rw [Op.apply, hr] at hop
      cases hop
      obtain ⟨htiles, hgrows, hgiven⟩ := h.tiles.alloc h.pos h.alignment_le hsize hr
      have hbytes : Client.bytes ⟨r.2, (r.1, size) :: s.inUse⟩ =
          (r.1, alignedOffset size s.talloc.alignment) :: s.bytes := by
        rw [Client.bytes, List.map_cons, hgrows.1]
        rfl
      refine ⟨⟨hgrows.1 ▸ h.pos, hgrows.1 ▸ h.alignment_le, ?_, ?_⟩, hgrows.1⟩
      · rw [hbytes]
        exact htiles
      · rw [hbytes]
        exact List.forall_mem_cons.mpr ⟨hgiven, fun p hp => (h.given p hp).mono hgrows⟩
  | free i =>
    cases hp : s.inUse[i]? with
    | none =>
      rw [Op.apply, hp] at hop
      cases hop
      exact ⟨h, rfl⟩
    | some p =>
      cases hr : s.talloc.freeBytes p.1 p.2 with
      | error e =>
        simp only [Op.apply, hp, hr] at hop
        cases hop
      | ok talloc =>
        simp only [Op.apply, hp, hr] at hop
        cases hop
        have hi : s.bytes[i]? = some (p.1, alignedOffset p.2 s.talloc.alignment) := by
          rw [Client.bytes, List.getElem?_map, hp]
          rfl
        have htiles := h.tiles
        rw [liveOf_eraseIdx hi] at htiles
        obtain ⟨htiles, hgrows⟩ := htiles.freeBytes (h.given _ (List.mem_of_getElem? hi)) hr
        have hbytes : Client.bytes ⟨talloc, s.inUse.eraseIdx i⟩ = s.bytes.eraseIdx i := by
          rw [Client.bytes, Client.bytes, List.eraseIdx_map, hgrows.1]
        refine ⟨⟨hgrows.1 ▸ h.pos, hgrows.1 ▸ h.alignment_le, ?_, ?_⟩, hgrows.1⟩
        · rw [hbytes]
          exact htiles
        · rw [hbytes]
          exact fun q hq => (h.given q (List.mem_of_mem_eraseIdx hq)).mono hgrows

theorem Client.Sound.run (h : s.Sound) {ops : List Op} (hrun : run ops s = .ok s') :
    s'.Sound ∧ s'.talloc.alignment = s.talloc.alignment := by
  induction ops generalizing s with
  | nil =>
    cases hrun
    exact ⟨h, rfl⟩
  | cons op ops ih =>
    rw [Galloc.run, List.foldlM_cons] at hrun
    cases hop : op.apply s with
    | error e =>
      rw [hop] at hrun
      cases hrun
    | ok s₁ =>
      rw [hop] at hrun
      obtain ⟨h₁, halign⟩ := h.apply hop
      obtain ⟨h', halign'⟩ := ih h₁ hrun
      exact ⟨h', halign'.trans halign⟩

/-- **Over every run**, every byte of a chunk is in one free block or in use once; what is in use
does not overlap, begins at a multiple of the alignment, and ends in the memory that its chunk is
allocated with. -/
theorem apart_of_run {alignment maxBufferSize : ℕ} {ops : List Op} (hpos : 0 < alignment)
    (halign : alignment ≤ 2 ^ 62) (hrun : run ops ⟨.new alignment maxBufferSize, []⟩ = .ok s) :
    Tiles s.talloc (liveOf s.bytes) ∧ s.bytes.Pairwise Apart ∧
      ∀ p ∈ s.bytes, alignment ∣ p.1.offset ∧ Given s.talloc p.1 p.2 := by
  have hnew : Client.Sound ⟨.new alignment maxBufferSize, []⟩ :=
    ⟨hpos, halign, tiles_new alignment maxBufferSize, nofun⟩
  obtain ⟨h, heq⟩ := hnew.run hrun
  refine ⟨h.tiles, pairwise_apart h.tiles.le_one, fun p hp => ?_⟩
  have hgiven := h.given p hp
  obtain ⟨chunk, -, -, hdvd⟩ := id hgiven
  change s.talloc.alignment = alignment at heq
  rw [heq] at hdvd
  exact ⟨hdvd, hgiven⟩

/-- Two tensors, the first of which is freed. -/
theorem apart_of_run_two :
    let s : Client := ⟨⟨4, 16, [⟨[⟨0, 8⟩, ⟨12, 4⟩], 12⟩]⟩, [(⟨0, 8⟩, 3)]⟩
    Tiles s.talloc (liveOf s.bytes) ∧ s.bytes.Pairwise Apart ∧
      ∀ p ∈ s.bytes, 4 ∣ p.1.offset ∧ Given s.talloc p.1 p.2 :=
  have hrun : run [.alloc 8 (by decide), .alloc 3 (by decide), .free 1] ⟨.new 4 16, []⟩ = .ok _ := rfl
  apart_of_run (by decide) (by decide) hrun

end Runs

end Galloc

end WhisperCpp
