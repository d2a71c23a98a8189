import WhisperCpp.Library.Strided
import Mathlib.Data.List.Basic
import Mathlib.Tactic.Ring

/-!
# The KV cache of the multilingual T3

`build_llama_block` reads and writes the keys and the values through views of one buffer. The
buffer holds two halves for each layer, one for the conditional and one for the unconditional pass.
A graph for one of the passes selects a half by an offset, a graph for both by a stride.

## Main definitions

* `KvShape.kvDst`, `KvShape.kvFull` — the views that are written and read
* `KvPlace` — a layer, a half, a head and a position
* `KvShape.cpy`, `KvShape.run` — one block writes, and many blocks do

## Main results

* `row_kvDst`, `row_kvFull` — which places a view has
* `kv_layout` — both kinds of graph use the same places, which are apart and inside the buffer, and
  read what was written last
-/

namespace WhisperCpp

namespace Chatterbox

open Strided

/-- What the layout depends on: the fields of `chatterbox_hparams`, and the size of an element. -/
structure KvShape where
  headDim : ℕ
  nKvHead : ℕ
  nCtx : ℕ
  nLayer : ℕ
  /-- `ggml_type_size(memory_k->type)`. -/
  kvTs : ℕ

/-- A view of the buffer. Its rows have `head_dim` elements; the strides are in bytes. -/
structure KvView where
  ne1 : ℕ
  ne2 : ℕ
  ne3 : ℕ
  nb1 : ℕ
  nb2 : ℕ
  nb3 : ℕ
  offset : ℕ

namespace KvView

/-- `ggml_view_3d`. -/
def view3d (ne1 ne2 nb1 nb2 offset : ℕ) : KvView := ⟨ne1, ne2, 1, nb1, nb2, nb2 * ne2, offset⟩

/-- `ggml_view_4d`. -/
def view4d (ne1 ne2 ne3 nb1 nb2 nb3 offset : ℕ) : KvView := ⟨ne1, ne2, ne3, nb1, nb2, nb3, offset⟩

/-- The address of a row. -/
def row (v : KvView) (j h b : ℕ) : ℕ := v.offset + j * v.nb1 + h * v.nb2 + b * v.nb3

/-- The rows of a view. -/
def cells (v : KvView) : List (ℕ × ℕ × ℕ) :=
  (List.range v.ne3).flatMap fun b => (List.range v.ne2).flatMap fun h =>
    (List.range v.ne1).map fun j => (j, h, b)

theorem mem_cells {v : KvView} {j h b : ℕ} :
    (j, h, b) ∈ v.cells ↔ j < v.ne1 ∧ h < v.ne2 ∧ b < v.ne3 := by
  simp only [cells, List.mem_flatMap, List.mem_map, List.mem_range, Prod.mk.injEq]
  constructor
  · rintro ⟨b', hb, h', hh, j', hj, rfl, rfl, rfl⟩
    exact ⟨hj, hh, hb⟩
  · rintro ⟨hj, hh, hb⟩
    exact ⟨b, hb, h, hh, j, hj, rfl, rfl, rfl⟩

end KvView

/-- The graphs: `B == 1` for one of the passes, or `B == 2` for both. -/
inductive KvPath
  | b1 (isUncond : Bool)
  | b2
  deriving DecidableEq, Repr

namespace KvPath

/-- `B`. -/
def batch : KvPath → ℕ
  | b1 _ => 1
  | b2 => 2

/-- The half that the row `b` of the batch belongs to. -/
def half : KvPath → ℕ → ℕ
  | b1 isUncond, _ => if isUncond then 1 else 0
  | b2, b => b

theorem half_lt {path : KvPath} {b : ℕ} (hb : b < path.batch) : path.half b < 2 := by
  cases path with
  | b1 isUncond => cases isUncond <;> simp [half]
  | b2 => exact hb

end KvPath

/-- A place for one key or value. -/
structure KvPlace where
  il : ℕ
  half : ℕ
  head : ℕ
  pos : ℕ
  deriving DecidableEq, Repr

namespace KvShape

variable (hp : KvShape)

/-! ### The views of a block -/

/-- `kv_head_stride`. -/
def kvHeadStride : ℕ := hp.headDim * hp.nCtx * hp.kvTs

/-- `kv_pos_stride`, which is also the size of a row. -/
def kvPosStride : ℕ := hp.headDim * hp.kvTs

/-- `kv_layer_elems` of `build_llama_block`. -/
def kvLayerElems : ℕ := hp.headDim * hp.nCtx * hp.nKvHead

/-- `kv_batch_stride`. -/
def kvBatchStride : ℕ := hp.kvLayerElems * hp.kvTs

/-- `kv_layer_stride`. -/
def kvLayerStride : ℕ := 2 * hp.kvBatchStride

/-- `b_off` of the graphs for one pass, and the 0 of those for both. -/
def bOffsetElems : KvPath → ℕ
  | .b1 isUncond => if isUncond then hp.headDim * hp.nKvHead * hp.nCtx else 0
  | .b2 => 0

/-- `layer_off`. -/
def layerOff (path : KvPath) (il : ℕ) : ℕ :=
  il * hp.kvLayerStride + hp.bOffsetElems path * hp.kvTs

/-- `k_dst` and `v_dst`. -/
def kvDst (path : KvPath) (il nPast n : ℕ) : KvView :=
  match path with
  | .b1 _ => .view3d n hp.nKvHead hp.kvPosStride hp.kvHeadStride
      (hp.layerOff path il + nPast * hp.kvPosStride)
  | .b2 => .view4d n hp.nKvHead 2 hp.kvPosStride hp.kvHeadStride hp.kvBatchStride
      (hp.layerOff path il + nPast * hp.kvPosStride)

/-- `Kfull` and `Vfull`. -/
def kvFull (path : KvPath) (il len : ℕ) : KvView :=
  match path with
  | .b1 _ => .view3d len hp.nKvHead hp.kvPosStride hp.kvHeadStride (hp.layerOff path il)
  | .b2 => .view4d len hp.nKvHead 2 hp.kvPosStride hp.kvHeadStride hp.kvBatchStride
      (hp.layerOff path il)

/-- `kv_elements_b2`. -/
def kvElementsB2 : ℕ := 2 * hp.headDim * hp.nKvHead * hp.nCtx * hp.nLayer

/-- The bytes of `memory_k` and of `memory_v`. -/
def kvBytes : ℕ := hp.kvElementsB2 * hp.kvTs

/-! ### Places -/

/-- The place exists. -/
def Valid (p : KvPlace) : Prop :=
  p.il < hp.nLayer ∧ p.half < 2 ∧ p.head < hp.nKvHead ∧ p.pos < hp.nCtx

/-- The places in the order of the buffer. -/
def index (p : KvPlace) : ℕ := ((p.il * 2 + p.half) * hp.nKvHead + p.head) * hp.nCtx + p.pos

/-- Where the row of a place begins. -/
def start (p : KvPlace) : ℕ := hp.index p * hp.kvPosStride

theorem index_inj {p q : KvPlace} (hp' : hp.Valid p) (hq : hp.Valid q)
    (h : hp.index p = hp.index q) : p = q := by
  obtain ⟨-, hhalf, hhead, hpos⟩ := hp'
  obtain ⟨-, hhalf', hhead', hpos'⟩ := hq
  obtain ⟨h, hposeq⟩ := mul_add_inj hpos hpos' h
  obtain ⟨h, hheadeq⟩ := mul_add_inj hhead hhead' h
  obtain ⟨hileq, hhalfeq⟩ := mul_add_inj hhalf hhalf' h
  cases p
  cases q
  simp only [KvPlace.mk.injEq]
  exact ⟨hileq, hhalfeq, hheadeq, hposeq⟩

theorem index_lt {p : KvPlace} (h : hp.Valid p) :
    hp.index p < hp.nLayer * 2 * hp.nKvHead * hp.nCtx :=
  mul_add_lt (mul_add_lt (mul_add_lt h.1 h.2.1) h.2.2.1) h.2.2.2

/-- Distinct places are apart. -/
theorem apart_start {p q : KvPlace} (hp' : hp.Valid p) (hq : hp.Valid q) (hne : p ≠ q) :
    Apart hp.kvPosStride (hp.start p) (hp.start q) :=
  apart_mul fun h => hne (hp.index_inj hp' hq h)

/-- A place is inside the buffer. -/
theorem start_add_le {p : KvPlace} (h : hp.Valid p) :
    hp.start p + hp.kvPosStride ≤ hp.kvBytes := by
  calc hp.start p + hp.kvPosStride = (hp.index p + 1) * hp.kvPosStride := (Nat.succ_mul _ _).symm
    _ ≤ hp.nLayer * 2 * hp.nKvHead * hp.nCtx * hp.kvPosStride :=
      Nat.mul_le_mul_right _ (hp.index_lt h)
    _ = hp.kvBytes := by
      rw [kvBytes, kvElementsB2, kvPosStride]
      ring

/-- The offset of a layer is where the first place of the half begins. -/
theorem layerOff_eq (path : KvPath) (il : ℕ) :
    hp.layerOff path il = (il * 2 + path.half 0) * hp.nKvHead * hp.nCtx * hp.kvPosStride := by
  cases path with
  | b1 isUncond =>
    cases isUncond <;>
      simp only [layerOff, bOffsetElems, KvPath.half, kvLayerStride, kvBatchStride, kvLayerElems,
        kvPosStride] <;> norm_num <;> ring
  | b2 =>
    simp only [layerOff, bOffsetElems, KvPath.half, kvLayerStride, kvBatchStride, kvLayerElems,
      kvPosStride]
    ring

/-- The rows that a block writes are the places from `n_past` on. -/
theorem row_kvDst {path : KvPath} {b : ℕ} (hb : b < path.batch) (il nPast n j h : ℕ) :
    (hp.kvDst path il nPast n).row j h b = hp.start ⟨il, path.half b, h, nPast + j⟩ := by
  cases path with
  | b1 isUncond =>
    obtain rfl : b = 0 := by rw [KvPath.batch] at hb; omega
    simp only [kvDst, KvView.view3d, KvView.row, layerOff_eq, KvPath.half, start, index,
      kvHeadStride, kvPosStride]
    ring
  | b2 =>
    simp only [kvDst, KvView.view4d, KvView.row, layerOff_eq, KvPath.half, start, index,
      kvHeadStride, kvPosStride, kvBatchStride, kvLayerElems]
    ring

/-- The rows that a block reads are the places from the first on. -/
theorem row_kvFull {path : KvPath} {b : ℕ} (hb : b < path.batch) (il len j h : ℕ) :
    (hp.kvFull path il len).row j h b = hp.start ⟨il, path.half b, h, j⟩ := by
  cases path with
  | b1 isUncond =>
    obtain rfl : b = 0 := by rw [KvPath.batch] at hb; omega
    simp only [kvFull, KvView.view3d, KvView.row, layerOff_eq, KvPath.half, start, index,
      kvHeadStride, kvPosStride]
    ring
  | b2 =>
    simp only [kvFull, KvView.view4d, KvView.row, layerOff_eq, KvPath.half, start, index,
      kvHeadStride, kvPosStride, kvBatchStride, kvLayerElems]
    ring

theorem mem_kvFull_cells {path : KvPath} {il len j h b : ℕ} :
    (j, h, b) ∈ (hp.kvFull path il len).cells ↔ j < len ∧ h < hp.nKvHead ∧ b < path.batch := by
  rw [KvView.mem_cells]
  cases path with
  | b1 isUncond => rfl
  | b2 => rfl

/-! ### Writes and reads -/

section Memory

variable {β : Type*}

/-- A key or a value. -/
abbrev Row (β : Type*) := Fin hp.kvPosStride → β

/-- `memory_k` and `memory_v`. -/
structure KvMem (β : Type*) where
  k : ℕ → β
  v : ℕ → β

/-- What a block writes: `N` keys and values for each head and for each row of the batch. -/
structure KvWrite (β : Type*) where
  path : KvPath
  il : ℕ
  nPast : ℕ
  n : ℕ
  k : ℕ × ℕ × ℕ → hp.Row β
  v : ℕ × ℕ × ℕ → hp.Row β

/-- `ggml_cpy` to a view. -/
def cpy (dst : KvView) (src : ℕ × ℕ × ℕ → hp.Row β) (mem : ℕ → β) : ℕ → β :=
  dst.cells.foldl (fun mem c => store hp.kvPosStride (dst.row c.1 c.2.1 c.2.2) (src c) mem) mem

variable {hp}

/-- The view that a block writes through. -/
def KvWrite.dst (wr : hp.KvWrite β) : KvView := hp.kvDst wr.path wr.il wr.nPast wr.n

/-- A block writes its keys and its values. -/
def write (mem : KvMem β) (wr : hp.KvWrite β) : KvMem β where
  k := hp.cpy wr.dst wr.k mem.k
  v := hp.cpy wr.dst wr.v mem.v

/-- Many blocks write, one after the other. -/
def run (writes : List (hp.KvWrite β)) (mem : KvMem β) : KvMem β := writes.foldl write mem

/-- The positions of a write are below `n_ctx`, in a layer that exists. -/
def KvWrite.Inside (wr : hp.KvWrite β) : Prop := wr.il < hp.nLayer ∧ wr.nPast + wr.n ≤ hp.nCtx

/-- The place of a row of a write. -/
def KvWrite.place (wr : hp.KvWrite β) (c : ℕ × ℕ × ℕ) : KvPlace :=
  ⟨wr.il, wr.path.half c.2.2, c.2.1, wr.nPast + c.1⟩

/-- The places that a write changes, with their new rows. -/
def KvWrite.entries (wr : hp.KvWrite β) (src : ℕ × ℕ × ℕ → hp.Row β) :
    List (KvPlace × hp.Row β) :=
  wr.dst.cells.map fun c => (wr.place c, src c)

theorem KvWrite.mem_dst_cells {wr : hp.KvWrite β} {c : ℕ × ℕ × ℕ} (h : c ∈ wr.dst.cells) :
    c.1 < wr.n ∧ c.2.1 < hp.nKvHead ∧ c.2.2 < wr.path.batch := by
  obtain ⟨j, h', b⟩ := c
  obtain ⟨path, il, nPast, n, k, v⟩ := wr
  obtain ⟨hj, hh, hb⟩ := KvView.mem_cells.1 h
  cases path with
  | b1 isUncond => exact ⟨hj, hh, hb⟩
  | b2 => exact ⟨hj, hh, hb⟩

theorem KvWrite.valid_place {wr : hp.KvWrite β} (hwr : wr.Inside) {c : ℕ × ℕ × ℕ}
    (h : c ∈ wr.dst.cells) : hp.Valid (wr.place c) := by
  obtain ⟨hj, hh, hb⟩ := wr.mem_dst_cells h
  exact ⟨hwr.1, KvPath.half_lt hb, hh, Nat.lt_of_lt_of_le (Nat.add_lt_add_left hj _) hwr.2⟩

/-- A copy to the view of a block writes its entries. -/
theorem KvWrite.cpy_eq (wr : hp.KvWrite β) (src : ℕ × ℕ × ℕ → hp.Row β) (mem : ℕ → β) :
    hp.cpy wr.dst src mem = storeAll hp.kvPosStride hp.start (wr.entries src) mem := by
  rw [cpy, storeAll, entries, List.foldl_map]
  refine List.foldl_ext _ _ _ fun mem c hc => ?_
  have hrow := hp.row_kvDst (wr.mem_dst_cells hc).2.2 wr.il wr.nPast wr.n c.1 c.2.1
  rw [dst, hrow, place]

/-- All the keys, or all the values, that blocks write. -/
def entriesOf (writes : List (hp.KvWrite β)) (src : hp.KvWrite β → ℕ × ℕ × ℕ → hp.Row β) :
    List (KvPlace × hp.Row β) :=
  writes.flatMap fun wr => wr.entries (src wr)

theorem entriesOf_cons (wr : hp.KvWrite β) (writes : List (hp.KvWrite β))
    (src : hp.KvWrite β → ℕ × ℕ × ℕ → hp.Row β) :
    entriesOf (wr :: writes) src = wr.entries (src wr) ++ entriesOf writes src := rfl

theorem valid_entriesOf {writes : List (hp.KvWrite β)} (hwrites : ∀ wr ∈ writes, wr.Inside)
    (src : hp.KvWrite β → ℕ × ℕ × ℕ → hp.Row β) :
    ∀ e ∈ entriesOf writes src, hp.Valid e.1 := by
  intro e he
  obtain ⟨wr, hwr, he⟩ := List.mem_flatMap.1 he
  obtain ⟨c, hc, rfl⟩ := List.mem_map.1 he
  exact wr.valid_place (hwrites wr hwr) hc

theorem run_eq (writes : List (hp.KvWrite β)) (mem : KvMem β) :
    run writes mem =
      ⟨storeAll hp.kvPosStride hp.start (entriesOf writes KvWrite.k) mem.k,
        storeAll hp.kvPosStride hp.start (entriesOf writes KvWrite.v) mem.v⟩ := by
  induction writes generalizing mem with
  | nil => rfl
  | cons wr writes ih =>
    show run writes (write mem wr) = _
    rw [ih, entriesOf_cons, entriesOf_cons, storeAll_append, storeAll_append, write, wr.cpy_eq,
      wr.cpy_eq]

variable (hp) in
/-- Both kinds of graph address a place alike; the places are apart, and inside the buffer; and a
read of length `len` has the positions below it, and finds there what was written last for this
layer, head and half, by graphs of either kind. -/
theorem kv_layout (β : Type*) :
    (∀ il nPast n len j h b isUncond, b = KvPath.half (.b1 isUncond) 0 →
      (hp.kvDst (.b1 isUncond) il nPast n).row j h 0 = (hp.kvDst .b2 il nPast n).row j h b ∧
      (hp.kvFull (.b1 isUncond) il len).row j h 0 = (hp.kvFull .b2 il len).row j h b) ∧
    (∀ path il nPast n j h b, b < KvPath.batch path →
      (hp.kvDst path il nPast n).row j h b = hp.start ⟨il, path.half b, h, nPast + j⟩) ∧
    (∀ p q, hp.Valid p → hp.Valid q → p ≠ q →
      Apart hp.kvPosStride (hp.start p) (hp.start q)) ∧
    (∀ p, hp.Valid p → hp.start p + hp.kvPosStride ≤ hp.kvBytes) ∧
    (∀ path il len j h b, (j, h, b) ∈ (hp.kvFull path il len).cells ↔
      j < len ∧ h < hp.nKvHead ∧ b < KvPath.batch path) ∧
    (∀ (writes : List (hp.KvWrite β)) (mem : KvMem β), (∀ wr ∈ writes, wr.Inside) →
      ∀ path il len j h b, il < hp.nLayer → len ≤ hp.nCtx →
        (j, h, b) ∈ (hp.kvFull path il len).cells →
        load hp.kvPosStride ((hp.kvFull path il len).row j h b) (run writes mem).k =
          (last (entriesOf writes KvWrite.k) ⟨il, path.half b, h, j⟩).getD
            (load hp.kvPosStride ((hp.kvFull path il len).row j h b) mem.k) ∧
        load hp.kvPosStride ((hp.kvFull path il len).row j h b) (run writes mem).v =
          (last (entriesOf writes KvWrite.v) ⟨il, path.half b, h, j⟩).getD
            (load hp.kvPosStride ((hp.kvFull path il len).row j h b) mem.v)) := by
  refine ⟨?_, ?_, fun p q => hp.apart_start, fun p => hp.start_add_le,
    fun _ _ _ _ _ _ => hp.mem_kvFull_cells, ?_⟩
  · rintro il nPast n len j h b isUncond rfl
    have hone : 0 < KvPath.batch (.b1 isUncond) := Nat.one_pos
    have htwo : KvPath.half (.b1 isUncond) 0 < KvPath.batch .b2 := KvPath.half_lt hone
    rw [hp.row_kvDst hone, hp.row_kvDst htwo, hp.row_kvFull hone, hp.row_kvFull htwo]
    exact ⟨rfl, rfl⟩
  · intro path il nPast n j h b hb
    exact hp.row_kvDst hb il nPast n j h
  · intro writes mem hwrites path il len j h b hil hlen hcell
    obtain ⟨hj, hh, hb⟩ := hp.mem_kvFull_cells.1 hcell
    have hvalid : hp.Valid ⟨il, path.half b, h, j⟩ :=
      ⟨hil, KvPath.half_lt hb, hh, Nat.lt_of_lt_of_le hj hlen⟩
    have hapart : ∀ p q, hp.Valid p → hp.Valid q → p ≠ q →
        Apart hp.kvPosStride (hp.start p) (hp.start q) := fun p q => hp.apart_start
    rw [hp.row_kvFull hb, run_eq]
    exact ⟨load_storeAll hapart (valid_entriesOf hwrites KvWrite.k) hvalid mem.k,
      load_storeAll hapart (valid_entriesOf hwrites KvWrite.v) hvalid mem.v⟩

/-- The prompt of both passes is read by a step of the unconditional pass. -/
theorem kv_layout_prompt_then_step :
    load 1 ((kvFull ⟨1, 1, 2, 1, 1⟩ (.b1 true) 0 1).row 0 0 0)
      (run ([⟨.b2, 0, 0, 1, fun c _ => c.2.2, fun _ _ => 0⟩] : List (KvWrite ⟨1, 1, 2, 1, 1⟩ ℕ))
        ⟨fun _ => 7, fun _ => 7⟩).k = fun _ => 1 := by
  have hread := (kv_layout ⟨1, 1, 2, 1, 1⟩ ℕ).2.2.2.2.2
    [⟨.b2, 0, 0, 1, fun c _ => c.2.2, fun _ _ => 0⟩] ⟨fun _ => 7, fun _ => 7⟩
    (by simp [KvWrite.Inside]) (.b1 true) 0 1 0 0 0 Nat.one_pos (by decide) (by decide)
  exact hread.1

end Memory

end KvShape

end Chatterbox

end WhisperCpp
