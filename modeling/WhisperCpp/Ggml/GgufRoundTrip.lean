import WhisperCpp.Ggml.Gguf
import Mathlib.Algebra.Order.BigOperators.Group.List
import Mathlib.Data.Fintype.Basic
import Mathlib.Tactic.FinCases
import Mathlib.Tactic.Linarith

/-!
# What is written is read

A context that calls have filled is written, and what is written of it is read again: the same pairs
and the same tensors, each with its data.

## Main definitions

* `Fits` — the limits of the reader
* `kvBytes`, `metaBytes`, `fileBytes` — what is written
* `received` — what is read

## Main results

* `decodes_readKv`, `decodes_readTensorInfo`, `decodes_readMeta` — the front
* `writeTensorData_run`, `dataSize_described`, `slice_flatMap_padded` — the data
* `initFromBuffer_writeOut` — what is written is read
-/

namespace WhisperCpp

namespace Gguf

open Ggml Consumer
open Loader (ofBytes)

/-! ### Numbers and strings -/

section Numbers

variable {k x : ℕ}

@[simp] theorem length_leBytes (k x : ℕ) : (leBytes k x).length = k := by
  induction k generalizing x with
  | zero => rfl
  | succ k ih => rw [leBytes, List.length_cons, ih]

theorem ofBytes_leBytes (h : x < 256 ^ k) : ofBytes (leBytes k x) = x := by
  induction k generalizing x with
  | zero =>
    rw [pow_zero, Nat.lt_one_iff] at h
    rw [h]
    rfl
  | succ k ih =>
    have hrest : ofBytes (leBytes k (x / 256)) = x / 256 :=
      ih (Nat.div_lt_of_lt_mul (by rwa [pow_succ, Nat.mul_comm] at h))
    have hcons : ofBytes (leBytes (k + 1) x) =
        (UInt8.ofNat x).toNat + 256 * ofBytes (leBytes k (x / 256)) := rfl
    rw [hcons, hrest, UInt8.toNat_ofNat']
    omega

theorem decodes_readNum (h : x < 256 ^ k) : Decodes (readNum k) (leBytes k x) x := by
  have htake := (decodes_take (e := Stop.rejected) (length_leBytes k x)).map ofBytes
  rwa [ofBytes_leBytes h] at htake

theorem decodes_readI64 {x : ℤ} (h0 : 0 ≤ x) (h : x < 2 ^ 63) :
    Decodes readI64 (leBytes 8 x.toNat) x := by
  have hmod : (x.toNat : ℤ).bmod (2 ^ 64) = x := by
    rw [Int.toNat_of_nonneg h0, Int.bmod_eq_of_le] <;> omega
  refine (decodes_readNum (k := 8) (by omega)).followed ?_
  rw [hmod]
  exact decodes_pure x

theorem decodes_readString {s : List UInt8} (h : s.length ≤ 2 ^ 30) :
    Decodes readString (writeString s) s := by
  refine (decodes_readNum (k := 8) (x := s.length) (by omega)).bind ?_
  rw [if_neg (by omega)]
  exact decodes_take rfl

theorem decodes_readCount {n size : ℕ} (h : n ≤ (2 ^ 64 - 1) / size) (hn : n < 2 ^ 63) :
    Decodes (readCount size) (leBytes 8 n) n := by
  have hneg : ¬ ((n : ℤ) < 0 ∨ (2 ^ 64 - 1) / size < (n : ℤ).toNat) := by
    rw [Int.toNat_natCast]
    omega
  refine (decodes_readI64 (x := n) (by omega) (by omega)).followed ?_
  rw [if_neg hneg]
  exact decodes_pure n

theorem decodes_lift {α : Type} {r : Except Stop α} {a : α} (h : r = .ok a) :
    Decodes (lift r) [] a := by
  intro pos rest
  rw [lift, h]
  rfl

end Numbers

/-! ### Pairs -/

/-- The reader takes what is in a pair. -/
structure Kv.Fits (kv : Kv) : Prop where
  key : kv.key.length ≤ 2 ^ 30
  data : kv.data.length / kv.type.size ≤ 2 ^ 30
  strings : kv.dataString.length ≤ 2 ^ 30
  string : ∀ s ∈ kv.dataString, s.length ≤ 2 ^ 30

/-- The number of elements of a value. -/
def Kv.count (kv : Kv) : ℕ :=
  if kv.type = .string then kv.dataString.length else kv.data.length / kv.type.size

/-- What is written of the elements. -/
def Kv.elements (kv : Kv) : List UInt8 :=
  if kv.type = .string then kv.dataString.flatMap writeString else kv.data

/-- What is written of a pair. -/
def kvBytes (kv : Kv) : List UInt8 :=
  writeString kv.key ++
    ((if kv.isArray then
      leBytes 4 GgufType.array.code ++ (leBytes 4 kv.type.code ++ leBytes 8 kv.count)
    else leBytes 4 kv.type.code) ++ kv.elements)

section Pairs

variable {kv : Kv}

theorem size_pos {t : GgufType} (harray : t ≠ .array) (hstring : t ≠ .string) : 0 < t.size := by
  cases t <;> simp_all [GgufType.size]

theorem Kv.Typed.getNe (h : kv.Typed) : kv.getNe = .ok kv.count := by
  rw [Kv.getNe, Kv.count]
  by_cases hstring : kv.type = .string
  · have hone : kv.isArray ∨ kv.dataString.length = 1 := by
      cases harray : kv.isArray with
      | true => exact .inl rfl
      | false => exact .inr ((h.string hstring).2 harray)
    rw [if_pos hstring, if_pos hstring, if_pos hone]
  · obtain ⟨-, hdvd, hsize⟩ := h.scalar hstring
    have hpos := size_pos h.not_array hstring
    have hone : kv.isArray ∨ kv.data.length / kv.type.size = 1 := by
      cases harray : kv.isArray with
      | true => exact .inl rfl
      | false =>
        rw [hsize harray]
        exact .inr (Nat.div_self hpos)
    rw [if_neg hstring, if_neg hstring, if_neg (by simp [Nat.mod_eq_zero_of_dvd hdvd]), if_pos hone]

theorem map_boolByte {data : List UInt8} (h : ∀ b ∈ data, b = 0 ∨ b = 1) :
    data.map boolByte = data := by
  refine List.map_congr_left (g := id) (fun b hb => ?_) |>.trans (List.map_id data)
  rcases h b hb with rfl | rfl <;> rfl

/-- A pair is written. -/
theorem writeKv_eq (h : kv.Typed) : writeKv kv = .ok (kvBytes kv) := by
  have harray := h.not_array
  have hbool := h.bool
  rw [writeKv, h.getNe, kvBytes, Kv.elements, ← List.append_assoc]
  simp only [bind, Except.bind]
  cases htype : kv.type <;> simp_all [map_boolByte]

end Pairs

theorem decodes_readVector {elem : Reader (List UInt8)} {enc : List UInt8 → List UInt8}
    {size : ℕ} {xs : List (List UInt8)} (hlen : xs.length ≤ 2 ^ 30)
    (helem : ∀ x ∈ xs, Decodes elem (enc x) x) (hsize : ∀ x ∈ xs, size ≤ (enc x).length) :
    Decodes (readVector elem size xs.length) (xs.flatMap enc) xs := by
  rw [readVector, if_neg (by omega)]
  refine Decodes.need ?_ ?_
  · rw [List.length_flatMap]
    have hsum := List.card_nsmul_le_sum (xs.map fun x => (enc x).length) size (by simpa using hsize)
    rwa [List.length_map, Nat.nsmul_eq_mul] at hsum
  · exact decodes_collect fun ys x zs heq => helem x (by simp [heq])

/-- A value alone or a vector of values. -/
theorem decodes_readValues {elem : Reader (List UInt8)} {enc : List UInt8 → List UInt8}
    {size : ℕ} {xs : List (List UInt8)} {isArray : Bool} (hlen : xs.length ≤ 2 ^ 30)
    (hone : isArray = false → xs.length = 1)
    (helem : ∀ x ∈ xs, Decodes elem (enc x) x) (hsize : ∀ x ∈ xs, size ≤ (enc x).length) :
    Decodes (readValues elem size isArray xs.length) (xs.flatMap enc) xs := by
  cases isArray with
  | true => exact decodes_readVector hlen helem hsize
  | false =>
    obtain ⟨x, rfl⟩ := List.length_eq_one_iff.mp (hone rfl)
    rw [List.flatMap_singleton]
    exact (helem x List.mem_cons_self).map fun v => [v]

/-- Bytes in pieces. -/
theorem exists_pieces {size n : ℕ} {l : List UInt8} (h : l.length = n * size) :
    ∃ parts : List (List UInt8), parts.length = n ∧ parts.flatten = l ∧
      ∀ p ∈ parts, p.length = size := by
  induction n generalizing l with
  | zero =>
    rw [Nat.zero_mul, List.length_eq_zero_iff] at h
    exact ⟨[], rfl, h.symm, nofun⟩
  | succ n ih =>
    rw [Nat.succ_mul] at h
    obtain ⟨parts, hlen, hflat, hparts⟩ := ih (l := l.drop size) (by rw [List.length_drop]; omega)
    refine ⟨l.take size :: parts, by rw [List.length_cons, hlen], ?_, ?_⟩
    · rw [List.flatten_cons, hflat, List.take_append_drop]
    · rintro p (_ | ⟨_, hp⟩)
      · rw [List.length_take]
        omega
      · exact hparts p hp

/-- Numbers in pieces of their size. -/
theorem decodes_numbers {kv : Kv} (htyped : kv.Typed) (hfits : kv.Fits)
    (hstring : kv.type ≠ .string) : ∃ parts : List (List UInt8), parts.flatten = kv.data ∧
      Decodes (readValues (Consumer.take .rejected kv.type.size) kv.type.size kv.isArray kv.count)
        kv.data parts := by
  obtain ⟨-, hdvd, hsize⟩ := htyped.scalar hstring
  have hpos := size_pos htyped.not_array hstring
  obtain ⟨parts, hlen, hflat, hparts⟩ := exists_pieces (Nat.div_mul_cancel hdvd).symm
  have hcount : kv.count = parts.length := by rw [hlen, Kv.count, if_neg hstring]
  refine ⟨parts, hflat, ?_⟩
  have hread : Decodes (readValues (Consumer.take .rejected kv.type.size) kv.type.size kv.isArray
      parts.length) (parts.flatMap id) parts :=
    decodes_readValues (hlen ▸ hfits.data)
      (fun harray => by rw [hlen, hsize harray, Nat.div_self hpos])
      (fun p hp => decodes_take (hparts p hp)) fun p hp => (hparts p hp).ge
  rwa [List.flatMap_id, hflat, ← hcount] at hread

/-- The elements are read. -/
theorem decodes_readElements {kv : Kv} (htyped : kv.Typed) (hfits : kv.Fits) :
    Decodes (readElements kv.key kv.isArray kv.count kv.type) kv.elements kv := by
  obtain ⟨key, isArray, type, data, strings⟩ := kv
  by_cases hstring : type = .string
  · subst hstring
    obtain ⟨rfl, hone⟩ := htyped.string rfl
    have hread : Decodes (readValues readString 8 isArray strings.length)
        (strings.flatMap writeString) strings :=
      decodes_readValues hfits.strings hone (fun s hs => decodes_readString (hfits.string s hs))
        fun s _ => by simp [writeString]
    have hmap := hread.map fun strings => (⟨key, isArray, .string, [], strings⟩ : Kv)
    rwa [Kv.elements, if_pos rfl, Kv.count, if_pos rfl]
  · obtain ⟨rfl, -⟩ := htyped.scalar hstring
    obtain ⟨parts, rfl, hread⟩ := decodes_numbers htyped hfits hstring
    rw [Kv.elements, if_neg hstring]
    by_cases hbool : type = .bool
    · subst hbool
      have hmap := hread.map fun parts =>
        (⟨key, isArray, .bool, parts.flatten.map boolByte, []⟩ : Kv)
      rwa [map_boolByte (htyped.bool rfl)] at hmap
    · have hmap := hread.map fun parts => (⟨key, isArray, type, parts.flatten, []⟩ : Kv)
      have harray := htyped.not_array
      cases type <;> first | exact hmap | contradiction

theorem decodes_readEmplace {kv : Kv} (htyped : kv.Typed) (hfits : kv.Fits) (hkey : kv.key ≠ []) :
    Decodes (readEmplace kv.key kv.isArray kv.type kv.count) kv.elements kv := by
  refine (decodes_readElements htyped hfits).followed ?_
  rw [if_neg hkey]
  exact decodes_pure kv

theorem getElem?_code (t : GgufType) : ggufTypes[t.code]? = some t := by cases t <;> rfl

theorem code_lt (t : GgufType) : t.code < 256 ^ 4 := by cases t <;> decide

theorem Kv.Typed.count_eq_one {kv : Kv} (h : kv.Typed) (harray : kv.isArray = false) :
    kv.count = 1 := by
  rw [Kv.count]
  split_ifs with hstring
  · exact (h.string hstring).2 harray
  · rw [(h.scalar hstring).2.2 harray, Nat.div_self (size_pos h.not_array hstring)]

theorem Kv.Fits.count_le {kv : Kv} (h : kv.Fits) : kv.count ≤ 2 ^ 30 := by
  rw [Kv.count]
  split_ifs
  · exact h.strings
  · exact h.data

/-- **A pair is read** behind pairs with other keys. -/
theorem decodes_readKv {kv : Kv} {previous : List Kv} (htyped : kv.Typed) (hfits : kv.Fits)
    (hkey : kv.key ≠ []) (hnew : kv.key ∉ previous.map Kv.key) :
    Decodes (readKv previous) (kvBytes kv) kv := by
  have hemplace := decodes_readEmplace htyped hfits hkey
  have hcount := hfits.count_le
  refine (decodes_readString hfits.key).bind ?_
  rw [if_neg hnew]
  cases harray : kv.isArray with
  | true =>
    rw [harray] at hemplace
    rw [if_pos rfl, List.append_assoc, List.append_assoc]
    refine (decodes_readNum (code_lt .array)).bind ?_
    refine (decodes_readNum (code_lt kv.type)).bind ?_
    refine (decodes_readNum (k := 8) (by omega)).bind ?_
    rw [getElem?_code]
    exact hemplace
  | false =>
    rw [harray, htyped.count_eq_one harray] at hemplace
    rw [if_neg Bool.false_ne_true]
    refine (decodes_readNum (code_lt kv.type)).bind ?_
    rw [getElem?_code]
    have hnot := htyped.not_array
    cases htype : kv.type <;> rw [htype] at hemplace hnot <;>
      first | exact hemplace | exact absurd rfl hnot

/-! ### Tensors -/

/-- The reader takes a tensor, and there are the data of it. -/
structure TensorInfo.Fits (ti : TensorInfo) : Prop where
  dims : ∀ j, 0 ≤ ti.ne j
  elements : checkElements ti.ne = .ok ()
  type : checkType ti.type ti.ne = .ok ()
  data : ∃ d, ti.data = some d ∧ ti.nbytes ≤ d.length

/-- What is read of a tensor. -/
def TensorInfo.described (ti : TensorInfo) : TensorInfo := { ti with data := none }

section Tensors

variable {ti : TensorInfo} {ne : Fin 4 → ℤ}

theorem lt_of_lt_ediv {a m x : ℤ} (ha : 0 ≤ a) (hm : 0 < m) (h : a < x / m) : a < x ∧ m ≤ x := by
  have hmul : (a + 1) * m ≤ x := (Int.le_ediv_iff_mul_le hm).mp h
  constructor <;> nlinarith

/-- The lengths that the reader takes. -/
theorem lengths_of_checkElements (h0 : ∀ j, 0 ≤ ne j) (h : checkElements ne = .ok ()) :
    (∀ j, ne j < 2 ^ 63) ∧ ∀ j, j ≠ 0 → 1 ≤ ne j := by
  rw [checkElements] at h
  split_ifs at h with h1 hle1 h2 hle2 h3 hle3
  have hpos1 : 0 < ne 1 := lt_of_le_of_ne (h0 1) (Ne.symm h1)
  have hpos2 : 0 < ne 2 := lt_of_le_of_ne (h0 2) (Ne.symm h2)
  have hpos3 : 0 < ne 3 := lt_of_le_of_ne (h0 3) (Ne.symm h3)
  obtain ⟨hlt0, hlt1⟩ := lt_of_lt_ediv (h0 0) hpos1 (not_le.mp hle1)
  obtain ⟨-, hlt2⟩ := lt_of_lt_ediv (mul_nonneg (h0 0) (h0 1)) hpos2 (not_le.mp hle2)
  obtain ⟨-, hlt3⟩ :=
    lt_of_lt_ediv (mul_nonneg (mul_nonneg (h0 0) (h0 1)) (h0 2)) hpos3 (not_le.mp hle3)
  constructor <;> intro j
  · fin_cases j <;> simp <;> omega
  · fin_cases j <;> simp <;> omega

/-- Behind the dimensions there are ones. -/
theorem getD_dims (type : GgmlType) (h : ∀ j, j ≠ 0 → 1 ≤ ne j) :
    (fun j : Fin 4 => (((List.finRange 4).take (nDims (newTensor type ne))).map ne).getD j 1) =
      ne := by
  have h1 := h 1 (by decide)
  have h2 := h 2 (by decide)
  have h3 := h 3 (by decide)
  rw [nDims, ne_newTensor]
  funext j
  split_ifs <;> fin_cases j <;> simp [List.finRange_succ] <;> omega

theorem decodes_readDim {x : ℤ} (h0 : 0 ≤ x) (h : x < 2 ^ 63) :
    Decodes readDim (leBytes 8 (x % 2 ^ 64).toNat) x := by
  have hmod : x % 2 ^ 64 = x := Int.emod_eq_of_lt h0 (by omega)
  rw [hmod]
  refine (decodes_readI64 h0 h).followed ?_
  rw [if_neg (by omega)]
  exact decodes_pure x

theorem decodes_dims {n : ℕ} (hn : n ≤ 4) (h0 : ∀ j, 0 ≤ ne j) (h : ∀ j, ne j < 2 ^ 63) :
    Decodes (Consumer.collect (fun _ => readDim) n [])
      (((List.finRange 4).take n).flatMap fun j => leBytes 8 (ne j % 2 ^ 64).toNat)
      (((List.finRange 4).take n).map ne) := by
  have hcollect : Decodes
      (Consumer.collect (fun _ => readDim) (((List.finRange 4).take n).map ne).length [])
      ((((List.finRange 4).take n).map ne).flatMap fun x => leBytes 8 (x % 2 ^ 64).toNat)
      ([] ++ ((List.finRange 4).take n).map ne) := decodes_collect fun ys x zs heq => by
    have hx : x ∈ ((List.finRange 4).take n).map ne := by simp [heq]
    obtain ⟨j, -, rfl⟩ := List.mem_map.mp hx
    exact decodes_readDim (h0 j) (h j)
  rwa [List.length_map, List.length_take, List.length_finRange, min_eq_left hn, List.flatMap_map,
    List.nil_append] at hcollect

theorem nDims_le (t : Tensor) : nDims t ≤ 4 := by
  rw [nDims]
  split_ifs <;> omega

/-- **A tensor is read** behind tensors with other names. -/
theorem decodes_readTensorInfo {previous : List TensorInfo} (hfits : ti.Fits) (hzero : 0 ∉ ti.name)
    (hlen : ti.name.length < 64) (hnew : ti.name ∉ previous.map TensorInfo.name)
    (hoff : ti.offset < 2 ^ 64) :
    Decodes (readTensorInfo previous) (writeTensorMeta ti) ti.described := by
  obtain ⟨hlt, hpos⟩ := lengths_of_checkElements hfits.dims hfits.elements
  have hdims := nDims_le ti.t
  rw [writeTensorMeta, List.append_assoc, List.append_assoc, List.append_assoc]
  refine (decodes_readString (by omega)).bind ?_
  rw [if_neg (by omega), cStr_eq hzero, if_neg hnew]
  refine (decodes_readNum (k := 4) (by omega)).bind ?_
  rw [if_neg (by omega)]
  refine (decodes_dims hdims hfits.dims hlt).bind ?_
  rw [TensorInfo.t, getD_dims ti.type hpos]
  rw [← List.nil_append (_ ++ _)]
  refine (decodes_lift hfits.elements).bind ?_
  refine (decodes_readNum (k := 4) (by omega)).bind ?_
  rw [dif_pos ti.type.isLt]
  rw [← List.nil_append (leBytes _ _)]
  refine (decodes_lift hfits.type).bind ?_
  exact (decodes_readNum (k := 8) (by omega)).map fun offset =>
    (⟨ti.name, ti.type, ti.ne, offset, none⟩ : TensorInfo)

end Tensors

/-! ### Data -/

/-- The data of a tensor, and zeros up to the alignment. -/
def padded (alignment : ℕ) (ti : TensorInfo) : List UInt8 :=
  (ti.data.getD []).take ti.nbytes ++ List.replicate (pad ti.nbytes alignment - ti.nbytes) 0

/-- The data of all tensors. -/
def blob (c : Context) : List UInt8 := c.info.flatMap (padded c.alignment)

section Data

variable {alignment size x : ℕ} {ti : TensorInfo} {l : List TensorInfo} {out d : List UInt8}

theorem mul_add_div_of_lt {a q r : ℕ} (h : r < a) : (a * q + r) / a = q := by
  rw [Nat.mul_add_div (by omega), Nat.div_eq_of_lt h, Nat.add_zero]

theorem pad_eq (hpos : 0 < alignment) (h : x + alignment ≤ 2 ^ 64) :
    pad x alignment = x + (alignment - x % alignment) % alignment := by
  have hdecomp := Nat.div_add_mod x alignment
  have hmod := Nat.mod_lt x hpos
  rw [pad, Nat.mod_eq_of_lt (by omega), Nat.mul_comm]
  by_cases hzero : x % alignment = 0
  · have hsplit : x + alignment - 1 = alignment * (x / alignment) + (alignment - 1) := by omega
    rw [hsplit, mul_add_div_of_lt (by omega), hzero, Nat.sub_zero, Nat.mod_self]
    omega
  · have hsucc := Nat.mul_succ alignment (x / alignment)
    have hsplit : x + alignment - 1 = alignment * (x / alignment).succ + (x % alignment - 1) := by
      omega
    rw [hsplit, mul_add_div_of_lt (by omega),
      Nat.mod_eq_of_lt (by omega : alignment - x % alignment < alignment)]
    omega

theorem dvd_pad : alignment ∣ pad x alignment := Nat.dvd_mul_left _ _

theorem le_pad (hpos : 0 < alignment) (h : x + alignment ≤ 2 ^ 64) : x ≤ pad x alignment := by
  rw [pad_eq hpos h]
  exact Nat.le_add_right _ _

theorem length_padOut (hpos : 0 < alignment) (h : out.length + alignment ≤ 2 ^ 64) :
    (padOut alignment out).length = pad out.length alignment := by
  rw [padOut, List.length_append, List.length_replicate, pad_eq hpos h]

/-- Behind what is aligned. -/
theorem padOut_append (hpos : 0 < alignment) (hdvd : alignment ∣ out.length)
    (h : d.length + alignment ≤ 2 ^ 64) : padOut alignment (out ++ d) =
      out ++ (d ++ List.replicate (pad d.length alignment - d.length) 0) := by
  rw [padOut, pad_eq hpos h, List.length_append, Nat.add_mod, Nat.mod_eq_zero_of_dvd hdvd,
    Nat.zero_add, Nat.mod_mod, Nat.add_sub_cancel_left, List.append_assoc]

theorem length_padded (hfits : ti.Fits) (hpos : 0 < alignment)
    (h : ti.nbytes + alignment ≤ 2 ^ 64) :
    (padded alignment ti).length = pad ti.nbytes alignment := by
  obtain ⟨d, hd, hlen⟩ := hfits.data
  have hle := le_pad hpos h
  rw [padded, hd, Option.getD_some, List.length_append, List.length_take, List.length_replicate,
    min_eq_left hlen]
  omega

theorem length_flatMap_padded (hfits : ∀ ti ∈ l, ti.Fits) (hpos : 0 < alignment)
    (h : ∀ ti ∈ l, ti.nbytes + alignment ≤ 2 ^ 64) :
    (l.flatMap (padded alignment)).length = totalSize alignment l := by
  rw [List.length_flatMap, totalSize]
  exact congrArg List.sum
    (List.map_congr_left fun ti hti => length_padded (hfits ti hti) hpos (h ti hti))

theorem totalSize_cons :
    totalSize alignment (ti :: l) = pad ti.nbytes alignment + totalSize alignment l := by
  rw [totalSize, List.map_cons, List.sum_cons]
  rfl

/-- **The data are written**, one behind the other. -/
theorem writeTensorData_run {off : ℕ} (hpos : 0 < alignment) (hfits : ∀ ti ∈ l, ti.Fits)
    (h : ∀ ti ∈ l, ti.nbytes + alignment ≤ 2 ^ 64) (hcont : Contiguous alignment size l)
    (hsize : size + totalSize alignment l < 2 ^ 64) (hoff : alignment ∣ off)
    (hdvd : alignment ∣ size) (hlen : out.length = off + size) :
    l.foldlM (writeTensorData off alignment) out = .ok (out ++ l.flatMap (padded alignment)) := by
  induction l generalizing size out with
  | nil =>
    rw [List.flatMap_nil, List.append_nil]
    rfl
  | cons ti l ih =>
    have hti := hfits ti List.mem_cons_self
    have hbytes := h ti List.mem_cons_self
    obtain ⟨d, hd, hdlen⟩ := hti.data
    rw [totalSize_cons] at hsize
    have hone : writeTensorData off alignment out ti = .ok (out ++ padded alignment ti) := by
      have hoffset : out.length - off = ti.offset := by
        rw [hcont.1, Nat.mod_eq_of_lt (by omega)]
        omega
      rw [writeTensorData, if_neg (not_not.mpr hoffset), padded, hd]
      have hlength : (d.take ti.nbytes).length = ti.nbytes := by
        rw [List.length_take, min_eq_left hdlen]
      have hfit : (d.take ti.nbytes).length + alignment ≤ 2 ^ 64 := by rwa [hlength]
      have hpad := padOut_append hpos (hlen ▸ Nat.dvd_add hoff hdvd) hfit
      rw [hlength] at hpad
      exact congrArg Except.ok hpad
    rw [List.foldlM_cons, hone, List.flatMap_cons, ← List.append_assoc]
    refine ih (fun ti hti => hfits ti (List.mem_cons_of_mem _ hti))
      (fun ti hti => h ti (List.mem_cons_of_mem _ hti)) hcont.2 (by omega)
      (Nat.dvd_add hdvd dvd_pad) ?_
    rw [List.length_append, hlen, length_padded hti hpos hbytes, Nat.add_assoc]

/-- **The offsets are those that the reader expects.** -/
theorem dataSize_described (hcont : Contiguous alignment size l)
    (hsize : size + totalSize alignment l < 2 ^ 64) :
    dataSize alignment size (l.map TensorInfo.described) =
      .ok (size + totalSize alignment l) := by
  induction l generalizing size with
  | nil => rfl
  | cons ti l ih =>
    rw [totalSize_cons] at hsize
    have hoffset : ti.described.offset = size := by
      rw [TensorInfo.described, hcont.1, Nat.mod_eq_of_lt (by omega)]
    have hbytes : ti.described.nbytes = ti.nbytes := rfl
    rw [List.map_cons, dataSize, if_neg (not_not.mpr hoffset), hbytes, if_neg (by omega),
      ih hcont.2 (by omega), totalSize_cons, Nat.add_assoc]

/-- The data of a tensor are at its offset. -/
theorem slice_flatMap_padded (hpos : 0 < alignment) (hfits : ∀ ti ∈ l, ti.Fits)
    (h : ∀ ti ∈ l, ti.nbytes + alignment ≤ 2 ^ 64) (hcont : Contiguous alignment size l)
    (hsize : size + totalSize alignment l < 2 ^ 64) (hti : ti ∈ l) :
    size ≤ ti.offset ∧ ((l.flatMap (padded alignment)).drop (ti.offset - size)).take ti.nbytes =
      (ti.data.getD []).take ti.nbytes := by
  induction l generalizing size with
  | nil => cases hti
  | cons t l ih =>
    rw [totalSize_cons] at hsize
    rw [List.flatMap_cons]
    rcases List.mem_cons.mp hti with rfl | hmem
    · have hoffset : ti.offset = size := by rw [hcont.1, Nat.mod_eq_of_lt (by omega)]
      obtain ⟨d, hd, hdlen⟩ := (hfits ti List.mem_cons_self).data
      refine ⟨hoffset.ge, ?_⟩
      have hlength : (d.take ti.nbytes).length = ti.nbytes := by
        rw [List.length_take, min_eq_left hdlen]
      rw [hoffset, Nat.sub_self, List.drop_zero, padded, hd, Option.getD_some, List.append_assoc,
        List.take_left' hlength]
    · obtain ⟨hle, hslice⟩ := ih (fun ti hti => hfits ti (List.mem_cons_of_mem _ hti))
        (fun ti hti => h ti (List.mem_cons_of_mem _ hti)) hcont.2 (by omega) hmem
      have hlength := length_padded (hfits t List.mem_cons_self) hpos (h t List.mem_cons_self)
      refine ⟨by omega, ?_⟩
      have hdrop : ti.offset - size - (padded alignment t).length =
          ti.offset - (size + pad t.nbytes alignment) := by
        rw [hlength]
        omega
      rw [List.drop_append, List.drop_eq_nil_of_le (by omega), List.nil_append, hdrop, hslice]

end Data

/-! ### The round trip -/

/-- What is written in front of the data. -/
def metaBytes (c : Context) : List UInt8 :=
  ascii "GGUF" ++ (leBytes 4 c.version ++ (leBytes 8 c.info.length ++ (leBytes 8 c.kv.length ++
    (c.kv.flatMap kvBytes ++ c.info.flatMap writeTensorMeta))))

/-- The limits of the reader. Of the alignment, the calls do not see to it. -/
structure Fits (c : Context) : Prop where
  version : c.version = 2 ∨ c.version = 3
  kv : ∀ kv ∈ c.kv, kv.Fits
  info : ∀ ti ∈ c.info, ti.Fits
  countKv : c.kv.length ≤ (2 ^ 64 - 1) / sizeofKv
  countInfo : c.info.length ≤ (2 ^ 64 - 1) / sizeofTensorInfo
  alignment : findAlignment c.kv = .ok c.alignment
  head : (metaBytes c).length + c.alignment ≤ 2 ^ 64
  nbytes : ∀ ti ∈ c.info, ti.nbytes + c.alignment ≤ 2 ^ 64
  size : totalSize c.alignment c.info < 2 ^ 64

section RoundTrip

variable {c : Context}

theorem alignment_pos {kv : List Kv} {alignment : ℕ} (h : findAlignment kv = .ok alignment) :
    0 < alignment := by
  obtain ⟨a, -, ha⟩ := Fuel.bind_eq_ok_iff.mp h
  split_ifs at ha with halign
  cases ha
  exact Nat.pos_of_ne_zero halign.1

theorem mapM_writeKv {l : List Kv} (h : ∀ kv ∈ l, kv.Typed) :
    l.mapM writeKv = .ok (l.map kvBytes) := by
  induction l with
  | nil => rfl
  | cons kv l ih =>
    rw [List.mapM_cons, writeKv_eq (h kv List.mem_cons_self),
      ih fun kv hkv => h kv (List.mem_cons_of_mem _ hkv)]
    rfl

theorem writeMeta_eq (h : Invariant c) : writeMeta c = .ok (metaBytes c) := by
  have hkvs := mapM_writeKv fun kv hkv => (h.kv kv hkv).2.2
  rw [writeMeta, hkvs, metaBytes]
  simp [List.flatMap_def]

theorem decodes_readVersion {version : ℕ} (h : version = 2 ∨ version = 3) :
    Decodes readVersion (leBytes 4 version) version := by
  refine (decodes_readNum (k := 4) (by omega)).followed ?_
  rcases h with rfl | rfl <;> exact decodes_pure _

/-- **The front is read.** -/
theorem decodes_readMeta (h : Invariant c) (hfits : Fits c) :
    Decodes readMeta (metaBytes c)
      ⟨c.version, c.kv, c.info.map TensorInfo.described, c.alignment, 0, 0, none⟩ := by
  have hkv : Decodes (Consumer.collect readKv c.kv.length []) (c.kv.flatMap kvBytes) c.kv := by
    refine decodes_collect fun previous kv rest heq => ?_
    have hmem : kv ∈ c.kv := by simp [heq]
    have hnodup := h.keys
    rw [heq, List.map_append, List.map_cons] at hnodup
    obtain ⟨hkey, -, htyped⟩ := h.kv kv hmem
    exact decodes_readKv htyped (hfits.kv kv hmem) hkey fun hprevious =>
      (List.nodup_append.mp hnodup).2.2 _ hprevious _ List.mem_cons_self rfl
  have hinfo : Decodes (Consumer.collect readTensorInfo c.info.length [])
      (c.info.flatMap writeTensorMeta) (c.info.map TensorInfo.described) := by
    have hcollect : Decodes
        (Consumer.collect readTensorInfo (c.info.map TensorInfo.described).length [])
        ((c.info.map TensorInfo.described).flatMap writeTensorMeta)
        ([] ++ c.info.map TensorInfo.described) := decodes_collect fun previous x rest heq => by
        obtain ⟨front, back, hinfo, rfl, hback⟩ := List.map_eq_append_iff.mp heq
        obtain ⟨ti, back, rfl, rfl, -⟩ := List.map_eq_cons_iff.mp hback
        have hmem : ti ∈ c.info := by simp [hinfo]
        have hnodup := h.names
        rw [hinfo, List.map_append, List.map_cons] at hnodup
        obtain ⟨hzero, hlen⟩ := h.name ti hmem
        have hoffset : ti.offset < 2 ^ 64 := offset_lt h.offsets hmem
        have hnew : ti.name ∉ (front.map TensorInfo.described).map TensorInfo.name := by
          rw [List.map_map]
          exact fun hfront => (List.nodup_append.mp hnodup).2.2 _ hfront _ List.mem_cons_self rfl
        have hread : Decodes (readTensorInfo (front.map TensorInfo.described))
            (writeTensorMeta ti) ti.described :=
          decodes_readTensorInfo (hfits.info ti hmem) hzero hlen hnew hoffset
        exact hread
    rwa [List.length_map, List.flatMap_map] at hcollect
  have h8 : (2 ^ 64 - 1) / sizeofKv < 2 ^ 63 := by decide
  have h9 : (2 ^ 64 - 1) / sizeofTensorInfo < 2 ^ 63 := by decide
  have hcountKv := hfits.countKv
  have hcountInfo := hfits.countInfo
  rw [metaBytes]
  have hmagic : (ascii "GGUF").length = 4 := by decide
  refine (decodes_take hmagic).bind ?_
  rw [if_neg (not_not.mpr rfl)]
  refine (decodes_readVersion hfits.version).bind ?_
  refine (decodes_readCount hcountInfo (by omega)).bind ?_
  refine (decodes_readCount hcountKv (by omega)).bind ?_
  refine hkv.bind ?_
  rw [← List.nil_append (List.flatMap _ _)]
  refine (decodes_lift hfits.alignment).bind ?_
  exact hinfo.map fun info => (⟨c.version, c.kv, info, c.alignment, 0, 0, none⟩ : Context)

/-- Where the data begin. -/
def dataOffset (c : Context) : ℕ :=
  if 0 < c.info.length then pad (metaBytes c).length c.alignment else (metaBytes c).length

/-- What is read of a context. -/
def received (c : Context) : Context where
  version := c.version
  kv := c.kv
  info := c.info.map TensorInfo.described
  alignment := c.alignment
  offset := dataOffset c
  size := totalSize c.alignment c.info
  data := some (blob c)

/-- The data are read where they begin. -/
theorem readData_of_seekData {s s₁ : ℕ × List UInt8} {size : ℕ}
    (hseek : seekData c s = .ok ((), s₁)) (hsize : dataSize c.alignment 0 c.info = .ok size)
    (hlen : size ≤ s₁.2.length) : readData c s = .ok (
      { c with offset := s₁.1, size := size, data := some (s₁.2.take size) },
      (s₁.1 + size, s₁.2.drop size)) := by
  simp only [readData, bind_apply, Consumer.tell, hseek, Except.bind, lift, hsize, Except.map,
    Consumer.take, if_neg (not_lt.mpr hlen)]
  rfl

/-- The data are read, behind zeros up to the alignment. -/
theorem readData_eq {zeros data : List UInt8} {front size : ℕ}
    (hzeros : front + zeros.length = pad front c.alignment)
    (hsize : dataSize c.alignment 0 c.info = .ok size) (hdata : data.length = size) :
    ∃ s, readData c (front, zeros ++ data) = .ok ({ c with
        offset := if 0 < c.info.length then pad front c.alignment else front
        size := size
        data := some ((if 0 < c.info.length then data else zeros ++ data).take size) }, s) := by
  by_cases hinfo : 0 < c.info.length
  · have hdrop : pad front c.alignment - front = zeros.length := by omega
    have hseek : seekData c (front, zeros ++ data) = .ok ((), (pad front c.alignment, data)) := by
      simp only [seekData, bind_apply, Consumer.tell, Except.bind, if_pos hinfo]
      rw [Consumer.seek, if_neg (by rw [List.length_append]; omega), hdrop, List.drop_left]
    rw [if_pos hinfo, if_pos hinfo]
    exact ⟨_, readData_of_seekData hseek hsize hdata.ge⟩
  · have hseek : seekData c (front, zeros ++ data) = .ok ((), (front, zeros ++ data)) := by
      simp only [seekData, bind_apply, Consumer.tell, Except.bind, if_neg hinfo]
      rfl
    rw [if_neg hinfo, if_neg hinfo]
    refine ⟨_, readData_of_seekData hseek hsize ?_⟩
    rw [List.length_append]
    omega

/-- What is written of a context. -/
def fileBytes (c : Context) : List UInt8 := padOut c.alignment (metaBytes c) ++ blob c

/-- **The file is read**, the front and then the data. -/
theorem initFromReader_fileBytes (h : Invariant c) (hfits : Fits c) :
    ∃ s, initFromReader (0, fileBytes c) = .ok (received c, s) := by
  have hpos := alignment_pos hfits.alignment
  have hout := length_padOut hpos hfits.head
  rw [padOut, List.length_append] at hout
  have hsize := dataSize_described h.offsets (by rw [Nat.zero_add]; exact hfits.size)
  rw [Nat.zero_add] at hsize
  have hlen : (blob c).length = totalSize c.alignment c.info :=
    length_flatMap_padded hfits.info hpos hfits.nbytes
  obtain ⟨s, hread⟩ := readData_eq (c := ⟨c.version, c.kv, c.info.map TensorInfo.described,
    c.alignment, 0, 0, none⟩) hout hsize hlen
  refine ⟨s, ?_⟩
  rw [initFromReader, bind_apply, fileBytes, padOut, List.append_assoc, decodes_readMeta h hfits,
    Nat.zero_add]
  refine hread.trans ?_
  rw [received, dataOffset, List.length_map]
  split_ifs with hinfo
  · rw [← hlen, List.take_length]
  · have hnil : c.info = [] := List.length_eq_zero_iff.mp (by omega)
    have hblob : blob c = [] := by rw [blob, hnil, List.flatMap_nil]
    rw [hblob, hnil]
    rfl

theorem writeOut_eq (h : Invariant c) (hfits : Fits c) : writeOut c = .ok (fileBytes c) := by
  have hpos := alignment_pos hfits.alignment
  have haligned : c.alignment ∣ (padOut c.alignment (metaBytes c)).length := by
    rw [length_padOut hpos hfits.head]
    exact dvd_pad
  have hwrite := writeTensorData_run hpos hfits.info hfits.nbytes h.offsets
    (by rw [Nat.zero_add]; exact hfits.size) haligned (Nat.dvd_zero _) (Nat.add_zero _).symm
  rw [writeOut, writeMeta_eq h]
  exact hwrite

theorem fileBytes_ne_nil : fileBytes c ≠ [] := by
  intro hnil
  rw [fileBytes, padOut, metaBytes] at hnil
  simp at hnil
  exact absurd hnil.1 (by decide)

theorem initFromBuffer_fileBytes (h : Invariant c) (hfits : Fits c) :
    initFromBuffer (fileBytes c) = .ok (received c) := by
  obtain ⟨s, hread⟩ := initFromReader_fileBytes h hfits
  rw [initFromBuffer, if_neg fileBytes_ne_nil, hread]
  rfl

/-- A key with a byte, and a tensor with a number. -/
def sampleCalls : List Call :=
  [.setKv ⟨ascii "k", false, .uint8, [7], []⟩ (by decide)
      ⟨nofun, nofun, fun _ => ⟨rfl, by decide, fun _ => rfl⟩, nofun⟩,
    .addTensor (ascii "t") .f32 ![1, 1, 1, 1] (some [1, 2, 3, 4]) (by decide) (by decide)]

/-- The context that they fill. -/
def sampleContext : Context :=
  { initEmpty with
    kv := [⟨ascii "k", false, .uint8, [7], []⟩]
    info := [⟨ascii "t", .f32, ![1, 1, 1, 1], 0, some [1, 2, 3, 4]⟩] }

theorem fits_sampleContext : Fits sampleContext where
  version := .inr rfl
  kv := by
    intro kv hkv
    rw [List.mem_singleton.mp hkv]
    exact ⟨by decide, by decide, by decide, nofun⟩
  info := by
    intro ti hti
    rw [List.mem_singleton.mp hti]
    exact ⟨by decide, rfl, rfl, [1, 2, 3, 4], rfl, by decide⟩
  countKv := by decide
  countInfo := by decide
  alignment := rfl
  head := by decide
  nbytes := by
    intro ti hti
    rw [List.mem_singleton.mp hti]
    decide
  size := by decide

end RoundTrip

end Gguf

end WhisperCpp
