import WhisperCpp.Library.Strided
import WhisperCpp.Library.Workers
import WhisperCpp.Supertonic.GraphOps
import Mathlib.Algebra.BigOperators.Fin

/-!
# The depthwise convolution

The vector estimator convolves every channel with a kernel of its own, and repeats the first and the last
step of time where the kernel reaches over the ends. There are four forms of it: a custom operator whose
threads share the channels, with a loop of its own for a kernel of five taps, a graph that pads and calls
`ggml_im2col`, and a loop over vectors. Arithmetic is exact.

## Main definitions

* `Depthwise` — what a convolution is given
* `Depthwise.unrolled`, `Depthwise.generic`, `Depthwise.customWrites` — the custom operator
* `edgeClampPad1d`, `depthwiseSameGgml` — the graph
* `Depthwise.scalar` — `depthwise_same`
* `Depthwise.SameForms` — all of them give the same

## Main results

* `Depthwise.store_customWrites` — the threads in any order
* `gives_edgeClampPad1d` — what is padded
* `Depthwise.sameForms_iff` — when the forms are the same
-/

namespace WhisperCpp

namespace Supertonic

open Compute Compute.Tensor

variable {R : Type}

/-! ### The code -/

/-- A signal of `L` steps and `C` channels, and for every channel a kernel of `K` taps and a bias. -/
structure Depthwise (R : Type) where
  L : ℕ
  C : ℕ
  K : ℕ
  dilation : ℕ
  x : ℕ → R
  w : ℕ → R
  b : ℕ → R

/-- `depthwise_same_config`. -/
def depthwiseSameConfig (dilation : ℕ) : Option ℕ :=
  if dilation = 1 ∨ dilation = 2 ∨ dilation = 4 ∨ dilation = 8 then some dilation else none

/-- `edge_clamp_pad_1d`. -/
def edgeClampPad1d (x : Tensor R) (padLeft padRight : ℤ) : Option (Tensor R) := do
  let out ← (if 0 < padLeft then do
      let rep ← (x.view2d 1 x.ne1 x.nb1 0).repeat4d padLeft.toNat x.ne1 1 1
      rep.concat0 x
    else some x)
  if 0 < padRight then do
    let rep ← (x.view2d 1 x.ne1 x.nb1 ((x.ne0 - 1) * x.nb0)).repeat4d padRight.toNat x.ne1 1 1
    out.concat0 rep
  else some out

/-- `depthwise_same_ggml`, where there is no custom operator for the types or for the dilation. -/
def depthwiseSameGgml [CommRing R] (x w b : Tensor R) (dilation : ℤ) : Option (Tensor R) := do
  let padLeft := ((w.ne0 - 1) * dilation).tdiv 2
  let padRight := (w.ne0 - 1) * dilation - padLeft
  let padded ← edgeClampPad1d x padLeft padRight
  let newB ← padded.reshape padded.ne0 1 padded.ne1 padded.ne2
  let im ← im2col w newB 1 0 dilation
  let y ← mulMat im w
  let y ← y.reshape y.ne0 y.ne2 1 1
  addRow y b

namespace Depthwise

variable (p : Depthwise R)

/-- The arguments, as tensors. -/
def xTensor : Tensor R := source p.L p.C 1 1 (packTimeChannel p.L p.C p.x)

def wTensor : Tensor R := source p.K 1 p.C 1 p.w

def bTensor : Tensor R := source p.C 1 1 1 p.b

/-- `std::max(0, std::min(L - 1, t + k * dilation - pad_left))`. -/
def clamped (dilation t k : ℕ) : ℕ :=
  (max 0 (min ((p.L : ℤ) - 1) (t + k * dilation - (((p.K : ℤ) - 1) * dilation).tdiv 2))).toNat

variable [CommRing R]

/-- The loop for five taps. -/
def unrolled (dilation t c : ℕ) : R :=
  let s0 := (max 0 ((t : ℤ) - 2 * dilation)).toNat
  let s1 := (max 0 ((t : ℤ) - dilation)).toNat
  let s2 := t
  let s3 := (min ((p.L : ℤ) - 1) (t + dilation)).toNat
  let s4 := (min ((p.L : ℤ) - 1) (t + 2 * dilation)).toNat
  p.bTensor.get c 0 0 0 + p.xTensor.get s0 c 0 0 * p.wTensor.get 0 0 c 0 +
    p.xTensor.get s1 c 0 0 * p.wTensor.get 1 0 c 0 + p.xTensor.get s2 c 0 0 * p.wTensor.get 2 0 c 0 +
    p.xTensor.get s3 c 0 0 * p.wTensor.get 3 0 c 0 + p.xTensor.get s4 c 0 0 * p.wTensor.get 4 0 c 0

/-- The loop for every other kernel. -/
def generic (dilation t c : ℕ) : R :=
  (List.range p.K).foldl
    (fun sum k => sum + p.xTensor.get (p.clamped dilation t k) c 0 0 * p.wTensor.get k 0 c 0)
    (p.bTensor.get c 0 0 0)

/-- What thread `ith` of `nth` writes in `depthwise_same_custom_op`. -/
def customWrites (nth ith : ℕ) : List (ℕ × R) :=
  let dilation := (depthwiseSameConfig p.dilation).getD 1
  let c0 := p.C * ith / nth
  let c1 := p.C * (ith + 1) / nth
  (List.range' c0 (c1 - c0)).flatMap fun c => (List.range p.L).map fun t =>
    (c * p.L + t, if p.K = 5 then p.unrolled dilation t c else p.generic dilation t c)

/-- `depthwise_same`. -/
def scalar (t c : ℕ) : R :=
  (List.range p.K).foldl
    (fun sum k => sum + p.w (c * p.K + k) * p.x (p.clamped p.dilation t k * p.C + c)) (p.b c)

/-- The loop for five taps is the other one; whatever order the threads write in, they write what
`depthwise_same` computes; and so does the graph. -/
structure SameForms : Prop where
  unrolled : p.K = 5 → ∀ t < p.L, ∀ c < p.C, p.unrolled p.dilation t c = p.generic p.dilation t c
  custom : ∀ nth, 0 < nth → ∀ writes, writes.Perm ((List.range nth).flatMap (p.customWrites nth)) →
    ∀ mem, ∀ t < p.L, ∀ c < p.C, Workers.store writes mem (c * p.L + t) = p.scalar t c
  graph : ∃ y, depthwiseSameGgml p.xTensor p.wTensor p.bTensor p.dilation = some y ∧
    ∀ t < p.L, ∀ c < p.C, tensorToTimeChannel y (t * p.C + c) = p.scalar t c

/-! ### The loops -/

section Loops

variable {p} {t c : ℕ}

/-- The division of the pads rounds down. -/
theorem padLeft_eq {k : ℕ} (hk : 0 < k) (dilation : ℕ) :
    (((k : ℤ) - 1) * dilation).tdiv 2 = ((k - 1) * dilation / 2 : ℕ) := by
  obtain ⟨n, rfl⟩ := Nat.exists_eq_add_of_le' hk
  have hcast : (((n + 1 : ℕ) : ℤ) - 1) * dilation = (n * dilation : ℕ) := by
    push_cast
    ring
  rw [Nat.add_sub_cancel, hcast]
  rfl

omit [CommRing R] in
theorem clamped_lt (hL : 0 < p.L) (dilation t k : ℕ) : p.clamped dilation t k < p.L := by
  rw [clamped]
  omega

omit [CommRing R] in
theorem get_xTensor (ht : t < p.L) (hc : c < p.C) : p.xTensor.get t c 0 0 = p.x (t * p.C + c) :=
  (reads_packTimeChannel p.L p.C p.x).get ht hc Nat.one_pos Nat.one_pos

omit [CommRing R] in
theorem get_wTensor (k c : ℕ) : p.wTensor.get k 0 c 0 = p.w (c * p.K + k) := by
  simp [wTensor, Tensor.get, source, add_comm]

omit [CommRing R] in
theorem get_bTensor (c : ℕ) : p.bTensor.get c 0 0 0 = p.b c := by
  simp [bTensor, Tensor.get, source]

/-- The convolution. -/
theorem scalar_eq (t c : ℕ) : p.scalar t c = p.b c + ∑ k ∈ Finset.range p.K,
    p.w (c * p.K + k) * p.x (p.clamped p.dilation t k * p.C + c) := foldl_range_add _ _ _

theorem generic_eq_scalar (ht : t < p.L) (hc : c < p.C) : p.generic p.dilation t c = p.scalar t c := by
  have hL : 0 < p.L := by omega
  rw [generic, foldl_range_add, scalar_eq, get_bTensor]
  refine congrArg (p.b c + ·) (Finset.sum_congr rfl fun k _ => ?_)
  rw [get_xTensor (clamped_lt hL _ t k) hc, get_wTensor, mul_comm]

/-- **The loop for five taps.** Each tap clamps only at the end that it can reach. -/
theorem unrolled_eq_generic (hK : p.K = 5) (ht : t < p.L) (dilation : ℕ) (c : ℕ) :
    p.unrolled dilation t c = p.generic dilation t c := by
  have hpad : (((p.K : ℤ) - 1) * dilation).tdiv 2 = 2 * dilation := by
    rw [padLeft_eq (by omega), hK]
    omega
  have h0 : (max 0 ((t : ℤ) - 2 * dilation)).toNat = p.clamped dilation t 0 := by
    rw [clamped, hpad]
    omega
  have h1 : (max 0 ((t : ℤ) - dilation)).toNat = p.clamped dilation t 1 := by
    rw [clamped, hpad]
    omega
  have h2 : t = p.clamped dilation t 2 := by
    rw [clamped, hpad]
    omega
  have h3 : (min ((p.L : ℤ) - 1) (t + dilation)).toNat = p.clamped dilation t 3 := by
    rw [clamped, hpad]
    omega
  have h4 : (min ((p.L : ℤ) - 1) (t + 2 * dilation)).toNat = p.clamped dilation t 4 := by
    rw [clamped, hpad]
    omega
  have hrange : List.range 5 = [0, 1, 2, 3, 4] := rfl
  simp only [unrolled, generic, h0, h1, h3, h4, hK, hrange, List.foldl_cons, List.foldl_nil]
  rw [← h2]

/-- **The threads share the channels**: in whatever order they write, every element is written once. -/
theorem store_customWrites {nth : ℕ} (hnth : 0 < nth) {writes : List (ℕ × R)}
    (h : writes.Perm ((List.range nth).flatMap (p.customWrites nth))) (mem : ℕ → R) (ht : t < p.L)
    (hc : c < p.C) : Workers.store writes mem (c * p.L + t) =
      if p.K = 5 then p.unrolled ((depthwiseSameConfig p.dilation).getD 1) t c
      else p.generic ((depthwiseSameConfig p.dilation).getD 1) t c := by
  set element : ℕ → ℕ → R := fun c t =>
    if p.K = 5 then p.unrolled ((depthwiseSameConfig p.dilation).getD 1) t c
    else p.generic ((depthwiseSameConfig p.dilation).getD 1) t c with helement
  have hall : (List.range nth).flatMap (p.customWrites nth) =
      (List.range p.C).flatMap fun c => (List.range p.L).map fun t => (c * p.L + t, element c t) := by
    rw [← Workers.flatMap_parts hnth p.C, List.flatMap_assoc]
    rfl
  rw [hall] at h
  have hmem : (c * p.L + t, element c t) ∈ writes := by
    refine h.mem_iff.mpr (List.mem_flatMap.mpr ⟨c, List.mem_range.mpr hc, ?_⟩)
    exact List.mem_map.mpr ⟨t, List.mem_range.mpr ht, rfl⟩
  refine Workers.store_of_mem ?_ hmem
  rw [(h.map Prod.fst).nodup_iff, List.map_flatMap, List.nodup_flatMap]
  constructor
  · intro c _
    rw [List.map_map]
    refine List.nodup_range.map_on fun t _ t' _ heq => ?_
    exact Nat.add_left_cancel heq
  · refine List.nodup_range.imp fun {c c'} hne => ?_
    intro a ha ha'
    simp only [List.map_map] at ha ha'
    obtain ⟨t, ht, rfl⟩ := List.mem_map.mp ha
    obtain ⟨t', ht', heq⟩ := List.mem_map.mp ha'
    exact hne (Strided.mul_add_inj (List.mem_range.mp ht') (List.mem_range.mp ht) heq).1.symm

end Loops

end Depthwise

/-! ### The graph -/

section Pad

variable {x : Tensor R} {l c pl pr : ℕ} {f : ℕ → ℕ → R}

/-- One step of time, repeated. -/
theorem gives_repeatStep {n j : ℕ} (hc : 0 < c) (hd : x.Dense)
    (h : x.Reads l c 1 1 fun t ch _ _ => f t ch) (hj : j < l) :
    Gives ((x.view2d 1 x.ne1 x.nb1 j).repeat4d n x.ne1 1 1) n c 1 1 fun _ ch _ _ => f j ch := by
  have hview : (x.view2d 1 x.ne1 x.nb1 j).Reads 1 c 1 1 fun _ ch _ _ => f j ch := by
    rw [h.ne1, hd.nb1, h.ne0]
    refine reads_view2d fun {i0 ch} h0 hch => ?_
    have hget := h.data hd hj hch Nat.one_pos Nat.one_pos
    have haddr : j + i0 + ch * l = j + l * (ch + c * (0 + 1 * 0)) := by
      rw [Nat.lt_one_iff.mp h0]
      ring
    rw [haddr, hget]
  rw [h.ne1] at hview ⊢
  refine (gives_repeat4d hview ⟨Nat.one_pos, one_dvd _⟩ ⟨hc, dvd_rfl⟩ ⟨Nat.one_pos, dvd_rfl⟩
    ⟨Nat.one_pos, dvd_rfl⟩).congr fun _ hch _ _ => ?_
  rw [Nat.mod_eq_of_lt hch]

/-- **What is padded**: the index is clamped. -/
theorem gives_edgeClampPad1d (hl : 0 < l) (hc : 0 < c) (hd : x.Dense)
    (h : x.Reads l c 1 1 fun t ch _ _ => f t ch) :
    Gives (edgeClampPad1d x pl pr) (pl + l + pr) c 1 1 fun i ch _ _ => f (min (l - 1) (i - pl)) ch := by
  have hleft : Gives (if 0 < (pl : ℤ) then do
      let rep ← (x.view2d 1 x.ne1 x.nb1 0).repeat4d (pl : ℤ).toNat x.ne1 1 1
      rep.concat0 x
      else some x) (pl + l) c 1 1 fun i ch _ _ => f (i - pl) ch := by
    split_ifs with hpl
    · refine (gives_repeatStep hc hd h hl).bind fun rep _ hrep => (gives_concat0 hrep h).congr ?_
      intro i ch i2 i3 _ _ _ _
      rw [Int.toNat_natCast]
      split_ifs with hlt
      · rw [Nat.sub_eq_zero_of_le hlt.le]
      · rfl
    · obtain rfl : pl = 0 := by omega
      rw [Nat.zero_add]
      exact gives_some hd h
  rw [edgeClampPad1d]
  refine hleft.bind fun out houtd hout => ?_
  split_ifs with hpr
  · have hlast : (x.ne0 - 1) * x.nb0 = l - 1 := by rw [hd.nb0, h.ne0, mul_one]
    rw [hlast]
    refine (gives_repeatStep hc hd h (by omega)).bind fun rep _ hrep => (gives_concat0 hout hrep).congr ?_
    intro i ch i2 i3 hi _ _ _
    split_ifs with hlt
    · rw [Nat.min_eq_right (by omega)]
    · rw [Nat.min_eq_left (by omega)]
  · obtain rfl : pr = 0 := by omega
    refine (gives_some houtd hout).congr fun hi _ _ _ => ?_
    rw [Nat.min_eq_right (by omega)]

end Pad

namespace Depthwise

variable [CommRing R] {p : Depthwise R}

omit [CommRing R] in
/-- The index of a tap, in the padded signal. -/
theorem clamped_eq (hK : 0 < p.K) (hL : 0 < p.L) (t k : ℕ) : p.clamped p.dilation t k =
    min (p.L - 1) (t + k * p.dilation - (p.K - 1) * p.dilation / 2) := by
  rw [clamped, padLeft_eq hK]
  have hcast : (k : ℤ) * p.dilation = (k * p.dilation : ℕ) := by push_cast; rfl
  rw [hcast]
  omega

/-- **The graph computes the convolution**, with the bias of `addRow`. -/
theorem gives_depthwiseSameGgml (hL : 0 < p.L) (hC : 0 < p.C) (hK : 0 < p.K) :
    Gives (depthwiseSameGgml p.xTensor p.wTensor p.bTensor p.dilation) p.L p.C 1 1 fun t c _ _ =>
      (∑ k ∈ Finset.range p.K, p.w (c * p.K + k) * p.x (p.clamped p.dilation t k * p.C + c)) +
        p.b (biasAt p.L p.C t c) := by
  set padLeft := (p.K - 1) * p.dilation / 2 with hleft
  set padRight := (p.K - 1) * p.dilation - padLeft with hright
  have hsum : padLeft + p.L + padRight = p.L + p.dilation * (p.K - 1) := by
    rw [mul_comm p.dilation]
    omega
  have hpads : ((p.K : ℤ) - 1) * p.dilation - padLeft = padRight := by
    obtain ⟨n, hn⟩ := Nat.exists_eq_add_of_le' hK
    have hcast : ((p.K : ℤ) - 1) * p.dilation = ((p.K - 1) * p.dilation : ℕ) := by
      rw [hn, Nat.add_sub_cancel]
      push_cast
      ring
    rw [hcast]
    omega
  have hpadded := @gives_edgeClampPad1d R p.xTensor p.L p.C padLeft padRight
    (fun t ch => p.x (t * p.C + ch)) hL hC (dense_source ..) (reads_packTimeChannel p.L p.C p.x)
  have hwne : p.wTensor.ne0 = p.K := rfl
  rw [depthwiseSameGgml, hwne, padLeft_eq hK, hpads]
  refine hpadded.bind fun padded hpaddedd hpadded => ?_
  rw [hpadded.ne0, hpadded.ne1, hpadded.ne2, hsum]
  -- an axis of length one is put in between
  have hnew : Gives (padded.reshape (p.L + p.dilation * (p.K - 1)) 1 p.C 1)
      (p.L + p.dilation * (p.K - 1)) 1 p.C 1
      fun i _ ch _ => p.x (min (p.L - 1) (i - padLeft) * p.C + ch) := by
    rw [hsum] at hpadded
    refine gives_reshape hpaddedd hpadded (by ring) fun {i i1 ch i3} hi h1 hch h3 => ?_
    have hget := hpadded.data hpaddedd hi hch Nat.one_pos Nat.one_pos
    simpa [Nat.lt_one_iff.mp h1, Nat.lt_one_iff.mp h3] using hget
  refine hnew.bind fun newB hnewd hnew => ?_
  have hwne1 : p.wTensor.ne1 = 1 := rfl
  have how : p.L =
      (p.L + p.dilation * (p.K - 1) - p.dilation * (p.K - 1) - 1) / 1 + 1 := by
    rw [Nat.add_sub_cancel, Nat.div_one, Nat.sub_add_cancel hL]
  refine (gives_im2col hK (by omega) how hwne hwne1 hnew hnewd.nb0).bind fun im himd him => ?_
  rw [one_mul] at him
  refine (gives_mulMat him (reads_source p.w) ?_ ⟨hC, dvd_rfl⟩ ⟨Nat.one_pos, dvd_rfl⟩).bind
    fun y hyd hy => ?_
  · rw [himd.nb0, himd.nb1, him.ne0]
    exact hK
  · rw [hy.ne0, hy.ne2]
    have htaps : Gives (y.reshape p.L p.C 1 1) p.L p.C 1 1 fun t c _ _ => ∑ k ∈ Finset.range p.K,
        p.w (c * p.K + k) * p.x (p.clamped p.dilation t k * p.C + c) := by
      refine gives_reshape hyd hy (by ring) fun {t c i2 i3} ht hc h2 h3 => ?_
      have hget := hy.data hyd ht Nat.one_pos hc Nat.one_pos
      obtain rfl := Nat.lt_one_iff.mp h2
      obtain rfl := Nat.lt_one_iff.mp h3
      rw [Nat.zero_add, Nat.one_mul, Nat.mul_zero, Nat.add_zero] at hget
      rw [Nat.zero_add, Nat.one_mul, Nat.mul_zero, Nat.add_zero, hget]
      refine Finset.sum_congr rfl fun k hk => ?_
      have hkK := Finset.mem_range.mp hk
      rw [Nat.div_self hC, Nat.div_one, Nat.mod_eq_of_lt hkK, Nat.mul_one t, clamped_eq hK hL, mul_comm]
      congr 2
      simp [add_comm, mul_comm]
    exact htaps.bind fun z _ hz => gives_addRow hC hz

/-- The custom operator computes the convolution with any number of threads. -/
theorem store_customWrites_eq_scalar (hd : p.dilation ∈ [1, 2, 4, 8]) {nth : ℕ} (hnth : 0 < nth)
    {writes : List (ℕ × R)} (h : writes.Perm ((List.range nth).flatMap (p.customWrites nth)))
    (mem : ℕ → R) {t c : ℕ} (ht : t < p.L) (hc : c < p.C) :
    Workers.store writes mem (c * p.L + t) = p.scalar t c := by
  have hconfig : (depthwiseSameConfig p.dilation).getD 1 = p.dilation := by
    rw [depthwiseSameConfig, if_pos (by simpa using hd), Option.getD_some]
  rw [store_customWrites hnth h mem ht hc, hconfig, ← generic_eq_scalar ht hc]
  split_ifs with hfive
  · exact unrolled_eq_generic hfive ht _ c
  · rfl

/-- **The forms are the same** if and only if there are more or fewer channels than steps of time, or
all channels have the same bias: where both numbers are equal the graph adds the bias of channel `t` to
every channel at time `t`. -/
theorem sameForms_iff (p : Depthwise R) (hL : 0 < p.L) (hC : 0 < p.C) (hK : 0 < p.K)
    (hd : p.dilation ∈ [1, 2, 4, 8]) :
    p.SameForms ↔ (p.L = p.C → ∀ i < p.C, ∀ j < p.C, p.b i = p.b j) := by
  obtain ⟨y, hy, hyd, hreads⟩ := gives_depthwiseSameGgml hL hC hK
  rw [← add_biasAt_eq_iff fun t c =>
    ∑ k ∈ Finset.range p.K, p.w (c * p.K + k) * p.x (p.clamped p.dilation t k * p.C + c)]
  constructor
  · intro h t ht c hc
    obtain ⟨y', hy', hscalar⟩ := h.graph
    obtain rfl := Option.some.inj (hy.symm.trans hy')
    have hout := hscalar t ht c hc
    rw [tensorToTimeChannel_apply hyd hreads ht hc, scalar_eq, add_comm (p.b c)] at hout
    exact hout
  · intro h
    refine ⟨fun hfive t ht c _ => unrolled_eq_generic hfive ht _ c, fun nth hnth writes hwrites mem
      t ht c hc => store_customWrites_eq_scalar hd hnth hwrites mem ht hc, y, hy, fun t ht c hc => ?_⟩
    rw [tensorToTimeChannel_apply hyd hreads ht hc, scalar_eq, add_comm (p.b c)]
    exact h t ht c hc

/-- Three steps of two channels, and a kernel of five taps. -/
def threeSteps : Depthwise ℤ where
  L := 3
  C := 2
  K := 5
  dilation := 2
  x := Nat.cast
  w := Nat.cast
  b := Nat.cast

theorem sameForms_threeSteps : threeSteps.SameForms :=
  (sameForms_iff threeSteps (by decide) (by decide) (by decide) (by decide)).mpr (by decide)

/-- Two steps of two channels: the graph adds the second bias to both channels at the second step. -/
theorem not_forall_sameForms : ¬ ∀ p : Depthwise ℤ, 0 < p.L → 0 < p.C → 0 < p.K →
    p.dilation ∈ [1, 2, 4, 8] → p.SameForms := by
  intro h
  obtain ⟨y, hy, hscalar⟩ := (h ⟨2, 2, 1, 1, fun _ => 0, fun _ => 0, fun a => a⟩ (by decide) (by decide)
    (by decide) (by decide)).graph
  obtain ⟨y', hy', hyd, hreads⟩ := gives_depthwiseSameGgml
    (p := ⟨2, 2, 1, 1, fun _ => (0 : ℤ), fun _ => 0, fun a => a⟩) (by decide) (by decide) (by decide)
  obtain rfl := Option.some.inj (hy.symm.trans hy')
  have hbad := hscalar 1 (by decide) 0 (by decide)
  rw [tensorToTimeChannel_apply hyd hreads (by decide) (by decide)] at hbad
  revert hbad
  decide

end Depthwise

end Supertonic

end WhisperCpp
