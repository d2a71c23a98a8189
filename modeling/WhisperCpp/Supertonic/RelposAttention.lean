import WhisperCpp.Library.Strided
import WhisperCpp.Supertonic.GraphOps

/-!
# Attention with relative positions

A layer of the text encoder attends to itself, with four heads and a window of four steps to both sides in
which a key and a value are learnt for every distance. `relpos_attention` computes it in loops, and
`build_relpos_cache` as a graph with a mask for each of the nine distances. Arithmetic is exact, and the
softmax is an arbitrary function of a row.

## Main definitions

* `Relpos` — what a layer is given
* `Relpos.scalar` — `relpos_attention`
* `Relpos.graph` — `build_relpos_cache`
* `Relpos.score`, `Relpos.mixed` — the scores and the heads, as sums

## Main results

* `sum_mask` — the masks pick a distance
* `Relpos.scalar_eq`, `Relpos.gives_graph` — both compute the heads
* `Relpos.sameAsScalar_iff` — when the graph computes what the loops compute
-/

namespace WhisperCpp

namespace Supertonic

open Compute Compute.Tensor

/-! ### The code -/

/-- `L` steps of `4 * D` channels, the weights of a layer, and what happens to a row of scores. -/
structure Relpos (R : Type) where
  L : ℕ
  D : ℕ
  scale : R
  softmax : ∀ n, (Fin n → R) → Fin n → R
  x : ℕ → R
  qW : ℕ → R
  qB : ℕ → R
  kW : ℕ → R
  kB : ℕ → R
  vW : ℕ → R
  vB : ℕ → R
  oW : ℕ → R
  oB : ℕ → R
  relK : ℕ → R
  relV : ℕ → R

/-- `linear1x1`. -/
def linear1x1 {R : Type} [CommRing R] (x : ℕ → R) (ic : ℕ) (w b : ℕ → R) (oc : ℕ) : ℕ → R := fun a =>
  (List.range ic).foldl (fun sum i => sum + w (a % oc * ic + i) * x (a / oc * ic + i)) (b (a % oc))

/-- `conv1d_k1_channel_time_ggml`. -/
def conv1dK1ChannelTimeGgml {R : Type} [CommRing R] (kernel x bias : Tensor R) : Option (Tensor R) := do
  let w2d ← kernel.reshape kernel.ne1 kernel.ne2 1 1
  let y ← mulMat w2d x.transpose.cont
  addRow y bias

namespace Relpos

variable {R : Type} [CommRing R] (p : Relpos R)

/-- The channels, of four heads. -/
def C : ℕ := 4 * p.D

/-- The distance is inside the window. -/
def InWindow (qi kj : ℕ) : Prop := -4 ≤ (kj : ℤ) - qi ∧ (kj : ℤ) - qi ≤ 4

instance (qi kj : ℕ) : Decidable (InWindow qi kj) := inferInstanceAs (Decidable (_ ∧ _))

/-- `rel_pos + half_window`. -/
def ridx (qi kj : ℕ) : ℕ := ((kj : ℤ) - qi + 4).toNat

/-- One score of `relpos_attention`. -/
def scalarScore (q k : ℕ → R) (h qi kj : ℕ) : R :=
  let s := (List.range p.D).foldl
    (fun s d => s + q (qi * p.C + h * p.D + d) * p.scale * k (kj * p.C + h * p.D + d)) 0
  if InWindow qi kj then
    (List.range p.D).foldl
      (fun s d => s + q (qi * p.C + h * p.D + d) * p.scale * p.relK (ridx qi kj * p.D + d)) s
  else s

/-- One element of a head of `relpos_attention`. -/
def scalarSum (v : ℕ → R) (probs : Fin p.L → R) (h qi d : ℕ) : R :=
  (List.finRange p.L).foldl (fun sum kj =>
    let sum := sum + probs kj * v (kj * p.C + h * p.D + d)
    if InWindow qi kj then sum + probs kj * p.relV (ridx qi kj * p.D + d) else sum) 0

/-- `relpos_attention`. -/
def scalar : ℕ → R :=
  let q := linear1x1 p.x p.C p.qW p.qB p.C
  let k := linear1x1 p.x p.C p.kW p.kB p.C
  let v := linear1x1 p.x p.C p.vW p.vB p.C
  let out := fun a =>
    let qi := a / p.C
    let h := a % p.C / p.D
    p.scalarSum v (p.softmax p.L fun kj => p.scalarScore q k h qi kj) h qi (a % p.C % p.D)
  linear1x1 out p.C p.oW p.oB p.C

/-- What is copied into `masks[ri]`. -/
def maskData (ri : ℕ) : ℕ → R := fun a =>
  if ((a / p.L : ℕ) : ℤ) + (ri - 4) = (a % p.L : ℕ) then 1 else 0

/-- `masks[ri]`. -/
def mask (ri : ℕ) : Tensor R := source p.L p.L 1 1 (p.maskData ri)

/-- One round of the loop that adds the scores of the distances. -/
def scoreStep (relScores scores : Tensor R) (ri : ℕ) : Option (Tensor R) := do
  let relDelta := relScores.view3d 1 p.L 4 relScores.nb1 relScores.nb2 (ri * relScores.nb0)
  let relDelta ← relDelta.repeatAs scores
  let mask ← (p.mask ri).repeatAs scores
  scores.add (← (relDelta.scale p.scale).mul mask)

/-- One round of the loop that adds the values of the distances. -/
def relOutStep (attn out relV relOut : Tensor R) (ri : ℕ) : Option (Tensor R) := do
  let mask ← (p.mask ri).repeatAs attn
  let pDelta ← (← attn.mul mask).sumRows.repeatAs out
  let rvDelta := relV.view3d p.D 1 1 relV.nb1 relV.nb2 (ri * relV.nb1)
  let rvDelta ← rvDelta.repeatAs out
  relOut.add (← pDelta.mul rvDelta)

/-- The graph of `build_relpos_cache`, and what is copied into its inputs. -/
def graph : Option (Tensor R) := do
  let xIn := source p.L p.C 1 1 (packTimeChannel p.L p.C p.x)
  let q ← conv1dK1ChannelTimeGgml (source 1 p.C p.C 1 p.qW) xIn (source p.C 1 1 1 p.qB)
  let k ← conv1dK1ChannelTimeGgml (source 1 p.C p.C 1 p.kW) xIn (source p.C 1 1 1 p.kB)
  let v ← conv1dK1ChannelTimeGgml (source 1 p.C p.C 1 p.vW) xIn (source p.C 1 1 1 p.vB)
  let qDlh := q.view3d p.D p.L 4 p.C p.D 0
  let kDlh := k.view3d p.D p.L 4 p.C p.D 0
  let vDlh := v.view3d p.D p.L 4 p.C p.D 0
  let scores := (← mulMat kDlh qDlh).scale p.scale
  let relScores ← mulMat (source p.D 9 1 1 p.relK) qDlh
  let scores ← (List.range 9).foldlM (p.scoreStep relScores) scores
  let attn := scores.softMax p.softmax
  let vForMm := vDlh.transpose.cont
  let out ← mulMat vForMm attn
  let relOut ← (List.range 9).foldlM (p.relOutStep attn out (source p.D 9 1 1 p.relV)) (out.scale 0)
  let out ← out.add relOut
  let outLcT ← out.transpose.cont.reshape p.L p.C 1 1
  let outLcT ← conv1dF32 (source 1 p.C p.C 1 p.oW) outLcT 1 0 1
  addRow outLcT (source p.C 1 1 1 p.oB)

/-- The graph computes what the loops compute. -/
def SameAsScalar : Prop :=
  ∃ y, p.graph = some y ∧ ∀ t < p.L, ∀ c < p.C, tensorToTimeChannel y (t * p.C + c) = p.scalar (t * p.C + c)

/-! ### The loops -/

/-- One element of a projection. -/
def proj (x : ℕ → ℕ → R) (w b : ℕ → R) (t c : ℕ) : R :=
  (∑ i ∈ Finset.range p.C, w (i + p.C * c) * x t i) + b c

/-- The signal. -/
def input (t c : ℕ) : R := p.x (t * p.C + c)

/-- One score, as sums over the channels of the head. -/
def score (h qi kj : ℕ) : R :=
  (∑ d ∈ Finset.range p.D, p.proj p.input p.kW p.kB kj (h * p.D + d) *
      p.proj p.input p.qW p.qB qi (h * p.D + d)) * p.scale +
    if InWindow qi kj then
      (∑ d ∈ Finset.range p.D, p.relK (d + p.D * ridx qi kj) *
        p.proj p.input p.qW p.qB qi (h * p.D + d)) * p.scale
    else 0

/-- The softmax of a row of scores. -/
def attn (h qi kj : ℕ) : R :=
  if hkj : kj < p.L then p.softmax p.L (fun k => p.score h qi k) ⟨kj, hkj⟩ else 0

/-- One element of a head: the values, and those of the distances. -/
def mixed (h qi d : ℕ) : R :=
  (∑ kj ∈ Finset.range p.L, p.proj p.input p.vW p.vB kj (h * p.D + d) * p.attn h qi kj) +
    ∑ kj ∈ Finset.range p.L,
      if InWindow qi kj then p.attn h qi kj * p.relV (d + p.D * ridx qi kj) else 0

/-- The heads, one behind the other. -/
def heads (t c : ℕ) : R := p.mixed (c / p.D) t (c % p.D)

section Scalar

variable {p} {h qi kj d t c : ℕ}

theorem linear1x1_apply {x w b : ℕ → R} (hc : c < p.C) : linear1x1 x p.C w b p.C (t * p.C + c) =
    p.proj (fun t c => x (t * p.C + c)) w b t c := by
  have hmod : (t * p.C + c) % p.C = c := by
    rw [mul_comm, Nat.mul_add_mod, Nat.mod_eq_of_lt hc]
  have hdiv : (t * p.C + c) / p.C = t := by
    rw [mul_comm, Nat.mul_add_div (by omega), Nat.div_eq_of_lt hc, Nat.add_zero]
  rw [linear1x1, hmod, hdiv, foldl_range_add, proj, add_comm]
  simp only [mul_comm p.C, add_comm]

omit [CommRing R] in
/-- The channels of a head. -/
theorem head_lt (hh : h < 4) (hd : d < p.D) : h * p.D + d < p.C := Strided.mul_add_lt hh hd

theorem scalarScore_eq (hh : h < 4) : p.scalarScore (linear1x1 p.x p.C p.qW p.qB p.C)
    (linear1x1 p.x p.C p.kW p.kB p.C) h qi kj = p.score h qi kj := by
  have hq : ∀ d ∈ Finset.range p.D, linear1x1 p.x p.C p.qW p.qB p.C (qi * p.C + h * p.D + d) =
      p.proj p.input p.qW p.qB qi (h * p.D + d) := fun d hd => by
    rw [add_assoc, linear1x1_apply (head_lt hh (Finset.mem_range.mp hd))]
    rfl
  have hk : ∀ d ∈ Finset.range p.D, linear1x1 p.x p.C p.kW p.kB p.C (kj * p.C + h * p.D + d) =
      p.proj p.input p.kW p.kB kj (h * p.D + d) := fun d hd => by
    rw [add_assoc, linear1x1_apply (head_lt hh (Finset.mem_range.mp hd))]
    rfl
  have hdot : ∑ d ∈ Finset.range p.D, linear1x1 p.x p.C p.qW p.qB p.C (qi * p.C + h * p.D + d) *
        p.scale * linear1x1 p.x p.C p.kW p.kB p.C (kj * p.C + h * p.D + d) =
      (∑ d ∈ Finset.range p.D, p.proj p.input p.kW p.kB kj (h * p.D + d) *
        p.proj p.input p.qW p.qB qi (h * p.D + d)) * p.scale := by
    rw [Finset.sum_mul]
    refine Finset.sum_congr rfl fun d hd => ?_
    rw [hq d hd, hk d hd]
    ring
  have hrel : ∑ d ∈ Finset.range p.D, linear1x1 p.x p.C p.qW p.qB p.C (qi * p.C + h * p.D + d) *
        p.scale * p.relK (ridx qi kj * p.D + d) =
      (∑ d ∈ Finset.range p.D, p.relK (d + p.D * ridx qi kj) *
        p.proj p.input p.qW p.qB qi (h * p.D + d)) * p.scale := by
    rw [Finset.sum_mul]
    refine Finset.sum_congr rfl fun d hd => ?_
    rw [hq d hd, mul_comm (ridx qi kj), add_comm (p.D * _)]
    ring
  simp only [scalarScore, score, foldl_range_add, zero_add, hdot, hrel]
  split_ifs with hwin
  · rfl
  · rw [add_zero]

theorem scalarSum_eq (hh : h < 4) (hd : d < p.D) :
    p.scalarSum (linear1x1 p.x p.C p.vW p.vB p.C) (p.softmax p.L fun kj => p.score h qi kj) h qi d =
      p.mixed h qi d := by
  have hstep : ∀ (sum : R) (kj : Fin p.L),
      (let sum := sum + p.softmax p.L (fun kj => p.score h qi kj) kj *
          linear1x1 p.x p.C p.vW p.vB p.C (kj * p.C + h * p.D + d)
        if InWindow qi kj then
          sum + p.softmax p.L (fun kj => p.score h qi kj) kj * p.relV (ridx qi kj * p.D + d)
        else sum) =
      sum + (p.proj p.input p.vW p.vB kj (h * p.D + d) * p.attn h qi kj +
        if InWindow qi kj then p.attn h qi kj * p.relV (d + p.D * ridx qi kj) else 0) := by
    intro sum kj
    have hattn : p.attn h qi kj = p.softmax p.L (fun kj => p.score h qi kj) kj := dif_pos kj.isLt
    have hv : linear1x1 p.x p.C p.vW p.vB p.C (kj * p.C + h * p.D + d) =
        p.proj p.input p.vW p.vB kj (h * p.D + d) := by
      rw [add_assoc, linear1x1_apply (head_lt hh hd)]
      rfl
    rw [hattn, hv, mul_comm (ridx qi kj), add_comm (p.D * _)]
    split_ifs with hwin
    · ring
    · ring
  rw [scalarSum]
  simp only [hstep]
  rw [foldl_finRange_add, zero_add, Finset.sum_add_distrib, mixed, Finset.sum_range, Finset.sum_range]

/-- **The loops compute the heads**, and project them. -/
theorem scalar_eq (hc : c < p.C) : p.scalar (t * p.C + c) = p.proj p.heads p.oW p.oB t c := by
  rw [scalar, linear1x1_apply hc]
  have hD : 0 < p.D := by
    rw [C] at hc
    omega
  refine congrArg (· + p.oB c) (Finset.sum_congr rfl fun i hi => congrArg (_ * ·) ?_)
  have hi := Finset.mem_range.mp hi
  have hmod : (t * p.C + i) % p.C = i := by
    rw [mul_comm, Nat.mul_add_mod, Nat.mod_eq_of_lt hi]
  have hdiv : (t * p.C + i) / p.C = t := by
    rw [mul_comm, Nat.mul_add_div (by omega), Nat.div_eq_of_lt hi, Nat.add_zero]
  have hhead : i / p.D < 4 := (Nat.div_lt_iff_lt_mul hD).mpr hi
  simp only [hmod, hdiv, scalarScore_eq hhead, heads]
  exact scalarSum_eq hhead (Nat.mod_lt _ hD)

end Scalar

/-! ### The graph -/

section Masks

variable {p} {qi kj : ℕ}

/-- **The masks pick a distance**, if it is inside the window. -/
theorem sum_mask (F : ℕ → R) (hkj : kj < p.L) :
    (∑ ri ∈ Finset.range 9, F ri * p.maskData ri (kj + p.L * qi)) =
      if InWindow qi kj then F (ridx qi kj) else 0 := by
  have hmod : (kj + p.L * qi) % p.L = kj := by rw [Nat.add_mul_mod_self_left, Nat.mod_eq_of_lt hkj]
  have hdiv : (kj + p.L * qi) / p.L = qi := by
    rw [Nat.add_mul_div_left _ _ (by omega), Nat.div_eq_of_lt hkj, Nat.zero_add]
  simp only [maskData, hmod, hdiv, mul_ite, mul_one, mul_zero]
  split_ifs with hwin
  · rw [InWindow] at hwin
    rw [Finset.sum_eq_single (ridx qi kj)]
    · rw [if_pos]
      rw [ridx]
      omega
    · intro ri _ hne
      rw [if_neg]
      rw [ridx] at hne
      omega
    · intro hout
      rw [Finset.mem_range, ridx] at hout
      omega
  · refine Finset.sum_eq_zero fun ri hri => ?_
    have hri := Finset.mem_range.mp hri
    rw [InWindow] at hwin
    rw [if_neg]
    omega

end Masks

section Views

variable {p} {t : Tensor R} {f : ℕ → ℕ → ℕ → ℕ → R}

omit [CommRing R] in
/-- The heads of a tensor. -/
theorem reads_heads (hd : t.Dense) (h : t.Reads p.C p.L 1 1 f) :
    (t.view3d p.D p.L 4 p.C p.D 0).Reads p.D p.L 4 1 fun d i h _ => f (h * p.D + d) i 0 0 := by
  refine reads_view3d fun {d i h'} hdD hi hh => ?_
  have haddr : 0 + d + i * p.C + h' * p.D = h' * p.D + d + p.C * (i + p.L * (0 + 1 * 0)) := by ring
  rw [haddr]
  exact h.data hd (head_lt hh hdD) hi Nat.one_pos Nat.one_pos

omit [CommRing R] in
/-- The scores of one distance. -/
theorem reads_distance {ri : ℕ} (hri : ri < 9) (hd : t.Dense) (h : t.Reads 9 p.L 4 1 f) :
    (t.view3d 1 p.L 4 t.nb1 t.nb2 (ri * t.nb0)).Reads 1 p.L 4 1 fun _ qi h _ => f ri qi h 0 := by
  refine reads_view3d fun {i0 qi h'} h0 hqi hh => ?_
  have haddr : ri * t.nb0 + i0 + qi * t.nb1 + h' * t.nb2 = ri + 9 * (qi + p.L * (h' + 4 * 0)) := by
    rw [hd.nb0, hd.nb1, hd.nb2, h.ne0, h.ne1, Nat.lt_one_iff.mp h0]
    ring
  rw [haddr]
  exact h.data hd hri hqi hh Nat.one_pos

omit [CommRing R] in
/-- The values of one distance. -/
theorem reads_relV {ri : ℕ} : ((source p.D 9 1 1 p.relV).view3d p.D 1 1
    (source p.D 9 1 1 p.relV).nb1 (source p.D 9 1 1 p.relV).nb2
    (ri * (source p.D 9 1 1 p.relV).nb1)).Reads p.D 1 1 1 fun d _ _ _ => p.relV (d + p.D * ri) := by
  refine reads_view3d fun {d i1 i2} _ h1 h2 => congrArg p.relV ?_
  rw [Nat.lt_one_iff.mp h1, Nat.lt_one_iff.mp h2]
  simp [source, add_comm, mul_comm]

/-- A mask, for all heads. -/
theorem gives_mask (ri : ℕ) (hL : 0 < p.L) (h : t.Reads p.L p.L 4 1 f) :
    Gives ((p.mask ri).repeatAs t) p.L p.L 4 1
      fun kj qi _ _ => p.maskData ri (kj + p.L * qi) := by
  refine (gives_repeatAs (reads_source _) h ⟨hL, dvd_rfl⟩ ⟨hL, dvd_rfl⟩ ⟨Nat.one_pos, one_dvd _⟩
    ⟨Nat.one_pos, dvd_rfl⟩).congr fun hkj hqi _ _ => ?_
  rw [Nat.mod_eq_of_lt hkj, Nat.mod_eq_of_lt hqi, Nat.mod_one, Nat.mod_one]
  simp

/-- A projection, with its channels first. -/
theorem gives_conv1dK1ChannelTimeGgml {w b : ℕ → R} (hD : 0 < p.D) :
    Gives (conv1dK1ChannelTimeGgml (source 1 p.C p.C 1 w)
      (source p.L p.C 1 1 (packTimeChannel p.L p.C p.x)) (source p.C 1 1 1 b)) p.C p.L 1 1
      fun c t _ _ => p.proj p.input w b t c := by
  have hC : 0 < p.C := Nat.mul_pos (by omega) hD
  have hw : Gives ((source 1 p.C p.C 1 w).reshape p.C p.C 1 1) p.C p.C 1 1
      fun i c i2 i3 => w (i + p.C * (c + p.C * (i2 + 1 * i3))) := gives_reshape_source (by ring)
  have hx := (reads_packTimeChannel p.L p.C p.x).transpose.cont
  refine hw.bind fun w2d hw2dd hw2d => ?_
  have hnb : w2d.nb0 ≤ w2d.nb1 := by
    rw [hw2dd.nb0, hw2dd.nb1, hw2d.ne0]
    exact hC
  refine (gives_mulMat hw2d hx hnb ⟨Nat.one_pos, dvd_rfl⟩ ⟨Nat.one_pos, dvd_rfl⟩).bind
    fun y hyd hy => ?_
  refine (gives_addRow_first hC hy).congr fun _ _ h2 h3 => ?_
  simp [proj, input, Nat.lt_one_iff.mp h2, Nat.lt_one_iff.mp h3]

end Views

section Rounds

variable {p}

/-- **The scores of the distances** are added where the distance is inside the window. -/
theorem gives_scoreSteps {relScores scores : Tensor R} {S : ℕ → ℕ → ℕ → R} {F : ℕ → ℕ → ℕ → R}
    (hL : 0 < p.L) (hreld : relScores.Dense)
    (hrel : relScores.Reads 9 p.L 4 1 fun ri qi h _ => F ri qi h) (hd : scores.Dense)
    (h : scores.Reads p.L p.L 4 1 fun kj qi h _ => S kj qi h) :
    Gives ((List.range 9).foldlM (p.scoreStep relScores) scores) p.L p.L 4 1 fun kj qi h _ =>
      S kj qi h + if InWindow qi kj then F (ridx qi kj) qi h * p.scale else 0 := by
  have hloop := @Gives.foldlM R p.L p.L 4 1 scores (p.scoreStep relScores)
    (fun n kj qi h _ => S kj qi h + ∑ ri ∈ Finset.range n,
      F ri qi h * p.scale * p.maskData ri (kj + p.L * qi)) 9 hd (by simpa using h) ?_
  · refine hloop.congr fun {kj qi h' _} hkj _ _ _ => congrArg (S kj qi h' + ·) ?_
    exact sum_mask (fun ri => F ri qi h' * p.scale) hkj
  · intro ri hri t hd ht
    refine (gives_repeatAs (reads_distance hri hreld hrel) ht ⟨Nat.one_pos, one_dvd _⟩ ⟨hL, dvd_rfl⟩
      ⟨by omega, dvd_rfl⟩ ⟨Nat.one_pos, dvd_rfl⟩).bind fun delta _ hdelta => ?_
    refine (gives_mask ri hL ht).bind fun mask _ hmask => ?_
    refine (gives_binary (· * ·) (hdelta.scale p.scale) hmask).bind fun m _ hm => ?_
    refine (gives_binary (· + ·) ht hm).congr fun _ hqi hh _ => ?_
    rw [Finset.sum_range_succ, ← add_assoc, Nat.mod_eq_of_lt hqi, Nat.mod_eq_of_lt hh]

/-- **The values of the distances** are added for the steps that are inside the window. -/
theorem gives_relOutSteps {attn out relOut : Tensor R} {A : ℕ → ℕ → ℕ → R} {f : ℕ → ℕ → ℕ → ℕ → R}
    (hL : 0 < p.L) (hD : 0 < p.D) (hattn : attn.Reads p.L p.L 4 1 fun kj qi h _ => A kj qi h)
    (hout : out.Reads p.D p.L 4 1 f) (hd : relOut.Dense)
    (h : relOut.Reads p.D p.L 4 1 fun _ _ _ _ => 0) :
    Gives ((List.range 9).foldlM (p.relOutStep attn out (source p.D 9 1 1 p.relV)) relOut) p.D p.L 4 1
      fun d qi h _ => ∑ kj ∈ Finset.range p.L,
        if InWindow qi kj then A kj qi h * p.relV (d + p.D * ridx qi kj) else 0 := by
  have hloop := @Gives.foldlM R p.D p.L 4 1 relOut (p.relOutStep attn out (source p.D 9 1 1 p.relV))
    (fun n d qi h _ => ∑ ri ∈ Finset.range n,
      (∑ kj ∈ Finset.range p.L, A kj qi h * p.maskData ri (kj + p.L * qi)) * p.relV (d + p.D * ri))
    9 hd (by simpa using h) ?_
  · refine hloop.congr fun {d qi h' _} _ _ _ _ => ?_
    simp only [Finset.sum_mul]
    rw [Finset.sum_comm]
    refine Finset.sum_congr rfl fun kj hkj => ?_
    rw [← sum_mask (fun ri => A kj qi h' * p.relV (d + p.D * ri)) (Finset.mem_range.mp hkj)]
    refine Finset.sum_congr rfl fun ri _ => ?_
    ring
  · intro ri hri t hd ht
    refine (gives_mask ri hL hattn).bind fun mask _ hmask => ?_
    refine (gives_binary (· * ·) hattn hmask).bind fun m _ hm => ?_
    refine (gives_repeatAs hm.sumRows hout ⟨Nat.one_pos, one_dvd _⟩ ⟨hL, dvd_rfl⟩
      ⟨by omega, dvd_rfl⟩ ⟨Nat.one_pos, dvd_rfl⟩).bind fun delta _ hdelta => ?_
    refine (gives_repeatAs reads_relV hout ⟨hD, dvd_rfl⟩ ⟨Nat.one_pos, one_dvd _⟩
      ⟨Nat.one_pos, one_dvd _⟩ ⟨Nat.one_pos, dvd_rfl⟩).bind fun rv _ hrv => ?_
    refine (gives_binary (· * ·) hdelta hrv).bind fun m' _ hm' => ?_
    refine (gives_binary (· + ·) ht hm').congr fun hd' hqi hh _ => ?_
    rw [Finset.sum_range_succ, Nat.mod_eq_of_lt hd', Nat.mod_eq_of_lt hqi, Nat.mod_eq_of_lt hh]

/-- **The graph computes the heads**, and projects them, with the bias of `addRow`. -/
theorem gives_graph (hL : 0 < p.L) (hD : 0 < p.D) : Gives p.graph p.L p.C 1 1 fun t c _ _ =>
    (∑ i ∈ Finset.range p.C, p.oW (i + p.C * c) * p.heads t i) + p.oB (biasAt p.L p.C t c) := by
  have hC : 0 < p.C := Nat.mul_pos (by omega) hD
  refine (gives_conv1dK1ChannelTimeGgml hD).bind fun q hqd hq => ?_
  refine (gives_conv1dK1ChannelTimeGgml hD).bind fun k hkd hk => ?_
  refine (gives_conv1dK1ChannelTimeGgml hD).bind fun v hvd hv => ?_
  have hq := reads_heads hqd hq
  have hk := reads_heads hkd hk
  have hv := reads_heads hvd hv
  refine (gives_mulMat hk hq hC ⟨by omega, dvd_rfl⟩ ⟨Nat.one_pos, dvd_rfl⟩).bind fun s _ hs => ?_
  refine (gives_mulMat (reads_source p.relK) hq hD ⟨Nat.one_pos, one_dvd _⟩
    ⟨Nat.one_pos, dvd_rfl⟩).bind fun rel hreld hrel => ?_
  have hrel : rel.Reads 9 p.L 4 1 fun ri qi h _ => ∑ d ∈ Finset.range p.D,
      p.relK (d + p.D * ri) * p.proj p.input p.qW p.qB qi (h * p.D + d) := by
    refine hrel.congr fun _ _ hh h3 => Finset.sum_congr rfl fun d _ => ?_
    rw [Nat.div_one, Nat.div_eq_of_lt hh, Nat.lt_one_iff.mp h3]
    simp
  have hs := hs.scale p.scale
  refine (gives_scoreSteps hL hreld hrel (dense_source ..) hs).bind fun scores _ hscores => ?_
  have hattn : (scores.softMax p.softmax).Reads p.L p.L 4 1 fun kj qi h _ => p.attn h qi kj := by
    refine (hscores.softMax p.softmax).congr fun _ _ _ _ => ?_
    simp only [Nat.div_one, Nat.div_self (by omega : 0 < 4)]
    rfl
  refine (gives_mulMat hv.transpose.cont hattn hL ⟨by omega, dvd_rfl⟩ ⟨Nat.one_pos, dvd_rfl⟩).bind
    fun out _ hout => ?_
  have hzero : (out.scale (0 : R)).Reads p.D p.L 4 1 fun _ _ _ _ => 0 :=
    (hout.scale 0).congr fun _ _ _ _ => mul_zero _
  refine (gives_relOutSteps hL hD hattn hout (dense_source ..) hzero).bind fun relOut _ hrelOut => ?_
  refine (gives_binary (· + ·) hout hrelOut).bind fun mixed _ hmixed => ?_
  have hmixed : mixed.transpose.cont.Reads p.L p.D 4 1 fun t d h _ => p.mixed h t d := by
    refine hmixed.transpose.cont.congr fun _ _ _ _ => ?_
    simp only [Nat.div_one, Nat.div_self (by omega : 0 < 4)]
    rfl
  -- the heads lie one behind the other
  have hheads : Gives (mixed.transpose.cont.reshape p.L p.C 1 1) p.L p.C 1 1
      fun t c _ _ => p.heads t c := by
    refine gives_reshape (dense_source ..) hmixed (by rw [C]; ring) fun {t c i2 i3} ht hc h2 h3 => ?_
    have haddr : t + p.L * (c + p.C * (i2 + 1 * i3)) =
        t + p.L * (c % p.D + p.D * (c / p.D + 4 * 0)) := by
      rw [Nat.lt_one_iff.mp h2, Nat.lt_one_iff.mp h3, mul_zero, add_zero, mul_zero, add_zero,
        mul_zero, add_zero, Nat.mod_add_div]
    rw [haddr, hmixed.data (dense_source ..) ht (Nat.mod_lt _ hD)
      ((Nat.div_lt_iff_lt_mul hD).mpr hc) Nat.one_pos, heads]
  refine hheads.bind fun rows hrowsd hrows => ?_
  refine (gives_pointwise hL hC hrowsd hrows).bind fun y _ hy => ?_
  refine (gives_addRow hC hy).congr fun _ _ _ _ => ?_
  simp only [mul_comm]

/-- **The graph computes what the loops compute** if and only if there are more or fewer channels than
steps of time, or all channels of the last projection have the same bias. -/
theorem sameAsScalar_iff (p : Relpos R) (hL : 0 < p.L) (hD : 0 < p.D) :
    p.SameAsScalar ↔ (p.L = p.C → ∀ i < p.C, ∀ j < p.C, p.oB i = p.oB j) := by
  obtain ⟨y, hy, hyd, hreads⟩ := gives_graph hL hD
  rw [← add_biasAt_eq_iff fun t c => ∑ i ∈ Finset.range p.C, p.oW (i + p.C * c) * p.heads t i]
  constructor
  · rintro ⟨y', hy', hscalar⟩ t ht c hc
    obtain rfl := Option.some.inj (hy.symm.trans hy')
    have hout := hscalar t ht c hc
    rw [tensorToTimeChannel_apply hyd hreads ht hc, scalar_eq hc] at hout
    exact hout
  · intro h
    refine ⟨y, hy, fun t ht c hc => ?_⟩
    rw [tensorToTimeChannel_apply hyd hreads ht hc, scalar_eq hc]
    exact h t ht c hc

/-- A layer of four channels that attends with the scores themselves, and numbers its biases. -/
def fourChannels (steps : ℕ) : Relpos ℤ where
  L := steps
  D := 1
  scale := 1
  softmax := fun _ row => row
  x := Nat.cast
  qW := fun _ => 1
  qB := fun _ => 0
  kW := fun _ => 1
  kB := fun _ => 0
  vW := fun _ => 1
  vB := fun _ => 0
  oW := fun _ => 1
  oB := Nat.cast
  relK := Nat.cast
  relV := Nat.cast

theorem sameAsScalar_twoSteps : (fourChannels 2).SameAsScalar :=
  (sameAsScalar_iff (fourChannels 2) (by decide) (by decide)).mpr (by decide)

/-- Four steps of four channels: at the second step the graph adds the second bias to every channel. -/
theorem not_forall_sameAsScalar :
    ¬ ∀ p : Relpos ℤ, 0 < p.L → 0 < p.D → p.SameAsScalar := by
  intro h
  obtain ⟨y, hy, hscalar⟩ := h (fourChannels 4) (by decide) (by decide)
  obtain ⟨y', hy', hyd, hreads⟩ := @gives_graph ℤ _ (fourChannels 4) (by decide) (by decide)
  obtain rfl := Option.some.inj (hy.symm.trans hy')
  have hbad := hscalar 1 (by decide) 0 (by decide)
  rw [tensorToTimeChannel_apply hyd hreads (by decide) (by decide), scalar_eq (by decide)] at hbad
  exact absurd (add_left_cancel hbad) (by decide)

end Rounds

end Relpos

end Supertonic

end WhisperCpp
