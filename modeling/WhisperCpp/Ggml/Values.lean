import WhisperCpp.Library.OverlapAdd
import Mathlib.Tactic.Ring

/-!
# What the operations of ggml compute

A tensor of floats is a buffer with four lengths and four strides. Views, reshapes and transposes read
the buffer of their argument, and the other operations fill one of their own. Arithmetic is exact. An
operation gives nothing where ggml asserts that its arguments fit.

## Main definitions

* `Tensor`, `Tensor.get` — tensors with their elements; strides are counted in elements
* `Tensor.view2d`, …, `Tensor.sumRows` — the operations
* `Tensor.Reads` — what a tensor holds
* `Gives` — what an operation gives, in a buffer of its own

## Main results

* `reads_ofGet` — a tensor that an operation has filled
* `Gives.bind`, `Gives.foldlM` — operations one after another
-/

namespace WhisperCpp

namespace Compute

/-- `ggml_tensor` of type `f32`, with its elements. -/
structure Tensor (R : Type) where
  ne0 : ℕ
  ne1 : ℕ
  ne2 : ℕ
  ne3 : ℕ
  nb0 : ℕ
  nb1 : ℕ
  nb2 : ℕ
  nb3 : ℕ
  offs : ℕ
  data : ℕ → R

namespace Tensor

variable {R : Type}

/-- The element at an index. -/
def get (t : Tensor R) (i0 i1 i2 i3 : ℕ) : R :=
  t.data (t.offs + i0 * t.nb0 + i1 * t.nb1 + i2 * t.nb2 + i3 * t.nb3)

/-- `ggml_new_tensor_4d`, and what is copied into it. -/
def source (ne0 ne1 ne2 ne3 : ℕ) (data : ℕ → R) : Tensor R where
  ne0 := ne0
  ne1 := ne1
  ne2 := ne2
  ne3 := ne3
  nb0 := 1
  nb1 := ne0
  nb2 := ne0 * ne1
  nb3 := ne0 * ne1 * ne2
  offs := 0
  data := data

/-- A new tensor, with its elements by their indices. -/
def ofGet (ne0 ne1 ne2 ne3 : ℕ) (f : ℕ → ℕ → ℕ → ℕ → R) : Tensor R :=
  source ne0 ne1 ne2 ne3 fun a =>
    f (a % ne0) (a / ne0 % ne1) (a / (ne0 * ne1) % ne2) (a / (ne0 * ne1 * ne2))

/-- `ggml_nelements`. -/
def nelements (t : Tensor R) : ℕ := t.ne0 * t.ne1 * t.ne2 * t.ne3

/-- `ggml_n_dims`. -/
def nDims (t : Tensor R) : ℕ :=
  if 1 < t.ne3 then 4 else if 1 < t.ne2 then 3 else if 1 < t.ne1 then 2 else 1

/-- `ggml_is_contiguous`. -/
def isContiguous (t : Tensor R) : Bool :=
  (t.ne0 = 1 || t.nb0 = 1) && (t.ne1 = 1 || t.nb1 = t.ne0) && (t.ne2 = 1 || t.nb2 = t.ne0 * t.ne1) &&
    (t.ne3 = 1 || t.nb3 = t.ne0 * t.ne1 * t.ne2)

/-- `ggml_is_empty`. -/
def isEmpty (t : Tensor R) : Bool := t.ne0 = 0 || t.ne1 = 0 || t.ne2 = 0 || t.ne3 = 0

/-- `ggml_reshape_4d`. -/
def reshape (t : Tensor R) (ne0 ne1 ne2 ne3 : ℕ) : Option (Tensor R) :=
  if t.isContiguous ∧ t.nelements = ne0 * ne1 * ne2 * ne3 then
    some { source ne0 ne1 ne2 ne3 t.data with offs := t.offs }
  else none

/-- `ggml_view_3d`. -/
def view3d (t : Tensor R) (ne0 ne1 ne2 nb1 nb2 offset : ℕ) : Tensor R where
  ne0 := ne0
  ne1 := ne1
  ne2 := ne2
  ne3 := 1
  nb0 := 1
  nb1 := nb1
  nb2 := nb2
  nb3 := nb2 * ne2
  offs := t.offs + offset
  data := t.data

/-- `ggml_view_2d`. -/
def view2d (t : Tensor R) (ne0 ne1 nb1 offset : ℕ) : Tensor R :=
  view3d t ne0 ne1 1 nb1 (nb1 * ne1) offset

/-- `ggml_transpose`, which is `ggml_permute` with the axes 1, 0, 2 and 3. -/
def transpose (t : Tensor R) : Tensor R :=
  { t with ne0 := t.ne1, ne1 := t.ne0, nb0 := t.nb1, nb1 := t.nb0 }

/-- `ggml_cont`. -/
def cont (t : Tensor R) : Tensor R := ofGet t.ne0 t.ne1 t.ne2 t.ne3 t.get

/-- `ggml_repeat_4d`. -/
def repeat4d (t : Tensor R) (ne0 ne1 ne2 ne3 : ℕ) : Option (Tensor R) :=
  if t.isEmpty ∨ ne0 % t.ne0 = 0 ∧ ne1 % t.ne1 = 0 ∧ ne2 % t.ne2 = 0 ∧ ne3 % t.ne3 = 0 then
    some (ofGet ne0 ne1 ne2 ne3 fun i0 i1 i2 i3 =>
      t.get (i0 % t.ne0) (i1 % t.ne1) (i2 % t.ne2) (i3 % t.ne3))
  else none

/-- `ggml_can_repeat`. -/
def canRepeat (t like : Tensor R) : Bool :=
  if t.isEmpty then like.isEmpty
  else like.ne0 % t.ne0 = 0 && like.ne1 % t.ne1 = 0 && like.ne2 % t.ne2 = 0 && like.ne3 % t.ne3 = 0

/-- `ggml_repeat`. -/
def repeatAs (t like : Tensor R) : Option (Tensor R) :=
  if canRepeat t like then
    some (ofGet like.ne0 like.ne1 like.ne2 like.ne3 fun i0 i1 i2 i3 =>
      t.get (i0 % t.ne0) (i1 % t.ne1) (i2 % t.ne2) (i3 % t.ne3))
  else none

/-- `ggml_concat` along the first axis. -/
def concat0 (a b : Tensor R) : Option (Tensor R) :=
  if a.ne1 = b.ne1 ∧ a.ne2 = b.ne2 ∧ a.ne3 = b.ne3 then
    some (ofGet (a.ne0 + b.ne0) a.ne1 a.ne2 a.ne3 fun i0 i1 i2 i3 =>
      if i0 < a.ne0 then a.get i0 i1 i2 i3 else b.get (i0 - a.ne0) i1 i2 i3)
  else none

section Arithmetic

variable [CommRing R]

/-- `ggml_im2col` in one dimension: the arguments of a convolution with the kernel `a`. -/
def im2col (a b : Tensor R) (s0 p0 d0 : ℤ) : Option (Tensor R) :=
  let ow := (b.ne0 + 2 * p0 - d0 * (a.ne0 - 1) - 1).tdiv s0 + 1
  if b.ne1 = a.ne1 ∧ b.ne3 = 1 ∧ 0 < ow ∧ b.nb0 = 1 then
    some (ofGet (a.ne1 * a.ne0) ow.toNat b.ne2 1 fun i0 iow n _ =>
      let iiw : ℤ := iow * s0 + (i0 % a.ne0 : ℕ) * d0 - p0
      if iiw < 0 ∨ b.ne0 ≤ iiw then 0 else b.get iiw.toNat (i0 / a.ne0) n 0)
  else none

/-- `ggml_mul_mat`: the rows of `a` and of `b` are multiplied. -/
def mulMat (a b : Tensor R) : Option (Tensor R) :=
  if a.ne0 = b.ne0 ∧ b.ne2 % a.ne2 = 0 ∧ b.ne3 % a.ne3 = 0 ∧ a.nb0 ≤ a.nb1 then
    some (ofGet a.ne1 b.ne1 b.ne2 b.ne3 fun i0 i1 i2 i3 => ∑ k ∈ Finset.range a.ne0,
      a.get k i0 (i2 / (b.ne2 / a.ne2)) (i3 / (b.ne3 / a.ne3)) * b.get k i1 i2 i3)
  else none

/-- `ggml_add` and `ggml_mul`: the second argument is repeated. -/
def binary (op : R → R → R) (a b : Tensor R) : Option (Tensor R) :=
  if canRepeat b a then
    some (ofGet a.ne0 a.ne1 a.ne2 a.ne3 fun i0 i1 i2 i3 =>
      op (a.get i0 i1 i2 i3) (b.get (i0 % b.ne0) (i1 % b.ne1) (i2 % b.ne2) (i3 % b.ne3)))
  else none

/-- `ggml_add`. -/
def add (a b : Tensor R) : Option (Tensor R) := binary (· + ·) a b

/-- `ggml_mul`. -/
def mul (a b : Tensor R) : Option (Tensor R) := binary (· * ·) a b

/-- `ggml_div`. -/
def div [Div R] (a b : Tensor R) : Option (Tensor R) := binary (· / ·) a b

/-- `ggml_conv_transpose_1d`: the frames of a signal, added where they overlap. -/
def convTranspose1d (a b : Tensor R) (s0 : ℕ) : Option (Tensor R) :=
  if b.ne2 = 1 ∧ b.ne3 = 1 ∧ a.ne2 = b.ne1 ∧ a.ne3 = 1 ∧ a.nb0 = 1 ∧ b.nb0 = 1 then
    some (ofGet ((b.ne0 - 1) * s0 + a.ne0) a.ne1 b.ne2 1 fun i oc _ _ =>
      OverlapAdd.overlapAdd b.ne0 s0 a.ne0
        (fun l k => ∑ ic ∈ Finset.range a.ne2, b.get l ic 0 0 * a.get k oc ic 0) i)
  else none

/-- `ggml_scale`. -/
def scale (t : Tensor R) (s : R) : Tensor R :=
  ofGet t.ne0 t.ne1 t.ne2 t.ne3 fun i0 i1 i2 i3 => t.get i0 i1 i2 i3 * s

/-- `ggml_sum_rows`. -/
def sumRows (t : Tensor R) : Tensor R :=
  ofGet 1 t.ne1 t.ne2 t.ne3 fun _ i1 i2 i3 => ∑ k ∈ Finset.range t.ne0, t.get k i1 i2 i3

/-- `ggml_soft_max`, which maps every row. -/
def softMax (f : ∀ n, (Fin n → R) → Fin n → R) (t : Tensor R) : Tensor R :=
  ofGet t.ne0 t.ne1 t.ne2 t.ne3 fun i0 i1 i2 i3 =>
    if h : i0 < t.ne0 then f t.ne0 (fun k => t.get k i1 i2 i3) ⟨i0, h⟩ else 0

end Arithmetic

/-! ### What a tensor holds -/

/-- The elements lie one behind the other. -/
structure Dense (t : Tensor R) : Prop where
  nb0 : t.nb0 = 1
  nb1 : t.nb1 = t.ne0
  nb2 : t.nb2 = t.ne0 * t.ne1
  nb3 : t.nb3 = t.ne0 * t.ne1 * t.ne2

/-- The lengths, and the elements. -/
structure Reads (t : Tensor R) (n0 n1 n2 n3 : ℕ) (f : ℕ → ℕ → ℕ → ℕ → R) : Prop where
  ne0 : t.ne0 = n0
  ne1 : t.ne1 = n1
  ne2 : t.ne2 = n2
  ne3 : t.ne3 = n3
  get : ∀ {i0 i1 i2 i3}, i0 < n0 → i1 < n1 → i2 < n2 → i3 < n3 → t.get i0 i1 i2 i3 = f i0 i1 i2 i3

@[simp] theorem ne0_source (n0 n1 n2 n3 : ℕ) (data : ℕ → R) : (source n0 n1 n2 n3 data).ne0 = n0 := rfl

@[simp] theorem ne1_source (n0 n1 n2 n3 : ℕ) (data : ℕ → R) : (source n0 n1 n2 n3 data).ne1 = n1 := rfl

@[simp] theorem ne2_source (n0 n1 n2 n3 : ℕ) (data : ℕ → R) : (source n0 n1 n2 n3 data).ne2 = n2 := rfl

@[simp] theorem ne3_source (n0 n1 n2 n3 : ℕ) (data : ℕ → R) : (source n0 n1 n2 n3 data).ne3 = n3 := rfl

theorem dense_source (n0 n1 n2 n3 : ℕ) (data : ℕ → R) : (source n0 n1 n2 n3 data).Dense :=
  ⟨rfl, rfl, rfl, rfl⟩

theorem Dense.isContiguous {t : Tensor R} (h : t.Dense) : t.isContiguous = true := by
  simp [Tensor.isContiguous, h.nb0, h.nb1, h.nb2, h.nb3]

variable {n0 n1 n2 n3 : ℕ} {f g : ℕ → ℕ → ℕ → ℕ → R} {t : Tensor R}

/-- The digits of an address. -/
theorem get_ofGet {i0 i1 i2 i3 : ℕ} (h0 : i0 < n0) (h1 : i1 < n1) (h2 : i2 < n2) :
    (ofGet n0 n1 n2 n3 f).get i0 i1 i2 i3 = f i0 i1 i2 i3 := by
  have haddr : 0 + i0 * 1 + i1 * n0 + i2 * (n0 * n1) + i3 * (n0 * n1 * n2) =
      i0 + n0 * (i1 + n1 * (i2 + n2 * i3)) := by ring
  have hn0 : 0 < n0 := by omega
  have hn1 : 0 < n1 := by omega
  have hn2 : 0 < n2 := by omega
  have hdiv0 : (i0 + n0 * (i1 + n1 * (i2 + n2 * i3))) / n0 = i1 + n1 * (i2 + n2 * i3) := by
    rw [Nat.add_mul_div_left _ _ hn0, Nat.div_eq_of_lt h0, Nat.zero_add]
  have hdiv1 : (i1 + n1 * (i2 + n2 * i3)) / n1 = i2 + n2 * i3 := by
    rw [Nat.add_mul_div_left _ _ hn1, Nat.div_eq_of_lt h1, Nat.zero_add]
  have hdiv2 : (i2 + n2 * i3) / n2 = i3 := by
    rw [Nat.add_mul_div_left _ _ hn2, Nat.div_eq_of_lt h2, Nat.zero_add]
  simp only [get, ofGet, source, haddr, ← Nat.div_div_eq_div_mul, hdiv0, hdiv1, hdiv2,
    Nat.add_mul_mod_self_left, Nat.mod_eq_of_lt h0, Nat.mod_eq_of_lt h1, Nat.mod_eq_of_lt h2]

theorem reads_ofGet (h : ∀ {i0 i1 i2 i3}, i0 < n0 → i1 < n1 → i2 < n2 → i3 < n3 →
    f i0 i1 i2 i3 = g i0 i1 i2 i3) : (ofGet n0 n1 n2 n3 f).Reads n0 n1 n2 n3 g :=
  ⟨rfl, rfl, rfl, rfl, fun h0 h1 h2 h3 => (get_ofGet h0 h1 h2).trans (h h0 h1 h2 h3)⟩

/-- What is copied into a tensor, by its addresses. -/
theorem reads_source (data : ℕ → R) : (source n0 n1 n2 n3 data).Reads n0 n1 n2 n3
    fun i0 i1 i2 i3 => data (i0 + n0 * (i1 + n1 * (i2 + n2 * i3))) := by
  refine ⟨rfl, rfl, rfl, rfl, fun {i0 i1 i2 i3} _ _ _ _ => ?_⟩
  have haddr : 0 + i0 * 1 + i1 * n0 + i2 * (n0 * n1) + i3 * (n0 * n1 * n2) =
      i0 + n0 * (i1 + n1 * (i2 + n2 * i3)) := by ring
  exact congrArg data haddr

theorem Reads.congr (ht : t.Reads n0 n1 n2 n3 f) (h : ∀ {i0 i1 i2 i3}, i0 < n0 → i1 < n1 →
    i2 < n2 → i3 < n3 → f i0 i1 i2 i3 = g i0 i1 i2 i3) : t.Reads n0 n1 n2 n3 g :=
  ⟨ht.ne0, ht.ne1, ht.ne2, ht.ne3, fun h0 h1 h2 h3 => (ht.get h0 h1 h2 h3).trans (h h0 h1 h2 h3)⟩

theorem Reads.transpose (h : t.Reads n0 n1 n2 n3 f) :
    t.transpose.Reads n1 n0 n2 n3 fun i0 i1 i2 i3 => f i1 i0 i2 i3 := by
  refine ⟨h.ne1, h.ne0, h.ne2, h.ne3, fun {i0 i1 i2 i3} h0 h1 h2 h3 => ?_⟩
  have haddr : t.offs + i0 * t.nb1 + i1 * t.nb0 + i2 * t.nb2 + i3 * t.nb3 =
      t.offs + i1 * t.nb0 + i0 * t.nb1 + i2 * t.nb2 + i3 * t.nb3 := by ring
  exact (congrArg t.data haddr).trans (h.get h1 h0 h2 h3)

theorem Reads.cont (h : t.Reads n0 n1 n2 n3 f) : t.cont.Reads n0 n1 n2 n3 f := by
  rw [Tensor.cont, h.ne0, h.ne1, h.ne2, h.ne3]
  exact reads_ofGet h.get

/-- The elements of a dense tensor, by its addresses. -/
theorem Reads.data {i0 i1 i2 i3 : ℕ} (h : t.Reads n0 n1 n2 n3 f) (hd : t.Dense) (h0 : i0 < n0)
    (h1 : i1 < n1) (h2 : i2 < n2) (h3 : i3 < n3) :
    t.data (t.offs + (i0 + n0 * (i1 + n1 * (i2 + n2 * i3)))) = f i0 i1 i2 i3 := by
  have haddr : t.offs + (i0 + n0 * (i1 + n1 * (i2 + n2 * i3))) =
      t.offs + i0 * t.nb0 + i1 * t.nb1 + i2 * t.nb2 + i3 * t.nb3 := by
    rw [hd.nb0, hd.nb1, hd.nb2, hd.nb3, h.ne0, h.ne1, h.ne2]
    ring
  rw [haddr]
  exact h.get h0 h1 h2 h3

theorem reads_view3d {m0 m1 m2 nb1 nb2 offset : ℕ} (h : ∀ {i0 i1 i2}, i0 < m0 → i1 < m1 → i2 < m2 →
    t.data (t.offs + (offset + i0 + i1 * nb1 + i2 * nb2)) = g i0 i1 i2 0) :
    (t.view3d m0 m1 m2 nb1 nb2 offset).Reads m0 m1 m2 1 g := by
  refine ⟨rfl, rfl, rfl, rfl, fun {i0 i1 i2 i3} h0 h1 h2 h3 => ?_⟩
  obtain rfl := Nat.lt_one_iff.mp h3
  have haddr : t.offs + offset + i0 * 1 + i1 * nb1 + i2 * nb2 + 0 * (nb2 * m2) =
      t.offs + (offset + i0 + i1 * nb1 + i2 * nb2) := by ring
  exact (congrArg t.data haddr).trans (h h0 h1 h2)

theorem reads_view2d {m0 m1 nb1 offset : ℕ} (h : ∀ {i0 i1}, i0 < m0 → i1 < m1 →
    t.data (t.offs + (offset + i0 + i1 * nb1)) = g i0 i1 0 0) :
    (t.view2d m0 m1 nb1 offset).Reads m0 m1 1 1 g := by
  refine reads_view3d fun {i0 i1 i2} h0 h1 h2 => ?_
  obtain rfl := Nat.lt_one_iff.mp h2
  rw [Nat.zero_mul, Nat.add_zero]
  exact h h0 h1

theorem Reads.isEmpty (h : t.Reads n0 n1 n2 n3 f) (h0 : 0 < n0) (h1 : 0 < n1) (h2 : 0 < n2)
    (h3 : 0 < n3) : t.isEmpty = false := by
  simp only [Tensor.isEmpty, h.ne0, h.ne1, h.ne2, h.ne3, Bool.or_eq_false_iff, decide_eq_false_iff_not]
  omega

end Tensor

/-! ### One operation after another -/

open Tensor

variable {R : Type} {n0 n1 n2 n3 m0 m1 m2 m3 : ℕ} {f g : ℕ → ℕ → ℕ → ℕ → R} {t like : Tensor R}
  {x : Option (Tensor R)}

/-- There is a tensor, in a buffer of its own, with these elements. -/
def Gives (x : Option (Tensor R)) (n0 n1 n2 n3 : ℕ) (f : ℕ → ℕ → ℕ → ℕ → R) : Prop :=
  ∃ t, x = some t ∧ t.Dense ∧ t.Reads n0 n1 n2 n3 f

theorem gives_some (hd : t.Dense) (h : t.Reads n0 n1 n2 n3 f) : Gives (some t) n0 n1 n2 n3 f :=
  ⟨t, rfl, hd, h⟩

theorem gives_ofGet (h : ∀ {i0 i1 i2 i3}, i0 < n0 → i1 < n1 → i2 < n2 → i3 < n3 →
    f i0 i1 i2 i3 = g i0 i1 i2 i3) : Gives (some (ofGet n0 n1 n2 n3 f)) n0 n1 n2 n3 g :=
  gives_some (dense_source ..) (reads_ofGet h)

theorem Gives.congr (hx : Gives x n0 n1 n2 n3 f) (h : ∀ {i0 i1 i2 i3}, i0 < n0 → i1 < n1 →
    i2 < n2 → i3 < n3 → f i0 i1 i2 i3 = g i0 i1 i2 i3) : Gives x n0 n1 n2 n3 g := by
  obtain ⟨t, rfl, hd, ht⟩ := hx
  exact gives_some hd (ht.congr h)

theorem Gives.bind {k : Tensor R → Option (Tensor R)} (hx : Gives x n0 n1 n2 n3 f)
    (hk : ∀ t, t.Dense → t.Reads n0 n1 n2 n3 f → Gives (k t) m0 m1 m2 m3 g) :
    Gives (x >>= k) m0 m1 m2 m3 g := by
  obtain ⟨t, rfl, hd, ht⟩ := hx
  exact hk t hd ht

/-- A loop, by what holds after every round. -/
theorem Gives.foldlM {step : Tensor R → ℕ → Option (Tensor R)} {F : ℕ → ℕ → ℕ → ℕ → ℕ → R} (n : ℕ)
    (hd : t.Dense) (h : t.Reads n0 n1 n2 n3 (F 0))
    (hstep : ∀ i < n, ∀ t, t.Dense → t.Reads n0 n1 n2 n3 (F i) →
      Gives (step t i) n0 n1 n2 n3 (F (i + 1))) :
    Gives ((List.range n).foldlM step t) n0 n1 n2 n3 (F n) := by
  induction n with
  | zero => exact gives_some hd h
  | succ n ih =>
    rw [List.range_succ, List.foldlM_append]
    refine (ih fun i hi => hstep i (by omega)).bind fun t hd h => ?_
    rw [List.foldlM_cons]
    refine (hstep n (by omega) t hd h).bind fun t hd h => ?_
    exact gives_some hd h

theorem gives_reshape (hd : t.Dense) (h : t.Reads n0 n1 n2 n3 f)
    (hn : n0 * n1 * n2 * n3 = m0 * m1 * m2 * m3) (hg : ∀ {i0 i1 i2 i3}, i0 < m0 → i1 < m1 → i2 < m2 →
      i3 < m3 → t.data (t.offs + (i0 + m0 * (i1 + m1 * (i2 + m2 * i3)))) = g i0 i1 i2 i3) :
    Gives (t.reshape m0 m1 m2 m3) m0 m1 m2 m3 g := by
  have hnelements : t.nelements = m0 * m1 * m2 * m3 := by
    rw [nelements, h.ne0, h.ne1, h.ne2, h.ne3, hn]
  rw [reshape, if_pos ⟨hd.isContiguous, hnelements⟩]
  refine gives_some ⟨rfl, rfl, rfl, rfl⟩ ⟨rfl, rfl, rfl, rfl, fun {i0 i1 i2 i3} h0 h1 h2 h3 => ?_⟩
  have haddr : t.offs + i0 * 1 + i1 * m0 + i2 * (m0 * m1) + i3 * (m0 * m1 * m2) =
      t.offs + (i0 + m0 * (i1 + m1 * (i2 + m2 * i3))) := by ring
  exact (congrArg t.data haddr).trans (hg h0 h1 h2 h3)

theorem gives_reshape_source {data : ℕ → R} (hn : n0 * n1 * n2 * n3 = m0 * m1 * m2 * m3) :
    Gives ((source n0 n1 n2 n3 data).reshape m0 m1 m2 m3) m0 m1 m2 m3
      fun i0 i1 i2 i3 => data (i0 + m0 * (i1 + m1 * (i2 + m2 * i3))) := by
  refine gives_reshape (dense_source ..) (reads_source data) hn fun _ _ _ _ => ?_
  exact congrArg data (Nat.zero_add _)

theorem gives_repeat4d (h : t.Reads n0 n1 n2 n3 f) (h0 : 0 < n0 ∧ n0 ∣ m0) (h1 : 0 < n1 ∧ n1 ∣ m1)
    (h2 : 0 < n2 ∧ n2 ∣ m2) (h3 : 0 < n3 ∧ n3 ∣ m3) :
    Gives (t.repeat4d m0 m1 m2 m3) m0 m1 m2 m3
      fun i0 i1 i2 i3 => f (i0 % n0) (i1 % n1) (i2 % n2) (i3 % n3) := by
  have hmod : m0 % n0 = 0 ∧ m1 % n1 = 0 ∧ m2 % n2 = 0 ∧ m3 % n3 = 0 :=
    ⟨Nat.mod_eq_zero_of_dvd h0.2, Nat.mod_eq_zero_of_dvd h1.2, Nat.mod_eq_zero_of_dvd h2.2,
      Nat.mod_eq_zero_of_dvd h3.2⟩
  rw [repeat4d, h.ne0, h.ne1, h.ne2, h.ne3, if_pos (.inr hmod)]
  refine gives_ofGet fun _ _ _ _ => ?_
  exact h.get (Nat.mod_lt _ h0.1) (Nat.mod_lt _ h1.1) (Nat.mod_lt _ h2.1) (Nat.mod_lt _ h3.1)

theorem canRepeat_eq_true (h : t.Reads n0 n1 n2 n3 f) (hlike : like.Reads m0 m1 m2 m3 g)
    (h0 : 0 < n0 ∧ n0 ∣ m0) (h1 : 0 < n1 ∧ n1 ∣ m1) (h2 : 0 < n2 ∧ n2 ∣ m2) (h3 : 0 < n3 ∧ n3 ∣ m3) :
    canRepeat t like = true := by
  simp [canRepeat, h.isEmpty h0.1 h1.1 h2.1 h3.1, h.ne0, h.ne1, h.ne2, h.ne3, hlike.ne0, hlike.ne1,
    hlike.ne2, hlike.ne3, Nat.mod_eq_zero_of_dvd h0.2, Nat.mod_eq_zero_of_dvd h1.2,
    Nat.mod_eq_zero_of_dvd h2.2, Nat.mod_eq_zero_of_dvd h3.2]

theorem gives_repeatAs (h : t.Reads n0 n1 n2 n3 f) (hlike : like.Reads m0 m1 m2 m3 g)
    (h0 : 0 < n0 ∧ n0 ∣ m0) (h1 : 0 < n1 ∧ n1 ∣ m1) (h2 : 0 < n2 ∧ n2 ∣ m2) (h3 : 0 < n3 ∧ n3 ∣ m3) :
    Gives (t.repeatAs like) m0 m1 m2 m3
      fun i0 i1 i2 i3 => f (i0 % n0) (i1 % n1) (i2 % n2) (i3 % n3) := by
  rw [repeatAs, if_pos (canRepeat_eq_true h hlike h0 h1 h2 h3), h.ne0, h.ne1, h.ne2, h.ne3, hlike.ne0,
    hlike.ne1, hlike.ne2, hlike.ne3]
  refine gives_ofGet fun _ _ _ _ => ?_
  exact h.get (Nat.mod_lt _ h0.1) (Nat.mod_lt _ h1.1) (Nat.mod_lt _ h2.1) (Nat.mod_lt _ h3.1)

theorem gives_concat0 {a b : Tensor R} (ha : a.Reads n0 n1 n2 n3 f) (hb : b.Reads m0 n1 n2 n3 g) :
    Gives (a.concat0 b) (n0 + m0) n1 n2 n3
      fun i0 i1 i2 i3 => if i0 < n0 then f i0 i1 i2 i3 else g (i0 - n0) i1 i2 i3 := by
  have hne : a.ne1 = b.ne1 ∧ a.ne2 = b.ne2 ∧ a.ne3 = b.ne3 :=
    ⟨ha.ne1.trans hb.ne1.symm, ha.ne2.trans hb.ne2.symm, ha.ne3.trans hb.ne3.symm⟩
  rw [concat0, if_pos hne, ha.ne0, ha.ne1, ha.ne2, ha.ne3, hb.ne0]
  refine gives_ofGet fun {i0 i1 i2 i3} h0 h1 h2 h3 => ?_
  split_ifs with hlt
  · exact ha.get hlt h1 h2 h3
  · exact hb.get (by omega) h1 h2 h3

/-- The tensor that a longer one is multiplied with, and its index. -/
theorem div_div_lt {n m i : ℕ} (h : n ∣ m) (hi : i < m) : i / (m / n) < n := by
  obtain ⟨k, rfl⟩ := h
  have hpos := Nat.zero_lt_of_lt hi
  have hn := Nat.pos_of_mul_pos_right hpos
  have hk := Nat.pos_of_mul_pos_left hpos
  rw [Nat.mul_div_cancel_left _ hn, Nat.div_lt_iff_lt_mul hk]
  exact hi

section Arithmetic

variable [CommRing R] {a b : Tensor R}

omit [CommRing R] in
theorem gives_binary (op : R → R → R) (ha : a.Reads n0 n1 n2 n3 f) (hb : b.Reads n0 n1 n2 n3 g) :
    Gives (binary op a b) n0 n1 n2 n3 fun i0 i1 i2 i3 => op (f i0 i1 i2 i3) (g i0 i1 i2 i3) := by
  have hcan : canRepeat b a = true := by
    have hempty : a.isEmpty = b.isEmpty := by
      rw [Tensor.isEmpty, ha.ne0, ha.ne1, ha.ne2, ha.ne3, ← hb.ne0, ← hb.ne1, ← hb.ne2, ← hb.ne3]
      rfl
    rw [canRepeat, hempty]
    split_ifs with hb0
    · exact hb0
    · simp [ha.ne0, ha.ne1, ha.ne2, ha.ne3, hb.ne0, hb.ne1, hb.ne2, hb.ne3]
  rw [binary, if_pos hcan, ha.ne0, ha.ne1, ha.ne2, ha.ne3, hb.ne0, hb.ne1, hb.ne2, hb.ne3]
  refine gives_ofGet fun h0 h1 h2 h3 => ?_
  rw [Nat.mod_eq_of_lt h0, Nat.mod_eq_of_lt h1, Nat.mod_eq_of_lt h2, Nat.mod_eq_of_lt h3,
    ha.get h0 h1 h2 h3, hb.get h0 h1 h2 h3]

theorem gives_mulMat (ha : a.Reads n0 n1 n2 n3 f) (hb : b.Reads n0 m1 m2 m3 g) (hnb : a.nb0 ≤ a.nb1)
    (h2 : 0 < n2 ∧ n2 ∣ m2) (h3 : 0 < n3 ∧ n3 ∣ m3) :
    Gives (mulMat a b) n1 m1 m2 m3 fun i0 i1 i2 i3 => ∑ k ∈ Finset.range n0,
      f k i0 (i2 / (m2 / n2)) (i3 / (m3 / n3)) * g k i1 i2 i3 := by
  rw [mulMat, if_pos ?_, ha.ne0, ha.ne1, ha.ne2, ha.ne3, hb.ne1, hb.ne2, hb.ne3]
  · refine gives_ofGet fun {i0 i1 i2 i3} hi0 hi1 hi2 hi3 => Finset.sum_congr rfl fun k hk => ?_
    have hk := Finset.mem_range.mp hk
    rw [ha.get hk hi0 (div_div_lt h2.2 hi2) (div_div_lt h3.2 hi3), hb.get hk hi1 hi2 hi3]
  · rw [ha.ne0, hb.ne0, ha.ne2, hb.ne2, ha.ne3, hb.ne3]
    exact ⟨rfl, Nat.mod_eq_zero_of_dvd h2.2, Nat.mod_eq_zero_of_dvd h3.2, hnb⟩

theorem Tensor.Reads.scale (h : t.Reads n0 n1 n2 n3 f) (s : R) :
    (t.scale s).Reads n0 n1 n2 n3 fun i0 i1 i2 i3 => f i0 i1 i2 i3 * s := by
  rw [Tensor.scale, h.ne0, h.ne1, h.ne2, h.ne3]
  exact reads_ofGet fun h0 h1 h2 h3 => congrArg (· * s) (h.get h0 h1 h2 h3)

theorem Tensor.Reads.sumRows (h : t.Reads n0 n1 n2 n3 f) :
    t.sumRows.Reads 1 n1 n2 n3 fun _ i1 i2 i3 => ∑ k ∈ Finset.range n0, f k i1 i2 i3 := by
  rw [Tensor.sumRows, h.ne0, h.ne1, h.ne2, h.ne3]
  refine reads_ofGet fun _ h1 h2 h3 => Finset.sum_congr rfl fun k hk => ?_
  exact h.get (Finset.mem_range.mp hk) h1 h2 h3

theorem Tensor.Reads.softMax (φ : ∀ n, (Fin n → R) → Fin n → R) (h : t.Reads n0 n1 n2 n3 f) :
    (t.softMax φ).Reads n0 n1 n2 n3 fun i0 i1 i2 i3 =>
      if h0 : i0 < n0 then φ n0 (fun k => f k i1 i2 i3) ⟨i0, h0⟩ else 0 := by
  obtain ⟨rfl, rfl, rfl, rfl, hget⟩ := h
  refine reads_ofGet fun {i0 i1 i2 i3} h0 h1 h2 h3 => ?_
  have hrow : (fun k : Fin t.ne0 => t.get k i1 i2 i3) = fun k : Fin t.ne0 => f k i1 i2 i3 := by
    funext k
    exact hget k.isLt h1 h2 h3
  rw [dif_pos h0, dif_pos h0, hrow]

/-- The arguments of a convolution that stays inside its input. -/
theorem gives_im2col {k ic ow n l s d : ℕ} (hk : 0 < k) (hl : d * (k - 1) < l)
    (how : ow = (l - d * (k - 1) - 1) / s + 1) (ha0 : a.ne0 = k) (ha1 : a.ne1 = ic)
    (hb : b.Reads l ic n 1 g) (hnb : b.nb0 = 1) :
    Gives (im2col a b s 0 d) (ic * k) ow n 1
      fun i iow m _ => g (iow * s + i % k * d) (i / k) m 0 := by
  have hcast : ((b.ne0 : ℤ) + 2 * 0 - d * (a.ne0 - 1) - 1).tdiv s + 1 = ow := by
    obtain ⟨k, rfl⟩ := Nat.exists_eq_add_of_le' hk
    rw [Nat.add_sub_cancel] at hl how
    have hrest : (b.ne0 : ℤ) + 2 * 0 - d * (a.ne0 - 1) - 1 = (l - d * k - 1 : ℕ) := by
      rw [hb.ne0, ha0]
      push_cast [Nat.sub_sub, Nat.cast_sub (Nat.succ_le_of_lt hl)]
      ring
    rw [hrest, how]
    rfl
  have hpos : 0 < ow := how.symm ▸ Nat.succ_pos _
  rw [im2col, hcast, if_pos ⟨hb.ne1.trans ha1.symm, hb.ne3, by omega, hnb⟩, Int.toNat_natCast, ha0, ha1,
    hb.ne2]
  refine gives_ofGet fun {i iow m i3} hi hiow hm _ => ?_
  have htap : i % k * d ≤ d * (k - 1) := by
    rw [mul_comm d]
    exact Nat.mul_le_mul_right d (Nat.le_sub_one_of_lt (Nat.mod_lt i hk))
  have hrow : iow * s ≤ l - d * (k - 1) - 1 :=
    (Nat.mul_le_mul_right s (Nat.le_of_lt_succ (hiow.trans_eq how))).trans
      (Nat.div_mul_le_self _ s)
  have haddr : (iow : ℤ) * s + (i % k : ℕ) * d - 0 = (iow * s + i % k * d : ℕ) := by
    push_cast
    ring
  have hin : ¬((iow * s + i % k * d : ℕ) < (0 : ℤ) ∨ (b.ne0 : ℤ) ≤ (iow * s + i % k * d : ℕ)) := by
    rw [hb.ne0]
    omega
  simp only [haddr, if_neg hin, Int.toNat_natCast]
  exact hb.get (by omega) ((Nat.div_lt_iff_lt_mul hk).mpr hi) hm Nat.one_pos

theorem gives_convTranspose1d {k oc ic l s : ℕ} (ha : a.Reads k oc ic 1 f) (hb : b.Reads l ic 1 1 g)
    (hna : a.nb0 = 1) (hnb : b.nb0 = 1) (hoc : oc = 1) :
    Gives (convTranspose1d a b s) ((l - 1) * s + k) 1 1 1 fun i _ _ _ =>
      OverlapAdd.overlapAdd l s k
        (fun t m => ∑ c ∈ Finset.range ic, g t c 0 0 * f m 0 c 0) i := by
  subst hoc
  rw [convTranspose1d, if_pos ⟨hb.ne2, hb.ne3, ha.ne2.trans hb.ne1.symm, ha.ne3, hna, hnb⟩, ha.ne0,
    ha.ne1, ha.ne2, hb.ne0, hb.ne2]
  refine gives_ofGet fun {i o i2 i3} _ ho _ _ => ?_
  obtain rfl := Nat.lt_one_iff.mp ho
  rw [OverlapAdd.overlapAdd_apply, OverlapAdd.overlapAdd_apply]
  refine Finset.sum_congr rfl fun t ht => Finset.sum_congr rfl fun m hm => ?_
  have hsum : ∑ c ∈ Finset.range ic, b.get t c 0 0 * a.get m 0 c 0 =
      ∑ c ∈ Finset.range ic, g t c 0 0 * f m 0 c 0 := by
    refine Finset.sum_congr rfl fun c hc => ?_
    have hc := Finset.mem_range.mp hc
    rw [hb.get (Finset.mem_range.mp ht) hc Nat.one_pos Nat.one_pos,
      ha.get (Finset.mem_range.mp hm) Nat.one_pos hc Nat.one_pos]
  rw [hsum]

/-- `conv1d_f32`, a helper that the programs share. -/
def conv1dF32 (kernel input : Tensor R) (stride padding dilation : ℤ) : Option (Tensor R) := do
  let im ← im2col kernel input stride padding dilation
  let rows ← im.reshape im.ne0 (im.ne2 * im.ne1) 1 1
  let w ← kernel.reshape (kernel.ne0 * kernel.ne1) kernel.ne2 1 1
  let result ← mulMat rows w
  result.reshape im.ne1 kernel.ne2 im.ne2 1

theorem gives_conv1dF32 {k ic oc ow l s d : ℕ} {w : ℕ → R} (hk : 0 < k) (hic : 0 < ic)
    (hl : d * (k - 1) < l) (how : ow = (l - d * (k - 1) - 1) / s + 1) (hd : b.Dense)
    (hb : b.Reads l ic 1 1 g) :
    Gives (conv1dF32 (source k ic oc 1 w) b s 0 d) ow oc 1 1 fun t o _ _ =>
      ∑ i ∈ Finset.range (ic * k), g (t * s + i % k * d) (i / k) 0 0 * w (i + ic * k * o) := by
  have hpos : 0 < ic * k := Nat.mul_pos hic hk
  refine (gives_im2col hk hl how (ne0_source k ic oc 1 w) (ne1_source k ic oc 1 w) hb hd.nb0).bind
    fun im himd him => ?_
  rw [him.ne0, him.ne1, him.ne2, one_mul]
  have hrows : Gives (im.reshape (ic * k) ow 1 1) (ic * k) ow 1 1
      fun i t _ _ => g (t * s + i % k * d) (i / k) 0 0 := by
    refine (gives_reshape himd him rfl fun h0 h1 h2 h3 => him.data himd h0 h1 h2 h3).congr ?_
    intro i t i2 i3 _ _ h2 _
    rw [Nat.lt_one_iff.mp h2]
  have hkernel : Gives ((source k ic oc 1 w).reshape (ic * k) oc 1 1) (ic * k) oc 1 1
      fun i o _ _ => w (i + ic * k * o) := by
    refine (gives_reshape_source (by ring)).congr fun _ _ h2 h3 => ?_
    rw [Nat.lt_one_iff.mp h2, Nat.lt_one_iff.mp h3]
    simp
  rw [ne0_source, ne1_source, ne2_source, mul_comm k ic]
  refine hrows.bind fun rows hrowsd hrows => hkernel.bind fun kernel _ hkernel => ?_
  have hnb : rows.nb0 ≤ rows.nb1 := by
    rw [hrowsd.nb0, hrowsd.nb1, hrows.ne0]
    exact hpos
  refine (gives_mulMat hrows hkernel hnb ⟨Nat.one_pos, dvd_rfl⟩ ⟨Nat.one_pos, dvd_rfl⟩).bind
    fun result hresultd hresult => ?_
  exact gives_reshape hresultd hresult rfl fun h0 h1 h2 h3 => hresult.data hresultd h0 h1 h2 h3

end Arithmetic

end Compute

end WhisperCpp
