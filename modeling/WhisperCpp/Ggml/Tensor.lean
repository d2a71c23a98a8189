import Mathlib.Algebra.Order.Ring.Int
import Mathlib.Data.Fin.VecNotation

/-!
# Tensors of ggml

A tensor of ggml has a type, four lengths `ne` and four strides `nb`, in bytes. The operations below
say which lengths and strides a result has; what is computed is not part of them, and neither are the
assertions of ggml about their arguments.

## Main definitions

* `GgmlType`, `blckSize`, `typeSize` — the table of types
* `Tensor`, `newTensor`, `nelements`, `nbytes`, `nDims`, `isContiguous`
* `permute`, `transpose`, `cont`, `reshape3d`, `mulMat`, `concat` — operations
-/

namespace WhisperCpp

namespace Ggml

/-- `ggml_type`. The types that were removed keep their numbers. -/
abbrev GgmlType := Fin 42

def GgmlType.f32 : GgmlType := 0

def GgmlType.f16 : GgmlType := 1

/-- `type_traits`: the elements of a block of each type, and its bytes. -/
def typeTraits : Fin 42 → ℕ × ℕ :=
  ![(1, 4), (1, 2), (32, 18), (32, 20), (0, 0), (0, 0), (32, 22), (32, 24), (32, 34), (32, 36),
    (256, 84), (256, 110), (256, 144), (256, 176), (256, 210), (256, 292), (256, 66), (256, 74),
    (256, 98), (256, 50), (32, 18), (256, 110), (256, 82), (256, 136), (1, 1), (1, 2), (1, 4),
    (1, 8), (1, 8), (256, 56), (1, 2), (0, 0), (0, 0), (0, 0), (256, 54), (256, 66), (0, 0), (0, 0),
    (0, 0), (32, 17), (64, 36), (128, 18)]

/-- `ggml_blck_size`. -/
def blckSize (type : GgmlType) : ℕ := (typeTraits type).1

/-- `ggml_type_size`. -/
def typeSize (type : GgmlType) : ℕ := (typeTraits type).2

/-- `ggml_tensor`, without its data. -/
structure Tensor where
  type : GgmlType
  ne : Fin 4 → ℤ
  nb : Fin 4 → ℤ

/-- `ggml_new_tensor`: the elements lie one behind the other. -/
def newTensor (type : GgmlType) (ne : Fin 4 → ℤ) : Tensor where
  type := type
  ne := ne
  nb :=
    let nb1 : ℤ := typeSize type * (ne 0 / blckSize type)
    ![typeSize type, nb1, nb1 * ne 1, nb1 * ne 1 * ne 2]

/-- `ggml_new_tensor_3d`. -/
def newTensor3d (type : GgmlType) (ne0 ne1 ne2 : ℤ) : Tensor := newTensor type ![ne0, ne1, ne2, 1]

/-- `ggml_dup_tensor`, the result of `ggml_norm` and of many other operations. -/
def dup (a : Tensor) : Tensor := newTensor a.type a.ne

/-- `ggml_nelements`. -/
def nelements (a : Tensor) : ℤ := a.ne 0 * a.ne 1 * a.ne 2 * a.ne 3

/-- `ggml_nbytes`. -/
def nbytes (a : Tensor) : ℤ :=
  if a.ne 0 ≤ 0 ∨ a.ne 1 ≤ 0 ∨ a.ne 2 ≤ 0 ∨ a.ne 3 ≤ 0 then 0
  else
    (if blckSize a.type = 1 then typeSize a.type + (a.ne 0 - 1) * a.nb 0
      else a.ne 0 * a.nb 0 / blckSize a.type) +
      (a.ne 1 - 1) * a.nb 1 + (a.ne 2 - 1) * a.nb 2 + (a.ne 3 - 1) * a.nb 3

/-- `ggml_n_dims`. -/
def nDims (a : Tensor) : ℕ :=
  if 1 < a.ne 3 then 4 else if 1 < a.ne 2 then 3 else if 1 < a.ne 1 then 2 else 1

/-- `ggml_is_contiguous`. -/
def isContiguous (a : Tensor) : Bool :=
  let next1 := (typeSize a.type : ℤ) * (a.ne 0 / blckSize a.type)
  (a.ne 0 = blckSize a.type || a.nb 0 = typeSize a.type) &&
    (a.ne 1 = 1 || a.nb 1 = next1) && (a.ne 2 = 1 || a.nb 2 = next1 * a.ne 1) &&
    (a.ne 3 = 1 || a.nb 3 = next1 * a.ne 1 * a.ne 2)

/-- `ggml_permute`: the axis `i` of the argument becomes the axis `axis i`. -/
def permute (a : Tensor) (axis0 axis1 axis2 : Fin 4) : Tensor where
  type := a.type
  ne k := if k = axis0 then a.ne 0 else if k = axis1 then a.ne 1 else if k = axis2 then a.ne 2
    else a.ne 3
  nb k := if k = axis0 then a.nb 0 else if k = axis1 then a.nb 1 else if k = axis2 then a.nb 2
    else a.nb 3

/-- `ggml_transpose`. -/
def transpose (a : Tensor) : Tensor where
  type := a.type
  ne := ![a.ne 1, a.ne 0, a.ne 2, a.ne 3]
  nb := ![a.nb 1, a.nb 0, a.nb 2, a.nb 3]

/-- `ggml_cont`. -/
def cont (a : Tensor) : Tensor := dup a

/-- `ggml_reshape_2d`. -/
def reshape2d (a : Tensor) (ne0 ne1 : ℤ) : Tensor := newTensor a.type ![ne0, ne1, 1, 1]

/-- `ggml_reshape_3d`. -/
def reshape3d (a : Tensor) (ne0 ne1 ne2 : ℤ) : Tensor := newTensor a.type ![ne0, ne1, ne2, 1]

/-- `ggml_mul_mat`. -/
def mulMat (a b : Tensor) : Tensor := newTensor .f32 ![a.ne 1, b.ne 1, b.ne 2, b.ne 3]

/-- `ggml_concat` along the third axis. -/
def concat (a b : Tensor) : Tensor :=
  newTensor a.type ![a.ne 0, a.ne 1, a.ne 2 + b.ne 2, a.ne 3]

/-- `ggml_mean`. -/
def mean (a : Tensor) : Tensor := newTensor .f32 ![1, a.ne 1, a.ne 2, a.ne 3]

/-- `ggml_view_2d`. -/
def view2d (a : Tensor) (ne0 ne1 nb1 : ℤ) : Tensor where
  type := a.type
  ne := ![ne0, ne1, 1, 1]
  nb := ![typeSize a.type, nb1, nb1 * ne1, nb1 * ne1]

@[simp] theorem ne_newTensor (type : GgmlType) (ne : Fin 4 → ℤ) : (newTensor type ne).ne = ne := rfl

@[simp] theorem type_newTensor (type : GgmlType) (ne : Fin 4 → ℤ) :
    (newTensor type ne).type = type := rfl

/-- A new tensor is contiguous. -/
theorem isContiguous_newTensor (type : GgmlType) (ne : Fin 4 → ℤ) :
    isContiguous (newTensor type ne) = true := by
  simp [isContiguous, newTensor]

end Ggml

end WhisperCpp
