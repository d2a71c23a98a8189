import Mathlib.Algebra.GroupWithZero.Nat
import Mathlib.Data.Nat.Init
import Mathlib.Data.Nat.Notation

/-!
# Literals, and how lists of bytes are compared

Instances by name. Where they are local instances, a definition holds no proof of its own for the
literals in it.
-/

namespace Literals

theorem atLeastTwo_two : Nat.AtLeastTwo 2 := inferInstance

theorem atLeastTwo_three : Nat.AtLeastTwo 3 := inferInstance

theorem atLeastTwo_five : Nat.AtLeastTwo 5 := inferInstance

theorem atLeastTwo_ten : Nat.AtLeastTwo 10 := inferInstance

theorem atLeastTwo_twenty : Nat.AtLeastTwo 20 := inferInstance

theorem atLeastTwo_thirty : Nat.AtLeastTwo 30 := inferInstance

theorem atLeastTwo_hundred : Nat.AtLeastTwo 100 := inferInstance

theorem neZero_four : NeZero 4 := inferInstance

theorem neZero_fortyTwo : NeZero 42 := inferInstance

theorem lawfulBEq_bytes : LawfulBEq (List UInt8) := inferInstance

end Literals
