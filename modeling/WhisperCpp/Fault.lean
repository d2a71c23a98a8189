import Mathlib.Data.Nat.Notation

/-!
# What a modelled function can do instead of returning

The C++ of the repository is modelled by total functions into `Except Fault`. A recursion or a
loop whose end is not visible from its arguments takes a fuel argument; `Fault.outOfFuel` is not
an outcome of the program but of the bound, and every statement about termination says that some
fuel is enough.
-/

namespace WhisperCpp

/-- Why a modelled function does not return a value. -/
inductive Fault where
  /-- The fuel of the model ran out: the bound was too small, or the source does not terminate. -/
  | outOfFuel
  /-- The source reads outside an array, or through a null pointer. -/
  | outOfBounds
  /-- `WHISPER_ASSERT` or `GGML_ASSERT` aborts. -/
  | assertFailed
  /-- An exception leaves the library. -/
  | uncaught
  deriving DecidableEq, Repr

end WhisperCpp
