import Mathlib.Algebra.Group.Int.Defs
import Mathlib.Algebra.Group.Nat.Defs
import Mathlib.Data.List.TakeDrop
import Mathlib.Order.Basic
import WhisperCpp.Fault
import WhisperCpp.Library.Reading

/-!
# Model loaders

A model is read through a `whisper_model_loader`: a function that copies bytes and one that tells
whether the end was reached. The loader of a file reaches the end when a read asks for more than
there is; the loader of a buffer reaches it with the last byte.

## Main definitions

* `ModelLoader` — what the loaders of files and buffers share
* `fileLoader`, `bufferLoader`
* `Load`, `readI32`, `readU32` — programs that load, and `read_safe`

## Main results

* `run_eq` — every loader delivers the bytes that are left
-/

namespace WhisperCpp

namespace Loader

open Reading (run fromList)

/-- Why nothing is loaded: the model is rejected, or the source does not return. -/
inductive Stop where
  | rejected
  | fault (f : Fault)
  deriving DecidableEq, Repr

/-- `whisper_model_loader`. It delivers the bytes of a stream, and a read past the last byte is seen by
`eof`. -/
structure ModelLoader (σ : Type) where
  read : ℕ → σ → List UInt8 × σ
  eof : σ → Bool
  /-- The bytes that are left; not in the source. -/
  rest : σ → List UInt8
  read_fst : ∀ n s, (read n s).1 = (rest s).take n
  rest_read : ∀ n s, rest (read n s).2 = (rest s).drop n
  eof_read : ∀ n s, (rest s).length < n → eof (read n s).2 = true

/-! ### Files -/

/-- `std::ifstream`: the bytes behind the position, and whether a read has failed, which sets `eofbit`
and `failbit` and ends the extraction of bytes. -/
structure FileStream where
  rest : List UInt8
  failed : Bool
  rest_eq_nil : failed = true → rest = []

/-- `std::ifstream::read`. -/
def FileStream.read (n : ℕ) (s : FileStream) : List UInt8 × FileStream :=
  if s.failed then ([], s)
  else if n ≤ s.rest.length then (s.rest.take n, ⟨s.rest.drop n, false, nofun⟩)
  else (s.rest, ⟨[], true, fun _ => rfl⟩)

/-- The loader of `whisper_init_from_file_with_params_no_state`. -/
def fileLoader : ModelLoader FileStream where
  read := FileStream.read
  eof s := s.failed
  rest s := s.rest
  read_fst n s := by
    rw [FileStream.read]
    split_ifs with hfailed hle
    · rw [s.rest_eq_nil hfailed, List.take_nil]
    · rfl
    · exact (List.take_of_length_le (not_le.1 hle).le).symm
  rest_read n s := by
    rw [FileStream.read]
    split_ifs with hfailed hle
    · rw [s.rest_eq_nil hfailed, List.drop_nil]
    · rfl
    · exact (List.drop_of_length_le (not_le.1 hle).le).symm
  eof_read n s h := by
    rw [FileStream.read]
    split_ifs with hfailed hle
    · exact hfailed
    · exact absurd hle (not_le.2 h)
    · rfl

/-! ### Buffers -/

/-- `buf_context`. -/
structure BufContext where
  buffer : List UInt8
  currentOffset : ℕ
  currentOffset_le : currentOffset ≤ buffer.length

/-- How many bytes a read copies. -/
def BufContext.sizeToCopy (readSize : ℕ) (buf : BufContext) : ℕ :=
  if buf.currentOffset + readSize < buf.buffer.length then readSize
  else buf.buffer.length - buf.currentOffset

/-- `loader.read` of a buffer. -/
def BufContext.read (readSize : ℕ) (buf : BufContext) : List UInt8 × BufContext :=
  ((buf.buffer.drop buf.currentOffset).take (buf.sizeToCopy readSize),
    { buf with
      currentOffset := buf.currentOffset + buf.sizeToCopy readSize
      currentOffset_le := by
        have := buf.currentOffset_le
        rw [BufContext.sizeToCopy]
        split_ifs <;> omega })

/-- The bytes behind the offset. -/
def BufContext.rest (buf : BufContext) : List UInt8 := buf.buffer.drop buf.currentOffset

theorem BufContext.sizeToCopy_eq (n : ℕ) (buf : BufContext) :
    buf.sizeToCopy n = min n buf.rest.length := by
  rw [sizeToCopy, rest, List.length_drop]
  split_ifs <;> omega

/-- The loader of `whisper_init_from_buffer_with_params_no_state`. -/
def bufferLoader : ModelLoader BufContext where
  read := BufContext.read
  eof buf := buf.buffer.length ≤ buf.currentOffset
  rest := BufContext.rest
  read_fst n buf := by
    show buf.rest.take (buf.sizeToCopy n) = _
    rw [buf.sizeToCopy_eq, ← List.take_eq_take_min]
  rest_read n buf := by
    show buf.buffer.drop (buf.currentOffset + buf.sizeToCopy n) = buf.rest.drop n
    rw [← List.drop_drop, buf.sizeToCopy_eq]
    rcases le_total n buf.rest.length with h | h
    · rw [min_eq_left h]
      rfl
    · rw [min_eq_right h, List.drop_of_length_le h]
      exact List.drop_length
  eof_read n buf h := by
    have hlen : buf.rest.length = buf.buffer.length - buf.currentOffset := List.length_drop
    rw [decide_eq_true_eq]
    show buf.buffer.length ≤ buf.currentOffset + buf.sizeToCopy n
    rw [buf.sizeToCopy_eq, min_eq_right h.le]
    omega

/-! ### Reading programs -/

/-- A program that loads. -/
abbrev Load (α : Type) := Reading UInt8 Stop α

def rejected {α : Type} : Load α := .fail .rejected

def fault {α : Type} (f : Fault) : Load α := .fail (.fault f)

/-- The number in little-endian bytes. -/
def ofBytes (bytes : List UInt8) : ℕ := bytes.foldr (fun b n => b.toNat + 256 * n) 0

/-- The four bytes of a number of 32 bits. -/
def toBytes (x : ℤ) : List UInt8 :=
  (List.range 4).map fun i => UInt8.ofNat ((x % 2 ^ 32).toNat / 256 ^ i)

/-- The value of an `int32_t`. -/
def wrap32 (x : ℤ) : ℤ := x.bmod (2 ^ 32)

/-- `read_safe` into an `uint32_t` with the given value. Bytes that are not there leave its own. -/
def readU32 (old : ℤ) : Load ℕ := do
  let bytes ← Reading.get 4
  pure (ofBytes (bytes ++ (toBytes old).drop bytes.length))

/-- `read_safe` into an `int32_t` with the given value. -/
def readI32 (old : ℤ) : Load ℤ := do
  let x ← readU32 old
  pure (wrap32 x)

variable {σ τ α : Type} {L : ModelLoader σ}

/-- The `int32_t` that starts at a state. -/
def int32At (L : ModelLoader σ) (old : ℤ) (s : σ) : ℤ :=
  wrap32 (ofBytes ((L.read 4 s).1 ++ (toBytes old).drop (L.read 4 s).1.length))

theorem run_readI32 (old : ℤ) (s : σ) :
    run L.read (readI32 old) s = (.ok (int32At L old s), (L.read 4 s).2) := by
  rw [readI32, readU32, Reading.run_bind, Reading.run_bind, Reading.run_get]
  simp only [Reading.run_pure]
  rfl

/-- Every loader delivers the bytes that are left. -/
theorem run_eq (p : Load α) (s : σ) :
    (run L.read p s).1 = (run fromList p (L.rest s)).1 ∧
      L.rest (run L.read p s).2 = (run fromList p (L.rest s)).2 :=
  Reading.run_rel (R := fun s l => L.rest s = l)
    (fun n s l h => ⟨by rw [L.read_fst, h]; rfl, by rw [L.rest_read, h]; rfl⟩) p rfl

/-- The bytes that are left behind a program are the end of those before it. -/
theorem rest_run_suffix (p : Load α) (s : σ) : L.rest (run L.read p s).2 <:+ L.rest s := by
  rw [(run_eq p s).2]
  exact Reading.run_fromList_suffix p (L.rest s)

end Loader

end WhisperCpp
