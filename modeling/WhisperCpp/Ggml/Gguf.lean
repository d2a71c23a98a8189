import WhisperCpp.Ggml.Tensor
import WhisperCpp.Library.Consumer
import WhisperCpp.Library.Literals
import WhisperCpp.Loader.Stream
import Mathlib.Data.List.Nodup
import Mathlib.Data.List.TakeWhile

/-!
# GGUF files

The files that the models of the speech recognizers and of the speech synthesizers are kept in: keys
with values, what the tensors are, and their data. A context is filled by calls, written, and read
again.

Tensors are those of `ggml_new_tensor`, whose elements lie one behind the other. Memory is not
exhausted.

## Main definitions

* `Kv`, `TensorInfo`, `Context` — a context
* `Call`, `run` — the calls that fill it
* `Invariant` — what the calls keep
* `writeOut` — what is written
* `initFromReader` — what is read

## Main results

* `Invariant.run` — every sequence of calls keeps the invariant
-/

namespace WhisperCpp

namespace Gguf

open Ggml
open Loader (ofBytes)

attribute [local instance] Literals.neZero_four Literals.lawfulBEq_bytes

/-- What happens instead of a result. -/
inductive Stop where
  /-- There is an error message, and no context. -/
  | rejected
  /-- `GGML_ASSERT` or `GGML_ABORT`. -/
  | aborted
  | divisionByZero
  deriving DecidableEq, Repr

/-! ### Contexts -/

/-- `gguf_type`. -/
inductive GgufType where
  | uint8
  | int8
  | uint16
  | int16
  | uint32
  | int32
  | float32
  | bool
  | string
  | array
  | uint64
  | int64
  | float64
  deriving DecidableEq, Repr

/-- The types, at their numbers. -/
def ggufTypes : List GgufType :=
  [.uint8, .int8, .uint16, .int16, .uint32, .int32, .float32, .bool, .string, .array, .uint64,
    .int64, .float64]

/-- The number of a type. -/
def GgufType.code (t : GgufType) : ℕ := ggufTypes.idxOf t

/-- `gguf_type_size`. -/
def GgufType.size : GgufType → ℕ
  | .uint8 | .int8 | .bool => 1
  | .uint16 | .int16 => 2
  | .uint32 | .int32 | .float32 => 4
  | .uint64 | .int64 | .float64 => 8
  | .string | .array => 0

/-- `gguf_kv`. -/
@[ext] structure Kv where
  key : List UInt8
  isArray : Bool
  type : GgufType
  data : List UInt8
  dataString : List (List UInt8)
  deriving DecidableEq

/-- `get_ne`. -/
def Kv.getNe (kv : Kv) : Except Stop ℕ :=
  if kv.type = .string then
    if kv.isArray ∨ kv.dataString.length = 1 then .ok kv.dataString.length else .error .aborted
  else if kv.data.length % kv.type.size ≠ 0 then .error .aborted
  else if kv.isArray ∨ kv.data.length / kv.type.size = 1 then .ok (kv.data.length / kv.type.size)
  else .error .aborted

/-- The value is one of the type: numbers in as many bytes as they have, bytes for `bool`s, or
strings. -/
structure Kv.Typed (kv : Kv) : Prop where
  not_array : kv.type ≠ .array
  string : kv.type = .string → kv.data = [] ∧ (kv.isArray = false → kv.dataString.length = 1)
  scalar : kv.type ≠ .string → kv.dataString = [] ∧ kv.type.size ∣ kv.data.length ∧
    (kv.isArray = false → kv.data.length = kv.type.size)
  bool : kv.type = .bool → ∀ b ∈ kv.data, b = 0 ∨ b = 1

/-- `gguf_tensor_info`. `data` is what the pointer of the tensor points to. -/
@[ext] structure TensorInfo where
  name : List UInt8
  type : GgmlType
  ne : Fin 4 → ℤ
  offset : ℕ
  data : Option (List UInt8)

/-- The tensor. -/
def TensorInfo.t (ti : TensorInfo) : Tensor := newTensor ti.type ti.ne

/-- `ggml_nbytes`. -/
def TensorInfo.nbytes (ti : TensorInfo) : ℕ := (Ggml.nbytes ti.t % 2 ^ 64).toNat

/-- `gguf_context`. `data` is the blob with the data of the tensors, if it was read. -/
@[ext] structure Context where
  version : ℕ
  kv : List Kv
  info : List TensorInfo
  alignment : ℕ
  offset : ℕ
  size : ℕ
  data : Option (List UInt8)

/-- `GGML_PAD`, of a `size_t`. The alignment is a power of 2. -/
def pad (x alignment : ℕ) : ℕ := (x + alignment - 1) % 2 ^ 64 / alignment * alignment

/-- What `strcmp` compares. -/
def cStr (s : List UInt8) : List UInt8 := s.takeWhile (· ≠ 0)

/-- The bytes of an ASCII string. -/
def ascii (s : String) : List UInt8 := s.toList.map fun c => .ofNat c.toNat

/-- `GGUF_KEY_GENERAL_ALIGNMENT`. -/
def alignmentKey : List UInt8 := ascii "general.alignment"

/-! ### Filling a context -/

/-- `gguf_init_empty`. -/
def initEmpty : Context where
  version := 3
  kv := []
  info := []
  alignment := 32
  offset := 0
  size := 0
  data := none

/-- A power of 2, as the code tests for one. -/
def IsAlignment (a : ℕ) : Prop := a ≠ 0 ∧ a &&& (a - 1) = 0

instance (a : ℕ) : Decidable (IsAlignment a) := inferInstanceAs (Decidable (_ ∧ _))

/-- `gguf_remove_key`. -/
def removeKey (key : List UInt8) (c : Context) : Context :=
  { c with kv := c.kv.eraseP fun kv => cStr kv.key = key }

/-- `gguf_set_val_*`, `gguf_set_arr_data` and `gguf_set_arr_str`. -/
def setKv (kv : Kv) (c : Context) : Except Stop Context :=
  if kv.key = alignmentKey ∧
      ¬ (kv.type = .uint32 ∧ kv.isArray = false ∧ IsAlignment (ofBytes kv.data)) then
    .error .aborted
  else if kv.key = [] then .error .aborted
  else .ok { removeKey kv.key c with kv := (removeKey kv.key c).kv ++ [kv] }

/-- The offset behind a tensor. -/
def nextOffset (alignment : ℕ) (ti : TensorInfo) : ℕ :=
  (ti.offset + pad ti.nbytes alignment) % 2 ^ 64

/-- `gguf_add_tensor`. -/
def addTensor (name : List UInt8) (type : GgmlType) (ne : Fin 4 → ℤ) (data : Option (List UInt8))
    (c : Context) : Except Stop Context :=
  if name ∈ c.info.map TensorInfo.name then .error .aborted
  else
    let offset := (c.info.getLast?.map (nextOffset c.alignment)).getD 0
    .ok { c with info := c.info ++ [⟨name, type, ne, offset, data⟩] }

/-- The offsets behind a tensor, one after another. -/
def reoffset (alignment : ℕ) : TensorInfo → List TensorInfo → List TensorInfo
  | _, [] => []
  | prev, ti :: rest =>
    let ti' := { ti with offset := nextOffset alignment prev }
    ti' :: reoffset alignment ti' rest

/-- The loops of `gguf_set_tensor_type`. -/
def retype (alignment : ℕ) (name : List UInt8) (type : GgmlType) :
    List TensorInfo → Except Stop (List TensorInfo)
  | [] => .error .aborted
  | ti :: rest =>
    if ti.name = name then
      if blckSize type = 0 then .error .divisionByZero
      else if ti.ne 0 % blckSize type ≠ 0 then .error .aborted
      else .ok ({ ti with type := type } :: reoffset alignment { ti with type := type } rest)
    else (retype alignment name type rest).map fun rest => ti :: rest

/-- `gguf_set_tensor_type`. -/
def setTensorType (name : List UInt8) (type : GgmlType) (c : Context) : Except Stop Context :=
  (retype c.alignment name type c.info).map fun info => { c with info := info }

/-- The loop of `gguf_set_tensor_data`. -/
def redata (name data : List UInt8) : List TensorInfo → Except Stop (List TensorInfo)
  | [] => .error .aborted
  | ti :: rest =>
    if ti.name = name then .ok ({ ti with data := some data } :: rest)
    else (redata name data rest).map fun rest => ti :: rest

/-- `gguf_set_tensor_data`. -/
def setTensorData (name data : List UInt8) (c : Context) : Except Stop Context :=
  (redata name data c.info).map fun info => { c with info := info }

/-- A call on a context. Keys and names are `const char *`, and a name is the array in a tensor. -/
inductive Call where
  | setKv (kv : Kv) (key_ne_zero : 0 ∉ kv.key) (typed : kv.Typed)
  | removeKey (key : List UInt8) (key_ne_zero : 0 ∉ key)
  | addTensor (name : List UInt8) (type : GgmlType) (ne : Fin 4 → ℤ) (data : Option (List UInt8))
      (name_ne_zero : 0 ∉ name) (length_name : name.length < 64)
  | setTensorType (name : List UInt8) (type : GgmlType)
  | setTensorData (name data : List UInt8)

/-- What a call does. -/
def Call.apply : Call → Context → Except Stop Context
  | setKv kv _ _, c => Gguf.setKv kv c
  | removeKey key _, c => .ok (Gguf.removeKey key c)
  | addTensor name type ne data _ _, c => Gguf.addTensor name type ne data c
  | setTensorType name type, c => Gguf.setTensorType name type c
  | setTensorData name data, c => Gguf.setTensorData name data c

/-- Calls, one after another. -/
def run (calls : List Call) (c : Context) : Except Stop Context :=
  calls.foldlM (fun c call => call.apply c) c

/-! ### Writing -/

/-- The bytes of a number, the low one first. -/
def leBytes : ℕ → ℕ → List UInt8
  | 0, _ => []
  | k + 1, x => .ofNat x :: leBytes k (x / 256)

/-- A string behind its length. -/
def writeString (s : List UInt8) : List UInt8 := leBytes 8 s.length ++ s

/-- A `bool` in memory, as it is written. -/
def boolByte (b : UInt8) : UInt8 := if b ≠ 0 then 1 else 0

/-- `write` of a `gguf_kv`. -/
def writeKv (kv : Kv) : Except Stop (List UInt8) := do
  let ne ← kv.getNe
  let head := writeString kv.key ++
    if kv.isArray then leBytes 4 GgufType.array.code ++ leBytes 4 kv.type.code ++ leBytes 8 ne
    else leBytes 4 kv.type.code
  match kv.type with
  | .array => .error .aborted
  | .string => .ok (head ++ kv.dataString.flatMap writeString)
  | .bool => .ok (head ++ kv.data.map boolByte)
  | _ => .ok (head ++ kv.data)

/-- `write_tensor_meta`. -/
def writeTensorMeta (ti : TensorInfo) : List UInt8 :=
  writeString ti.name ++ leBytes 4 (nDims ti.t) ++
    (((List.finRange 4).take (nDims ti.t)).flatMap fun j => leBytes 8 (ti.ne j % 2 ^ 64).toNat) ++
    leBytes 4 ti.type ++ leBytes 8 ti.offset

/-- `pad`: zeros, up to the alignment. -/
def padOut (alignment : ℕ) (out : List UInt8) : List UInt8 :=
  out ++ List.replicate ((alignment - out.length % alignment) % alignment) 0

/-- `write_tensor_data`. -/
def writeTensorData (offsetData alignment : ℕ) (out : List UInt8) (ti : TensorInfo) :
    Except Stop (List UInt8) :=
  if out.length - offsetData ≠ ti.offset then .error .aborted
  else
    match ti.data with
    | none => .error .aborted
    | some data => .ok (padOut alignment (out ++ data.take ti.nbytes))

/-- What is written in front of the data. -/
def writeMeta (c : Context) : Except Stop (List UInt8) := do
  let kvs ← c.kv.mapM writeKv
  return ascii "GGUF" ++ leBytes 4 c.version ++ leBytes 8 c.info.length ++ leBytes 8 c.kv.length ++
    kvs.flatten ++ c.info.flatMap writeTensorMeta

/-- `gguf_write_to_buf`, with the data. -/
def writeOut (c : Context) : Except Stop (List UInt8) := do
  let head ← writeMeta c
  let out := padOut c.alignment head
  c.info.foldlM (writeTensorData out.length c.alignment) out

/-! ### Reading -/

/-- A reader of a buffer. -/
abbrev Reader (α : Type) := Consumer UInt8 Stop α

/-- An unsigned number. -/
def readNum (k : ℕ) : Reader ℕ := do
  let bytes ← Consumer.take .rejected k
  return ofBytes bytes

/-- An `int64_t`. -/
def readI64 : Reader ℤ := do
  let x ← readNum 8
  return (x : ℤ).bmod (2 ^ 64)

/-- A string of not more than `GGUF_MAX_STRING_LENGTH` bytes. -/
def readString : Reader (List UInt8) := do
  let size ← readNum 8
  if 2 ^ 30 < size then Consumer.fail .rejected else Consumer.take .rejected size

/-- A vector of not more than `GGUF_MAX_ARRAY_ELEMENTS` elements, each of which has at least `size`
bytes. -/
def readVector (elem : Reader (List UInt8)) (size n : ℕ) : Reader (List (List UInt8)) :=
  if 2 ^ 30 < n then Consumer.fail .rejected
  else do
    Consumer.need .rejected (n * size)
    Consumer.collect (fun _ => elem) n []

/-- A value, or an array of values. -/
def readValues (elem : Reader (List UInt8)) (size : ℕ) (isArray : Bool) (n : ℕ) :
    Reader (List (List UInt8)) :=
  if isArray then readVector elem size n
  else do
    let v ← elem
    return [v]

/-- The elements of a value of each type. -/
def readElements (key : List UInt8) (isArray : Bool) (n : ℕ) : GgufType → Reader Kv
  | .array => Consumer.fail .rejected
  | .string => do
    let strings ← readValues readString 8 isArray n
    return ⟨key, isArray, .string, [], strings⟩
  | .bool => do
    let parts ← readValues (Consumer.take .rejected 1) 1 isArray n
    return ⟨key, isArray, .bool, parts.flatten.map boolByte, []⟩
  | type => do
    let parts ← readValues (Consumer.take .rejected type.size) type.size isArray n
    return ⟨key, isArray, type, parts.flatten, []⟩

/-- `gguf_read_emplace_helper`. The constructor of `gguf_kv` asserts that there is a key. -/
def readEmplace (key : List UInt8) (isArray : Bool) (type : GgufType) (n : ℕ) : Reader Kv := do
  let kv ← readElements key isArray n type
  if key = [] then Consumer.fail .aborted else return kv

/-- One of the pairs, behind others. -/
def readKv (previous : List Kv) : Reader Kv := do
  let key ← readString
  if key ∈ previous.map Kv.key then Consumer.fail .rejected
  else do
    let code ← readNum 4
    match ggufTypes[code]? with
    | none => Consumer.fail .rejected
    | some .array => do
      let code ← readNum 4
      let n ← readNum 8
      match ggufTypes[code]? with
      | none => Consumer.fail .rejected
      | some type => readEmplace key true type n
    | some type => readEmplace key false type 1

/-- The alignment in the pairs, or `GGUF_DEFAULT_ALIGNMENT`. -/
def getAlignment (kv : List Kv) : Except Stop ℕ :=
  match kv.find? fun kv => cStr kv.key = alignmentKey with
  | none => .ok 32
  | some kv => do
    let ne ← kv.getNe
    if ne ≠ 1 ∨ kv.type ≠ .uint32 then .error .aborted else .ok (ofBytes kv.data)

/-- The alignment has to be a power of 2. -/
def findAlignment (kv : List Kv) : Except Stop ℕ := do
  let alignment ← getAlignment kv
  if IsAlignment alignment then .ok alignment else .error .rejected

/-- The number of elements has to be representable. The divisions are those of the source. -/
def checkElements (ne : Fin 4 → ℤ) : Except Stop Unit :=
  if ne 1 = 0 then .error .divisionByZero
  else if (2 ^ 63 - 1) / ne 1 ≤ ne 0 then .error .rejected
  else if ne 2 = 0 then .error .divisionByZero
  else if (2 ^ 63 - 1) / ne 2 ≤ ne 0 * ne 1 then .error .rejected
  else if ne 3 = 0 then .error .divisionByZero
  else if (2 ^ 63 - 1) / ne 3 ≤ ne 0 * ne 1 * ne 2 then .error .rejected
  else .ok ()

/-- The size of the tensor has to fit its type. -/
def checkType (type : GgmlType) (ne : Fin 4 → ℤ) : Except Stop Unit :=
  if blckSize type = 0 ∨ ne 0 % blckSize type ≠ 0 then .error .rejected
  else if (2 ^ 64 - 1) / (typeSize type : ℤ) < ne 0 * ne 1 * ne 2 * ne 3 / blckSize type then
    .error .rejected
  else .ok ()

/-- An outcome as a reader. -/
def lift {α : Type} (x : Except Stop α) : Reader α := fun s => x.map fun a => (a, s)

/-- A length of a tensor. -/
def readDim : Reader ℤ := do
  let x ← readI64
  if x < 0 then Consumer.fail .rejected else return x

/-- One of the tensors, behind others. -/
def readTensorInfo (previous : List TensorInfo) : Reader TensorInfo := do
  let name ← readString
  if 64 ≤ name.length then Consumer.fail .rejected
  else if cStr name ∈ previous.map TensorInfo.name then Consumer.fail .rejected
  else do
    let nDims ← readNum 4
    if 4 < nDims then Consumer.fail .rejected
    else do
      let dims ← Consumer.collect (fun _ => readDim) nDims []
      let ne : Fin 4 → ℤ := fun j => dims.getD j 1
      lift (checkElements ne)
      let type ← readNum 4
      if h : type < 42 then do
        lift (checkType ⟨type, h⟩ ne)
        let offset ← readNum 8
        return ⟨cStr name, ⟨type, h⟩, ne, offset, none⟩
      else Consumer.fail .rejected

/-- The size of the data. Every tensor has to be where the ones before it end. -/
def dataSize (alignment : ℕ) : ℕ → List TensorInfo → Except Stop ℕ
  | size, [] => .ok size
  | size, ti :: rest =>
    if ti.offset ≠ size then .error .rejected
    else if 2 ^ 64 - 1 - size < pad ti.nbytes alignment then .error .rejected
    else dataSize alignment (size + pad ti.nbytes alignment) rest

/-- The version of a file. -/
def readVersion : Reader ℕ := do
  let version ← readNum 4
  if version = 0 ∨ version &&& 0xFFFF = 0 ∨ version = 1 ∨ 3 < version then Consumer.fail .rejected
  else return version

/-- A number of things of a size. -/
def readCount (size : ℕ) : Reader ℕ := do
  let n ← readI64
  if n < 0 ∨ (2 ^ 64 - 1) / size < n.toNat then Consumer.fail .rejected else return n.toNat

/-- `sizeof(gguf_tensor_info)`, where a pointer has 8 bytes. -/
def sizeofTensorInfo : ℕ := 344

/-- `sizeof(gguf_kv)`, where a `std::string` has 32 bytes. -/
def sizeofKv : ℕ := 88

/-- What is in front of the data. -/
def readMeta : Reader Context := do
  let magic ← Consumer.take .rejected 4
  if magic ≠ ascii "GGUF" then Consumer.fail .rejected
  else do
    let version ← readVersion
    let nTensors ← readCount sizeofTensorInfo
    let nKv ← readCount sizeofKv
    let kv ← Consumer.collect readKv nKv []
    let alignment ← lift (findAlignment kv)
    let info ← Consumer.collect readTensorInfo nTensors []
    return ⟨version, kv, info, alignment, 0, 0, none⟩

/-- To where the data are, if there are tensors. -/
def seekData (c : Context) : Reader Unit := do
  let front ← Consumer.tell
  if 0 < c.info.length then Consumer.seek .rejected (pad front c.alignment) else pure ()

/-- The data. -/
def readData (c : Context) : Reader Context := do
  seekData c
  let offset ← Consumer.tell
  let size ← lift (dataSize c.alignment 0 c.info)
  let data ← Consumer.take .rejected size
  return { c with offset := offset, size := size, data := some data }

/-- `gguf_init_from_reader`, of a buffer, with the data. -/
def initFromReader : Reader Context := do
  let c ← readMeta
  readData c

/-- `gguf_init_from_buffer`. -/
def initFromBuffer (buf : List UInt8) : Except Stop Context :=
  if buf = [] then .error .rejected else (initFromReader (0, buf)).map Prod.fst

/-! ### The invariant -/

/-- The offsets of tensors behind data of a size, which are numbers of 64 bits. -/
def Contiguous (alignment : ℕ) : ℕ → List TensorInfo → Prop
  | _, [] => True
  | size, ti :: rest =>
    ti.offset = size % 2 ^ 64 ∧ Contiguous alignment (size + pad ti.nbytes alignment) rest

/-- The size of the data. -/
def totalSize (alignment : ℕ) (info : List TensorInfo) : ℕ :=
  (info.map fun ti => pad ti.nbytes alignment).sum

/-- What the calls keep. -/
structure Invariant (c : Context) : Prop where
  keys : (c.kv.map Kv.key).Nodup
  kv : ∀ kv ∈ c.kv, kv.key ≠ [] ∧ 0 ∉ kv.key ∧ kv.Typed
  alignmentKv : ∀ kv ∈ c.kv, kv.key = alignmentKey →
    kv.type = .uint32 ∧ kv.isArray = false ∧ IsAlignment (ofBytes kv.data)
  names : (c.info.map TensorInfo.name).Nodup
  name : ∀ ti ∈ c.info, 0 ∉ ti.name ∧ ti.name.length < 64
  offsets : Contiguous c.alignment 0 c.info

section Offsets

variable {alignment size : ℕ} {ti : TensorInfo} {l rest : List TensorInfo}

theorem contiguous_concat : Contiguous alignment size (l ++ [ti]) ↔
    Contiguous alignment size l ∧ ti.offset = (size + totalSize alignment l) % 2 ^ 64 := by
  induction l generalizing size with
  | nil => simp [Contiguous, totalSize]
  | cons t l ih =>
    simp only [List.cons_append, Contiguous, ih, and_assoc, totalSize, List.map_cons, List.sum_cons,
      Nat.add_assoc]

/-- Behind the last tensor the data ends. -/
theorem nextOffset_getLast (h : Contiguous alignment size l) (hlast : ti ∈ l.getLast?) :
    nextOffset alignment ti = (size + totalSize alignment l) % 2 ^ 64 := by
  obtain ⟨front, rfl⟩ := List.getLast?_eq_some_iff.mp hlast
  have hoff := (contiguous_concat.mp h).2
  rw [nextOffset, hoff, Nat.mod_add_mod, totalSize, totalSize, List.map_append, List.sum_append,
    List.map_singleton, List.sum_singleton, Nat.add_assoc]

theorem contiguous_reoffset (hoff : ti.offset = size % 2 ^ 64) :
    Contiguous alignment (size + pad ti.nbytes alignment) (reoffset alignment ti rest) := by
  induction rest generalizing ti size with
  | nil => trivial
  | cons t rest ih =>
    have hnext : nextOffset alignment ti = (size + pad ti.nbytes alignment) % 2 ^ 64 := by
      rw [nextOffset, hoff, Nat.mod_add_mod]
    exact ⟨hnext, ih hnext⟩

theorem map_name_reoffset :
    (reoffset alignment ti rest).map TensorInfo.name = rest.map TensorInfo.name := by
  induction rest generalizing ti with
  | nil => rfl
  | cons t rest ih => rw [reoffset, List.map_cons, List.map_cons, ih]

/-- A tensor of another type, and the ones behind it. -/
theorem contiguous_retype {name : List UInt8} {type : GgmlType} {l' : List TensorInfo}
    (h : Contiguous alignment size l) (hl' : retype alignment name type l = .ok l') :
    Contiguous alignment size l' ∧ l'.map TensorInfo.name = l.map TensorInfo.name := by
  induction l generalizing size l' with
  | nil => cases hl'
  | cons t l ih =>
    rw [retype] at hl'
    split_ifs at hl' with hname
    · cases hl'
      refine ⟨⟨h.1, contiguous_reoffset h.1⟩, ?_⟩
      rw [List.map_cons, List.map_cons, map_name_reoffset]
    · cases hrest : retype alignment name type l with
      | error e =>
        rw [hrest] at hl'
        cases hl'
      | ok rest =>
        rw [hrest] at hl'
        cases hl'
        obtain ⟨hcont, hnames⟩ := ih h.2 hrest
        exact ⟨⟨h.1, hcont⟩, by rw [List.map_cons, List.map_cons, hnames]⟩

theorem contiguous_redata {name data : List UInt8} {l' : List TensorInfo}
    (h : Contiguous alignment size l) (hl' : redata name data l = .ok l') :
    Contiguous alignment size l' ∧ l'.map TensorInfo.name = l.map TensorInfo.name := by
  induction l generalizing size l' with
  | nil => cases hl'
  | cons t l ih =>
    rw [redata] at hl'
    split_ifs at hl' with hname
    · cases hl'
      exact ⟨h, rfl⟩
    · cases hrest : redata name data l with
      | error e =>
        rw [hrest] at hl'
        cases hl'
      | ok rest =>
        rw [hrest] at hl'
        cases hl'
        obtain ⟨hcont, hnames⟩ := ih h.2 hrest
        exact ⟨⟨h.1, hcont⟩, by rw [List.map_cons, List.map_cons, hnames]⟩

/-- Offsets are numbers of 64 bits. -/
theorem offset_lt (h : Contiguous alignment size l) (hti : ti ∈ l) : ti.offset < 2 ^ 64 := by
  induction l generalizing size with
  | nil => cases hti
  | cons t l ih =>
    rcases List.mem_cons.mp hti with rfl | hmem
    · rw [h.1]
      exact Nat.mod_lt _ (by decide)
    · exact ih h.2 hmem

end Offsets

section Calls

variable {c c' : Context} {kv : Kv}

theorem cStr_eq {s : List UInt8} (h : 0 ∉ s) : cStr s = s := by
  rw [cStr, List.takeWhile_eq_self_iff]
  intro b hb
  simp only [decide_eq_true_eq]
  rintro rfl
  exact h hb

theorem Invariant.removeKey (h : Invariant c) (key : List UInt8) : Invariant (removeKey key c) where
  keys := (List.eraseP_sublist.map Kv.key).nodup h.keys
  kv := fun kv hkv => h.kv kv (List.mem_of_mem_eraseP hkv)
  alignmentKv := fun kv hkv => h.alignmentKv kv (List.mem_of_mem_eraseP hkv)
  names := h.names
  name := h.name
  offsets := h.offsets

/-- A key that is removed is not there. -/
theorem not_mem_removeKey (h : Invariant c) (key : List UInt8) :
    key ∉ (Gguf.removeKey key c).kv.map Kv.key := by
  intro hmem
  obtain ⟨kv, hkv, rfl⟩ := List.mem_map.mp hmem
  have hin := List.mem_of_mem_eraseP hkv
  have hstr : cStr kv.key = kv.key := cStr_eq (h.kv kv hin).2.1
  obtain ⟨x, l₁, l₂, hl₁, hx, hl, herase⟩ :=
    List.exists_of_eraseP (p := fun x => cStr x.key = kv.key) hin (by simp [hstr])
  have hnodup := h.keys
  rw [hl, List.map_append, List.map_cons, List.nodup_append] at hnodup
  have hkey : x.key = kv.key := by
    have hxin : x ∈ c.kv := by
      rw [hl]
      exact List.mem_append_right _ List.mem_cons_self
    rw [← cStr_eq (h.kv x hxin).2.1]
    simpa using hx
  rw [Gguf.removeKey, herase, List.mem_append] at hkv
  rcases hkv with hkv | hkv
  · exact hl₁ kv hkv (by simp [hstr])
  · have hnot := (List.nodup_cons.mp hnodup.2.1).1
    rw [hkey] at hnot
    exact hnot (List.mem_map_of_mem hkv)

theorem Invariant.setKv (h : Invariant c) (hzero : 0 ∉ kv.key) (htyped : kv.Typed)
    (hset : setKv kv c = .ok c') : Invariant c' := by
  rw [Gguf.setKv] at hset
  split_ifs at hset with halign hkey
  cases hset
  have hrem := h.removeKey kv.key
  refine ⟨?_, ?_, ?_, hrem.names, hrem.name, hrem.offsets⟩
  · rw [List.map_append, List.map_singleton]
    exact List.nodup_append.mpr ⟨hrem.keys, List.nodup_singleton _, fun a ha b hb heq => by
      rw [heq, List.mem_singleton.mp hb] at ha
      exact not_mem_removeKey h kv.key ha⟩
  · intro x hx
    rcases List.mem_append.mp hx with hx | hx
    · exact hrem.kv x hx
    · rw [List.mem_singleton.mp hx]
      exact ⟨hkey, hzero, htyped⟩
  · intro x hx
    rcases List.mem_append.mp hx with hx | hx
    · exact hrem.alignmentKv x hx
    · rw [List.mem_singleton.mp hx]
      intro heq
      by_contra hnot
      exact halign ⟨heq, hnot⟩

theorem Invariant.addTensor {name : List UInt8} {type : GgmlType} {ne : Fin 4 → ℤ}
    {data : Option (List UInt8)} (h : Invariant c) (hzero : 0 ∉ name) (hlen : name.length < 64)
    (hadd : addTensor name type ne data c = .ok c') : Invariant c' := by
  rw [Gguf.addTensor] at hadd
  split_ifs at hadd with hname
  cases hadd
  refine ⟨h.keys, h.kv, h.alignmentKv, ?_, ?_, ?_⟩
  · rw [List.map_append, List.map_singleton]
    exact List.nodup_append.mpr ⟨h.names, List.nodup_singleton _, fun a ha b hb heq => by
      rw [heq, List.mem_singleton.mp hb] at ha
      exact hname ha⟩
  · intro x hx
    rcases List.mem_append.mp hx with hx | hx
    · exact h.name x hx
    · rw [List.mem_singleton.mp hx]
      exact ⟨hzero, hlen⟩
  · refine contiguous_concat.mpr ⟨h.offsets, ?_⟩
    cases hlast : c.info.getLast? with
    | none =>
      rw [List.getLast?_eq_none_iff.mp hlast]
      rfl
    | some ti =>
      have hnext := nextOffset_getLast h.offsets (Option.mem_def.mpr hlast)
      rw [Option.map_some, Option.getD_some, hnext]

/-- Other tensors with the same names. -/
theorem Invariant.withInfo {info : List TensorInfo} (h : Invariant c)
    (hcont : Contiguous c.alignment 0 info)
    (hnames : info.map TensorInfo.name = c.info.map TensorInfo.name) :
    Invariant { c with info := info } where
  keys := h.keys
  kv := h.kv
  alignmentKv := h.alignmentKv
  names := hnames ▸ h.names
  name := by
    intro ti hti
    have hmem : ti.name ∈ c.info.map TensorInfo.name := hnames ▸ List.mem_map_of_mem hti
    obtain ⟨x, hx, heq⟩ := List.mem_map.mp hmem
    rw [← heq]
    exact h.name x hx
  offsets := hcont

/-- **A call keeps the invariant.** -/
theorem Invariant.apply (h : Invariant c) (call : Call) (hcall : call.apply c = .ok c') :
    Invariant c' := by
  cases call with
  | setKv kv hzero htyped => exact h.setKv hzero htyped hcall
  | removeKey key hzero =>
    cases hcall
    exact h.removeKey key
  | addTensor name type ne data hzero hlen => exact h.addTensor hzero hlen hcall
  | setTensorType name type =>
    cases hinfo : retype c.alignment name type c.info with
    | error e =>
      rw [Call.apply, setTensorType, hinfo] at hcall
      cases hcall
    | ok info =>
      rw [Call.apply, setTensorType, hinfo] at hcall
      cases hcall
      obtain ⟨hcont, hnames⟩ := contiguous_retype h.offsets hinfo
      exact h.withInfo hcont hnames
  | setTensorData name data =>
    cases hinfo : redata name data c.info with
    | error e =>
      rw [Call.apply, setTensorData, hinfo] at hcall
      cases hcall
    | ok info =>
      rw [Call.apply, setTensorData, hinfo] at hcall
      cases hcall
      obtain ⟨hcont, hnames⟩ := contiguous_redata h.offsets hinfo
      exact h.withInfo hcont hnames

theorem invariant_initEmpty : Invariant initEmpty where
  keys := List.nodup_nil
  kv := nofun
  alignmentKv := nofun
  names := List.nodup_nil
  name := nofun
  offsets := trivial

/-- **Every sequence of calls keeps the invariant.** -/
theorem Invariant.run (h : Invariant c) (calls : List Call) (hrun : run calls c = .ok c') :
    Invariant c' := by
  induction calls generalizing c with
  | nil =>
    cases hrun
    exact h
  | cons call calls ih =>
    rw [Gguf.run, List.foldlM_cons] at hrun
    cases hcall : call.apply c with
    | error e =>
      rw [hcall] at hrun
      cases hrun
    | ok c₁ =>
      rw [hcall] at hrun
      exact ih (h.apply call hcall) hrun

end Calls

end Gguf

end WhisperCpp
