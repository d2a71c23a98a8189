import WhisperCpp.Chatterbox.Json
import WhisperCpp.Chatterbox.SplitText
import WhisperCpp.Library.DigitRuns
import WhisperCpp.Library.Search

/-!
# Arrays in files

`npy_save` writes an array behind a header that says what it is, and `npy_load` searches the header
for it. A read that meets the end of the file leaves the rest of its buffer as it was, and nobody
looks whether one did.

A vector has fewer than `2 ^ 63` bytes. The text of the dtype has no quote.

## Main definitions

* `NpyArray`, `NpyError`
* `npySave`
* `streamRead` — a read
* `readHeader`, `findValue`, `scanShape` — the header
* `npyRead`, `npyLoad`

## Main results

* `findValue_eq_error` — a header without a key
* `npyData_eq_error_iff`, `npyData_of_not_refused` — when a shape is refused
-/

namespace WhisperCpp

namespace Chatterbox

open Search DigitRuns

/-! ### Writing -/

/-- `npy_array`. -/
@[ext] structure NpyArray where
  shape : List ℤ
  dtype : List UInt8
  data : List UInt8
deriving DecidableEq

/-- What is thrown. -/
inductive NpyError where
  | runtimeError (what : String)
  /-- By `std::stoll`. -/
  | outOfRange
  /-- By `resize`. -/
  | lengthError

/-- `n_elements`. -/
def nElements (shape : List ℤ) : ℕ := shape.foldl (fun n d => n * (d % 2 ^ 64).toNat % 2 ^ 64) 1

/-- `std::to_string`. -/
def toDecimal (d : ℤ) : List UInt8 := (if d < 0 then [45] else []) ++ decimal d.natAbs

/-- The dimensions with commas. A single one has a comma, too. -/
def shapeDims (single : Bool) : List ℤ → List UInt8
  | [] => []
  | d :: rest =>
    toDecimal d ++ (if single || rest ≠ [] then [44] else []) ++ (if rest ≠ [] then [32] else []) ++
      shapeDims single rest

/-- What is between the parentheses of the shape. -/
def shapeText (shape : List ℤ) : List UInt8 := shapeDims (shape.length = 1) shape

/-- The header up to `'shape'`. -/
def headerFront (dtype : List UInt8) : List UInt8 :=
  bytesOf "\x7b'descr': '" ++ dtype ++ bytesOf "', 'fortran_order': False, 'shape'"

/-- The header without padding. -/
def headerDict (dtype : List UInt8) (shape : List ℤ) : List UInt8 :=
  headerFront dtype ++ (bytesOf ": (" ++ shapeText shape ++ bytesOf "), \x7d")

/-- The header. With the 10 bytes in front it is a multiple of 64 bytes. -/
def npyHeader (dtype : List UInt8) (shape : List ℤ) : List UInt8 :=
  let header := headerDict dtype shape
  header ++ List.replicate ((64 - (10 + header.length + 1) % 64) % 64) 32 ++ [10]

/-- `\x93NUMPY`. -/
def npyMagic : List UInt8 := 0x93 :: bytesOf "NUMPY"

/-- What is written in front of a header. -/
def preamble (length : ℕ) : List UInt8 :=
  npyMagic ++ [1, 0] ++ [.ofNat length, .ofNat (length >>> 8)]

/-- `npy_save`: what is in the file. `elem_size` times the elements are read from `data`. -/
def npySave (dtype : List UInt8) (shape : List ℤ) (data : List UInt8) (elemSize : ℕ) :
    Except NpyError (List UInt8) :=
  let header := npyHeader dtype shape
  if 0xFFFF < header.length then
    .error (.runtimeError "npy_save: header too large for v1.0 format")
  else
    .ok (preamble header.length ++ header ++ data.take (nElements shape * elemSize % 2 ^ 64))

/-! ### Reading -/

/-- `f.read`: what is in the buffer afterwards, and what is left to read. -/
def streamRead (buf rest : List UInt8) : List UInt8 × List UInt8 :=
  (rest.take buf.length ++ buf.drop rest.length, rest.drop buf.length)

/-- What the variables of `npy_load` hold before something is read into them. -/
structure Uninitialized where
  magic : Vector UInt8 6
  major : UInt8
  minor : UInt8
  shortLength : Vector UInt8 2
  longLength : Vector UInt8 4

/-- A number with its low byte first. -/
def littleEndian (bytes : List UInt8) : ℕ := bytes.foldr (fun b v => b.toNat + 256 * v) 0

/-- The value behind a colon. What is not ended goes up to the end of the header. -/
def valueText (rest : List UInt8) : List UInt8 :=
  match rest.dropWhile isWs with
  | 39 :: rest => rest.takeWhile (· ≠ 39)
  | 40 :: rest => rest.takeWhile (· ≠ 41)
  | rest => rest.takeWhile fun c => c ≠ 44 && c ≠ 125

/-- `find_value`. -/
def findValue (header : List UInt8) (key : String) : Except NpyError (List UInt8) :=
  match findSub ([39] ++ bytesOf key ++ [39]) header with
  | none => .error (.runtimeError ("npy_load: missing key " ++ key))
  | some p =>
    match findSub [58] (header.drop p) with
    -- without a colon `find` returns `npos`, and `npos + 1` is 0
    | none => .ok (valueText header)
    | some q => .ok (valueText (header.drop (p + q + 1)))

/-- An array in Fortran order is refused. -/
def checkFortranOrder (path : String) (header : List UInt8) : Except NpyError Unit :=
  match findSub (bytesOf "fortran_order") header with
  | none => .ok ()
  | some p =>
    match findSub [58] (header.drop p) with
    | none => .ok ()
    | some q =>
      if ((header.drop (p + q + 1)).dropWhile isWs).take 4 = bytesOf "True" then
        .error (.runtimeError ("npy_load: fortran_order=True not supported for " ++ path ++
          " — re-save with np.ascontiguousarray(...)"))
      else .ok ()

/-- `std::stoll` of digits. -/
def stoll (run : List UInt8) : Except NpyError ℤ :=
  if 2 ^ 63 ≤ value run then .error .outOfRange else .ok (value run)

/-- The numbers in the text of a shape. -/
def scanShape (text : List UInt8) : Except NpyError (List ℤ) := (digitRuns text).mapM stoll

/-- The bytes of an element. -/
def elemSizeOf (dtype : List UInt8) : ℕ :=
  if dtype = bytesOf "<f4" ∨ dtype = bytesOf "<i4" ∨ dtype = bytesOf "<u4" then 4
  else if dtype = bytesOf "<f8" ∨ dtype = bytesOf "<i8" then 8
  else if dtype = bytesOf "|b1" then 1
  else if dtype = bytesOf "<f2" ∨ dtype = bytesOf "<i2" ∨ dtype = bytesOf "<u2" then 2
  else if dtype = bytesOf "|i1" ∨ dtype = bytesOf "|u1" then 1
  else 4

/-- The bytes of an array. -/
def dataSize (dtype : List UInt8) (shape : List ℤ) : ℕ := nElements shape * elemSizeOf dtype % 2 ^ 64

/-- The array, with the text of its shape. -/
def npyData (dtype text rest : List UInt8) : Except NpyError NpyArray :=
  match scanShape text with
  | .error e => .error e
  | .ok shape =>
    if 2 ^ 63 ≤ dataSize dtype shape then .error .lengthError
    else .ok ⟨shape, dtype, (streamRead (List.replicate (dataSize dtype shape) 0) rest).1⟩

/-- What is done behind the header. -/
def npyBody (path : String) (header rest : List UInt8) : Except NpyError NpyArray := do
  let dtype ← findValue header "descr"
  checkFortranOrder path header
  let shapeStr ← findValue header "shape"
  npyData dtype shapeStr rest

/-- What is read in front of the data: the header, and what is behind it. There is none behind a wrong
magic. -/
def readHeader (junk : Uninitialized) (file : List UInt8) : Option (List UInt8 × List UInt8) :=
  let (magic, rest) := streamRead junk.magic.toList file
  if magic ≠ npyMagic then none
  else
    let (major, rest) := streamRead [junk.major] rest
    let (_, rest) := streamRead [junk.minor] rest
    let (headerLen, rest) :=
      if major = [1] then streamRead junk.shortLength.toList rest
      else streamRead junk.longLength.toList rest
    some (streamRead (List.replicate (littleEndian headerLen) 0) rest)

/-- `npy_load` of a file that is open. -/
def npyRead (junk : Uninitialized) (path : String) (file : List UInt8) :
    Except NpyError NpyArray :=
  match readHeader junk file with
  | none => .error (.runtimeError ("npy_load: bad magic in " ++ path))
  | some (header, rest) => npyBody path header rest

/-- `npy_load`. There is no file, or what is in it. -/
def npyLoad (junk : Uninitialized) (path : String) :
    Option (List UInt8) → Except NpyError NpyArray
  | none => .error (.runtimeError ("npy_load: cannot open " ++ path))
  | some file => npyRead junk path file

/-! ### What comes of it -/

/-- The numbers in a text. -/
def numbersIn (text : List UInt8) : List ℤ := (digitRuns text).map fun r => (value r : ℤ)

/-- A number is too large, or the array. -/
def Refused (dtype text : List UInt8) : Prop :=
  (∃ r ∈ digitRuns text, 2 ^ 63 ≤ value r) ∨ 2 ^ 63 ≤ dataSize dtype (numbersIn text)

instance (dtype text : List UInt8) : Decidable (Refused dtype text) :=
  inferInstanceAs (Decidable (_ ∨ _))

section Lemmas

variable {buf rest header text dtype : List UInt8} {junk : Uninitialized} {path key : String}

theorem streamRead_of_le (h : buf.length ≤ rest.length) :
    streamRead buf rest = (rest.take buf.length, rest.drop buf.length) := by
  rw [streamRead, List.drop_eq_nil_of_le h, List.append_nil]

theorem length_streamRead_snd (buf rest : List UInt8) :
    (streamRead buf rest).2.length = rest.length - buf.length := by
  rw [streamRead, List.length_drop]

theorem streamRead_nil (buf : List UInt8) : streamRead buf [] = (buf, []) := by
  simp [streamRead]

theorem streamRead_append (hlen : buf.length = text.length) (rest : List UInt8) :
    streamRead buf (text ++ rest) = (text, rest) := by
  rw [streamRead_of_le (by simp [hlen]), hlen, List.take_left, List.drop_left]

theorem findSub_eq_none {needle l : List UInt8} (h : ¬ needle <:+: l) : findSub needle l = none := by
  cases hfind : findSub needle l with
  | none => rfl
  | some p =>
    have hpre := (firstAt_of_findSub hfind).here
    exact absurd (hpre.isInfix.trans (List.drop_suffix p l).isInfix) h

theorem findSub_append {needle l : List UInt8} {p : ℕ} (h : findSub needle l = some p)
    (m : List UInt8) : findSub needle (l ++ m) = some p :=
  findSub_eq_some_iff.mpr (findSub_eq_some_iff.mp h).append

/-- **A header without a key.** -/
theorem findValue_eq_error (h : ¬ [39] ++ bytesOf key ++ [39] <:+: header) :
    findValue header key = .error (.runtimeError ("npy_load: missing key " ++ key)) := by
  rw [findValue, findSub_eq_none h]

theorem scanShape_eq_ok (h : ∀ r ∈ digitRuns text, value r < 2 ^ 63) :
    scanShape text = .ok (numbersIn text) := by
  rw [scanShape, numbersIn]
  generalize digitRuns text = runs at h
  induction runs with
  | nil => rfl
  | cons r runs ih =>
    obtain ⟨hr, hruns⟩ := List.forall_mem_cons.mp h
    rw [List.mapM_cons, ih hruns, stoll, if_neg (Nat.not_le.mpr hr)]
    rfl

theorem scanShape_eq_error (h : ∃ r ∈ digitRuns text, 2 ^ 63 ≤ value r) :
    scanShape text = .error .outOfRange := by
  rw [scanShape]
  generalize digitRuns text = runs at h
  induction runs with
  | nil => simp at h
  | cons r runs ih =>
    rw [List.mapM_cons, stoll]
    split_ifs with hr
    · rfl
    · obtain ⟨r', hr', hle⟩ := h
      rcases List.mem_cons.mp hr' with rfl | hr'
      · exact absurd hle hr
      · rw [ih ⟨r', hr', hle⟩]
        rfl

/-- The array if it is not refused. -/
theorem npyData_of_not_refused (h : ¬ Refused dtype text) : npyData dtype text rest =
    .ok ⟨numbersIn text, dtype,
      (streamRead (List.replicate (dataSize dtype (numbersIn text)) 0) rest).1⟩ := by
  rw [Refused, not_or] at h
  obtain ⟨hruns, hsize⟩ := h
  have hscan : scanShape text = .ok (numbersIn text) := by
    refine scanShape_eq_ok fun r hr => ?_
    by_contra hle
    exact hruns ⟨r, hr, Nat.not_lt.mp hle⟩
  rw [npyData, hscan]
  dsimp only
  rw [if_neg hsize]

/-- **What is refused.** -/
theorem npyData_eq_error_iff :
    (∃ e, npyData dtype text rest = .error e) ↔ Refused dtype text := by
  constructor
  · rintro ⟨e, he⟩
    by_contra hnot
    rw [npyData_of_not_refused hnot] at he
    cases he
  · intro h
    by_cases hruns : ∃ r ∈ digitRuns text, 2 ^ 63 ≤ value r
    · exact ⟨.outOfRange, by rw [npyData, scanShape_eq_error hruns]⟩
    · refine ⟨.lengthError, ?_⟩
      have hscan : scanShape text = .ok (numbersIn text) := by
        refine scanShape_eq_ok fun r hr => ?_
        by_contra hle
        exact hruns ⟨r, hr, Nat.not_lt.mp hle⟩
      rw [npyData, hscan]
      exact if_pos (h.resolve_left hruns)

end Lemmas

end Chatterbox

end WhisperCpp
