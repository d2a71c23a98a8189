import WhisperCpp.Chatterbox.Npy
import WhisperCpp.Library.Replace

/-!
# Files that are cut

What `npy_save` has written, `npy_load` reads again. Of a file that ends earlier it misses something
only where a key is not complete. Behind the keys it makes do with what there is: what is missing of
the header are zeros, and what is missing of the data, too.

## Main definitions

* `Saved` — an array that is written
* `leftText` — where the shape is read, in what is left of a file
* `Loads` — the array, or an error if the file is cut

## Main results

* `npyRead_of_length_le`, `npyRead_cut` — what is read of a file
* `loads_iff` — when the array comes back, and when a cut is seen
-/

namespace WhisperCpp

namespace Chatterbox

open Search DigitRuns

/-- An array that is written. -/
structure Saved where
  dtype : List UInt8
  shape : List ℤ
  data : List UInt8
  dtype_mem : dtype = bytesOf "<f4" ∨ dtype = bytesOf "<i4"
  int64 : ∀ d ∈ shape, -2 ^ 63 ≤ d ∧ d < 2 ^ 63
  length_data : data.length = nElements shape * 4 % 2 ^ 64
  length_lt : data.length < 2 ^ 63

/-- Where the shape is read if `n` bytes are left: what there is of it, or, if there is no colon,
what the header begins with. -/
def leftText (dtype : List UInt8) (shape : List ℤ) (n : ℕ) : List UInt8 :=
  if n = 58 then (headerFront dtype).take 15 else (shapeText shape).take (n - 61)

/-! ### The text of a shape -/

section Shape

variable {shape : List ℤ} {c : UInt8}

theorem digitRuns_toDecimal (d : ℤ) {v : List UInt8} (hv : ∀ c ∈ v.head?, isDigit c = false) :
    digitRuns (toDecimal d ++ v) = decimal d.natAbs :: digitRuns v := by
  have hrun := digitRuns_run (decimal_ne_nil d.natAbs) (fun _ => isDigit_of_mem_decimal) hv
  rw [toDecimal]
  split_ifs
  · rw [List.singleton_append, List.cons_append, digitRuns_cons_of_not rfl, hrun]
  · rw [List.nil_append, hrun]

/-- **The runs are the dimensions**, without their signs. -/
theorem digitRuns_shapeDims (single : Bool) (shape : List ℤ) :
    digitRuns (shapeDims single shape) = shape.map fun d => decimal d.natAbs := by
  have hcomma : isDigit 44 = false := rfl
  have hspace : isDigit 32 = false := rfl
  induction shape with
  | nil => exact digitRuns_nil
  | cons d rest ih =>
    rw [shapeDims, List.append_assoc, List.append_assoc, digitRuns_toDecimal, List.map_cons, ← ih]
    · cases rest with
      | nil => cases single <;> simp [shapeDims, digitRuns_nil, digitRuns_cons_of_not hcomma]
      | cons e rest => simp [digitRuns_cons_of_not hcomma, digitRuns_cons_of_not hspace]
    · cases rest with
      | nil => cases single <;> simp [shapeDims, isDigit]
      | cons e rest => simp [isDigit]

theorem not_mem_shapeDims (single : Bool) (shape : List ℤ) : 41 ∉ shapeDims single shape := by
  induction shape with
  | nil => simp [shapeDims]
  | cons d rest ih =>
    have hdec : (41 : UInt8) ∉ decimal d.natAbs := by
      intro h
      have hdigit := isDigit_of_mem_decimal h
      revert hdigit
      decide
    rw [shapeDims, toDecimal]
    simp only [List.mem_append, not_or]
    refine ⟨⟨⟨⟨?_, hdec⟩, ?_⟩, ?_⟩, ih⟩ <;> split_ifs <;> simp

theorem numbersIn_shapeText (shape : List ℤ) :
    numbersIn (shapeText shape) = shape.map fun d => (d.natAbs : ℤ) := by
  rw [numbersIn, shapeText, digitRuns_shapeDims, List.map_map]
  refine List.map_congr_left fun d _ => ?_
  rw [Function.comp_apply, value_decimal]

end Shape

/-! ### The preamble -/

section Preamble

variable {junk : Uninitialized} {path : String} {file : List UInt8}

theorem not_infix_replicate {q u : List UInt8} (hq : 0 ∉ q) (hne : ¬ q <:+: u) (k : ℕ) :
    ¬ q <:+: u ++ List.replicate k 0 := by
  induction k with
  | zero => simpa using hne
  | succ k ih =>
    rw [List.replicate_succ', ← List.append_assoc]
    exact fun h => ih (Replace.infix_of_concat hq h)

/-- There is nothing in a header of zeros. -/
theorem npyBody_replicate (path : String) (k : ℕ) (rest : List UInt8) :
    ∃ e, npyBody path (List.replicate k 0) rest = .error e := by
  have hnone := not_infix_replicate (by decide : 0 ∉ [39] ++ bytesOf "descr" ++ [39])
    (by decide : ¬ [39] ++ bytesOf "descr" ++ [39] <:+: []) k
  rw [List.nil_append] at hnone
  exact ⟨_, by rw [npyBody, findValue_eq_error hnone]; rfl⟩

/-- Of what ends before the header there are only zeros. -/
theorem eq_replicate_of_readHeader {header rest : List UInt8} (h : file.length ≤ 10)
    (hread : readHeader junk file = some (header, rest)) :
    header = List.replicate header.length 0 := by
  have hzeros : ∀ {rest : List UInt8} (k : ℕ), rest.length = 0 →
      (streamRead (List.replicate k 0) rest).1 = List.replicate k 0 := by
    intro rest k hrest
    rw [List.length_eq_zero_iff.mp hrest, streamRead_nil]
  rw [readHeader] at hread
  dsimp only at hread
  split_ifs at hread
  · have heq := congrArg Prod.fst (Option.some.inj hread)
    dsimp only at heq
    rw [← heq, hzeros, List.length_replicate]
    simp only [length_streamRead_snd, Vector.length_toList, List.length_singleton]
    omega
  · have heq := congrArg Prod.fst (Option.some.inj hread)
    dsimp only at heq
    rw [← heq, hzeros, List.length_replicate]
    simp only [length_streamRead_snd, Vector.length_toList, List.length_singleton]
    omega

/-- **What ends before the header** is no array. -/
theorem npyRead_of_length_le (h : file.length ≤ 10) :
    ∃ e, npyRead junk path file = .error e := by
  rw [npyRead]
  split
  · exact ⟨_, rfl⟩
  · rename_i header rest hread
    rw [eq_replicate_of_readHeader h hread]
    exact npyBody_replicate path header.length rest

theorem length_preamble (length : ℕ) : (preamble length).length = 10 := rfl

theorem readHeader_preamble {length : ℕ} (hlen : length ≤ 0xFFFF) (rest : List UInt8) :
    readHeader junk (preamble length ++ rest) =
      some (streamRead (List.replicate length 0) rest) := by
  have hmagic : ∀ w : List UInt8, streamRead junk.magic.toList (npyMagic ++ w) = (npyMagic, w) :=
    fun w => streamRead_append (by rw [Vector.length_toList]; rfl) w
  have hmajor : ∀ w : List UInt8, streamRead [junk.major] (1 :: w) = ([1], w) :=
    fun w => @streamRead_append [junk.major] [1] rfl w
  have hminor : ∀ w : List UInt8, streamRead [junk.minor] (0 :: w) = ([0], w) :=
    fun w => @streamRead_append [junk.minor] [0] rfl w
  have hshort : ∀ (l : List UInt8) (w : List UInt8), l.length = 2 →
      streamRead junk.shortLength.toList (l ++ w) = (l, w) :=
    fun l w hl => streamRead_append (by rw [Vector.length_toList, hl]) w
  have hlittle : littleEndian [.ofNat length, .ofNat (length >>> 8)] = length := by
    simp only [littleEndian, List.foldr_cons, List.foldr_nil, UInt8.toNat_ofNat',
      Nat.shiftRight_eq_div_pow]
    omega
  have hsplit : preamble length ++ rest =
      npyMagic ++ 1 :: 0 :: ([.ofNat length, .ofNat (length >>> 8)] ++ rest) := rfl
  rw [readHeader, hsplit, hmagic]
  dsimp only
  rw [if_neg (not_not.mpr rfl), hmajor]
  dsimp only
  rw [hminor, if_pos rfl]
  dsimp only
  rw [hshort _ _ rfl]
  dsimp only
  rw [hlittle]

end Preamble

/-! ### The header -/

section Header

variable {dtype x : List UInt8} {shape : List ℤ} {path : String}
  (hd : dtype = bytesOf "<f4" ∨ dtype = bytesOf "<i4")

theorem npyHeader_eq (dtype : List UInt8) (shape : List ℤ) : ∃ t, npyHeader dtype shape =
    headerFront dtype ++ 58 :: 32 :: 40 :: (shapeText shape ++ 41 :: t) := by
  have hopen : bytesOf ": (" = [58, 32, 40] := rfl
  have hclose : bytesOf "), \x7d" = 41 :: [44, 32, 125] := rfl
  rw [npyHeader, headerDict, hopen, hclose]
  exact ⟨_, by simp only [List.append_assoc, List.cons_append, List.nil_append]; rfl⟩

include hd

theorem length_headerFront : (headerFront dtype).length = 48 := by
  rcases hd with rfl | rfl <;> rfl

/-- **Behind the keys** only the shape is left to read. -/
theorem npyBody_headerFront (path : String) (x rest : List UInt8) :
    npyBody path (headerFront dtype ++ x) rest =
      (findValue (headerFront dtype ++ x) "shape").bind fun text => npyData dtype text rest := by
  have hdescr : findValue (headerFront dtype ++ x) "descr" = .ok dtype := by
    rcases hd with rfl | rfl <;> rfl
  have horder : checkFortranOrder path (headerFront dtype ++ x) = .ok () := by
    rcases hd with rfl | rfl <;> rfl
  rw [npyBody, hdescr]
  simp only [bind, Except.bind, horder]

theorem findValue_colon (x : List UInt8) :
    findValue (headerFront dtype ++ 58 :: x) "shape" = .ok (valueText x) := by
  rcases hd with rfl | rfl <;> rfl

/-- Without a colon the search goes on at the start. -/
theorem findValue_zeros (k : ℕ) : findValue (headerFront dtype ++ List.replicate k 0) "shape" =
    .ok ((headerFront dtype).take 15) := by
  have hkey : ∀ x, findSub ([39] ++ bytesOf "shape" ++ [39]) (headerFront dtype ++ x) = some 41 := by
    intro x
    rcases hd with rfl | rfl <;> rfl
  have hdrop : (headerFront dtype).drop 41 = [39] ++ bytesOf "shape" ++ [39] := by
    rcases hd with rfl | rfl <;> rfl
  have hcolon : findSub [58] ((headerFront dtype ++ List.replicate k 0).drop 41) = none := by
    rw [List.drop_append_of_le_length (by rw [length_headerFront hd]; omega), hdrop]
    exact findSub_eq_none (not_infix_replicate (by decide) (by decide) k)
  have hstart : ∀ x, valueText (headerFront dtype ++ x) = (headerFront dtype).take 15 := by
    intro x
    rcases hd with rfl | rfl <;> rfl
  rw [findValue, hkey]
  dsimp only
  rw [hcolon, hstart]

/-- **A key that is cut** is missing. -/
theorem npyBody_of_cut_key {m : ℕ} (hm : m < 48) (k : ℕ) (rest : List UInt8) :
    ∃ e, npyBody path ((headerFront dtype).take m ++ List.replicate k 0) rest = .error e := by
  have hfront : ¬ [39] ++ bytesOf "shape" ++ [39] <:+: (headerFront dtype).take 47 := by
    rcases hd with rfl | rfl <;> decide +kernel
  have hkey : ¬ [39] ++ bytesOf "shape" ++ [39] <:+: (headerFront dtype).take m := by
    intro h
    exact hfront (h.trans (List.take_prefix_take_left (by omega)).isInfix)
  have hnone := findValue_eq_error (not_infix_replicate (by decide) hkey k)
  rw [npyBody, hnone]
  cases hdescr : findValue ((headerFront dtype).take m ++ List.replicate k 0) "descr" with
  | error e => exact ⟨e, rfl⟩
  | ok d =>
    cases horder : checkFortranOrder path ((headerFront dtype).take m ++ List.replicate k 0) with
    | error e => exact ⟨e, rfl⟩
    | ok u => exact ⟨_, rfl⟩

omit hd in
theorem mem_valueText {c : UInt8} (h : c ∈ valueText x) : c ∈ x := by
  have hsub := List.dropWhile_sublist isWs (l := x)
  rw [valueText] at h
  split at h
  · rename_i rest hrest
    rw [hrest] at hsub
    exact hsub.subset (List.mem_cons_of_mem _ ((List.takeWhile_sublist _).subset h))
  · rename_i rest hrest
    rw [hrest] at hsub
    exact hsub.subset (List.mem_cons_of_mem _ ((List.takeWhile_sublist _).subset h))
  · exact hsub.subset ((List.takeWhile_sublist _).subset h)

omit hd in
/-- **What is read of a shape that is cut.** -/
theorem digitRuns_valueText (shape : List ℤ) (t : List UInt8) (j k : ℕ) :
    digitRuns (valueText ((32 :: 40 :: (shapeText shape ++ 41 :: t)).take j ++
      List.replicate k 0)) = digitRuns ((shapeText shape).take (j - 2)) := by
  have hzeros : ∀ c ∈ List.replicate k (0 : UInt8), isDigit c = false := by
    intro c hc
    rw [List.eq_of_mem_replicate hc]
    rfl
  have hparen : ∀ c ∈ shapeText shape, decide (c ≠ 41) = true := by
    intro c hc
    rw [decide_eq_true_eq]
    rintro rfl
    exact not_mem_shapeDims _ shape hc
  by_cases hj : j < 2
  · have hspace : ∀ c ∈ (32 :: 40 :: (shapeText shape ++ 41 :: t)).take j, c = 32 := by
      obtain rfl | rfl : j = 0 ∨ j = 1 := by omega
      · simp
      · simp
    rw [Nat.sub_eq_zero_of_le hj.le, List.take_zero, digitRuns_nil]
    refine digitRuns_of_not fun c hc => ?_
    rcases List.mem_append.mp (mem_valueText hc) with hc | hc
    · rw [hspace c hc]
      rfl
    · exact hzeros c hc
  · obtain ⟨i, rfl⟩ := Nat.exists_eq_add_of_le' (Nat.not_lt.mp hj)
    have hopen : ∀ w, valueText (32 :: 40 :: w) = w.takeWhile (· ≠ 41) := fun w => rfl
    rw [List.take_succ_cons, List.take_succ_cons, List.cons_append, List.cons_append, hopen,
      Nat.add_sub_cancel]
    by_cases hi : i ≤ (shapeText shape).length
    · have hall : ∀ c ∈ (shapeText shape).take i ++ List.replicate k 0, decide (c ≠ 41) = true := by
        intro c hc
        rcases List.mem_append.mp hc with hc | hc
        · exact hparen c (List.mem_of_mem_take hc)
        · rw [List.eq_of_mem_replicate hc]
          rfl
      rw [List.take_append_of_le_length hi, List.takeWhile_eq_self_iff.mpr hall,
        digitRuns_append_of_not hzeros]
    · obtain ⟨l, hl⟩ := Nat.exists_eq_add_of_lt (Nat.not_le.mp hi)
      have hcut : (shapeText shape ++ 41 :: t).take i = shapeText shape ++ 41 :: t.take l := by
        rw [hl, Nat.add_assoc, List.take_length_add_append, List.take_succ_cons]
      rw [hcut, List.append_assoc, List.takeWhile_append_of_pos hparen, List.cons_append,
        List.takeWhile_cons_of_neg (by simp), List.append_nil,
        List.take_of_length_le (Nat.le_of_not_le hi)]

end Header

/-! ### Files -/

section Files

variable {junk : Uninitialized} {path : String} {a : Saved} {file : List UInt8} {n : ℕ}

theorem npySave_eq_ok (h : npySave a.dtype a.shape a.data 4 = .ok file) :
    (npyHeader a.dtype a.shape).length ≤ 0xFFFF ∧
      file = preamble (npyHeader a.dtype a.shape).length ++ (npyHeader a.dtype a.shape ++ a.data) := by
  rw [npySave] at h
  split_ifs at h with hlen
  refine ⟨Nat.not_lt.mp hlen, ?_⟩
  rw [← Except.ok.inj h, ← a.length_data, List.take_length, List.append_assoc]

/-- What is read behind the preamble. -/
theorem npyRead_take (h : npySave a.dtype a.shape a.data 4 = .ok file) (hn : 10 ≤ n) :
    npyRead junk path (file.take n) = npyBody path
      ((npyHeader a.dtype a.shape).take (n - 10) ++
        List.replicate ((npyHeader a.dtype a.shape).length - (n - 10)) 0)
      (a.data.take (n - 10 - (npyHeader a.dtype a.shape).length)) := by
  obtain ⟨hlen, rfl⟩ := npySave_eq_ok h
  generalize npyHeader a.dtype a.shape = header at hlen
  rw [List.take_append, length_preamble, List.take_of_length_le (by rw [length_preamble]; omega),
    npyRead, readHeader_preamble hlen, streamRead, List.length_replicate]
  generalize n - 10 = m
  have hheader : ((header ++ a.data).take m).take header.length = header.take m := by
    rcases Nat.le_total m header.length with hm | hm
    · rw [List.take_append_of_le_length hm, List.take_of_length_le]
      rw [List.length_take]
      omega
    · rw [List.take_append, List.take_of_length_le hm, List.take_left]
  have hdata : ((header ++ a.data).take m).drop header.length =
      a.data.take (m - header.length) := by
    rw [List.drop_take, List.drop_left]
  have hzeros : (List.replicate header.length (0 : UInt8)).drop ((header ++ a.data).take m).length =
      List.replicate (header.length - m) 0 := by
    rw [List.drop_replicate, List.length_take, List.length_append]
    congr 1
    omega
  dsimp only
  rw [hheader, hdata, hzeros]

/-- **What ends before the keys do** is no array. -/
theorem npyRead_of_lt (h : npySave a.dtype a.shape a.data 4 = .ok file) (hn : n < 58) :
    ∃ e, npyRead junk path (file.take n) = .error e := by
  by_cases hten : n < 10
  · refine npyRead_of_length_le ?_
    rw [List.length_take]
    omega
  · obtain ⟨t, ht⟩ := npyHeader_eq a.dtype a.shape
    rw [npyRead_take h (Nat.not_lt.mp hten)]
    generalize (npyHeader a.dtype a.shape).length - (n - 10) = k
    rw [ht, List.take_append_of_le_length (by rw [length_headerFront a.dtype_mem]; omega)]
    exact npyBody_of_cut_key a.dtype_mem (by omega) k _

/-- **What ends behind the keys** is read with what is left of the shape. -/
theorem npyRead_cut (junk : Uninitialized) (path : String)
    (h : npySave a.dtype a.shape a.data 4 = .ok file) (hn : 58 ≤ n) :
    ∃ text, digitRuns text = digitRuns (leftText a.dtype a.shape n) ∧
      npyRead junk path (file.take n) = npyData a.dtype text
        (a.data.take (n - 10 - (npyHeader a.dtype a.shape).length)) := by
  obtain ⟨t, ht⟩ := npyHeader_eq a.dtype a.shape
  have hfront := length_headerFront a.dtype_mem
  rw [npyRead_take h (by omega), leftText]
  generalize (npyHeader a.dtype a.shape).length - (n - 10) = k
  generalize a.data.take (n - 10 - (npyHeader a.dtype a.shape).length) = rest
  have hwhole : (headerFront a.dtype).take (n - 10) = headerFront a.dtype :=
    List.take_of_length_le (by omega)
  rw [ht, List.take_append, hfront, hwhole, List.append_assoc, npyBody_headerFront a.dtype_mem]
  by_cases hkey : n = 58
  · refine ⟨(headerFront a.dtype).take 15, by rw [if_pos hkey], ?_⟩
    rw [hkey, Nat.sub_self, List.take_zero, List.nil_append, findValue_zeros a.dtype_mem]
    rfl
  · obtain ⟨j, rfl⟩ := Nat.exists_eq_add_of_le (by omega : 59 ≤ n)
    have hj : 59 + j - 10 - 48 = j + 1 := by omega
    have hj' : 59 + j - 61 = j - 2 := by omega
    rw [hj, hj', if_neg hkey, List.take_succ_cons, List.cons_append, findValue_colon a.dtype_mem]
    exact ⟨_, digitRuns_valueText a.shape t j k, rfl⟩

/-- What is left of the whole file is the shape. -/
theorem length_file (h : npySave a.dtype a.shape a.data 4 = .ok file) :
    file.length = 10 + (npyHeader a.dtype a.shape).length + a.data.length ∧
      52 + (shapeText a.shape).length ≤ (npyHeader a.dtype a.shape).length := by
  obtain ⟨-, rfl⟩ := npySave_eq_ok h
  obtain ⟨t, ht⟩ := npyHeader_eq a.dtype a.shape
  have hlen := congrArg List.length ht
  simp only [List.length_append, List.length_cons, length_headerFront a.dtype_mem] at hlen
  rw [List.length_append, List.length_append, length_preamble]
  omega

theorem refused_congr {dtype text text' : List UInt8} (h : digitRuns text = digitRuns text') :
    Refused dtype text ↔ Refused dtype text' := by
  rw [Refused, Refused, numbersIn, numbersIn, h]

theorem dataSize_eq (a : Saved) : dataSize a.dtype a.shape = a.data.length := by
  have hfour : elemSizeOf a.dtype = 4 := by
    rcases a.dtype_mem with h | h <;> rw [h] <;> rfl
  rw [dataSize, hfour, a.length_data]

/-- **The whole file.** -/
theorem npyRead_file (h : npySave a.dtype a.shape a.data 4 = .ok file) :
    npyRead junk path file = .ok ⟨a.shape, a.dtype, a.data⟩ ↔ ∀ d ∈ a.shape, 0 ≤ d := by
  obtain ⟨hlen, hshape⟩ := length_file h
  obtain ⟨text, htext, hread⟩ := npyRead_cut junk path h
    (by omega : 58 ≤ file.length)
  have hleft : leftText a.dtype a.shape file.length = shapeText a.shape := by
    rw [leftText, if_neg (by omega), List.take_of_length_le (by omega)]
  rw [hleft] at htext
  rw [List.take_length, List.take_of_length_le (by omega)] at hread
  have hnumbers : numbersIn text = a.shape.map fun d => (d.natAbs : ℤ) := by
    rw [numbersIn, htext, ← numbersIn, numbersIn_shapeText]
  rw [hread]
  constructor
  · intro hok d hd
    by_cases hrefused : Refused a.dtype text
    · obtain ⟨e, he⟩ := npyData_eq_error_iff.mpr hrefused
      rw [he] at hok
      cases hok
    · rw [npyData_of_not_refused hrefused] at hok
      have hsame : numbersIn text = a.shape := congrArg NpyArray.shape (Except.ok.inj hok)
      rw [← hsame, hnumbers] at hd
      obtain ⟨d', -, rfl⟩ := List.mem_map.mp hd
      exact Int.natCast_nonneg _
  · intro hpos
    have hsame : numbersIn text = a.shape := by
      rw [hnumbers, List.map_congr_left fun d hd => Int.natAbs_of_nonneg (hpos d hd), List.map_id']
    have hrefused : ¬ Refused a.dtype text := by
      rintro (⟨r, hr, hle⟩ | hle)
      · rw [htext, shapeText, digitRuns_shapeDims] at hr
        obtain ⟨d, hd, rfl⟩ := List.mem_map.mp hr
        have hlt := (a.int64 d hd).2
        have habs := Int.natAbs_of_nonneg (hpos d hd)
        rw [value_decimal] at hle
        omega
      · rw [hsame, dataSize_eq] at hle
        exact Nat.not_lt.mpr hle a.length_lt
    have hdata := @streamRead_append (List.replicate a.data.length 0) a.data (by simp) []
    rw [List.append_nil] at hdata
    rw [npyData_of_not_refused hrefused, hsame, dataSize_eq, hdata]

end Files

/-- The array comes back from the whole file. A shorter one is an error. -/
def Loads (junk : Uninitialized) (path : String) (a : Saved) (file : List UInt8) (n : ℕ) : Prop :=
  (n = file.length → npyLoad junk path (some (file.take n)) = .ok ⟨a.shape, a.dtype, a.data⟩) ∧
    (n < file.length → ∃ e, npyLoad junk path (some (file.take n)) = .error e)

/-- **The array comes back** if no dimension is negative. **A cut is seen** if it is before the end
of the key of the shape, or if what is left of the shape stands for too much. -/
theorem loads_iff (junk : Uninitialized) (path : String) (a : Saved) {file : List UInt8}
    (h : npySave a.dtype a.shape a.data 4 = .ok file) {n : ℕ} (hn : n ≤ file.length) :
    Loads junk path a file n ↔ (n = file.length ∧ ∀ d ∈ a.shape, 0 ≤ d) ∨
      (n < file.length ∧ (n < 58 ∨ Refused a.dtype (leftText a.dtype a.shape n))) := by
  rw [Loads]
  by_cases hlen : n = file.length
  · rw [hlen, List.take_length]
    simpa [npyLoad] using npyRead_file h
  · have hlt : n < file.length := Nat.lt_of_le_of_ne hn hlen
    by_cases hkey : n < 58
    · simpa [hlen, hlt, hkey, npyLoad] using npyRead_of_lt h hkey
    · obtain ⟨text, htext, hread⟩ := npyRead_cut junk path h
        (Nat.not_lt.mp hkey)
      rw [← refused_congr htext, ← npyData_eq_error_iff, ← hread]
      simp [hlen, hlt, hkey, npyLoad]

/-- One number. -/
def oneFloat : Saved where
  dtype := bytesOf "<f4"
  shape := [1]
  data := [0, 0, 128, 63]
  dtype_mem := .inl rfl
  int64 := by decide
  length_data := rfl
  length_lt := by decide

/-- It needs 132 bytes. -/
def oneFloatFile : List UInt8 :=
  preamble 118 ++ npyHeader (bytesOf "<f4") [1] ++ [0, 0, 128, 63]

/-- Variables that hold zeros. -/
def zeroed : Uninitialized where
  magic := .replicate 6 0
  major := 0
  minor := 0
  shortLength := .replicate 2 0
  longLength := .replicate 4 0

theorem length_oneFloatFile : oneFloatFile.length = 132 := by decide +kernel

theorem npySave_oneFloat : npySave oneFloat.dtype oneFloat.shape oneFloat.data 4 =
    .ok oneFloatFile := by
  have hlen : (npyHeader oneFloat.dtype oneFloat.shape).length = 118 := by decide +kernel
  rw [npySave, hlen]
  rfl

/-- The file comes back. -/
theorem loads_oneFloat : Loads zeroed "one.npy" oneFloat oneFloatFile 132 :=
  (loads_iff zeroed "one.npy" oneFloat npySave_oneFloat length_oneFloatFile.ge).mpr
    (.inl ⟨length_oneFloatFile.symm, by decide⟩)

/-- Without its last byte the number is another one. -/
theorem not_forall_loads : ¬ ∀ (junk : Uninitialized) (path : String) (a : Saved)
    (file : List UInt8), npySave a.dtype a.shape a.data 4 = .ok file →
      ∀ n ≤ file.length, Loads junk path a file n := by
  intro h
  have hle : 131 ≤ oneFloatFile.length := by
    rw [length_oneFloatFile]
    omega
  have hloads := h zeroed "one.npy" oneFloat oneFloatFile npySave_oneFloat 131 hle
  obtain ⟨text, htext, hread⟩ := npyRead_cut zeroed "one.npy"
    npySave_oneFloat (by omega : 58 ≤ 131)
  obtain ⟨e, he⟩ := hloads.2 (by rw [length_oneFloatFile]; omega)
  rw [npyLoad, hread] at he
  have hrefused := (refused_congr htext).mp (npyData_eq_error_iff.mp ⟨e, he⟩)
  revert hrefused
  decide +kernel

end Chatterbox

end WhisperCpp
