import WhisperCpp.Chatterbox.UnicodeTables
import Mathlib.Data.List.Chain
import Mathlib.Data.List.DropRight
import Mathlib.Data.List.Sort
import Mathlib.Data.Nat.Bitwise

/-!
# Text before it is tokenized

The multilingual tokenizer puts a text into lowercase and then into its compatibility decomposition,
by generated tables, and takes Korean apart. It reads a text leniently: what is no UTF-8 gives
`0xFFFD`, one byte at a time, and a code point may take more bytes than it needs.

## Main definitions

* `utf8Decode`, `utf8ToCps`, `cpsToUtf8` — code points
* `utf8Lowercase`, `nfkdNormalize`, `koreanNormalize` — the passes

## Main results

* `utf8ToCps_cpsToUtf8` — what was written is read again
* `mem_of_findEntry` — the search finds entries of its table
-/

namespace WhisperCpp

namespace Chatterbox

/-! ### UTF-8 -/

/-- The bits of a first byte, and the number of bytes behind it. -/
def utf8Lead (b0 : UInt8) : Option (ℕ × ℕ) :=
  if b0 &&& 0xE0 == 0xC0 then some ((b0 &&& 0x1F).toNat, 1)
  else if b0 &&& 0xF0 == 0xE0 then some ((b0 &&& 0x0F).toNat, 2)
  else if b0 &&& 0xF8 == 0xF0 then some ((b0 &&& 0x07).toNat, 3)
  else none

/-- A code point with the bits of the bytes that follow. -/
def utf8Follow : ℕ → List UInt8 → Option ℕ
  | cp, [] => some cp
  | cp, b :: rest =>
    if b &&& 0xC0 == 0x80 then utf8Follow ((cp <<< 6) ||| (b &&& 0x3F).toNat) rest else none

/-- `utf8_decode`: a code point, and the number of bytes that it has behind the first one. -/
def utf8Decode (b0 : UInt8) (rest : List UInt8) : ℕ × ℕ :=
  if b0 < 0x80 then (b0.toNat, 0)
  else
    match utf8Lead b0 with
    | none => (0xFFFD, 0)
    | some (cp, extra) =>
      if rest.length < extra then (0xFFFD, 0)
      else
        match utf8Follow cp (rest.take extra) with
        | none => (0xFFFD, 0)
        | some cp => (cp, extra)

/-- `utf8_append`. -/
def utf8Append (cp : ℕ) : List UInt8 :=
  if cp < 0x80 then [.ofNat cp]
  else if cp < 0x800 then [.ofNat (0xC0 ||| (cp >>> 6)), .ofNat (0x80 ||| (cp &&& 0x3F))]
  else if cp < 0x10000 then
    [.ofNat (0xE0 ||| (cp >>> 12)), .ofNat (0x80 ||| ((cp >>> 6) &&& 0x3F)),
      .ofNat (0x80 ||| (cp &&& 0x3F))]
  else
    [.ofNat (0xF0 ||| (cp >>> 18)), .ofNat (0x80 ||| ((cp >>> 12) &&& 0x3F)),
      .ofNat (0x80 ||| ((cp >>> 6) &&& 0x3F)), .ofNat (0x80 ||| (cp &&& 0x3F))]

/-- `utf8_to_cps`. -/
def utf8ToCps : List UInt8 → List ℕ
  | [] => []
  | b0 :: rest => (utf8Decode b0 rest).1 :: utf8ToCps (rest.drop (utf8Decode b0 rest).2)
termination_by s => s.length
decreasing_by
  rw [List.length_drop, List.length_cons]
  omega

/-- `cps_to_utf8`. -/
def cpsToUtf8 (cps : List ℕ) : List UInt8 := cps.flatMap utf8Append

section Utf8

variable {cp : ℕ} {rest : List UInt8}

/-- What the bytes of a code point are read as: the bits of a first byte, and those of the bytes
behind it. -/
theorem utf8Lead_ofNat :
    (∀ x : Fin 32, utf8Lead (.ofNat (0xC0 ||| x)) = some (x.val, 1) ∧ 0x80 ≤ UInt8.ofNat (0xC0 ||| x)) ∧
      (∀ x : Fin 16,
        utf8Lead (.ofNat (0xE0 ||| x)) = some (x.val, 2) ∧ 0x80 ≤ UInt8.ofNat (0xE0 ||| x)) ∧
      ∀ x : Fin 8, utf8Lead (.ofNat (0xF0 ||| x)) = some (x.val, 3) ∧
        0x80 ≤ UInt8.ofNat (0xF0 ||| x) := by
  decide +kernel

theorem utf8Follow_ofNat (cp x : ℕ) (rest : List UInt8) :
    utf8Follow cp (.ofNat (0x80 ||| (x &&& 0x3F)) :: rest) =
      utf8Follow ((cp <<< 6) ||| (x &&& 0x3F)) rest := by
  have hbyte : ∀ x : Fin 64, UInt8.ofNat (0x80 ||| x) &&& 0xC0 == 0x80 ∧
      (UInt8.ofNat (0x80 ||| x) &&& 0x3F).toNat = x := by decide +kernel
  have hx : x &&& 0x3F < 64 := Nat.and_lt_two_pow x (n := 6) (by decide)
  obtain ⟨hmark, hbits⟩ := hbyte ⟨x &&& 0x3F, hx⟩
  rw [utf8Follow, if_pos hmark, hbits]

/-- A number from its last six bits and the others. -/
theorem shiftRight_shiftLeft_or (x : ℕ) : ((x >>> 6) <<< 6) ||| (x &&& 0x3F) = x := by
  have hmod : x &&& 0x3F = x % 2 ^ 6 := Nat.and_two_pow_sub_one_eq_mod x 6
  rw [hmod, ← Nat.shiftLeft_add_eq_or_of_lt (Nat.mod_lt x (by decide)), Nat.shiftLeft_eq,
    Nat.shiftRight_eq_div_pow, Nat.div_add_mod']

/-- ASCII has no bytes behind the first one. -/
theorem utf8Lead_of_lt {b0 : UInt8} (h : b0 < 0x80) : utf8Lead b0 = none := by
  have hall : ∀ i : Fin 256, UInt8.ofNat i < 0x80 → utf8Lead (.ofNat i) = none := by decide +kernel
  have hb0 := hall ⟨b0.toNat, b0.toNat_lt⟩
  rw [UInt8.ofNat_toNat] at hb0
  exact hb0 h

/-- The bytes of a code point: the first one tells how many there are, and all are read. -/
theorem exists_utf8Append (h : cp < 0x200000) : ∃ b0 tail, utf8Append cp = b0 :: tail ∧
    (utf8Lead b0).elim 0 Prod.snd = tail.length ∧
    ∀ s, utf8Decode b0 (tail ++ s) = (cp, tail.length) := by
  obtain ⟨hlead2, hlead3, hlead4⟩ := utf8Lead_ofNat
  -- how a code point is read from its first byte on
  have hread : ∀ (b0 : UInt8) (tail : List UInt8) (x : ℕ), utf8Lead b0 = some (x, tail.length) →
      0x80 ≤ b0 → utf8Follow x tail = some cp → ∃ b0' tail', b0 :: tail = b0' :: tail' ∧
        (utf8Lead b0').elim 0 Prod.snd = tail'.length ∧
        ∀ s, utf8Decode b0' (tail' ++ s) = (cp, tail'.length) := by
    intro b0 tail x hlead hge hfollow
    refine ⟨b0, tail, rfl, by rw [hlead]; rfl, fun s => ?_⟩
    rw [utf8Decode, if_neg (UInt8.not_lt.mpr hge), hlead]
    simp only [List.length_append, List.take_left, hfollow]
    rw [if_neg (Nat.not_lt.mpr (Nat.le_add_right _ _))]
  have h6 := shiftRight_shiftLeft_or cp
  have h12 := shiftRight_shiftLeft_or (cp >>> 6)
  have h18 := shiftRight_shiftLeft_or (cp >>> 12)
  rw [← Nat.shiftRight_add] at h12 h18
  rw [utf8Append]
  split
  · rename_i hcp
    have hbyte : (UInt8.ofNat cp).toNat = cp := by
      rw [UInt8.toNat_ofNat']
      exact Nat.mod_eq_of_lt (by omega)
    have hlt : UInt8.ofNat cp < 0x80 := by
      rw [UInt8.lt_iff_toNat_lt, hbyte]
      exact hcp
    refine ⟨_, [], rfl, by rw [utf8Lead_of_lt hlt]; rfl, fun s => ?_⟩
    rw [utf8Decode, if_pos hlt, hbyte]
    rfl
  split
  · rename_i hcp
    obtain ⟨hlead, hge⟩ := hlead2 ⟨cp >>> 6, by rw [Nat.shiftRight_eq_div_pow]; omega⟩
    refine hread _ [_] _ hlead hge ?_
    rw [utf8Follow_ofNat, h6, utf8Follow]
  split
  · rename_i hcp
    obtain ⟨hlead, hge⟩ := hlead3 ⟨cp >>> 12, by rw [Nat.shiftRight_eq_div_pow]; omega⟩
    refine hread _ [_, _] _ hlead hge ?_
    rw [utf8Follow_ofNat, h12, utf8Follow_ofNat, h6, utf8Follow]
  · obtain ⟨hlead, hge⟩ := hlead4 ⟨cp >>> 18, by rw [Nat.shiftRight_eq_div_pow]; omega⟩
    refine hread _ [_, _, _] _ hlead hge ?_
    rw [utf8Follow_ofNat, h18, utf8Follow_ofNat, h12, utf8Follow_ofNat, h6, utf8Follow]

/-- **A code point that was written is read again.** -/
theorem utf8ToCps_utf8Append (h : cp < 0x200000) (s : List UInt8) :
    utf8ToCps (utf8Append cp ++ s) = cp :: utf8ToCps s := by
  obtain ⟨b0, tail, heq, -, hdecode⟩ := exists_utf8Append h
  rw [heq, List.cons_append, utf8ToCps, hdecode, List.drop_left]

theorem utf8ToCps_cpsToUtf8 {cps : List ℕ} (h : ∀ cp ∈ cps, cp < 0x200000) :
    utf8ToCps (cpsToUtf8 cps) = cps := by
  induction cps with
  | nil => rw [cpsToUtf8, List.flatMap_nil, utf8ToCps]
  | cons cp cps ih =>
    obtain ⟨hcp, hcps⟩ := List.forall_mem_cons.mp h
    rw [cpsToUtf8, List.flatMap_cons, utf8ToCps_utf8Append hcp]
    exact congrArg (cp :: ·) (ih hcps)

/-! ### What is read -/

theorem utf8Follow_lt {x y k : ℕ} (hx : x < 2 ^ k) (h : utf8Follow x rest = some y) :
    y < 2 ^ (k + 6 * rest.length) := by
  induction rest generalizing x k with
  | nil =>
    obtain rfl := Option.some.inj h
    exact hx
  | cons b rest ih =>
    rw [utf8Follow] at h
    split at h
    · have hbits : (b &&& 0x3F).toNat < 2 ^ 6 := by
        rw [UInt8.toNat_and]
        exact Nat.and_lt_two_pow _ (by decide)
      have hshift : x <<< 6 < 2 ^ (k + 6) := by
        rw [Nat.shiftLeft_eq, Nat.pow_add]
        exact Nat.mul_lt_mul_of_pos_right hx (by decide)
      have hor : (x <<< 6) ||| (b &&& 0x3F).toNat < 2 ^ (k + 6) :=
        Nat.or_lt_two_pow hshift (hbits.trans_le (Nat.pow_le_pow_right (by decide) (by omega)))
      have hle := ih hor h
      rwa [List.length_cons, show k + 6 * (rest.length + 1) = k + 6 + 6 * rest.length by omega]
    · cases h

theorem utf8Lead_lt {b0 : UInt8} {x extra : ℕ} (h : utf8Lead b0 = some (x, extra)) :
    x < 2 ^ (21 - 6 * extra) ∧ extra ≤ 3 := by
  have hall : ∀ i : Fin 256, ∀ p ∈ utf8Lead (.ofNat i), p.1 < 2 ^ (21 - 6 * p.2) ∧ p.2 ≤ 3 := by
    decide +kernel
  have hb0 := hall ⟨b0.toNat, b0.toNat_lt⟩
  rw [UInt8.ofNat_toNat] at hb0
  exact hb0 (x, extra) h

theorem utf8Decode_lt (b0 : UInt8) (rest : List UInt8) : (utf8Decode b0 rest).1 < 0x200000 := by
  rw [utf8Decode]
  split
  · have hlt := b0.toNat_lt
    show b0.toNat < _
    omega
  · split
    · decide
    · rename_i x extra hlead
      obtain ⟨hx, hextra⟩ := utf8Lead_lt hlead
      split
      · decide
      · rename_i hlen
        split
        · decide
        · rename_i cp hfollow
          have hlt := utf8Follow_lt hx hfollow
          rw [List.length_take, Nat.min_eq_left (Nat.le_of_not_lt hlen),
            Nat.sub_add_cancel (by omega)] at hlt
          exact hlt

theorem lt_of_mem_utf8ToCps {s : List UInt8} (h : cp ∈ utf8ToCps s) : cp < 0x200000 := by
  induction s using utf8ToCps.induct with
  | case1 =>
    rw [utf8ToCps] at h
    cases h
  | case2 b0 rest ih =>
    rw [utf8ToCps] at h
    rcases List.mem_cons.mp h with rfl | hrest
    · exact utf8Decode_lt b0 rest
    · exact ih hrest

end Utf8

/-! ### Classes of code points -/

/-- `cp_is_space`. -/
def cpIsSpace (cp : ℕ) : Bool :=
  cp == 0x09 || cp == 0x0A || cp == 0x0B || cp == 0x0C || cp == 0x0D || cp == 0x20 || cp == 0x85 ||
    cp == 0xA0 || cp == 0x1680 || (0x2000 ≤ cp && cp ≤ 0x200A) || cp == 0x2028 || cp == 0x2029 ||
    cp == 0x202F || cp == 0x205F || cp == 0x3000

/-- The ranges behind ASCII that `cp_is_word` takes for words. -/
def wordRanges : List (ℕ × ℕ) :=
  [(0xC0, 0xFF), (0x0100, 0x024F), (0x0250, 0x02AF), (0x02B0, 0x02FF), (0x0300, 0x036F),
    (0x0370, 0x03FF), (0x0400, 0x052F), (0x0531, 0x058F), (0x0590, 0x05FF), (0x0600, 0x06FF),
    (0x0700, 0x074F), (0x0900, 0x097F), (0x1100, 0x11FF), (0x1D00, 0x1DBF), (0x1E00, 0x1FFF),
    (0x3040, 0x309F), (0x30A0, 0x30FF), (0x3130, 0x318F), (0x4E00, 0x9FFF), (0xA960, 0xA97F),
    (0xAC00, 0xD7AF), (0xF900, 0xFAFF), (0xFB00, 0xFB4F), (0xFB50, 0xFDFF), (0xFE70, 0xFEFF),
    (0xFF00, 0xFFEF)]

/-- The code points in these ranges that are no words. -/
def wordExceptions : List (ℕ × ℕ) :=
  [(0xD7, 0xD7), (0xF7, 0xF7), (0x0374, 0x0375), (0x037E, 0x037E), (0x0384, 0x0385),
    (0x0387, 0x0387), (0x060C, 0x060C), (0x061B, 0x061B), (0x061F, 0x061F), (0x066A, 0x066D),
    (0xFF01, 0xFF0F), (0xFF1A, 0xFF20), (0xFF3B, 0xFF40), (0xFF5B, 0xFF65)]

/-- `cp_is_word`. -/
def cpIsWord (cp : ℕ) : Bool :=
  let inRange : ℕ × ℕ → Bool := fun range => range.1 ≤ cp && cp ≤ range.2
  if cp < 0x80 then
    cp == 0x5F || inRange (0x30, 0x39) || inRange (0x41, 0x5A) || inRange (0x61, 0x7A)
  else wordRanges.any inRange && !wordExceptions.any inRange

/-! ### The passes -/

/-- `find_entry`, between `lo` and `hi`. -/
def findEntry {α : Type} (table : List (ℕ × α)) (cp lo hi : ℕ) : Option α :=
  if lo < hi then
    match table[(lo + hi) >>> 1]? with
    | none => none
    | some e =>
      if e.1 = cp then some e.2
      else if e.1 < cp then findEntry table cp ((lo + hi) >>> 1 + 1) hi
      else findEntry table cp lo ((lo + hi) >>> 1)
  else none
termination_by hi - lo
decreasing_by
  all_goals
    rw [Nat.shiftRight_one]
    omega

/-- `append_lowercase_cp`. -/
def appendLowercaseCp (cp : ℕ) : List ℕ :=
  if 0x41 ≤ cp ∧ cp ≤ 0x5A then [cp + 0x20]
  else
    match findEntry mtlLowerTable cp 0 698 with
    | some data => data
    | none => [cp]

/-- The parts of a Hangul syllable. -/
def hangulParts (base : ℕ) : List ℕ :=
  [0x1100 + base / (21 * 28), 0x1161 + base % (21 * 28) / 28] ++
    if base % 28 ≠ 0 then [0x11A7 + base % 28] else []

/-- `append_nfkd_cp`. -/
def appendNfkdCp (cp : ℕ) : List ℕ :=
  if 0xAC00 ≤ cp ∧ cp ≤ 0xD7A3 then hangulParts (cp - 0xAC00)
  else
    match findEntry mtlNfkdTable cp 0 2518 with
    | some data => data
    | none => [cp]

/-- `combining_class`. Its search is `find_entry`. -/
def combiningClass (cp : ℕ) : ℕ :=
  if cp < 0x0300 then 0 else (findEntry mtlCccTable cp 0 922).getD 0

/-- A code point of combining class 0. -/
def isStarter (cp : ℕ) : Bool := combiningClass cp == 0

/-- `canonical_reorder`: every run of marks is sorted. -/
def canonicalReorder (cps : List ℕ) : List ℕ :=
  if cps.dropWhile isStarter = [] then cps
  else
    cps.takeWhile isStarter ++
      ((cps.dropWhile isStarter).takeWhile fun cp => !isStarter cp).insertionSort
        (fun a b => combiningClass a ≤ combiningClass b) ++
      canonicalReorder ((cps.dropWhile isStarter).dropWhile fun cp => !isStarter cp)
termination_by cps.length
decreasing_by
  rename_i hrest
  have hhead := List.head_dropWhile_not isStarter hrest
  have hlt : ((cps.dropWhile isStarter).dropWhile fun cp => !isStarter cp).length <
      (cps.dropWhile isStarter).length := by
    rw [← List.cons_head_tail hrest, List.dropWhile_cons, hhead, List.length_cons]
    exact Nat.lt_succ_of_le (List.dropWhile_sublist _).length_le
  exact hlt.trans_le (List.dropWhile_sublist _).length_le

/-- `nfkd_normalize`. -/
def nfkdNormalize (s : List UInt8) : List UInt8 :=
  cpsToUtf8 (canonicalReorder ((utf8ToCps s).flatMap appendNfkdCp))

/-- `utf8_lowercase`. -/
def utf8Lowercase (s : List UInt8) : List UInt8 :=
  cpsToUtf8 ((utf8ToCps s).flatMap appendLowercaseCp)

/-- `korean_normalize`. -/
def koreanNormalize (s : List UInt8) : List UInt8 :=
  let out := (utf8ToCps s).flatMap fun cp =>
    if 0xAC00 ≤ cp ∧ cp ≤ 0xD7AF then hangulParts (cp - 0xAC00) else [cp]
  cpsToUtf8 ((out.dropWhile cpIsSpace).rdropWhile cpIsSpace)

end Chatterbox

end WhisperCpp
