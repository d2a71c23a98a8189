import Mathlib.Algebra.Order.Field.Basic
import WhisperCpp.Library.Fuel
import WhisperCpp.Library.Literals
import WhisperCpp.Library.Rounding

/-!
# The loudness of a signal

`measure_lufs` weights a signal with two filters and takes the mean square of blocks of 400 ms. A
signal is too short if it has fewer samples than 0.4 of the rate, towards zero, but the blocks have as
many as that rounds to, and the step from one to the next is a rounded tenth of the rate.

## Main definitions

* `blockSize`, `hop`, `nBlocks` — the layout
* `measureLufs` — with the divisions and reads that can fail

## Main results

* `trunc_tenths`, `roundAway_tenths` — what is left of the rounding in double precision
* `measureLufs_returns_iff` — when there is neither a division by zero nor a read behind the end
-/

namespace WhisperCpp

namespace Chatterbox

namespace Loudness

open Rounding Fuel

attribute [local instance] Literals.atLeastTwo_two Literals.atLeastTwo_ten
  Literals.atLeastTwo_twenty

/-! ### The function -/

/-- What `measure_lufs` must not do. -/
inductive LoudnessFault where
  | divisionByZero
  | outOfBounds
  deriving DecidableEq

/-- The functions of `cmath`, and `M_PI`. -/
structure LoudnessMath (K : Type) where
  pi : K
  tan : K → K
  pow : K → K → K
  log10 : K → K

/-- An `int` made of a size. -/
def toInt (n : ℕ) : ℤ := (n : ℤ).bmod 4294967296

/-- `(int)(0.4 * sr)`. -/
def minLength (sr : ℤ) : ℤ := trunc (fl 53 (fl 53 (4 / 10) * sr))

/-- `(int)std::round(0.4 * sr)`. -/
def blockSize (sr : ℤ) : ℤ := roundAway (fl 53 (fl 53 (4 / 10) * sr))

/-- `(int)std::round(0.1 * sr)`. -/
def hop (sr : ℤ) : ℤ := roundAway (fl 53 (fl 53 (1 / 10) * sr))

section Function

variable {K : Type} [Field K] [LinearOrder K] (M : LoudnessMath K)

/-- A division. -/
def divide (x y : K) : Except LoudnessFault K :=
  if y = 0 then .error .divisionByZero else .ok (x / y)

/-- A read of the filtered signal. -/
def readAt (filt : List K) (i : ℕ) : Except LoudnessFault K :=
  match filt[i]? with
  | none => .error .outOfBounds
  | some x => .ok x

/-- The coefficients of `_biquad`. -/
structure Biquad (K : Type) where
  b0 : K
  b1 : K
  b2 : K
  a1 : K
  a2 : K

/-- `_kweight_shelf`. -/
def kweightShelf (sr : ℤ) : Except LoudnessFault (Biquad K) := do
  let q : K := 0.7071752369554196
  let angle ← divide (M.pi * 1681.97453899761) (sr : K)
  let k := M.tan angle
  let vh := M.pow 10 (3.999843853973347 / 20)
  let vb := M.pow vh 0.499666774155719
  let a0 := 1 + k / q + k * k
  let b0 ← divide (vh + vb * k / q + k * k) a0
  let b1 ← divide (2 * (k * k - vh)) a0
  let b2 ← divide (vh - vb * k / q + k * k) a0
  let a1 ← divide (2 * (k * k - 1)) a0
  let a2 ← divide (1 - k / q + k * k) a0
  .ok { b0, b1, b2, a1, a2 }

/-- `_kweight_hipass`. -/
def kweightHipass (sr : ℤ) : Except LoudnessFault (Biquad K) := do
  let q : K := 0.5003270373238773
  let angle ← divide (M.pi * 38.13547087602444) (sr : K)
  let k := M.tan angle
  let a0 := 1 + k / q + k * k
  let a1 ← divide (2 * (k * k - 1)) a0
  let a2 ← divide (1 - k / q + k * k) a0
  let b0 ← divide 1 a0
  let b1 ← divide (-2) a0
  let b2 ← divide 1 a0
  .ok { b0, b1, b2, a1, a2 }

/-- `process`, over a signal: the last two inputs and outputs are kept. -/
def Biquad.process (f : Biquad K) : K → K → K → K → List K → List K
  | _, _, _, _, [] => []
  | x1, x2, y1, y2, x :: xs =>
    let y := f.b0 * x + f.b1 * x1 + f.b2 * x2 - f.a1 * y1 - f.a2 * y2
    y :: f.process x x1 y y1 xs

/-- `n_blocks`, of a signal of so many samples. -/
def nBlocks (n : ℕ) (sr : ℤ) : Except LoudnessFault ℤ :=
  if hop sr = 0 then .error .divisionByZero
  else .ok (max 0 ((toInt n - blockSize sr).tdiv (hop sr) + 1))

/-- The mean square of a block. -/
def blockEnergy (filt : List K) (sr : ℤ) (b : ℕ) : Except LoudnessFault K := do
  let sum ← (List.range (blockSize sr).toNat).foldlM (fun sum i => do
    let p ← readAt filt (b * (hop sr).toNat + i)
    .ok (sum + p * p)) 0
  divide sum (blockSize sr : K)

/-- The loudness of a mean square. -/
def loudness (z : K) : K := -0.691 + 10 * M.log10 (max z 1e-30)

/-- The mean of those above a threshold, if there are any. -/
def gatedMean (zs : List K) (keep : K → Bool) : Except LoudnessFault (Option K) :=
  let kept := zs.filter keep
  if kept.length = 0 then .ok none
  else do
    let mean ← divide kept.sum (kept.length : K)
    .ok (some mean)

/-- `measure_lufs`. There is no value when it returns minus infinity. -/
def measureLufs (wav : List K) (sr : ℤ) : Except LoudnessFault (Option K) := do
  if toInt wav.length < minLength sr then .ok none
  else
    let s1 ← kweightShelf M sr
    let s2 ← kweightHipass M sr
    let filt := s2.process 0 0 0 0 (s1.process 0 0 0 0 wav)
    let n ← nBlocks filt.length sr
    if n ≤ 0 then .ok none
    else
      let zs ← (List.range n.toNat).mapM (blockEnergy filt sr)
      let absolute ← gatedMean zs fun z => -70 ≤ loudness M z
      match absolute with
      | none => .ok none
      | some meanAbs =>
        let threshold := loudness M meanAbs - 10
        let relative ← gatedMean zs fun z => -70 ≤ loudness M z && threshold ≤ loudness M z
        match relative with
        | none => .ok none
        | some meanRel => .ok (some (loudness M meanRel))

end Function

/-! ### The layout -/

section Layout

variable {sr : ℤ} {a : ℤ} {c : ℚ}

/-- A number of tenths in double precision is not below it, and not far above. -/
structure NearTenths (a : ℤ) (c : ℚ) : Prop where
  pos : 0 < a
  le : a ≤ 4
  ge : (a : ℚ) / 10 ≤ c
  close : c ≤ a / 10 + 1 / 10 ^ 15

theorem nearTenths_four : NearTenths 4 (fl 53 (4 / 10)) := by
  have hvalue : fl 53 (4 / 10) = 3602879701896397 / 9007199254740992 := by decide +kernel
  refine ⟨by decide, by decide, ?_, ?_⟩ <;> · rw [hvalue]; norm_num

theorem nearTenths_one : NearTenths 1 (fl 53 (1 / 10)) := by
  have hvalue : fl 53 (1 / 10) = 3602879701896397 / 36028797018963968 := by decide +kernel
  refine ⟨by decide, by decide, ?_, ?_⟩ <;> · rw [hvalue]; norm_num

variable (h0 : 0 < sr) (h1 : sr < 2 ^ 31) (h : NearTenths a c)

include h0 h1 h

/-- The product is close above the exact one, and the grid is finer than a half there. -/
theorem NearTenths.bounds : 0 < c * sr ∧ (a : ℚ) * sr / 10 ≤ c * sr ∧
    c * sr ≤ a * sr / 10 + 1 / 10 ^ 5 ∧ |c * sr| < 2 ^ 30 := by
  have hsr : (0 : ℚ) < sr := by exact_mod_cast h0
  have hsr' : (sr : ℚ) < 2 ^ 31 := by exact_mod_cast h1
  have ha : (0 : ℚ) < a := by exact_mod_cast h.pos
  have ha' : (a : ℚ) ≤ 4 := by exact_mod_cast h.le
  have hlow : (a : ℚ) * sr / 10 ≤ c * sr := by
    have hmul := mul_le_mul_of_nonneg_right h.ge hsr.le
    linarith
  have hhigh : c * sr ≤ a * sr / 10 + 1 / 10 ^ 5 := by
    have hmul := mul_le_mul_of_nonneg_right h.close hsr.le
    have hsmall : (sr : ℚ) * (1 / 10 ^ 15) ≤ 1 / 10 ^ 5 := by
      have hten : (sr : ℚ) ≤ 10 ^ 10 := le_trans hsr'.le (by norm_num)
      calc (sr : ℚ) * (1 / 10 ^ 15) ≤ 10 ^ 10 * (1 / 10 ^ 15) := by gcongr
        _ = 1 / 10 ^ 5 := by norm_num
    linarith
  have hpos : 0 < c * sr := lt_of_lt_of_le (by positivity) hlow
  refine ⟨hpos, hlow, hhigh, ?_⟩
  rw [abs_of_pos hpos]
  have hprod : (a : ℚ) * sr ≤ 4 * 2 ^ 31 := by gcongr
  calc c * sr ≤ a * sr / 10 + 1 / 10 ^ 5 := hhigh
    _ ≤ 4 * 2 ^ 31 / 10 + 1 / 10 ^ 5 := by gcongr
    _ < 2 ^ 30 := by norm_num

/-- The rounded product is not above a tenth more. -/
theorem NearTenths.fl_lt : fl 53 (c * sr) < a * sr / 10 + 1 / 10 := by
  obtain ⟨hpos, -, hhigh, hlt⟩ := h.bounds h0 h1
  have herr := (abs_le.mp (abs_fl_sub_le 53 (c * sr))).2
  have hsmall : |c * sr| / 2 ^ 53 ≤ 1 / 2 ^ 23 := by
    rw [div_le_iff₀ (by positivity)]
    exact le_trans hlt.le (by norm_num)
  have hsum : (1 : ℚ) / 10 ^ 5 + 1 / 2 ^ 23 < 1 / 10 := by norm_num
  linarith

/-- A half that is not above the exact product is not above the rounded one. -/
theorem NearTenths.le_fl {n : ℤ} (hn : 10 * n ≤ 2 * (a * sr)) : (n : ℚ) / 2 ≤ fl 53 (c * sr) := by
  obtain ⟨hpos, hlow, -, hlt⟩ := h.bounds h0 h1
  obtain ⟨m, hm⟩ := @exists_eq_mul_ulp 53 1 (c * sr) hpos.ne' (lt_trans hlt (by norm_num)) n
  rw [pow_one] at hm
  refine Rounding.le_fl hm (le_trans ?_ hlow)
  have hn' : (10 : ℚ) * n ≤ 2 * (a * sr) := by exact_mod_cast hn
  linarith

/-- **Towards zero**: nothing is left of the rounding. -/
theorem trunc_tenths : trunc (fl 53 (c * sr)) = a * sr / 10 := by
  have hlow : ((2 * (a * sr / 10) : ℤ) : ℚ) / 2 ≤ fl 53 (c * sr) := h.le_fl h0 h1 (by omega)
  have hhigh := h.fl_lt h0 h1
  have hnonneg : 0 ≤ fl 53 (c * sr) := fl_nonneg 53 (h.bounds h0 h1).1.le
  have hrest : (a : ℚ) * sr ≤ 10 * (a * sr / 10 : ℤ) + 9 := by
    have hint : a * sr ≤ 10 * (a * sr / 10) + 9 := by omega
    exact_mod_cast hint
  rw [trunc, if_pos hnonneg, Int.floor_eq_iff]
  push_cast at hlow ⊢
  constructor <;> linarith

/-- **To the nearest**, where a tie stays one. -/
theorem roundAway_tenths : roundAway (fl 53 (c * sr)) = (a * sr + 5) / 10 := by
  have hlow : ((2 * ((a * sr + 5) / 10) - 1 : ℤ) : ℚ) / 2 ≤ fl 53 (c * sr) :=
    h.le_fl h0 h1 (by omega)
  have hhigh := h.fl_lt h0 h1
  have hnonneg : 0 ≤ fl 53 (c * sr) := fl_nonneg 53 (h.bounds h0 h1).1.le
  have hrest : (a : ℚ) * sr + 5 ≤ 10 * ((a * sr + 5) / 10 : ℤ) + 9 := by
    have hint : a * sr + 5 ≤ 10 * ((a * sr + 5) / 10) + 9 := by omega
    exact_mod_cast hint
  rw [roundAway, if_pos hnonneg, Int.floor_eq_iff]
  push_cast at hlow ⊢
  constructor <;> linarith

omit h in
theorem minLength_eq : minLength sr = 4 * sr / 10 := trunc_tenths h0 h1 nearTenths_four

omit h in
theorem blockSize_eq : blockSize sr = (4 * sr + 5) / 10 := roundAway_tenths h0 h1 nearTenths_four

omit h in
theorem hop_eq : hop sr = (sr + 5) / 10 := by
  rw [hop, roundAway_tenths h0 h1 nearTenths_one, one_mul]

end Layout

/-! ### The divisions and reads -/

section Returns

variable {K : Type} [Field K] [LinearOrder K] [IsStrictOrderedRing K] (M : LoudnessMath K)
  {wav filt : List K} {sr : ℤ}

omit [IsStrictOrderedRing K] in
theorem divide_of_ne {x y : K} (h : y ≠ 0) : divide x y = .ok (x / y) := if_neg h

/-- The denominator of a filter has no root, as `q` is above a half. -/
theorem a0_pos {q : K} (hq : 1 / 2 < q) (k : K) : 0 < 1 + k / q + k * k := by
  have hq0 : 0 < q := lt_trans (by norm_num) hq
  have hsquare : 1 + k / q + k * k = (k + 1 / (2 * q)) ^ 2 + (1 - 1 / (4 * q ^ 2)) := by
    field_simp
    ring
  have hrest : 0 < 1 - 1 / (4 * q ^ 2) := by
    rw [sub_pos, div_lt_one (by positivity)]
    nlinarith
  rw [hsquare]
  positivity

/-- **The filters** are there for every rate. -/
theorem kweightShelf_succeeds (h : sr ≠ 0) : Succeeds (kweightShelf M sr) := by
  have hsr : (sr : K) ≠ 0 := Int.cast_ne_zero.mpr h
  have ha0 : ∀ k : K, 1 + k / 0.7071752369554196 + k * k ≠ 0 := fun k => (a0_pos (by norm_num) k).ne'
  rw [kweightShelf, succeeds_bind_of_ok (divide_of_ne hsr), succeeds_bind_of_ok (divide_of_ne (ha0 _)),
    succeeds_bind_of_ok (divide_of_ne (ha0 _)), succeeds_bind_of_ok (divide_of_ne (ha0 _)),
    succeeds_bind_of_ok (divide_of_ne (ha0 _)), succeeds_bind_of_ok (divide_of_ne (ha0 _))]
  exact succeeds_ok _

theorem kweightHipass_succeeds (h : sr ≠ 0) : Succeeds (kweightHipass M sr) := by
  have hsr : (sr : K) ≠ 0 := Int.cast_ne_zero.mpr h
  have ha0 : ∀ k : K, 1 + k / 0.5003270373238773 + k * k ≠ 0 := fun k => (a0_pos (by norm_num) k).ne'
  rw [kweightHipass, succeeds_bind_of_ok (divide_of_ne hsr),
    succeeds_bind_of_ok (divide_of_ne (ha0 _)), succeeds_bind_of_ok (divide_of_ne (ha0 _)),
    succeeds_bind_of_ok (divide_of_ne (ha0 _)), succeeds_bind_of_ok (divide_of_ne (ha0 _)),
    succeeds_bind_of_ok (divide_of_ne (ha0 _))]
  exact succeeds_ok _

omit [LinearOrder K] [IsStrictOrderedRing K] in
theorem length_process (f : Biquad K) (x1 x2 y1 y2 : K) (xs : List K) :
    (f.process x1 x2 y1 y2 xs).length = xs.length := by
  induction xs generalizing x1 x2 y1 y2 with
  | nil => rfl
  | cons x xs ih => rw [Biquad.process, List.length_cons, ih, List.length_cons]

/-- The gates never divide by zero. -/
theorem gatedMean_succeeds (zs : List K) (keep : K → Bool) : Succeeds (gatedMean zs keep) := by
  rw [gatedMean]
  split_ifs with hnone
  · exact succeeds_ok none
  · have hne : ((zs.filter keep).length : K) ≠ 0 := Nat.cast_ne_zero.mpr hnone
    rw [succeeds_bind_of_ok (divide_of_ne hne)]
    exact succeeds_ok _

omit [Field K] [LinearOrder K] [IsStrictOrderedRing K] in
theorem succeeds_readAt_iff {i : ℕ} : Succeeds (readAt filt i) ↔ i < filt.length := by
  rw [readAt]
  by_cases hi : i < filt.length
  · rw [List.getElem?_eq_getElem hi]
    exact iff_of_true (succeeds_ok _) hi
  · rw [List.getElem?_eq_none (Nat.not_lt.mp hi)]
    exact iff_of_false (not_succeeds_error _) hi

/-- **A block** is read if it ends in front of the end of the signal. -/
theorem succeeds_blockEnergy_iff {b : ℕ} (hblock : 0 < blockSize sr) :
    Succeeds (blockEnergy filt sr b) ↔
      b * (hop sr).toNat + (blockSize sr).toNat ≤ filt.length := by
  have hne : (blockSize sr : K) ≠ 0 := Int.cast_ne_zero.mpr hblock.ne'
  have hround : ∀ (sum : K) (i : ℕ), Succeeds (do
      let p ← readAt filt (b * (hop sr).toNat + i)
      .ok (sum + p * p)) ↔ b * (hop sr).toNat + i < filt.length := by
    intro sum i
    rw [succeeds_bind_iff, ← succeeds_readAt_iff]
    exact ⟨fun ⟨p, hp, _⟩ => ⟨p, hp⟩, fun ⟨p, hp⟩ => ⟨p, hp, succeeds_ok _⟩⟩
  have hloop := succeeds_foldlM_iff (fun sum i (_ : i ∈ List.range (blockSize sr).toNat) =>
    hround sum i) (0 : K)
  rw [blockEnergy, succeeds_bind_iff]
  have hlast : (∀ i ∈ List.range (blockSize sr).toNat, b * (hop sr).toNat + i < filt.length) ↔
      b * (hop sr).toNat + (blockSize sr).toNat ≤ filt.length := by
    constructor
    · intro hall
      have hend := hall ((blockSize sr).toNat - 1) (List.mem_range.mpr (by omega))
      omega
    · intro hle i hi
      have hlt := List.mem_range.mp hi
      omega
  rw [← hlast, ← hloop]
  exact ⟨fun ⟨sum, hsum, _⟩ => ⟨sum, hsum⟩,
    fun ⟨sum, hsum⟩ => ⟨sum, hsum, _, divide_of_ne hne⟩⟩

/-- Behind the blocks nothing fails. -/
theorem succeeds_gates (zs : List K) : Succeeds (do
    let absolute ← gatedMean zs fun z => -70 ≤ loudness M z
    match absolute with
    | none => (.ok none : Except LoudnessFault (Option K))
    | some meanAbs =>
      let threshold := loudness M meanAbs - 10
      let relative ← gatedMean zs fun z => -70 ≤ loudness M z && threshold ≤ loudness M z
      match relative with
      | none => .ok none
      | some meanRel => .ok (some (loudness M meanRel))) := by
  obtain ⟨absolute, habs⟩ := gatedMean_succeeds zs fun z => decide (-70 ≤ loudness M z)
  rw [succeeds_bind_of_ok habs]
  cases absolute with
  | none => exact succeeds_ok none
  | some meanAbs =>
    obtain ⟨relative, hrel⟩ := gatedMean_succeeds zs fun z =>
      decide (-70 ≤ loudness M z) && decide (loudness M meanAbs - 10 ≤ loudness M z)
    simp only
    rw [succeeds_bind_of_ok hrel]
    cases relative <;> exact succeeds_ok _

/-- **What decides**: the step, and the end of every block. -/
theorem succeeds_measureLufs_iff (h0 : 0 < sr) (h1 : sr < 2 ^ 31) :
    Succeeds (measureLufs M wav sr) ↔ toInt wav.length < minLength sr ∨ hop sr ≠ 0 ∧
      ∀ b : ℕ, (b : ℤ) < (toInt wav.length - blockSize sr).tdiv (hop sr) + 1 →
        b * (hop sr).toNat + (blockSize sr).toNat ≤ wav.length := by
  obtain ⟨s1, hs1⟩ := kweightShelf_succeeds M h0.ne'
  obtain ⟨s2, hs2⟩ := kweightHipass_succeeds M h0.ne'
  have hlen : (s2.process 0 0 0 0 (s1.process 0 0 0 0 wav)).length = wav.length := by
    rw [length_process, length_process]
  rw [measureLufs]
  split_ifs with hshort
  · exact iff_of_true (succeeds_ok none) (.inl hshort)
  · rw [succeeds_bind_of_ok hs1, succeeds_bind_of_ok hs2, or_iff_right hshort]
    simp only [nBlocks, hlen]
    by_cases hhop : hop sr = 0
    · rw [if_pos hhop]
      exact iff_of_false (not_succeeds_error _) fun h => h.1 hhop
    · rw [if_neg hhop, succeeds_bind_of_ok rfl, and_iff_right hhop]
      have hblock : 0 < blockSize sr := by
        rw [hop_eq h0 h1] at hhop
        rw [blockSize_eq h0 h1]
        omega
      set n := (toInt wav.length - blockSize sr).tdiv (hop sr) + 1
      split_ifs with hn
      · refine iff_of_true (succeeds_ok none) fun b hb => ?_
        omega
      · have hall := @succeeds_mapM_iff _ _ _ (blockEnergy (s2.process 0 0 0 0
          (s1.process 0 0 0 0 wav)) sr) (List.range (max 0 n).toNat)
        rw [succeeds_bind_iff]
        have hrest : (∃ zs, (List.range (max 0 n).toNat).mapM (blockEnergy (s2.process 0 0 0 0
            (s1.process 0 0 0 0 wav)) sr) = .ok zs) ↔ ∀ b : ℕ, (b : ℤ) < n →
              b * (hop sr).toNat + (blockSize sr).toNat ≤ wav.length := by
          refine hall.trans (forall_congr' fun b => ?_)
          rw [List.mem_range, succeeds_blockEnergy_iff hblock, hlen]
          refine imp_congr_left ?_
          omega
        rw [← hrest]
        exact exists_congr fun zs => and_iff_left (succeeds_gates M zs)

/-- The signals that are read behind their end, or divided by the rate of: below 5 Hz every signal that
is not too short, and from 15 Hz on the one that is as long as the 0.4 of the rate that are rounded
down when the block rounds it up. -/
def Overrun (n : ℕ) (sr : ℤ) : Prop :=
  sr < 5 ∧ 2 * sr / 5 ≤ toInt n ∨
    15 ≤ sr ∧ (sr % 5 = 2 ∨ sr % 5 = 4) ∧ (n : ℤ) = 2 * sr / 5

/-- What is left of a number in an `int`: the number, or at least all ints less. -/
theorem bmod_cases {x : ℤ} (h : 0 ≤ x) :
    (x < 2147483648 ∧ x.bmod 4294967296 = x) ∨
      (2147483648 ≤ x ∧ x.bmod 4294967296 + 4294967296 ≤ x) := by
  rw [Int.bmod_eq_emod]
  split <;> omega

theorem toInt_cases (n : ℕ) : toInt n = n ∨ toInt n + 4294967296 ≤ n :=
  (bmod_cases (Int.natCast_nonneg n)).imp And.right And.right

theorem toInt_of_lt {n : ℕ} (h : n < 2147483648) : toInt n = n := by
  rcases bmod_cases (Int.natCast_nonneg n) with hn | hn
  · exact hn.2
  · have hle := hn.1
    omega

/-- The blocks end in front of the end, unless one is longer than the signal. -/
theorem blocks_fit_iff {n t step block : ℤ} (hstep : 0 < step) (hnt : t = n ∨ t + 4294967296 ≤ n) (hle : block ≤ t + 1) :
    (∀ b : ℕ, (b : ℤ) < (t - block).tdiv step + 1 → b * step + block ≤ n) ↔
      ¬ (2 ≤ step ∧ n = block - 1) := by
  by_cases hfull : block ≤ t
  · refine iff_of_true (fun b hb => ?_) (by omega)
    rw [Int.tdiv_eq_ediv_of_nonneg (by omega)] at hb
    have hmul := (Int.le_ediv_iff_mul_le hstep).mp (Int.lt_add_one_iff.mp hb)
    omega
  · have ht : t - block = -1 := by omega
    rw [ht]
    by_cases hone : step = 1
    · refine iff_of_true (fun b hb => ?_) (by omega)
      rw [hone, Int.tdiv_one] at hb
      omega
    · have hzero : (-1 : ℤ).tdiv step = 0 := by
        rw [Int.neg_tdiv, Int.tdiv_eq_ediv_of_nonneg (by decide), Int.ediv_eq_zero_of_lt (by decide) (by omega)]
        rfl
      rw [hzero]
      constructor
      · intro h
        have hfirst := h 0 (by decide)
        omega
      · intro h b hb
        obtain rfl : b = 0 := by omega
        omega

/-- **There is neither a division by zero nor a read behind the end**, for every rate and signal but
these. -/
theorem measureLufs_returns_iff (h0 : 0 < sr) (h1 : sr < 2 ^ 31) :
    Succeeds (measureLufs M wav sr) ↔ ¬ Overrun wav.length sr := by
  have hint : ∀ b : ℕ, b * ((sr + 5) / 10).toNat + ((4 * sr + 5) / 10).toNat ≤ wav.length ↔
      (b : ℤ) * ((sr + 5) / 10) + (4 * sr + 5) / 10 ≤ (wav.length : ℤ) := by
    intro b
    rw [← Int.ofNat_le]
    push_cast
    rw [Int.toNat_of_nonneg (by omega), Int.toNat_of_nonneg (by omega)]
  rw [succeeds_measureLufs_iff M h0 h1, minLength_eq h0 h1, blockSize_eq h0 h1, hop_eq h0 h1, Overrun]
  simp only [hint]
  have hcases := toInt_cases wav.length
  by_cases hshort : toInt wav.length < 4 * sr / 10
  · refine iff_of_true (.inl hshort) ?_
    rintro (⟨-, hle⟩ | ⟨-, -, hlen⟩)
    · omega
    · rw [toInt_of_lt (by omega)] at hshort
      omega
  · rw [or_iff_right hshort]
    by_cases hlow : sr < 5
    · refine iff_of_false (fun h => h.1 (by omega)) ?_
      rw [not_not]
      exact .inl ⟨hlow, by omega⟩
    · rw [blocks_fit_iff (by omega) hcases (by omega)]
      have hrest : sr % 5 = 0 ∨ sr % 5 = 1 ∨ sr % 5 = 2 ∨ sr % 5 = 3 ∨ sr % 5 = 4 := by omega
      rcases hrest with h5 | h5 | h5 | h5 | h5 <;> omega

end Returns

/-- Functions to run it with. -/
def plainMath : LoudnessMath ℚ := ⟨0, id, fun x _ => x, id⟩

/-- At 16 kHz a signal of 6400 samples has one block. -/
theorem measureLufs_returns_oneBlock :
    Succeeds (measureLufs plainMath (List.replicate 6400 0) 16000) := by
  refine (measureLufs_returns_iff plainMath (by decide) (by decide)).mpr ?_
  rintro (⟨hlow, -⟩ | ⟨-, hrest, -⟩)
  · exact absurd hlow (by decide)
  · exact absurd hrest (by decide)

/-- At 4 Hz the step is zero, and at 44102 Hz a signal of 17640 samples has one block of 17641. -/
theorem not_forall_measureLufs_returns :
    ¬ Succeeds (measureLufs plainMath [0, 0] 4) ∧
      ¬ Succeeds (measureLufs plainMath
        (List.replicate 17640 0) 44102) ∧
      ¬ ∀ (M : LoudnessMath ℚ) (wav : List ℚ) (sr : ℤ), 0 < sr → sr < 2 ^ 31 →
        Succeeds (measureLufs M wav sr) := by
  have hlow : ¬ Succeeds (measureLufs plainMath [0, 0] 4) := by
    rw [succeeds_measureLufs_iff _ (by decide) (by decide), minLength_eq (by decide) (by decide),
      hop_eq (by decide) (by decide), toInt_of_lt (by decide)]
    rintro (hshort | ⟨hhop, -⟩)
    · exact absurd hshort (by decide)
    · exact absurd hhop (by decide)
  have hlong : ¬ Succeeds (measureLufs plainMath
      (List.replicate 17640 0) 44102) := by
    rw [succeeds_measureLufs_iff _ (by decide) (by decide), minLength_eq (by decide) (by decide),
      hop_eq (by decide) (by decide), blockSize_eq (by decide) (by decide), List.length_replicate,
      toInt_of_lt (by norm_num)]
    rintro (hshort | ⟨-, hblocks⟩)
    · norm_num at hshort
    · exact absurd (hblocks 0 (by decide)) (by decide)
  exact ⟨hlow, hlong, fun h => hlow (h _ _ 4 (by decide) (by decide))⟩

end Loudness

end Chatterbox

end WhisperCpp
