import WhisperCpp.Library.Literals
import WhisperCpp.Parakeet.FftInPlace

/-!
# The power spectrum of a frame

`rfft_power_radix2` packs a real frame into half as many complex numbers, transforms them in place
and puts the spectrum of the frame together.

## Main definitions

* `pack`, `unpack`, `unpackEnds` — the loops around the transform
* `rfftPowerRadix2` — `rfft_power_radix2`
* `dftBin` — a bin of the discrete Fourier transform

## Main results

* `unpackBin_eq` — a bin is put together
* `returns_rfftPowerRadix2` — the squared magnitudes of the bins
* `exact_realTrig` — over the reals the twiddles are the roots of one
* `rfftPowerRadix2_iff` — when the power spectrum is returned
-/

namespace WhisperCpp

namespace Parakeet

open Mel (Cplx)
open Fourier (transform)
open Fuel (Returns)

attribute [local instance] Literals.atLeastTwo_two

section Definitions

variable {K : Type} [Field K]

/-- `y[k] = x[2k] + i*x[2k+1]`. -/
def pack (half : ℕ) (xReal : ℕ → K) (scratch : ℕ → Cplx K) : ℕ → Cplx K :=
  (List.range half).foldl (fun scratch k =>
    Function.update scratch k ⟨xReal (2 * k), xReal (2 * k + 1)⟩) scratch

/-- `xk`, from `scratch[k]`, `scratch[half - k]` and the twiddle. -/
def unpackBin (y z w : Cplx K) : Cplx K :=
  let ym := star z
  let ye := (y + ym) * QuadraticAlgebra.C (1 / 2)
  let dif := (y - ym) * QuadraticAlgebra.C (1 / 2)
  let yo : Cplx K := ⟨dif.im, -dif.re⟩
  ye + w * yo

/-- The powers of the bins between the first and the last. -/
def unpack (half : ℕ) (wN : List (Cplx K)) (scratch : ℕ → Cplx K) (power : ℕ → K) : ℕ → K :=
  (List.range' 1 (half - 1)).foldl (fun power k =>
    let xk := unpackBin (scratch k) (scratch (half - k)) (wN.getD k 0)
    Function.update power k (xk.re * xk.re + xk.im * xk.im)) power

/-- The powers of the first bin and of the last one. -/
def unpackEnds (half : ℕ) (scratch : ℕ → Cplx K) (power : ℕ → K) : ℕ → K :=
  let r0 := (scratch 0).re + (scratch 0).im
  let rNy := (scratch 0).re - (scratch 0).im
  Function.update (Function.update power 0 (r0 * r0)) half (rNy * rNy)

/-- What a call leaves in the memory. -/
structure RfftOut (T : Trig K) where
  power : ℕ → K
  scratch : ℕ → Cplx K
  cache : List (FftTwiddleTable T)

/-- `rfft_power_radix2`. -/
def rfftPowerRadix2 (T : Trig K) (fuel : ℕ) (xReal power : ℕ → K) (nFft : ℕ) (scratch : ℕ → Cplx K)
    (cache : List (FftTwiddleTable T)) : Except FftStop (RfftOut T) := do
  let half := nFft / 2
  let fft ← fftRadix2Inplace T fuel (pack half xReal scratch) half cache
  let scratch := fft.1
  let twiddles ← getFftTwiddles T fuel nFft fft.2
  let wN := twiddles.1.drop (nFft / 2 - 1)
  return ⟨unpack half wN scratch (unpackEnds half scratch power), scratch, twiddles.2⟩

end Definitions

/-! ### The spectrum of a real frame -/

section Spectrum

variable {K : Type} [Field K] [CharZero K] {T : Trig K} {h k : ℕ}

/-- The imaginary unit. -/
def unit (K : Type) [CommRing K] : Cplx K := ⟨0, 1⟩

omit [CharZero K] in
theorem pack_apply (hk : k < h) (x : ℕ → K) (scratch : ℕ → Cplx K) :
    pack h x scratch k = Fourier.packed (unit K) (fun j => QuadraticAlgebra.C (x j)) k := by
  have hvalue (k : ℕ) : (⟨x (2 * k), x (2 * k + 1)⟩ : Cplx K) =
      Fourier.packed (unit K) (fun j => QuadraticAlgebra.C (x j)) k := by
    rw [Fourier.packed, unit]
    ext <;> simp
  rw [pack]
  induction h with
  | zero => omega
  | succ h ih =>
    rw [List.range_succ, List.foldl_append]
    show Function.update _ h _ k = _
    obtain rfl | hne := eq_or_ne k h
    · rw [Function.update_self, hvalue]
    · rw [Function.update_of_ne hne]
      exact ih (by omega)

/-- The squared magnitude. -/
def sqMag (z : Cplx K) : K := z.re * z.re + z.im * z.im

omit [CharZero K] in
theorem sqMag_C (e : K) : sqMag (QuadraticAlgebra.C e) = e * e := by
  simp [sqMag]

omit [CharZero K] in
/-- The passes of the last loop. -/
theorem unpack_apply (wN : List (Cplx K)) (scratch : ℕ → Cplx K) (power : ℕ → K) (hk : k < h) :
    (0 < k → unpack h wN scratch power k =
      sqMag (unpackBin (scratch k) (scratch (h - k)) (wN.getD k 0))) ∧
      unpack h wN scratch power 0 = power 0 ∧ unpack h wN scratch power h = power h := by
  have hpasses (t : ℕ) : let r := (List.range' 1 t).foldl (fun power k =>
      let xk := unpackBin (scratch k) (scratch (h - k)) (wN.getD k 0)
      Function.update power k (xk.re * xk.re + xk.im * xk.im)) power
      (∀ k, 0 < k → k ≤ t → r k =
        sqMag (unpackBin (scratch k) (scratch (h - k)) (wN.getD k 0))) ∧
        ∀ k, k = 0 ∨ t < k → r k = power k := by
    induction t with
    | zero => exact ⟨fun k hpos hle => absurd hpos (by omega), fun _ _ => rfl⟩
    | succ t ih =>
      obtain ⟨hwritten, hother⟩ := ih
      simp only [List.range'_1_concat, List.foldl_append, List.foldl_cons, List.foldl_nil]
      refine ⟨fun k hpos hle => ?_, fun k hk => ?_⟩
      · obtain rfl | hne := eq_or_ne k (1 + t)
        · rw [Function.update_self, sqMag]
        · rw [Function.update_of_ne hne]
          exact hwritten k hpos (by omega)
      · rw [Function.update_of_ne (by omega)]
        exact hother k (by omega)
  obtain ⟨hwritten, hother⟩ := hpasses (h - 1)
  exact ⟨fun hpos => hwritten k hpos (by omega), hother 0 (.inl rfl), hother h (.inr (by omega))⟩

/-- Half of twice a number. -/
theorem two_mul_mul_half (z : Cplx K) : 2 * z * QuadraticAlgebra.C (1 / 2) = z := by
  have htwo : (2 : Cplx K) * QuadraticAlgebra.C (1 / 2) = 1 := by
    rw [← one_add_one_eq_two, add_mul, one_mul, ← QuadraticAlgebra.C_add, add_halves]
    rfl
  rw [mul_right_comm, htwo, one_mul]

/-- **A bin is put together** from the transforms of the entries with even and with odd numbers. -/
theorem unpackBin_eq {y z w e o : Cplx K} (heven : y + star z = 2 * e)
    (hodd : y - star z = 2 * (unit K * o)) : unpackBin y z w = e + w * o := by
  rw [unpackBin, heven, hodd, two_mul_mul_half, two_mul_mul_half]
  congr 2
  rw [unit]
  ext <;> simp

omit [CharZero K] in
/-- The sum of real numbers is real. -/
theorem transform_C_zero (w : Cplx K) (x : ℕ → K) (h : ℕ) :
    transform w (fun j => QuadraticAlgebra.C (x j)) h 0 =
      QuadraticAlgebra.C (∑ j ∈ Finset.range h, x j) := by
  simp [transform]

omit [CharZero K] in
/-- The first bin of the packed frame has the sums of the entries with even and with odd numbers. -/
theorem transform_packed_zero (w : Cplx K) (x : ℕ → K) (h : ℕ) :
    transform w (Fourier.packed (unit K) fun j => QuadraticAlgebra.C (x j)) h 0 =
      ⟨∑ j ∈ Finset.range h, x (2 * j), ∑ j ∈ Finset.range h, x (2 * j + 1)⟩ := by
  rw [Fourier.transform_packed, transform_C_zero w (fun j => x (2 * j)),
    transform_C_zero w (fun j => x (2 * j + 1)), unit]
  generalize ∑ j ∈ Finset.range h, x (2 * j) = e
  generalize ∑ j ∈ Finset.range h, x (2 * j + 1) = o
  ext <;> simp

/-- **What the unpacking leaves**, when the packed frame has been transformed. -/
theorem unpack_eq (hT : T.Exact) {r k : ℕ} (hk : k ≤ 2 ^ r) (x power : ℕ → K) (data : ℕ → Cplx K)
    (hdata : ∀ k < 2 ^ r, data k = transform (wlen T (2 ^ r))
      (Fourier.packed (unit K) fun j => QuadraticAlgebra.C (x j)) (2 ^ r) k) :
    unpack (2 ^ r) ((twiddleTable T (r + 1)).drop (2 ^ r - 1)) data
        (unpackEnds (2 ^ r) data power) k =
      sqMag (transform (wlen T (2 ^ (r + 1))) (fun j => QuadraticAlgebra.C (x j)) (2 ^ (r + 1))
        k) := by
  have hpos : 0 < 2 ^ r := by positivity
  have htwo : 2 ^ (r + 1) = 2 * 2 ^ r := pow_succ' 2 r
  have hfirst := hdata 0 hpos
  rw [transform_packed_zero] at hfirst
  obtain ⟨-, hzero, hlast⟩ := unpack_apply ((twiddleTable T (r + 1)).drop (2 ^ r - 1)) data
    (unpackEnds (2 ^ r) data power) hpos
  obtain rfl | hpos' := Nat.eq_zero_or_pos k
  · rw [hzero, unpackEnds, Function.update_of_ne hpos.ne, Function.update_self, hfirst, htwo,
      Fourier.transform_two_mul, transform_C_zero _ (fun j => x (2 * j)),
      transform_C_zero _ (fun j => x (2 * j + 1)), pow_zero, one_mul, ← QuadraticAlgebra.C_add,
      sqMag_C]
  obtain rfl | hlt := hk.eq_or_lt
  · have hlastBin := Fourier.transform_two_mul_add (wlen T (2 ^ (r + 1)))
      (fun j => QuadraticAlgebra.C (x j)) (hT.half r) 0
    rw [Nat.zero_add, transform_C_zero _ (fun j => x (2 * j)),
      transform_C_zero _ (fun j => x (2 * j + 1)), pow_zero, one_mul] at hlastBin
    rw [hlast, unpackEnds, Function.update_self, hfirst, htwo, hlastBin, ← QuadraticAlgebra.C_sub,
      sqMag_C]
  · obtain ⟨hbin, -⟩ := unpack_apply ((twiddleTable T (r + 1)).drop (2 ^ r - 1)) data
      (unpackEnds (2 ^ r) data power) hlt
    have hreal (j : ℕ) :
        star (QuadraticAlgebra.C (x j) : Cplx K) = QuadraticAlgebra.C (x j) := by
      ext <;> simp
    have hunit : star (unit K) = -unit K := by
      rw [unit]
      ext <;> simp
    have heven := Fourier.packed_add_star (hT.norm r) (hT.pow_two_pow r) hreal hk hunit
    have hodd := Fourier.packed_sub_star (hT.norm r) (hT.pow_two_pow r) hreal hk hunit
    rw [← hdata k hlt, ← hdata (2 ^ r - k) (by omega)] at heven hodd
    rw [hbin hpos', unpackBin_eq heven hodd, getD_drop_twiddleTable T (Nat.lt_succ_self r) hlt,
      htwo, Fourier.transform_two_mul, hT.sq]

/-- **The power spectrum**, of a frame of a power of two of samples below `2 ^ 30`. -/
theorem returns_rfftPowerRadix2 (hT : T.Exact) {r : ℕ} (hr : r + 1 < 30) (x power : ℕ → K)
    (scratch : ℕ → Cplx K) (cache : List (FftTwiddleTable T)) :
    ∃ out, Returns (fun fuel => rfftPowerRadix2 T fuel x power (2 ^ (r + 1)) scratch cache) out ∧
      ∀ k ≤ 2 ^ r, out.power k =
        sqMag (transform (wlen T (2 ^ (r + 1))) (fun j => QuadraticAlgebra.C (x j)) (2 ^ (r + 1))
          k) := by
  have hhalf : 2 ^ (r + 1) / 2 = 2 ^ r := by rw [pow_succ, Nat.mul_div_cancel _ two_pos]
  obtain ⟨data, cache', hfft, hdata⟩ := returns_fftRadix2Inplace hT (by omega : r < 30)
    (pack (2 ^ r) x scratch) cache
  obtain ⟨cache'', htable⟩ := returns_getFftTwiddles hr cache'
  have hpacked (k : ℕ) (hk : k < 2 ^ r) : data k = transform (wlen T (2 ^ r))
      (Fourier.packed (unit K) fun j => QuadraticAlgebra.C (x j)) (2 ^ r) k := by
    rw [hdata k hk]
    exact Fourier.transform_congr _ (fun i hi => pack_apply hi x scratch) k
  refine ⟨⟨unpack (2 ^ r) ((twiddleTable T (r + 1)).drop (2 ^ r - 1)) data
    (unpackEnds (2 ^ r) data power), data, cache''⟩, ?_,
    fun k hk => unpack_eq hT hk x power data hpacked⟩
  simp only [rfftPowerRadix2, hhalf]
  exact hfft.bind (htable.bind (Fuel.returns_ok _))

omit [CharZero K] in
/-- For `2 ^ 30` samples there is none. -/
theorem rfftPowerRadix2_endless (T : Trig K) (fuel : ℕ) (x power : ℕ → K) (scratch : ℕ → Cplx K)
    (cache : List (FftTwiddleTable T)) :
    ∀ out, rfftPowerRadix2 T fuel x power (2 ^ 30) scratch cache ≠ .ok out := by
  intro out h
  rw [rfftPowerRadix2, Fuel.bind_eq_ok_iff] at h
  obtain ⟨fft, -, h⟩ := h
  rw [getFftTwiddles_endless] at h
  cases h

end Spectrum

/-! ### Over the reals -/

section Reals

/-- `std::cos` and `std::sin`, exact. -/
noncomputable def realTrig : Trig ℝ := ⟨Real.pi, Real.cos, Real.sin⟩

/-- The complex number. -/
def toComplex : Cplx ℝ →+* ℂ where
  toFun z := ⟨z.re, z.im⟩
  map_one' := rfl
  map_mul' z w := by
    apply Complex.ext
    · simp [sub_eq_add_neg]
    · simp
  map_zero' := rfl
  map_add' _ _ := rfl

theorem toComplex_injective : Function.Injective toComplex := by
  intro z w h
  ext
  · exact congrArg Complex.re h
  · exact congrArg Complex.im h

theorem toComplex_C (e : ℝ) : toComplex (QuadraticAlgebra.C e) = e := rfl

theorem normSq_toComplex (z : Cplx ℝ) : Complex.normSq (toComplex z) = sqMag z :=
  Complex.normSq_apply _

/-- `wlen` in polar form. -/
theorem toComplex_wlen (len : ℤ) :
    toComplex (wlen realTrig len) = Complex.exp (-2 * Real.pi / len * Complex.I) := by
  have hang : (-2 * Real.pi / len * Complex.I : ℂ) =
      ((-2 * Real.pi / len : ℝ) : ℂ) * Complex.I := by push_cast; rfl
  rw [hang]
  apply Complex.ext
  · rw [Complex.exp_ofReal_mul_I_re]
    rfl
  · rw [Complex.exp_ofReal_mul_I_im]
    rfl

theorem star_mul_self {c s : ℝ} (h : c ^ 2 + s ^ 2 = 1) : star (⟨c, s⟩ : Cplx ℝ) * ⟨c, s⟩ = 1 := by
  apply QuadraticAlgebra.ext
  · rw [QuadraticAlgebra.re_mul, QuadraticAlgebra.re_star, QuadraticAlgebra.im_star]
    show _ = (1 : ℝ)
    linear_combination h
  · rw [QuadraticAlgebra.im_mul, QuadraticAlgebra.re_star, QuadraticAlgebra.im_star]
    show _ = (0 : ℝ)
    ring

/-- **The real functions are exact.** -/
theorem exact_realTrig : realTrig.Exact where
  sq q := by
    apply toComplex_injective
    rw [map_pow, toComplex_wlen, toComplex_wlen, ← Complex.exp_nat_mul]
    congr 1
    push_cast
    rw [pow_succ]
    field_simp
  half q := by
    apply toComplex_injective
    have hturn : ((2 ^ q : ℕ) : ℂ) * (-2 * Real.pi / ((2 ^ (q + 1) : ℤ) : ℂ) * Complex.I) =
        -(Real.pi * Complex.I) := by
      push_cast
      rw [pow_succ]
      field_simp
    rw [map_pow, toComplex_wlen, ← Complex.exp_nat_mul, hturn, Complex.exp_neg,
      Complex.exp_pi_mul_I, map_neg, map_one, inv_neg, inv_one]
  norm q := star_mul_self (Real.cos_sq_add_sin_sq _)

/-- A bin of the discrete Fourier transform. -/
noncomputable def dftBin (x : ℕ → ℝ) (n k : ℕ) : ℂ :=
  ∑ j ∈ Finset.range n, x j * Complex.exp (-2 * Real.pi * Complex.I * j * k / n)

theorem toComplex_transform (x : ℕ → ℝ) (p k : ℕ) :
    toComplex (transform (wlen realTrig (2 ^ p)) (fun j => QuadraticAlgebra.C (x j)) (2 ^ p) k) =
      dftBin x (2 ^ p) k := by
  rw [transform, dftBin, map_sum]
  refine Finset.sum_congr rfl fun j _ => ?_
  rw [map_mul, map_pow, toComplex_C, toComplex_wlen, ← Complex.exp_nat_mul]
  congr 2
  push_cast
  ring

/-- **When the power spectrum is returned**: for every power of two from four on that an `int` can
be, except the largest, for which the table of the twiddles is never completed. -/
theorem rfftPowerRadix2_iff {n : ℕ} (hpow : ∃ p, n = 2 ^ p) (hfour : 4 ≤ n) (hint : n < 2 ^ 31)
    (x power : ℕ → ℝ) (scratch : ℕ → Cplx ℝ) (cache : List (FftTwiddleTable realTrig)) :
    (∃ out, Returns (fun fuel => rfftPowerRadix2 realTrig fuel x power n scratch cache) out ∧
      ∀ k ≤ n / 2, out.power k = Complex.normSq (dftBin x n k)) ↔ n < 2 ^ 30 := by
  obtain ⟨p, rfl⟩ := hpow
  have hp : p < 31 := (Nat.pow_lt_pow_iff_right one_lt_two).1 hint
  constructor
  · rintro ⟨out, ⟨fuel, hreturns⟩, -⟩
    rw [Nat.pow_lt_pow_iff_right one_lt_two]
    by_contra hnot
    obtain rfl : p = 30 := by omega
    exact rfftPowerRadix2_endless realTrig fuel x power scratch cache out (hreturns fuel le_rfl)
  · intro hlt
    rw [Nat.pow_lt_pow_iff_right one_lt_two] at hlt
    have hpos : p ≠ 0 := by
      rintro rfl
      simp at hfour
    obtain ⟨r, rfl⟩ := Nat.exists_eq_succ_of_ne_zero hpos
    obtain ⟨out, hreturns, hpower⟩ := returns_rfftPowerRadix2 exact_realTrig hlt x power scratch
      cache
    refine ⟨out, hreturns, fun k hk => ?_⟩
    rw [Nat.succ_eq_add_one, pow_succ, Nat.mul_div_cancel _ two_pos] at hk
    rw [hpower k hk, ← normSq_toComplex, toComplex_transform]

/-- A frame of four samples. -/
theorem rfftPowerRadix2_iff_four :
    (∃ out, Returns (fun fuel => rfftPowerRadix2 realTrig fuel (fun j => j) (fun _ => 0) 4
      (fun _ => 0) []) out ∧
      ∀ k ≤ 4 / 2, out.power k = Complex.normSq (dftBin (fun j => j) 4 k)) ↔ 4 < 2 ^ 30 :=
  rfftPowerRadix2_iff ⟨2, rfl⟩ le_rfl (by norm_num) _ _ _ []

/-- Of `2 ^ 30` samples there is no spectrum. -/
theorem not_forall_rfftPowerRadix2 :
    ¬ ∀ n : ℕ, (∃ p, n = 2 ^ p) → 4 ≤ n → n < 2 ^ 31 →
      ∃ out, Returns (fun fuel => rfftPowerRadix2 realTrig fuel (fun _ => 0) (fun _ => 0) n
        (fun _ => 0) []) out ∧
        ∀ k ≤ n / 2, out.power k = Complex.normSq (dftBin (fun _ => 0) n k) := by
  intro h
  obtain ⟨out, ⟨fuel, hreturns⟩, -⟩ := h (2 ^ 30) ⟨30, rfl⟩ (by norm_num) (by norm_num)
  exact rfftPowerRadix2_endless realTrig fuel _ _ _ [] out (hreturns fuel le_rfl)

end Reals

end Parakeet

end WhisperCpp
