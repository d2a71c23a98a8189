import Mathlib.Algebra.QuadraticAlgebra.Basic
import Mathlib.Analysis.SpecialFunctions.Trigonometric.Basic
import Mathlib.Logic.Function.Basic
import WhisperCpp.Library.Fourier
import WhisperCpp.Library.Literals

/-!
# The Fourier transform of a frame

`fft` splits its input in two as long as its length is even, and leaves odd lengths to `dft`. The
two halves are copied behind the input and transformed one after the other; their transforms, and
what they need themselves, lie behind the output.

The arithmetic is exact here, in any commutative ring, and the cache holds the powers of a
root of one.

## Main definitions

* `SinCosCache` — the cache
* `realCache` — the cache over the reals
* `dft`, `fft` — the functions, on two flat memories
* `Transformed` — what a call does to the memories

## Main results

* `transformed_dft`, `transformed_fft`
* `fft_eq_dft` — both leave the same output, and `fft` no more of its scratch than there is room for
-/

namespace WhisperCpp

namespace Mel

open Fourier (transform)

attribute [local instance] Literals.atLeastTwo_two

/-- `SIN_COS_N_COUNT`, which is `WHISPER_N_FFT`. -/
def sinCosNCount : ℕ := 400

/-- The complex numbers over `K`. -/
abbrev Cplx (K : Type*) [CommRing K] := QuadraticAlgebra K (-1) 0

/-- `sin_vals` and `cos_vals` of the cache, with exact entries: `cos t - i sin t` runs through the
powers of a root whose half power is minus one. -/
structure SinCosCache (K : Type*) [CommRing K] where
  sinVals : ℕ → K
  cosVals : ℕ → K
  root : Cplx K
  root_pow : ∀ i < sinCosNCount, root ^ i = ⟨cosVals i, -sinVals i⟩
  root_half : root ^ (sinCosNCount / 2) = -1

/-- The two buffers, `in` and `out`. -/
structure Buffers (K : Type*) where
  inp : ℕ → K
  out : ℕ → K

section Definitions

variable {K : Type*} [CommRing K] (c : SinCosCache K)

/-- `dft`, of the input at `p` to the output at `q`. -/
def dft (n p q : ℕ) (m : Buffers K) : Buffers K :=
  let sinCosStep := sinCosNCount / n
  { m with
    out := (List.range n).foldl (fun out k =>
      let idx (i : ℕ) := k * i * sinCosStep % sinCosNCount
      let re := (List.range n).foldl (fun re i => re + m.inp (p + i) * c.cosVals (idx i)) 0
      let im := (List.range n).foldl (fun im i => im - m.inp (p + i) * c.sinVals (idx i)) 0
      Function.update (Function.update out (q + k * 2) re) (q + k * 2 + 1) im) m.out }

/-- The loops of `fft` that copy every other entry of the input behind it. -/
def copyHalf (halfN p dst : ℕ) (inp : ℕ → K) : ℕ → K :=
  (List.range halfN).foldl (fun inp i => Function.update inp (dst + i) (inp (p + 2 * i))) inp

/-- The last loop of `fft`. -/
def combine (halfN sinCosStep q evenFft oddFft : ℕ) (out : ℕ → K) : ℕ → K :=
  (List.range halfN).foldl (fun out k =>
    let idx := k * sinCosStep
    let re := c.cosVals idx
    let im := -c.sinVals idx
    let reOdd := out (oddFft + 2 * k)
    let imOdd := out (oddFft + 2 * k + 1)
    let out := Function.update out (q + 2 * k) (out (evenFft + 2 * k) + re * reOdd - im * imOdd)
    let out := Function.update out (q + 2 * k + 1)
      (out (evenFft + 2 * k + 1) + re * imOdd + im * reOdd)
    let out := Function.update out (q + 2 * (k + halfN))
      (out (evenFft + 2 * k) - re * reOdd + im * imOdd)
    Function.update out (q + 2 * (k + halfN) + 1)
      (out (evenFft + 2 * k + 1) - re * imOdd - im * reOdd)) out

/-- `fft`, of the input at `p` to the output at `q`. Of length zero it is not called. -/
def fft (n p q : ℕ) (m : Buffers K) : Buffers K :=
  if n = 0 then m
  else if n = 1 then
    { m with out := Function.update (Function.update m.out q (m.inp p)) (q + 1) 0 }
  else
    let halfN := n / 2
    if n - halfN * 2 = 1 then dft c n p q m
    else
      let even := p + n
      let m := { m with inp := copyHalf halfN p even m.inp }
      let evenFft := q + 2 * n
      let m := fft halfN even evenFft m
      let odd := even
      let m := { m with inp := copyHalf halfN (p + 1) odd m.inp }
      let oddFft := evenFft + n
      let m := fft halfN odd oddFft m
      { m with out := combine c halfN (sinCosNCount / n) q evenFft oddFft m.out }
termination_by n

end Definitions

/-! ### Bins -/

section Bins

variable {K : Type*} [CommRing K] {out : ℕ → K} {q k a : ℕ} {z : Cplx K}

/-- The complex number at place `k` of the output at `q`. -/
def bin (out : ℕ → K) (q k : ℕ) : Cplx K := ⟨out (q + 2 * k), out (q + 2 * k + 1)⟩

/-- It is written. -/
def setBin (out : ℕ → K) (q k : ℕ) (z : Cplx K) : ℕ → K :=
  Function.update (Function.update out (q + 2 * k) z.re) (q + 2 * k + 1) z.im

theorem setBin_of_lt (h : a < q + 2 * k) : setBin out q k z a = out a := by
  rw [setBin, Function.update_of_ne (by omega), Function.update_of_ne (by omega)]

theorem setBin_of_le (h : q + 2 * k + 2 ≤ a) : setBin out q k z a = out a := by
  rw [setBin, Function.update_of_ne (by omega), Function.update_of_ne (by omega)]

theorem bin_setBin_self : bin (setBin out q k z) q k = z := by
  rw [bin, setBin, Function.update_of_ne (by omega), Function.update_self, Function.update_self]

theorem bin_setBin_of_ne {i : ℕ} (h : i ≠ k) : bin (setBin out q k z) q i = bin out q i := by
  obtain hlt | hgt := Nat.lt_or_gt_of_ne h
  · rw [bin, bin, setBin_of_lt (by omega), setBin_of_lt (by omega)]
  · rw [bin, bin, setBin_of_le (by omega), setBin_of_le (by omega)]

/-- A loop that writes bin after bin. -/
theorem foldl_setBin (f : ℕ → Cplx K) (n : ℕ) (out : ℕ → K) (q : ℕ) :
    let r := (List.range n).foldl (fun out k => setBin out q k (f k)) out
    (∀ k < n, bin r q k = f k) ∧ (∀ a < q, r a = out a) ∧ ∀ a, q + 2 * n ≤ a → r a = out a := by
  induction n with
  | zero => exact ⟨nofun, fun _ _ => rfl, fun _ _ => rfl⟩
  | succ n ih =>
    obtain ⟨hbins, hbelow, habove⟩ := ih
    simp only [List.range_succ, List.foldl_append, List.foldl_cons, List.foldl_nil]
    refine ⟨fun k hk => ?_, fun a ha => ?_, fun a ha => ?_⟩
    · obtain rfl | hne := eq_or_ne k n
      · exact bin_setBin_self
      · rw [bin_setBin_of_ne hne]
        exact hbins k (by omega)
    · rw [setBin_of_lt (by omega)]
      exact hbelow a ha
    · rw [setBin_of_le (by omega)]
      exact habove a (by omega)

end Bins

/-! ### The cache -/

section Cache

variable {K : Type*} [CommRing K] (c : SinCosCache K)

/-- The root of which a transform of length `n` takes the powers. -/
def SinCosCache.rootOf (n : ℕ) : Cplx K := c.root ^ (sinCosNCount / n)

theorem SinCosCache.root_mod (j : ℕ) : c.root ^ (j % sinCosNCount) = c.root ^ j := by
  have hone : c.root ^ sinCosNCount = 1 := by
    rw [show sinCosNCount = sinCosNCount / 2 * 2 from rfl, pow_mul, c.root_half, neg_one_sq]
  conv_rhs => rw [← Nat.div_add_mod j sinCosNCount, pow_add, pow_mul, hone, one_pow, one_mul]

/-- The root of half the length is the square. -/
theorem SinCosCache.rootOf_half {h : ℕ} (hh : 2 * h ∣ sinCosNCount) :
    c.rootOf h = c.rootOf (2 * h) ^ 2 := by
  obtain ⟨d, hd⟩ := hh
  have hpos : 0 < h := Nat.pos_of_ne_zero fun hzero => by simp [hzero, sinCosNCount] at hd
  rw [SinCosCache.rootOf, SinCosCache.rootOf, ← pow_mul]
  congr 1
  rw [hd, Nat.mul_div_cancel_left d (by omega), Nat.mul_comm 2 h, Nat.mul_assoc,
    Nat.mul_div_cancel_left _ hpos, Nat.mul_comm]

/-- Its half power is minus one. -/
theorem SinCosCache.rootOf_pow_half {h : ℕ} (hh : 2 * h ∣ sinCosNCount) :
    c.rootOf (2 * h) ^ h = -1 := by
  obtain ⟨d, hd⟩ := hh
  have hpos : 0 < h := Nat.pos_of_ne_zero fun hzero => by simp [hzero, sinCosNCount] at hd
  have hhalf : sinCosNCount / (2 * h) * h = sinCosNCount / 2 := by
    rw [hd, Nat.mul_div_cancel_left d (by omega), Nat.mul_assoc, Nat.mul_div_cancel_left _ two_pos,
      Nat.mul_comm]
  rw [SinCosCache.rootOf, ← pow_mul, hhalf, c.root_half]

end Cache

/-! ### The two transforms -/

section Transforms

variable {K : Type*} [CommRing K] (c : SinCosCache K)

/-- What a transform of length `n` of the input at `p` to the output at `q` does: it writes its bins
and uses what is behind them, and behind its input, as scratch. -/
structure Transformed (n p q : ℕ) (m m' : Buffers K) : Prop where
  bins : ∀ k < n, bin m'.out q k =
    transform (c.rootOf n) (fun i => QuadraticAlgebra.C (m.inp (p + i))) n k
  out_below : ∀ a < q, m'.out a = m.out a
  out_above : ∀ a, q + 6 * n ≤ a → m'.out a = m.out a
  inp_below : ∀ a < p + n, m'.inp a = m.inp a
  inp_above : ∀ a, p + 2 * n ≤ a → m'.inp a = m.inp a

/-- The two sums of `dft`. -/
theorem sum_mul_eq (x a b : ℕ → K) (n : ℕ) :
    ∑ i ∈ Finset.range n, (QuadraticAlgebra.C (x i) : Cplx K) * ⟨a i, -b i⟩ =
      ⟨(List.range n).foldl (fun re i => re + x i * a i) 0,
        (List.range n).foldl (fun im i => im - x i * b i) 0⟩ := by
  induction n with
  | zero => rfl
  | succ n ih =>
    rw [Finset.sum_range_succ, ih, List.range_succ, List.foldl_append, List.foldl_append]
    ext <;> simp [sub_eq_add_neg]

theorem transformed_dft (n p q : ℕ) (m : Buffers K) :
    Transformed c n p q m (dft c n p q m) := by
  have hdft : dft c n p q m =
      { m with
        out := (List.range n).foldl (fun out k => setBin out q k
          (transform (c.rootOf n) (fun i => QuadraticAlgebra.C (m.inp (p + i))) n k)) m.out } := by
    rw [dft]
    congr 1
    congr 1
    funext out k
    have hbin : transform (c.rootOf n) (fun i => QuadraticAlgebra.C (m.inp (p + i))) n k =
        ∑ i ∈ Finset.range n, (QuadraticAlgebra.C (m.inp (p + i)) : Cplx K) *
          ⟨c.cosVals (k * i * (sinCosNCount / n) % sinCosNCount),
            -c.sinVals (k * i * (sinCosNCount / n) % sinCosNCount)⟩ := by
      rw [transform]
      refine Finset.sum_congr rfl fun i _ => ?_
      rw [← c.root_pow _ (Nat.mod_lt _ (by decide)), c.root_mod, SinCosCache.rootOf, ← pow_mul,
        Nat.mul_comm (sinCosNCount / n)]
    rw [hbin, sum_mul_eq, setBin, Nat.mul_comm k 2]
  obtain ⟨hbins, hbelow, habove⟩ := foldl_setBin
    (transform (c.rootOf n) (fun i => QuadraticAlgebra.C (m.inp (p + i))) n) n m.out q
  rw [hdft]
  exact ⟨hbins, hbelow, fun a ha => habove a (by omega), fun _ _ => rfl, fun _ _ => rfl⟩

omit [CommRing K] in
/-- The copied half lies behind the input, everything else is as it was. -/
theorem copyHalf_spec {h p dst : ℕ} (hdst : p + 2 * h < dst + 2) (inp : ℕ → K) :
    (∀ i < h, copyHalf h p dst inp (dst + i) = inp (p + 2 * i)) ∧
      (∀ a < dst, copyHalf h p dst inp a = inp a) ∧
      ∀ a, dst + h ≤ a → copyHalf h p dst inp a = inp a := by
  induction h with
  | zero => exact ⟨nofun, fun _ _ => rfl, fun _ _ => rfl⟩
  | succ h ih =>
    obtain ⟨hcopied, hbelow, habove⟩ := ih (by omega)
    have hstep : copyHalf (h + 1) p dst inp = Function.update (copyHalf h p dst inp) (dst + h)
        (copyHalf h p dst inp (p + 2 * h)) := by
      rw [copyHalf, List.range_succ, List.foldl_append]
      rfl
    rw [hstep]
    refine ⟨fun i hi => ?_, fun a ha => ?_, fun a ha => ?_⟩
    · obtain rfl | hne := eq_or_ne i h
      · rw [Function.update_self]
        exact hbelow _ (by omega)
      · rw [Function.update_of_ne (by omega)]
        exact hcopied i (by omega)
    · rw [Function.update_of_ne (by omega)]
      exact hbelow a ha
    · rw [Function.update_of_ne (by omega)]
      exact habove a (by omega)

/-- One pass of the last loop writes two bins, from two bins behind the output. -/
theorem combine_body {h q e k : ℕ} (hk : k < h) (he : q + 4 * h ≤ e) (o : ℕ) (re im : K)
    (out : ℕ → K) :
    (let reOdd := out (o + 2 * k)
      let imOdd := out (o + 2 * k + 1)
      let out := Function.update out (q + 2 * k) (out (e + 2 * k) + re * reOdd - im * imOdd)
      let out := Function.update out (q + 2 * k + 1)
        (out (e + 2 * k + 1) + re * imOdd + im * reOdd)
      let out := Function.update out (q + 2 * (k + h)) (out (e + 2 * k) - re * reOdd + im * imOdd)
      Function.update out (q + 2 * (k + h) + 1) (out (e + 2 * k + 1) - re * imOdd - im * reOdd)) =
      setBin (setBin out q k (bin out e k + ⟨re, im⟩ * bin out o k)) q (k + h)
        (bin out e k - ⟨re, im⟩ * bin out o k) := by
  have hread (a b : ℕ) (v : K) (out : ℕ → K) (ha : q + 4 * h ≤ a) (hb : b < q + 4 * h) :
      Function.update out b v a = out a := Function.update_of_ne (by omega) _ _
  simp only [hread (e + 2 * k) _ _ _ (by omega) (show q + 2 * k < q + 4 * h by omega),
    hread (e + 2 * k) _ _ _ (by omega) (show q + 2 * k + 1 < q + 4 * h by omega),
    hread (e + 2 * k + 1) _ _ _ (by omega) (show q + 2 * k < q + 4 * h by omega),
    hread (e + 2 * k + 1) _ _ _ (by omega) (show q + 2 * k + 1 < q + 4 * h by omega),
    hread (e + 2 * k + 1) _ _ _ (by omega) (show q + 2 * (k + h) < q + 4 * h by omega)]
  rw [setBin, setBin]
  simp only [bin, QuadraticAlgebra.re_add, QuadraticAlgebra.im_add, QuadraticAlgebra.re_sub,
    QuadraticAlgebra.im_sub, QuadraticAlgebra.re_mul, QuadraticAlgebra.im_mul]
  congr 1
  · congr 1
    · congr 1
      · congr 1
        ring
      · ring
    · ring
  · ring

/-- **The last loop puts the two halves together.** -/
theorem combine_spec {h step q e o : ℕ} (hstep : h * step ≤ sinCosNCount) (he : q + 4 * h ≤ e)
    (ho : q + 4 * h ≤ o) (out : ℕ → K) :
    (∀ k < h, bin (combine c h step q e o out) q k =
        bin out e k + c.root ^ (k * step) * bin out o k) ∧
      (∀ k < h, bin (combine c h step q e o out) q (k + h) =
        bin out e k - c.root ^ (k * step) * bin out o k) ∧
      (∀ a < q, combine c h step q e o out a = out a) ∧
      ∀ a, q + 4 * h ≤ a → combine c h step q e o out a = out a := by
  have hcombine : combine c h step q e o out = (List.range h).foldl (fun out k =>
      setBin (setBin out q k (bin out e k + c.root ^ (k * step) * bin out o k)) q (k + h)
        (bin out e k - c.root ^ (k * step) * bin out o k)) out := by
    rw [combine]
    refine List.foldl_ext _ _ _ fun out k hk => ?_
    have hk := List.mem_range.1 hk
    have hlt : k * step < sinCosNCount := by
      obtain rfl | hpos := Nat.eq_zero_or_pos step
      · exact Nat.lt_of_le_of_lt (Nat.mul_zero k).le (by decide)
      · exact (Nat.mul_lt_mul_of_pos_right hk hpos).trans_le hstep
    rw [c.root_pow _ hlt]
    exact combine_body hk he o _ _ out
  rw [hcombine]
  -- the first `n` passes
  suffices hpasses : ∀ n ≤ h, let r := (List.range n).foldl (fun out k =>
      setBin (setBin out q k (bin out e k + c.root ^ (k * step) * bin out o k)) q (k + h)
        (bin out e k - c.root ^ (k * step) * bin out o k)) out
      (∀ k < n, bin r q k = bin out e k + c.root ^ (k * step) * bin out o k) ∧
        (∀ k < n, bin r q (k + h) = bin out e k - c.root ^ (k * step) * bin out o k) ∧
        (∀ a < q, r a = out a) ∧ ∀ a, q + 4 * h ≤ a → r a = out a from hpasses h le_rfl
  intro n hn
  induction n with
  | zero => exact ⟨nofun, nofun, fun _ _ => rfl, fun _ _ => rfl⟩
  | succ n ih =>
    obtain ⟨hfirst, hsecond, hbelow, habove⟩ := ih (by omega)
    simp only [List.range_succ, List.foldl_append, List.foldl_cons, List.foldl_nil]
    generalize (List.range n).foldl _ out = r at hfirst hsecond hbelow habove ⊢
    have heven : bin r e n = bin out e n := by
      rw [bin, bin, habove _ (by omega), habove _ (by omega)]
    have hodd : bin r o n = bin out o n := by
      rw [bin, bin, habove _ (by omega), habove _ (by omega)]
    rw [heven, hodd]
    refine ⟨fun k hk => ?_, fun k hk => ?_, fun a ha => ?_, fun a ha => ?_⟩
    · rw [bin_setBin_of_ne (by omega)]
      obtain rfl | hne := eq_or_ne k n
      · exact bin_setBin_self
      · rw [bin_setBin_of_ne hne]
        exact hfirst k (by omega)
    · obtain rfl | hne := eq_or_ne k n
      · exact bin_setBin_self
      · rw [bin_setBin_of_ne (by omega), bin_setBin_of_ne (by omega)]
        exact hsecond k (by omega)
    · rw [setBin_of_lt (by omega), setBin_of_lt (by omega)]
      exact hbelow a ha
    · rw [setBin_of_le (by omega), setBin_of_le (by omega)]
      exact habove a ha

section Cases

variable {c} {p q : ℕ} {m : Buffers K}

theorem fft_one : fft c 1 p q m =
    { m with out := setBin m.out q 0 (QuadraticAlgebra.C (m.inp p)) } := by
  rw [fft, if_neg one_ne_zero, if_pos rfl]
  rfl

theorem fft_of_odd {n : ℕ} (hn : n % 2 = 1) (hone : n ≠ 1) : fft c n p q m = dft c n p q m := by
  rw [fft, if_neg (by omega), if_neg hone]
  exact if_pos (by omega)

/-- The input with the even entries behind it. -/
def withEven (h p : ℕ) (m : Buffers K) : Buffers K :=
  { m with inp := copyHalf h p (p + 2 * h) m.inp }

/-- The input with the odd entries behind it. -/
def withOdd (h p : ℕ) (m : Buffers K) : Buffers K :=
  { m with inp := copyHalf h (p + 1) (p + 2 * h) m.inp }

theorem fft_two_mul {h : ℕ} (hpos : 0 < h) :
    fft c (2 * h) p q m =
      let m' := fft c h (p + 2 * h) (q + 4 * h) (withEven h p m)
      let m'' := fft c h (p + 2 * h) (q + 6 * h) (withOdd h p m')
      { m'' with
        out := combine c h (sinCosNCount / (2 * h)) q (q + 4 * h) (q + 6 * h) m''.out } := by
  have hhalf : 2 * h / 2 = h := Nat.mul_div_cancel_left h two_pos
  have hfour : q + 2 * (2 * h) = q + 4 * h := by omega
  have hsix : q + 4 * h + 2 * h = q + 6 * h := by omega
  rw [fft, if_neg (by omega), if_neg (by omega)]
  simp only [hhalf]
  rw [if_neg (by omega), hfour, hsix]
  rfl

end Cases

/-- A transform of length one copies its entry. -/
theorem transformed_one (p q : ℕ) (m : Buffers K) : Transformed c 1 p q m (fft c 1 p q m) := by
  rw [fft_one]
  have hbelow (a : ℕ) (ha : a < q) : setBin m.out q 0 (QuadraticAlgebra.C (m.inp p)) a = m.out a :=
    setBin_of_lt ha
  have habove (a : ℕ) (ha : q + 6 * 1 ≤ a) :
      setBin m.out q 0 (QuadraticAlgebra.C (m.inp p)) a = m.out a := setBin_of_le (by omega)
  refine ⟨fun k hk => ?_, hbelow, habove, fun _ _ => rfl, fun _ _ => rfl⟩
  obtain rfl : k = 0 := by omega
  rw [bin_setBin_self, Fourier.transform_one, Nat.add_zero]

/-- **Two transforms of half the length are put together.** -/
theorem Transformed.two_mul {h p q : ℕ} {m m' m'' : Buffers K} (hdvd : 2 * h ∣ sinCosNCount)
    (heven : Transformed c h (p + 2 * h) (q + 4 * h) (withEven h p m) m')
    (hodd : Transformed c h (p + 2 * h) (q + 6 * h) (withOdd h p m') m'') :
    Transformed c (2 * h) p q m { m'' with
      out := combine c h (sinCosNCount / (2 * h)) q (q + 4 * h) (q + 6 * h) m''.out } := by
  obtain ⟨hcopyEven, hevenBelow, hevenAbove⟩ :=
    copyHalf_spec (h := h) (show p + 2 * h < p + 2 * h + 2 by omega) m.inp
  obtain ⟨hcopyOdd, hoddBelow, hoddAbove⟩ :=
    copyHalf_spec (h := h) (show p + 1 + 2 * h < p + 2 * h + 2 by omega) m'.inp
  -- the input itself is not touched in between
  have hinp (a : ℕ) (ha : a < p + 2 * h) : m'.inp a = m.inp a :=
    (heven.inp_below a (by omega)).trans (hevenBelow a ha)
  have hstep : h * (sinCosNCount / (2 * h)) ≤ sinCosNCount :=
    (Nat.mul_le_mul_right _ (by omega)).trans (Nat.mul_div_le _ _)
  obtain ⟨hfirst, hsecond, hbelow, habove⟩ := combine_spec c hstep (le_refl (q + 4 * h))
    (show q + 4 * h ≤ q + 6 * h by omega) m''.out
  -- the even transform is still there, and the odd one is behind it
  have hE (k : ℕ) (hk : k < h) : bin m''.out (q + 4 * h) k =
      transform (c.rootOf (2 * h) ^ 2) (fun i => QuadraticAlgebra.C (m.inp (p + 2 * i))) h k := by
    rw [bin, hodd.out_below _ (by omega), hodd.out_below _ (by omega)]
    show bin m'.out (q + 4 * h) k = _
    rw [heven.bins k hk, c.rootOf_half hdvd]
    exact Fourier.transform_congr _ (fun i hi => congrArg _ (hcopyEven i hi)) k
  have hO (k : ℕ) (hk : k < h) : bin m''.out (q + 6 * h) k =
      transform (c.rootOf (2 * h) ^ 2) (fun i => QuadraticAlgebra.C (m.inp (p + (2 * i + 1)))) h
        k := by
    rw [hodd.bins k hk, c.rootOf_half hdvd]
    refine Fourier.transform_congr _ (fun i hi => congrArg _ ?_) k
    rw [show p + (2 * i + 1) = p + 1 + 2 * i by omega, ← hinp _ (by omega)]
    exact hcopyOdd i hi
  have hroot (k : ℕ) : c.root ^ (k * (sinCosNCount / (2 * h))) = c.rootOf (2 * h) ^ k := by
    rw [SinCosCache.rootOf, ← pow_mul, Nat.mul_comm]
  constructor
  · intro k hk
    obtain hlt | hge := Nat.lt_or_ge k h
    · refine (hfirst k hlt).trans ?_
      rw [hE k hlt, hO k hlt, hroot]
      exact (Fourier.transform_two_mul _ (fun i => QuadraticAlgebra.C (m.inp (p + i))) h k).symm
    · obtain ⟨k, rfl⟩ := Nat.exists_eq_add_of_le' hge
      refine (hsecond k (by omega)).trans ?_
      rw [hE k (by omega), hO k (by omega), hroot]
      exact (Fourier.transform_two_mul_add _ (fun i => QuadraticAlgebra.C (m.inp (p + i)))
        (c.rootOf_pow_half hdvd) k).symm
  · intro a ha
    refine (hbelow a ha).trans ?_
    rw [hodd.out_below a (by omega)]
    exact heven.out_below a (by omega)
  · intro a ha
    refine (habove a (by omega)).trans ?_
    rw [hodd.out_above a (by omega)]
    exact heven.out_above a (by omega)
  · intro a ha
    rw [hodd.inp_below a (by omega), ← hinp a ha]
    exact hoddBelow a ha
  · intro a ha
    rw [hodd.inp_above a (by omega)]
    exact (hoddAbove a (by omega)).trans
      ((heven.inp_above a (by omega)).trans (hevenAbove a (by omega)))

/-- **A call of `fft` transforms its input.** -/
theorem transformed_fft {n : ℕ} (hn : n ∣ sinCosNCount) (p q : ℕ) (m : Buffers K) :
    Transformed c n p q m (fft c n p q m) := by
  induction n using Nat.strong_induction_on generalizing p q m with
  | _ n ih =>
    have hpos : 0 < n := Nat.pos_of_dvd_of_pos hn (by decide)
    obtain rfl | hone := eq_or_ne n 1
    · exact transformed_one c p q m
    obtain hodd | heven := Nat.mod_two_eq_zero_or_one n |>.symm
    · rw [fft_of_odd hodd hone]
      exact transformed_dft c n p q m
    · obtain ⟨h, rfl⟩ := Nat.dvd_of_mod_eq_zero heven
      have hdvd : h ∣ sinCosNCount := (Dvd.intro_left 2 rfl).trans hn
      rw [fft_two_mul (by omega)]
      exact Transformed.two_mul c hn (ih h (by omega) hdvd _ _ _) (ih h (by omega) hdvd _ _ _)

/-- **`fft` leaves the output of `dft`**, and everything that a caller still needs: the input and
all that is in front of it or of the output. Its scratch ends within `2 n` entries of the input and
`6 n` of the output. -/
theorem fft_eq_dft {n : ℕ} (hn : n ∣ sinCosNCount) (p q : ℕ) (m : Buffers K) :
    (∀ a < q + 2 * n, (fft c n p q m).out a = (dft c n p q m).out a) ∧
      (∀ a < p + n, (fft c n p q m).inp a = m.inp a) ∧
      (∀ a, p + 2 * n ≤ a → (fft c n p q m).inp a = m.inp a) ∧
      ∀ a, q + 6 * n ≤ a → (fft c n p q m).out a = m.out a := by
  have hfft := transformed_fft c hn p q m
  have hdft := transformed_dft c n p q m
  refine ⟨fun a ha => ?_, hfft.inp_below, hfft.inp_above, hfft.out_above⟩
  obtain hlt | hge := Nat.lt_or_ge a q
  · rw [hfft.out_below a hlt, hdft.out_below a hlt]
  · have hbin := (hfft.bins ((a - q) / 2) (by omega)).trans (hdft.bins ((a - q) / 2) (by omega)).symm
    rw [bin, bin, QuadraticAlgebra.mk.injEq] at hbin
    obtain hmod | hmod := Nat.mod_two_eq_zero_or_one (a - q)
    · rw [show a = q + 2 * ((a - q) / 2) by omega]
      exact hbin.1
    · rw [show a = q + 2 * ((a - q) / 2) + 1 by omega]
      exact hbin.2

end Transforms

/-! ### The table of sines and cosines -/

/-- `theta` of `fill_sin_cos_table`. -/
noncomputable def theta (i : ℕ) : ℝ := 2 * Real.pi * i / sinCosNCount

theorem theta_succ (i : ℕ) : theta (i + 1) = theta i + theta 1 := by
  rw [theta, theta, theta]
  push_cast
  ring

theorem pow_theta (i : ℕ) :
    (⟨Real.cos (theta 1), -Real.sin (theta 1)⟩ : Cplx ℝ) ^ i =
      ⟨Real.cos (theta i), -Real.sin (theta i)⟩ := by
  induction i with
  | zero =>
    have hzero : theta 0 = 0 := by simp [theta]
    rw [pow_zero, hzero, Real.cos_zero, Real.sin_zero, neg_zero]
    rfl
  | succ i ih =>
    rw [pow_succ, ih, theta_succ i, Real.cos_add, Real.sin_add]
    ext
    · simp only [QuadraticAlgebra.re_mul]
      ring
    · simp only [QuadraticAlgebra.im_mul]
      ring

/-- `fill_sin_cos_table`, over the reals. -/
noncomputable def realCache : SinCosCache ℝ where
  sinVals i := Real.sin (theta i)
  cosVals i := Real.cos (theta i)
  root := ⟨Real.cos (theta 1), -Real.sin (theta 1)⟩
  root_pow i _ := pow_theta i
  root_half := by
    have hpi : theta (sinCosNCount / 2) = Real.pi := by
      rw [theta, sinCosNCount]
      push_cast
      ring
    rw [pow_theta, hpi, Real.cos_pi, Real.sin_pi, neg_zero]
    ext
    · rfl
    · exact neg_zero.symm

/-- Eight samples, of which two halves are taken three times. -/
theorem fft_eq_dft_eight :
    (fft realCache 8 0 0 ⟨fun i => i, fun _ => 0⟩).out 3 =
      (dft realCache 8 0 0 ⟨fun i => i, fun _ => 0⟩).out 3 :=
  (fft_eq_dft realCache (by decide) 0 0 ⟨fun i => i, fun _ => 0⟩).1 3 (by decide)

end Mel

end WhisperCpp
