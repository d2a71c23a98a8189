import WhisperCpp.Library.FastFourier
import WhisperCpp.Library.Fuel
import WhisperCpp.Library.Literals
import WhisperCpp.Mel.Fft

/-!
# The Fourier transform in place

`fft_radix2_inplace` puts its entries into bit-reversed order and transforms blocks of two, of four
and so on. The powers of the roots are computed once for each length and kept for the thread.

The arithmetic of the entries is exact here. The length of a stage is an `int` that is doubled until
it exceeds the number of the entries; for `2 ^ 30` entries it never does.

## Main definitions

* `forLen` — the loop over the lengths of the stages
* `getFftTwiddles` — `get_fft_twiddles`, with the cache of the thread
* `bitReverse`, `stage` — the two parts
* `fftRadix2Inplace` — `fft_radix2_inplace`

## Main results

* `returns_forLen`, `forLen_endless` — when the loop ends
* `returns_getFftTwiddles` — the table, whatever is in the cache
* `bitReverse_eq` — the entries in bit-reversed order
* `butterfliesOf_stage` — what a stage does
* `returns_fftRadix2Inplace` — the transform in place
-/

namespace WhisperCpp

namespace Parakeet

open Mel (Cplx)
open BitReversal (exchange exchanged rev)
open Fourier (transform)
open Fuel (Returns)

attribute [local instance] Literals.atLeastTwo_two

section Definitions

variable {K : Type} [Field K] {α σ : Type}

/-- Why there is no value. -/
inductive FftStop
  | outOfFuel
  | error (what : String)
  deriving DecidableEq

/-- The constant, `std::cos` and `std::sin`. -/
structure Trig (K : Type) where
  pi : K
  cos : K → K
  sin : K → K

/-- `len << 1`, in an `int`. -/
def shiftLeftOne (len : ℤ) : ℤ := (len * 2).bmod 4294967296

/-- `for (int len = 2; len <= n; len <<= 1)`, from `len` on. -/
def forLen (n : ℕ) (body : ℤ → σ → σ) : ℕ → ℤ → σ → Except FftStop σ
  | 0, _, _ => .error .outOfFuel
  | fuel + 1, len, s =>
    if len ≤ n then forLen n body fuel (shiftLeftOne len) (body len s) else .ok s

/-- `wlen`. -/
def wlen (T : Trig K) (len : ℤ) : Cplx K :=
  let ang := -2 * T.pi / len
  ⟨T.cos ang, T.sin ang⟩

/-- The twiddles of a stage are put behind those of the stages before. -/
def pushTwiddles (T : Trig K) (len : ℤ) (w : List (Cplx K)) : List (Cplx K) :=
  ((List.range (len.tdiv 2).toNat).foldl (fun (s : List (Cplx K) × Cplx K) _ =>
    (s.1 ++ [s.2], s.2 * wlen T len)) (w, 1)).1

/-- `FftTwiddleTable`. Only tables that were completed are in the cache. -/
structure FftTwiddleTable (T : Trig K) where
  nFft : ℕ
  w : List (Cplx K)
  built : ∃ fuel, forLen nFft (pushTwiddles T) fuel 2 [] = .ok w

/-- A table is built. -/
def buildTwiddles (T : Trig K) (fuel n : ℕ) : Except FftStop (FftTwiddleTable T) :=
  match h : forLen n (pushTwiddles T) fuel 2 [] with
  | .ok w => .ok ⟨n, w, fuel, h⟩
  | .error e => .error e

/-- `get_fft_twiddles`: the table and the cache. -/
def getFftTwiddles (T : Trig K) (fuel n : ℕ) (cache : List (FftTwiddleTable T)) :
    Except FftStop (List (Cplx K) × List (FftTwiddleTable T)) :=
  match cache.find? fun e => e.nFft = n with
  | some e => .ok (e.w, cache)
  | none => (buildTwiddles T fuel n).map fun tab => (tab.w, cache ++ [tab])

/-- `1 << log_n`, in an `int`. -/
def oneShiftLeft (logN : ℕ) : ℤ := Int.bmod (2 ^ logN) 4294967296

/-- `while ((1 << log_n) < n) ++log_n;`, from `logN` on. -/
def logLoop (n : ℕ) : ℕ → ℕ → Except FftStop ℕ
  | 0, _ => .error .outOfFuel
  | fuel + 1, logN =>
    if oneShiftLeft logN < n then logLoop n fuel (logN + 1) else .ok logN

/-- `if ((1 << log_n) != n) throw`. -/
def checkPowerOfTwo (n logN : ℕ) : Except FftStop Unit :=
  if oneShiftLeft logN = n then .ok ()
  else .error (.error "fft_radix2_inplace: n must be a power of two")

/-- The next `j` of the bit reversal: `for (; j & bit; bit >>= 1) j ^= bit; j ^= bit;`. -/
def carry (j bit : ℕ) : ℕ :=
  if j &&& bit ≠ 0 then carry (j ^^^ bit) (bit >>> 1) else j ^^^ bit
termination_by bit
decreasing_by
  have hpos : bit ≠ 0 := fun hzero => by simp_all
  simp only [Nat.shiftRight_one]
  omega

/-- The loop of the bit reversal. -/
def bitReverse (n : ℕ) (data : ℕ → α) : ℕ → α :=
  ((List.range' 1 (n - 1)).foldl (fun (s : ℕ × (ℕ → α)) i =>
    let j := carry s.1 (n >>> 1)
    (j, if i < j then exchange s.2 i j else s.2)) (0, data)).2

/-- The body of the inner loop, for the entries `a` and `b`. -/
def butterfly (w : Cplx K) (a b : ℕ) (data : ℕ → Cplx K) : ℕ → Cplx K :=
  let u := data a
  let v := data b * w
  Function.update (Function.update data a (u + v)) b (u - v)

/-- `for (int k = 0; k < half; ++k)`, of the block at `i`. -/
def block (wTable : List (Cplx K)) (half i : ℕ) (data : ℕ → Cplx K) : ℕ → Cplx K :=
  (List.range half).foldl (fun data k =>
    butterfly (wTable.getD k 0) (i + k) (i + k + half) data) data

/-- `for (int i = 0; i < n; i += len)`. -/
def stage (wTable : List (Cplx K)) (n len : ℕ) (data : ℕ → Cplx K) : ℕ → Cplx K :=
  (List.range' 0 ((n + len - 1) / len) len).foldl (fun data i => block wTable (len / 2) i data) data

/-- The body of the loop over the stages, with `twiddle_off`. -/
def stageAt (twiddles : List (Cplx K)) (n : ℕ) (len : ℤ) (s : (ℕ → Cplx K) × ℕ) :
    (ℕ → Cplx K) × ℕ :=
  (stage (twiddles.drop s.2) n len.toNat s.1, s.2 + (len.tdiv 2).toNat)

/-- `fft_radix2_inplace`. -/
def fftRadix2Inplace (T : Trig K) (fuel : ℕ) (data : ℕ → Cplx K) (n : ℕ)
    (cache : List (FftTwiddleTable T)) :
    Except FftStop ((ℕ → Cplx K) × List (FftTwiddleTable T)) := do
  let logN ← logLoop n fuel 0
  checkPowerOfTwo n logN
  let twiddles ← getFftTwiddles T fuel n cache
  let s ← forLen n (stageAt twiddles.1 n) fuel 2 (bitReverse n data, 0)
  return (s.1, twiddles.2)

end Definitions

/-! ### The loop over the lengths -/

section Lengths

variable {σ : Type} {body : ℤ → σ → σ} {n q : ℕ} {s t : σ}

/-- Powers of two that fit an `int`. -/
theorem oneShiftLeft_eq (hq : q < 31) : oneShiftLeft q = 2 ^ q := by
  have hle : (2 : ℤ) ^ q ≤ 2 ^ 30 := pow_le_pow_right₀ (by norm_num) (by omega)
  have hpos : (0 : ℤ) < 2 ^ q := by positivity
  exact Int.bmod_eq_of_le (by omega) (by omega)

theorem shiftLeftOne_two_pow (hq : q + 1 < 31) : shiftLeftOne (2 ^ q) = 2 ^ (q + 1) := by
  rw [shiftLeftOne, ← pow_succ]
  exact oneShiftLeft_eq hq

/-- More fuel changes nothing. -/
theorem forLen_mono {fuel fuel' : ℕ} (hle : fuel ≤ fuel') {len : ℤ}
    (h : forLen n body fuel len s = .ok t) : forLen n body fuel' len s = .ok t := by
  induction fuel generalizing fuel' len s with
  | zero => cases h
  | succ fuel ih =>
    obtain ⟨k, rfl⟩ : ∃ k, fuel' = k + 1 := ⟨fuel' - 1, by omega⟩
    rw [forLen] at h ⊢
    split_ifs at h ⊢ with hlen
    · exact ih (by omega) h
    · exact h

/-- The stages from `q` on. -/
theorem forLen_two_pow (d : ℕ) {fuel : ℕ} (hfuel : d < fuel) (hd : q + d < 30) (s : σ) :
    forLen (2 ^ (q + d)) body fuel (2 ^ (q + 1)) s =
      .ok ((List.range' q d).foldl (fun s r => body (2 ^ (r + 1)) s) s) := by
  induction d generalizing fuel q s with
  | zero =>
    obtain ⟨k, rfl⟩ : ∃ k, fuel = k + 1 := ⟨fuel - 1, by omega⟩
    have hlt : (2 : ℤ) ^ q < 2 ^ (q + 1) := pow_lt_pow_right₀ (by norm_num) (by omega)
    rw [forLen, if_neg (by push_cast; exact not_le.2 hlt)]
    rfl
  | succ d ih =>
    obtain ⟨k, rfl⟩ : ∃ k, fuel = k + 1 := ⟨fuel - 1, by omega⟩
    have hle : (2 : ℤ) ^ (q + 1) ≤ 2 ^ (q + (d + 1)) := pow_le_pow_right₀ (by norm_num) (by omega)
    rw [forLen, if_pos (by push_cast; exact hle), shiftLeftOne_two_pow (by omega),
      show q + (d + 1) = q + 1 + d by omega, ih (by omega) (by omega)]
    rfl

/-- **The loop ends** for the powers of two below `2 ^ 30`: it runs through the stages. -/
theorem returns_forLen {p : ℕ} (hp : p < 30) (body : ℤ → σ → σ) (s : σ) :
    Returns (fun fuel => forLen (2 ^ p) body fuel 2 s)
      ((List.range p).foldl (fun s r => body (2 ^ (r + 1)) s) s) := by
  refine ⟨p + 1, fun fuel hfuel => ?_⟩
  have hrun : forLen (2 ^ (0 + p)) body fuel (2 ^ (0 + 1)) s = _ :=
    forLen_two_pow p (by omega) (by omega) s
  rwa [Nat.zero_add, ← List.range_eq_range', Nat.zero_add, pow_one] at hrun

/-- The lengths that the loop runs through when the last one overflows. -/
inductive Overflowing : ℤ → Prop
  | power {q : ℕ} (hq : q ≤ 30) : Overflowing (2 ^ q)
  | least : Overflowing (-2147483648)
  | zero : Overflowing 0

theorem Overflowing.le {len : ℤ} (h : Overflowing len) : len ≤ 2 ^ 30 := by
  cases h with
  | power hq => exact pow_le_pow_right₀ (by norm_num) hq
  | least => norm_num
  | zero => norm_num

theorem Overflowing.shiftLeftOne {len : ℤ} (h : Overflowing len) :
    Overflowing (shiftLeftOne len) := by
  cases h with
  | @power q hq =>
    obtain rfl | hlt := hq.eq_or_lt
    · exact .least
    · rw [shiftLeftOne_two_pow (by omega)]
      exact .power hlt
  | least => exact .zero
  | zero => exact .zero

/-- **The loop does not end** for `2 ^ 30`. -/
theorem forLen_endless {len : ℤ} (hlen : Overflowing len) (fuel : ℕ) (s : σ) :
    forLen (2 ^ 30) body fuel len s = .error .outOfFuel := by
  induction fuel generalizing len s with
  | zero => rfl
  | succ fuel ih =>
    rw [forLen, if_pos (by push_cast; exact hlen.le)]
    exact ih hlen.shiftLeftOne _

/-- `log_n`. -/
theorem returns_logLoop {p : ℕ} (hp : p < 31) :
    Returns (fun fuel => logLoop (2 ^ p) fuel 0) p := by
  suffices hrun : ∀ d ≤ p, ∀ fuel, d < fuel → logLoop (2 ^ p) fuel (p - d) = .ok p by
    refine ⟨p + 1, fun fuel hfuel => ?_⟩
    rw [← hrun p le_rfl fuel (by omega), Nat.sub_self]
  intro d
  induction d with
  | zero =>
    intro _ fuel hfuel
    obtain ⟨k, rfl⟩ : ∃ k, fuel = k + 1 := ⟨fuel - 1, by omega⟩
    rw [logLoop, Nat.sub_zero, oneShiftLeft_eq hp, if_neg (by push_cast; exact lt_irrefl _)]
  | succ d ih =>
    intro hd fuel hfuel
    obtain ⟨k, rfl⟩ : ∃ k, fuel = k + 1 := ⟨fuel - 1, by omega⟩
    have hlt : (2 : ℤ) ^ (p - (d + 1)) < 2 ^ p := pow_lt_pow_right₀ (by norm_num) (by omega)
    rw [logLoop, oneShiftLeft_eq (by omega), if_pos (by push_cast; exact hlt),
      show p - (d + 1) + 1 = p - d by omega]
    exact ih (by omega) k (by omega)

theorem checkPowerOfTwo_two_pow {p : ℕ} (hp : p < 31) : checkPowerOfTwo (2 ^ p) p = .ok () := by
  rw [checkPowerOfTwo, oneShiftLeft_eq hp, if_pos (by push_cast; rfl)]

end Lengths

/-- `len / 2` of a stage. -/
theorem toNat_two_pow_tdiv (q : ℕ) : (((2 : ℤ) ^ (q + 1)).tdiv 2).toNat = 2 ^ q := by
  rw [pow_succ, Int.mul_tdiv_cancel _ (by norm_num)]
  exact Int.toNat_natCast (2 ^ q)

/-! ### The twiddles -/

section Twiddles

variable {K : Type} [Field K] (T : Trig K)

/-- The twiddles of the first `p` stages. -/
def twiddleTable (p : ℕ) : List (Cplx K) :=
  (List.range p).flatMap fun q => (List.range (2 ^ q)).map fun k => wlen T (2 ^ (q + 1)) ^ k

theorem pushTwiddles_two_pow (q : ℕ) (w : List (Cplx K)) :
    pushTwiddles T (2 ^ (q + 1)) w =
      w ++ (List.range (2 ^ q)).map fun k => wlen T (2 ^ (q + 1)) ^ k := by
  have hpass (t : ℕ) : (List.range t).foldl (fun (s : List (Cplx K) × Cplx K) _ =>
      (s.1 ++ [s.2], s.2 * wlen T (2 ^ (q + 1)))) (w, 1) =
      (w ++ (List.range t).map fun k => wlen T (2 ^ (q + 1)) ^ k, wlen T (2 ^ (q + 1)) ^ t) := by
    induction t with
    | zero => simp
    | succ t ih =>
      rw [List.range_succ, List.foldl_append, ih]
      simp [pow_succ]
  rw [pushTwiddles, toNat_two_pow_tdiv, hpass]

theorem returns_forLen_pushTwiddles {p : ℕ} (hp : p < 30) :
    Returns (fun fuel => forLen (2 ^ p) (pushTwiddles T) fuel 2 []) (twiddleTable T p) := by
  have hfold : (List.range p).foldl (fun s r => pushTwiddles T (2 ^ (r + 1)) s) [] =
      twiddleTable T p := by
    clear hp
    induction p with
    | zero => rfl
    | succ p ih =>
      rw [List.range_succ, List.foldl_append, ih, twiddleTable, twiddleTable, List.range_succ,
        List.flatMap_append]
      simp [pushTwiddles_two_pow]
  rw [← hfold]
  exact returns_forLen hp _ _

theorem length_twiddleTable (p : ℕ) : (twiddleTable T p).length = 2 ^ p - 1 := by
  induction p with
  | zero => rfl
  | succ p ih =>
    have hpos : 0 < 2 ^ p := by positivity
    rw [twiddleTable, List.range_succ, List.flatMap_append, List.length_append]
    rw [twiddleTable] at ih
    rw [ih, pow_succ]
    simp
    omega

/-- The twiddles of a stage are in the table from `twiddle_off` on. -/
theorem getD_drop_twiddleTable {p q k : ℕ} (hq : q < p) (hk : k < 2 ^ q) :
    ((twiddleTable T p).drop (2 ^ q - 1)).getD k 0 = wlen T (2 ^ (q + 1)) ^ k := by
  induction p with
  | zero => omega
  | succ p ih =>
    have hsucc : twiddleTable T (p + 1) = twiddleTable T p ++
        (List.range (2 ^ p)).map fun k => wlen T (2 ^ (p + 1)) ^ k := by
      rw [twiddleTable, List.range_succ, List.flatMap_append, List.flatMap_singleton, twiddleTable]
    have hlength := length_twiddleTable T p
    rw [hsucc]
    obtain rfl | hlt := (Nat.lt_succ_iff.1 hq).eq_or_lt
    · rw [List.drop_append_of_le_length hlength.ge, List.drop_of_length_le hlength.le,
        List.nil_append, List.getD_eq_getElem _ _ (by simpa using hk)]
      simp
    · have hle : 2 ^ (q + 1) ≤ 2 ^ p := Nat.pow_le_pow_right two_pos hlt
      rw [pow_succ] at hle
      have hpos : 0 < 2 ^ q := by positivity
      rw [List.drop_append_of_le_length (by omega), List.getD_append _ _ _ _
        (by rw [List.length_drop]; omega)]
      exact ih hlt

variable {T}

theorem buildTwiddles_eq {fuel n : ℕ} {w : List (Cplx K)}
    (h : forLen n (pushTwiddles T) fuel 2 [] = .ok w) :
    buildTwiddles T fuel n = .ok ⟨n, w, fuel, h⟩ := by
  rw [buildTwiddles]
  split
  · rename_i w' h'
    cases h'.symm.trans h
    rfl
  · rename_i e h'
    cases h'.symm.trans h

/-- **The table is that of the length**, whatever is in the cache. -/
theorem returns_getFftTwiddles {p : ℕ} (hp : p < 30) (cache : List (FftTwiddleTable T)) :
    ∃ cache', Returns (fun fuel => getFftTwiddles T fuel (2 ^ p) cache)
      (twiddleTable T p, cache') := by
  obtain ⟨k, hbuilt⟩ := returns_forLen_pushTwiddles T hp
  cases hfind : cache.find? fun e => e.nFft = 2 ^ p with
  | some e =>
    have hlength : e.nFft = 2 ^ p := by simpa using List.find?_some hfind
    obtain ⟨fuel, hw⟩ := e.built
    rw [hlength] at hw
    have heq := (forLen_mono (Nat.le_add_right fuel k) hw).symm.trans
      (hbuilt (fuel + k) (Nat.le_add_left k fuel))
    refine ⟨cache, 0, fun fuel _ => ?_⟩
    show getFftTwiddles T fuel (2 ^ p) cache = _
    rw [getFftTwiddles, hfind]
    exact congrArg (fun w => Except.ok (w, cache)) (Except.ok.inj heq)
  | none =>
    refine ⟨cache ++ [⟨2 ^ p, twiddleTable T p, k, hbuilt k le_rfl⟩], k, fun fuel hfuel => ?_⟩
    show getFftTwiddles T fuel (2 ^ p) cache = _
    rw [getFftTwiddles, hfind]
    show Except.map _ _ = _
    rw [buildTwiddles_eq (hbuilt fuel hfuel)]
    rfl

/-- No table for `2 ^ 30` is in the cache, and none is ever completed. -/
theorem getFftTwiddles_endless (fuel : ℕ) (cache : List (FftTwiddleTable T)) :
    getFftTwiddles T fuel (2 ^ 30) cache = .error .outOfFuel := by
  have hendless (fuel : ℕ) : forLen (2 ^ 30) (pushTwiddles T) fuel 2 [] = .error .outOfFuel :=
    forLen_endless (.power (q := 1) (by norm_num)) fuel []
  have hfind : cache.find? (fun e => e.nFft = 2 ^ 30) = none := by
    rw [List.find?_eq_none]
    intro e _ hlength
    obtain ⟨fuel, hw⟩ := e.built
    rw [of_decide_eq_true hlength, hendless] at hw
    cases hw
  have hbuild : buildTwiddles T fuel (2 ^ 30) = .error .outOfFuel := by
    rw [buildTwiddles]
    split
    · rename_i w h
      cases (hendless fuel).symm.trans h
    · rename_i e h
      cases (hendless fuel).symm.trans h
      rfl
  rw [getFftTwiddles, hfind]
  show Except.map _ _ = _
  rw [hbuild]
  rfl

end Twiddles

/-! ### The bit reversal -/

section BitReverse

variable {α : Type} {p i : ℕ}

theorem and_two_pow_of_lt {r : ℕ} (hr : r < 2 ^ p) : r &&& 2 ^ p = 0 := by
  rw [Nat.and_two_pow, Nat.testBit_lt_two_pow hr]
  simp

theorem xor_two_pow_of_lt {r : ℕ} (hr : r < 2 ^ p) : r ^^^ 2 ^ p = 2 ^ p + r := by
  refine Nat.eq_of_testBit_eq fun j => ?_
  rw [Nat.testBit_xor, Nat.testBit_two_pow]
  obtain rfl | hne := eq_or_ne p j
  · rw [Nat.testBit_lt_two_pow hr, Nat.testBit_two_pow_add_eq, Nat.testBit_lt_two_pow hr]
    simp
  · obtain hlt | hgt := Nat.lt_or_gt_of_ne hne
    · have hbig : 2 ^ (p + 1) ≤ 2 ^ j := Nat.pow_le_pow_right two_pos hlt
      rw [pow_succ] at hbig
      rw [Nat.testBit_lt_two_pow (by omega), Nat.testBit_lt_two_pow (by omega)]
      simp [hne]
    · rw [Nat.testBit_two_pow_add_gt hgt]
      simp [hne]

/-- **The loop over `bit` adds one**, from the highest bit down. -/
theorem carry_rev (hi : i + 1 < 2 ^ (p + 1)) : carry (rev (p + 1) i) (2 ^ p) = rev (p + 1) (i + 1) := by
  induction p generalizing i with
  | zero =>
    obtain rfl : i = 0 := by simpa using hi
    rw [carry]
    rfl
  | succ p ih =>
    have hlow := BitReversal.rev_lt (p + 1) (i / 2)
    obtain heven | hodd := Nat.mod_two_eq_zero_or_one i
    · -- the bit is not set
      have hsame : (i + 1) / 2 = i / 2 := by omega
      have hlast : (i + 1) % 2 = 1 := by omega
      rw [carry, BitReversal.rev_succ (p + 1) i, heven, Nat.mul_zero, Nat.zero_add,
        and_two_pow_of_lt hlow, if_neg (by simp), xor_two_pow_of_lt hlow,
        BitReversal.rev_succ (p + 1) (i + 1), hsame, hlast, Nat.mul_one]
    · -- it is cleared, and the next one is tried
      have hnext : (i + 1) / 2 = i / 2 + 1 := by omega
      have hlast : (i + 1) % 2 = 0 := by omega
      have hset : rev (p + 2) i = rev (p + 1) (i / 2) ^^^ 2 ^ (p + 1) := by
        rw [BitReversal.rev_succ, hodd, Nat.mul_one, xor_two_pow_of_lt hlow]
      have hbit : (rev (p + 1) (i / 2) ^^^ 2 ^ (p + 1)) &&& 2 ^ (p + 1) ≠ 0 := by
        rw [Nat.and_xor_distrib_right, and_two_pow_of_lt hlow, Nat.and_self, Nat.zero_xor]
        positivity
      have hshift : 2 ^ (p + 1) >>> 1 = 2 ^ p := by
        rw [Nat.shiftRight_one, pow_succ, Nat.mul_div_cancel _ two_pos]
      rw [carry, hset, if_pos hbit, Nat.xor_assoc, Nat.xor_self, Nat.xor_zero, hshift,
        ih (by rw [pow_succ] at hi; omega), BitReversal.rev_succ (p + 1) (i + 1), hnext, hlast,
        Nat.mul_zero, Nat.zero_add]

/-- **The entries are put into bit-reversed order.** -/
theorem bitReverse_eq (p : ℕ) (data : ℕ → α) {a : ℕ} (ha : a < 2 ^ p) :
    bitReverse (2 ^ p) data a = data (rev p a) := by
  obtain rfl | hpos := Nat.eq_zero_or_pos p
  · obtain rfl : a = 0 := by simpa using ha
    rfl
  obtain ⟨p, rfl⟩ := Nat.exists_eq_add_of_le' hpos
  have hinv (a : ℕ) (ha : a < 2 ^ (p + 1)) : rev (p + 1) (rev (p + 1) a) = a :=
    BitReversal.rev_rev ha
  have hlt (a : ℕ) (_ : a < 2 ^ (p + 1)) := BitReversal.rev_lt (p + 1) a
  have hshift : 2 ^ (p + 1) >>> 1 = 2 ^ p := by
    rw [Nat.shiftRight_one, pow_succ, Nat.mul_div_cancel _ two_pos]
  have hpasses (t : ℕ) (ht : t < 2 ^ (p + 1)) :
      (List.range' 1 t).foldl (fun (s : ℕ × (ℕ → α)) i =>
        let j := carry s.1 (2 ^ (p + 1) >>> 1)
        (j, if i < j then exchange s.2 i j else s.2)) (0, data) =
      (rev (p + 1) t, exchanged (rev (p + 1)) (2 ^ (p + 1)) t data) := by
    induction t with
    | zero =>
      rw [BitReversal.exchanged_zero (BitReversal.rev_zero_right _) hinv,
        BitReversal.rev_zero_right]
      rfl
    | succ t ih =>
      rw [List.range'_1_concat, List.foldl_append, ih (by omega)]
      simp only [List.foldl_cons, List.foldl_nil, hshift, carry_rev ht, Nat.add_comm 1 t]
      rw [BitReversal.exchange_exchanged hinv hlt ht]
  have htwo : 0 < 2 ^ (p + 1) := by positivity
  rw [bitReverse, hpasses (2 ^ (p + 1) - 1) (by omega)]
  exact BitReversal.exchanged_eq (by omega) ha

end BitReverse

/-! ### The stages -/

section Stages

variable {K : Type} [Field K] {w : ℕ → Cplx K} {h i a : ℕ}

/-- The passes of the inner loop write each two entries, from these two. -/
theorem foldl_butterfly (t : ℕ) (ht : t ≤ h) (data : ℕ → Cplx K) :
    let r := (List.range t).foldl (fun data k => butterfly (w k) (i + k) (i + k + h) data) data
    (∀ k < t, r (i + k) = data (i + k) + data (i + k + h) * w k ∧
      r (i + k + h) = data (i + k) - data (i + k + h) * w k) ∧
      ∀ a, (∀ k < t, a ≠ i + k ∧ a ≠ i + k + h) → r a = data a := by
  induction t with
  | zero => exact ⟨nofun, fun _ _ => rfl⟩
  | succ t ih =>
    obtain ⟨hwritten, hother⟩ := ih (by omega)
    simp only [List.range_succ, List.foldl_append, List.foldl_cons, List.foldl_nil]
    generalize (List.range t).foldl _ data = r at hwritten hother ⊢
    have hfirst : r (i + t) = data (i + t) := hother _ fun k hk => by omega
    have hsecond : r (i + t + h) = data (i + t + h) := hother _ fun k hk => by omega
    have hkeep (a : ℕ) (ha : a ≠ i + t) (ha' : a ≠ i + t + h) :
        butterfly (w t) (i + t) (i + t + h) r a = r a := by
      rw [butterfly, Function.update_of_ne ha', Function.update_of_ne ha]
    refine ⟨fun k hk => ?_, fun a ha => ?_⟩
    · obtain rfl | hne := eq_or_ne k t
      · constructor
        · rw [butterfly, Function.update_of_ne (by omega), Function.update_self, hfirst, hsecond]
        · rw [butterfly, Function.update_self, hfirst, hsecond]
      · rw [hkeep _ (by omega) (by omega), hkeep _ (by omega) (by omega)]
        exact hwritten k (by omega)
    · rw [hkeep a (ha t (by omega)).1 (ha t (by omega)).2]
      exact hother a fun k hk => ha k (by omega)

/-- The blocks of a stage, one after the other. -/
theorem foldl_block {wTable : List (Cplx K)} (t : ℕ) (data : ℕ → Cplx K) :
    let r := (List.range' 0 t (2 * h)).foldl (fun data i => block wTable h i data) data
    (∀ b < t, ∀ k < h,
      r (b * (2 * h) + k) =
        data (b * (2 * h) + k) + data (b * (2 * h) + k + h) * wTable.getD k 0 ∧
      r (b * (2 * h) + k + h) =
        data (b * (2 * h) + k) - data (b * (2 * h) + k + h) * wTable.getD k 0) ∧
      ∀ a, t * (2 * h) ≤ a → r a = data a := by
  induction t with
  | zero => exact ⟨nofun, fun _ _ => rfl⟩
  | succ t ih =>
    obtain ⟨hwritten, hother⟩ := ih
    simp only [List.range'_concat, List.foldl_append, List.foldl_cons, List.foldl_nil,
      Nat.zero_add]
    generalize (List.range' 0 t (2 * h)).foldl _ data = r at hwritten hother ⊢
    rw [Nat.mul_comm (2 * h) t]
    obtain ⟨hblock, hkeep⟩ := foldl_butterfly (w := fun k => wTable.getD k 0) (i := t * (2 * h))
      h le_rfl r
    have hsucc : (t + 1) * (2 * h) = t * (2 * h) + 2 * h := Nat.succ_mul t (2 * h)
    refine ⟨fun b hb k hk => ?_, fun a ha => ?_⟩
    · obtain rfl | hne := eq_or_ne b t
      · rw [← hother (b * (2 * h) + k) (by omega), ← hother (b * (2 * h) + k + h) (by omega)]
        exact hblock k hk
      · have hle : (b + 1) * (2 * h) ≤ t * (2 * h) := Nat.mul_le_mul_right _ (by omega)
        rw [Nat.succ_mul] at hle
        obtain ⟨hfirst, hsecond⟩ := hwritten b (by omega) k hk
        exact ⟨(hkeep _ fun j hj => by omega).trans hfirst,
          (hkeep _ fun j hj => by omega).trans hsecond⟩
    · exact (hkeep a fun j hj => by omega).trans (hother a (by omega))

/-- **A stage puts neighbouring blocks together.** -/
theorem butterfliesOf_stage {wTable : List (Cplx K)} {w : Cplx K} {m q : ℕ}
    (hw : ∀ k < 2 ^ q, wTable.getD k 0 = w ^ k) (data : ℕ → Cplx K) :
    Fourier.ButterfliesOf w (2 ^ m) (2 ^ q) data
      (stage wTable (2 ^ (m + 1 + q)) (2 ^ (q + 1)) data) := by
  have hlen : (2 : ℕ) ^ (q + 1) = 2 * 2 ^ q := pow_succ' 2 q
  have hn : (2 : ℕ) ^ (m + 1 + q) = 2 ^ m * (2 * 2 ^ q) := by
    rw [pow_add, pow_succ]
    ring
  have hpos : 0 < 2 ^ q := by positivity
  have hcount : (2 ^ m * (2 * 2 ^ q) + 2 * 2 ^ q - 1) / (2 * 2 ^ q) = 2 ^ m := by
    rw [Nat.add_sub_assoc (by omega), Nat.mul_comm, Nat.mul_add_div (by omega),
      Nat.div_eq_of_lt (by omega), Nat.add_zero]
  intro b hb k hk
  rw [stage, hlen, hn, hcount, Nat.mul_div_cancel_left _ two_pos, ← hw k hk]
  exact (foldl_block (2 ^ m) data).1 b hb k hk

end Stages

/-! ### The transform in place -/

section Transform

variable {K : Type} [Field K] {T : Trig K}

/-- `wlen` of a power of two is the root that its place in the circle says. -/
structure Trig.Exact (T : Trig K) : Prop where
  sq : ∀ q, wlen T (2 ^ (q + 1)) ^ 2 = wlen T (2 ^ q)
  half : ∀ q, wlen T (2 ^ (q + 1)) ^ 2 ^ q = -1
  norm : ∀ q, star (wlen T (2 ^ q)) * wlen T (2 ^ q) = 1

theorem Trig.Exact.pow_two_pow (hT : T.Exact) (q : ℕ) : wlen T (2 ^ q) ^ 2 ^ q = 1 := by
  rw [← hT.sq, ← pow_mul, Nat.mul_comm, pow_mul, hT.half, neg_one_sq]

/-- The stages, with their place in the table. -/
theorem foldl_stageAt (hT : T.Exact) {p : ℕ} (data : ℕ → Cplx K) {q : ℕ} (hq : q ≤ p) :
    let s := (List.range q).foldl (fun s r => stageAt (twiddleTable T p) (2 ^ p) (2 ^ (r + 1)) s)
      (bitReverse (2 ^ p) data, 0)
    Fourier.Blocks (fun q => wlen T (2 ^ q)) data (p - q) q s.1 ∧ s.2 = 2 ^ q - 1 := by
  induction q with
  | zero => exact ⟨Fourier.Blocks.zero fun a ha => bitReverse_eq p data ha, rfl⟩
  | succ q ih =>
    obtain ⟨hblocks, hoff⟩ := ih (by omega)
    simp only [List.range_succ, List.foldl_append, List.foldl_cons, List.foldl_nil]
    generalize (List.range q).foldl _ _ = s at hblocks hoff ⊢
    have hlen : ((2 : ℤ) ^ (q + 1)).toNat = 2 ^ (q + 1) := Int.toNat_natCast (2 ^ (q + 1))
    have hpos : 0 < 2 ^ q := by positivity
    have hcount : p - q = p - (q + 1) + 1 := by omega
    have hp : 2 ^ p = 2 ^ (p - (q + 1) + 1 + q) := by
      congr 1
      omega
    rw [stageAt, hlen, toNat_two_pow_tdiv, hoff]
    refine ⟨?_, by rw [pow_succ]; omega⟩
    rw [hcount] at hblocks
    refine hblocks.succ (hT.sq q) (hT.half q) ?_
    rw [hp]
    exact butterfliesOf_stage (fun k hk => getD_drop_twiddleTable T (by omega) hk) s.1

/-- **The transform in place**, of a power of two of entries. -/
theorem returns_fftRadix2Inplace (hT : T.Exact) {p : ℕ} (hp : p < 30) (data : ℕ → Cplx K)
    (cache : List (FftTwiddleTable T)) :
    ∃ data' cache', Returns (fun fuel => fftRadix2Inplace T fuel data (2 ^ p) cache)
      (data', cache') ∧
      ∀ k < 2 ^ p, data' k = transform (wlen T (2 ^ p)) data (2 ^ p) k := by
  obtain ⟨cache', htable⟩ := returns_getFftTwiddles hp cache
  have hstages := returns_forLen hp (stageAt (twiddleTable T p) (2 ^ p))
    (bitReverse (2 ^ p) data, 0)
  obtain ⟨hblocks, -⟩ := foldl_stageAt hT data (le_refl p)
  generalize (List.range p).foldl
    (fun s r => stageAt (twiddleTable T p) (2 ^ p) (2 ^ (r + 1)) s) _ = s at hblocks hstages
  rw [Nat.sub_self] at hblocks
  have hcheck := checkPowerOfTwo_two_pow (by omega : p < 31)
  refine ⟨s.1, cache', ?_, fun k hk => hblocks.whole hk⟩
  refine (returns_logLoop (by omega)).bind ?_
  rw [hcheck]
  exact (Fuel.returns_ok ()).bind (htable.bind (hstages.bind (Fuel.returns_ok _)))

end Transform

end Parakeet

end WhisperCpp
