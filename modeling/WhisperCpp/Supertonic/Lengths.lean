import WhisperCpp.Chatterbox.Npy
import WhisperCpp.Library.Fuel
import WhisperCpp.Library.Rounding
import WhisperCpp.Library.Strided
import Mathlib.Data.List.ProdSigma

/-!
# The lengths of a synthesis

`Engine::Impl::synthesize` computes how long the sound is and how many columns the latent has, the vocoder
unpacks the latent, and the sound is cut off. Four sizes are read from the model file and none is checked.
That there is memory for a vector is not modelled, and neither are the stages between.

## Main definitions

* `GgufSizes`, `loadHparams` — what is read
* `synthesizeLengths`, `unpackReads`, `pcmLength` — the code
* `LengthsAgree` — what is promised of a synthesis
* `SizesFit` — what the sizes have to satisfy

## Main results

* `reads_perm` — the unpacking reads every number once
* `lengthsAgree_iff` — when the promise is kept
-/

namespace WhisperCpp

namespace Supertonic

open Rounding Chatterbox Fuel

/-! ### The code -/

/-- The numbers in the model file. -/
structure GgufSizes where
  sampleRate : UInt32
  baseChunkSize : UInt32
  ttlChunkCompressFactor : UInt32
  latentDim : UInt32
  latentChannels : UInt32

/-- Those of `supertonic_hparams` that say how long things are. -/
structure Hparams where
  sampleRate : ℤ
  baseChunkSize : ℤ
  ttlChunkCompressFactor : ℤ
  latentDim : ℤ
  latentChannels : ℤ

/-- A conversion to `int`. -/
def toInt32 (x : ℤ) : ℤ := x.bmod 4294967296

/-- `load_supertonic_gguf`, which accepts every number. -/
def loadHparams (g : GgufSizes) : Hparams where
  sampleRate := toInt32 g.sampleRate.toNat
  baseChunkSize := toInt32 g.baseChunkSize.toNat
  ttlChunkCompressFactor := toInt32 g.ttlChunkCompressFactor.toNat
  latentDim := toInt32 g.latentDim.toNat
  latentChannels := toInt32 g.latentChannels.toNat

/-- Why there are no lengths. -/
inductive LengthFault where
  | divisionByZero
  | intOverflow
  /-- A floating-point number that an `int` does not hold is converted. -/
  | floatConversion
  /-- A vector with a negative length is made. -/
  | lengthError
  | runtimeError (what : String)

/-- An `int` that is computed. -/
def checkedInt (x : ℤ) : Except LengthFault ℤ :=
  if -2147483648 ≤ x ∧ x < 2147483648 then .ok x else .error .intOverflow

/-- The conversion of a `float`. -/
def floatToInt : Option ℚ → Except LengthFault ℤ
  | none => .error .floatConversion
  | some x =>
    if -2147483648 ≤ trunc x ∧ trunc x < 2147483648 then .ok (trunc x) else .error .floatConversion

/-- A division of `int`s. -/
def checkedDiv (a b : ℤ) : Except LengthFault ℤ :=
  if b = 0 then .error .divisionByZero else checkedInt (a.tdiv b)

/-- A vector is made: a negative number becomes a `size_t` that is too large. -/
def checkedSize (size : ℤ) : Except LengthFault Unit := if size < 0 then .error .lengthError else .ok ()

/-- `duration_raw / speed * sample_rate`, if it is finite. -/
def samples (durationRaw speed : ℚ) (sampleRate : ℤ) : Option ℚ :=
  if speed = 0 then
    none
  else do
    float32 ((← float32 (durationRaw / speed)) * (← float32 sampleRate))

/-- The length of the sound, and the columns of the latent. -/
structure Lengths where
  wavLen : ℤ
  latentLen : ℤ

/-- The noise that the engine accepts. -/
def NoiseOk (h : Hparams) (a : NpyArray) : Prop :=
  a.dtype = bytesOf "<f4" ∧ a.shape.length = 3 ∧ a.shape[0]? = some 1 ∧
    a.shape[1]? = some h.latentChannels

instance (h : Hparams) (a : NpyArray) : Decidable (NoiseOk h a) := inferInstanceAs (Decidable (_ ∧ _))

/-- `(int) noise.shape[2]`. -/
def noiseLen (a : NpyArray) : ℤ := toInt32 (a.shape.getD 2 0)

/-- The length of a chunk, and the lengths that follow from the duration. -/
def durationLengths (h : Hparams) (durationRaw speed : ℚ) : Except LengthFault (ℤ × Lengths) := do
  let chunk ← checkedInt (h.baseChunkSize * h.ttlChunkCompressFactor)
  let wavLen ← floatToInt (samples durationRaw speed h.sampleRate)
  let sum ← checkedInt (wavLen + chunk)
  let sum ← checkedInt (sum - 1)
  let chunks ← checkedDiv sum chunk
  return (chunk, ⟨wavLen, max 1 chunks⟩)

/-- The lengths of `synthesize`, and the vectors that it makes of them. -/
def synthesizeLengths (h : Hparams) (durationRaw speed : ℚ) (noise : Option NpyArray) :
    Except LengthFault Lengths := do
  let (chunk, l) ← durationLengths h durationRaw speed
  match noise with
  | some a =>
    if NoiseOk h a then do
      let wavLen ← checkedInt (noiseLen a * chunk)
      checkedSize (noiseLen a)
      return ⟨wavLen, noiseLen a⟩
    else
      throw (.runtimeError "Supertonic Engine: noise npy must be float32 [1, latent_channels, L]")
  | none => do
    checkedSize (h.latentChannels * l.latentLen)
    checkedSize l.latentLen
    return l

/-- What `supertonic_vocoder_forward_ggml` reads of the latent while it unpacks it. -/
def unpackReads (h : Hparams) (latentLen : ℤ) : Except LengthFault (List ℕ) := do
  let t0 ← checkedInt (latentLen * h.ttlChunkCompressFactor)
  if latentLen ≤ 0 then
    throw (.runtimeError "Supertonic Engine: vocoder failed: latent_len must be positive")
  else do
    checkedSize (t0 * h.latentDim)
    (List.range h.latentDim.toNat ×ˢ List.range latentLen.toNat ×ˢ
      List.range h.ttlChunkCompressFactor.toNat).mapM fun (c, t, r) => do
        let srcC ← checkedInt (c * h.ttlChunkCompressFactor + r)
        return srcC.toNat * latentLen.toNat + t

/-- The length of `result.pcm`, of a sound of the vocoder. -/
def pcmLength (wavLen : ℤ) (wavFull : ℕ) : ℕ := min (wavLen % 18446744073709551616).toNat wavFull

/-- There are lengths, the latent is read once at every number, and from the vocoder's sound with
`latent_len * ttl_chunk_compress_factor * base_chunk_size` samples as many are kept as there should be. -/
def LengthsAgree (h : Hparams) (durationRaw speed : ℚ) (noise : Option NpyArray) : Prop :=
  ∃ l reads, synthesizeLengths h durationRaw speed noise = .ok l ∧
    unpackReads h l.latentLen = .ok reads ∧
    reads.Perm (List.range (h.latentChannels * l.latentLen).toNat) ∧
    ∃ wavFull : ℕ, (wavFull : ℤ) = l.latentLen * h.ttlChunkCompressFactor * h.baseChunkSize ∧
      (pcmLength l.wavLen wavFull : ℤ) = l.wavLen

/-- A noise file that the engine accepts. -/
def Accepted (h : Hparams) (a : NpyArray) : Prop :=
  NoiseOk h a ∧ ∃ junk path file, npyLoad junk path file = .ok a

/-- A chunk has samples, the sound ends before the last `int`, the channels of the latent are the
dimensions of a chunk's steps, and where there is a noise it is not empty. -/
structure SizesFit (h : Hparams) (durationRaw speed : ℚ) (noise : Option NpyArray) : Prop where
  chunk_pos : 0 < h.baseChunkSize * h.ttlChunkCompressFactor
  chunk_lt : h.baseChunkSize * h.ttlChunkCompressFactor < 2147483648
  samples : ∃ s, samples durationRaw speed h.sampleRate = some s ∧ -2147483648 ≤ trunc s ∧
    trunc s + h.baseChunkSize * h.ttlChunkCompressFactor < 2147483648 ∧ (noise = none → 0 ≤ trunc s)
  dim_nonneg : 0 ≤ h.ttlChunkCompressFactor * h.latentDim
  channels : (h.latentDim.toNat * h.ttlChunkCompressFactor.toNat : ℤ) = h.latentChannels
  columns : ∀ a ∈ noise, 0 < noiseLen a ∧
    noiseLen a * (h.baseChunkSize * h.ttlChunkCompressFactor) < 2147483648

/-! ### The unpacking -/

/-- **The unpacking reads every number once.** -/
theorem reads_perm (D L F : ℕ) :
    ((List.range D ×ˢ List.range L ×ˢ List.range F).map fun i => (i.1 * F + i.2.2) * L + i.2.1).Perm
      (List.range (D * F * L)) := by
  rw [List.perm_ext_iff_of_nodup ?_ List.nodup_range]
  · intro a
    simp only [List.mem_map, List.mem_range, Prod.exists, List.mem_product]
    constructor
    · rintro ⟨c, t, r, ⟨hc, ht, hr⟩, rfl⟩
      exact Strided.mul_add_lt (Strided.mul_add_lt hc hr) ht
    · intro ha
      have hL : 0 < L := Nat.pos_of_mul_pos_left (Nat.zero_lt_of_lt ha)
      have hrow : a / L < D * F := (Nat.div_lt_iff_lt_mul hL).mpr ha
      have hF : 0 < F := Nat.pos_of_mul_pos_left (Nat.zero_lt_of_lt hrow)
      refine ⟨a / L / F, a % L, a / L % F, ⟨(Nat.div_lt_iff_lt_mul hF).mpr hrow, Nat.mod_lt _ hL,
        Nat.mod_lt _ hF⟩, ?_⟩
      rw [Nat.div_add_mod', Nat.div_add_mod']
  · refine (List.nodup_range.product (List.nodup_range.product List.nodup_range)).map_on ?_
    rintro ⟨c, t, r⟩ hi ⟨c', t', r'⟩ hi' heq
    simp only [List.mem_product, List.mem_range] at hi hi'
    obtain ⟨hrow, rfl⟩ := Strided.mul_add_inj hi.2.1 hi'.2.1 heq
    obtain ⟨rfl, rfl⟩ := Strided.mul_add_inj hi.2.2 hi'.2.2 hrow
    rfl

/-! ### What each step returns -/

section Steps

variable {x y a b : ℤ}

theorem checkedInt_eq_ok_iff :
    checkedInt x = .ok y ↔ (-2147483648 ≤ x ∧ x < 2147483648) ∧ x = y := by
  rw [checkedInt]
  split_ifs with h
  · simp [h]
  · simp [h]

theorem floatToInt_eq_ok_iff {o : Option ℚ} : floatToInt o = .ok y ↔
    ∃ s, o = some s ∧ (-2147483648 ≤ trunc s ∧ trunc s < 2147483648) ∧ trunc s = y := by
  cases o with
  | none => simp [floatToInt]
  | some s =>
    rw [floatToInt]
    split_ifs with h
    · simp [h]
    · simp [h]

theorem checkedDiv_eq_ok_iff : checkedDiv a b = .ok y ↔
    b ≠ 0 ∧ (-2147483648 ≤ a.tdiv b ∧ a.tdiv b < 2147483648) ∧ a.tdiv b = y := by
  rw [checkedDiv]
  split_ifs with h
  · simp [h]
  · simp [h, checkedInt_eq_ok_iff]

theorem checkedSize_eq_ok_iff {u : Unit} : checkedSize x = .ok u ↔ 0 ≤ x := by
  rw [checkedSize]
  split_ifs with h
  · simp [h]
  · simp [not_lt.mp h]

end Steps

section Agree

variable {h : Hparams} {durationRaw speed : ℚ} {l : Lengths} {L : ℤ} {reads : List ℕ}

/-- The unpacking returns if its sizes fit into an `int`, and there are columns. -/
theorem unpackReads_eq_ok (hL : 0 < L) (ht0 : -2147483648 ≤ L * h.ttlChunkCompressFactor ∧
    L * h.ttlChunkCompressFactor < 2147483648) (hdim : 0 ≤ h.ttlChunkCompressFactor * h.latentDim)
    (hchannels : (h.latentDim.toNat * h.ttlChunkCompressFactor.toNat : ℤ) < 2147483648) :
    unpackReads h L = .ok ((List.range h.latentDim.toNat ×ˢ List.range L.toNat ×ˢ
      List.range h.ttlChunkCompressFactor.toNat).map fun i =>
        (i.1 * h.ttlChunkCompressFactor.toNat + i.2.2) * L.toNat + i.2.1) := by
  set F := h.ttlChunkCompressFactor with hF
  have hsize : ¬ L * F * h.latentDim < 0 := by
    rw [mul_assoc]
    exact not_lt.mpr (mul_nonneg hL.le hdim)
  have hbody : ∀ i ∈ List.range h.latentDim.toNat ×ˢ List.range L.toNat ×ˢ List.range F.toNat,
      (do
        let srcC ← checkedInt (i.1 * F + i.2.2)
        return srcC.toNat * L.toNat + i.2.1) =
      (.ok ((i.1 * F.toNat + i.2.2) * L.toNat + i.2.1) : Except LengthFault ℕ) := by
    rintro ⟨c, t, r⟩ hi
    simp only [List.mem_product, List.mem_range] at hi
    have hFnat : (F.toNat : ℤ) = F := Int.toNat_of_nonneg (by omega)
    have hsrc : (c : ℤ) * F + r = (c * F.toNat + r : ℕ) := by
      push_cast
      rw [hFnat]
    have hlt : c * F.toNat + r < h.latentDim.toNat * F.toNat := Strided.mul_add_lt hi.1 hi.2.2
    have hlt' : ((c * F.toNat + r : ℕ) : ℤ) < 2147483648 := by
      refine lt_of_lt_of_le ?_ hchannels.le
      exact_mod_cast hlt
    simp only [hsrc, checkedInt, if_pos (⟨by omega, hlt'⟩ : -2147483648 ≤ ((c * F.toNat + r : ℕ) : ℤ) ∧ _)]
    rfl
  rw [unpackReads]
  refine bind_eq_ok_iff.mpr ⟨L * F, checkedInt_eq_ok_iff.mpr ⟨ht0, rfl⟩, ?_⟩
  rw [if_neg hL.not_ge]
  exact bind_eq_ok_iff.mpr ⟨(), checkedSize_eq_ok_iff.mpr (not_lt.mp hsize), mapM_eq_ok hbody⟩

/-- What it needs to return. -/
theorem of_unpackReads_eq_ok (hreads : unpackReads h L = .ok reads) :
    0 < L ∧ 0 ≤ h.ttlChunkCompressFactor * h.latentDim ∧
      reads.length = h.latentDim.toNat * (L.toNat * h.ttlChunkCompressFactor.toNat) := by
  rw [unpackReads] at hreads
  obtain ⟨t0, ht0, hreads⟩ := bind_eq_ok_iff.mp hreads
  obtain ⟨-, rfl⟩ := checkedInt_eq_ok_iff.mp ht0
  split_ifs at hreads with hL
  obtain ⟨u, hsize, hreads⟩ := bind_eq_ok_iff.mp hreads
  have hL : 0 < L := not_le.mp hL
  refine ⟨hL, ?_, ?_⟩
  · have hnonneg := checkedSize_eq_ok_iff.mp hsize
    rw [mul_assoc] at hnonneg
    exact nonneg_of_mul_nonneg_right hnonneg hL
  · rw [length_of_mapM_eq_ok hreads]
    simp [List.length_product]

/-- The lengths that follow from the duration. -/
theorem durationLengths_eq_ok_iff {chunk : ℤ} : durationLengths h durationRaw speed = .ok (chunk, l) ↔
    (chunk = h.baseChunkSize * h.ttlChunkCompressFactor ∧ chunk ≠ 0) ∧
    (-2147483648 ≤ chunk ∧ chunk < 2147483648) ∧
    ∃ s, samples durationRaw speed h.sampleRate = some s ∧
      (-2147483648 ≤ trunc s ∧ trunc s < 2147483648) ∧
      (-2147483648 ≤ trunc s + chunk ∧ trunc s + chunk < 2147483648) ∧
      (-2147483648 ≤ trunc s + chunk - 1 ∧ trunc s + chunk - 1 < 2147483648) ∧
      (-2147483648 ≤ (trunc s + chunk - 1).tdiv chunk ∧
        (trunc s + chunk - 1).tdiv chunk < 2147483648) ∧
      l = ⟨trunc s, max 1 ((trunc s + chunk - 1).tdiv chunk)⟩ := by
  rw [durationLengths]
  simp only [bind_eq_ok_iff, checkedInt_eq_ok_iff, floatToInt_eq_ok_iff, checkedDiv_eq_ok_iff]
  constructor
  · rintro ⟨_, ⟨hchunk, rfl⟩, _, ⟨s, hs, htrunc, rfl⟩, _, ⟨hsum, rfl⟩, _, ⟨hsum', rfl⟩, _,
      ⟨hne, hdiv, rfl⟩, hret⟩
    cases hret
    exact ⟨⟨rfl, hne⟩, hchunk, s, hs, htrunc, hsum, hsum', hdiv, rfl⟩
  · rintro ⟨⟨rfl, hne⟩, hchunk, s, hs, htrunc, hsum, hsum', hdiv, rfl⟩
    exact ⟨_, ⟨hchunk, rfl⟩, _, ⟨s, hs, htrunc, rfl⟩, _, ⟨hsum, rfl⟩, _, ⟨hsum', rfl⟩, _,
      ⟨hne, hdiv, rfl⟩, rfl⟩

theorem tdiv_nonpos {a b : ℤ} (ha : a ≤ 0) (hb : 0 ≤ b) : a.tdiv b ≤ 0 := by
  have hflip : a.tdiv b = -(-a).tdiv b := by rw [Int.neg_tdiv, neg_neg]
  have hnonneg := Int.tdiv_nonneg (neg_nonneg.mpr ha) hb
  omega

/-- What a quotient is rounded to is not larger than the dividend. -/
theorem tdiv_bounds (a b : ℤ) (ha : -2147483648 ≤ a ∧ a < 2147483648) (hb : 0 < b) :
    -2147483648 ≤ a.tdiv b ∧ a.tdiv b < 2147483648 := by
  have habs := Int.natAbs_tdiv_le_natAbs a b
  rcases le_or_gt 0 a with hnonneg | hneg
  · have hsign : 0 ≤ a.tdiv b := Int.tdiv_nonneg hnonneg hb.le
    omega
  · have hsign := tdiv_nonpos hneg.le hb.le
    omega

/-- As many columns as there are chunks, and no fewer samples than there should be. -/
theorem columns_bounds {w c : ℤ} (hc : 0 < c) (hsum : w + c < 2147483648) (hlt : c < 2147483648) :
    w ≤ max 1 ((w + c - 1).tdiv c) * c ∧ max 1 ((w + c - 1).tdiv c) * c < 2147483648 := by
  rcases le_or_gt 0 (w + c - 1) with hnonneg | hneg
  · have hlow := Int.ediv_mul_le (w + c - 1) hc.ne'
    have hhigh := Int.lt_ediv_add_one_mul_self (w + c - 1) hc
    rw [Int.tdiv_eq_ediv_of_nonneg hnonneg]
    set q := (w + c - 1) / c
    rw [add_mul, one_mul] at hhigh
    rcases le_or_gt 1 q with hq | hq
    · rw [max_eq_right hq]
      omega
    · have hnonpos : q * c ≤ 0 := mul_nonpos_of_nonpos_of_nonneg (by omega) hc.le
      rw [max_eq_left hq.le]
      omega
  · have hsign := tdiv_nonpos hneg.le hc.le
    rw [max_eq_left (by omega)]
    omega

/-- The steps of the vocoder are not more than its samples. -/
theorem steps_bounds {B F L : ℤ} (hpos : 0 < B * F) (hL : 0 < L) (hlt : L * (B * F) < 2147483648) :
    -2147483648 ≤ L * F ∧ L * F < 2147483648 := by
  have hle : F ≤ B * F := Int.le_of_dvd hpos (Int.dvd_mul_left B F)
  have hge : -F ≤ B * F := Int.le_of_dvd hpos (Int.neg_dvd.mpr (Int.dvd_mul_left B F))
  have hmul : L * F ≤ L * (B * F) := mul_le_mul_of_nonneg_left hle hL.le
  have hmul' : L * -F ≤ L * (B * F) := mul_le_mul_of_nonneg_left hge hL.le
  rw [mul_neg] at hmul'
  omega

/-- The dimensions in a file are not negative. -/
theorem shape_nonneg_of_npyLoad {junk : Uninitialized} {path : String} {file : Option (List UInt8)}
    {a : NpyArray} (ha : npyLoad junk path file = .ok a) : ∀ d ∈ a.shape, 0 ≤ d := by
  have hdata : ∀ dtype text rest, npyData dtype text rest = .ok a → ∀ d ∈ a.shape, 0 ≤ d := by
    intro dtype text rest hok
    by_cases hrefused : Refused dtype text
    · obtain ⟨e, he⟩ := npyData_eq_error_iff.mpr hrefused
      rw [he] at hok
      cases hok
    · rw [npyData_of_not_refused hrefused] at hok
      cases hok
      intro d hd
      obtain ⟨r, -, rfl⟩ := List.mem_map.mp hd
      exact Int.natCast_nonneg _
  cases file with
  | none => cases ha
  | some file =>
    rw [npyLoad, npyRead] at ha
    split at ha
    · cases ha
    · rw [npyBody] at ha
      obtain ⟨dtype, -, ha⟩ := bind_eq_ok_iff.mp ha
      obtain ⟨-, -, ha⟩ := bind_eq_ok_iff.mp ha
      obtain ⟨text, -, ha⟩ := bind_eq_ok_iff.mp ha
      exact hdata _ _ _ ha

/-- As many samples are kept as there should be, if there are as many. -/
theorem pcmLength_eq {w : ℤ} {n : ℕ} (h0 : 0 ≤ w) (hlt : w < 2147483648) (hle : w ≤ n) :
    (pcmLength w n : ℤ) = w := by
  rw [pcmLength, Int.emod_eq_of_lt h0 (by omega)]
  omega

/-- With columns that fit, the latent is unpacked, and the vocoder's sound is long enough. -/
theorem columnsAgree (hpos : 0 < h.baseChunkSize * h.ttlChunkCompressFactor) (hL : 0 < L)
    (hlt : L * (h.baseChunkSize * h.ttlChunkCompressFactor) < 2147483648)
    (hdim : 0 ≤ h.ttlChunkCompressFactor * h.latentDim)
    (hchannels : (h.latentDim.toNat * h.ttlChunkCompressFactor.toNat : ℤ) = h.latentChannels)
    (hmax : h.latentChannels < 2147483648) {w : ℤ} (h0 : 0 ≤ w)
    (hw : w ≤ L * (h.baseChunkSize * h.ttlChunkCompressFactor)) :
    ∃ reads, unpackReads h L = .ok reads ∧
      reads.Perm (List.range (h.latentChannels * L).toNat) ∧
      ∃ wavFull : ℕ, (wavFull : ℤ) = L * h.ttlChunkCompressFactor * h.baseChunkSize ∧
        (pcmLength w wavFull : ℤ) = w := by
  refine ⟨_, unpackReads_eq_ok hL (steps_bounds hpos hL hlt) hdim (hchannels ▸ hmax), ?_, ?_⟩
  · have hlen : (h.latentChannels * L).toNat =
        h.latentDim.toNat * h.ttlChunkCompressFactor.toNat * L.toNat := by
      rw [← hchannels, Int.toNat_mul (by positivity) hL.le]
      norm_cast
    rw [hlen]
    exact reads_perm _ _ _
  · have hfull : L * h.ttlChunkCompressFactor * h.baseChunkSize =
        L * (h.baseChunkSize * h.ttlChunkCompressFactor) := by ring
    refine ⟨(L * (h.baseChunkSize * h.ttlChunkCompressFactor)).toNat, ?_, ?_⟩
    · rw [hfull, Int.toNat_of_nonneg (mul_nonneg hL.le hpos.le)]
    · exact pcmLength_eq h0 (by omega) (by omega)

/-- If the latent is read once everywhere, its channels are the dimensions of a chunk's steps. -/
theorem channels_eq (hreads : unpackReads h L = .ok reads)
    (hperm : reads.Perm (List.range (h.latentChannels * L).toNat)) (h0 : 0 ≤ h.latentChannels) :
    (h.latentDim.toNat * h.ttlChunkCompressFactor.toNat : ℤ) = h.latentChannels := by
  obtain ⟨hL, -, hlen⟩ := of_unpackReads_eq_ok hreads
  have hcount := hperm.length_eq
  rw [hlen, List.length_range, Int.toNat_mul h0 hL.le] at hcount
  have hpos : 0 < L.toNat := by omega
  have hmul : h.latentDim.toNat * h.ttlChunkCompressFactor.toNat * L.toNat =
      h.latentChannels.toNat * L.toNat := by
    rw [← hcount]
    ring
  have hnat := Nat.eq_of_mul_eq_mul_right hpos hmul
  have hcast := congrArg (Nat.cast : ℕ → ℤ) hnat
  rw [Int.toNat_of_nonneg h0] at hcast
  exact_mod_cast hcast

/-- Where the lengths agree, the sizes fit. -/
theorem LengthsAgree.sizesFit (hnoise : ∀ a ∈ noise, Accepted h a)
    (hagree : LengthsAgree h durationRaw speed noise) : SizesFit h durationRaw speed noise := by
  obtain ⟨l, reads, hlengths, hreads, hperm, wavFull, hfull, hpcm⟩ := hagree
  obtain ⟨hL, hdim, -⟩ := of_unpackReads_eq_ok hreads
  rw [synthesizeLengths] at hlengths
  obtain ⟨⟨chunk, l'⟩, hduration, hrest⟩ := bind_eq_ok_iff.mp hlengths
  obtain ⟨⟨hdef, hne⟩, hchunk, s, hs, htrunc, hsum, -, -, hl'⟩ :=
    durationLengths_eq_ok_iff.mp hduration
  have hpos : 0 < chunk := by
    have hprod : l.latentLen * chunk = wavFull := by
      rw [hfull, hdef]
      ring
    have hnonneg : 0 ≤ l.latentLen * chunk := by
      rw [hprod]
      exact Int.natCast_nonneg _
    exact lt_of_le_of_ne (nonneg_of_mul_nonneg_right hnonneg hL) hne.symm
  cases noise with
  | none =>
    obtain ⟨_, hsize, hrest⟩ := bind_eq_ok_iff.mp hrest
    obtain ⟨_, -, hrest⟩ := bind_eq_ok_iff.mp hrest
    cases hrest
    have hchannels : 0 ≤ h.latentChannels :=
      nonneg_of_mul_nonneg_left (checkedSize_eq_ok_iff.mp hsize) hL
    have hw : 0 ≤ trunc s := by
      rw [hl'] at hpcm
      rw [← show (_ : ℤ) = trunc s from hpcm]
      exact Int.natCast_nonneg _
    exact ⟨hdef ▸ hpos, hdef ▸ hchunk.2, ⟨s, hs, htrunc.1, hdef ▸ hsum.2, fun _ => hw⟩, hdim,
      channels_eq hreads hperm hchannels, nofun⟩
  | some a =>
    dsimp only at hrest
    split_ifs at hrest with hok
    obtain ⟨wavLen, hwav, hrest⟩ := bind_eq_ok_iff.mp hrest
    obtain ⟨_, -, hrest⟩ := bind_eq_ok_iff.mp hrest
    cases hrest
    obtain ⟨hrange, -⟩ := checkedInt_eq_ok_iff.mp hwav
    obtain ⟨-, junk, path, file, hload⟩ := hnoise a rfl
    have hchannels : 0 ≤ h.latentChannels :=
      shape_nonneg_of_npyLoad hload _ (List.mem_of_getElem? hok.2.2.2)
    refine ⟨hdef ▸ hpos, hdef ▸ hchunk.2, ⟨s, hs, htrunc.1, hdef ▸ hsum.2, nofun⟩, hdim,
      channels_eq hreads hperm hchannels, ?_⟩
    intro b hb
    cases hb
    exact ⟨hL, hdef ▸ hrange.2⟩

/-- Where the sizes fit, the lengths agree. -/
theorem SizesFit.lengthsAgree (hnoise : ∀ a ∈ noise, Accepted h a)
    (hmax : h.latentChannels < 2147483648) (hfit : SizesFit h durationRaw speed noise) :
    LengthsAgree h durationRaw speed noise := by
  obtain ⟨hpos, hlt, ⟨s, hs, hlow, hsum, hnonneg⟩, hdim, hchannels, hlen⟩ := hfit
  obtain ⟨chunk, hdef⟩ : ∃ chunk, chunk = h.baseChunkSize * h.ttlChunkCompressFactor := ⟨_, rfl⟩
  rw [← hdef] at hpos hlt hsum
  have hsum' : -2147483648 ≤ trunc s + chunk - 1 ∧ trunc s + chunk - 1 < 2147483648 := by omega
  have hduration : durationLengths h durationRaw speed =
      .ok (chunk, ⟨trunc s, max 1 ((trunc s + chunk - 1).tdiv chunk)⟩) :=
    durationLengths_eq_ok_iff.mpr ⟨⟨hdef, hpos.ne'⟩, by omega, s, hs, by omega, by omega, hsum',
      tdiv_bounds _ _ hsum' hpos, rfl⟩
  cases noise with
  | none =>
    obtain ⟨hw, hcols⟩ := columns_bounds hpos hsum hlt
    have hL : 0 < max 1 ((trunc s + chunk - 1).tdiv chunk) :=
      lt_of_lt_of_le Int.one_pos (le_max_left _ _)
    have hsize : 0 ≤ h.latentChannels * max 1 ((trunc s + chunk - 1).tdiv chunk) := by
      rw [← hchannels]
      positivity
    obtain ⟨reads, hreads, hperm, hpcm⟩ := columnsAgree (hdef ▸ hpos) hL (hdef ▸ hcols) hdim
      hchannels hmax (hnonneg rfl) (hdef ▸ hw)
    refine ⟨⟨trunc s, max 1 ((trunc s + chunk - 1).tdiv chunk)⟩, reads, ?_, hreads, hperm, hpcm⟩
    rw [synthesizeLengths]
    exact bind_eq_ok_iff.mpr ⟨_, hduration, bind_eq_ok_iff.mpr ⟨(), checkedSize_eq_ok_iff.mpr hsize,
      bind_eq_ok_iff.mpr ⟨(), checkedSize_eq_ok_iff.mpr hL.le, rfl⟩⟩⟩
  | some a =>
    obtain ⟨hL, hcols⟩ := hlen a rfl
    rw [← hdef] at hcols
    have hwav : 0 ≤ noiseLen a * chunk := mul_nonneg hL.le hpos.le
    obtain ⟨reads, hreads, hperm, hpcm⟩ := columnsAgree (hdef ▸ hpos) hL (hdef ▸ hcols) hdim
      hchannels hmax hwav (hdef ▸ le_rfl)
    refine ⟨⟨noiseLen a * chunk, noiseLen a⟩, reads, ?_, hreads, hperm, hpcm⟩
    rw [synthesizeLengths]
    refine bind_eq_ok_iff.mpr ⟨_, hduration, ?_⟩
    dsimp only
    rw [if_pos (hnoise a rfl).1]
    exact bind_eq_ok_iff.mpr ⟨_, checkedInt_eq_ok_iff.mpr ⟨by omega, rfl⟩,
      bind_eq_ok_iff.mpr ⟨(), checkedSize_eq_ok_iff.mpr hL.le, rfl⟩⟩

theorem toInt32_lt (x : ℤ) : toInt32 x < 2147483648 := by
  rw [toInt32]
  have hlt := @Int.bmod_lt x 4294967296 (by norm_num)
  omega

theorem latentChannels_lt (g : GgufSizes) : (loadHparams g).latentChannels < 2147483648 := by
  simp only [loadHparams]
  exact toInt32_lt _

/-- **The lengths agree** if and only if the sizes of the model file fit. -/
theorem lengthsAgree_iff (g : GgufSizes) (durationRaw speed : ℚ) (noise : Option NpyArray)
    (hnoise : ∀ a ∈ noise, Accepted (loadHparams g) a) :
    LengthsAgree (loadHparams g) durationRaw speed noise ↔
      SizesFit (loadHparams g) durationRaw speed noise :=
  ⟨fun hagree => hagree.sizesFit hnoise, fun hfit => hfit.lengthsAgree hnoise (latentChannels_lt g)⟩

end Agree

/-- With the sizes of a model and a second of sound, the lengths agree. -/
theorem lengthsAgree_oneSecond :
    LengthsAgree (loadHparams ⟨44100, 512, 6, 24, 144⟩) 1 1 none := by
  refine (lengthsAgree_iff ⟨44100, 512, 6, 24, 144⟩ 1 1 none nofun).mpr ?_
  have hchunk : (loadHparams ⟨44100, 512, 6, 24, 144⟩).baseChunkSize *
      (loadHparams ⟨44100, 512, 6, 24, 144⟩).ttlChunkCompressFactor = 3072 := by decide +kernel
  have hsamples : samples 1 1 (loadHparams ⟨44100, 512, 6, 24, 144⟩).sampleRate = some 44100 := by
    decide +kernel
  refine ⟨by rw [hchunk]; norm_num, by rw [hchunk]; norm_num, ⟨44100, hsamples, ?_, ?_, ?_⟩, ?_, ?_,
    nofun⟩
  · decide +kernel
  · rw [hchunk]
    decide +kernel
  · decide +kernel
  · decide +kernel
  · decide +kernel

/-- A model file without samples in a chunk makes the lengths a division by zero. -/
theorem not_forall_lengthsAgree : ¬ ∀ (g : GgufSizes) (durationRaw speed : ℚ) (noise : Option NpyArray),
    0 ≤ durationRaw → 0 < speed → (∀ a ∈ noise, Accepted (loadHparams g) a) →
      LengthsAgree (loadHparams g) durationRaw speed noise := by
  intro hall
  have hagree := hall ⟨44100, 0, 6, 24, 144⟩ 1 1 none zero_le_one zero_lt_one (by simp)
  have hpos := (hagree.sizesFit (by simp)).chunk_pos
  have hzero : (loadHparams ⟨44100, 0, 6, 24, 144⟩).baseChunkSize = 0 := by decide +kernel
  rw [hzero, zero_mul] at hpos
  exact lt_irrefl 0 hpos

end Supertonic

end WhisperCpp
