import Mathlib.Tactic.NormNum
import WhisperCpp.Grammar.Utf8

/-!
# Incomplete characters against a class

`whisper_grammar_match_partial_char` decides whether an incomplete character can still become one
that a class admits. It compares the interval of the code points that the character can complete to
with the ranges of the class, and decides at the first range that meets the interval. For a class
that is not negated this finds a completion unless the range is empty; for a negated class it takes
one range that meets the interval as proof that the whole interval is excluded.

## Main definitions

* `Carried` — the incomplete characters that `decode_utf8` leaves
* `Continues` — the code points that an incomplete character can complete to
* `Settled` — the ranges that meet the interval settle the question

## Main results

* `completes_partial_iff` — the function answers it iff there is no completion or it is settled
-/

namespace WhisperCpp

namespace Grammar

/-! ### The states of the decoder -/

/-- What `decode_utf8` can leave, from the state of a fresh grammar. -/
inductive Carried : PartialUtf8 → Prop
  | start : Carried ⟨0, 0⟩
  | decode {p : PartialUtf8} (h : Carried p) (src : List UInt8) : Carried (decodeUtf8 src p).2

/-- The bytes that are lacking leave room for the bits that are there. -/
structure Fits (v : UInt32) (k : ℕ) : Prop where
  le : k ≤ 3
  lt : v.toNat < 2 ^ (22 - 6 * k)

theorem fits_firstValue (c : UInt8) :
    Fits (firstValue c (lacking c)) (lacking c).toNat := by
  have key : ∀ n : Fin 256, (lacking (UInt8.ofNat n)).toNat ≤ 3 ∧
      (firstValue (UInt8.ofNat n) (lacking (UInt8.ofNat n))).toNat <
        2 ^ (22 - 6 * (lacking (UInt8.ofNat n)).toNat) := by
    decide +kernel
  have h := key ⟨c.toNat, c.toNat_lt⟩
  rw [UInt8.ofNat_toNat] at h
  exact ⟨h.1, h.2⟩

theorem toNat_shiftIn (v : UInt32) (c : UInt8) (h : v.toNat < 2 ^ 16) :
    (shiftIn v c).toNat = v.toNat * 64 + c.toNat % 64 := by
  have hand : c.toNat &&& 63 = c.toNat % 64 := Nat.and_two_pow_sub_one_eq_mod c.toNat 6
  have hshift : v.toNat <<< 6 = v.toNat * 64 := Nat.shiftLeft_eq ..
  rw [shiftIn, UInt32.toNat_add, UInt32.toNat_shiftLeft]
  simp only [UInt8.toNat_toUInt32, UInt8.toNat_and, UInt32.reduceToNat, UInt8.reduceToNat,
    Nat.reduceMod, hand, hshift]
  omega

theorem Fits.shiftIn {v : UInt32} {k : ℕ} (h : Fits v (k + 1)) (c : UInt8) :
    Fits (shiftIn v c) k := by
  obtain ⟨hle, hlt⟩ := h
  have hv : v.toNat < 2 ^ 16 := hlt.trans_le (Nat.pow_le_pow_right (by decide) (by omega))
  refine ⟨by omega, ?_⟩
  rw [toNat_shiftIn v c hv, show 22 - 6 * k = 22 - 6 * (k + 1) + 6 by omega, pow_add]
  omega

/-- Reading on keeps the room. -/
theorem Fits.scan {v : UInt32} {k : ℕ} (h : Fits v k) (bs : List UInt8) :
    Fits (scan v k bs).2.value (scan v k bs).2.nRemain.toNat := by
  induction bs generalizing v k with
  | nil => simpa [Grammar.scan] using h
  | cons c bs ih =>
    cases k with
    | zero => exact ih (fits_firstValue c)
    | succ k => exact ih (h.shiftIn c)

/-- A state of the decoder is invalid, or has room for the bytes that are lacking. -/
theorem Carried.fits {p : PartialUtf8} (h : Carried p) :
    p = ⟨0, -1⟩ ∨ ∃ k : ℕ, p.nRemain = k ∧ Fits p.value k := by
  have hdecode : ∀ (v : UInt32) (k : ℕ) (src : List UInt8), Fits v k →
      (decodeUtf8 src ⟨v, k⟩).2 = ⟨0, -1⟩ ∨ ∃ l : ℕ, (decodeUtf8 src ⟨v, k⟩).2.nRemain = l ∧
        Fits (decodeUtf8 src ⟨v, k⟩).2.value l := by
    intro v k src hfits
    rw [decodeUtf8_eq]
    split
    · refine .inr ⟨(scan v k src).2.nRemain.toNat, ?_, hfits.scan src⟩
      have hnonneg := @scan_nRemain v k src
      simp only at hnonneg ⊢
      omega
    · exact .inl rfl
  have hzero : Fits 0 0 := ⟨by decide, by decide⟩
  induction h with
  | start => exact .inr ⟨0, rfl, hzero⟩
  | @decode p _ src ih =>
    rcases ih with rfl | ⟨k, hk, hfits⟩
    · cases src with
      | nil => exact .inl (by simp [decodeUtf8, continueDecode, decodeFresh])
      | cons c src =>
        -- behind an invalid text the decoder starts afresh
        have hfresh : decodeUtf8 (c :: src) ⟨0, -1⟩ = decodeUtf8 (c :: src) ⟨0, 0⟩ := by
          simp [decodeUtf8, continueDecode, decodeFresh]
        rw [hfresh]
        exact hdecode 0 0 (c :: src) hzero
    · obtain ⟨v, n⟩ := p
      obtain rfl : n = k := hk
      exact hdecode v k src hfits

theorem Fits.valid {v : UInt32} {k : ℕ} (h : Fits v k) : PartialUtf8.Valid ⟨v, k⟩ := by
  obtain ⟨hle, hlt⟩ := h
  refine ⟨by simp only; omega, ?_⟩
  simp only [Int.toNat_natCast]
  obtain rfl | rfl | rfl | rfl : k = 0 ∨ k = 1 ∨ k = 2 ∨ k = 3 := by omega
  all_goals norm_num at hlt ⊢; omega

/-! ### Completions -/

/-- The bytes of the shortest encoding of a code point. -/
def encodedLength (chr : UInt32) : ℕ :=
  if chr.toNat < 2 ^ 7 then 1 else if chr.toNat < 2 ^ 11 then 2 else
    if chr.toNat < 2 ^ 16 then 3 else 4

/-- The incomplete character is the beginning of the shortest encoding of the code point, less the
last `n_remain` bytes. -/
def Continues (p : PartialUtf8) (chr : UInt32) : Prop :=
  0 ≤ p.nRemain ∧ chr.toNat / 2 ^ (p.nRemain.toNat * 6) = p.value.toNat ∧
    p.nRemain < encodedLength chr

instance (p : PartialUtf8) (chr : UInt32) : Decidable (Continues p chr) :=
  inferInstanceAs (Decidable (_ ∧ _ ∧ _))

/-- No code point can complete the character. -/
def Hopeless (p : PartialUtf8) : Prop := p.nRemain < 0 ∨ (p.nRemain = 1 ∧ p.value.toNat < 2)

instance (p : PartialUtf8) : Decidable (Hopeless p) := inferInstanceAs (Decidable (_ ∨ _))

/-- The interval that `whisper_grammar_match_partial_char` computes is that of the completions. -/
theorem continues_iff {p : PartialUtf8} (hp : p.Valid) (chr : UInt32) :
    Continues p chr ↔ ¬ Hopeless p ∧ p.low ≤ chr.toNat ∧ chr.toNat ≤ p.high := by
  rw [Continues, Hopeless, PartialUtf8.low_eq hp, PartialUtf8.high_eq hp,
    Nat.div_eq_iff (Nat.two_pow_pos _), encodedLength]
  have hn := hp.1
  obtain h | h | h | h | h : p.nRemain < 0 ∨ p.nRemain = 0 ∨ p.nRemain = 1 ∨ p.nRemain = 2 ∨
    p.nRemain = 3 := by omega
  · omega
  · rw [show 2 ^ (p.nRemain.toNat * 6) = 1 by rw [h]; rfl]
    split_ifs <;> omega
  · rw [show 2 ^ (p.nRemain.toNat * 6) = 64 by rw [h]; rfl]
    split_ifs <;> omega
  · rw [show 2 ^ (p.nRemain.toNat * 6) = 4096 by rw [h]; rfl]
    split_ifs <;> omega
  · rw [show 2 ^ (p.nRemain.toNat * 6) = 262144 by rw [h]; rfl]
    split_ifs <;> omega

/-- The interval is not empty, and its code points fit. -/
theorem low_le_high_of_not_hopeless {p : PartialUtf8} (hp : p.Valid) (h : ¬ Hopeless p) :
    p.low ≤ p.high ∧ p.high < 2 ^ 32 := by
  obtain ⟨hneg, -⟩ := not_or.mp h
  rcases eq_or_lt_of_le (not_lt.mp hneg) with hzero | hpos
  · have hv := hp.2
    rw [PartialUtf8.low_eq hp, PartialUtf8.high_eq hp, ← hzero]
    rw [← hzero] at hv
    norm_num at hv ⊢
    omega
  · exact PartialUtf8.low_le_high hp hpos

/-! ### Ranges that settle the question -/

/-- Some code point of the interval lies in one of the ranges. -/
def SomeInRanges (ranges : List (ℕ × ℕ)) (low high : ℕ) : Prop :=
  ∃ r ∈ ranges, r.1 ≤ r.2 ∧ r.1 ≤ high ∧ low ≤ r.2

/-- Every code point of the interval lies in one of the ranges. -/
def AllInRanges (ranges : List (ℕ × ℕ)) (low high : ℕ) : Prop :=
  ∀ c, low ≤ c → c ≤ high → ∃ r ∈ ranges, r.1 ≤ c ∧ c ≤ r.2

/-- If a range of the class meets the interval, then the class has a code point of it, and a negated
class none. -/
def Settled (positive : Bool) (ranges : List (ℕ × ℕ)) (low high : ℕ) : Prop :=
  meetsRanges ranges low high = true →
    if positive then SomeInRanges ranges low high else AllInRanges ranges low high

theorem meetsRanges_eq_true {ranges : List (ℕ × ℕ)} {low high : ℕ} :
    meetsRanges ranges low high = true ↔ ∃ r ∈ ranges, r.1 ≤ high ∧ low ≤ r.2 := by
  simp [meetsRanges]

theorem inRanges_eq_true {ranges : List (ℕ × ℕ)} {chr : UInt32} :
    inRanges ranges chr = true ↔ ∃ r ∈ ranges, r.1 ≤ chr.toNat ∧ chr.toNat ≤ r.2 := by
  simp [inRanges]

/-- A code point of the interval in the ranges. -/
theorem someInRanges_iff {ranges : List (ℕ × ℕ)} {low high : ℕ} (hle : low ≤ high)
    (hlt : high < 2 ^ 32) : SomeInRanges ranges low high ↔
      ∃ chr : UInt32, low ≤ chr.toNat ∧ chr.toNat ≤ high ∧ inRanges ranges chr = true := by
  constructor
  · rintro ⟨r, hr, hord, h1, h2⟩
    -- the larger of the two lower ends is in both
    have hc : (UInt32.ofNat (max low r.1)).toNat = max low r.1 :=
      UInt32.toNat_ofNat_of_lt' (by change _ < 2 ^ 32; omega)
    exact ⟨UInt32.ofNat (max low r.1), by omega, by omega,
      inRanges_eq_true.mpr ⟨r, hr, by omega, by omega⟩⟩
  · rintro ⟨chr, h1, h2, hin⟩
    obtain ⟨r, hr, h3, h4⟩ := inRanges_eq_true.mp hin
    exact ⟨r, hr, by omega, by omega, by omega⟩

theorem allInRanges_iff {ranges : List (ℕ × ℕ)} {low high : ℕ} (hlt : high < 2 ^ 32) :
    AllInRanges ranges low high ↔
      ¬ ∃ chr : UInt32, low ≤ chr.toNat ∧ chr.toNat ≤ high ∧ inRanges ranges chr = false := by
  constructor
  · rintro hall ⟨chr, h1, h2, hin⟩
    have htrue := inRanges_eq_true.mpr (hall chr.toNat h1 h2)
    rw [hin] at htrue
    cases htrue
  · intro hno c h1 h2
    have hc : (UInt32.ofNat c).toNat = c := UInt32.toNat_ofNat_of_lt' (by change _ < 2 ^ 32; omega)
    by_contra hnone
    refine hno ⟨UInt32.ofNat c, by omega, by omega, ?_⟩
    rw [← Bool.not_eq_true, inRanges_eq_true, hc]
    exact hnone

/-- Whether a class admits a code point of the interval, by the comparison with its ranges. -/
theorem meetsRanges_beq_iff {positive : Bool} {ranges : List (ℕ × ℕ)} {low high : ℕ}
    (hle : low ≤ high) (hlt : high < 2 ^ 32) :
    ((meetsRanges ranges low high == positive) = true ↔
      ∃ chr : UInt32, low ≤ chr.toNat ∧ chr.toNat ≤ high ∧ inClass positive ranges chr = true) ↔
    Settled positive ranges low high := by
  cases positive with
  | true =>
    have hsome := @someInRanges_iff ranges low high hle hlt
    have hmeet : SomeInRanges ranges low high → meetsRanges ranges low high = true :=
      fun ⟨r, hr, _, h1, h2⟩ => meetsRanges_eq_true.mpr ⟨r, hr, h1, h2⟩
    simp only [inClass, beq_true, ← hsome, Settled, if_true]
    exact ⟨fun h => h.mp, fun h => ⟨h, hmeet⟩⟩
  | false =>
    have hall := @allInRanges_iff ranges low high hlt
    have hexists : meetsRanges ranges low high = false →
        ∃ chr : UInt32, low ≤ chr.toNat ∧ chr.toNat ≤ high ∧ inRanges ranges chr = false := by
      intro hmeet
      have hc : (UInt32.ofNat low).toNat = low :=
        UInt32.toNat_ofNat_of_lt' (by change _ < 2 ^ 32; omega)
      refine ⟨UInt32.ofNat low, by omega, by omega, ?_⟩
      rw [← Bool.not_eq_true, inRanges_eq_true, hc]
      rintro ⟨r, hr, h1, h2⟩
      rw [← Bool.not_eq_true, meetsRanges_eq_true] at hmeet
      exact hmeet ⟨r, hr, by omega, h2⟩
    simp only [inClass, beq_false, Bool.not_eq_true', Settled, Bool.false_eq_true, if_false, hall]
    cases hmeet : meetsRanges ranges low high with
    | true => simp
    | false => simpa using hexists hmeet

/-! ### The function -/

theorem matchChar_eq_inClass {n : ℕ} {e : Element} {rest : Pos} (h : AtSymbol n (e :: rest))
    (he : e.type = .char ∨ e.type = .charNot) (chr : UInt32) :
    matchChar (e :: rest) chr =
      .ok (inClass (decide (e.type = .char)) ((decode rest).rangesFrom e.value) chr,
        skipClass rest) := by
  have hl : e.type.isLower = true := by rcases he with he | he <;> rw [he] <;> rfl
  simp [matchChar, he, matchCharLoop_eq hl h, bind, Except.bind, pure, Except.pure, inClass]

theorem matchPartialChar_eq_hopeless {n : ℕ} {e : Element} {rest : Pos} (h : AtSymbol n (e :: rest))
    (he : e.type = .char ∨ e.type = .charNot) (p : PartialUtf8) :
    matchPartialChar (e :: rest) p =
      .ok (if Hopeless p then false else
        meetsRanges ((decode rest).rangesFrom e.value) p.low p.high == decide (e.type = .char)) :=
  matchPartialChar_eq h he p

/-- **When the test for an incomplete character is right.** At every class and for every incomplete
character that the decoder leaves, the function returns. It says that some completion satisfies the
class exactly if that is so, iff no completion exists at all, or the ranges of the class that meet
the interval of the completions settle the question. -/
theorem completes_partial_iff {nRules : ℕ} {e : Element} {rest : Pos}
    (h : AtSymbol nRules (e :: rest)) (he : e.type = .char ∨ e.type = .charNot) {p : PartialUtf8}
    (hp : Carried p) :
    ∃ b, matchPartialChar (e :: rest) p = .ok b ∧
      ((b = true ↔ ∃ chr after, Continues p chr ∧ matchChar (e :: rest) chr = .ok (true, after)) ↔
        Hopeless p ∨ Settled (decide (e.type = .char)) ((decode rest).rangesFrom e.value)
          p.low p.high) := by
  refine ⟨_, matchPartialChar_eq_hopeless h he p, ?_⟩
  simp only [matchChar_eq_inClass h he, Except.ok.injEq, Prod.mk.injEq]
  rcases hp.fits with rfl | ⟨k, hk, hfits⟩
  · have hno : ∀ chr, ¬ Continues ⟨0, -1⟩ chr := fun chr hc => absurd hc.1 (by decide)
    simp [hno, Hopeless]
  obtain ⟨v, n⟩ := p
  obtain rfl : n = k := hk
  have hvalid := hfits.valid
  by_cases hless : Hopeless ⟨v, k⟩
  · have hno : ∀ chr, ¬ Continues ⟨v, k⟩ chr :=
      fun chr hc => ((continues_iff hvalid chr).mp hc).1 hless
    rw [if_pos hless]
    simp [hno, hless]
  · obtain ⟨hle, hlt⟩ := low_le_high_of_not_hopeless hvalid hless
    rw [if_neg hless, or_iff_right hless, ← meetsRanges_beq_iff hle hlt]
    simp only [continues_iff hvalid, hless, not_false_eq_true, true_and, exists_and_left,
      exists_eq', and_true, and_assoc]

/-- The class `[^À]`, of all code points but one. -/
def notAGrave : Pos := [⟨.charNot, 0xC0⟩, ⟨.endRule, 0⟩]

theorem carried_leadByte : Carried ⟨3, 1⟩ := by
  have hread : (decodeUtf8 [0xC3] ⟨0, 0⟩).2 = ⟨3, 1⟩ := by decide +kernel
  exact hread ▸ Carried.start.decode [0xC3]

theorem completes_partial_notAGrave :
    ∃ b, matchPartialChar notAGrave ⟨3, 1⟩ = .ok b ∧
      ((b = true ↔ ∃ chr after, Continues ⟨3, 1⟩ chr ∧
        matchChar notAGrave chr = .ok (true, after)) ↔
        Hopeless ⟨3, 1⟩ ∨ Settled false [(0xC0, 0xC0)] 0xC0 0xFF) :=
  @completes_partial_iff 1 ⟨.charNot, 0xC0⟩ [⟨.endRule, 0⟩] rfl (.inr rfl) _ carried_leadByte

/-- Behind the byte `C3` the class `[^À]` can still be satisfied, by `Á` for one, and the function
denies it. -/
theorem not_forall_completes_partial :
    ¬ ∀ (nRules : ℕ) (e : Element) (rest : Pos) (p : PartialUtf8), AtSymbol nRules (e :: rest) →
      e.type = .char ∨ e.type = .charNot → Carried p →
      (matchPartialChar (e :: rest) p = .ok true ↔
        ∃ chr after, Continues p chr ∧ matchChar (e :: rest) chr = .ok (true, after)) := by
  intro h
  have hmatch := (h 1 ⟨.charNot, 0xC0⟩ [⟨.endRule, 0⟩] ⟨3, 1⟩ rfl (.inr rfl) carried_leadByte).mpr
    ⟨0xC1, [⟨.endRule, 0⟩], by decide, rfl⟩
  have hfalse : matchPartialChar [⟨.charNot, 0xC0⟩, ⟨.endRule, 0⟩] ⟨3, 1⟩ = .ok false := rfl
  rw [hfalse] at hmatch
  cases hmatch

end Grammar

end WhisperCpp
