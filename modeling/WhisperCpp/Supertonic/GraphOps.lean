import WhisperCpp.Ggml.Values
import Mathlib.Algebra.BigOperators.Fin
import Mathlib.Tactic.Linarith

/-!
# The helpers of the Supertonic graphs

Signals lie in a graph with the time first, and outside of one with the channels first. `repeat_like`
spreads a vector over a tensor by comparing lengths. Where there are as many steps of time as channels,
both axes have the length of the vector, and it takes the first.

## Main definitions

* `packTimeChannel`, `tensorToTimeChannel` — the two orders
* `repeatLike`, `addRow` — the helpers

## Main results

* `gives_addRow` — a vector of channels that is added
* `gives_pointwise` — a convolution with a kernel of width one
* `addRow_eq_iff` — when the bias of every channel is added to that channel
-/

namespace WhisperCpp

namespace Supertonic

open Compute Compute.Tensor

variable {R : Type}

/-! ### Loops that add up -/

theorem foldl_add {α : Type} [AddCommMonoid R] (l : List α) (f : α → R) (a : R) :
    l.foldl (fun sum i => sum + f i) a = a + (l.map f).sum := by
  induction l generalizing a with
  | nil => simp
  | cons i l ih => rw [List.foldl_cons, ih, List.map_cons, List.sum_cons, add_assoc]

theorem foldl_range_add [AddCommMonoid R] (f : ℕ → R) (a : R) (n : ℕ) :
    (List.range n).foldl (fun sum i => sum + f i) a = a + ∑ i ∈ Finset.range n, f i := foldl_add _ f a

theorem foldl_finRange_add [AddCommMonoid R] {n : ℕ} (f : Fin n → R) (a : R) :
    (List.finRange n).foldl (fun sum i => sum + f i) a = a + ∑ i, f i := by
  rw [foldl_add, Fin.sum_univ_def]

/-! ### The two orders -/

/-- `pack_time_channel_for_ggml`: the data of a tensor. -/
def packTimeChannel (l c : ℕ) (x : ℕ → R) : ℕ → R := fun a => x (a % l * c + a / l)

/-- `tensor_to_time_channel`. -/
def tensorToTimeChannel (t : Tensor R) : ℕ → R := fun a =>
  t.data (t.offs + (a % t.ne1 * t.ne0 + a / t.ne1))

/-- The tensor of a signal. -/
theorem reads_packTimeChannel (l c : ℕ) (x : ℕ → R) :
    (source l c 1 1 (packTimeChannel l c x)).Reads l c 1 1 fun t ch _ _ => x (t * c + ch) := by
  refine ⟨rfl, rfl, rfl, rfl, fun {t ch i2 i3} ht _ h2 h3 => ?_⟩
  obtain rfl := Nat.lt_one_iff.mp h2
  obtain rfl := Nat.lt_one_iff.mp h3
  have haddr : (source l c 1 1 (packTimeChannel l c x)).get t ch 0 0 =
      packTimeChannel l c x (t + l * ch) := by
    simp [Tensor.get, source, mul_comm]
  rw [haddr, packTimeChannel, Nat.add_mul_mod_self_left, Nat.mod_eq_of_lt ht,
    Nat.add_mul_div_left _ _ (by omega), Nat.div_eq_of_lt ht, Nat.zero_add]

theorem tensorToTimeChannel_apply {y : Tensor R} {l c t ch : ℕ} {f : ℕ → ℕ → ℕ → ℕ → R}
    (hd : y.Dense) (h : y.Reads l c 1 1 f) (ht : t < l) (hch : ch < c) :
    tensorToTimeChannel y (t * c + ch) = f t ch 0 0 := by
  have haddr : (t * c + ch) % c * l + (t * c + ch) / c = t + l * (ch + c * (0 + 1 * 0)) := by
    rw [mul_comm t c, Nat.mul_add_mod, Nat.mod_eq_of_lt hch, Nat.mul_add_div (by omega),
      Nat.div_eq_of_lt hch]
    ring
  rw [tensorToTimeChannel, h.ne0, h.ne1, haddr]
  exact h.data hd ht hch Nat.one_pos Nat.one_pos

/-! ### Biases -/

/-- `repeat_like`. -/
def repeatLike (v like : Tensor R) : Option (Tensor R) := do
  let v ←
    if v.nDims = 1 ∧ 2 ≤ like.nDims then
      if like.ne0 = v.ne0 then v.reshape v.ne0 1 1 1
      else if like.ne1 = v.ne0 then v.reshape 1 v.ne0 1 1
      else some v
    else some v
  v.repeatAs like

section Bias

variable {y : Tensor R} {l c : ℕ} {b : ℕ → R} {f : ℕ → ℕ → ℕ → ℕ → R}

theorem two_le_nDims_iff (h : y.Reads l c 1 1 f) : 2 ≤ y.nDims ↔ 1 < c := by
  rw [nDims, h.ne1, h.ne2, h.ne3]
  split_ifs <;> omega

/-- **A vector with the length of the first axis is spread along the second one.** -/
theorem gives_repeatLike_first (hl : 0 < l) (h : y.Reads l c 1 1 f) :
    Gives (repeatLike (source l 1 1 1 b) y) l c 1 1 fun i0 _ _ _ => b i0 := by
  have hrepeat : ∀ v : Tensor R,
      (v.Reads l 1 1 1 fun i0 i1 i2 i3 => b (i0 + l * (i1 + 1 * (i2 + 1 * i3)))) →
        Gives (v.repeatAs y) l c 1 1 fun i0 _ _ _ => b i0 := by
    intro v hv
    refine (gives_repeatAs hv h ⟨hl, dvd_rfl⟩ ⟨Nat.one_pos, one_dvd _⟩ ⟨Nat.one_pos, dvd_rfl⟩
      ⟨Nat.one_pos, dvd_rfl⟩).congr fun h0 _ _ _ => ?_
    simp [Nat.mod_one, Nat.mod_eq_of_lt h0]
  rw [repeatLike]
  split_ifs with hdims hne hne'
  · exact (gives_reshape_source rfl).bind fun v _ hv => hrepeat v hv
  · exact absurd h.ne0 hne
  · exact hrepeat _ (reads_source b)
  · exact hrepeat _ (reads_source b)

/-- **A vector with the length of the second axis is spread along the first one**, unless that is as
long. -/
theorem gives_repeatLike_second (hc : 0 < c) (hne : l ≠ c) (h : y.Reads l c 1 1 f) :
    Gives (repeatLike (source c 1 1 1 b) y) l c 1 1 fun _ i1 _ _ => b i1 := by
  rw [repeatLike]
  split_ifs with hdims hfirst hsecond
  · exact absurd (h.ne0.symm.trans hfirst) hne
  · rw [ne0_source]
    refine (gives_reshape_source (by simp)).bind fun v _ hv => ?_
    refine (gives_repeatAs hv h ⟨Nat.one_pos, one_dvd _⟩ ⟨hc, dvd_rfl⟩ ⟨Nat.one_pos, dvd_rfl⟩
      ⟨Nat.one_pos, dvd_rfl⟩).congr fun _ h1 _ _ => ?_
    simp [Nat.mod_one, Nat.mod_eq_of_lt h1]
  · exact absurd h.ne1 hsecond
  · -- a single channel
    have hone : c = 1 := by
      have hle := mt (two_le_nDims_iff h).mpr fun hge => hdims ⟨rfl, hge⟩
      omega
    subst hone
    refine (gives_repeatAs (reads_source b) h ⟨Nat.one_pos, one_dvd _⟩ ⟨Nat.one_pos, dvd_rfl⟩
      ⟨Nat.one_pos, dvd_rfl⟩ ⟨Nat.one_pos, dvd_rfl⟩).congr fun _ h1 _ _ => ?_
    simp [Nat.mod_one, Nat.lt_one_iff.mp h1]

variable [CommRing R]

/-- What all of these graphs do with a bias. -/
def addRow (y v : Tensor R) : Option (Tensor R) := do y.add (← repeatLike v y)

/-- The entry of a bias that is added to an element. -/
def biasAt (l c t ch : ℕ) : ℕ := if l = c then t else ch

/-- **The bias of a channel is added to that channel**, unless there are as many steps of time. -/
theorem gives_addRow (hc : 0 < c) (h : y.Reads l c 1 1 f) :
    Gives (addRow y (source c 1 1 1 b)) l c 1 1
      fun t ch i2 i3 => f t ch i2 i3 + b (biasAt l c t ch) := by
  by_cases heq : l = c
  · subst heq
    simp only [biasAt, if_pos]
    exact (gives_repeatLike_first hc h).bind fun v _ hv => gives_binary (· + ·) h hv
  · simp only [biasAt, if_neg heq]
    exact (gives_repeatLike_second hc heq h).bind fun v _ hv => gives_binary (· + ·) h hv

/-- A vector for the first axis. -/
theorem gives_addRow_first (hl : 0 < l) (h : y.Reads l c 1 1 f) :
    Gives (addRow y (source l 1 1 1 b)) l c 1 1 fun t ch i2 i3 => f t ch i2 i3 + b t :=
  (gives_repeatLike_first hl h).bind fun _ _ hv => gives_binary (· + ·) h hv

/-- **When the elements are those with the bias of their channel**: there are more or fewer channels
than steps of time, or all have the same bias. -/
theorem add_biasAt_eq_iff (F : ℕ → ℕ → R) : (∀ t < l, ∀ ch < c, F t ch + b (biasAt l c t ch) =
    F t ch + b ch) ↔ (l = c → ∀ i < c, ∀ j < c, b i = b j) := by
  by_cases heq : l = c
  · subst heq
    simp [biasAt]
  · simp [biasAt, heq]

end Bias

section Conv

variable [CommRing R] {y : Tensor R} {l c oc : ℕ} {w : ℕ → R} {f : ℕ → ℕ → ℕ → ℕ → R}

/-- A kernel of width one multiplies the channels. -/
theorem gives_pointwise (hl : 0 < l) (hc : 0 < c) (hd : y.Dense) (h : y.Reads l c 1 1 f) :
    Gives (conv1dF32 (source 1 c oc 1 w) y 1 0 1) l oc 1 1
      fun t o _ _ => ∑ i ∈ Finset.range c, f t i 0 0 * w (i + c * o) := by
  have hinside : 1 * (1 - 1) < l := by rwa [Nat.sub_self, Nat.mul_zero]
  have how : l = (l - 1 * (1 - 1) - 1) / 1 + 1 := by
    rw [Nat.sub_self, Nat.mul_zero, Nat.sub_zero, Nat.div_one, Nat.sub_add_cancel hl]
  refine (gives_conv1dF32 Nat.one_pos hc hinside how hd h).congr fun _ _ _ _ => ?_
  simp [Nat.mod_one]

end Conv

end Supertonic

end WhisperCpp
