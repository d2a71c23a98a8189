import Mathlib.Logic.Function.Iterate
import WhisperCpp.Library.InPlace

/-!
# The random numbers of NumPy

`numpy_random_state` keeps the 624 words of MT19937 and makes the next 624 of them in place when all
have been used.

## Main definitions

* `RandomState`, `RandomState.ofSeed`, `RandomState.uint32` — the code
* `mt19937` — the recurrence, term by term
* `nthOutput` — what the recurrence gives out

## Main results

* `holds_regenerate` — the block that is made in place is the next one
* `uint32_after` — what is given out is what the recurrence gives out
-/

namespace WhisperCpp

namespace Supertonic

open InPlace

/-! ### The code -/

/-- `mt_` and `index_`. -/
structure RandomState where
  mt : Vector UInt32 624
  index : ℕ

/-- The entries that the constructor fills, each from the one in front of it. -/
def seeded (seed : UInt32) : ℕ → UInt32
  | 0 => seed
  | i + 1 =>
    let prev := seeded seed i
    (1812433253 : UInt32) * (prev ^^^ (prev >>> 30)) + UInt32.ofNat (i + 1)

/-- The constructor. -/
def RandomState.ofSeed (seed : UInt32) : RandomState where
  mt := .ofFn fun i => seeded seed i
  index := 624

/-- `mag01`. -/
def mag01 (bit : UInt32) : UInt32 := if bit = 0 then 0 else 0x9908b0df

/-- The body of the three loops: the entry `cur` is made anew of itself, the `next` one and one
further on. -/
def twist (mt : Vector UInt32 624) (cur next far : Fin 624) : Vector UInt32 624 :=
  let y := (mt[cur] &&& 0x80000000) ||| (mt[next] &&& 0x7fffffff)
  mt.set cur (mt[far] ^^^ (y >>> 1) ^^^ mag01 (y &&& 1))

/-- `for (; kk < N - M; ++kk)`. -/
def firstLoop (mt : Vector UInt32 624) : Vector UInt32 624 :=
  Fin.foldl 227 (fun mt kk => twist mt ⟨kk, by omega⟩ ⟨kk + 1, by omega⟩ ⟨kk + 397, by omega⟩) mt

/-- `for (; kk < N - 1; ++kk)`, which starts at 227 and reads `kk + (M - N)`. -/
def secondLoop (mt : Vector UInt32 624) : Vector UInt32 624 :=
  Fin.foldl 396 (fun mt i => twist mt ⟨227 + i, by omega⟩ ⟨227 + i + 1, by omega⟩ ⟨i, by omega⟩) mt

/-- The next block. -/
def regenerate (mt : Vector UInt32 624) : Vector UInt32 624 :=
  twist (secondLoop (firstLoop mt)) 623 0 396

/-- What is done with an entry before it is returned. -/
def temper (y : UInt32) : UInt32 :=
  let y := y ^^^ (y >>> 11)
  let y := y ^^^ ((y <<< 7) &&& 0x9d2c5680)
  let y := y ^^^ ((y <<< 15) &&& 0xefc60000)
  y ^^^ (y >>> 18)

/-- `uint32`: the block is made anew when all of it has been given out. -/
def RandomState.uint32 (s : RandomState) : UInt32 × RandomState :=
  if h : s.index < 624 then (temper s.mt[s.index], { s with index := s.index + 1 })
  else
    let mt := regenerate s.mt
    (temper mt[0], { mt, index := 1 })

/-- The state after some calls. -/
def RandomState.after (seed : UInt32) (n : ℕ) : RandomState :=
  (fun s => s.uint32.2)^[n] (.ofSeed seed)

/-! ### The recurrence -/

/-- The matrix of the recurrence: a shift, and a word if there was a last bit. -/
def timesA (y : UInt32) : UInt32 := if y.toNat % 2 = 0 then y >>> 1 else (y >>> 1) ^^^ 0x9908b0df

/-- The first bit of one word and the others of another. -/
def joined (u l : UInt32) : UInt32 := (u &&& 0x80000000) ||| (l &&& 0x7fffffff)

/-- **MT19937**, term by term: the first 624 words come from the seed, and each later one from that
397 words behind the one it takes the place of, and from that one and its successor. -/
def mt19937 (seed : UInt32) (k : ℕ) : UInt32 :=
  if k < 624 then seeded seed k
  else mt19937 seed (k - 227) ^^^
    timesA (joined (mt19937 seed (k - 624)) (mt19937 seed (k - 623)))
termination_by k

/-- The outputs begin with the first word that is not of the seed. -/
def nthOutput (seed : UInt32) (n : ℕ) : UInt32 := temper (mt19937 seed (n + 624))

/-! ### The block -/

section Block

variable {seed : UInt32} {mt : Vector UInt32 624} {b k n : ℕ}

/-- What is made of three words. -/
def twisted (far cur next : UInt32) : UInt32 := far ^^^ timesA (joined cur next)

theorem follows_mt19937 (seed : UInt32) : Follows 624 397 twisted (mt19937 seed) := by
  intro k
  rw [mt19937, if_neg (by omega), show k + 624 - 227 = k + 397 by omega, Nat.add_sub_cancel,
    show k + 624 - 623 = k + 1 by omega, twisted]

/-- The last bit, as the source takes it. -/
theorem and_one_eq_zero_iff (y : UInt32) : y &&& 1 = 0 ↔ y.toNat % 2 = 0 := by
  rw [← UInt32.toNat_inj, UInt32.toNat_and]
  simp [Nat.and_one_is_mod]

theorem xor_mag01 (far y : UInt32) :
    far ^^^ (y >>> 1) ^^^ mag01 (y &&& 1) = far ^^^ timesA y := by
  rw [mag01, timesA, UInt32.xor_assoc]
  by_cases hbit : y &&& 1 = 0
  · rw [if_pos hbit, if_pos ((and_one_eq_zero_iff y).mp hbit), UInt32.xor_zero]
  · rw [if_neg hbit, if_neg fun h => hbit ((and_one_eq_zero_iff y).mpr h)]

/-- The body of the loops is a step of the recurrence. -/
theorem twist_eq (mt : Vector UInt32 624) (cur next far : Fin 624) :
    (twist mt cur next far).get =
      Function.update mt.get cur (twisted (mt.get far) (mt.get cur) (mt.get next)) := by
  funext i
  rw [twist, xor_mag01]
  by_cases hi : i = cur
  · rw [hi, Function.update_self]
    exact Vector.getElem_set_self cur.isLt
  · rw [Function.update_of_ne hi]
    exact Vector.getElem_set_ne cur.isLt i.isLt fun h => hi (Fin.ext h.symm)

theorem holds_twist (h : Holds (mt19937 seed) b k mt.get) {cur next far : Fin 624} (hcur : cur.val = k)
    (hnext : next.val = (k + 1) % 624) (hfar : far.val = (k + 397) % 624) :
    Holds (mt19937 seed) b (k + 1) (twist mt cur next far).get := by
  rw [twist_eq]
  exact h.update (follows_mt19937 seed) (by decide) (by decide) hcur hnext hfar

/-- A loop whose body is a step takes the block as many steps further. -/
theorem holds_foldl {m : ℕ} {f : Vector UInt32 624 → Fin m → Vector UInt32 624}
    (hf : ∀ mt (i : Fin m), Holds (mt19937 seed) b (k + i) mt.get →
      Holds (mt19937 seed) b (k + i + 1) (f mt i).get)
    (h : Holds (mt19937 seed) b k mt.get) : Holds (mt19937 seed) b (k + m) (Fin.foldl m f mt).get := by
  induction m with
  | zero => exact h
  | succ m ih =>
    rw [Fin.foldl_succ_last]
    exact hf _ (Fin.last m) (ih fun mt i hi => hf mt i.castSucc hi)

theorem holds_firstLoop (h : Holds (mt19937 seed) b 0 mt.get) :
    Holds (mt19937 seed) b 227 (firstLoop mt).get := by
  refine holds_foldl (fun mt i hi => holds_twist hi ?_ ?_ ?_) h
  · simp
  · simp only [Nat.zero_add]
    omega
  · simp only [Nat.zero_add]
    omega

/-- The entries that the second loop reads in front are new already. -/
theorem holds_secondLoop (h : Holds (mt19937 seed) b 227 mt.get) :
    Holds (mt19937 seed) b 623 (secondLoop mt).get := by
  refine holds_foldl (fun mt i hi => holds_twist hi rfl ?_ ?_) h
  · simp only
    omega
  · simp only
    omega

/-- **A block that is made anew** is the next block of the recurrence. -/
theorem holds_regenerate (h : Holds (mt19937 seed) b 0 mt.get) :
    Holds (mt19937 seed) (b + 624) 0 (regenerate mt).get :=
  (holds_twist (holds_secondLoop (holds_firstLoop h)) rfl rfl rfl).wrap

/-! ### The outputs -/

/-- The block is one of the recurrence, and the next entry is the next output. -/
structure Synced (seed : UInt32) (n : ℕ) (s : RandomState) : Prop where
  le : s.index ≤ 624
  holds : ∃ b, Holds (mt19937 seed) b 0 s.mt.get ∧ b + s.index = n + 624

theorem synced_ofSeed (seed : UInt32) : Synced seed 0 (.ofSeed seed) := by
  refine ⟨le_rfl, 0, fun i => ?_, rfl⟩
  rw [if_neg (Nat.not_lt_zero _), Nat.zero_add, mt19937, if_pos i.isLt]
  exact Vector.getElem_ofFn i.isLt

/-- **One call** gives out the next output. -/
theorem synced_uint32 {s : RandomState} (h : Synced seed n s) :
    s.uint32.1 = nthOutput seed n ∧ Synced seed (n + 1) s.uint32.2 := by
  obtain ⟨hle, b, hholds, hb⟩ := h
  by_cases hlt : s.index < 624
  · have hword := hholds ⟨s.index, hlt⟩
    rw [if_neg (Nat.not_lt_zero _)] at hword
    rw [RandomState.uint32, dif_pos hlt]
    refine ⟨?_, hlt, b, hholds, ?_⟩
    · rw [nthOutput, ← hb]
      exact congrArg temper hword
    · simp only
      omega
  · have hnext := holds_regenerate hholds
    have hword := hnext 0
    rw [if_neg (Nat.not_lt_zero _)] at hword
    rw [RandomState.uint32, dif_neg hlt]
    refine ⟨?_, by simp, b + 624, hnext, ?_⟩
    · rw [nthOutput, show n + 624 = b + 624 by omega]
      exact congrArg temper hword
    · simp only
      omega

theorem synced_after (seed : UInt32) (n : ℕ) : Synced seed n (.after seed n) := by
  induction n with
  | zero => exact synced_ofSeed seed
  | succ n ih =>
    rw [RandomState.after, Function.iterate_succ_apply']
    exact (synced_uint32 ih).2

end Block

end Supertonic

end WhisperCpp
