import Mathlib.Data.FinEnum
import Mathlib.Tactic.FinCases
import WhisperCpp.Grammar.Candidates
import WhisperCpp.Library.Pieces

/-!
# Decoding a text in pieces

`decode_utf8` decodes the text of one token and carries an incomplete last character over to the
next one. It has two loops for continuation bytes. The one that completes a carried character
checks that they are continuation bytes; the one that reads on behind a fresh first byte does not.
What a text decodes to can therefore depend on how it is cut into tokens.

## Main definitions

* `decodeUtf8` — the function
* `WellEncoded` — every first byte has its continuation bytes, the last character may be incomplete

## Main results

* `decodeUtf8_eq` — both loops as one scan over the bytes
* `decodePieces_eq_iff` — a text decodes alike in all pieces iff it is well formed or has
  continuation bytes only
-/

namespace WhisperCpp

namespace Grammar

open Pieces

/-! ### `decode_utf8`

A text is the list of its bytes in front of the terminating NUL, so `*pos != 0` is the test for a
nonempty list. -/

/-- The table of the lengths of characters, indexed by the four high bits of the first byte. -/
def lookup : List ℤ := [1, 1, 1, 1, 1, 1, 1, 1, 0, 0, 0, 0, 2, 2, 3, 4]

/-- `lookup[highbits] - 1`: the number of continuation bytes, `-1` if no character starts so. -/
def lacking (firstByte : UInt8) : ℤ := lookup.getD (firstByte >>> 4).toNat 0 - 1

/-- `first_byte & mask`. -/
def firstValue (firstByte : UInt8) (nRemain : ℤ) : UInt32 :=
  (firstByte &&& UInt8.ofNat ((1 <<< (7 - nRemain).toNat) - 1)).toUInt32

/-- `(value << 6) + (next_byte & 0x3F)`. -/
def shiftIn (value : UInt32) (nextByte : UInt8) : UInt32 :=
  (value <<< 6) + (nextByte &&& 0x3F).toUInt32

/-- The first loop, which completes a carried character; `none` where it aborts. -/
def continueDecode (value : UInt32) (nRemain : ℤ) :
    List UInt8 → Option (UInt32 × ℤ × List UInt8)
  | [] => some (value, nRemain, [])
  | nextByte :: pos =>
    if 0 < nRemain then
      if nextByte >>> 6 ≠ 2 then none
      else continueDecode (shiftIn value nextByte) (nRemain - 1) pos
    else some (value, nRemain, nextByte :: pos)

/-- The inner loop behind a fresh first byte. -/
def takeRest (value : UInt32) (nRemain : ℤ) : List UInt8 → UInt32 × ℤ × List UInt8
  | [] => (value, nRemain, [])
  | nextByte :: pos =>
    if 0 < nRemain then takeRest (shiftIn value nextByte) (nRemain - 1) pos
    else (value, nRemain, nextByte :: pos)

theorem length_takeRest_le (value : UInt32) (nRemain : ℤ) (pos : List UInt8) :
    (takeRest value nRemain pos).2.2.length ≤ pos.length := by
  fun_induction takeRest value nRemain pos with
  | case1 => simp
  | case2 _ _ _ _ _ ih => simp only [List.length_cons]; omega
  | case3 => simp

/-- The loop over fresh characters. -/
def decodeFresh (codePoints : List UInt32) (value : UInt32) (nRemain : ℤ) :
    List UInt8 → List UInt32 × PartialUtf8
  | [] => (codePoints ++ [0], ⟨value, nRemain⟩)
  | firstByte :: pos =>
    let nRemain := lacking firstByte
    if nRemain < 0 then ([0], ⟨0, nRemain⟩)
    else
      let read := takeRest (firstValue firstByte nRemain) nRemain pos
      decodeFresh (if read.2.1 = 0 then codePoints ++ [read.1] else codePoints)
        read.1 read.2.1 read.2.2
termination_by pos => pos.length
decreasing_by
  have := length_takeRest_le (firstValue firstByte (lacking firstByte)) (lacking firstByte) pos
  simp only [List.length_cons]
  omega

/-- `decode_utf8`: the zero-terminated code points, and the character the text ends inside of. -/
def decodeUtf8 (src : List UInt8) (partialStart : PartialUtf8) : List UInt32 × PartialUtf8 :=
  match continueDecode partialStart.value partialStart.nRemain src with
  | none => ([0], ⟨0, -1⟩)
  | some (value, nRemain, pos) =>
    decodeFresh (if 0 < partialStart.nRemain ∧ nRemain = 0 then [value] else []) value nRemain pos

/-- One token as `whisper_grammar_accept_token` decodes it: the terminating zero is left out and
the incomplete character is carried. The flag records whether some token was invalid. -/
def decodePiece (s : PartialUtf8 × Bool) (src : List UInt8) :
    List UInt32 × (PartialUtf8 × Bool) :=
  let decoded := decodeUtf8 src s.1
  (decoded.1.dropLast, (decoded.2, s.2 || decoded.2.nRemain = -1))

/-- A text in pieces, from a fresh grammar. -/
def decodePieces (pieces : List (List UInt8)) : List UInt32 × (PartialUtf8 × Bool) :=
  runs decodePiece (⟨0, 0⟩, false) pieces

/-! ### One scan over the bytes -/

/-- A continuation byte. -/
def IsCont (c : UInt8) : Prop := c >>> 6 = 2

instance : DecidablePred IsCont := fun c => inferInstanceAs (Decidable (c >>> 6 = 2))

/-- The decoder byte by byte, with `k` bytes of a character to come. -/
def scan (value : UInt32) : ℕ → List UInt8 → List UInt32 × PartialUtf8
  | k, [] => ([], ⟨value, k⟩)
  | 0, c :: bs =>
    let v := firstValue c (lacking c)
    let later := scan v (lacking c).toNat bs
    (if (lacking c).toNat = 0 then v :: later.1 else later.1, later.2)
  | k + 1, c :: bs =>
    let v := shiftIn value c
    let later := scan v k bs
    (if k = 0 then v :: later.1 else later.1, later.2)

/-- No continuation byte stands where a first byte is expected. -/
def LeadsOk : ℕ → List UInt8 → Prop
  | _, [] => True
  | 0, c :: bs => ¬IsCont c ∧ LeadsOk (lacking c).toNat bs
  | k + 1, _ :: bs => LeadsOk k bs

/-- First bytes are followed by their continuation bytes; the last character may be incomplete. -/
def WellEncoded : ℕ → List UInt8 → Prop
  | _, [] => True
  | 0, c :: bs => ¬IsCont c ∧ WellEncoded (lacking c).toNat bs
  | k + 1, c :: bs => IsCont c ∧ WellEncoded k bs

instance decidableLeadsOk : ∀ k bs, Decidable (LeadsOk k bs)
  | _, [] => .isTrue (by simp [LeadsOk])
  | 0, c :: bs =>
    have := decidableLeadsOk (lacking c).toNat bs
    inferInstanceAs (Decidable (¬IsCont c ∧ LeadsOk (lacking c).toNat bs))
  | k + 1, _ :: bs => decidableLeadsOk k bs

/-- What the two loops accept when `k` bytes are carried. -/
def Admits (k : ℕ) (bs : List UInt8) : Prop := (∀ c ∈ bs.take k, IsCont c) ∧ LeadsOk k bs

instance : DecidableRel Admits := fun k bs =>
  inferInstanceAs (Decidable ((∀ c ∈ bs.take k, IsCont c) ∧ LeadsOk k bs))

theorem lacking_neg_iff {c : UInt8} : lacking c < 0 ↔ IsCont c := by
  have key : ∀ n : Fin 256, lacking (UInt8.ofNat n) < 0 ↔ IsCont (UInt8.ofNat n) := by
    decide +kernel
  simpa using key ⟨c.toNat, c.toNat_lt⟩

theorem lacking_eq_neg_one {c : UInt8} (h : IsCont c) : lacking c = -1 := by
  have key : ∀ n : Fin 256, IsCont (UInt8.ofNat n) → lacking (UInt8.ofNat n) = -1 := by
    decide +kernel
  simpa [h] using key ⟨c.toNat, c.toNat_lt⟩

theorem lacking_eq_toNat {c : UInt8} (h : ¬IsCont c) : lacking c = ((lacking c).toNat : ℤ) := by
  have := lacking_neg_iff.not.2 h
  omega

theorem continueDecode_eq {v : UInt32} {k : ℕ} {bs : List UInt8} :
    continueDecode v k bs = if ∀ c ∈ bs.take k, IsCont c then some (takeRest v k bs) else none := by
  induction bs generalizing v k with
  | nil => simp [continueDecode, takeRest]
  | cons c bs ih =>
    cases k with
    | zero => simp [continueDecode, takeRest]
    | succ k =>
      by_cases hc : c >>> 6 = 2
      · simp [continueDecode, takeRest, hc, ih, IsCont]
        congr
      · simp [continueDecode, hc, IsCont]

theorem takeRest_nil {v : UInt32} {n : ℤ} : takeRest v n [] = (v, n, []) := rfl

theorem takeRest_zero {v : UInt32} {bs : List UInt8} : takeRest v 0 bs = (v, 0, bs) := by
  cases bs <;> simp [takeRest]

theorem takeRest_succ {v : UInt32} {k : ℕ} {c : UInt8} {bs : List UInt8} :
    takeRest v ((k + 1 : ℕ) : ℤ) (c :: bs) = takeRest (shiftIn v c) k bs := by
  simp [takeRest]

/-- The code points behind `points` once a character with `k` bytes to come is finished. -/
def finish (points : List UInt32) (k : ℕ) (r : UInt32 × ℤ × List UInt8) :
    List UInt32 × PartialUtf8 :=
  decodeFresh (if 0 < (k : ℤ) ∧ r.2.1 = 0 then points ++ [r.1] else points) r.1 r.2.1 r.2.2

theorem finish_mk {points : List UInt32} {k : ℕ} {v : UInt32} {n : ℤ} {bs : List UInt8} :
    finish points k (v, n, bs) =
      decodeFresh (if 0 < (k : ℤ) ∧ n = 0 then points ++ [v] else points) v n bs := rfl

theorem decodeFresh_cons {points : List UInt32} {v : UInt32} {n : ℤ} {c : UInt8}
    {bs : List UInt8} (hc : ¬IsCont c) :
    decodeFresh points v n (c :: bs) =
      finish (if (lacking c).toNat = 0 then points ++ [firstValue c (lacking c)] else points)
        (lacking c).toNat (takeRest (firstValue c (lacking c)) (lacking c).toNat bs) := by
  have hlack := lacking_eq_toNat hc
  rw [decodeFresh, finish]
  simp only [lacking_neg_iff, hc, if_false, ← hlack]
  rcases Nat.eq_zero_or_pos (lacking c).toNat with hz | hpos
  · have h0 : lacking c = 0 := by omega
    simp [h0, takeRest_zero]
  · have h0 : 0 < lacking c := by omega
    simp [h0, hpos.ne']

theorem finish_takeRest {points : List UInt32} {v : UInt32} {k : ℕ} {bs : List UInt8} :
    finish points k (takeRest v k bs) =
      if LeadsOk k bs then (points ++ (scan v k bs).1 ++ [0], (scan v k bs).2)
      else ([0], ⟨0, -1⟩) := by
  induction bs generalizing v k points with
  | nil =>
    have hk : ¬(0 < (k : ℤ) ∧ (k : ℤ) = 0) := by omega
    rw [takeRest_nil, finish_mk, if_neg hk, decodeFresh]
    simp [LeadsOk, scan]
  | cons c bs ih =>
    cases k with
    | zero =>
      rw [Int.natCast_zero, takeRest_zero, finish_mk, if_neg (by simp)]
      by_cases hc : IsCont c
      · simp [decodeFresh, lacking_eq_neg_one hc, LeadsOk, hc]
      · have hlead : LeadsOk 0 (c :: bs) ↔ LeadsOk (lacking c).toNat bs := by simp [LeadsOk, hc]
        rw [decodeFresh_cons hc, ih]
        simp only [hlead, scan]
        split_ifs <;> simp
    | succ k =>
      have hlead : LeadsOk (k + 1) (c :: bs) ↔ LeadsOk k bs := Iff.rfl
      rw [takeRest_succ, scan]
      simp only [hlead]
      rcases Nat.eq_zero_or_pos k with rfl | hpos
      · have hone : finish points 1 (takeRest (shiftIn v c) ((0 : ℕ) : ℤ) bs) =
            finish (points ++ [shiftIn v c]) 0 (takeRest (shiftIn v c) ((0 : ℕ) : ℤ) bs) := by
          simp [finish, takeRest_zero]
        rw [hone, ih]
        simp
      · have hsame : ∀ r, finish points (k + 1) r = finish points k r := by
          intro r
          simp only [finish, Int.natCast_pos, Nat.succ_pos, hpos, true_and]
        rw [hsame, ih]
        simp [hpos.ne']

/-- Both loops, from a state with `k` bytes to come. -/
theorem decodeUtf8_eq {v : UInt32} {k : ℕ} {bs : List UInt8} :
    decodeUtf8 bs ⟨v, k⟩ =
      if Admits k bs then ((scan v k bs).1 ++ [0], (scan v k bs).2) else ([0], ⟨0, -1⟩) := by
  rw [decodeUtf8, continueDecode_eq]
  by_cases h : ∀ c ∈ bs.take k, IsCont c
  · have hadmits : Admits k bs ↔ LeadsOk k bs := and_iff_right h
    rw [if_pos h]
    simp only [hadmits]
    exact finish_takeRest
  · have hadmits : ¬Admits k bs := fun hadmits => h hadmits.1
    rw [if_neg h, if_neg hadmits]

/-! ### Cuts -/

theorem scan_append {v : UInt32} {k : ℕ} {a b : List UInt8} :
    scan v k (a ++ b) =
      ((scan v k a).1 ++ (scan (scan v k a).2.value (scan v k a).2.nRemain.toNat b).1,
        (scan (scan v k a).2.value (scan v k a).2.nRemain.toNat b).2) := by
  induction a generalizing v k with
  | nil => simp [scan]
  | cons c a ih =>
    cases k <;> simp only [List.cons_append, scan, ih] <;> split_ifs <;> rfl

/-- The bytes to come behind a text. -/
def owed : ℕ → List UInt8 → ℕ
  | k, [] => k
  | 0, c :: bs => owed (lacking c).toNat bs
  | k + 1, _ :: bs => owed k bs

theorem scan_nRemain {v : UInt32} {k : ℕ} {bs : List UInt8} :
    (scan v k bs).2.nRemain = owed k bs := by
  induction bs generalizing v k with
  | nil => simp [scan, owed]
  | cons c bs ih => cases k <;> simp only [scan, owed, ih]

theorem leadsOk_append {k : ℕ} {a b : List UInt8} :
    LeadsOk k (a ++ b) ↔ LeadsOk k a ∧ LeadsOk (owed k a) b := by
  induction a generalizing k with
  | nil => simp [LeadsOk, owed]
  | cons c a ih => cases k <;> simp only [List.cons_append, LeadsOk, owed, ih, and_assoc]

theorem wellEncoded_append {k : ℕ} {a b : List UInt8} :
    WellEncoded k (a ++ b) ↔ WellEncoded k a ∧ WellEncoded (owed k a) b := by
  induction a generalizing k with
  | nil => simp [WellEncoded, owed]
  | cons c a ih => cases k <;> simp only [List.cons_append, WellEncoded, owed, ih, and_assoc]

theorem WellEncoded.admits {k : ℕ} {bs : List UInt8} (h : WellEncoded k bs) : Admits k bs := by
  induction bs generalizing k with
  | nil => simp [Admits, LeadsOk]
  | cons c bs ih =>
    cases k with
    | zero => exact ⟨by simp, h.1, (ih h.2).2⟩
    | succ k => exact ⟨List.forall_mem_cons.2 ⟨h.1, (ih h.2).1⟩, (ih h.2).2⟩

theorem decodePiece_of_admits {v : UInt32} {k : ℕ} {b : Bool} {bs : List UInt8}
    (h : Admits k bs) :
    decodePiece (⟨v, k⟩, b) bs = ((scan v k bs).1, ((scan v k bs).2, b)) := by
  have hne : ((owed k bs : ℕ) : ℤ) ≠ -1 := by omega
  simp [decodePiece, decodeUtf8_eq, h, scan_nRemain, hne]

theorem decodePiece_of_not_admits {v : UInt32} {k : ℕ} {b : Bool} {bs : List UInt8}
    (h : ¬Admits k bs) : decodePiece (⟨v, k⟩, b) bs = ([], (⟨0, -1⟩, true)) := by
  simp [decodePiece, decodeUtf8_eq, h]

/-- Behind an invalid text decoding starts afresh. -/
theorem decodePiece_afresh {v : UInt32} {b : Bool} {c : UInt8} {bs : List UInt8} :
    decodePiece (⟨v, -1⟩, b) (c :: bs) = decodePiece (⟨0, 0⟩, b) (c :: bs) := by
  simp [decodePiece, decodeUtf8, continueDecode, decodeFresh]

/-- A well-formed text can be cut anywhere. -/
theorem decodePieces_of_wellEncoded {pieces : List (List UInt8)}
    (h : WellEncoded 0 pieces.flatten) : decodePieces pieces = decodePieces [pieces.flatten] := by
  rw [decodePieces, decodePieces, runs_singleton]
  refine runs_eq
    (fun s pieces => ∃ k : ℕ, s.1.nRemain = (k : ℤ) ∧ WellEncoded k pieces.flatten) ?_ ?_ ⟨0, rfl, h⟩
  · rintro ⟨⟨v, n⟩, bad⟩ ⟨k, hk, -⟩
    obtain rfl : n = k := hk
    have hnil : WellEncoded k [] := by simp [WellEncoded]
    rw [decodePiece_of_admits hnil.admits, scan]
  · rintro ⟨⟨v, n⟩, bad⟩ a rest ⟨k, hk, hgood⟩
    obtain rfl : n = k := hk
    rw [List.flatten_cons] at hgood
    obtain ⟨ha, hrest⟩ := wellEncoded_append.1 hgood
    have hstate : (scan v k a).2 = ⟨(scan v k a).2.value, (owed k a : ℕ)⟩ := by
      rw [← scan_nRemain]
    constructor
    · rw [Cut, decodePiece_of_admits hgood.admits, decodePiece_of_admits ha.admits]
      simp only
      rw [hstate, decodePiece_of_admits hrest.admits, scan_append, scan_nRemain, Int.toNat_natCast]
    · rw [decodePiece_of_admits ha.admits]
      exact ⟨owed k a, scan_nRemain, hrest⟩

/-- Continuation bytes alone are invalid in whatever pieces they come. -/
theorem decodePieces_of_conts {pieces : List (List UInt8)} (h : ∀ c ∈ pieces.flatten, IsCont c) :
    decodePieces pieces = decodePieces [pieces.flatten] := by
  have habort : ∀ s : PartialUtf8 × Bool, s = (⟨0, 0⟩, false) ∨ s = (⟨0, -1⟩, true) →
      ∀ c bs, IsCont c → decodePiece s (c :: bs) = ([], (⟨0, -1⟩, true)) := by
    have hnot : ∀ c bs, IsCont c → ¬Admits 0 (c :: bs) := by
      intro c bs hc hadmits
      exact hadmits.2.1 hc
    rintro s (rfl | rfl) c bs hc
    · exact decodePiece_of_not_admits (k := 0) (hnot c bs hc)
    · rw [decodePiece_afresh]
      exact decodePiece_of_not_admits (k := 0) (hnot c bs hc)
  have hidle : ∀ s : PartialUtf8 × Bool, s = (⟨0, 0⟩, false) ∨ s = (⟨0, -1⟩, true) →
      decodePiece s [] = ([], s) := by
    rintro s (rfl | rfl) <;> decide +kernel
  rw [decodePieces, decodePieces, runs_singleton]
  refine runs_eq (fun s pieces => (s = (⟨0, 0⟩, false) ∨ s = (⟨0, -1⟩, true)) ∧
    ∀ c ∈ pieces.flatten, IsCont c) ?_ ?_ ⟨.inl rfl, h⟩
  · rintro s ⟨hs, -⟩
    exact hidle s hs
  · rintro s a rest ⟨hs, hconts⟩
    rw [List.flatten_cons] at hconts
    cases a with
    | nil =>
      rw [Cut, hidle s hs]
      exact ⟨by simp, hs, hconts⟩
    | cons c a =>
      have hc : IsCont c := hconts c (by simp)
      rw [Cut, List.cons_append, habort s hs c _ hc, habort s hs c _ hc]
      refine ⟨?_, .inr rfl, fun d hd => hconts d (List.mem_append_right _ hd)⟩
      cases hrest : rest.flatten with
      | nil => rw [hidle _ (.inr rfl)]; rfl
      | cons d r =>
        rw [habort _ (.inr rfl) d r (hconts d (by simp [hrest]))]
        rfl

/-! ### Cuts that show -/

/-- A text that is not well formed has a first byte where this shows. -/
theorem exists_of_not_wellEncoded {k : ℕ} {bs : List UInt8} (h : ¬WellEncoded k bs) :
    ∃ p x r, bs = p ++ x :: r ∧ WellEncoded k p ∧
      (0 < owed k p ∧ ¬IsCont x ∨ owed k p = 0 ∧ IsCont x) := by
  induction bs generalizing k with
  | nil => exact absurd (by simp [WellEncoded]) h
  | cons c bs ih =>
    cases k with
    | zero =>
      by_cases hc : IsCont c
      · exact ⟨[], c, bs, rfl, by simp [WellEncoded], .inr ⟨rfl, hc⟩⟩
      · obtain ⟨p, x, r, rfl, hp, hx⟩ := ih fun hbs => h ⟨hc, hbs⟩
        exact ⟨c :: p, x, r, rfl, ⟨hc, hp⟩, hx⟩
    | succ k =>
      by_cases hc : IsCont c
      · obtain ⟨p, x, r, rfl, hp, hx⟩ := ih fun hbs => h ⟨hc, hbs⟩
        exact ⟨c :: p, x, r, rfl, ⟨hc, hp⟩, hx⟩
      · exact ⟨[], c, bs, rfl, by simp [WellEncoded], .inl ⟨Nat.succ_pos k, hc⟩⟩

theorem exists_of_not_leadsOk {k : ℕ} {bs : List UInt8} (h : ¬LeadsOk k bs) :
    ∃ p x r, bs = p ++ x :: r ∧ LeadsOk k p ∧ owed k p = 0 ∧ IsCont x := by
  induction bs generalizing k with
  | nil => exact absurd (by simp [LeadsOk]) h
  | cons c bs ih =>
    cases k with
    | zero =>
      by_cases hc : IsCont c
      · exact ⟨[], c, bs, rfl, by simp [LeadsOk], rfl, hc⟩
      · obtain ⟨p, x, r, rfl, hp, hx⟩ := ih fun hbs => h ⟨hc, hbs⟩
        exact ⟨c :: p, x, r, rfl, ⟨hc, hp⟩, hx⟩
    | succ k =>
      obtain ⟨p, x, r, rfl, hp, hx⟩ := ih h
      exact ⟨c :: p, x, r, rfl, hp, hx⟩

theorem leadsOk_of_length_le {k : ℕ} {bs : List UInt8} (h : bs.length ≤ k) : LeadsOk k bs := by
  induction bs generalizing k with
  | nil => simp [LeadsOk]
  | cons c bs ih =>
    cases k with
    | zero => simp at h
    | succ k => exact ih (by simpa using h)

theorem owed_of_length_le {k : ℕ} {bs : List UInt8} (h : bs.length ≤ k) :
    owed k bs = k - bs.length := by
  induction bs generalizing k with
  | nil => simp [owed]
  | cons c bs ih =>
    cases k with
    | zero => simp at h
    | succ k => rw [owed, ih (by simpa using h), List.length_cons, Nat.add_sub_add_right]

/-- A text that ends with a character has a code point. -/
theorem scan_ne_nil {v : UInt32} {k : ℕ} {bs : List UInt8} (hne : bs ≠ []) (h : owed k bs = 0) :
    (scan v k bs).1 ≠ [] := by
  induction bs generalizing v k with
  | nil => exact absurd rfl hne
  | cons c bs ih =>
    -- a character that is not over at `c` has bytes behind it
    have hlater : ∀ j v, j ≠ 0 → owed j bs = 0 → (scan v j bs).1 ≠ [] := by
      intro j v hj howed
      refine ih ?_ howed
      rintro rfl
      exact hj howed
    cases k with
    | zero =>
      simp only [scan]
      split_ifs with hj
      · simp
      · exact hlater _ _ hj h
    | succ k =>
      simp only [scan]
      split_ifs with hj
      · simp
      · exact hlater _ _ hj h

theorem decodePieces_cons {a : List UInt8} {rest : List (List UInt8)} (ha : Admits 0 a) :
    decodePieces (a :: rest) =
      ((scan 0 0 a).1 ++ (runs decodePiece ((scan 0 0 a).2, false) rest).1,
        (runs decodePiece ((scan 0 0 a).2, false) rest).2) := by
  have h0 := decodePiece_of_admits (v := 0) (b := false) ha
  rw [Int.natCast_zero] at h0
  rw [decodePieces, runs_cons, h0]

theorem decodePieces_cons_of_not_admits {a : List UInt8} {rest : List (List UInt8)}
    (ha : ¬Admits 0 a) :
    decodePieces (a :: rest) = runs decodePiece (⟨0, -1⟩, true) rest := by
  have h0 := decodePiece_of_not_admits (v := 0) (b := false) ha
  rw [Int.natCast_zero] at h0
  rw [decodePieces, runs_cons, h0, List.nil_append]

/-- A lax text whose characters lack continuation bytes is cut inside such a character. -/
theorem exists_cut_of_leadsOk {bs : List UInt8} (hlax : LeadsOk 0 bs) (h : ¬WellEncoded 0 bs) :
    ∃ pieces : List (List UInt8), pieces.flatten = bs ∧ decodePieces pieces ≠ decodePieces [bs] := by
  obtain ⟨p, x, r, rfl, hp, hx⟩ := exists_of_not_wellEncoded h
  obtain ⟨howed, hx⟩ : 0 < owed 0 p ∧ ¬IsCont x := by
    refine hx.resolve_right fun ⟨howed, hx⟩ => ?_
    have := (leadsOk_append.1 hlax).2
    rw [howed] at this
    exact this.1 hx
  have habort : ¬Admits (owed 0 p) (x :: r) := by
    intro hadmits
    obtain ⟨j, hj⟩ := Nat.exists_eq_succ_of_ne_zero howed.ne'
    rw [hj] at hadmits
    exact hx (hadmits.1 x (by simp))
  have hstate : (scan 0 0 p).2 = ⟨(scan 0 0 p).2.value, (owed 0 p : ℕ)⟩ := by
    rw [← scan_nRemain]
  refine ⟨[p, x :: r], by simp, fun heq => ?_⟩
  have hwhole : Admits 0 (p ++ x :: r) := ⟨by simp, hlax⟩
  rw [decodePieces_cons hp.admits, decodePieces_cons hwhole, runs_singleton, hstate,
    decodePiece_of_not_admits habort] at heq
  have := congrArg (fun d => d.2.2) heq
  simp at this

/-- An invalid first byte is cut off with what follows it, up to the start of some character. -/
theorem exists_cut_of_cont {x c : UInt8} {r : List UInt8} (hx : IsCont x) (hcr : c ∈ r)
    (hc : ¬IsCont c) :
    ∃ pieces : List (List UInt8), pieces.flatten = x :: r ∧
      decodePieces pieces ≠ ([], (⟨0, -1⟩, true)) := by
  obtain ⟨q, t, rfl⟩ := List.append_of_mem hcr
  have habort : ¬Admits 0 (x :: q) := fun hadmits => hadmits.2.1 hx
  have hread : ∀ u, u.length ≤ (lacking c).toNat →
      decodePiece (⟨0, -1⟩, true) (c :: u) =
        ((scan 0 0 (c :: u)).1, ((scan 0 0 (c :: u)).2, true)) := by
    intro u hu
    rw [decodePiece_afresh]
    have hadmits : Admits 0 (c :: u) := ⟨by simp, hc, leadsOk_of_length_le hu⟩
    exact decodePiece_of_admits hadmits
  by_cases ht : (lacking c).toNat ≤ t.length
  · refine ⟨[x :: q, c :: t.take (lacking c).toNat, t.drop (lacking c).toNat], by simp, fun heq => ?_⟩
    have hlen : (t.take (lacking c).toNat).length = (lacking c).toNat := by simp [ht]
    rw [decodePieces_cons_of_not_admits habort, runs_cons, hread _ hlen.le] at heq
    have hnil := List.append_eq_nil_iff.1 (congrArg Prod.fst heq)
    refine scan_ne_nil (by simp) ?_ hnil.1
    rw [owed, owed_of_length_le hlen.le, hlen, Nat.sub_self]
  · refine ⟨[x :: q, c :: t], by simp, fun heq => ?_⟩
    rw [decodePieces_cons_of_not_admits habort, runs_singleton, hread t (by omega)] at heq
    have hrem := congrArg (fun d => d.2.1.nRemain) heq
    simp only [scan_nRemain] at hrem
    omega

/-- A text with an invalid first byte is cut in front of it, or behind a character that follows
it. -/
theorem exists_cut_of_not_leadsOk {bs : List UInt8} (h : ¬LeadsOk 0 bs)
    (hconts : ¬∀ c ∈ bs, IsCont c) :
    ∃ pieces : List (List UInt8), pieces.flatten = bs ∧ decodePieces pieces ≠ decodePieces [bs] := by
  have hwhole : decodePieces [bs] = ([], (⟨0, -1⟩, true)) :=
    decodePieces_cons_of_not_admits fun hadmits => h hadmits.2
  rw [hwhole]
  obtain ⟨p, x, r, rfl, hp, howed, hx⟩ := exists_of_not_leadsOk h
  by_cases hne : p = []
  · subst hne
    push Not at hconts
    obtain ⟨c, hmem, hc⟩ := hconts
    have hcr : c ∈ r := (List.mem_cons.1 hmem).resolve_left fun heq => hc (heq ▸ hx)
    exact exists_cut_of_cont hx hcr hc
  · refine ⟨[p, x :: r], by simp, fun heq => ?_⟩
    rw [decodePieces_cons ⟨by simp, hp⟩] at heq
    have := congrArg Prod.fst heq
    exact scan_ne_nil hne howed (List.append_eq_nil_iff.1 this).1

/-- A text decodes to the same code points, the same incomplete character and the same verdict in
all pieces, iff its characters have their continuation bytes or it consists of such bytes only. -/
theorem decodePieces_eq_iff (bs : List UInt8) :
    (∀ pieces : List (List UInt8), pieces.flatten = bs → decodePieces pieces = decodePieces [bs]) ↔
      WellEncoded 0 bs ∨ ∀ c ∈ bs, IsCont c := by
  constructor
  · intro hall
    by_contra! hno
    obtain ⟨hwell, hconts⟩ := hno
    by_cases hlax : LeadsOk 0 bs
    · obtain ⟨pieces, hflat, hne⟩ := exists_cut_of_leadsOk hlax hwell
      exact hne (hall pieces hflat)
    · obtain ⟨pieces, hflat, hne⟩ := exists_cut_of_not_leadsOk hlax (by simpa using hconts)
      exact hne (hall pieces hflat)
  · rintro (hwell | hconts) pieces rfl
    · exact decodePieces_of_wellEncoded hwell
    · exact decodePieces_of_conts hconts

/-- The bytes `C3 41` read as one token are the code point `C1`; as two tokens they are invalid. -/
theorem not_forall_decodePieces_eq :
    ¬∀ pieces : List (List UInt8), (0 : UInt8) ∉ pieces.flatten →
      decodePieces pieces = decodePieces [pieces.flatten] := by
  intro h
  have hcut : decodePieces [[0xC3], [0x41]] = ([], (⟨0, -1⟩, true)) := by decide +kernel
  have hwhole : decodePieces [[0xC3, 0x41]] = ([0xC1], (⟨0xC1, 0⟩, false)) := by decide +kernel
  have heq := h [[0xC3], [0x41]] (by decide)
  simp only [List.flatten_cons, List.flatten_nil, List.append_nil, List.singleton_append] at heq
  rw [hcut, hwhole] at heq
  simp at heq

end Grammar

end WhisperCpp
