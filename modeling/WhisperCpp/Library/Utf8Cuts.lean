import Mathlib.Data.List.Basic
import Mathlib.Data.Nat.Bitwise

/-!
# Cutting UTF-8

Bytes that encode a text are cut in two. Both parts encode texts iff the second one begins with a
byte that can be the first one of a code point.

## Main definitions

* `Valid` — the encoding of a text
* `Starts` — the first byte is the first one of a code point

## Main results

* `valid_left_iff` — when the first part is valid
* `Valid.of_append` — then the second part is valid too
* `starts_behind` — behind an ASCII byte a code point starts
* `forall_valid_iff` — the parts of a text
-/

namespace Utf8Cuts

variable {a b bs : List UInt8} {c : UInt8}

/-- The bytes encode a text. -/
def Valid (bs : List UInt8) : Prop := ∃ cs : List Char, bs = cs.flatMap String.utf8EncodeChar

/-- The first byte, if there is one, is the first one of a code point. -/
def Starts (bs : List UInt8) : Prop := ∀ c ∈ bs.head?, c.IsUTF8FirstByte

instance : DecidablePred Starts := fun bs =>
  inferInstanceAs (Decidable (∀ c ∈ bs.head?, c.IsUTF8FirstByte))

@[simp] theorem valid_nil : Valid [] := ⟨[], rfl⟩

@[simp] theorem starts_nil : Starts [] := nofun

theorem starts_append (ha : a ≠ []) : Starts (a ++ b) ↔ Starts a := by
  rw [Starts, Starts, List.head?_append_of_ne_nil _ ha]

theorem Valid.append (ha : Valid a) (hb : Valid b) : Valid (a ++ b) := by
  obtain ⟨cs, rfl⟩ := ha
  obtain ⟨ds, rfl⟩ := hb
  exact ⟨cs ++ ds, List.flatMap_append.symm⟩

/-- The bytes of a code point: only the first is a first one. -/
theorem starts_drop_encode (ch : Char) {i : ℕ} (hi : i < (String.utf8EncodeChar ch).length) :
    Starts ((String.utf8EncodeChar ch).drop i) ↔ i = 0 := by
  rw [Starts, List.head?_drop, List.getElem?_eq_getElem hi]
  simp

theorem Valid.starts (h : Valid bs) : Starts bs := by
  obtain ⟨cs, rfl⟩ := h
  cases cs with
  | nil => exact starts_nil
  | cons ch cs =>
    rw [List.flatMap_cons, starts_append String.utf8EncodeChar_ne_nil]
    exact (starts_drop_encode ch (List.length_pos_of_ne_nil String.utf8EncodeChar_ne_nil)).2 rfl

/-- A code point is read from the front. -/
theorem encode_inj {x y : Char} (h : String.utf8EncodeChar x ++ a = String.utf8EncodeChar y ++ b) :
    x = y ∧ a = b := by
  have hx := @ByteArray.utf8DecodeChar?_utf8EncodeChar_append a.toByteArray x
  have hy := @ByteArray.utf8DecodeChar?_utf8EncodeChar_append b.toByteArray y
  rw [← List.toByteArray_append] at hx hy
  rw [h, hy] at hx
  obtain rfl := Option.some.inj hx
  exact ⟨rfl, List.append_cancel_left h⟩

/-- **Cut in front of the first byte of a code point**, both parts are valid. -/
theorem Valid.of_append (h : Valid (a ++ b)) (hb : Starts b) : Valid a ∧ Valid b := by
  obtain ⟨cs, hcs⟩ := h
  induction cs generalizing a with
  | nil =>
    obtain ⟨rfl, rfl⟩ := List.append_eq_nil_iff.1 hcs
    exact ⟨valid_nil, valid_nil⟩
  | cons ch cs ih =>
    rw [List.flatMap_cons] at hcs
    obtain rfl | hne := eq_or_ne a []
    · exact ⟨valid_nil, ch :: cs, hcs⟩
    obtain ⟨a', hencode, rfl⟩ | ⟨a', rfl, hrest⟩ := List.append_eq_append_iff.1 hcs
    · obtain rfl | hne' := eq_or_ne a' []
      · -- the cut is behind this code point
        rw [List.append_nil] at hencode
        exact ⟨⟨[ch], by rw [List.flatMap_singleton, hencode]⟩, cs, rfl⟩
      · -- the cut is inside of it
        have hdrop : (String.utf8EncodeChar ch).drop a.length = a' := by
          rw [hencode, List.drop_left]
        have hlt : a.length < (String.utf8EncodeChar ch).length := by
          rw [hencode, List.length_append]
          exact Nat.lt_add_of_pos_right (List.length_pos_of_ne_nil hne')
        rw [starts_append hne', ← hdrop, starts_drop_encode ch hlt] at hb
        exact absurd (List.eq_nil_of_length_eq_zero hb) hne
    · obtain ⟨ha', hb'⟩ := ih hrest.symm
      exact ⟨Valid.append ⟨[ch], by rw [List.flatMap_singleton]⟩ ha', hb'⟩

/-- What is behind a valid part starts with a code point. -/
theorem Valid.starts_of_append (h : Valid (a ++ b)) (ha : Valid a) : Starts b := by
  obtain ⟨cs, rfl⟩ := ha
  induction cs with
  | nil => exact h.starts
  | cons ch cs ih =>
    obtain ⟨ds, hds⟩ := h
    cases ds with
    | nil =>
      rw [List.flatMap_cons, List.append_assoc] at hds
      exact absurd (List.append_eq_nil_iff.1 hds).1 String.utf8EncodeChar_ne_nil
    | cons dh ds =>
      rw [List.flatMap_cons, List.append_assoc, List.flatMap_cons] at hds
      exact ih ⟨ds, (encode_inj hds).2⟩

/-- **When the first part is valid.** -/
theorem valid_left_iff (h : Valid (a ++ b)) : Valid a ↔ Starts b :=
  ⟨h.starts_of_append, fun hb => (h.of_append hb).1⟩

/-! ### ASCII -/

theorem starts_of_lt (hc : c < 128) : Starts (c :: b) := by
  intro x hx
  obtain rfl := Option.some.inj hx
  refine .inl (UInt8.toNat_inj.1 ?_)
  have hlt : c.toNat < 2 ^ 7 := hc
  rw [UInt8.toNat_and]
  show c.toNat &&& 2 ^ 7 = 0
  rw [Nat.and_two_pow, Nat.testBit_lt_two_pow hlt]
  rfl

theorem valid_singleton (hc : c < 128) : Valid [c] := by
  have hlt : c.toNat < 128 := hc
  have hvalid : c.toNat.isValidChar := .inl (by omega)
  have hval : (Char.ofNat c.toNat).val.toNat = c.toNat := by
    rw [Char.ofNat, dif_pos hvalid]
    rfl
  refine ⟨[Char.ofNat c.toNat], ?_⟩
  rw [List.flatMap_singleton, String.utf8EncodeChar]
  simp only [hval]
  rw [if_pos (by omega), UInt8.ofNat_toNat]

theorem valid_of_forall_lt (h : ∀ c ∈ bs, c < 128) : Valid bs := by
  induction bs with
  | nil => exact valid_nil
  | cons c bs ih =>
    rw [List.forall_mem_cons] at h
    exact (valid_singleton h.1).append (ih h.2)

/-- **Behind an ASCII byte a code point starts.** -/
theorem starts_behind (h : Valid (a ++ c :: b)) (hc : c < 128) : Starts b := by
  have hbehind := (h.of_append (starts_of_lt hc)).2
  exact Valid.starts_of_append (a := [c]) hbehind (valid_singleton hc)

/-! ### Parts -/

theorem starts_flatten {parts : List (List UInt8)} (h : ∀ s ∈ parts, Starts s) :
    Starts parts.flatten := by
  induction parts with
  | nil => exact starts_nil
  | cons s parts ih =>
    rw [List.forall_mem_cons] at h
    rw [List.flatten_cons]
    obtain rfl | hne := eq_or_ne s []
    · exact ih h.2
    · exact (starts_append hne).2 h.1

/-- **The parts of a text are valid** iff each of them starts with a code point. -/
theorem forall_valid_iff {parts : List (List UInt8)} (h : Valid parts.flatten) :
    (∀ s ∈ parts, Valid s) ↔ ∀ s ∈ parts, Starts s := by
  constructor
  · intro hvalid s hs
    exact (hvalid s hs).starts
  · intro hstarts
    induction parts with
    | nil => nofun
    | cons s parts ih =>
      rw [List.forall_mem_cons] at hstarts ⊢
      rw [List.flatten_cons] at h
      obtain ⟨hs, hparts⟩ := h.of_append (starts_flatten hstarts.2)
      exact ⟨hs, ih hparts hstarts.2⟩

end Utf8Cuts
