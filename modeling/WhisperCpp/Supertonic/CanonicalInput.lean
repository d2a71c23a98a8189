import WhisperCpp.Chatterbox.CanonicalOrder
import WhisperCpp.Chatterbox.MtlSpecials
import WhisperCpp.Supertonic.Preprocess

/-!
# Equivalent texts

The multilingual tokenizer of Chatterbox puts marks into canonical order. Supertonic takes them in the
order that they come in, so that of equivalent texts only those whose marks are in order have the
same code points for sure.

## Main definitions

* `InOrder` — no mark is behind one of a higher class

## Main results

* `canonicalReorder_eq_self_iff` — what is in order already
* `sameIds_iff` — when equivalent texts are the same text
-/

namespace WhisperCpp

namespace Supertonic

open Chatterbox StableSort

/-- No mark is directly behind one of a higher class. -/
def InOrder (cps : List ℕ) : Prop :=
  cps.IsChain fun a b => combiningClass b = 0 ∨ combiningClass a ≤ combiningClass b

section Order

variable {a m z : List ℕ}

theorem inOrder_of_starters (ha : ∀ cp ∈ a, isStarter cp = true) : InOrder a := by
  induction a with
  | nil => exact .nil
  | cons c a ih =>
    obtain ⟨hc, ha⟩ := List.forall_mem_cons.mp ha
    refine List.isChain_cons.mpr ⟨fun b hb => .inl ?_, ih ha⟩
    exact isStarter_iff.mp (ha b (List.mem_of_mem_head? hb))

/-- A run is in order if it is sorted. -/
theorem inOrder_of_marks_iff (hm : ∀ cp ∈ m, isStarter cp = false) :
    InOrder m ↔ sort combiningClass m = m := by
  have hchain : InOrder m ↔ m.IsChain fun a b => combiningClass a ≤ combiningClass b := by
    induction m with
    | nil => exact iff_of_true .nil .nil
    | cons c m ih =>
      obtain ⟨-, hm⟩ := List.forall_mem_cons.mp hm
      rw [InOrder, List.isChain_cons, List.isChain_cons, ← InOrder, ih hm]
      refine and_congr_left fun _ => forall₂_congr fun b hb => ?_
      have hb : isStarter b = false := hm b (List.mem_of_mem_head? hb)
      rw [← Bool.not_eq_true, isStarter_iff] at hb
      simp [hb]
  rw [hchain, List.isChain_iff_pairwise]
  constructor
  · intro h
    exact h.insertionSort_eq
  · intro h
    rw [← h]
    exact pairwise_sort combiningClass m

/-- Between a run and the starters around it there is nothing to see. -/
theorem inOrder_block_iff (ha : ∀ cp ∈ a, isStarter cp = true)
    (hz : ∀ cp ∈ z.head?, isStarter cp = true) :
    InOrder (a ++ (m ++ z)) ↔ InOrder m ∧ InOrder z := by
  have hleft : ∀ x ∈ a.getLast?, ∀ y ∈ (m ++ z).head?,
      combiningClass y = 0 ∨ combiningClass x ≤ combiningClass y := by
    intro x hx y _
    have hzero := isStarter_iff.mp (ha x (List.mem_of_getLast? hx))
    exact .inr (by rw [hzero]; exact Nat.zero_le _)
  have hright : ∀ x ∈ m.getLast?, ∀ y ∈ z.head?,
      combiningClass y = 0 ∨ combiningClass x ≤ combiningClass y :=
    fun _ _ y hy => .inl (isStarter_iff.mp (hz y hy))
  rw [InOrder, List.isChain_append, List.isChain_append]
  constructor
  · rintro ⟨-, ⟨hm, hz, -⟩, -⟩
    exact ⟨hm, hz⟩
  · rintro ⟨hm, hz⟩
    exact ⟨inOrder_of_starters ha, ⟨hm, hz, hright⟩, hleft⟩

/-- **What is in order** stays. -/
theorem canonicalReorder_eq_self_iff (cps : List ℕ) : canonicalReorder cps = cps ↔ InOrder cps := by
  induction cps using block_induction with
  | starters a ha => exact iff_of_true (canonicalReorder_of_starters ha) (inOrder_of_starters ha)
  | run a m z ha _ hm hz ih =>
    rw [canonicalReorder_block ha hm hz, inOrder_block_iff ha hz, ← ih, inOrder_of_marks_iff hm,
      List.append_cancel_left_eq]
    constructor
    · intro h
      exact List.append_inj h (sort_perm _ _).length_eq
    · rintro ⟨hm, hz⟩
      rw [hm, hz]

end Order

/-! ### The decomposition -/

/-- **The tokenizer of Chatterbox** puts the decomposition into order. -/
theorem utf8ToCps_nfkdNormalize (text : List UInt8) :
    utf8ToCps (nfkdNormalize text) = canonicalReorder (nfkdCps text) := by
  refine utf8ToCps_cpsToUtf8 fun x hx => ?_
  obtain ⟨cp, hcp, hx⟩ := List.mem_flatMap.mp ((canonicalReorder_perm _).mem_iff.mp hx)
  exact lt_of_mem_appendNfkdCp (lt_of_mem_utf8ToCps hcp) hx

theorem nfkdCps_eq_iff (text : List UInt8) :
    nfkdCps text = utf8ToCps (nfkdNormalize text) ↔ InOrder (nfkdCps text) := by
  rw [utf8ToCps_nfkdNormalize, eq_comm, canonicalReorder_eq_self_iff]

/-- What is made of the decomposition. -/
theorem textToIds_congr {s t : List UInt8} (h : nfkdCps s = nfkdCps t) (unicodeIndexer : List ℤ)
    (wrapMode language : String) :
    textToIds unicodeIndexer wrapMode s language = textToIds unicodeIndexer wrapMode t language := by
  rw [textToIds, textToIds, preprocessText, preprocessText, normalizedText, normalizedText,
    filteredCps, filteredCps, h]

/-- **Equivalent texts** have the code points that the tokenizer of Chatterbox gives them, and one
list of ids, if the marks are in order in both. -/
theorem sameIds_iff {s t : List UInt8} (h : nfkdNormalize s = nfkdNormalize t) :
    (nfkdCps s = utf8ToCps (nfkdNormalize s) ∧ nfkdCps t = utf8ToCps (nfkdNormalize t) ∧
      ∀ (unicodeIndexer : List ℤ) (wrapMode language : String),
        textToIds unicodeIndexer wrapMode s language =
          textToIds unicodeIndexer wrapMode t language) ↔
      InOrder (nfkdCps s) ∧ InOrder (nfkdCps t) := by
  rw [nfkdCps_eq_iff, nfkdCps_eq_iff]
  constructor
  · rintro ⟨hs, ht, -⟩
    exact ⟨hs, ht⟩
  · rintro ⟨hs, ht⟩
    refine ⟨hs, ht, textToIds_congr ?_⟩
    rw [(nfkdCps_eq_iff s).mpr hs, (nfkdCps_eq_iff t).mpr ht, h]

/-- `à` in one code point and in two. -/
theorem sameIds_grave : nfkdCps [0xC3, 0xA0] = utf8ToCps (nfkdNormalize [0xC3, 0xA0]) ∧
    nfkdCps [97, 0xCC, 0x80] = utf8ToCps (nfkdNormalize [97, 0xCC, 0x80]) ∧
      ∀ (unicodeIndexer : List ℤ) (wrapMode language : String),
        textToIds unicodeIndexer wrapMode [0xC3, 0xA0] language =
          textToIds unicodeIndexer wrapMode [97, 0xCC, 0x80] language :=
  (sameIds_iff (by decide +kernel)).mpr
    ⟨(canonicalReorder_eq_self_iff _).mp (by decide +kernel),
      (canonicalReorder_eq_self_iff _).mp (by decide +kernel)⟩

/-- An acute accent and a dot below on an `a`, and the other way around: the texts are equivalent, the
decomposition of the first is in another order, and the ids are others. -/
theorem not_forall_sameIds :
    (nfkdNormalize [97, 0xCC, 0x81, 0xCC, 0xA3] = nfkdNormalize [97, 0xCC, 0xA3, 0xCC, 0x81] ∧
      nfkdCps [97, 0xCC, 0x81, 0xCC, 0xA3] ≠
        utf8ToCps (nfkdNormalize [97, 0xCC, 0x81, 0xCC, 0xA3]) ∧
      textToIds ((List.range 1024).map fun i => (i : ℤ)) "none" [97, 0xCC, 0x81, 0xCC, 0xA3] "en" ≠
        textToIds ((List.range 1024).map fun i => (i : ℤ)) "none" [97, 0xCC, 0xA3, 0xCC, 0x81]
          "en") ∧
      ¬ ∀ s t : List UInt8, nfkdNormalize s = nfkdNormalize t →
        nfkdCps s = utf8ToCps (nfkdNormalize s) ∧ nfkdCps t = utf8ToCps (nfkdNormalize t) ∧
          ∀ (unicodeIndexer : List ℤ) (wrapMode language : String),
            textToIds unicodeIndexer wrapMode s language =
              textToIds unicodeIndexer wrapMode t language := by
  have hsame : nfkdNormalize [97, 0xCC, 0x81, 0xCC, 0xA3] =
      nfkdNormalize [97, 0xCC, 0xA3, 0xCC, 0x81] := by decide +kernel
  have hother : nfkdCps [97, 0xCC, 0x81, 0xCC, 0xA3] ≠
      utf8ToCps (nfkdNormalize [97, 0xCC, 0x81, 0xCC, 0xA3]) := by decide +kernel
  refine ⟨⟨hsame, hother, by decide +kernel⟩, fun h => ?_⟩
  exact hother (h _ _ hsame).1

end Supertonic

end WhisperCpp
