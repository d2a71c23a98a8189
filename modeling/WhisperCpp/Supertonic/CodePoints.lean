import WhisperCpp.Chatterbox.MtlSpecials
import WhisperCpp.Library.Tighten
import WhisperCpp.Supertonic.Preprocess

/-!
# The passes in code points

The string passes only look for ASCII, so that what they make of an encoded text is the encoding of
what they make of its code points. The code points are settled: decomposing and filtering them again
changes nothing, as no decomposition has anything that decomposes.

## Main definitions

* `normalizedCps` — the passes over code points
* `Settled` — a code point that stays

## Main results

* `normalizedString_cpsToUtf8` — the passes over the string
* `settled_of_mem_filteredCps`, `filteredCps_cpsToUtf8` — the text is settled
-/

namespace WhisperCpp

namespace Supertonic

open Chatterbox Replace Squeeze

/-! ### The passes -/

/-- Bytes as code points. -/
def asciiCps (s : List UInt8) : List ℕ := s.map UInt8.toNat

/-- The replacements of bytes as those of code points. -/
def asciiPairs (ps : List (List UInt8 × List UInt8)) : List (List ℕ × List ℕ) :=
  ps.map fun p => (asciiCps p.1, asciiCps p.2)

/-- With the abbreviations spelled. -/
def spelledCps (cps : List ℕ) : List ℕ := replaceEach (asciiPairs spellings) cps

/-- Without spaces in front of marks. -/
def tightenedCps (cps : List ℕ) : List ℕ := replaceEach (asciiPairs tightenings) cps

/-- Without double quotes. -/
def dedupedCps (cps : List ℕ) : List ℕ := dedupe 96 (dedupe 39 (dedupe 34 cps))

/-- With single spaces. -/
def collapsedCps (cps : List ℕ) : List ℕ := (squeeze (· == 32) 32 true cps).rdropWhile (· == 32)

/-- With something at the end. -/
def endedCps (cps : List ℕ) : List ℕ :=
  match cps.getLast? with
  | none => cps ++ [46]
  | some cp => if cp ∈ terminalPuncts then cps else cps ++ [46]

/-- The passes over the string, in code points. -/
def normalizedCps (cps : List ℕ) : List ℕ :=
  endedCps (collapsedCps (dedupedCps (tightenedCps (spelledCps cps))))

/-! ### Encoded -/

section Encoded

variable {cps : List ℕ} {cp : ℕ} {b : UInt8}

theorem le_ofNat_or (x : ℕ) : (0x80 : UInt8) ≤ .ofNat (0x80 ||| x) := by
  have hbit : ((0x80 ||| x) % 2 ^ 8).testBit 7 = true := by
    rw [Nat.testBit_mod_two_pow, Nat.testBit_or]
    rfl
  have hge := Nat.ge_two_pow_of_testBit hbit
  rw [UInt8.le_iff_toNat_le, UInt8.toNat_ofNat']
  exact hge

/-- Behind ASCII all bytes have the first bit. -/
theorem le_of_mem_utf8Append (hcp : 0x80 ≤ cp) (h : b ∈ utf8Append cp) : 0x80 ≤ b := by
  have hlead : ∀ x, (0x80 : UInt8) ≤ .ofNat (0xC0 ||| x) ∧ (0x80 : UInt8) ≤ .ofNat (0xE0 ||| x) ∧
      (0x80 : UInt8) ≤ .ofNat (0xF0 ||| x) := by
    intro x
    have hsplit : 0xC0 ||| x = 0x80 ||| (0x40 ||| x) ∧ 0xE0 ||| x = 0x80 ||| (0x60 ||| x) ∧
        0xF0 ||| x = 0x80 ||| (0x70 ||| x) := by
      refine ⟨?_, ?_, ?_⟩ <;> · rw [← Nat.or_assoc]; rfl
    rw [hsplit.1, hsplit.2.1, hsplit.2.2]
    exact ⟨le_ofNat_or _, le_ofNat_or _, le_ofNat_or _⟩
  rw [utf8Append, if_neg (by omega)] at h
  split_ifs at h
  · simp only [List.mem_cons, List.not_mem_nil, or_false] at h
    rcases h with rfl | rfl
    · exact (hlead _).1
    · exact le_ofNat_or _
  · simp only [List.mem_cons, List.not_mem_nil, or_false] at h
    rcases h with rfl | rfl | rfl
    · exact (hlead _).2.1
    · exact le_ofNat_or _
    · exact le_ofNat_or _
  · simp only [List.mem_cons, List.not_mem_nil, or_false] at h
    rcases h with rfl | rfl | rfl | rfl
    · exact (hlead _).2.2
    · exact le_ofNat_or _
    · exact le_ofNat_or _
    · exact le_ofNat_or _

theorem utf8Append_of_lt (h : cp < 0x80) : utf8Append cp = [.ofNat cp] := by
  rw [utf8Append, if_pos h]

theorem utf8Append_ne_nil (cp : ℕ) : utf8Append cp ≠ [] := by
  rw [utf8Append]
  split_ifs <;> simp

/-- An ASCII byte stands for itself. -/
theorem eq_of_mem_utf8Append (hb : b < 0x80) (h : b ∈ utf8Append cp) : cp = b.toNat := by
  by_cases hcp : cp < 0x80
  · rw [utf8Append_of_lt hcp, List.mem_singleton] at h
    rw [h, UInt8.toNat_ofNat']
    omega
  · exact absurd (le_of_mem_utf8Append (Nat.not_lt.mp hcp) h) (UInt8.not_le.mpr hb)

theorem utf8Append_toNat (hb : b < 0x80) : utf8Append b.toNat = [b] := by
  rw [utf8Append_of_lt (UInt8.lt_iff_toNat_lt.mp hb), UInt8.ofNat_toNat]

theorem flatMap_asciiCps {s : List UInt8} (h : ∀ b ∈ s, b < 0x80) :
    (asciiCps s).flatMap utf8Append = s := by
  induction s with
  | nil => rfl
  | cons b s ih =>
    obtain ⟨hb, hs⟩ := List.forall_mem_cons.mp h
    rw [asciiCps, List.map_cons, List.flatMap_cons, utf8Append_toNat hb, ← asciiCps, ih hs]
    rfl

/-- ASCII is searched for in an encoded text. -/
theorem plain_asciiCps {pat : List UInt8} (h : ∀ b ∈ pat, b < 0x80) :
    Plain utf8Append UInt8.ofNat (asciiCps pat) where
  code a ha := by
    obtain ⟨b, hb, rfl⟩ := List.mem_map.mp ha
    rw [utf8Append_toNat (h b hb), UInt8.ofNat_toNat]
  only a ha cp hcp := by
    obtain ⟨b, hb, rfl⟩ := List.mem_map.mp ha
    rw [UInt8.ofNat_toNat] at hcp
    exact eq_of_mem_utf8Append (h b hb) hcp
  ne_nil := utf8Append_ne_nil

theorem replaceEach_cpsToUtf8 {ps : List (List UInt8 × List UInt8)}
    (h : ∀ p ∈ ps, p.1 ≠ [] ∧ (∀ b ∈ p.1, b < 0x80) ∧ ∀ b ∈ p.2, b < 0x80) (cps : List ℕ) :
    replaceEach ps (cpsToUtf8 cps) = cpsToUtf8 (replaceEach (asciiPairs ps) cps) := by
  induction ps generalizing cps with
  | nil => rfl
  | cons p ps ih =>
    obtain ⟨⟨hne, hpat, hrep⟩, hps⟩ := List.forall_mem_cons.mp h
    have hcps : asciiCps p.1 ≠ [] := by simpa [asciiCps] using hne
    have hback : (asciiCps p.1).map UInt8.ofNat = p.1 := by simp [asciiCps, Function.comp_def]
    have hone := @replaceAll_flatMap ℕ UInt8 _ (asciiCps p.1) (asciiCps p.2) _ utf8Append _ hcps
      (plain_asciiCps hpat) cps
    rw [hback, flatMap_asciiCps hrep] at hone
    rw [replaceEach_cons, cpsToUtf8, hone, ← cpsToUtf8, ih hps]
    rfl

theorem dedupe_cpsToUtf8 (hb : b < 0x80) (cps : List ℕ) :
    dedupe b (cpsToUtf8 cps) = cpsToUtf8 (dedupe b.toNat cps) := by
  rw [dedupe_eq_squeeze, dedupe_eq_squeeze, cpsToUtf8, cpsToUtf8]
  refine squeeze_flatMap (utf8Append_toNat hb) (by simp) (by simp) (fun cp _ hne => ?_) false
  refine ⟨utf8Append_ne_nil cp, fun b' hb' => ?_⟩
  rw [beq_eq_false_iff_ne] at hne ⊢
  rintro rfl
  exact hne (eq_of_mem_utf8Append hb hb')

/-- A byte that is a space is a code point that is one. -/
theorem cpIsSpace_of_isWs (hws : isWs b = true) (h : b ∈ utf8Append cp) : cpIsSpace cp = true := by
  have hall : ∀ i : Fin 256, isWs (.ofNat i) = true → i.val < 0x80 ∧ cpIsSpace i.val = true := by
    decide +kernel
  have hspec := hall ⟨b.toNat, b.toNat_lt⟩ (by rwa [UInt8.ofNat_toNat])
  rw [eq_of_mem_utf8Append (UInt8.lt_iff_toNat_lt.mpr hspec.1) h]
  exact hspec.2

theorem collapseSpaces_cpsToUtf8 (hspace : ∀ cp ∈ cps, cpIsSpace cp = true → cp = 32) :
    collapseSpaces (cpsToUtf8 cps) = cpsToUtf8 (collapsedCps cps) := by
  have hone : utf8Append 32 = [32] := rfl
  have hdrop : ∀ cps : List ℕ, (cpsToUtf8 cps).rdropWhile (· == 32) =
      cpsToUtf8 (cps.rdropWhile (· == 32)) := by
    intro cps
    refine rdropWhile_flatMap (fun cp _ h => ?_) fun cp _ h => ?_
    · rw [beq_iff_eq.mp h, hone]
      simp
    · refine ⟨utf8Append_ne_nil cp, fun b hb => ?_⟩
      rw [beq_eq_false_iff_ne] at h ⊢
      rintro rfl
      exact h (eq_of_mem_utf8Append (by decide) hb)
  have hsqueeze : squeeze isWs 32 true (cpsToUtf8 cps) =
      cpsToUtf8 (squeeze (· == 32) 32 true cps) := by
    refine squeeze_flatMap hone rfl (by simp) (fun cp hcp h => ?_) true
    refine ⟨utf8Append_ne_nil cp, fun b hb => ?_⟩
    by_contra hws
    rw [Bool.not_eq_false] at hws
    rw [hspace cp hcp (cpIsSpace_of_isWs hws hb)] at h
    cases h
  rw [collapseSpaces, hsqueeze, hdrop, collapsedCps]

theorem ended_cpsToUtf8 (hlt : ∀ cp ∈ cps, cp < 0x200000) :
    (if hasTerminalPunct (cpsToUtf8 cps) then cpsToUtf8 cps else cpsToUtf8 cps ++ [46]) =
      cpsToUtf8 (endedCps cps) := by
  have hperiod : cpsToUtf8 (cps ++ [46]) = cpsToUtf8 cps ++ [46] := by
    rw [cpsToUtf8, List.flatMap_append]
    rfl
  rw [hasTerminalPunct, utf8ToCps_cpsToUtf8 hlt, endedCps]
  cases cps.getLast? with
  | none => simp [hperiod]
  | some cp =>
    by_cases hcp : cp ∈ terminalPuncts
    · simp [hcp]
    · simp [hcp, hperiod]

end Encoded

/-! ### What the passes bring -/

section Members

variable {cps : List ℕ} {cp : ℕ}

/-- The code points that the passes bring. -/
def insertedCps : List ℕ :=
  46 :: ((asciiPairs spellings).flatMap Prod.snd ++ (asciiPairs tightenings).flatMap Prod.snd)

theorem mem_spelledCps (h : cp ∈ spelledCps cps) : cp ∈ cps ∨ cp ∈ insertedCps := by
  refine (mem_replaceEach h).imp_right fun ⟨p, hp, hcp⟩ => ?_
  exact List.mem_cons_of_mem 46 (List.mem_append_left _ (List.mem_flatMap.mpr ⟨p, hp, hcp⟩))

theorem mem_tightenedCps (h : cp ∈ tightenedCps cps) : cp ∈ cps ∨ cp ∈ insertedCps := by
  refine (mem_replaceEach h).imp_right fun ⟨p, hp, hcp⟩ => ?_
  exact List.mem_cons_of_mem 46 (List.mem_append_right _ (List.mem_flatMap.mpr ⟨p, hp, hcp⟩))

theorem mem_dedupedCps : cp ∈ dedupedCps cps ↔ cp ∈ cps := by
  rw [dedupedCps, dedupe_eq_squeeze, dedupe_eq_squeeze, dedupe_eq_squeeze, mem_squeeze_beq,
    mem_squeeze_beq, mem_squeeze_beq]

theorem mem_collapsedCps (h : cp ∈ collapsedCps cps) : cp ∈ cps ∨ cp = 32 :=
  mem_squeeze ((List.rdropWhile_prefix _ _).subset h)

theorem mem_endedCps (h : cp ∈ endedCps cps) : cp ∈ cps ∨ cp = 46 := by
  rw [endedCps] at h
  split at h
  · simpa using h
  · split_ifs at h
    · exact .inl h
    · simpa using h

theorem mem_normalizedCps (h : cp ∈ normalizedCps cps) : cp ∈ cps ∨ cp ∈ insertedCps := by
  have hinserted : 46 ∈ insertedCps ∧ 32 ∈ insertedCps := by decide
  rcases mem_endedCps h with h | rfl
  · rcases mem_collapsedCps h with h | rfl
    · rcases mem_tightenedCps (mem_dedupedCps.mp h) with h | h
      · exact mem_spelledCps h
      · exact .inr h
    · exact .inr hinserted.2
  · exact .inr hinserted.1

end Members

/-- Below the end of UTF-8 with four bytes, and no other space than the ASCII one. -/
def Passable (cp : ℕ) : Prop := cp < 0x200000 ∧ (cpIsSpace cp = true → cp = 32)

/-- **The passes over an encoded text.** -/
theorem normalizedString_cpsToUtf8 {cps : List ℕ} (h : ∀ cp ∈ cps, Passable cp) :
    normalizedString (cpsToUtf8 cps) = cpsToUtf8 (normalizedCps cps) := by
  have hinserted : ∀ cp ∈ insertedCps, cp < 0x200000 ∧ (cpIsSpace cp = true → cp = 32) := by decide
  have hspelled : ∀ cp ∈ spelledCps cps, Passable cp :=
    fun cp hcp => (mem_spelledCps hcp).elim (h cp) (hinserted cp)
  have htight : ∀ cp ∈ tightenedCps (spelledCps cps), Passable cp :=
    fun cp hcp => (mem_tightenedCps hcp).elim (hspelled cp) (hinserted cp)
  have hdeduped : ∀ cp ∈ dedupedCps (tightenedCps (spelledCps cps)), Passable cp :=
    fun cp hcp => htight cp (mem_dedupedCps.mp hcp)
  have hcollapsed : ∀ cp ∈ collapsedCps (dedupedCps (tightenedCps (spelledCps cps))),
      cp < 0x200000 := by
    intro cp hcp
    rcases mem_collapsedCps hcp with hcp | rfl
    · exact (hdeduped cp hcp).1
    · decide
  have hquotes : ∀ cps, dedupe 96 (dedupe 39 (dedupe 34 (cpsToUtf8 cps))) =
      cpsToUtf8 (dedupedCps cps) := by
    intro cps
    rw [dedupe_cpsToUtf8 (by decide), dedupe_cpsToUtf8 (by decide), dedupe_cpsToUtf8 (by decide)]
    rfl
  rw [normalizedString, replaceEach_cpsToUtf8 (by decide +kernel),
    replaceEach_cpsToUtf8 (by decide +kernel), ← spelledCps, ← tightenedCps, hquotes,
    collapseSpaces_cpsToUtf8 fun cp hcp => (hdeduped cp hcp).2, ended_cpsToUtf8 hcollapsed,
    normalizedCps]

/-! ### Settled code points -/

/-- Decomposing and filtering changes nothing. -/
def Settled (cp : ℕ) : Prop := appendNfkdCp cp = [cp] ∧ filterCp cp = some cp

instance : DecidablePred Settled := fun _ => inferInstanceAs (Decidable (_ ∧ _))

/-- The code points that have a decomposition, as bits. -/
def nfkdKeys : ℕ := mtlNfkdTable.foldl (fun m e => m ||| 1 <<< e.1) 0

/-- What is decomposed has its bit, and what comes of it has none and is no syllable. The number is
taken apart for it to be evaluated once. -/
def keysApart : ℕ → Bool
  | 0 => false
  | k + 1 => mtlNfkdTable.all fun e =>
      (k + 1).testBit e.1 && e.2.all fun d => !(k + 1).testBit d && !(0xAC00 ≤ d && d ≤ 0xD7A3)

theorem keysApart_nfkdKeys : keysApart nfkdKeys = true := by decide +kernel

/-- There is nothing to decompose among the parts of syllables. -/
theorem mtlNfkdTable_jamo : ∀ e ∈ mtlNfkdTable, e.1 < 0x1100 ∨ 0x11C2 < e.1 := by decide +kernel

section Closed

variable {cp x : ℕ}

theorem appendNfkdCp_of_not_key (hkey : ∀ e ∈ mtlNfkdTable, e.1 ≠ cp)
    (hangul : ¬ (0xAC00 ≤ cp ∧ cp ≤ 0xD7A3)) : appendNfkdCp cp = [cp] := by
  rw [appendNfkdCp, if_neg hangul]
  split
  · rename_i data hdata
    exact absurd rfl (hkey _ (mem_of_findEntry hdata))
  · rfl

theorem of_keysApart {k : ℕ} (h : keysApart k = true) : ∀ e ∈ mtlNfkdTable,
    k.testBit e.1 = true ∧ ∀ d ∈ e.2, k.testBit d = false ∧ ¬ (0xAC00 ≤ d ∧ d ≤ 0xD7A3) := by
  cases k with
  | zero => cases h
  | succ k =>
    intro e he
    have hone := List.all_eq_true.mp h e he
    rw [Bool.and_eq_true, List.all_eq_true] at hone
    refine ⟨hone.1, fun d hd => ?_⟩
    simpa [imp_iff_not_or] using hone.2 d hd

theorem of_mem_syllable {base : ℕ} (hbase : base < 11172) (h : x ∈ hangulParts base) :
    0x1100 ≤ x ∧ x ≤ 0x11C2 := by
  have hl : base / (21 * 28) ≤ 18 := by omega
  have hv : base % (21 * 28) / 28 < 21 := by omega
  have ht := Nat.mod_lt base (show 0 < 28 by decide)
  rw [hangulParts, List.mem_append] at h
  rcases h with h | h
  · simp only [List.mem_cons, List.not_mem_nil, or_false] at h
    omega
  · split_ifs at h
    · rw [List.mem_singleton] at h
      omega
    · cases h

/-- **What comes of a decomposition** is not decomposed again. -/
theorem appendNfkdCp_of_mem (h : x ∈ appendNfkdCp cp) : appendNfkdCp x = [x] := by
  have happart := of_keysApart keysApart_nfkdKeys
  by_cases hangul : 0xAC00 ≤ cp ∧ cp ≤ 0xD7A3
  · rw [appendNfkdCp, if_pos hangul] at h
    have hjamo := of_mem_syllable (by omega) h
    refine appendNfkdCp_of_not_key (fun e he heq => ?_) (by omega)
    have hkey := mtlNfkdTable_jamo e he
    omega
  · cases hfind : findEntry mtlNfkdTable cp 0 2518 with
    | none =>
      have hsame : appendNfkdCp cp = [cp] := by rw [appendNfkdCp, if_neg hangul, hfind]
      rw [hsame, List.mem_singleton] at h
      rw [h, hsame]
    | some data =>
      rw [appendNfkdCp, if_neg hangul, hfind] at h
      obtain ⟨hbit, hd⟩ := (happart _ (mem_of_findEntry hfind)).2 x h
      refine appendNfkdCp_of_not_key (fun e he heq => ?_) hd
      rw [← heq, (happart e he).1] at hbit
      cases hbit

/-- **What the filter lets through** is settled. -/
theorem settled_of_filterCp (hcp : appendNfkdCp cp = [cp]) (h : filterCp cp = some x) :
    Settled x := by
  have hascii : Settled 45 ∧ Settled 32 ∧ Settled 34 ∧ Settled 39 := by decide +kernel
  have hfilter := h
  rw [filterCp] at h
  split_ifs at h with hemoji hdropped hspace
  · obtain rfl := Option.some.inj h
    exact hascii.2.1
  · rw [Option.some.injEq] at h
    rw [plainCp] at h
    split_ifs at h
    · exact h ▸ hascii.1
    · exact h ▸ hascii.2.1
    · exact h ▸ hascii.2.2.1
    · exact h ▸ hascii.2.2.2
    · subst h
      exact ⟨hcp, hfilter⟩

theorem settled_of_mem_filteredCps {text : List UInt8} (h : cp ∈ filteredCps text) : Settled cp := by
  obtain ⟨d, hd, hcp⟩ := List.mem_filterMap.mp h
  obtain ⟨c, -, hd⟩ := List.mem_flatMap.mp hd
  exact settled_of_filterCp (appendNfkdCp_of_mem hd) hcp

theorem passable_of_settled (hlt : cp < 0x200000) (h : Settled cp) : Passable cp := by
  refine ⟨hlt, fun hspace => ?_⟩
  have hfilter := h.2
  rw [filterCp] at hfilter
  split_ifs at hfilter with hemoji hdropped hplain
  · exact (Option.some.inj hfilter).symm
  · rw [Option.some.inj hfilter] at hplain
    exact absurd hspace hplain

theorem lt_of_mem_filteredCps {text : List UInt8} (h : cp ∈ filteredCps text) : cp < 0x200000 := by
  obtain ⟨d, hd, hcp⟩ := List.mem_filterMap.mp h
  obtain ⟨c, hc, hd⟩ := List.mem_flatMap.mp hd
  have hlt := lt_of_mem_appendNfkdCp (lt_of_mem_utf8ToCps hc) hd
  rw [filterCp] at hcp
  split_ifs at hcp
  · rw [← Option.some.inj hcp]
    decide
  · rw [← Option.some.inj hcp, plainCp]
    split_ifs <;> omega

/-- **A settled text** is what it is made of. -/
theorem filteredCps_cpsToUtf8 {cps : List ℕ} (hlt : ∀ cp ∈ cps, cp < 0x200000)
    (h : ∀ cp ∈ cps, Settled cp) : filteredCps (cpsToUtf8 cps) = cps := by
  rw [filteredCps, nfkdCps, utf8ToCps_cpsToUtf8 hlt]
  clear hlt
  induction cps with
  | nil => rfl
  | cons c cps ih =>
    obtain ⟨⟨hnfkd, hfilter⟩, hcps⟩ := List.forall_mem_cons.mp h
    rw [List.flatMap_cons, hnfkd, List.singleton_append, List.filterMap_cons, hfilter, ih hcps]

end Closed

end Supertonic

end WhisperCpp
