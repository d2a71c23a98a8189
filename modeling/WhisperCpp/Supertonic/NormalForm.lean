import WhisperCpp.Library.Spaces
import WhisperCpp.Supertonic.CodePoints

/-!
# What the passes leave

One space is taken from in front of a mark, once, before the spaces are squeezed. Two spaces in front
of a mark are one space in the result, and `e.g. ,` is an abbreviation in it that the next call spells.

## Main definitions

* `NormalForm` — what a preprocessed text should be
* `Spoiled` — the texts that the passes leave something in

## Main results

* `normalForm_normalizedCps_iff`, `normalizedCps_eq_self_iff`
* `settles_iff` — when the result is a normal form that stays
-/

namespace WhisperCpp

namespace Supertonic

open Chatterbox Replace Squeeze Tighten Spaces

/-- The marks that a space is taken from in front of. -/
def markCps : List ℕ := asciiCps closeMarks

/-- `"`, the apostrophe and the backtick. -/
def quoteCps : List ℕ := [34, 39, 96]

/-- No space at the ends, none in front of another or of a mark, no quote twice, and something that
ends the text. -/
structure NormalForm (cps : List ℕ) : Prop where
  head : ∀ a ∈ cps.head?, cpIsSpace a = false
  last : ∀ a ∈ cps.getLast?, cpIsSpace a = false
  single : ∀ a b, [a, b] <:+: cps → cpIsSpace a = true → cpIsSpace b = false
  tight : ∀ a, ∀ p ∈ markCps, [a, p] <:+: cps → cpIsSpace a = false
  unpaired : ∀ q ∈ quoteCps, ¬ [q, q] <:+: cps
  ended : ∃ a ∈ cps.getLast?, a ∈ terminalPuncts

/-- The abbreviations with a space in front of some of their marks. -/
def looseForms : List (List ℕ) :=
  (asciiPairs spellings).flatMap fun s => (loosen 32 markCps s.1).filter (· ≠ s.1)

/-- Two spaces in front of a mark, or something to spell, a space and a mark, or an abbreviation with
spaces. -/
def Spoiled (cps : List ℕ) : Prop :=
  (∃ p ∈ markCps, Doubled 32 p cps ∨ ∃ s ∈ asciiPairs spellings, s.1 ++ [32, p] <:+: cps) ∨
    ∃ q ∈ looseForms, q <:+: cps

/-! ### The passes one by one -/

section Passes

variable {cps q : List ℕ} {a c p : ℕ}

theorem of_mem_markCps : ∀ p ∈ markCps, p ≠ 32 ∧ cpIsSpace p = false := by decide

theorem of_mem_quoteCps : ∀ q ∈ quoteCps, q ≠ 32 ∧ q ≠ 46 := by decide

theorem tightenedCps_eq (cps : List ℕ) : tightenedCps cps = tighten 32 markCps cps := by
  have hpairs : asciiPairs tightenings = markCps.map fun p => ([32, p], [p]) := by decide
  rw [tightenedCps, hpairs, replaceEach_eq_tighten (by decide) (by decide)]

theorem infix_dedupe_iff (hne : q ≠ []) (hq : a ∉ q) : q <:+: dedupe a cps ↔ q <:+: cps := by
  rw [dedupe_eq_squeeze]
  refine infix_squeeze_iff hne (fun x hx => ?_) (beq_self_eq_true a)
  rw [beq_eq_false_iff_ne]
  rintro rfl
  exact hq hx

theorem infix_dedupedCps_iff (hne : q ≠ []) (hq : ∀ x ∈ quoteCps, x ∉ q) :
    q <:+: dedupedCps cps ↔ q <:+: cps := by
  rw [dedupedCps, infix_dedupe_iff hne (hq 96 (by decide)), infix_dedupe_iff hne (hq 39 (by decide)),
    infix_dedupe_iff hne (hq 34 (by decide))]

theorem not_infix_dedupe (a : ℕ) (cps : List ℕ) : ¬ [a, a] <:+: dedupe a cps := by
  rw [dedupe_eq_squeeze]
  exact not_infix_squeeze (beq_self_eq_true a)

/-- No quote is there twice. -/
theorem not_infix_dedupedCps : ∀ q ∈ quoteCps, ¬ [q, q] <:+: dedupedCps cps := by
  intro q hq
  simp only [quoteCps, List.mem_cons, List.not_mem_nil, or_false] at hq
  rw [dedupedCps]
  rcases hq with rfl | rfl | rfl
  · rw [infix_dedupe_iff (by simp) (by decide), infix_dedupe_iff (by simp) (by decide)]
    exact not_infix_dedupe 34 _
  · rw [infix_dedupe_iff (by simp) (by decide)]
    exact not_infix_dedupe 39 _
  · exact not_infix_dedupe 96 _

theorem spaced_dedupedCps_iff : Spaced 32 p (dedupedCps cps) ↔ Spaced 32 p cps := by
  rw [dedupedCps, dedupe_eq_squeeze, dedupe_eq_squeeze, dedupe_eq_squeeze,
    spaced_squeeze_iff (by decide), spaced_squeeze_iff (by decide), spaced_squeeze_iff (by decide)]

theorem prefix_squeeze_of_collapsedCps (cps : List ℕ) :
    collapsedCps cps <+: squeeze (· == 32) 32 true cps :=
  List.rdropWhile_prefix _ _

theorem infix_collapsedCps_iff (hne : q ≠ []) (hq : 32 ∉ q) :
    q <:+: collapsedCps cps ↔ q <:+: cps := by
  have hall : ∀ x ∈ q, (x == 32) = false := by
    intro x hx
    rw [beq_eq_false_iff_ne]
    rintro rfl
    exact hq hx
  rw [collapsedCps, infix_rdropWhile_iff hne (hall _ (List.getLast_mem hne)),
    infix_squeeze_iff hne hall (by decide)]

theorem spaced_iff_infix_collapsedCps (hp : p ≠ 32) :
    [32, p] <:+: collapsedCps cps ↔ Spaced 32 p cps := by
  rw [collapsedCps, infix_rdropWhile_iff (by simp) (by simpa using hp), infix_squeeze_iff_spaced hp]

theorem not_infix_collapsedCps : ¬ [32, 32] <:+: collapsedCps cps := by
  intro h
  have hblank : (32 == 32) = true := by decide
  have hin := h.trans (prefix_squeeze_of_collapsedCps cps).isInfix
  exact @not_infix_squeeze ℕ (· == 32) 32 true cps hblank hin

theorem head?_collapsedCps : 32 ∉ (collapsedCps cps).head? := by
  intro h
  have hblank : (32 == 32) = true := by decide
  obtain ⟨t, ht⟩ := prefix_squeeze_of_collapsedCps cps
  refine @head?_squeeze ℕ (· == 32) 32 cps hblank ?_
  rw [← ht]
  exact List.mem_head?_append_of_mem_head? h

theorem getLast?_collapsedCps : 32 ∉ (collapsedCps cps).getLast? := by
  intro h
  rw [Option.mem_def, List.getLast?_eq_some_iff] at h
  obtain ⟨u, hu⟩ := h
  have hne : collapsedCps cps ≠ [] := by simp [hu]
  have hlast := List.rdropWhile_last_not (· == 32) (squeeze (· == 32) 32 true cps) hne
  have hget : (collapsedCps cps).getLast hne = 32 := by simp [hu]
  exact hlast (beq_iff_eq.mpr hget)

/-- Either nothing is put at the end, or a period. -/
theorem endedCps_cases (cps : List ℕ) :
    ((∃ a ∈ cps.getLast?, a ∈ terminalPuncts) ∧ endedCps cps = cps) ∨
      endedCps cps = cps ++ [46] := by
  rw [endedCps]
  cases hlast : cps.getLast? with
  | none => exact .inr rfl
  | some a =>
    by_cases ha : a ∈ terminalPuncts
    · exact .inl ⟨⟨a, rfl, ha⟩, by simp [ha]⟩
    · exact .inr (by simp [ha])

theorem infix_endedCps_iff (hq : 46 ∉ q.getLast?) : q <:+: endedCps cps ↔ q <:+: cps := by
  rcases endedCps_cases cps with ⟨-, hcps⟩ | hcps
  · rw [hcps]
  · rw [hcps]
    exact ⟨infix_of_concat_of_last hq, fun h => List.infix_append_of_infix_left h⟩

end Passes

/-! ### The normal form -/

section NormalForm

variable {cps q : List ℕ} {p : ℕ}

/-- What is found in the result, and has no spaces and quotes. -/
theorem infix_normalizedCps_iff (hne : q ≠ []) (hsp : 32 ∉ q) (hquotes : ∀ x ∈ quoteCps, x ∉ q)
    (hlast : 46 ∉ q.getLast?) : q <:+: normalizedCps cps ↔
      ∃ q' ∈ loosen 32 markCps q, q' <:+: spelledCps cps := by
  rw [normalizedCps, infix_endedCps_iff hlast, infix_collapsedCps_iff hne hsp,
    infix_dedupedCps_iff hne hquotes, tightenedCps_eq, infix_tighten_iff (by decide) hsp]

/-- A space in front of a mark is never that in front of the last period. -/
theorem infix_endedCps_mark_iff :
    [32, p] <:+: endedCps (collapsedCps cps) ↔ [32, p] <:+: collapsedCps cps := by
  rcases endedCps_cases (collapsedCps cps) with ⟨-, hcps⟩ | hcps
  · rw [hcps]
  · rw [hcps]
    refine ⟨fun h => ?_, fun h => List.infix_append_of_infix_left h⟩
    rcases List.infix_concat_iff.mp h with hsuf | h
    · obtain ⟨u, hu⟩ := hsuf
      have hcut : (u ++ [32]) ++ [p] = collapsedCps cps ++ [46] := by simpa using hu
      refine absurd ?_ (@getLast?_collapsedCps cps)
      rw [← (List.append_inj' hcut rfl).1]
      simp
    · exact h

/-- **A space in front of a mark** comes from two. -/
theorem infix_mark_normalizedCps_iff (hp : p ∈ markCps) :
    [32, p] <:+: normalizedCps cps ↔ Doubled 32 p (spelledCps cps) := by
  rw [normalizedCps, infix_endedCps_mark_iff, spaced_iff_infix_collapsedCps (of_mem_markCps p hp).1,
    spaced_dedupedCps_iff, tightenedCps_eq, spaced_tighten_iff hp (by decide)]

theorem passable_normalizedCps (h : ∀ cp ∈ cps, Passable cp) :
    ∀ cp ∈ normalizedCps cps, Passable cp := by
  have hinserted : ∀ cp ∈ insertedCps, cp < 0x200000 ∧ (cpIsSpace cp = true → cp = 32) := by decide
  intro cp hcp
  exact (mem_normalizedCps hcp).elim (h cp) (hinserted cp)

/-- **Two spaces in front of a mark** are all that the passes leave. -/
theorem normalForm_normalizedCps_iff (h : ∀ cp ∈ cps, Passable cp) :
    NormalForm (normalizedCps cps) ↔ ∀ p ∈ markCps, ¬ Doubled 32 p (spelledCps cps) := by
  have hspace : ∀ a ∈ normalizedCps cps, a ≠ 32 → cpIsSpace a = false := by
    intro a ha hne
    rw [← Bool.not_eq_true]
    exact fun hsp => hne ((passable_normalizedCps h a ha).2 hsp)
  constructor
  · intro hnormal p hp hdouble
    have hsp := hnormal.tight 32 p hp ((infix_mark_normalizedCps_iff hp).mpr hdouble)
    exact absurd hsp (by decide)
  · intro hdouble
    set C := collapsedCps (dedupedCps (tightenedCps (spelledCps cps)))
    have hN : normalizedCps cps = endedCps C := rfl
    have hhead : ∀ a ∈ (endedCps C).head?, a ≠ 32 := by
      rintro a ha rfl
      rcases endedCps_cases C with ⟨-, hcps⟩ | hcps
      · rw [hcps] at ha
        exact head?_collapsedCps ha
      · rw [hcps, List.head?_append, Option.mem_def, Option.or_eq_some_iff] at ha
        rcases ha with ha | ⟨-, ha⟩
        · exact head?_collapsedCps ha
        · cases ha
    have hlast : ∃ a ∈ (endedCps C).getLast?, a ≠ 32 ∧ a ∈ terminalPuncts := by
      rcases endedCps_cases C with ⟨⟨a, ha, hterm⟩, hcps⟩ | hcps
      · refine ⟨a, by rwa [hcps], ?_, hterm⟩
        rintro rfl
        exact getLast?_collapsedCps ha
      · exact ⟨46, by simp [hcps], by decide, by decide⟩
    refine ⟨fun a ha => ?_, fun a ha => ?_, fun a b hab ha => ?_, fun a p hp hap => ?_,
      fun q hq => ?_, ?_⟩
    · exact hspace a (List.mem_of_mem_head? ha) (hhead a ha)
    · obtain ⟨b, hb, hne, -⟩ := hlast
      refine hspace a (List.mem_of_getLast? ha) ?_
      rwa [Option.mem_unique ha hb]
    · have hmem : a ∈ normalizedCps cps ∧ b ∈ normalizedCps cps :=
        ⟨hab.subset (by simp), hab.subset (by simp)⟩
      refine hspace b hmem.2 ?_
      rintro rfl
      rw [(passable_normalizedCps h a hmem.1).2 ha, hN, infix_endedCps_iff (by decide)] at hab
      exact not_infix_collapsedCps hab
    · refine hspace a (hap.subset (by simp)) ?_
      rintro rfl
      exact hdouble p hp ((infix_mark_normalizedCps_iff hp).mp hap)
    · obtain ⟨hq32, hq46⟩ := of_mem_quoteCps q hq
      rw [hN, infix_endedCps_iff (by simpa using hq46),
        infix_collapsedCps_iff (by simp) (by simpa using hq32.symm)]
      exact not_infix_dedupedCps q hq
    · obtain ⟨b, hb, -, hterm⟩ := hlast
      exact ⟨b, hb, hterm⟩

/-! ### Once more -/

theorem count_rdropWhile (hp : p ≠ 32) (cps : List ℕ) :
    (cps.rdropWhile (· == 32)).count p = cps.count p := by
  have htail : (cps.rtakeWhile (· == 32)).count p = 0 := by
    rw [List.count_eq_zero]
    intro hmem
    have hblank : (p == 32) = true := @List.mem_rtakeWhile_imp ℕ (· == 32) cps p hmem
    exact hp (beq_iff_eq.mp hblank)
  have hsplit := congrArg (List.count p) (@List.rdropWhile_append_rtakeWhile ℕ (· == 32) cps)
  rwa [List.count_append, htail, Nat.add_zero] at hsplit

theorem count_dedupe {a : ℕ} (hp : p ≠ a) (cps : List ℕ) : (dedupe a cps).count p = cps.count p := by
  rw [dedupe_eq_squeeze]
  exact @count_squeeze ℕ (· == a) a p _ (beq_eq_false_iff_ne.mpr hp) (beq_self_eq_true a) false cps

/-- The letter `a` comes in with all that is spelled, and stays. -/
theorem count_normalizedCps (cps : List ℕ) :
    (spelledCps cps).count 97 ≤ (normalizedCps cps).count 97 := by
  have hended : ∀ cps : List ℕ, cps.count 97 ≤ (endedCps cps).count 97 := by
    intro cps
    rcases endedCps_cases cps with ⟨-, hcps⟩ | hcps
    · rw [hcps]
    · rw [hcps]
      exact List.Sublist.count_le 97 (List.sublist_append_left cps [46])
  refine le_trans (le_of_eq ?_) (hended _)
  rw [collapsedCps, count_rdropWhile (by decide),
    @count_squeeze ℕ (· == 32) 32 97 _ (by decide) (by decide), dedupedCps, count_dedupe (by decide),
    count_dedupe (by decide), count_dedupe (by decide), tightenedCps_eq, count_tighten (by decide)]

/-- **A normal form** stays if there is nothing to spell in it. -/
theorem normalizedCps_eq_self_iff (hnormal : NormalForm cps) :
    normalizedCps cps = cps ↔ ∀ s ∈ asciiPairs spellings, ¬ s.1 <:+: cps := by
  constructor
  · intro heq s hs hin
    have hpairs : ∀ s ∈ asciiPairs spellings, s.1 ≠ [] ∧ 97 ∉ s.1 ∧ 97 ∈ s.2 := by decide
    have hlt := count_lt_replaceEach hpairs ⟨s, hs, hin⟩
    have hle := count_normalizedCps cps
    rw [heq] at hle
    rw [spelledCps] at hle
    omega
  · intro hspell
    have hsp : cpIsSpace 32 = true := by decide
    have hpair : ¬ [32, 32] <:+: cps := by
      intro hin
      exact absurd (hnormal.single 32 32 hin hsp) (by decide)
    have hhead : 32 ∉ cps.head? := fun hin => absurd (hnormal.head 32 hin) (by decide)
    have hquote : ∀ q ∈ quoteCps, dedupe q cps = cps := by
      intro q hq
      rw [dedupe_eq_squeeze]
      exact squeeze_eq_self (fun x _ hx => beq_iff_eq.mp hx) (hnormal.unpaired q hq) (by simp)
    have htight : tightenedCps cps = cps := by
      rw [tightenedCps_eq]
      refine tighten_eq_self fun p hp hin => ?_
      exact absurd (hnormal.tight 32 p hp hin) (by decide)
    have hcollapsed : collapsedCps cps = cps := by
      have hsqueeze : squeeze (· == 32) 32 true cps = cps :=
        squeeze_eq_self (fun x _ hx => beq_iff_eq.mp hx) hpair fun _ => hhead
      rw [collapsedCps, hsqueeze, List.rdropWhile_eq_self_iff]
      intro hne hlast
      have hend := hnormal.last _ (List.getLast?_eq_some_getLast hne)
      rw [beq_iff_eq.mp hlast] at hend
      exact absurd hend (by decide)
    have hended : endedCps cps = cps := by
      obtain ⟨a, ha, hterm⟩ := hnormal.ended
      rw [Option.mem_def] at ha
      rw [endedCps, ha]
      exact if_pos hterm
    rw [normalizedCps, spelledCps, replaceEach_eq_self hspell, htight, dedupedCps,
      hquote 34 (by decide), hquote 39 (by decide), hquote 96 (by decide), hcollapsed, hended]

/-! ### In the text -/

/-- What comes in has no two spaces, and a mark not at its start. -/
theorem spacing_spellings : ∀ p ∈ markCps, ∀ s ∈ asciiPairs spellings, Spacing 32 p s.1 s.2 := by
  intro p hp s hs
  have hall : ∀ p ∈ markCps, ∀ s ∈ asciiPairs spellings, (32 ∉ s.1 ∧ s.1 ≠ [] ∧
      ∀ h ∈ s.1.head?, h ≠ p ∧ h ∉ s.1.tail) ∧ (32 ∈ s.2.getLast? ∧ ∃ c ∈ s.2.dropLast, c ≠ 32) ∧
        ¬ [32, 32] <:+: s.2 ∧ ¬ [32, p] <+: s.2 ∧ ¬ [p] <+: s.2 := by decide
  obtain ⟨⟨hsp, hne, hhead⟩, ⟨hlast, hblank⟩, hsingle, hstart⟩ := hall p hp s hs
  refine ⟨hsp, ?_, ?_, hsingle, hstart⟩
  · obtain ⟨x, t, hx⟩ := List.exists_cons_of_ne_nil hne
    rw [hx] at hhead
    exact ⟨x, t, hx, hhead x rfl⟩
  · exact ⟨s.2.dropLast, (List.dropLast_append_getLast? 32 hlast).symm, hblank⟩

theorem doubled_spelledCps_iff (hp : p ∈ markCps) : Doubled 32 p (spelledCps cps) ↔
    Doubled 32 p cps ∨ ∃ s ∈ asciiPairs spellings, s.1 ++ [32, p] <:+: cps := by
  have hapart : ∀ p ∈ markCps, (asciiPairs spellings).Pairwise fun s s' =>
      Apart (s'.1 ++ [32, p]) s.1 ∧ Apart (s'.1 ++ [32, p]) s.2 := by decide
  exact doubled_replaceEach_iff (spacing_spellings p hp) (hapart p hp)

/-- **What there is to spell in the result** had spaces in the text. -/
theorem exists_infix_normalizedCps_iff : (∃ s ∈ asciiPairs spellings, s.1 <:+: normalizedCps cps) ↔
    ∃ q ∈ looseForms, q <:+: cps := by
  have hpats : ∀ s ∈ asciiPairs spellings, s.1 ≠ [] ∧ 32 ∉ s.1 ∧ (∀ x ∈ quoteCps, x ∉ s.1) ∧
      46 ∉ s.1.getLast? := by decide
  have hself : ∀ s ∈ asciiPairs spellings, ∀ s' ∈ asciiPairs spellings, s'.1 ≠ [] ∧
      Apart s.1 s'.2 := by decide
  have hloose : ∀ q ∈ looseForms, ∀ s ∈ asciiPairs spellings, s.1 ≠ [] ∧ Apart q s.1 ∧
      Apart q s.2 := by decide
  have hstays : ∀ q ∈ looseForms, q <:+: spelledCps cps ↔ q <:+: cps :=
    fun q hq => infix_replaceEach_iff (hloose q hq)
  constructor
  · rintro ⟨s, hs, hin⟩
    obtain ⟨hne, hsp, hquotes, hlast⟩ := hpats s hs
    obtain ⟨q, hq, hin⟩ := (infix_normalizedCps_iff hne hsp hquotes hlast).mp hin
    by_cases hqs : q = s.1
    · rw [hqs] at hin
      exact absurd hin (not_infix_replaceEach_of_apart hs (hself s hs))
    · have hmem : q ∈ looseForms := List.mem_flatMap.mpr ⟨s, hs, by simp [hq, hqs]⟩
      exact ⟨q, hmem, (hstays q hmem).mp hin⟩
  · rintro ⟨q, hmem, hin⟩
    obtain ⟨s, hs, hq⟩ := List.mem_flatMap.mp hmem
    obtain ⟨hne, hsp, hquotes, hlast⟩ := hpats s hs
    refine ⟨s, hs, (infix_normalizedCps_iff hne hsp hquotes hlast).mpr ⟨q, ?_, ?_⟩⟩
    · exact (List.mem_filter.mp hq).1
    · exact (hstays q hmem).mpr hin

/-- **Over code points**: a normal form that stays, unless the text is spoiled. -/
theorem settles_normalizedCps_iff (h : ∀ cp ∈ cps, Passable cp) :
    (NormalForm (normalizedCps cps) ∧ normalizedCps (normalizedCps cps) = normalizedCps cps) ↔
      ¬ Spoiled cps := by
  have hdouble : NormalForm (normalizedCps cps) ↔ ¬ ∃ p ∈ markCps, Doubled 32 p cps ∨
      ∃ s ∈ asciiPairs spellings, s.1 ++ [32, p] <:+: cps := by
    rw [normalForm_normalizedCps_iff h]
    push Not
    refine forall₂_congr fun p hp => ?_
    rw [doubled_spelledCps_iff hp]
    push Not
    rfl
  rw [Spoiled, not_or, ← hdouble, ← exists_infix_normalizedCps_iff]
  refine and_congr_right fun hnormal => ?_
  rw [normalizedCps_eq_self_iff hnormal]
  push Not
  rfl

end NormalForm

/-! ### As texts -/

/-- The code points that the passes leave are settled. -/
theorem settled_normalizedCps {text : List UInt8} :
    ∀ cp ∈ normalizedCps (filteredCps text), cp < 0x200000 ∧ Settled cp := by
  have hinserted : ∀ cp ∈ insertedCps, cp < 0x200000 ∧ Settled cp := by decide +kernel
  intro cp hcp
  rcases mem_normalizedCps hcp with hcp | hcp
  · exact ⟨lt_of_mem_filteredCps hcp, settled_of_mem_filteredCps hcp⟩
  · exact hinserted cp hcp

theorem normalizedText_eq (text : List UInt8) :
    normalizedText text = cpsToUtf8 (normalizedCps (filteredCps text)) :=
  normalizedString_cpsToUtf8 fun _ hcp =>
    passable_of_settled (lt_of_mem_filteredCps hcp) (settled_of_mem_filteredCps hcp)

theorem cpsToUtf8_injOn {cps cps' : List ℕ} (h : ∀ cp ∈ cps, cp < 0x200000)
    (h' : ∀ cp ∈ cps', cp < 0x200000) (heq : cpsToUtf8 cps = cpsToUtf8 cps') : cps = cps' := by
  rw [← utf8ToCps_cpsToUtf8 h, heq, utf8ToCps_cpsToUtf8 h']

/-- **A text is preprocessed to a normal form** that stays if it is not spoiled, in a supported
language. -/
theorem settles_iff (text : List UInt8) (language : String) :
    (∃ r, preprocessText text language "none" = .ok r ∧ NormalForm (utf8ToCps r) ∧
        preprocessText r language "none" = .ok r) ↔
      language ∈ supportedLanguages ∧ ¬ Spoiled (filteredCps text) := by
  by_cases hlang : language ∈ supportedLanguages
  · have hok : ∀ t, preprocessText t language "none" = .ok (normalizedText t) := by
      intro t
      rw [preprocessText, if_neg (not_not.mpr hlang)]
      rfl
    have hpassable : ∀ cp ∈ filteredCps text, Passable cp := fun cp hcp =>
      passable_of_settled (lt_of_mem_filteredCps hcp) (settled_of_mem_filteredCps hcp)
    have hsettled := @settled_normalizedCps text
    have hlt : ∀ cp ∈ normalizedCps (filteredCps text), cp < 0x200000 :=
      fun cp hcp => (hsettled cp hcp).1
    have hback : filteredCps (normalizedText text) = normalizedCps (filteredCps text) := by
      rw [normalizedText_eq, filteredCps_cpsToUtf8 hlt fun cp hcp => (hsettled cp hcp).2]
    have hagain : normalizedText (normalizedText text) = normalizedText text ↔
        normalizedCps (normalizedCps (filteredCps text)) = normalizedCps (filteredCps text) := by
      rw [normalizedText_eq (normalizedText text), hback, normalizedText_eq text]
      refine ⟨cpsToUtf8_injOn (fun cp hcp => ?_) hlt, fun heq => by rw [heq]⟩
      rw [← hback] at hcp
      exact (settled_normalizedCps cp hcp).1
    have hcps : utf8ToCps (normalizedText text) = normalizedCps (filteredCps text) := by
      rw [normalizedText_eq, utf8ToCps_cpsToUtf8 hlt]
    rw [← settles_normalizedCps_iff hpassable, ← hagain, ← hcps]
    simp [hok, hlang]
  · simp [preprocessText, hlang]

/-- One of the two spaces in `a  ,b` is in the result, and `e.g. ,x` becomes an abbreviation that is
spelled by the next call. -/
theorem not_forall_settles :
    preprocessText (bytesOf "a  ,b") "en" "none" = .ok (bytesOf "a ,b.") ∧
      preprocessText (bytesOf "e.g. ,x") "en" "none" = .ok (bytesOf "e.g.,x.") ∧
      preprocessText (bytesOf "e.g.,x.") "en" "none" = .ok (bytesOf "for example, x.") ∧
      ¬ ∀ text, ∃ r, preprocessText text "en" "none" = .ok r ∧ NormalForm (utf8ToCps r) ∧
        preprocessText r "en" "none" = .ok r := by
  have hmark : preprocessText (bytesOf "a  ,b") "en" "none" = .ok (bytesOf "a ,b.") := by
    decide +kernel
  refine ⟨hmark, by decide +kernel, by decide +kernel, fun h => ?_⟩
  obtain ⟨r, hr, hnormal, -⟩ := h (bytesOf "a  ,b")
  rw [hmark, Except.ok.injEq] at hr
  subst hr
  have hcps : utf8ToCps (bytesOf "a ,b.") = [97, 32, 44, 98, 46] := by decide +kernel
  have hsp := hnormal.tight 32 44 (by decide) (by rw [hcps]; exact ⟨[97], [98, 46], rfl⟩)
  exact absurd hsp (by decide)

end Supertonic

end WhisperCpp
