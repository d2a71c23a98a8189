import WhisperCpp.Library.Replace

/-!
# Lists that do not overlap

Where a list can share nothing with a pattern nor with what is put in for it, replacing neither makes
nor destroys an occurrence of the list. Of what does share something the example needed is that of two
spaces in front of a mark.

## Main definitions

* `Apart` — two lists of which no end is a start of the other
* `Doubled` — two spaces in front of a mark

## Main results

* `eq_append_of_replaceAll` — where a cut of the result comes from
* `infix_replaceAll_iff`, `not_infix_replaceAll_of_apart`
* `doubled_replaceAll_iff`
-/

namespace Replace

variable {α : Type*} [DecidableEq α]

/-- No end of `q` and `r` are comparable. -/
def Clear (q r : List α) : Prop := ∀ x ∈ q.tails, x ≠ [] → ¬ x <+: r ∧ ¬ r <+: x

/-- An occurrence of one list and one of the other share nothing. -/
def Apart (q r : List α) : Prop := Clear q r ∧ Clear r q

instance (q r : List α) : Decidable (Clear q r) :=
  inferInstanceAs (Decidable (∀ x ∈ q.tails, x ≠ [] → ¬ x <+: r ∧ ¬ r <+: x))

instance (q r : List α) : Decidable (Apart q r) := inferInstanceAs (Decidable (_ ∧ _))

section Occurrences

variable {pat rep q r s t u v : List α} {a c sp p : α} (hpat : pat ≠ [])

omit [DecidableEq α] in
theorem Clear.of_cons (h : Clear (c :: q) r) : Clear q r := by
  intro x hx
  exact h x ((List.mem_tails _ _).mpr (((List.mem_tails _ _).mp hx).trans (List.suffix_cons c q)))

omit [DecidableEq α] in
theorem Clear.incomparable (h : Clear q r) (hne : q ≠ []) : ¬ q <+: r ∧ ¬ r <+: q :=
  h q ((List.mem_tails _ _).mpr (List.suffix_refl q)) hne

omit [DecidableEq α] in
theorem Clear.not_prefix_append (h : Clear q r) (hne : q ≠ []) (t : List α) : ¬ q <+: r ++ t := by
  intro hpre
  rcases prefix_append_cases hpre with hq | ⟨x, rfl, -⟩
  · exact (h.incomparable hne).1 hq
  · exact (h.incomparable hne).2 (List.prefix_append r x)

omit [DecidableEq α] in
theorem Clear.infix_append_iff (h : Clear r q) : q <:+: r ++ t ↔ q <:+: t := by
  induction r with
  | nil => rfl
  | cons c r ih =>
    rw [List.cons_append, List.infix_cons_iff, ih h.of_cons, or_iff_right_iff_imp]
    intro hpre
    rw [← List.cons_append] at hpre
    have hclear := h.incomparable (List.cons_ne_nil c r)
    rcases prefix_append_cases hpre with hq | ⟨x, rfl, -⟩
    · exact absurd hq hclear.2
    · exact absurd (List.prefix_append (c :: r) x) hclear.1

include hpat

theorem Clear.prefix_of_replaceAll (h : Clear q rep) (hpre : q <+: replaceAll pat rep s) :
    q <+: s := by
  induction s using replace_induction hpat generalizing q with
  | nil => rwa [replaceAll_nil] at hpre
  | found v ih =>
    rw [replaceAll_pattern hpat] at hpre
    by_cases hne : q = []
    · rw [hne]
      exact List.nil_prefix
    · exact absurd hpre (h.not_prefix_append hne _)
  | other c s hnot ih =>
    rw [replaceAll_cons hnot] at hpre
    cases q with
    | nil => exact List.nil_prefix
    | cons x q =>
      obtain ⟨rfl, hq⟩ := List.cons_prefix_cons.mp hpre
      exact List.cons_prefix_cons.mpr ⟨rfl, ih h.of_cons hq⟩

theorem Clear.prefix_replaceAll (h : Clear q pat) (hpre : q <+: s) :
    q <+: replaceAll pat rep s := by
  induction s using replace_induction hpat generalizing q with
  | nil => rwa [replaceAll_nil]
  | found v ih =>
    by_cases hne : q = []
    · rw [hne]
      exact List.nil_prefix
    · exact absurd hpre (h.not_prefix_append hne v)
  | other c s hnot ih =>
    rw [replaceAll_cons hnot]
    cases q with
    | nil => exact List.nil_prefix
    | cons x q =>
      obtain ⟨rfl, hq⟩ := List.cons_prefix_cons.mp hpre
      exact List.cons_prefix_cons.mpr ⟨rfl, ih h.of_cons hq⟩

theorem Apart.infix_of_replaceAll (h : Apart q rep) (hin : q <:+: replaceAll pat rep s) :
    q <:+: s := by
  induction s using replace_induction hpat with
  | nil => rwa [replaceAll_nil] at hin
  | found v ih =>
    rw [replaceAll_pattern hpat, h.2.infix_append_iff] at hin
    exact List.infix_append_of_infix_right (ih hin)
  | other c s hnot ih =>
    rw [replaceAll_cons hnot, List.infix_cons_iff, ← replaceAll_cons hnot] at hin
    rcases hin with hpre | hin
    · exact (h.1.prefix_of_replaceAll hpat hpre).isInfix
    · exact (ih hin).trans (List.suffix_cons c s).isInfix

theorem Apart.infix_replaceAll (h : Apart q pat) (hin : q <:+: s) :
    q <:+: replaceAll pat rep s := by
  induction s using replace_induction hpat with
  | nil => rwa [replaceAll_nil]
  | found v ih =>
    rw [h.2.infix_append_iff] at hin
    rw [replaceAll_pattern hpat]
    exact List.infix_append_of_infix_right (ih hin)
  | other c s hnot ih =>
    rcases List.infix_cons_iff.mp hin with hpre | hin
    · exact (h.1.prefix_replaceAll hpat hpre).isInfix
    · rw [replaceAll_cons hnot]
      exact (ih hin).trans (List.suffix_cons c _).isInfix

/-- **What shares nothing** is in the result where it was in the list. -/
theorem infix_replaceAll_iff (hq : Apart q pat) (hrep : Apart q rep) :
    q <:+: replaceAll pat rep s ↔ q <:+: s :=
  ⟨hrep.infix_of_replaceAll hpat, hq.infix_replaceAll hpat⟩

theorem not_infix_replaceAll_of_apart (h : Apart pat rep) : ¬ pat <:+: replaceAll pat rep s := by
  induction s using replace_induction hpat with
  | nil => simpa using hpat
  | found v ih => rwa [replaceAll_pattern hpat, h.2.infix_append_iff]
  | other c s hnot ih =>
    rw [replaceAll_cons hnot, List.infix_cons_iff, ← replaceAll_cons hnot, not_or]
    exact ⟨fun hpre => hnot (h.1.prefix_of_replaceAll hpat hpre), ih⟩

/-- **A cut of the result** is one of the list, or in the middle of what was put in. -/
theorem eq_append_of_replaceAll (h : replaceAll pat rep s = u ++ v) :
    (∃ u' v', s = u' ++ v' ∧ replaceAll pat rep u' = u ∧ replaceAll pat rep v' = v) ∨
      ∃ u' v' r r', s = u' ++ (pat ++ v') ∧ rep = r ++ r' ∧ r ≠ [] ∧ r' ≠ [] ∧
        u = replaceAll pat rep u' ++ r ∧ v = r' ++ replaceAll pat rep v' := by
  induction s using replace_induction hpat generalizing u with
  | nil =>
    rw [replaceAll_nil] at h
    obtain ⟨rfl, rfl⟩ := List.append_eq_nil_iff.mp h.symm
    exact .inl ⟨[], [], rfl, replaceAll_nil, replaceAll_nil⟩
  | found w ih =>
    rw [replaceAll_pattern hpat] at h
    rcases List.append_eq_append_iff.mp h with ⟨u, rfl, hw⟩ | ⟨r', hrep, rfl⟩
    · rcases ih hw with ⟨u', v', rfl, rfl, rfl⟩ | ⟨u', v', r, r', rfl, hr, hne, hne', rfl, rfl⟩
      · exact .inl ⟨pat ++ u', v', by simp, replaceAll_pattern hpat u', rfl⟩
      · refine .inr ⟨pat ++ u', v', r, r', by simp, hr, hne, hne', ?_, rfl⟩
        rw [replaceAll_pattern hpat, List.append_assoc]
    · by_cases hr : u = []
      · refine .inl ⟨[], pat ++ w, rfl, by rw [hr, replaceAll_nil], ?_⟩
        rw [replaceAll_pattern hpat, hrep, hr, List.nil_append]
      · by_cases hr' : r' = []
        · rw [hr', List.append_nil] at hrep
          refine .inl ⟨pat, w, rfl, ?_, by rw [hr', List.nil_append]⟩
          have hone := @replaceAll_pattern α _ pat rep hpat []
          rw [List.append_nil, replaceAll_nil, List.append_nil] at hone
          exact hone.trans hrep
        · exact .inr ⟨[], w, u, r', rfl, hrep, hr, hr', by simp, rfl⟩
  | other c s hnot ih =>
    rw [replaceAll_cons hnot] at h
    cases u with
    | nil => exact .inl ⟨[], c :: s, rfl, replaceAll_nil, by rw [replaceAll_cons hnot, h]; rfl⟩
    | cons x u =>
      rw [List.cons_append, List.cons.injEq] at h
      obtain ⟨rfl, hs⟩ := h
      have hstart : ∀ u' w, s = u' ++ w → ¬ pat <+: c :: u' := by
        rintro u' w rfl hpre
        exact hnot (hpre.trans (List.prefix_append (c :: u') w))
      rcases ih hs with ⟨u', v', hsplit, rfl, rfl⟩ | ⟨u', v', r, r', hsplit, hr, hne, hne', rfl, rfl⟩
      · refine .inl ⟨c :: u', v', by rw [hsplit, List.cons_append], ?_, rfl⟩
        rw [replaceAll_cons (hstart u' v' hsplit)]
      · refine .inr ⟨c :: u', v', r, r', by rw [hsplit, List.cons_append], hr, hne, hne', ?_, rfl⟩
        rw [replaceAll_cons (hstart u' _ hsplit), List.cons_append]

end Occurrences

/-! ### Two spaces in front of a mark -/

/-- Two spaces in front of a mark, and not only spaces in front of them. -/
def Doubled (sp p : α) (s : List α) : Prop :=
  ∃ u v, s = u ++ sp :: sp :: p :: v ∧ ∃ c ∈ u, c ≠ sp

/-- What is put in ends with a space, and has no other two spaces nor a space and a mark. -/
structure Spacing (sp p : α) (pat rep : List α) : Prop where
  sp_not_mem : sp ∉ pat
  head : ∃ h t, pat = h :: t ∧ h ≠ p ∧ h ∉ t
  blank : ∃ r, rep = r ++ [sp] ∧ ∃ c ∈ r, c ≠ sp
  single : ¬ [sp, sp] <:+: rep
  start : ¬ [sp, p] <+: rep ∧ ¬ [p] <+: rep

section Doubled

variable {pat rep s u v : List α} {sp p c : α} (h : Spacing sp p pat rep)

include h

omit [DecidableEq α] in
theorem Spacing.ne_nil : pat ≠ [] := by
  obtain ⟨x, t, rfl, -⟩ := h.head
  exact List.cons_ne_nil x t

omit [DecidableEq α] in
/-- More than one letter is put in. -/
theorem Spacing.one_lt_length : 1 < rep.length := by
  obtain ⟨r, rfl, c, hc, -⟩ := h.blank
  have hpos := List.length_pos_of_mem hc
  simp only [List.length_append, List.length_singleton]
  omega

theorem Spacing.eq_nil (hs : replaceAll pat rep s = []) : s = [] := by
  have hlen := h.one_lt_length
  induction s using replace_induction h.ne_nil with
  | nil => rfl
  | found v =>
    rw [replaceAll_pattern h.ne_nil, List.append_eq_nil_iff] at hs
    simp [hs.1] at hlen
  | other c s hnot =>
    rw [replaceAll_cons hnot] at hs
    cases hs

theorem Spacing.eq_singleton (hs : replaceAll pat rep s = [sp]) : s = [sp] := by
  have hlen := h.one_lt_length
  induction s using replace_induction h.ne_nil with
  | nil =>
    rw [replaceAll_nil] at hs
    cases hs
  | found v =>
    rw [replaceAll_pattern h.ne_nil] at hs
    have hall := congrArg List.length hs
    simp only [List.length_append, List.length_singleton] at hall
    omega
  | other c s hnot =>
    rw [replaceAll_cons hnot, List.cons.injEq] at hs
    rw [hs.1, h.eq_nil hs.2]

/-- What starts with a mark has started with it. -/
theorem Spacing.of_mark (hs : replaceAll pat rep s = p :: v) : ∃ v', s = p :: v' := by
  obtain ⟨x, r, rfl⟩ := List.exists_cons_of_length_pos (Nat.zero_lt_of_lt h.one_lt_length)
  induction s using replace_induction h.ne_nil with
  | nil =>
    rw [replaceAll_nil] at hs
    cases hs
  | found w =>
    rw [replaceAll_pattern h.ne_nil, List.cons_append, List.cons.injEq] at hs
    exact absurd (List.cons_prefix_cons.mpr ⟨hs.1.symm, List.nil_prefix⟩) h.start.2
  | other c s hnot =>
    rw [replaceAll_cons hnot, List.cons.injEq] at hs
    exact ⟨s, by rw [hs.1]⟩

theorem Spacing.of_space_mark (hs : replaceAll pat rep s = sp :: p :: v) :
    ∃ v', s = sp :: p :: v' := by
  obtain ⟨x, r, rfl⟩ := List.exists_cons_of_length_pos (Nat.zero_lt_of_lt h.one_lt_length)
  induction s using replace_induction h.ne_nil with
  | nil =>
    rw [replaceAll_nil] at hs
    cases hs
  | found w =>
    rw [replaceAll_pattern h.ne_nil, List.cons_append, List.cons.injEq] at hs
    cases r with
    | nil => exact absurd h.one_lt_length (by simp)
    | cons y r =>
      rw [List.cons_append, List.cons.injEq] at hs
      refine absurd ?_ h.start.1
      rw [hs.1, hs.2.1]
      exact ⟨r, rfl⟩
  | other c s hnot =>
    rw [replaceAll_cons hnot, List.cons.injEq] at hs
    obtain ⟨v', rfl⟩ := h.of_mark hs.2
    exact ⟨v', by rw [hs.1]⟩

/-- Spaces alone stay. -/
theorem Spacing.exists_ne (hc : c ∈ replaceAll pat rep s) (hne : c ≠ sp) : ∃ x ∈ s, x ≠ sp := by
  by_contra hall
  push Not at hall
  rw [replaceAll_eq_self] at hc
  · exact hne (hall c hc)
  · intro hpat
    obtain ⟨x, t, rfl, -⟩ := h.head
    have hx := hall x (hpat.subset List.mem_cons_self)
    exact h.sp_not_mem (hx ▸ List.mem_cons_self)

theorem Spacing.replaceAll_space_mark (u v : List α) :
    replaceAll pat rep (u ++ sp :: p :: v) =
      replaceAll pat rep u ++ sp :: p :: replaceAll pat rep v := by
  have hmark : ¬ pat <+: p :: v := by
    obtain ⟨x, t, rfl, hne, -⟩ := h.head
    exact fun hpre => hne (List.cons_prefix_cons.mp hpre).1
  rw [replaceAll_append_cons h.ne_nil h.sp_not_mem, replaceAll_cons hmark]

/-- **Two spaces in front of a mark** were there, or come from what is put in. -/
theorem doubled_replaceAll_iff :
    Doubled sp p (replaceAll pat rep s) ↔ Doubled sp p s ∨ pat ++ [sp, p] <:+: s := by
  have hpat := h.ne_nil
  constructor
  · rintro ⟨u, v, hsplit, c, hc, hne⟩
    have hcut : replaceAll pat rep s = (u ++ [sp]) ++ sp :: p :: v := by simp [hsplit]
    rcases eq_append_of_replaceAll hpat hcut with
      ⟨u', v', rfl, hu, hv⟩ | ⟨u', v', r, r', -, hrep, hr, hr', hu, hv⟩
    · obtain ⟨v', rfl⟩ := h.of_space_mark hv
      rcases eq_append_of_replaceAll hpat hu with
        ⟨u, w, rfl, rfl, hw⟩ | ⟨u, w, r, r', rfl, -, -, hr', -, hw⟩
      · rw [h.eq_singleton hw]
        exact .inl ⟨u, v', by simp, h.exists_ne hc hne⟩
      · -- the first space is the end of what was put in
        have hlen := congrArg List.length hw
        have hpos := List.length_pos_of_ne_nil hr'
        simp only [List.length_append, List.length_singleton] at hlen
        rw [h.eq_nil (List.length_eq_zero_iff.mp (show (replaceAll pat rep w).length = 0 by omega))]
        exact .inr ⟨u, v', by simp⟩
    · refine absurd ?_ h.single
      obtain ⟨y, r', rfl⟩ := List.exists_cons_of_ne_nil hr'
      rcases List.eq_nil_or_concat r with rfl | ⟨r, x, rfl⟩
      · exact absurd rfl hr
      · rw [List.concat_eq_append] at hu hrep
        rw [← List.append_assoc] at hu
        have hlast := (List.append_inj' hu rfl).2
        rw [hrep, ← (List.cons.inj hv).1, ← (List.cons.inj hlast).1]
        exact ⟨r, r', by simp⟩
  · obtain ⟨r, hrep, hblank⟩ := h.blank
    rintro (⟨u, v, rfl, hu⟩ | ⟨u, v, rfl⟩)
    · refine ⟨replaceAll pat rep u, replaceAll pat rep v, ?_, ?_⟩
      · have hspaces := h.replaceAll_space_mark (u ++ [sp]) v
        rw [replaceAll_append_cons hpat h.sp_not_mem u [], replaceAll_nil] at hspaces
        simpa using hspaces
      · refine exists_mem_replaceAll hpat ?_ hu
        obtain ⟨c, hc, hne⟩ := hblank
        exact ⟨c, by simp [hrep, hc], hne⟩
    · refine ⟨replaceAll pat rep u ++ r, replaceAll pat rep v, ?_, ?_⟩
      · have hspaces := h.replaceAll_space_mark (u ++ pat) v
        obtain ⟨x, t, rfl, -, hx⟩ := h.head
        rw [replaceAll_append hpat (by simpa using hx) u t] at hspaces
        have hone := @replaceAll_pattern α _ (x :: t) rep hpat []
        rw [List.append_nil, replaceAll_nil, List.append_nil] at hone
        rw [hone, hrep] at hspaces
        simpa [hrep] using hspaces
      · obtain ⟨c, hc, hne⟩ := hblank
        exact ⟨c, List.mem_append_right _ hc, hne⟩

end Doubled

/-! ### One pair after another -/

section Each

variable {ps : List (List α × List α)} {x : List α × List α} {q s : List α} {sp p : α}

theorem infix_replaceEach_iff (h : ∀ x ∈ ps, x.1 ≠ [] ∧ Apart q x.1 ∧ Apart q x.2) :
    q <:+: replaceEach ps s ↔ q <:+: s := by
  induction ps generalizing s with
  | nil => rfl
  | cons x ps ih =>
    obtain ⟨⟨hne, hpat, hrep⟩, hps⟩ := List.forall_mem_cons.mp h
    rw [replaceEach_cons, ih hps, infix_replaceAll_iff hne hpat hrep]

theorem not_infix_replaceEach_of_apart (hx : x ∈ ps)
    (h : ∀ y ∈ ps, y.1 ≠ [] ∧ Apart x.1 y.2) : ¬ x.1 <:+: replaceEach ps s := by
  have hlater : ∀ after : List (List α × List α), (∀ y ∈ after, y.1 ≠ [] ∧ Apart x.1 y.2) →
      ∀ t, ¬ x.1 <:+: t → ¬ x.1 <:+: replaceEach after t := by
    intro after
    induction after with
    | nil => exact fun _ t ht => ht
    | cons y after ih =>
      intro hafter t ht
      obtain ⟨⟨hne, hy⟩, hafter⟩ := List.forall_mem_cons.mp hafter
      exact ih hafter _ fun hin => ht (hy.infix_of_replaceAll hne hin)
  obtain ⟨hne, hself⟩ := h x hx
  obtain ⟨before, after, rfl⟩ := List.append_of_mem hx
  rw [replaceEach_append, replaceEach_cons]
  refine hlater after (fun y hy => h y ?_) _ (not_infix_replaceAll_of_apart hne hself)
  exact List.mem_append_right _ (List.mem_cons_of_mem x hy)

/-- **Two spaces in front of a mark**, or a pattern, a space and a mark. -/
theorem doubled_replaceEach_iff (h : ∀ x ∈ ps, Spacing sp p x.1 x.2)
    (hapart : ps.Pairwise fun x y => Apart (y.1 ++ [sp, p]) x.1 ∧ Apart (y.1 ++ [sp, p]) x.2) :
    Doubled sp p (replaceEach ps s) ↔ Doubled sp p s ∨ ∃ x ∈ ps, x.1 ++ [sp, p] <:+: s := by
  induction ps generalizing s with
  | nil => simp [replaceEach]
  | cons x ps ih =>
    obtain ⟨hx, hps⟩ := List.forall_mem_cons.mp h
    obtain ⟨hhead, htail⟩ := List.pairwise_cons.mp hapart
    have hothers : (∃ y ∈ ps, y.1 ++ [sp, p] <:+: replaceAll x.1 x.2 s) ↔
        ∃ y ∈ ps, y.1 ++ [sp, p] <:+: s := by
      refine exists_congr fun y => and_congr_right fun hy => ?_
      exact infix_replaceAll_iff hx.ne_nil (hhead y hy).1 (hhead y hy).2
    rw [replaceEach_cons, ih hps htail, hothers, doubled_replaceAll_iff hx, List.exists_mem_cons_iff,
      or_assoc]

end Each

end Replace
