import Mathlib.Data.List.Count
import Mathlib.Data.List.Infix
import WhisperCpp.Library.Replace

/-!
# Spaces in front of marks

A space directly in front of a mark is taken out, one for each mark. What is found in the result was
there with or without these spaces.

## Main definitions

* `tighten`
* `loosen` — what a list can come from

## Main results

* `replaceAll_eq_tighten`, `tighten_tighten` — one mark after another
* `infix_tighten_iff` — what is found
* `tighten_append_cons`, `eq_append_of_tighten` — a space in front of a mark that is left
-/

namespace Tighten

variable {α : Type*} [DecidableEq α] {sp : α} {marks : List α}

/-- One space is taken out in front of every mark. -/
def tighten (sp : α) (marks : List α) : List α → List α
  | [] => []
  | [c] => [c]
  | c :: d :: s =>
    if c = sp ∧ d ∈ marks then d :: tighten sp marks s else c :: tighten sp marks (d :: s)

/-- The lists that become `q`. -/
def loosen (sp : α) (marks : List α) : List α → List (List α)
  | [] => [[]]
  | c :: q =>
    (loosen sp marks q).map (c :: ·) ++
      if c ∈ marks then (loosen sp marks q).map fun s => sp :: c :: s else []

section Lemmas

variable {s t u v q : List α} {a c p : α}

@[simp] theorem tighten_nil : tighten sp marks [] = [] := rfl

theorem tighten_mark (hp : p ∈ marks) (s : List α) :
    tighten sp marks (sp :: p :: s) = p :: tighten sp marks s := by
  rw [tighten, if_pos ⟨rfl, hp⟩]

theorem tighten_cons (h : c = sp → ∀ d ∈ s.head?, d ∉ marks) :
    tighten sp marks (c :: s) = c :: tighten sp marks s := by
  cases s with
  | nil => rfl
  | cons d s => rw [tighten, if_neg fun hd => h hd.1 d rfl hd.2]

/-- A list is made of marks with a space, and of the rest. -/
theorem tighten_induction {P : List α → Prop} (sp : α) (marks : List α) (nil : P [])
    (mark : ∀ p s, p ∈ marks → P s → P (sp :: p :: s))
    (other : ∀ c s, (c = sp → ∀ d ∈ s.head?, d ∉ marks) → P s → P (c :: s)) (s : List α) : P s := by
  induction s using tighten.induct sp marks with
  | case1 => exact nil
  | case2 c => exact other c [] (fun _ => nofun) nil
  | case3 c d s h ih =>
    obtain ⟨rfl, hd⟩ := h
    exact mark d s hd ih
  | case4 c d s h ih =>
    refine other c (d :: s) (fun hc e he hmem => h ⟨hc, ?_⟩) ih
    rwa [Option.some.inj he]

theorem replaceAll_eq_tighten (hp : p ≠ sp) (s : List α) :
    Replace.replaceAll [sp, p] [p] s = tighten sp [p] s := by
  induction s using tighten_induction sp [p] with
  | nil => rw [Replace.replaceAll_nil, tighten_nil]
  | mark d s hd ih =>
    obtain rfl := List.mem_singleton.mp hd
    rw [tighten_mark hd, ← ih]
    exact Replace.replaceAll_pattern (by simp) s
  | other c s h ih =>
    rw [tighten_cons h, ← ih, Replace.replaceAll_cons]
    intro hpre
    obtain ⟨rfl, t, rfl⟩ := List.cons_prefix_cons.mp hpre
    exact h rfl p rfl List.mem_cons_self

theorem head?_tighten (h : a ∈ (tighten sp marks s).head?) : a ∈ s.head? ∨ a ∈ marks := by
  induction s using tighten_induction sp marks with
  | nil => cases h
  | mark p s hp ih =>
    rw [tighten_mark hp] at h
    exact .inr (Option.some.inj h ▸ hp)
  | other c s hc ih =>
    rw [tighten_cons hc] at h
    exact .inl h

/-- **One after another.** -/
theorem tighten_tighten {marks' : List α} (hsp : sp ∉ marks) (hsp' : sp ∉ marks')
    (hdisj : ∀ p ∈ marks', p ∉ marks) (s : List α) :
    tighten sp marks' (tighten sp marks s) = tighten sp (marks ++ marks') s := by
  induction s using tighten_induction sp marks with
  | nil => rfl
  | mark p s hp ih =>
    have hne : p ≠ sp := fun h => hsp (h ▸ hp)
    rw [tighten_mark hp, tighten_mark (List.mem_append_left marks' hp), ← ih,
      tighten_cons fun h => absurd h hne]
  | other c s h ih =>
    rw [tighten_cons h]
    by_cases hc : c = sp
    · by_cases hmark : ∃ d ∈ s.head?, d ∈ marks'
      · -- the space is taken out in front of one of `marks'`
        obtain ⟨d, hd, hmem⟩ := hmark
        obtain ⟨s, rfl⟩ := List.head?_eq_some_iff.mp hd
        have hne : d ≠ sp := fun h => hsp' (h ▸ hmem)
        have hcons : ∀ marks (s : List α), tighten sp marks (d :: s) = d :: tighten sp marks s :=
          fun marks s => tighten_cons fun h => absurd h hne
        rw [hcons, hcons, hcons] at ih
        rw [hc, hcons, tighten_mark hmem, tighten_mark (List.mem_append_right marks hmem)]
        exact ih
      · have hnot : ∀ d ∈ s.head?, d ∉ marks' := fun d hd hmem => hmark ⟨d, hd, hmem⟩
        have hleft : ∀ d ∈ (tighten sp marks s).head?, d ∉ marks' := by
          intro d hd hmem
          exact (head?_tighten hd).elim (fun hd => hnot d hd hmem) (hdisj d hmem)
        rw [tighten_cons fun _ => hleft, ih, tighten_cons]
        intro _ d hd hmem
        exact (List.mem_append.mp hmem).elim (h hc d hd) (hnot d hd)
    · rw [tighten_cons fun h => absurd h hc, tighten_cons fun h => absurd h hc, ih]

/-- **The replacements**, one mark after another. -/
theorem replaceEach_eq_tighten (hsp : sp ∉ marks) (hnodup : marks.Nodup) (s : List α) :
    Replace.replaceEach (marks.map fun p => ([sp, p], [p])) s = tighten sp marks s := by
  have hfrom : ∀ done : List α, sp ∉ done → (∀ p ∈ marks, p ∉ done) →
      Replace.replaceEach (marks.map fun p => ([sp, p], [p])) (tighten sp done s) =
        tighten sp (done ++ marks) s := by
    induction marks with
    | nil => simp
    | cons p marks ih =>
      intro done hdone hdisj
      rw [List.mem_cons, not_or] at hsp
      obtain ⟨hp, hnodup⟩ := List.nodup_cons.mp hnodup
      obtain ⟨hpdone, hdisj⟩ := List.forall_mem_cons.mp hdisj
      rw [List.map_cons, Replace.replaceEach_cons, replaceAll_eq_tighten (Ne.symm hsp.1),
        tighten_tighten hdone (by simpa using hsp.1) (by simpa using hpdone),
        ih hsp.2 hnodup (done ++ [p]) (by simp [hdone, hsp.1]) ?_, List.append_assoc]
      · rfl
      · intro d hd
        simp only [List.mem_append, List.mem_singleton, not_or]
        exact ⟨hdisj d hd, fun h => hp (h ▸ hd)⟩
  have hnone : ∀ s : List α, tighten sp [] s = s := by
    intro s
    induction s using tighten_induction sp [] with
    | nil => rfl
    | mark p s hp ih => cases hp
    | other c s h ih => rw [tighten_cons h, ih]
  have hall := hfrom [] (by simp) (by simp)
  rwa [hnone] at hall

/-- What has no space in front of a mark stays. -/
theorem tighten_eq_self (h : ∀ p ∈ marks, ¬ [sp, p] <:+: s) : tighten sp marks s = s := by
  induction s using tighten_induction sp marks with
  | nil => rfl
  | mark p s hp ih => exact absurd ⟨[], s, rfl⟩ (h p hp)
  | other c s hc ih =>
    rw [tighten_cons hc, ih fun p hp hin => h p hp (hin.trans (List.suffix_cons c s).isInfix)]

theorem mem_tighten (ha : a ≠ sp) : a ∈ tighten sp marks s ↔ a ∈ s := by
  induction s using tighten_induction sp marks with
  | nil => rfl
  | mark p s hp ih => simp [tighten_mark hp, ih, ha]
  | other c s h ih => simp [tighten_cons h, ih]

theorem subset_tighten (s : List α) : tighten sp marks s ⊆ s := by
  induction s using tighten_induction sp marks with
  | nil => exact List.Subset.refl _
  | mark p s hp ih =>
    rw [tighten_mark hp]
    exact List.subset_cons_of_subset sp (List.cons_subset_cons p ih)
  | other c s h ih =>
    rw [tighten_cons h]
    exact List.cons_subset_cons c ih

theorem count_tighten (ha : a ≠ sp) (s : List α) :
    (tighten sp marks s).count a = s.count a := by
  induction s using tighten_induction sp marks with
  | nil => rfl
  | mark p s hp ih => simp [tighten_mark hp, List.count_cons, ih, ha.symm]
  | other c s h ih => simp [tighten_cons h, List.count_cons, ih]

/-- **Before what is no mark** a list may be cut. -/
theorem tighten_append_cons (hc : c ∉ marks) (u v : List α) :
    tighten sp marks (u ++ c :: v) = tighten sp marks u ++ tighten sp marks (c :: v) := by
  induction u using tighten_induction sp marks with
  | nil => rfl
  | mark p u hp ih =>
    rw [List.cons_append, List.cons_append, tighten_mark hp, tighten_mark hp, ih, List.cons_append]
  | other d u h ih =>
    rw [List.cons_append, tighten_cons h, tighten_cons, ih, List.cons_append]
    intro hd e he
    cases u with
    | nil => rwa [← Option.some.inj he]
    | cons x u => exact h hd e he

/-- **A space in front of a mark** that is left had another one behind it. -/
theorem eq_append_of_tighten (hp : p ∈ marks) (hsp : sp ∉ marks)
    (h : tighten sp marks s = u ++ sp :: p :: v) :
    ∃ u' v', s = u' ++ sp :: sp :: p :: v' ∧ tighten sp marks u' = u := by
  induction s using tighten_induction sp marks generalizing u with
  | nil => simp at h
  | mark d s hd ih =>
    rw [tighten_mark hd] at h
    cases u with
    | nil => exact absurd ((List.cons.inj h).1 ▸ hd) hsp
    | cons e u =>
      obtain ⟨rfl, hrest⟩ := List.cons.inj h
      obtain ⟨u', v', rfl, rfl⟩ := ih hrest
      exact ⟨sp :: d :: u', v', rfl, tighten_mark hd u'⟩
  | other c s hc ih =>
    rw [tighten_cons hc] at h
    cases u with
    | nil =>
      obtain ⟨rfl, hrest⟩ := List.cons.inj h
      -- the mark is not the first of `s`, so there was a space
      cases s using tighten_induction c marks with
      | nil => cases hrest
      | mark d s hd ih =>
        rw [tighten_mark hd] at hrest
        rw [(List.cons.inj hrest).1]
        exact ⟨[], s, rfl, rfl⟩
      | other d s hd ih =>
        rw [tighten_cons hd] at hrest
        have heq := (List.cons.inj hrest).1
        exact absurd (heq ▸ hp) (hc rfl d rfl)
    | cons e u =>
      obtain ⟨rfl, hrest⟩ := List.cons.inj h
      obtain ⟨u', v', rfl, rfl⟩ := ih hrest
      refine ⟨c :: u', v', rfl, tighten_cons fun hsp d hd => hc hsp d ?_⟩
      cases u' with
      | nil => cases hd
      | cons x u' => exact hd

/-! ### What is found -/

theorem mem_loosen_cons : s ∈ loosen sp marks (c :: q) ↔
    (∃ t ∈ loosen sp marks q, c :: t = s) ∨
      (c ∈ marks ∧ ∃ t ∈ loosen sp marks q, sp :: c :: t = s) := by
  rw [loosen]
  split_ifs with hc <;> simp [hc]

theorem prefix_tighten_iff (hq : sp ∉ q) :
    q <+: tighten sp marks s ↔ ∃ q' ∈ loosen sp marks q, q' <+: s := by
  induction q generalizing s with
  | nil => simp [loosen]
  | cons c q ih =>
    rw [List.mem_cons, not_or] at hq
    obtain ⟨hc, hq⟩ := hq
    cases s using tighten_induction sp marks with
    | nil =>
      rw [tighten_nil, List.prefix_nil]
      refine iff_of_false (List.cons_ne_nil c q) ?_
      rintro ⟨q', hq', hpre⟩
      rw [List.prefix_nil] at hpre
      subst hpre
      rcases mem_loosen_cons.mp hq' with ⟨t, -, ht⟩ | ⟨-, t, -, ht⟩ <;> cases ht
    | mark p s hp _ =>
      rw [tighten_mark hp, List.cons_prefix_cons, ih hq]
      constructor
      · rintro ⟨rfl, q', hq', hpre⟩
        refine ⟨sp :: c :: q', mem_loosen_cons.mpr (.inr ⟨hp, q', hq', rfl⟩), ?_⟩
        exact List.cons_prefix_cons.mpr ⟨rfl, List.cons_prefix_cons.mpr ⟨rfl, hpre⟩⟩
      · rintro ⟨q', hq', hpre⟩
        rcases mem_loosen_cons.mp hq' with ⟨t, ht, rfl⟩ | ⟨-, t, ht, rfl⟩
        · exact absurd (List.cons_prefix_cons.mp hpre).1.symm hc
        · obtain ⟨-, hpre⟩ := List.cons_prefix_cons.mp hpre
          obtain ⟨rfl, hrest⟩ := List.cons_prefix_cons.mp hpre
          exact ⟨rfl, t, ht, hrest⟩
    | other d s hd _ =>
      rw [tighten_cons hd, List.cons_prefix_cons, ih hq]
      constructor
      · rintro ⟨rfl, q', hq', hpre⟩
        exact ⟨c :: q', mem_loosen_cons.mpr (.inl ⟨q', hq', rfl⟩),
          List.cons_prefix_cons.mpr ⟨rfl, hpre⟩⟩
      · rintro ⟨q', hq', hpre⟩
        rcases mem_loosen_cons.mp hq' with ⟨t, ht, rfl⟩ | ⟨hmark, t, ht, rfl⟩
        · obtain ⟨rfl, hrest⟩ := List.cons_prefix_cons.mp hpre
          exact ⟨rfl, t, ht, hrest⟩
        · obtain ⟨rfl, x, rfl⟩ := List.cons_prefix_cons.mp hpre
          exact absurd hmark (hd rfl c rfl)

/-- **What is found**, and has no space, was there with or without spaces in front of its marks. -/
theorem infix_tighten_iff (hsp : sp ∉ marks) (hq : sp ∉ q) :
    q <:+: tighten sp marks s ↔ ∃ q' ∈ loosen sp marks q, q' <:+: s := by
  induction s using tighten_induction sp marks with
  | nil =>
    have hpre := @prefix_tighten_iff α _ sp marks [] q hq
    simpa [List.infix_nil, List.prefix_nil] using hpre
  | mark p s hp ih =>
    have hfirst := @prefix_tighten_iff α _ sp marks (sp :: p :: s) q hq
    have hsecond := @prefix_tighten_iff α _ sp marks (p :: s) q hq
    rw [tighten_mark hp] at hfirst ⊢
    rw [tighten_cons fun (h : p = sp) => absurd (h ▸ hp) hsp] at hsecond
    rw [List.infix_cons_iff, ih]
    constructor
    · rintro (hpre | ⟨q', hq', hin⟩)
      · obtain ⟨q', hq', hpre⟩ := hfirst.mp hpre
        exact ⟨q', hq', hpre.isInfix⟩
      · exact ⟨q', hq', hin.trans (List.suffix_append [sp, p] s).isInfix⟩
    · rintro ⟨q', hq', hin⟩
      rcases List.infix_cons_iff.mp hin with hpre | hin
      · exact .inl (hfirst.mpr ⟨q', hq', hpre⟩)
      · rcases List.infix_cons_iff.mp hin with hpre | hin
        · exact .inl (hsecond.mpr ⟨q', hq', hpre⟩)
        · exact .inr ⟨q', hq', hin⟩
  | other c s hc ih =>
    have hfirst := @prefix_tighten_iff α _ sp marks (c :: s) q hq
    rw [tighten_cons hc] at hfirst ⊢
    rw [List.infix_cons_iff, hfirst, ih]
    constructor
    · rintro (⟨q', hq', hpre⟩ | ⟨q', hq', hin⟩)
      · exact ⟨q', hq', hpre.isInfix⟩
      · exact ⟨q', hq', List.infix_cons_iff.mpr (.inr hin)⟩
    · rintro ⟨q', hq', hin⟩
      rcases List.infix_cons_iff.mp hin with hpre | hin
      · exact .inl ⟨q', hq', hpre⟩
      · exact .inr ⟨q', hq', hin⟩

end Lemmas

end Tighten
