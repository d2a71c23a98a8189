import WhisperCpp.Library.Overlap
import WhisperCpp.Library.Squeeze
import WhisperCpp.Library.Tighten

/-!
# Spaces that come back

Taking one space from in front of a mark leaves one where there were two, and squeezing leaves it
unless it is at the start.

## Main definitions

* `Spaced` — a space in front of a mark

## Main results

* `spaced_tighten_iff`, `spaced_squeeze_iff` — where such a space comes from
* `infix_squeeze_iff_spaced` — where it stays
-/

namespace Spaces

open Replace Squeeze Tighten

variable {α : Type*} [DecidableEq α] {sp p a c : α} {s u v marks : List α}

/-- A space in front of a mark, and not only spaces in front of it. -/
def Spaced (sp p : α) (s : List α) : Prop := ∃ u v, s = u ++ sp :: p :: v ∧ ∃ c ∈ u, c ≠ sp

theorem spaced_tighten_iff (hp : p ∈ marks) (hsp : sp ∉ marks) :
    Spaced sp p (tighten sp marks s) ↔ Doubled sp p s := by
  have hne : p ≠ sp := by
    rintro rfl
    exact hsp hp
  constructor
  · rintro ⟨u, v, hsplit, c, hc, hcsp⟩
    obtain ⟨u', v', rfl, rfl⟩ := eq_append_of_tighten hp hsp hsplit
    exact ⟨u', v', rfl, c, subset_tighten u' hc, hcsp⟩
  · rintro ⟨u, v, rfl, c, hc, hcsp⟩
    refine ⟨tighten sp marks u, tighten sp marks v, ?_, c, (mem_tighten hcsp).mpr hc, hcsp⟩
    rw [tighten_append_cons hsp, tighten_cons (by simpa using hsp), tighten_mark hp]

/-! ### Squeezed -/

/-- Around anything else the parts are squeezed alone. -/
theorem squeeze_cut (hc : c ≠ a) (prev : Bool) (u v : List α) :
    squeeze (· == a) a prev (u ++ c :: v) =
      squeeze (· == a) a prev u ++ c :: squeeze (· == a) a false v := by
  exact @squeeze_append_cons α (· == a) a c (beq_eq_false_iff_ne.mpr hc) prev u v

theorem eq_append_of_squeeze_cut {prev : Bool} (hc : c ≠ a)
    (h : squeeze (· == a) a prev s = u ++ c :: v) :
    ∃ u' v', s = u' ++ c :: v' ∧ u = squeeze (· == a) a prev u' ∧
      v = squeeze (· == a) a false v' := by
  have hone : ∀ x ∈ [c], (x == a) = false := by simpa using hc
  exact eq_append_of_squeeze (List.cons_ne_nil c []) hone (beq_self_eq_true a) h

/-- Squeezing something else does not matter. -/
theorem spaced_squeeze_iff (ha : sp ≠ a) :
    Spaced sp p (squeeze (· == a) a false s) ↔ Spaced sp p s := by
  constructor
  · rintro ⟨u, v, hsplit, c, hc, hcsp⟩
    obtain ⟨u', v', rfl, rfl, hv⟩ := eq_append_of_squeeze_cut ha hsplit
    cases v' with
    | nil => cases hv
    | cons x v' =>
      obtain ⟨t, ht⟩ := @exists_squeeze_cons α _ a x v'
      rw [ht, List.cons.injEq] at hv
      exact ⟨u', v', by rw [hv.1], c, mem_squeeze_beq.mp hc, hcsp⟩
  · rintro ⟨u, v, rfl, c, hc, hcsp⟩
    obtain ⟨t, ht⟩ := @exists_squeeze_cons α _ a p v
    refine ⟨squeeze (· == a) a false u, t, ?_, c, mem_squeeze_beq.mpr hc, hcsp⟩
    rw [squeeze_cut ha, ht]

theorem squeeze_of_all (h : ∀ x ∈ s, x = sp) : squeeze (· == sp) sp true s = [] := by
  induction s with
  | nil => rfl
  | cons c s ih =>
    obtain ⟨rfl, hs⟩ := List.forall_mem_cons.mp h
    simp [squeeze, ih hs]

/-- What ends with a space still does, if anything is left of it. -/
theorem squeeze_concat (prev : Bool) (u : List α) :
    (prev = true ∧ squeeze (· == sp) sp prev (u ++ [sp]) = []) ∨
      ∃ t, squeeze (· == sp) sp prev (u ++ [sp]) = t ++ [sp] := by
  induction u generalizing prev with
  | nil =>
    cases prev with
    | false => exact .inr ⟨[], by simp [squeeze]⟩
    | true => exact .inl ⟨rfl, by simp [squeeze]⟩
  | cons c u ih =>
    rw [List.cons_append]
    by_cases hc : c = sp
    · cases prev with
      | false =>
        rcases ih true with ⟨-, hnil⟩ | ⟨t, ht⟩
        · exact .inr ⟨[], by simp [squeeze, hc, hnil]⟩
        · exact .inr ⟨sp :: t, by simp [squeeze, hc, ht]⟩
      | true => simpa [squeeze, hc] using ih true
    · rcases ih false with ⟨hfalse, -⟩ | ⟨t, ht⟩
      · cases hfalse
      · exact .inr ⟨c :: t, by simp [squeeze, hc, ht]⟩

/-- **A space in front of a mark** stays, unless it is at the start. -/
theorem infix_squeeze_iff_spaced (hp : p ≠ sp) :
    [sp, p] <:+: squeeze (· == sp) sp true s ↔ Spaced sp p s := by
  constructor
  · rintro ⟨u, v, hsplit⟩
    have hcut : squeeze (· == sp) sp true s = (u ++ [sp]) ++ p :: v := by simp [← hsplit]
    obtain ⟨u', v', rfl, hu, -⟩ := eq_append_of_squeeze_cut hp hcut
    rcases List.eq_nil_or_concat u' with rfl | ⟨w, x, rfl⟩
    · exact absurd hu (by simp [squeeze])
    · rw [List.concat_eq_append] at hu ⊢
      by_cases hx : x = sp
      · subst hx
        refine ⟨w, v', by simp, ?_⟩
        by_contra hall
        push Not at hall
        have hnil : squeeze (· == x) x true (w ++ [x]) = [] := by
          refine squeeze_of_all fun y hy => ?_
          rcases List.mem_append.mp hy with hy | hy
          · exact hall y hy
          · exact List.mem_singleton.mp hy
        rw [hnil] at hu
        exact absurd hu (by simp)
      · have hlast := squeeze_cut hx true w []
        rw [← hu] at hlast
        exact absurd (List.cons.inj (List.append_inj' hlast rfl).2).1.symm hx
  · rintro ⟨u, v, rfl, c, hc, hne⟩
    have hsplit := squeeze_cut hp true (u ++ [sp]) v
    rcases @squeeze_concat α _ sp true u with ⟨-, hnil⟩ | ⟨t, ht⟩
    · obtain ⟨u, w, rfl⟩ := List.append_of_mem hc
      rw [List.append_assoc, List.cons_append, squeeze_cut hne] at hnil
      exact absurd hnil (by simp)
    · rw [ht] at hsplit
      refine ⟨t, squeeze (· == sp) sp false v, ?_⟩
      simpa using hsplit.symm

end Spaces
