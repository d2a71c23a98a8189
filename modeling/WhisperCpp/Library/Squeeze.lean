import Mathlib.Data.List.DropRight
import Mathlib.Data.List.Infix
import Mathlib.Tactic.SplitIfs
import WhisperCpp.Library.Replace

/-!
# Runs of spaces

Every run of spaces becomes one blank, or none at the start when there was a space before. What is no
space stays, and so does what is next to what.

## Main definitions

* `squeeze`
* `dedupe` — the loop that makes one of two

## Main results

* `not_infix_squeeze`, `head?_squeeze` — there are no two blanks, and none in front
* `squeeze_append_cons`, `eq_append_of_squeeze` — around what is no space
* `squeeze_eq_self` — what is squeezed already
* `rdropWhile_append_of_all`, `rdropWhile_append_of_exists` — dropping at the end
* `dedupe_eq_squeeze` — the loop squeezes
* `squeeze_flatMap`, `rdropWhile_flatMap` — in an encoding
-/

namespace Squeeze

variable {α : Type*} {isSp : α → Bool} {blank : α}

/-- One blank for a run of spaces. `prev` is whether there was a space before. -/
def squeeze (isSp : α → Bool) (blank : α) : Bool → List α → List α
  | _, [] => []
  | prev, c :: s =>
    if isSp c then if prev then squeeze isSp blank true s else blank :: squeeze isSp blank true s
    else c :: squeeze isSp blank false s

section Lemmas

variable {prev : Bool} {s t u v q : List α} {a c : α}

theorem squeeze_cons_of_not (hc : isSp c = false) (prev : Bool) (s : List α) :
    squeeze isSp blank prev (c :: s) = c :: squeeze isSp blank false s := by
  simp [squeeze, hc]

theorem mem_squeeze (h : a ∈ squeeze isSp blank prev s) : a ∈ s ∨ a = blank := by
  induction s generalizing prev with
  | nil => exact .inl h
  | cons c s ih =>
    have hrest : ∀ {prev}, a ∈ squeeze isSp blank prev s → a ∈ c :: s ∨ a = blank :=
      fun h => (ih h).imp_left (List.mem_cons_of_mem c)
    rw [squeeze] at h
    split_ifs at h
    · exact hrest h
    · exact (List.mem_cons.mp h).elim .inr hrest
    · rcases List.mem_cons.mp h with rfl | h
      · exact .inl List.mem_cons_self
      · exact hrest h

/-- What is no space is not lost. -/
theorem mem_squeeze_of_not (ha : isSp a = false) (h : a ∈ s) : a ∈ squeeze isSp blank prev s := by
  induction s generalizing prev with
  | nil => cases h
  | cons c s ih =>
    rw [squeeze]
    rcases List.mem_cons.mp h with rfl | h
    · simp [ha]
    · split_ifs
      · exact ih h
      · exact List.mem_cons_of_mem _ (ih h)
      · exact List.mem_cons_of_mem _ (ih h)

theorem count_squeeze [DecidableEq α] (ha : isSp a = false) (hblank : isSp blank = true)
    (prev : Bool) (s : List α) : (squeeze isSp blank prev s).count a = s.count a := by
  have hne : ∀ {c}, isSp c = true → c ≠ a := by
    rintro c hc rfl
    rw [ha] at hc
    cases hc
  induction s generalizing prev with
  | nil => rfl
  | cons c s ih =>
    rw [squeeze]
    split_ifs with hc
    · rw [ih, List.count_cons_of_ne (hne hc)]
    · rw [List.count_cons_of_ne (hne hblank), ih, List.count_cons_of_ne (hne hc)]
    · rw [List.count_cons, List.count_cons, ih]

/-! ### Around what is no space -/

theorem squeeze_append_cons (hc : isSp c = false) (prev : Bool) (u v : List α) :
    squeeze isSp blank prev (u ++ c :: v) =
      squeeze isSp blank prev u ++ c :: squeeze isSp blank false v := by
  induction u generalizing prev with
  | nil => exact squeeze_cons_of_not hc prev v
  | cons d u ih =>
    rw [List.cons_append, squeeze, squeeze]
    split_ifs <;> simp [ih]

theorem squeeze_append_of_not (hne : q ≠ []) (hq : ∀ x ∈ q, isSp x = false) (prev : Bool)
    (u v : List α) : squeeze isSp blank prev (u ++ (q ++ v)) =
      squeeze isSp blank prev u ++ (q ++ squeeze isSp blank false v) := by
  have hrest : ∀ q : List α, (∀ x ∈ q, isSp x = false) →
      squeeze isSp blank false (q ++ v) = q ++ squeeze isSp blank false v := by
    intro q hq
    induction q with
    | nil => rfl
    | cons x q ih =>
      obtain ⟨hx, hq⟩ := List.forall_mem_cons.mp hq
      rw [List.cons_append, squeeze_cons_of_not hx, ih hq, List.cons_append]
  cases q with
  | nil => exact absurd rfl hne
  | cons x q =>
    obtain ⟨hx, hq⟩ := List.forall_mem_cons.mp hq
    rw [List.cons_append, squeeze_append_cons hx, hrest q hq, List.cons_append]

theorem of_squeeze_false (hq : ∀ x ∈ q, isSp x = false) (hblank : isSp blank = true)
    (h : squeeze isSp blank false s = q ++ t) :
    ∃ v, s = q ++ v ∧ t = squeeze isSp blank false v := by
  induction q generalizing s with
  | nil => exact ⟨s, rfl, h.symm⟩
  | cons x q ih =>
    obtain ⟨hx, hq⟩ := List.forall_mem_cons.mp hq
    cases s with
    | nil => cases h
    | cons c s =>
      rw [squeeze] at h
      split_ifs at h with hc hfalse
      · cases hfalse
      · have heq := (List.cons.inj h).1
        rw [heq, hx] at hblank
        cases hblank
      · obtain ⟨rfl, hrest⟩ := List.cons.inj h
        obtain ⟨v, rfl, ht⟩ := ih (List.forall_mem_cons.mp hq).2 hrest
        exact ⟨v, rfl, ht⟩

/-- **What is no space** was next to each other before. -/
theorem eq_append_of_squeeze (hne : q ≠ []) (hq : ∀ x ∈ q, isSp x = false)
    (hblank : isSp blank = true) (h : squeeze isSp blank prev s = u ++ (q ++ t)) :
    ∃ u' v, s = u' ++ (q ++ v) ∧ u = squeeze isSp blank prev u' ∧
      t = squeeze isSp blank false v := by
  induction s generalizing prev u with
  | nil =>
    rw [squeeze] at h
    simp [hne] at h
  | cons c s ih =>
    rw [squeeze] at h
    split_ifs at h with hc hprev
    · obtain ⟨u', v, rfl, rfl, ht⟩ := ih h
      exact ⟨c :: u', v, rfl, by simp [squeeze, hc, hprev], ht⟩
    · cases u with
      | nil =>
        obtain ⟨x, q, rfl⟩ := List.exists_cons_of_ne_nil hne
        have hx := (List.forall_mem_cons.mp hq).1
        have heq := (List.cons.inj h).1
        rw [heq, hx] at hblank
        cases hblank
      | cons y u =>
        obtain ⟨rfl, hrest⟩ := List.cons.inj h
        obtain ⟨u', v, rfl, rfl, ht⟩ := ih hrest
        exact ⟨c :: u', v, rfl, by simp [squeeze, hc, hprev], ht⟩
    · cases u with
      | nil =>
        obtain ⟨x, q, rfl⟩ := List.exists_cons_of_ne_nil hne
        obtain ⟨rfl, hrest⟩ := List.cons.inj h
        obtain ⟨hx, hq⟩ := List.forall_mem_cons.mp hq
        obtain ⟨v, rfl, ht⟩ := of_squeeze_false hq hblank hrest
        exact ⟨[], v, by simp, by simp [squeeze], ht⟩
      | cons y u =>
        obtain ⟨rfl, hrest⟩ := List.cons.inj h
        obtain ⟨u', v, rfl, rfl, ht⟩ := ih hrest
        exact ⟨c :: u', v, rfl, by simp [squeeze, hc], ht⟩

theorem infix_squeeze_iff (hne : q ≠ []) (hq : ∀ x ∈ q, isSp x = false)
    (hblank : isSp blank = true) : q <:+: squeeze isSp blank prev s ↔ q <:+: s := by
  constructor
  · rintro ⟨u, t, h⟩
    rw [List.append_assoc] at h
    obtain ⟨u', v, rfl, -, -⟩ := eq_append_of_squeeze hne hq hblank h.symm
    exact ⟨u', v, by simp⟩
  · rintro ⟨u, v, rfl⟩
    rw [List.append_assoc, squeeze_append_of_not hne hq]
    exact ⟨_, _, by rw [List.append_assoc]⟩

/-! ### Blanks -/

/-- There is no blank in front if there was a space before. -/
theorem head?_squeeze (hblank : isSp blank = true) : blank ∉ (squeeze isSp blank true s).head? := by
  induction s with
  | nil => nofun
  | cons c s ih =>
    by_cases hc : isSp c = true
    · simpa [squeeze, hc] using ih
    · rw [squeeze_cons_of_not (by simpa using hc)]
      intro h
      rw [Option.some.inj h] at hc
      exact hc hblank

/-- **There are no two blanks.** -/
theorem not_infix_squeeze (hblank : isSp blank = true) :
    ¬ [blank, blank] <:+: squeeze isSp blank prev s := by
  induction s generalizing prev with
  | nil => simp [squeeze]
  | cons c s ih =>
    rw [squeeze]
    split_ifs with hc
    · exact ih
    · rw [List.infix_cons_iff, not_or]
      refine ⟨fun h => ?_, ih⟩
      obtain ⟨t, ht⟩ := (List.cons_prefix_cons.mp h).2
      have hhead := @head?_squeeze α isSp blank s hblank
      rw [← ht] at hhead
      exact hhead rfl
    · rw [List.infix_cons_iff, not_or]
      refine ⟨fun h => ?_, ih⟩
      obtain ⟨rfl, -⟩ := List.cons_prefix_cons.mp h
      exact hc hblank

/-- **What is squeezed already** stays. -/
theorem squeeze_eq_self (hsp : ∀ x ∈ s, isSp x = true → x = blank)
    (hpair : ¬ [blank, blank] <:+: s) (hhead : prev = true → blank ∉ s.head?) :
    squeeze isSp blank prev s = s := by
  induction s generalizing prev with
  | nil => rfl
  | cons c s ih =>
    obtain ⟨hc, hs⟩ := List.forall_mem_cons.mp hsp
    rw [List.infix_cons_iff, not_or] at hpair
    rw [squeeze]
    split_ifs with hspace hprev
    · exact absurd (congrArg some (hc hspace)) (hhead hprev)
    · rw [hc hspace] at hpair ⊢
      rw [ih hs hpair.2]
      intro _ hblank
      cases s with
      | nil => cases hblank
      | cons d s =>
        rw [Option.some.inj hblank] at hpair
        exact hpair.1 (by simp)
    · rw [ih hs hpair.2 (by simp)]

/-! ### The end of a list -/

theorem rdropWhile_append_of_all {p : α → Bool} (h : ∀ x ∈ v, p x = true) (u : List α) :
    (u ++ v).rdropWhile p = u.rdropWhile p := by
  rw [List.rdropWhile, List.rdropWhile, List.reverse_append, List.dropWhile_append_of_pos]
  exact fun x hx => h x (List.mem_reverse.mp hx)

theorem rdropWhile_append_of_exists {p : α → Bool} (h : ∃ x ∈ v, p x = false) (u : List α) :
    (u ++ v).rdropWhile p = u ++ v.rdropWhile p := by
  have hne : v.reverse.dropWhile p ≠ [] := by
    obtain ⟨x, hx, hpx⟩ := h
    intro hnil
    have hall := List.dropWhile_eq_nil_iff.mp hnil x (List.mem_reverse.mpr hx)
    rw [hpx] at hall
    cases hall
  rw [List.rdropWhile, List.rdropWhile, List.reverse_append, List.dropWhile_append]
  simp [hne]

/-- What is not dropped stays where it is. -/
theorem rdropWhile_append_cons {p : α → Bool} (hc : p c = false) (u v : List α) :
    (u ++ c :: v).rdropWhile p = u ++ c :: v.rdropWhile p := by
  have hsplit : u ++ c :: v = (u ++ [c]) ++ v := by simp
  by_cases hv : ∃ x ∈ v, p x = false
  · rw [hsplit, rdropWhile_append_of_exists hv]
    simp
  · have hall : ∀ x ∈ v, p x = true := by
      intro x hx
      by_contra hpx
      exact hv ⟨x, hx, by simpa using hpx⟩
    rw [hsplit, rdropWhile_append_of_all hall, List.rdropWhile_concat_neg _ _ _ (by simp [hc]),
      List.rdropWhile_eq_nil_iff.mpr hall]

theorem infix_rdropWhile_iff {p : α → Bool} (hne : q ≠ []) (hq : p (q.getLast hne) = false) :
    q <:+: s.rdropWhile p ↔ q <:+: s := by
  constructor
  · exact fun h => h.trans (List.rdropWhile_prefix p s).isInfix
  · rintro ⟨u, v, rfl⟩
    have hsplit : u ++ q ++ v = (u ++ q.dropLast) ++ q.getLast hne :: v := by
      conv_lhs => rw [← List.dropLast_append_getLast hne]
      simp
    rw [hsplit, rdropWhile_append_cons hq]
    refine ⟨u, v.rdropWhile p, ?_⟩
    conv_lhs => rw [← List.dropLast_append_getLast hne]
    simp

theorem exists_mem_rdropWhile {p : α → Bool} (h : ∃ x ∈ s, p x = false) :
    ∃ x ∈ s.rdropWhile p, p x = false := by
  obtain ⟨x, hx, hpx⟩ := h
  rw [← @List.rdropWhile_append_rtakeWhile α p s, List.mem_append] at hx
  rcases hx with hx | hx
  · exact ⟨x, hx, hpx⟩
  · rw [List.mem_rtakeWhile_imp hx] at hpx
    cases hpx

end Lemmas

/-! ### One of two -/

section Dedupe

variable [DecidableEq α] {s : List α} {a x : α}

/-- Two `a` become one, until there are no two. -/
def dedupe (a : α) (s : List α) : List α :=
  if [a, a] <:+: s then dedupe a (Replace.replaceAll [a, a] [a] s) else s
termination_by s.length
decreasing_by
  rename_i h
  exact Replace.length_replaceAll_lt (by simp) (by simp) h

theorem squeeze_replaceAll (a : α) (prev : Bool) (s : List α) :
    squeeze (· == a) a prev (Replace.replaceAll [a, a] [a] s) = squeeze (· == a) a prev s := by
  have hpat : [a, a] ≠ [] := by simp
  induction s using Replace.replace_induction hpat generalizing prev with
  | nil => rw [Replace.replaceAll_nil]
  | found v ih =>
    rw [Replace.replaceAll_pattern hpat]
    cases prev <;> simp [squeeze, ih]
  | other c s h ih =>
    rw [Replace.replaceAll_cons h, squeeze, squeeze]
    split_ifs <;> simp [ih]

/-- **The loop squeezes.** -/
theorem dedupe_eq_squeeze (a : α) (s : List α) : dedupe a s = squeeze (· == a) a false s := by
  induction s using dedupe.induct a with
  | case1 s h ih => rw [dedupe, if_pos h, ih, squeeze_replaceAll]
  | case2 s h =>
    rw [dedupe, if_neg h, squeeze_eq_self (by simp) h (by simp)]

/-- What is first stays first. -/
theorem exists_squeeze_cons (x : α) (s : List α) :
    ∃ t, squeeze (· == a) a false (x :: s) = x :: t := by
  rw [squeeze]
  split_ifs with hx hfalse
  · cases hfalse
  · exact ⟨_, by rw [beq_iff_eq.mp hx]⟩
  · exact ⟨_, rfl⟩

/-- Nothing gets lost. -/
theorem mem_squeeze_beq : x ∈ squeeze (· == a) a false s ↔ x ∈ s := by
  induction s with
  | nil => rfl
  | cons c s ih =>
    by_cases hc : c = a
    · subst hc
      by_cases hx : x = c
      · simp [squeeze, hx]
      · have hrest : x ∈ squeeze (· == c) c true s ↔ x ∈ s :=
          ⟨fun h => (mem_squeeze h).resolve_right hx, mem_squeeze_of_not (by simpa using hx)⟩
        simp [squeeze, hx, hrest]
    · rw [squeeze_cons_of_not (by simpa using hc), List.mem_cons, List.mem_cons, ih]

end Dedupe

/-! ### In an encoding -/

section Encoding

variable {β : Type*} {f : α → List β} {isSp' : β → Bool} {blank' : β} {s : List α}

theorem squeeze_flatMap (hblank : f blank = [blank']) (hblank' : isSp' blank' = true)
    (hs : ∀ c ∈ s, isSp c = true → c = blank)
    (hf : ∀ c ∈ s, isSp c = false → f c ≠ [] ∧ ∀ b ∈ f c, isSp' b = false) (prev : Bool) :
    squeeze isSp' blank' prev (s.flatMap f) = (squeeze isSp blank prev s).flatMap f := by
  induction s generalizing prev with
  | nil => rfl
  | cons c s ih =>
    obtain ⟨hc, hs⟩ := List.forall_mem_cons.mp hs
    obtain ⟨hfc, hf⟩ := List.forall_mem_cons.mp hf
    rw [List.flatMap_cons]
    cases hsp : isSp c with
    | true =>
      have heq := hc hsp
      subst heq
      rw [hblank, List.singleton_append]
      cases prev <;> simp [squeeze, hsp, hblank, hblank', ih hs hf]
    | false =>
      obtain ⟨hne, hall⟩ := hfc hsp
      have hcut := @squeeze_append_of_not β isSp' blank' (f c) hne hall prev [] (s.flatMap f)
      rw [List.nil_append, squeeze, List.nil_append] at hcut
      rw [hcut, squeeze_cons_of_not hsp, List.flatMap_cons, ih hs hf]

theorem rdropWhile_flatMap {p : α → Bool} {p' : β → Bool}
    (hp : ∀ c ∈ s, p c = true → ∀ b ∈ f c, p' b = true)
    (hp' : ∀ c ∈ s, p c = false → f c ≠ [] ∧ ∀ b ∈ f c, p' b = false) :
    (s.flatMap f).rdropWhile p' = (s.rdropWhile p).flatMap f := by
  induction s using List.reverseRecOn with
  | nil => rfl
  | append_singleton s c ih =>
    have hs : ∀ d ∈ s, d ∈ s ++ [c] := fun d hd => List.mem_append_left [c] hd
    have hlast : c ∈ s ++ [c] := by simp
    rw [List.flatMap_append, List.flatMap_singleton]
    cases hpc : p c with
    | true =>
      rw [rdropWhile_append_of_all (hp c hlast hpc), List.rdropWhile_concat_pos _ _ _ hpc,
        ih (fun d hd => hp d (hs d hd)) fun d hd => hp' d (hs d hd)]
    | false =>
      obtain ⟨hne, hall⟩ := hp' c hlast hpc
      obtain ⟨b, l, hb⟩ := List.exists_cons_of_ne_nil hne
      have hstay : (f c).rdropWhile p' = f c := by
        rw [List.rdropWhile_eq_self_iff]
        intro hl
        rw [hall _ (List.getLast_mem hl)]
        simp
      rw [rdropWhile_append_of_exists ⟨b, by simp [hb], hall b (by simp [hb])⟩, hstay,
        List.rdropWhile_concat_neg _ _ _ (by simp [hpc]), List.flatMap_append,
        List.flatMap_singleton]

end Encoding

end Squeeze
