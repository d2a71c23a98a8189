import Mathlib.Data.List.Count
import Mathlib.Data.List.Infix
import Mathlib.Tactic.SplitIfs

/-!
# Replacing in a list

All occurrences of one list in another are replaced, from left to right, and the search goes on
behind what was put in.

## Main definitions

* `replaceAll`
* `replaceEach` — one pair after another

## Main results

* `replace_induction` — a list as occurrences and what is between them
* `infix_of_replaceAll`, `not_infix_replaceAll` — what is found in the result
* `replaceAll_append`, `replaceAll_append_of_last` — where a list may be cut
* `count_lt_replaceAll` — how often something is in the result
* `replaceAll_flatMap` — replacing in an encoding
-/

namespace Replace

variable {α β : Type*} [DecidableEq α] {pat rep : List α}

/-- Every `pat` becomes `rep`. Nothing is done for an empty `pat`. -/
def replaceAll (pat rep : List α) : List α → List α
  | [] => []
  | c :: s =>
    if pat ≠ [] ∧ pat <+: c :: s then rep ++ replaceAll pat rep (s.drop (pat.length - 1))
    else c :: replaceAll pat rep s
termination_by s => s.length
decreasing_by
  all_goals
    simp only [List.length_drop, List.length_cons]
    omega

section Lemmas

variable {s u v w q : List α} {a c : α}

@[simp] theorem replaceAll_nil : replaceAll pat rep [] = [] := by rw [replaceAll]

theorem replaceAll_pattern (hpat : pat ≠ []) (v : List α) :
    replaceAll pat rep (pat ++ v) = rep ++ replaceAll pat rep v := by
  cases pat with
  | nil => exact absurd rfl hpat
  | cons h tl =>
    rw [List.cons_append, replaceAll, if_pos ⟨hpat, List.prefix_append (h :: tl) v⟩]
    simp

theorem replaceAll_cons (h : ¬ pat <+: c :: s) :
    replaceAll pat rep (c :: s) = c :: replaceAll pat rep s := by
  rw [replaceAll, if_neg fun hpre => h hpre.2]

/-- A list is made of occurrences, and of what is no start of one. -/
theorem replace_induction {P : List α → Prop} (hpat : pat ≠ []) (nil : P [])
    (found : ∀ v, P v → P (pat ++ v)) (other : ∀ c s, ¬ pat <+: c :: s → P s → P (c :: s))
    (s : List α) : P s := by
  induction hlen : s.length using Nat.strong_induction_on generalizing s with
  | _ n ih =>
    cases s with
    | nil => exact nil
    | cons c s =>
      rw [List.length_cons] at hlen
      by_cases h : pat <+: c :: s
      · obtain ⟨v, hv⟩ := h
        rw [← hv]
        refine found v (ih v.length ?_ v rfl)
        have hle := congrArg List.length hv
        have hpos := List.length_pos_iff.mpr hpat
        rw [List.length_append, List.length_cons] at hle
        omega
      · exact other c s h (ih s.length (by omega) s rfl)

theorem replaceAll_eq_self (h : ¬ pat <:+: s) : replaceAll pat rep s = s := by
  induction s with
  | nil => exact replaceAll_nil
  | cons c s ih =>
    rw [List.infix_cons_iff, not_or] at h
    rw [replaceAll_cons h.1, ih h.2]

theorem replaceAll_empty (s : List α) : replaceAll [] rep s = s := by
  induction s with
  | nil => exact replaceAll_nil
  | cons c s ih => rw [replaceAll, if_neg fun hpre => hpre.1 rfl, ih]

theorem mem_replaceAll (h : a ∈ replaceAll pat rep s) : a ∈ s ∨ a ∈ rep := by
  by_cases hpat : pat = []
  · rw [hpat, replaceAll_empty] at h
    exact .inl h
  · induction s using replace_induction hpat with
    | nil =>
      rw [replaceAll_nil] at h
      cases h
    | found v ih =>
      rw [replaceAll_pattern hpat] at h
      rcases List.mem_append.mp h with h | h
      · exact .inr h
      · exact (ih h).imp_left (List.mem_append_right pat)
    | other c s hnot ih =>
      rw [replaceAll_cons hnot] at h
      rcases List.mem_cons.mp h with rfl | h
      · exact .inl List.mem_cons_self
      · exact (ih h).imp_left (List.mem_cons_of_mem c)

section Found

variable (hpat : pat ≠ [])

include hpat

/-! ### What is found in the result -/

/-- What the result starts with, and has nothing of `rep`, the list starts with. -/
theorem prefix_of_replaceAll (hto : rep ≠ []) (hq : ∀ x ∈ q, x ∉ rep)
    (h : q <+: replaceAll pat rep s) : q <+: s := by
  induction s using replace_induction hpat generalizing q with
  | nil => rwa [replaceAll_nil] at h
  | found v ih =>
    cases q with
    | nil => exact List.nil_prefix
    | cons x q =>
      cases rep with
      | nil => exact absurd rfl hto
      | cons t rep =>
        rw [replaceAll_pattern hpat, List.cons_append, List.cons_prefix_cons] at h
        exact absurd (h.1 ▸ List.mem_cons_self) (hq x List.mem_cons_self)
  | other c s hnot ih =>
    cases q with
    | nil => exact List.nil_prefix
    | cons x q =>
      obtain ⟨hx, hq⟩ := List.forall_mem_cons.mp hq
      rw [replaceAll_cons hnot, List.cons_prefix_cons] at h
      exact List.cons_prefix_cons.mpr ⟨h.1, ih hq h.2⟩

omit [DecidableEq α] hpat in
/-- What begins in `u` has something of it. -/
theorem infix_right (hne : q ≠ []) (hq : ∀ x ∈ q, x ∉ u) (h : q <:+: u ++ v) : q <:+: v := by
  induction u with
  | nil => exact h
  | cons x u ih =>
    have hq' : ∀ y ∈ q, y ∉ u := fun y hy hu => hq y hy (List.mem_cons_of_mem x hu)
    rcases List.infix_cons_iff.mp h with hpre | h
    · cases q with
      | nil => exact absurd rfl hne
      | cons y q =>
        have heq := (List.cons_prefix_cons.mp hpre).1
        exact absurd (heq ▸ List.mem_cons_self) (hq y List.mem_cons_self)
    · exact ih hq' h

omit [DecidableEq α] hpat in
/-- What ends in something else. -/
theorem infix_of_concat_of_last (hq : c ∉ q.getLast?) (h : q <:+: s ++ [c]) : q <:+: s := by
  rcases List.infix_concat_iff.mp h with hsuf | h
  · rcases List.suffix_concat_iff.mp hsuf with rfl | ⟨x, rfl, -⟩
    · exact List.nil_infix
    · simp at hq
  · exact h

omit [DecidableEq α] hpat in
theorem infix_of_concat (hq : c ∉ q) (h : q <:+: s ++ [c]) : q <:+: s :=
  infix_of_concat_of_last (fun hlast => hq (List.mem_of_getLast? hlast)) h

/-- **What is found in the result**, and has nothing of `rep`, was in the list. -/
theorem infix_of_replaceAll (hto : rep ≠ []) (hne : q ≠ []) (hq : ∀ x ∈ q, x ∉ rep)
    (h : q <:+: replaceAll pat rep s) : q <:+: s := by
  induction s using replace_induction hpat with
  | nil => rwa [replaceAll_nil] at h
  | found v ih =>
    rw [replaceAll_pattern hpat] at h
    exact (ih (infix_right hne hq h)).trans (List.suffix_append pat v).isInfix
  | other c s hnot ih =>
    have hall : replaceAll pat rep (c :: s) = c :: replaceAll pat rep s := replaceAll_cons hnot
    rw [hall] at h
    rcases List.infix_cons_iff.mp h with hpre | h
    · rw [← hall] at hpre
      exact (prefix_of_replaceAll hpat hto hq hpre).isInfix
    · exact List.infix_cons_iff.mpr (.inr (ih h))

/-- **There is none left**, if `rep` has nothing of `pat`. -/
theorem not_infix_replaceAll (hto : rep ≠ []) (hdisj : ∀ x ∈ pat, x ∉ rep) :
    ¬ pat <:+: replaceAll pat rep s := by
  induction s using replace_induction hpat with
  | nil => simpa using hpat
  | found v ih =>
    rw [replaceAll_pattern hpat]
    exact fun h => ih (infix_right hpat hdisj h)
  | other c s hnot ih =>
    have hall : replaceAll pat rep (c :: s) = c :: replaceAll pat rep s := replaceAll_cons hnot
    rw [hall, List.infix_cons_iff, not_or]
    refine ⟨fun hpre => hnot ?_, ih⟩
    rw [← hall] at hpre
    exact prefix_of_replaceAll hpat hto hdisj hpre

/-! ### Cuts -/

omit [DecidableEq α] hpat in
theorem prefix_append_cases (h : pat <+: u ++ w) :
    pat <+: u ∨ ∃ x, pat = u ++ x ∧ x <+: w := by
  obtain ⟨v, hv⟩ := h
  rcases List.append_eq_append_iff.mp hv with ⟨x, rfl, -⟩ | ⟨x, rfl, rfl⟩
  · exact .inl (List.prefix_append pat x)
  · exact .inr ⟨x, rfl, List.prefix_append x v⟩

/-- **Before a letter that only starts `pat`** a list may be cut. -/
theorem replaceAll_append (hc : c ∉ pat.tail) (u v : List α) :
    replaceAll pat rep (u ++ c :: v) = replaceAll pat rep u ++ replaceAll pat rep (c :: v) := by
  induction u using replace_induction hpat with
  | nil => rw [List.nil_append, replaceAll_nil, List.nil_append]
  | found w ih =>
    rw [List.append_assoc, replaceAll_pattern hpat, replaceAll_pattern hpat, ih, List.append_assoc]
  | other d u hnot ih =>
    rw [List.cons_append, replaceAll_cons, ih, replaceAll_cons hnot, List.cons_append]
    intro h
    rw [← List.cons_append] at h
    rcases prefix_append_cases h with hpre | ⟨x, rfl, hx⟩
    · exact hnot hpre
    · cases x with
      | nil => simp at hnot
      | cons y x =>
        obtain rfl := (List.cons_prefix_cons.mp hx).1
        simp at hc

/-- Around what is not in `pat` the parts are replaced alone. -/
theorem replaceAll_append_cons (hc : c ∉ pat) (u v : List α) :
    replaceAll pat rep (u ++ c :: v) = replaceAll pat rep u ++ c :: replaceAll pat rep v := by
  rw [replaceAll_append hpat fun h => hc (List.mem_of_mem_tail h), replaceAll_cons]
  intro h
  obtain ⟨x, tl, rfl⟩ := List.exists_cons_of_ne_nil hpat
  rw [List.cons_prefix_cons] at h
  exact hc (h.1 ▸ List.mem_cons_self)

/-- What has nothing of `pat` is found again. -/
theorem infix_replaceAll (hne : q ≠ []) (hq : ∀ x ∈ q, x ∉ pat) (h : q <:+: s) :
    q <:+: replaceAll pat rep s := by
  obtain ⟨u, v, rfl⟩ := h
  have hrest : ∀ q : List α, (∀ x ∈ q, x ∉ pat) → replaceAll pat rep (q ++ v) =
      q ++ replaceAll pat rep v := by
    intro q hq
    induction q with
    | nil => rfl
    | cons x q ih =>
      obtain ⟨hx, hq⟩ := List.forall_mem_cons.mp hq
      have hcut := @replaceAll_append_cons α _ pat rep x hpat hx [] (q ++ v)
      rwa [List.nil_append, replaceAll_nil, ih hq] at hcut
  cases q with
  | nil => exact absurd rfl hne
  | cons x q =>
    obtain ⟨hx, hq⟩ := List.forall_mem_cons.mp hq
    rw [List.append_assoc, List.cons_append, replaceAll_append_cons hpat hx, hrest q hq]
    exact ⟨replaceAll pat rep u, replaceAll pat rep v, by simp⟩

/-- **What is behind the last occurrence** stays. -/
theorem replaceAll_append_of_last {l : α} (hl : pat.getLast? = some l) (hw : l ∉ w) (u : List α) :
    replaceAll pat rep (u ++ w) = replaceAll pat rep u ++ w := by
  induction u using replace_induction hpat with
  | nil =>
    rw [List.nil_append, replaceAll_nil, List.nil_append, replaceAll_eq_self]
    exact fun h => hw (h.subset (List.mem_of_getLast? hl))
  | found v ih =>
    rw [List.append_assoc, replaceAll_pattern hpat, replaceAll_pattern hpat, ih, List.append_assoc]
  | other d u hnot ih =>
    rw [List.cons_append, replaceAll_cons, ih, replaceAll_cons hnot, List.cons_append]
    intro h
    rw [← List.cons_append] at h
    rcases prefix_append_cases h with hpre | ⟨x, heq, hx⟩
    · exact hnot hpre
    · rcases List.eq_nil_or_concat x with rfl | ⟨y, z, rfl⟩
      · exact hnot (by simp [heq])
      · rw [heq, List.concat_eq_append, ← List.append_assoc, List.getLast?_concat] at hl
        obtain rfl := Option.some.inj hl
        exact hw (hx.subset (by simp))

/-- What the result starts with. -/
theorem head?_replaceAll (h : a ∈ (replaceAll pat rep s).head?) (hrep : rep ≠ []) :
    a ∈ s.head? ∨ a ∈ rep.head? := by
  induction s using replace_induction hpat with
  | nil =>
    rw [replaceAll_nil] at h
    exact .inl h
  | found v ih =>
    rw [replaceAll_pattern hpat, List.head?_append_of_ne_nil _ hrep] at h
    exact .inr h
  | other c s hnot ih =>
    rw [replaceAll_cons hnot] at h
    exact .inl h

/-- Something with `P` does not get lost. -/
theorem exists_mem_replaceAll {P : α → Prop} (hrep : ∃ x ∈ rep, P x) (h : ∃ x ∈ s, P x) :
    ∃ x ∈ replaceAll pat rep s, P x := by
  induction s using replace_induction hpat with
  | nil => simp at h
  | found v ih =>
    obtain ⟨x, hx, hPx⟩ := hrep
    rw [replaceAll_pattern hpat]
    exact ⟨x, List.mem_append_left _ hx, hPx⟩
  | other c s hnot ih =>
    rw [replaceAll_cons hnot]
    obtain ⟨x, hx, hPx⟩ := h
    rcases List.mem_cons.mp hx with rfl | hx
    · exact ⟨x, List.mem_cons_self, hPx⟩
    · obtain ⟨y, hy, hPy⟩ := ih ⟨x, hx, hPx⟩
      exact ⟨y, List.mem_cons_of_mem c hy, hPy⟩

/-- **If something is replaced** by less, there is less. -/
theorem length_replaceAll_lt (hlen : rep.length < pat.length) (h : pat <:+: s) :
    (replaceAll pat rep s).length < s.length := by
  have hle : ∀ s : List α, (replaceAll pat rep s).length ≤ s.length := by
    intro s
    induction s using replace_induction hpat with
    | nil => simp
    | found v ih =>
      rw [replaceAll_pattern hpat, List.length_append, List.length_append]
      omega
    | other c s hnot ih =>
      rw [replaceAll_cons hnot, List.length_cons, List.length_cons]
      omega
  induction s using replace_induction hpat with
  | nil => exact absurd (List.infix_nil.mp h) hpat
  | found v ih =>
    have hv := hle v
    rw [replaceAll_pattern hpat, List.length_append, List.length_append]
    omega
  | other c s hnot ih =>
    have hlt := ih ((List.infix_cons_iff.mp h).resolve_left hnot)
    rw [replaceAll_cons hnot, List.length_cons, List.length_cons]
    omega

/-! ### Counting -/

theorem count_le_replaceAll (ha : a ∉ pat) (s : List α) :
    s.count a ≤ (replaceAll pat rep s).count a := by
  induction s using replace_induction hpat with
  | nil => simp
  | found v ih =>
    rw [replaceAll_pattern hpat, List.count_append, List.count_append, List.count_eq_zero.mpr ha]
    omega
  | other c s hnot ih =>
    rw [replaceAll_cons hnot, List.count_cons, List.count_cons]
    omega

/-- **If something is replaced** there is more of what `rep` has. -/
theorem count_lt_replaceAll (ha : a ∉ pat) (hto : a ∈ rep) (h : pat <:+: s) :
    s.count a < (replaceAll pat rep s).count a := by
  induction s using replace_induction hpat with
  | nil => exact absurd (List.infix_nil.mp h) hpat
  | found v ih =>
    have hle := @count_le_replaceAll α _ pat rep a hpat ha v
    have hpos := List.count_pos_iff.mpr hto
    rw [replaceAll_pattern hpat, List.count_append, List.count_append, List.count_eq_zero.mpr ha]
    omega
  | other c s hnot ih =>
    have hlt := ih ((List.infix_cons_iff.mp h).resolve_left hnot)
    rw [replaceAll_cons hnot, List.count_cons, List.count_cons]
    omega

end Found

/-! ### One after another -/

/-- Every `p.1` becomes `p.2`, for one pair after another. -/
def replaceEach (ps : List (List α × List α)) (s : List α) : List α :=
  ps.foldl (fun t p => replaceAll p.1 p.2 t) s

section Each

variable {p : List α × List α} {ps : List (List α × List α)}

@[simp] theorem replaceEach_nil (s : List α) : replaceEach [] s = s := rfl

@[simp] theorem replaceEach_cons (p : List α × List α) (ps : List (List α × List α)) (s : List α) :
    replaceEach (p :: ps) s = replaceEach ps (replaceAll p.1 p.2 s) := rfl

theorem replaceEach_append (ps ps' : List (List α × List α)) (s : List α) :
    replaceEach (ps ++ ps') s = replaceEach ps' (replaceEach ps s) := by
  simp [replaceEach]

theorem replaceEach_eq_self (h : ∀ p ∈ ps, ¬ p.1 <:+: s) : replaceEach ps s = s := by
  induction ps with
  | nil => rfl
  | cons p ps ih =>
    obtain ⟨hp, hps⟩ := List.forall_mem_cons.mp h
    rw [replaceEach_cons, replaceAll_eq_self hp, ih hps]

theorem mem_replaceEach (h : a ∈ replaceEach ps s) : a ∈ s ∨ ∃ p ∈ ps, a ∈ p.2 := by
  induction ps generalizing s with
  | nil => exact .inl h
  | cons p ps ih =>
    rcases ih h with h | ⟨p', hp', ha⟩
    · exact (mem_replaceAll h).imp_right fun ha => ⟨p, List.mem_cons_self, ha⟩
    · exact .inr ⟨p', List.mem_cons_of_mem p hp', ha⟩

/-- What no `p.2` has anything of does not come in. -/
theorem not_infix_replaceEach (hne : q ≠ [])
    (h : ∀ p ∈ ps, p.1 ≠ [] ∧ p.2 ≠ [] ∧ ∀ x ∈ q, x ∉ p.2) (hq : ¬ q <:+: s) :
    ¬ q <:+: replaceEach ps s := by
  induction ps generalizing s with
  | nil => exact hq
  | cons p ps ih =>
    obtain ⟨⟨hpat, hrep, hdisj⟩, hps⟩ := List.forall_mem_cons.mp h
    exact ih hps fun hin => hq (infix_of_replaceAll hpat hrep hne hdisj hin)

/-- Nothing that is replaced is left, if it has nothing of what comes in. -/
theorem not_infix_replaceEach_of_mem (hp : p ∈ ps)
    (h : ∀ p' ∈ ps, p'.1 ≠ [] ∧ p'.2 ≠ [] ∧ ∀ x ∈ p.1, x ∉ p'.2) :
    ¬ p.1 <:+: replaceEach ps s := by
  obtain ⟨hpat, hrep, hdisj⟩ := h p hp
  obtain ⟨before, after, rfl⟩ := List.append_of_mem hp
  rw [replaceEach_append, replaceEach_cons]
  refine not_infix_replaceEach hpat (fun p' hp' => h p' ?_) (not_infix_replaceAll hpat hrep hdisj)
  exact List.mem_append_right _ (List.mem_cons_of_mem p hp')

theorem replaceEach_append_of_last
    (h : ∀ p ∈ ps, ∃ l, p.1.getLast? = some l ∧ l ∉ w) (u : List α) :
    replaceEach ps (u ++ w) = replaceEach ps u ++ w := by
  induction ps generalizing u with
  | nil => rfl
  | cons p ps ih =>
    obtain ⟨⟨l, hl, hw⟩, hps⟩ := List.forall_mem_cons.mp h
    have hpat : p.1 ≠ [] := by
      intro hnil
      simp [hnil] at hl
    rw [replaceEach_cons, replaceAll_append_of_last hpat hl hw, ih hps, replaceEach_cons]

theorem head?_replaceEach {P : α → Prop}
    (h : ∀ p ∈ ps, p.1 ≠ [] ∧ p.2 ≠ [] ∧ ∀ a ∈ p.2.head?, P a) (hs : ∀ a ∈ s.head?, P a) :
    ∀ a ∈ (replaceEach ps s).head?, P a := by
  induction ps generalizing s with
  | nil => exact hs
  | cons p ps ih =>
    obtain ⟨⟨hpat, hrep, hp⟩, hps⟩ := List.forall_mem_cons.mp h
    refine ih hps fun a ha => ?_
    exact (head?_replaceAll hpat ha hrep).elim (hs a) (hp a)

theorem exists_mem_replaceEach {P : α → Prop} (h : ∀ p ∈ ps, p.1 ≠ [] ∧ ∃ x ∈ p.2, P x)
    (hs : ∃ x ∈ s, P x) : ∃ x ∈ replaceEach ps s, P x := by
  induction ps generalizing s with
  | nil => exact hs
  | cons p ps ih =>
    obtain ⟨⟨hpat, hp⟩, hps⟩ := List.forall_mem_cons.mp h
    exact ih hps (exists_mem_replaceAll hpat hp hs)

theorem count_le_replaceEach (h : ∀ p ∈ ps, p.1 ≠ [] ∧ a ∉ p.1) (s : List α) :
    s.count a ≤ (replaceEach ps s).count a := by
  induction ps generalizing s with
  | nil => exact le_rfl
  | cons p ps ih =>
    obtain ⟨⟨hpat, ha⟩, hps⟩ := List.forall_mem_cons.mp h
    exact (count_le_replaceAll hpat ha s).trans (ih hps _)

/-- **If something is replaced** there is more of what all bring. -/
theorem count_lt_replaceEach (h : ∀ p ∈ ps, p.1 ≠ [] ∧ a ∉ p.1 ∧ a ∈ p.2)
    (hs : ∃ p ∈ ps, p.1 <:+: s) : s.count a < (replaceEach ps s).count a := by
  induction ps with
  | nil => simp at hs
  | cons p ps ih =>
    obtain ⟨⟨hpat, ha, hrep⟩, hps⟩ := List.forall_mem_cons.mp h
    rw [replaceEach_cons]
    by_cases hp : p.1 <:+: s
    · refine (count_lt_replaceAll hpat ha hrep hp).trans_le (count_le_replaceEach ?_ _)
      exact fun p' hp' => ⟨(hps p' hp').1, (hps p' hp').2.1⟩
    · rw [replaceAll_eq_self hp]
      obtain ⟨p', hp', hin⟩ := hs
      rcases List.mem_cons.mp hp' with rfl | hp'
      · exact absurd hin hp
      · exact ih hps ⟨p', hp', hin⟩

end Each

/-! ### Encodings -/

section Encoding

variable [DecidableEq β] {f : α → List β} {g : α → β}

/-- The letters of `pat` are encoded by one letter each, that is in no other code. -/
structure Plain (f : α → List β) (g : α → β) (pat : List α) : Prop where
  code : ∀ a ∈ pat, f a = [g a]
  only : ∀ a ∈ pat, ∀ c, g a ∈ f c → c = a
  ne_nil : ∀ c, f c ≠ []

omit [DecidableEq α] [DecidableEq β] in
theorem Plain.prefix_iff (h : Plain f g pat) (s : List α) :
    pat.map g <+: s.flatMap f ↔ pat <+: s := by
  obtain ⟨hcode, honly, hne⟩ := h
  induction pat generalizing s with
  | nil => simp
  | cons a pat ih =>
    obtain ⟨ha, hpat⟩ := List.forall_mem_cons.mp hcode
    obtain ⟨ha', hpat'⟩ := List.forall_mem_cons.mp honly
    cases s with
    | nil => simp
    | cons c s =>
      rw [List.flatMap_cons, List.map_cons, List.cons_prefix_cons]
      constructor
      · intro hpre
        have hc : c = a := by
          cases hf : f c with
          | nil => exact absurd hf (hne c)
          | cons x l =>
            rw [hf, List.cons_append, List.cons_prefix_cons] at hpre
            exact ha' c (by simp [hf, hpre.1])
        subst hc
        rw [ha, List.singleton_append, List.cons_prefix_cons] at hpre
        exact ⟨rfl, (ih s hpat hpat').mp hpre.2⟩
      · rintro ⟨rfl, hpre⟩
        rw [ha, List.singleton_append, List.cons_prefix_cons]
        exact ⟨rfl, (ih s hpat hpat').mpr hpre⟩

/-- **Replacing in an encoding.** -/
theorem replaceAll_flatMap (hpat : pat ≠ []) (h : Plain f g pat) (s : List α) :
    replaceAll (pat.map g) (rep.flatMap f) (s.flatMap f) = (replaceAll pat rep s).flatMap f := by
  have hmap : pat.map g ≠ [] := by simpa using hpat
  have hcode : pat.flatMap f = pat.map g := by
    rw [List.map_eq_flatMap]
    exact List.flatMap_congr fun a ha => h.code a ha
  induction s using replace_induction hpat with
  | nil => simp
  | found v ih =>
    rw [List.flatMap_append, hcode, replaceAll_pattern hmap, replaceAll_pattern hpat, ih,
      List.flatMap_append]
  | other c s hnot ih =>
    rw [replaceAll_cons hnot, List.flatMap_cons, List.flatMap_cons, ← ih]
    have hstart : ¬ pat.map g <+: f c ++ s.flatMap f := by
      rw [← List.flatMap_cons, h.prefix_iff]
      exact hnot
    obtain ⟨a, pat, rfl⟩ := List.exists_cons_of_ne_nil hpat
    by_cases hc : c = a
    · have hone : f c = [g c] := h.code c (hc ▸ List.mem_cons_self)
      rw [hone, List.singleton_append] at hstart ⊢
      rw [replaceAll_cons hstart, List.singleton_append]
    · -- no occurrence starts inside the code of `c`
      have hno : g a ∉ f c := fun hmem => hc (h.only a List.mem_cons_self c hmem)
      generalize f c = code at hno
      induction code with
      | nil => rfl
      | cons x code ihc =>
        rw [List.mem_cons, not_or] at hno
        rw [List.cons_append, replaceAll_cons, ihc hno.2, List.cons_append]
        rw [List.map_cons, List.cons_prefix_cons]
        exact fun hpre => hno.1 hpre.1

end Encoding

end Lemmas

end Replace
