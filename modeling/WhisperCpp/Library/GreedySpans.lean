import Mathlib.Data.List.Basic
import Mathlib.Data.Nat.Init
import Mathlib.Data.Nat.Notation

/-!
# Spans that are kept from left to right

Of spans that are sorted by where they start, each one is kept that starts behind the end of the one
that was kept before. The result depends on the order of spans with the same start only where two of
them are next.

## Main definitions

* `keep` — the spans that are kept
* `Next`, `Reached` — the spans that may be kept next, and the places where one is looked for
* `Forkless` — there is only one next span everywhere

## Main results

* `keep_congr` — without a fork the order does not matter
* `forkless_of_heads` — there is no fork if it can be ruled out behind a known start
-/

namespace GreedySpans

variable {α : Type*} (start stop : α → ℕ)

/-- The spans that are kept from `c` on. -/
def keep : ℕ → List α → List α
  | _, [] => []
  | c, a :: l => if c ≤ start a then a :: keep (stop a) l else keep c l

/-- The first span from `c` on. There may be several. -/
structure Next (S : α → Prop) (c : ℕ) (a : α) : Prop where
  mem : S a
  le : c ≤ start a
  first : ∀ b, S b → c ≤ start b → start a ≤ start b

/-- The ends of spans that may be kept. -/
inductive Reached (S : α → Prop) : ℕ → Prop
  | zero : Reached S 0
  | next {c : ℕ} {a : α} : Reached S c → Next start S c a → Reached S (stop a)

/-- No two spans may be kept next. -/
def Forkless (S : α → Prop) : Prop :=
  ∀ c, Reached start stop S c → ∀ a b, Next start S c a → Next start S c b → a = b

/-- The spans of a list that is sorted by where they start. -/
structure Lists (S : α → Prop) (l : List α) : Prop where
  sorted : l.Pairwise fun a b => start a ≤ start b
  mem_iff : ∀ a, a ∈ l ↔ S a

variable {start stop} {S : α → Prop} {l m : List α} {a b : α} {c : ℕ}

/-- The next span is the first one of the list from `c` on, and it is looked for in the whole list
again. -/
theorem keep_eq (hpos : ∀ a ∈ l, start a < stop a) : keep start stop c l =
    match l.find? fun a => c ≤ start a with
    | none => []
    | some a => a :: keep start stop (stop a) l := by
  induction l generalizing c with
  | nil => rfl
  | cons x l ih =>
    obtain ⟨hx, hl⟩ := List.forall_mem_cons.mp hpos
    by_cases hc : c ≤ start x
    · have hnot : ¬ stop x ≤ start x := Nat.not_le.mpr hx
      simp [keep, hc, hnot]
    · rw [keep, if_neg hc, ih hl, List.find?_cons_of_neg (by simpa using hc)]
      cases hfind : l.find? fun a => c ≤ start a with
      | none => rfl
      | some a =>
        have ha := hl a (List.mem_of_find?_eq_some hfind)
        have hca : c ≤ start a := by simpa using List.find?_some hfind
        have hnot : ¬ stop a ≤ start x := by omega
        simp [keep, hnot]

/-- What is found in a sorted list is next. -/
theorem Lists.next_of_find? (h : Lists start S l) (hfind : l.find? (fun a => c ≤ start a) = some a) :
    Next start S c a := by
  obtain ⟨hle, before, after, rfl, hbefore⟩ := List.find?_eq_some_iff_append.mp hfind
  refine ⟨(h.mem_iff a).mp (List.mem_of_find?_eq_some hfind), by simpa using hle, ?_⟩
  intro b hb hcb
  rcases List.mem_append.mp ((h.mem_iff b).mpr hb) with hmem | hmem
  · have hnot : ¬ c ≤ start b := by simpa using hbefore b hmem
    exact absurd hcb hnot
  · rcases List.mem_cons.mp hmem with rfl | hmem
    · exact Nat.le_refl _
    · exact (List.pairwise_cons.mp (List.pairwise_append.mp h.sorted).2.1).1 b hmem

/-- If there is a next span, one is found. -/
theorem Lists.exists_find? (h : Lists start S l) (ha : Next start S c a) :
    ∃ b, l.find? (fun a => c ≤ start a) = some b := by
  rw [← Option.isSome_iff_exists, List.find?_isSome]
  exact ⟨a, (h.mem_iff a).mpr ha.mem, by simpa using ha.le⟩

/-- Of sorted spans `a` is kept next. -/
theorem Lists.keep_of_next (h : Lists start S l) (hpos : ∀ a, S a → start a < stop a)
    (hfind : l.find? (fun a => c ≤ start a) = some a) :
    keep start stop c l = a :: keep start stop (stop a) l := by
  rw [keep_eq fun a ha => hpos a ((h.mem_iff a).mp ha), hfind]

/-- **Without a fork the order of the spans does not matter.** -/
theorem keep_congr (hpos : ∀ a, S a → start a < stop a) {bound : ℕ}
    (hbound : ∀ a, S a → start a < bound) (hfork : Forkless start stop S) (hl : Lists start S l)
    (hm : Lists start S m) (hc : Reached start stop S c) :
    keep start stop c l = keep start stop c m := by
  -- what is left up to the bound gets shorter
  induction hgap : bound - c using Nat.strong_induction_on generalizing c with
  | _ gap ih =>
    cases hfind : l.find? fun a => c ≤ start a with
    | none =>
      have hnone : m.find? (fun a => c ≤ start a) = none := by
        cases hfind' : m.find? fun a => c ≤ start a with
        | none => rfl
        | some b =>
          obtain ⟨a, ha⟩ := hl.exists_find? (hm.next_of_find? hfind')
          rw [hfind] at ha
          cases ha
      rw [keep_eq fun a ha => hpos a ((hl.mem_iff a).mp ha), hfind,
        keep_eq fun a ha => hpos a ((hm.mem_iff a).mp ha), hnone]
    | some a =>
      have ha := hl.next_of_find? hfind
      obtain ⟨b, hfind'⟩ := hm.exists_find? ha
      obtain rfl := hfork c hc a b ha (hm.next_of_find? hfind')
      rw [hl.keep_of_next hpos hfind, hm.keep_of_next hpos hfind']
      have hstop := hpos a ha.mem
      have hlt := hbound a ha.mem
      have hle := ha.le
      rw [ih (bound - stop a) (by omega) (hc.next ha) rfl]

/-- **There is no fork** if two next spans are the same wherever all lists agree up to there. -/
theorem forkless_of_heads {V : List α → Prop} (hV : ∀ l, V l → Lists start S l)
    (hpos : ∀ a, S a → start a < stop a)
    (hhead : ∀ c kept, (∀ l, V l → keep start stop 0 l = kept ++ keep start stop c l) →
      ∀ a b, Next start S c a → Next start S c b → a = b) : Forkless start stop S := by
  have hkept : ∀ c, Reached start stop S c →
      ∃ kept, ∀ l, V l → keep start stop 0 l = kept ++ keep start stop c l := by
    intro c hc
    induction hc with
    | zero => exact ⟨[], fun l _ => rfl⟩
    | next hc ha ih =>
      rename_i c a
      obtain ⟨kept, hkept⟩ := ih
      refine ⟨kept ++ [a], fun l hl => ?_⟩
      obtain ⟨b, hfind⟩ := (hV l hl).exists_find? ha
      obtain rfl := hhead c kept hkept a b ha ((hV l hl).next_of_find? hfind)
      rw [hkept l hl, (hV l hl).keep_of_next hpos hfind, List.append_assoc]
      rfl
  intro c hc
  obtain ⟨kept, hkept⟩ := hkept c hc
  exact hhead c kept hkept

end GreedySpans
