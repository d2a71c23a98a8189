import Mathlib.Data.List.Flatten
import Mathlib.Data.List.TakeWhile

/-!
# Regular expressions that are tried in order

Expressions as a backtracking matcher reads them: alternatives from the left to the right, and a
repetition as long as it can be. `rests r s` are the ways to read `r` at the front of `s`, in this
order, each with what it leaves. The first one is the match.

## Main definitions

* `Expr`, `Expr.rests` — expressions, and the ways to read one
* `Expr.search` — the leftmost match
* `Expr.pieces` — all matches, one after the other

## Main results

* `length_lt_of_search` — an expression that is not nullable reads something
* `flatten_pieces` — an expression that matches at the front of every list leaves nothing out
-/

namespace Matching

variable {α : Type*}

/-- An expression. Only the repetition of a class of elements is needed. -/
inductive Expr (α : Type*) where
  | empty
  | char (p : α → Bool)
  | seq (r q : Expr α)
  | alt (r q : Expr α)
  | opt (r : Expr α)
  | many (p : α → Bool)
  | notAhead (r : Expr α)

namespace Expr

/-- The ways to read at least one element of a class, the longest one first. -/
def manyRests (p : α → Bool) : List α → List (List α)
  | [] => []
  | a :: s => if p a then manyRests p s ++ [s] else []

/-- What is left behind an expression, for each way to read it. -/
def rests : Expr α → List α → List (List α)
  | empty, s => [s]
  | char _, [] => []
  | char p, a :: s => if p a then [s] else []
  | seq r q, s => (rests r s).flatMap (rests q)
  | alt r q, s => rests r s ++ rests q s
  | opt r, s => rests r s ++ [s]
  | many p, s => manyRests p s
  | notAhead r, s => if (rests r s).isEmpty then [s] else []

/-- The elements of a list, one after the other. -/
def literal (eq : α → α → Bool) : List α → Expr α
  | [] => empty
  | a :: s => seq (char (eq a)) (literal eq s)

/-- Whether an expression may be read without an element. -/
def nullable : Expr α → Bool
  | empty => true
  | char _ => false
  | seq r q => r.nullable && q.nullable
  | alt r q => r.nullable || q.nullable
  | opt _ => true
  | many _ => false
  | notAhead _ => true

/-- The match at the front: what it reads, and what is left. -/
def front (r : Expr α) (s : List α) : Option (List α × List α) :=
  (r.rests s).head?.map fun rest => (s.take (s.length - rest.length), rest)

/-- The leftmost match, with what is in front of it and what is behind it. -/
def search (r : Expr α) : List α → Option (List α × List α × List α)
  | [] => (r.front []).map fun (m, rest) => ([], m, rest)
  | a :: s =>
    match r.front (a :: s) with
    | some (m, rest) => some ([], m, rest)
    | none => (search r s).map fun (before, m, rest) => (a :: before, m, rest)

section Lemmas

variable {r q : Expr α} {p : α → Bool} {a : α} {s t m before : List α}

theorem suffix_of_mem_manyRests (h : t ∈ manyRests p s) : t <:+ s ∧ t.length < s.length := by
  induction s with
  | nil => cases h
  | cons a s ih =>
    rw [manyRests] at h
    split at h
    · rcases List.mem_append.mp h with hs | hs
      · obtain ⟨hsuff, hlt⟩ := ih hs
        exact ⟨hsuff.trans (List.suffix_cons a s), Nat.lt_succ_of_lt hlt⟩
      · obtain rfl := List.mem_singleton.mp hs
        exact ⟨List.suffix_cons a t, Nat.lt_succ_self _⟩
    · cases h

/-- What is left is the end of the list. -/
theorem suffix_of_mem_rests (h : t ∈ r.rests s) : t <:+ s := by
  induction r generalizing s t with
  | empty =>
    obtain rfl := List.mem_singleton.mp h
    exact List.suffix_rfl
  | char p =>
    cases s with
    | nil => cases h
    | cons a s =>
      rw [rests] at h
      split at h
      · obtain rfl := List.mem_singleton.mp h
        exact List.suffix_cons a t
      · cases h
  | seq r q ihr ihq =>
    obtain ⟨u, hu, ht⟩ := List.mem_flatMap.mp h
    exact (ihq ht).trans (ihr hu)
  | alt r q ihr ihq => exact (List.mem_append.mp h).elim ihr ihq
  | opt r ih =>
    rcases List.mem_append.mp h with hr | hs
    · exact ih hr
    · obtain rfl := List.mem_singleton.mp hs
      exact List.suffix_rfl
  | many p => exact (suffix_of_mem_manyRests h).1
  | notAhead r ih =>
    rw [rests] at h
    split at h
    · obtain rfl := List.mem_singleton.mp h
      exact List.suffix_rfl
    · cases h

/-- An expression that is not nullable reads something. -/
theorem length_lt_of_mem_rests (hr : r.nullable = false) (h : t ∈ r.rests s) :
    t.length < s.length := by
  induction r generalizing s t with
  | empty => cases hr
  | char p =>
    cases s with
    | nil => cases h
    | cons a s =>
      rw [rests] at h
      split at h
      · obtain rfl := List.mem_singleton.mp h
        exact Nat.lt_succ_self _
      · cases h
  | seq r q ihr ihq =>
    obtain ⟨u, hu, ht⟩ := List.mem_flatMap.mp h
    rcases Bool.and_eq_false_iff.mp hr with hr | hq
    · exact (suffix_of_mem_rests ht).length_le.trans_lt (ihr hr hu)
    · exact (ihq hq ht).trans_le (suffix_of_mem_rests hu).length_le
  | alt r q ihr ihq =>
    obtain ⟨hr, hq⟩ := Bool.or_eq_false_iff.mp hr
    exact (List.mem_append.mp h).elim (ihr hr) (ihq hq)
  | opt r ih => cases hr
  | many p => exact (suffix_of_mem_manyRests h).2
  | notAhead r ih => cases hr

theorem append_of_front (h : r.front s = some (m, t)) : m ++ t = s := by
  obtain ⟨rest, hrest, heq⟩ := Option.map_eq_some_iff.mp h
  obtain ⟨rfl, rfl⟩ := Prod.mk.inj heq
  have hdrop := List.suffix_iff_eq_drop.mp (suffix_of_mem_rests (List.mem_of_head? hrest))
  calc s.take (s.length - rest.length) ++ rest
      = s.take (s.length - rest.length) ++ s.drop (s.length - rest.length) := by rw [← hdrop]
    _ = s := List.take_append_drop _ _

theorem length_lt_of_front (hr : r.nullable = false) (h : r.front s = some (m, t)) :
    t.length < s.length := by
  obtain ⟨rest, hrest, heq⟩ := Option.map_eq_some_iff.mp h
  obtain ⟨-, rfl⟩ := Prod.mk.inj heq
  exact length_lt_of_mem_rests hr (List.mem_of_head? hrest)

theorem search_of_front (h : r.front s = some (m, t)) : r.search s = some ([], m, t) := by
  cases s with
  | nil => rw [search, h, Option.map_some]
  | cons a s => rw [search, h]

theorem length_lt_of_search (hr : r.nullable = false) (h : r.search s = some (before, m, t)) :
    t.length < s.length := by
  induction s generalizing before with
  | nil =>
    obtain ⟨⟨m', rest⟩, hx, heq⟩ := Option.map_eq_some_iff.mp h
    obtain ⟨-, hrest⟩ := Prod.mk.inj heq
    obtain ⟨-, rfl⟩ := Prod.mk.inj hrest
    exact length_lt_of_front hr hx
  | cons a s ih =>
    rw [search] at h
    split at h
    · next m' rest hfront =>
      obtain ⟨-, heq⟩ := Prod.mk.inj (Option.some.inj h)
      obtain ⟨rfl, rfl⟩ := Prod.mk.inj heq
      exact length_lt_of_front hr hfront
    · obtain ⟨⟨before', m', rest⟩, hx, heq⟩ := Option.map_eq_some_iff.mp h
      obtain ⟨-, rfl, rfl⟩ : a :: before' = before ∧ m' = m ∧ rest = t := by simpa using heq
      exact Nat.lt_succ_of_lt (ih hx)

end Lemmas

/-! ### All matches -/

/-- The matches of an expression that is not nullable, from the left to the right. -/
def pieces (r : Expr α) (hr : r.nullable = false) (s : List α) : List (List α) :=
  match _h : r.search s with
  | none => []
  | some (_, m, rest) => m :: pieces r hr rest
termination_by s.length
decreasing_by exact length_lt_of_search hr _h

/-- The expression matches at the front of every list that is not empty. -/
def Covers (r : Expr α) : Prop := ∀ a s, r.rests (a :: s) ≠ []

section Pieces

variable {r q : Expr α} {hr : r.nullable = false} {p : α → Bool} {a : α} {s t m : List α}

theorem pieces_of_front (h : r.front s = some (m, t)) :
    r.pieces hr s = m :: r.pieces hr t := by
  rw [pieces, search_of_front h]

theorem pieces_nil : r.pieces hr [] = [] := by
  have hnone : r.search [] = none := by
    refine Option.eq_none_iff_forall_ne_some.mpr ?_
    rintro ⟨before, m, t⟩ h
    exact absurd (length_lt_of_search hr h) (Nat.not_lt_zero _)
  rw [pieces, hnone]

theorem exists_front (hne : r.rests s ≠ []) : ∃ m t, r.front s = some (m, t) := by
  obtain ⟨t, ts, hcons⟩ := List.exists_cons_of_ne_nil hne
  exact ⟨_, t, by rw [front, hcons]; rfl⟩

/-- **Nothing is left out**, if there is always a match at the front. -/
theorem flatten_pieces (hcov : r.Covers) (s : List α) : (r.pieces hr s).flatten = s := by
  induction hlen : s.length using Nat.strong_induction_on generalizing s with
  | _ len ih =>
    subst hlen
    cases s with
    | nil => rw [pieces_nil, List.flatten_nil]
    | cons a s =>
      obtain ⟨m, t, hfront⟩ := exists_front (hcov a s)
      rw [pieces_of_front hfront, List.flatten_cons, ih _ (length_lt_of_front hr hfront) t rfl]
      exact append_of_front hfront

/-- A class reads as much as it can. -/
theorem head?_manyRests (ha : p a = true) :
    (manyRests p (a :: s)).head? = some (s.dropWhile p) := by
  induction s generalizing a with
  | nil => rw [manyRests, if_pos ha]; rfl
  | cons b s ih =>
    rw [manyRests, if_pos ha, List.head?_append]
    by_cases hb : p b = true
    · rw [ih hb, List.dropWhile_cons_of_pos hb]
      rfl
    · rw [manyRests, if_neg hb, List.dropWhile_cons_of_neg hb]
      rfl

theorem rests_many_ne_nil (ha : p a = true) : (many p).rests (a :: s) ≠ [] := by
  intro hnil
  have hhead := head?_manyRests (s := s) ha
  rw [show manyRests p (a :: s) = [] from hnil] at hhead
  cases hhead

theorem rests_alt_left (h : r.rests s ≠ []) : (alt r q).rests s ≠ [] :=
  List.append_ne_nil_of_left_ne_nil h _

theorem rests_alt_right (h : q.rests s ≠ []) : (alt r q).rests s ≠ [] :=
  List.append_ne_nil_of_right_ne_nil _ h

/-- What may be left out in front does not matter. -/
theorem rests_opt_seq (h : q.rests s ≠ []) : (seq (opt r) q).rests s ≠ [] := by
  rw [rests, rests, List.flatMap_append]
  refine List.append_ne_nil_of_right_ne_nil _ ?_
  rwa [List.flatMap_singleton]

end Pieces

end Expr

end Matching
