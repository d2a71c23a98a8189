import Mathlib.Data.List.DropRight

/-!
# Cutting a marked list

A list is cut behind its marked entries. Of the pieces that this gives, blanks at their ends and
pieces of nothing but blanks do not count.

## Main definitions

* `pieces` — the pieces
* `unmarked` — a list without marks
* `content` — what counts

## Main results

* `pieces_unmarked_append` — the first piece
* `content_pieces_append` — blanks in front do not count
* `mark_eq_of_content_eq` — what counts shows which entries are marked
-/

namespace MarkedCuts

variable {α : Type*}

/-- The list is cut behind the marked entries. What is behind the last one is a piece too. -/
def pieces : List (α × Bool) → List (List α)
  | [] => [[]]
  | (c, true) :: rest => [c] :: pieces rest
  | (c, false) :: rest => (pieces rest).modifyHead (c :: ·)

/-- No entry is marked. -/
def unmarked (s : List α) : List (α × Bool) := s.map fun c => (c, false)

theorem pieces_ne_nil (xs : List (α × Bool)) : pieces xs ≠ [] := by
  induction xs with
  | nil => exact List.cons_ne_nil _ _
  | cons x xs ih =>
    obtain ⟨c, mark⟩ := x
    cases mark with
    | true => exact List.cons_ne_nil _ _
    | false => simpa [pieces] using ih

/-- **The first piece** ends with the first marked entry. -/
theorem pieces_unmarked_append (s : List α) (c : α) (xs : List (α × Bool)) :
    pieces (unmarked s ++ (c, true) :: xs) = (s ++ [c]) :: pieces xs := by
  induction s with
  | nil => rfl
  | cons d s ih =>
    show (pieces (unmarked s ++ (c, true) :: xs)).modifyHead (d :: ·) = _
    rw [ih]
    rfl

/-- Without a mark there is one piece. -/
theorem pieces_unmarked (s : List α) : pieces (unmarked s) = [s] := by
  induction s with
  | nil => rfl
  | cons d s ih =>
    show (pieces (unmarked s)).modifyHead (d :: ·) = _
    rw [ih]
    rfl

/-! ### What counts -/

section Content

variable (blank : α → Bool)

/-- Without the blanks at both ends. -/
def trim (s : List α) : List α := (s.dropWhile blank).rdropWhile blank

/-- The trimmed pieces that are not empty. -/
def content (parts : List (List α)) : List (List α) :=
  (parts.map (trim blank)).filter fun s => !s.isEmpty

variable {blank} {s w : List α} {c : α}

theorem trim_append_left (hw : w.all blank = true) : trim blank (w ++ s) = trim blank s := by
  rw [trim, trim, List.dropWhile_append_of_pos (List.all_eq_true.1 hw)]

theorem trim_append_right (hw : w.all blank = true) : trim blank (s ++ w) = trim blank s := by
  rw [List.all_eq_true] at hw
  have hright (s : List α) : (s ++ w).rdropWhile blank = s.rdropWhile blank := by
    rw [List.rdropWhile, List.reverse_append,
      List.dropWhile_append_of_pos fun c hc => hw c (List.mem_reverse.1 hc)]
    rfl
  rw [trim, trim, List.dropWhile_append]
  split
  · rename_i hnil
    rw [List.isEmpty_iff] at hnil
    rw [hnil, List.dropWhile_eq_nil_iff.2 hw]
  · exact hright _

theorem trim_eq_nil (hw : w.all blank = true) : trim blank w = [] := by
  have h := trim_append_left (s := []) hw
  rwa [List.append_nil] at h

@[simp] theorem content_nil : content blank ([] : List (List α)) = [] := rfl

theorem content_append (parts parts' : List (List α)) :
    content blank (parts ++ parts') = content blank parts ++ content blank parts' := by
  rw [content, List.map_append, List.filter_append]
  rfl

theorem content_cons (part : List α) (parts : List (List α)) :
    content blank (part :: parts) = content blank [part] ++ content blank parts :=
  content_append [part] parts

/-- Only the trimmed piece counts. -/
theorem content_singleton_congr {s s' : List α} (h : trim blank s = trim blank s') :
    content blank [s] = content blank [s'] := by
  rw [content, List.map_singleton, h]
  rfl

theorem content_singleton_of_all (hw : w.all blank = true) : content blank [w] = [] := by
  rw [content, List.map_singleton, trim_eq_nil hw]
  rfl

/-- A blank in front does not count, marked or not. -/
theorem content_pieces_cons (hc : blank c = true) (mark : Bool) (xs : List (α × Bool)) :
    content blank (pieces ((c, mark) :: xs)) = content blank (pieces xs) := by
  have hall : [c].all blank = true := by simpa using hc
  cases mark with
  | true =>
    show content blank ([c] :: pieces xs) = _
    rw [content_cons, content_singleton_of_all hall, List.nil_append]
  | false =>
    obtain ⟨part, parts, hparts⟩ := List.exists_cons_of_ne_nil (pieces_ne_nil xs)
    have htrim : trim blank (c :: part) = trim blank part := trim_append_left (w := [c]) hall
    rw [pieces, hparts]
    show content blank ((c :: part) :: parts) = _
    rw [content_cons, content_cons part, content_singleton_congr htrim]

/-- **Blanks in front do not count.** -/
theorem content_pieces_append {w xs : List (α × Bool)} (hw : ∀ x ∈ w, blank x.1 = true) :
    content blank (pieces (w ++ xs)) = content blank (pieces xs) := by
  induction w with
  | nil => rfl
  | cons x w ih =>
    rw [List.forall_mem_cons] at hw
    rw [List.cons_append, content_pieces_cons hw.1, ih hw.2]

/-- The trimmed piece begins with an entry that is not blank. -/
theorem trim_cons_of_false (hc : blank c = false) (s : List α) :
    trim blank (c :: s) = c :: s.rdropWhile blank := by
  have hfront : (c :: s).dropWhile blank = c :: s := by simp [hc]
  rw [trim, hfront, List.rdropWhile, List.reverse_cons, List.dropWhile_append]
  split
  · rename_i hnil
    rw [List.isEmpty_iff] at hnil
    rw [List.rdropWhile, hnil]
    simp [hc]
  · rw [List.reverse_append]
    rfl

theorem content_cons_of_false (hc : blank c = false) (s : List α) (parts : List (List α)) :
    content blank ((c :: s) :: parts) = (c :: s.rdropWhile blank) :: content blank parts := by
  rw [content_cons, content, List.map_singleton, trim_cons_of_false hc]
  rfl

theorem trim_rdropWhile (s : List α) : trim blank (s.rdropWhile blank) = trim blank s := by
  conv_rhs => rw [← List.rdropWhile_append_rtakeWhile (p := blank) (l := s)]
  exact (trim_append_right (List.all_eq_true.2 fun _ => List.mem_rtakeWhile_imp)).symm

/-- What counts behind an entry that is not blank can be read off, whether it is marked or not. -/
theorem content_pieces_cons_of_false (hc : blank c = false) (mark : Bool) (xs : List (α × Bool)) :
    ∃ s parts, content blank (pieces ((c, mark) :: xs)) = (c :: s) :: parts ∧
      content blank (pieces xs) = content blank [s] ++ parts := by
  cases mark with
  | true =>
    refine ⟨[], content blank (pieces xs), ?_, rfl⟩
    show content blank ([c] :: pieces xs) = _
    rw [content_cons_of_false hc]
    rfl
  | false =>
    obtain ⟨part, parts, hparts⟩ := List.exists_cons_of_ne_nil (pieces_ne_nil xs)
    refine ⟨part.rdropWhile blank, content blank parts, ?_, ?_⟩
    · rw [pieces, hparts]
      exact content_cons_of_false hc part parts
    · rw [hparts, content_cons, content_singleton_congr (trim_rdropWhile part)]

/-- The piece that a list starts with. -/
theorem exists_pieces_cons (c : α) (mark : Bool) (xs : List (α × Bool)) :
    ∃ s parts, pieces ((c, mark) :: xs) = (c :: s) :: parts := by
  cases mark with
  | true => exact ⟨[], _, rfl⟩
  | false =>
    obtain ⟨part, parts, hparts⟩ := List.exists_cons_of_ne_nil (pieces_ne_nil xs)
    exact ⟨part, parts, by rw [pieces, hparts]; rfl⟩

/-- A mark between two entries that are not blank counts. -/
theorem content_pieces_ne {d : α} (hc : blank c = false) (hd : blank d = false) (mark : Bool)
    (xs ys : List (α × Bool)) :
    content blank (pieces ((c, true) :: xs)) ≠
      content blank (pieces ((c, false) :: (d, mark) :: ys)) := by
  obtain ⟨s, parts, hparts⟩ := exists_pieces_cons d mark ys
  rw [pieces, pieces, hparts]
  show content blank ([c] :: pieces xs) ≠ content blank ((c :: d :: s) :: parts)
  rw [content_cons_of_false hc, content_cons_of_false hc]
  intro heq
  have htail := (List.cons.inj (List.cons.inj heq).1).2
  rw [List.rdropWhile_nil, eq_comm, List.rdropWhile_eq_nil_iff] at htail
  rw [htail d List.mem_cons_self] at hd
  cases hd

/-- **What counts shows the marks** between entries that are not blank. -/
theorem mark_eq_of_content_eq {xs ys : List (α × Bool)} (hfst : xs.map Prod.fst = ys.map Prod.fst)
    (h : content blank (pieces xs) = content blank (pieces ys)) {i : ℕ} {c d : α}
    {mark mark' : Bool} (hx : xs[i]? = some (c, mark)) (hy : ys[i]? = some (c, mark'))
    (hnext : (xs.map Prod.fst)[i + 1]? = some d) (hc : blank c = false) (hd : blank d = false) :
    mark = mark' := by
  induction xs generalizing ys i with
  | nil => simp at hx
  | cons x xs ih =>
    cases ys with
    | nil => simp at hy
    | cons y ys =>
      obtain ⟨e, m⟩ := x
      obtain ⟨e', m'⟩ := y
      rw [List.map_cons, List.map_cons] at hfst
      obtain ⟨rfl, hrest⟩ := List.cons.inj hfst
      have hbehind : content blank (pieces xs) = content blank (pieces ys) := by
        cases hblank : blank e with
        | true => rwa [content_pieces_cons hblank, content_pieces_cons hblank] at h
        | false =>
          obtain ⟨s, parts, hfirst, hxs⟩ := content_pieces_cons_of_false hblank m xs
          obtain ⟨s', parts', hfirst', hys⟩ := content_pieces_cons_of_false hblank m' ys
          rw [hfirst, hfirst'] at h
          obtain ⟨heq, rfl⟩ := List.cons.inj h
          obtain ⟨-, rfl⟩ := List.cons.inj heq
          rw [hxs, hys]
      cases i with
      | zero =>
        obtain ⟨rfl, rfl⟩ := Prod.mk.inj (Option.some.inj hx)
        obtain ⟨-, rfl⟩ := Prod.mk.inj (Option.some.inj hy)
        -- the entry behind is not blank, so a mark in between counts
        cases xs with
        | nil => simp at hnext
        | cons x xs =>
          cases ys with
          | nil => simp at hrest
          | cons y ys =>
            obtain ⟨d', k⟩ := x
            obtain ⟨d'', k'⟩ := y
            obtain rfl : d' = d := Option.some.inj hnext
            obtain ⟨rfl, -⟩ := List.cons.inj hrest
            cases m <;> cases m'
            · rfl
            · exact absurd h.symm (content_pieces_ne hc hd k _ _)
            · exact absurd h (content_pieces_ne hc hd k' _ _)
            · rfl
      | succ i => exact ih hrest hbehind hx hy hnext

end Content

end MarkedCuts
