import Mathlib.Data.List.Monad
import WhisperCpp.Full.DtwPath

/-!
# Placing the times of the alignment

The alignment of a window has a row for the token in front of the text and one for every text token
of the segments of the window, which are the last of the result. Going along its path, every new row
puts its time on the next text token. Two iterators keep the place, over the segments and over the
tokens of the segment, and both are moved on behind the token that was written.

## Main definitions

* `Cursor`, `Cursor.deref`, `Cursor.next` — the iterators
* `skipToText`, `placeRow`, `place` — the loop
* `Placed` — what it is to do
* `Placeable` — a condition on the segments

## Main results

* `place_iff` — when the times are placed
* `alignWindow_isPath` — the path of a window is one that can be placed on its segments
-/

namespace WhisperCpp

namespace Full

open Warping (Step IsPath)

/-- A token with `t_dtw`. -/
structure DtwToken (K : Type*) extends TokenData K where
  tDtw : ℤ

/-- `seg_i` and `tok_i`, as the numbers of the segment and of the token in it. -/
structure Cursor where
  segI : ℕ
  tokI : ℕ
  deriving DecidableEq, Repr

/-- The state of the loop; `written` is not in the source, it collects the tokens that
were written. -/
structure Placement (K : Type*) where
  resultAll : List (List (DtwToken K))
  cursor : Cursor
  lastV : ℤ
  written : List Cursor

section Definitions

variable {K : Type*} (eot : ℕ) (segs : List (List (DtwToken K)))

/-- `*tok_i`. -/
def Cursor.deref (c : Cursor) : Except Fault (DtwToken K) :=
  match segs[c.segI]?.bind (·[c.tokI]?) with
  | some t => .ok t
  | none => .error .outOfBounds

/-- `++tok_i`, and behind the last token of a segment to the first one of the next; behind the last
segment there are no tokens to begin with. -/
def Cursor.next (c : Cursor) : Except Fault Cursor :=
  match segs[c.segI]? with
  | none => .error .outOfBounds
  | some tokens =>
    if c.tokI + 1 = tokens.length then
      if c.segI + 1 < segs.length then .ok ⟨c.segI + 1, 0⟩ else .error .outOfBounds
    else .ok ⟨c.segI, c.tokI + 1⟩

theorem Cursor.next_lt {c c' : Cursor} {t : DtwToken K} (ht : c.deref segs = .ok t)
    (hn : c.next segs = .ok c') :
    Prod.Lex (· < ·) (· < ·) (segs.length - c'.segI, (segs.getD c'.segI []).length - c'.tokI)
      (segs.length - c.segI, (segs.getD c.segI []).length - c.tokI) := by
  rw [Cursor.deref] at ht
  rw [Cursor.next] at hn
  cases hseg : segs[c.segI]? with
  | none => simp [hseg] at hn
  | some tokens =>
    obtain ⟨hlt, htokens⟩ := List.getElem?_eq_some_iff.1 hseg
    cases htok : tokens[c.tokI]? with
    | none => simp [hseg, htok] at ht
    | some u =>
      have hpos := (List.getElem?_eq_some_iff.1 htok).1
      simp only [hseg] at hn
      split_ifs at hn with hend hnext
      · cases hn
        exact Prod.Lex.left _ _ (by simp only; omega)
      · cases hn
        refine Prod.Lex.right _ ?_
        simp only [List.getD_eq_getElem?_getD, hseg, Option.getD_some]
        omega

/-- `while (!(tok_i->id < whisper_token_eot(ctx)))`. -/
def skipToText (c : Cursor) : Except Fault Cursor :=
  match _ht : c.deref segs with
  | .error e => .error e
  | .ok t =>
    if t.id < eot then .ok c
    else
      match _hn : c.next segs with
      | .error e => .error e
      | .ok c' => skipToText c'
termination_by (segs.length - c.segI, (segs.getD c.segI []).length - c.tokI)
decreasing_by exact Cursor.next_lt segs _ht _hn

/-- `tok_i->t_dtw = timestamp`. -/
def setTDtw (c : Cursor) (timestamp : ℤ) : List (List (DtwToken K)) :=
  segs.modify c.segI fun tokens => tokens.modify c.tokI fun t => { t with tDtw := timestamp }

variable (seek : ℤ)

/-- A new row. -/
def placeNew (p : Placement K) (row : ℤ × ℤ) : Except Fault (Placement K) :=
  (skipToText eot p.resultAll p.cursor).bind fun c =>
    let segs := setTDtw p.resultAll c (row.2 * 2 + seek)
    (c.next segs).map fun c' => ⟨segs, c', row.1, p.written ++ [c]⟩

/-- The loop body; `row` is a column of the alignment. -/
def placeRow (p : Placement K) (row : ℤ × ℤ) : Except Fault (Placement K) :=
  if row.1 = p.lastV then .ok p else placeNew eot seek p row

/-- "Place timestamps on segments", for the tokens of the segments from `i_segment` on. -/
def place (alignment : List (ℤ × ℤ)) : Except Fault (Placement K) :=
  if segs = [] then .error .outOfBounds
  else alignment.foldlM (placeRow eot seek) ⟨segs, ⟨0, 0⟩, 0, []⟩

/-! ### What the loop is to do -/

/-- The text tokens among `tokens`, of segment `i`, the first of which is number `j`. -/
def textCursors (i j : ℕ) (tokens : List (DtwToken K)) : List Cursor :=
  ((tokens.zipIdx j).filter fun t => t.1.id < eot).map fun t => ⟨i, t.2⟩

/-- The text tokens of segments, the first of which is number `i`. -/
def textPositions (i : ℕ) (segs : List (List (DtwToken K))) : List Cursor :=
  (segs.zipIdx i).flatMap fun tokens => textCursors eot tokens.2 0 tokens.1

/-- The text tokens, in order. -/
def textTokensOf (tokens : List (DtwToken K)) : List (DtwToken K) := tokens.filter (·.id < eot)

/-- A token without the time that it may get. -/
def withoutTDtw (t : DtwToken K) : DtwToken K := if t.id < eot then { t with tDtw := 0 } else t

/-- Every text token is written once, in order, and nothing else is changed; the times do not
decrease. -/
structure Placed (p : Placement K) : Prop where
  written_eq : p.written = textPositions eot 0 segs
  frame : p.resultAll.map (·.map (withoutTDtw eot)) = segs.map (·.map (withoutTDtw eot))
  times : ((textTokensOf eot p.resultAll.flatten).map DtwToken.tDtw).IsChain (· ≤ ·)

/-- No segment without tokens is in front of a text token, and the last segment does not end in
one. -/
structure Placeable : Prop where
  ne_nil : segs ≠ []
  no_gap : ∀ i, segs[i]? = some [] → textTokensOf eot (segs.drop (i + 1)).flatten = []
  last : ∀ t ∈ segs.getLast?.bind List.getLast?, eot ≤ t.id

end Definitions

/-! ### The iterators at a place -/

section Zipper

variable {K : Type*} {eot : ℕ} {before rest : List (List (DtwToken K))}
  {front cur tokens : List (DtwToken K)} {t u : DtwToken K}

/-- The place behind the segments `before` and, in the next one, behind the tokens `front`. -/
def cursorAt (before : List (List (DtwToken K))) (front : List (DtwToken K)) : Cursor :=
  ⟨before.length, front.length⟩

theorem deref_cons :
    (cursorAt before front).deref (before ++ (front ++ t :: cur) :: rest) = .ok t := by
  simp [Cursor.deref, cursorAt]

theorem deref_nil :
    (cursorAt before front).deref (before ++ (front ++ []) :: rest) = .error .outOfBounds := by
  simp [Cursor.deref, cursorAt]

theorem next_cons :
    (cursorAt before front).next (before ++ (front ++ t :: u :: cur) :: rest) =
      .ok (cursorAt before (front ++ [t])) := by
  simp [Cursor.next, cursorAt]

theorem next_segment :
    (cursorAt before front).next (before ++ (front ++ [t]) :: tokens :: rest) =
      .ok (cursorAt (before ++ [front ++ [t]]) []) := by
  simp [Cursor.next, cursorAt]

theorem next_last :
    (cursorAt before front).next (before ++ [front ++ [t]]) = .error .outOfBounds := by
  simp [Cursor.next, cursorAt]

theorem modify_append_cons {α : Type*} (f : α → α) (l r : List α) (a : α) :
    (l ++ a :: r).modify l.length f = l ++ f a :: r := by
  induction l with
  | nil => rfl
  | cons b l ih => simp [ih]

theorem setTDtw_cons (timestamp : ℤ) :
    setTDtw (before ++ (front ++ t :: cur) :: rest) (cursorAt before front) timestamp =
      before ++ (front ++ { t with tDtw := timestamp } :: cur) :: rest := by
  rw [setTDtw, cursorAt, modify_append_cons, modify_append_cons]

/-- The text tokens from a place on. -/
def toWrite (eot : ℕ) (before : List (List (DtwToken K))) (front cur : List (DtwToken K))
    (rest : List (List (DtwToken K))) : List Cursor :=
  textCursors eot before.length front.length cur ++ textPositions eot (before.length + 1) rest

theorem toWrite_cons_text (ht : t.id < eot) :
    toWrite eot before front (t :: cur) rest =
      cursorAt before front :: toWrite eot before (front ++ [t]) cur rest := by
  simp [toWrite, textCursors, cursorAt, ht]

theorem toWrite_cons_of_le (ht : eot ≤ t.id) :
    toWrite eot before front (t :: cur) rest = toWrite eot before (front ++ [t]) cur rest := by
  simp [toWrite, textCursors, Nat.not_lt.2 ht]

theorem toWrite_nil :
    toWrite eot before front [] (tokens :: rest) =
      toWrite eot (before ++ [front]) [] tokens rest := by
  simp [toWrite, textCursors, textPositions]

theorem length_textCursors (i j : ℕ) (tokens : List (DtwToken K)) :
    (textCursors eot i j tokens).length = (textTokensOf eot tokens).length := by
  induction tokens generalizing j with
  | nil => rfl
  | cons t tokens ih =>
    have ih := ih (j + 1)
    rw [textCursors, List.length_map] at ih ⊢
    rw [textTokensOf] at ih ⊢
    by_cases ht : t.id < eot <;> simp [ht, ih]

theorem length_textPositions (i : ℕ) (segs : List (List (DtwToken K))) :
    (textPositions eot i segs).length = (textTokensOf eot segs.flatten).length := by
  induction segs generalizing i with
  | nil => rfl
  | cons tokens segs ih =>
    have ih := ih (i + 1)
    rw [textPositions, List.zipIdx_cons, List.flatMap_cons, List.length_append, length_textCursors,
      ← textPositions, ih, List.flatten_cons, textTokensOf, textTokensOf, textTokensOf,
      List.filter_append, List.length_append]

theorem length_toWrite :
    (toWrite eot before front cur rest).length = (textTokensOf eot (cur ++ rest.flatten)).length := by
  rw [toWrite, List.length_append, length_textCursors, length_textPositions, textTokensOf, textTokensOf,
    textTokensOf, List.filter_append, List.length_append]

/-! ### What is ahead -/

/-- From a place on, the iterators always find a token, and none of the text tokens is the last
token of all. -/
def Clear (eot : ℕ) : List (DtwToken K) → List (List (DtwToken K)) → Prop
  | [], rest => textTokensOf eot rest.flatten = []
  | [t], [] => eot ≤ t.id
  | [_], tokens :: rest => Clear eot tokens rest
  | _ :: u :: cur, rest => Clear eot (u :: cur) rest
termination_by cur rest => (rest.length, cur.length)

theorem textTokensOf_append (a b : List (DtwToken K)) :
    textTokensOf eot (a ++ b) = textTokensOf eot a ++ textTokensOf eot b :=
  List.filter_append ..

theorem textTokensOf_eq_nil {a : List (DtwToken K)} :
    textTokensOf eot a = [] ↔ ∀ t ∈ a, eot ≤ t.id := by
  simp [textTokensOf]

theorem textTokensOf_cons_eq_nil {a : List (DtwToken K)} :
    textTokensOf eot (t :: a) = [] ↔ eot ≤ t.id ∧ textTokensOf eot a = [] := by
  rw [textTokensOf_eq_nil, textTokensOf_eq_nil, List.forall_mem_cons]

theorem clear_of_no_text (h : textTokensOf eot (cur ++ rest.flatten) = []) : Clear eot cur rest := by
  induction cur, rest using Clear.induct with
  | case1 rest => rwa [Clear]
  | case2 t =>
    rw [Clear]
    exact (textTokensOf_cons_eq_nil.1 h).1
  | case3 t tokens rest ih =>
    rw [Clear]
    exact ih (textTokensOf_cons_eq_nil.1 h).2
  | case4 t u cur rest ih =>
    rw [Clear]
    exact ih (textTokensOf_cons_eq_nil.1 h).2

theorem placeable_cons (hs : cur ≠ []) :
    Placeable eot (cur :: tokens :: rest) ↔ Placeable eot (tokens :: rest) := by
  constructor
  · rintro ⟨-, hgap, hlast⟩
    exact ⟨List.cons_ne_nil _ _, fun i hi => hgap (i + 1) hi, by simpa using hlast⟩
  · rintro ⟨-, hgap, hlast⟩
    refine ⟨List.cons_ne_nil _ _, fun i hi => ?_, by simpa using hlast⟩
    cases i with
    | zero => exact absurd (Option.some_inj.1 hi) hs
    | succ i => exact hgap i hi

theorem placeable_tail : Placeable eot ((t :: u :: cur) :: rest) ↔ Placeable eot ((u :: cur) :: rest) := by
  have hlast : ((t :: u :: cur) :: rest).getLast?.bind List.getLast? =
      ((u :: cur) :: rest).getLast?.bind List.getLast? := by
    cases rest <;> simp
  constructor
  · intro h
    refine ⟨List.cons_ne_nil _ _, fun i hi => ?_, hlast ▸ h.last⟩
    cases i with
    | zero => simp at hi
    | succ i => exact h.no_gap (i + 1) hi
  · intro h
    refine ⟨List.cons_ne_nil _ _, fun i hi => ?_, hlast ▸ h.last⟩
    cases i with
    | zero => simp at hi
    | succ i => exact h.no_gap (i + 1) hi

/-- Seen from the first token, this is the condition on the segments. -/
theorem clear_iff_placeable : Clear eot tokens rest ↔ Placeable eot (tokens :: rest) := by
  induction tokens, rest using Clear.induct with
  | case1 rest =>
    rw [Clear]
    constructor
    · intro h
      have hno := textTokensOf_eq_nil.1 h
      refine ⟨List.cons_ne_nil _ _, fun i _ => textTokensOf_eq_nil.2 fun t ht => hno t ?_, ?_⟩
      · obtain ⟨seg, hseg, htseg⟩ := List.mem_flatten.1 ht
        exact List.mem_flatten.2 ⟨seg, List.mem_of_mem_drop hseg, htseg⟩
      · intro t ht
        obtain ⟨seg, hseg, htseg⟩ := Option.bind_eq_some_iff.1 ht
        have hmem : t ∈ ([] :: rest).flatten :=
          List.mem_flatten.2 ⟨seg, List.mem_of_getLast? hseg, List.mem_of_getLast? htseg⟩
        exact hno t hmem
    · intro h
      exact h.no_gap 0 rfl
  | case2 t =>
    rw [Clear]
    constructor
    · intro h
      refine ⟨List.cons_ne_nil _ _, fun i hi => ?_, by simpa using h⟩
      cases i <;> simp at hi
    · intro h
      exact h.last t rfl
  | case3 t tokens rest ih =>
    rw [Clear, ih, placeable_cons (List.cons_ne_nil _ _)]
  | case4 t u cur rest ih =>
    rw [Clear, ih, placeable_tail]

/-! ### One row -/

section Skip

variable {segs : List (List (DtwToken K))} {c : Cursor}

theorem skipToText_of_text (ht : c.deref segs = .ok t) (htext : t.id < eot) :
    skipToText eot segs c = .ok c := by
  rw [skipToText]
  split
  · simp_all
  · simp_all

theorem skipToText_of_le (ht : c.deref segs = .ok t) (htext : eot ≤ t.id) :
    skipToText eot segs c = (c.next segs).bind (skipToText eot segs) := by
  rw [skipToText]
  split
  · simp_all
  · next t' ht' =>
    obtain rfl : t = t' := by simpa [ht] using ht'
    rw [if_neg (Nat.not_lt.2 htext)]
    split <;> next hn => rw [hn]; rfl

end Skip

/-- Skipping leads to the next text token, or over the end on the way. -/
theorem skipToText_spec (hex : toWrite eot before front cur rest ≠ []) :
    (¬ Clear eot cur rest ∧
      ∃ e, skipToText eot (before ++ (front ++ cur) :: rest) (cursorAt before front) = .error e) ∨
    ∃ before' front' t cur' rest',
      before ++ (front ++ cur) :: rest = before' ++ (front' ++ t :: cur') :: rest' ∧
      skipToText eot (before ++ (front ++ cur) :: rest) (cursorAt before front) =
        .ok (cursorAt before' front') ∧
      t.id < eot ∧ (Clear eot cur rest ↔ Clear eot (t :: cur') rest') ∧
      textTokensOf eot (before'.flatten ++ front') = textTokensOf eot (before.flatten ++ front) ∧
      toWrite eot before front cur rest = toWrite eot before' front' (t :: cur') rest' := by
  induction cur, rest using Clear.induct generalizing before front with
  | case1 rest =>
    refine .inl ⟨?_, .outOfBounds, ?_⟩
    · rw [Clear]
      intro hnil
      rw [← List.length_pos_iff, length_toWrite, List.nil_append, hnil] at hex
      exact absurd hex (Nat.lt_irrefl 0)
    · rw [skipToText, deref_nil]
  | case2 t =>
    by_cases ht : t.id < eot
    · exact .inr ⟨before, front, t, [], [], rfl, skipToText_of_text deref_cons ht, ht, Iff.rfl, rfl,
        rfl⟩
    · rw [toWrite_cons_of_le (Nat.not_lt.1 ht)] at hex
      exact absurd rfl hex
  | case3 t tokens rest ih =>
    by_cases ht : t.id < eot
    · exact .inr ⟨before, front, t, [], tokens :: rest, rfl, skipToText_of_text deref_cons ht, ht,
        Iff.rfl, rfl, rfl⟩
    · have hle := Nat.not_lt.1 ht
      have hwrite : toWrite eot before front [t] (tokens :: rest) =
          toWrite eot (before ++ [front ++ [t]]) [] tokens rest := by
        rw [toWrite_cons_of_le hle, toWrite_nil]
      have hderef : (cursorAt before front).deref (before ++ (front ++ [t]) :: tokens :: rest) =
        .ok t := deref_cons
      have hskip := skipToText_of_le hderef hle
      rw [next_segment] at hskip
      have hzip : before ++ (front ++ [t]) :: tokens :: rest =
        (before ++ [front ++ [t]]) ++ ([] ++ tokens) :: rest := by simp
      have htext : textTokensOf eot ((before ++ [front ++ [t]]).flatten ++ []) =
          textTokensOf eot (before.flatten ++ front) := by
        simp [textTokensOf, ht]
      rw [hwrite] at hex ⊢
      rw [Clear, hskip, hzip, ← htext]
      exact ih hex
  | case4 t u cur rest ih =>
    by_cases ht : t.id < eot
    · exact .inr ⟨before, front, t, u :: cur, rest, rfl, skipToText_of_text deref_cons ht, ht,
        Iff.rfl, rfl, rfl⟩
    · have hle := Nat.not_lt.1 ht
      have hderef : (cursorAt before front).deref (before ++ (front ++ t :: u :: cur) :: rest) =
        .ok t := deref_cons
      have hskip := skipToText_of_le hderef hle
      rw [next_cons] at hskip
      have hzip : before ++ (front ++ t :: u :: cur) :: rest =
        before ++ ((front ++ [t]) ++ u :: cur) :: rest := by simp
      have htext : textTokensOf eot (before.flatten ++ (front ++ [t])) =
          textTokensOf eot (before.flatten ++ front) := by
        simp [textTokensOf, ht]
      rw [toWrite_cons_of_le hle] at hex ⊢
      rw [Clear, hskip, hzip, ← htext]
      exact ih hex

/-- What placing a time for a new row does: it is written to the next text token, and the place is
behind that one. -/
structure PlacedOne (eot : ℕ) (p p' : Placement K) (timestamp : ℤ)
    (before : List (List (DtwToken K))) (front cur : List (DtwToken K))
    (rest before' : List (List (DtwToken K))) (front' cur' : List (DtwToken K))
    (rest' : List (List (DtwToken K))) : Prop where
  segs_eq : p'.resultAll = before' ++ (front' ++ cur') :: rest'
  cursor_eq : p'.cursor = cursorAt before' front'
  clear_iff : Clear eot cur rest ↔ Clear eot cur' rest'
  written_eq : p'.written ++ toWrite eot before' front' cur' rest' =
    p.written ++ toWrite eot before front cur rest
  length_eq : (toWrite eot before front cur rest).length =
    (toWrite eot before' front' cur' rest').length + 1
  times_eq : (textTokensOf eot (before'.flatten ++ front')).map DtwToken.tDtw =
    (textTokensOf eot (before.flatten ++ front)).map DtwToken.tDtw ++ [timestamp]
  frame : p'.resultAll.map (·.map (withoutTDtw eot)) = p.resultAll.map (·.map (withoutTDtw eot))

theorem withoutTDtw_setTDtw (ht : t.id < eot) (timestamp : ℤ) :
    withoutTDtw eot { t with tDtw := timestamp } = withoutTDtw eot t := by
  rw [withoutTDtw, withoutTDtw, if_pos ht, if_pos ht]

theorem placeNew_spec {p : Placement K} (hsegs : p.resultAll = before ++ (front ++ cur) :: rest)
    (hcursor : p.cursor = cursorAt before front) (hex : toWrite eot before front cur rest ≠ [])
    (seek : ℤ) (row : ℤ × ℤ) :
    (¬ Clear eot cur rest ∧ ∃ e, placeNew eot seek p row = .error e) ∨
      ∃ p' before' front' cur' rest', placeNew eot seek p row = .ok p' ∧
        PlacedOne eot p p' (row.2 * 2 + seek) before front cur rest before' front' cur' rest' := by
  obtain ⟨hclear, e, he⟩ | ⟨before₁, front₁, t, cur₁, rest₁, hzip, hskip, ht, hclear, htext, hwrite⟩ :=
    skipToText_spec hex
  · exact .inl ⟨hclear, e, by rw [placeNew, hsegs, hcursor, he]; rfl⟩
  · rw [toWrite_cons_text ht] at hwrite
    have hplace : placeNew eot seek p row =
        ((cursorAt before₁ front₁).next (before₁ ++
          (front₁ ++ { t with tDtw := row.2 * 2 + seek } :: cur₁) :: rest₁)).map fun c' =>
            ⟨before₁ ++ (front₁ ++ { t with tDtw := row.2 * 2 + seek } :: cur₁) :: rest₁, c', row.1,
              p.written ++ [cursorAt before₁ front₁]⟩ := by
      rw [placeNew, hsegs, hcursor, hskip, hzip, Except.bind, setTDtw_cons]
    have hframe : (before₁ ++ (front₁ ++ { t with tDtw := row.2 * 2 + seek } :: cur₁) :: rest₁).map
        (·.map (withoutTDtw eot)) = p.resultAll.map (·.map (withoutTDtw eot)) := by
      rw [hsegs, hzip]
      simp [withoutTDtw_setTDtw ht]
    cases cur₁ with
    | nil =>
      cases rest₁ with
      | nil =>
        refine .inl ⟨?_, .outOfBounds, ?_⟩
        · rw [hclear, Clear]
          exact Nat.not_le.2 ht
        · rw [hplace, next_last]
          rfl
      | cons tokens rest₁ =>
        rw [next_segment] at hplace
        refine .inr ⟨_, before₁ ++ [front₁ ++ [{ t with tDtw := row.2 * 2 + seek }]], [], tokens, rest₁,
          hplace, by simp, rfl, ?_, ?_, ?_, ?_, hframe⟩
        · rw [hclear, Clear]
        · rw [hwrite, toWrite_nil]
          simp [toWrite]
        · rw [hwrite, toWrite_nil]
          simp [toWrite]
        · rw [← htext]
          simp [textTokensOf, ht]
    | cons u cur₁ =>
      rw [next_cons] at hplace
      refine .inr ⟨_, before₁, front₁ ++ [{ t with tDtw := row.2 * 2 + seek }], u :: cur₁, rest₁,
        hplace, by simp, rfl, ?_, ?_, ?_, ?_, hframe⟩
      · rw [hclear, Clear]
      · rw [hwrite]
        simp [toWrite]
      · rw [hwrite]
        simp [toWrite]
      · rw [← htext]
        simp [textTokensOf, ht]

/-! ### All rows -/

/-- **As many new rows as there are text tokens ahead.** -/
theorem foldlM_placeNew {rows : List (ℤ × ℤ)} {p : Placement K}
    (hsegs : p.resultAll = before ++ (front ++ cur) :: rest)
    (hcursor : p.cursor = cursorAt before front)
    (hlen : (toWrite eot before front cur rest).length = rows.length) (seek : ℤ) :
    (¬ Clear eot cur rest ∧ ∃ e, rows.foldlM (placeNew eot seek) p = .error e) ∨
      (Clear eot cur rest ∧ ∃ p', rows.foldlM (placeNew eot seek) p = .ok p' ∧
        p'.written = p.written ++ toWrite eot before front cur rest ∧
        p'.resultAll.map (·.map (withoutTDtw eot)) = p.resultAll.map (·.map (withoutTDtw eot)) ∧
        (textTokensOf eot p'.resultAll.flatten).map DtwToken.tDtw =
          (textTokensOf eot (before.flatten ++ front)).map DtwToken.tDtw ++
            rows.map fun row => row.2 * 2 + seek) := by
  induction rows generalizing p before front cur rest with
  | nil =>
    have hnone := List.length_eq_zero_iff.1 (length_toWrite.symm.trans hlen)
    refine .inr ⟨clear_of_no_text hnone, p, rfl, ?_, rfl, ?_⟩
    · rw [List.length_eq_zero_iff.1 hlen, List.append_nil]
    · have hflatten : p.resultAll.flatten = (before.flatten ++ front) ++ (cur ++ rest.flatten) := by
        rw [hsegs]
        simp
      rw [hflatten, textTokensOf_append, hnone, List.append_nil, List.map_nil, List.append_nil]
  | cons row rows ih =>
    have hex : toWrite eot before front cur rest ≠ [] := by
      rw [← List.length_pos_iff, hlen]
      exact Nat.succ_pos _
    obtain ⟨hclear, e, he⟩ | ⟨p', before', front', cur', rest', hp', hone⟩ :=
      placeNew_spec hsegs hcursor hex seek row
    · refine .inl ⟨hclear, e, ?_⟩
      rw [List.foldlM_cons, he]
      rfl
    · have hlen' : (toWrite eot before' front' cur' rest').length = rows.length := by
        have := hone.length_eq
        rw [List.length_cons] at hlen
        omega
      have hfold : (row :: rows).foldlM (placeNew eot seek) p = rows.foldlM (placeNew eot seek) p' := by
        rw [List.foldlM_cons, hp']
        rfl
      rw [hone.clear_iff, hfold]
      obtain hfail | ⟨hclear, q, hq, hwritten, hframe, htimes⟩ :=
        ih hone.segs_eq hone.cursor_eq hlen'
      · exact .inl hfail
      · refine .inr ⟨hclear, q, hq, ?_, hframe.trans hone.frame, ?_⟩
        · rw [hwritten, hone.written_eq]
        · rw [htimes, hone.times_eq]
          simp

end Zipper

/-! ### The rows of a path -/

/-- The rows of an alignment behind which a new token begins. -/
def newRows (lastV : ℤ) : List (ℤ × ℤ) → List (ℤ × ℤ)
  | [] => []
  | row :: rows => if row.1 = lastV then newRows lastV rows else row :: newRows row.1 rows

theorem lastV_placeNew {K : Type*} {eot : ℕ} {seek : ℤ} {p p' : Placement K} {row : ℤ × ℤ}
    (h : placeNew eot seek p row = .ok p') : p'.lastV = row.1 := by
  rw [placeNew] at h
  cases hskip : skipToText eot p.resultAll p.cursor with
  | error e => rw [hskip] at h; cases h
  | ok c =>
    rw [hskip] at h
    simp only [Except.bind] at h
    cases hnext : c.next (setTDtw p.resultAll c (row.2 * 2 + seek)) with
    | error e => rw [hnext] at h; cases h
    | ok c' => rw [hnext] at h; cases h; rfl

/-- The other rows do nothing. -/
theorem foldlM_placeRow {K : Type*} (eot : ℕ) (seek : ℤ) (rows : List (ℤ × ℤ)) (p : Placement K) :
    rows.foldlM (placeRow eot seek) p = (newRows p.lastV rows).foldlM (placeNew eot seek) p := by
  induction rows generalizing p with
  | nil => rfl
  | cons row rows ih =>
    rw [List.foldlM_cons, placeRow, newRows]
    split_ifs with hrow
    · exact ih p
    · rw [List.foldlM_cons]
      cases hp' : placeNew eot seek p row with
      | error e => rfl
      | ok p' =>
        rw [← lastV_placeNew hp']
        exact ih p'

/-- A row behind the others is new if it differs from the last of them. -/
theorem newRows_append (v : ℤ) (rows : List (ℤ × ℤ)) (row : ℤ × ℤ) :
    newRows v (rows ++ [row]) =
      newRows v rows ++ if row.1 = (rows.getLast?.map Prod.fst).getD v then [] else [row] := by
  induction rows generalizing v with
  | nil => rfl
  | cons r rows ih =>
    have hlast : ((r :: rows).getLast?.map Prod.fst).getD v =
        (rows.getLast?.map Prod.fst).getD r.1 := by
      rw [List.getLast?_cons]
      cases rows.getLast? <;> rfl
    rw [List.cons_append, newRows, newRows, hlast]
    by_cases hr : r.1 = v
    · rw [if_pos hr, if_pos hr, ih, hr]
    · rw [if_neg hr, if_neg hr, ih, List.cons_append]

/-- Along a path every row but the first is new once, and the columns do not decrease. -/
theorem newRows_path {path : List (ℕ × ℕ)} {c : ℕ × ℕ} (h : IsPath path c) :
    (newRows 0 (path.map btRow)).length = c.1 ∧
      (newRows 0 (path.map btRow)).Pairwise (·.2 ≤ ·.2) ∧
      ∀ row ∈ newRows 0 (path.map btRow), row.2 ≤ c.2 := by
  induction hn : path.length generalizing path c with
  | zero =>
    rw [List.length_eq_zero_iff] at hn
    subst hn
    exact absurd h.head_eq nofun
  | succ n ih =>
    obtain ⟨rfl, rfl⟩ | ⟨front, b, rfl, hfront, hstep⟩ := h.cases_last
    · simp [newRows, btRow]
    · obtain ⟨hlen, hsorted, hle⟩ := ih hfront (by simpa using hn)
      have hlast : ((front.map btRow).getLast?.map Prod.fst).getD 0 = (b.1 : ℤ) := by
        rw [List.getLast?_map, hfront.last_eq]
        rfl
      have hcolumn : b.2 ≤ c.2 := by
        obtain rfl | rfl | rfl := hstep <;> simp
      have hle' : ∀ row ∈ newRows 0 (front.map btRow), row.2 ≤ c.2 := fun row hrow =>
        (hle row hrow).trans (by exact_mod_cast hcolumn)
      rw [List.map_append, List.map_singleton, newRows_append, hlast]
      split_ifs with hrow
      · have hsame : c.1 = b.1 := by simpa [btRow] using hrow
        rw [List.append_nil, hsame]
        exact ⟨hlen, hsorted, hle'⟩
      · have hnext : c.1 = b.1 + 1 := by
          obtain rfl | rfl | rfl := hstep <;> simp [btRow] at hrow ⊢
        refine ⟨by rw [List.length_append, hlen, hnext]; rfl, ?_, ?_⟩
        · rw [List.pairwise_append]
          refine ⟨hsorted, List.pairwise_singleton _ _, fun row hrow r hr => ?_⟩
          rw [List.mem_singleton.1 hr]
          exact hle' row hrow
        · intro row hrow
          obtain hrow | hrow := List.mem_append.1 hrow
          · exact hle' row hrow
          · rw [List.mem_singleton.1 hrow, btRow]

section Place

variable {K : Type*} {eot : ℕ} {segs : List (List (DtwToken K))}

/-- **When the times are placed.** There has to be a token to move on to: every segment in front of
a text token has one, and the last token of all is not a text token. -/
theorem place_iff {path : List (ℕ × ℕ)} {j : ℕ}
    (hpath : IsPath path ((textTokensOf eot segs.flatten).length, j)) (seek : ℤ) :
    (∃ p, place eot segs seek (path.map btRow) = .ok p ∧ Placed eot segs p) ↔
      Placeable eot segs := by
  cases segs with
  | nil => exact ⟨nofun, fun h => absurd rfl h.ne_nil⟩
  | cons tokens rest =>
    obtain ⟨hlen, hsorted, -⟩ := newRows_path hpath
    have hwrite : toWrite eot [] [] tokens rest = textPositions eot 0 (tokens :: rest) := by
      simp [toWrite, textPositions]
    have hcount : (toWrite eot [] [] tokens rest).length =
        (newRows 0 (path.map btRow)).length := by
      rw [hwrite, length_textPositions, hlen]
    have hsegs : tokens :: rest = [] ++ ([] ++ tokens) :: rest := rfl
    have hcursor : (⟨0, 0⟩ : Cursor) = cursorAt ([] : List (List (DtwToken K))) [] := rfl
    rw [place, if_neg (List.cons_ne_nil _ _), foldlM_placeRow, ← clear_iff_placeable]
    obtain ⟨hclear, e, he⟩ | ⟨hclear, p, hp, hwritten, hframe, htimes⟩ :=
      foldlM_placeNew (p := ⟨tokens :: rest, ⟨0, 0⟩, 0, []⟩) hsegs hcursor hcount seek
    · rw [he]
      exact ⟨nofun, fun h => absurd h hclear⟩
    · refine ⟨fun _ => hclear, fun _ => ⟨p, hp, ?_, hframe, ?_⟩⟩
      · rw [hwritten, hwrite, List.nil_append]
      · rw [htimes]
        refine List.Pairwise.isChain ?_
        simp only [List.flatten_nil, List.append_nil, textTokensOf, List.filter_nil, List.map_nil,
          List.nil_append, List.pairwise_map]
        exact hsorted.imp fun hle => by omega

/-- A segment of one text token and a timestamp. -/
def closedSegment : List (DtwToken ℚ) := [⟨⟨0, 0, 0, 0, 0, 0⟩, -1⟩, ⟨⟨2, 2, 0, 0, 0, 0⟩, -1⟩]

theorem exists_placed_closedSegment :
    ∃ p, place 1 [closedSegment] 100 ([(0, 0), (1, 1)].map btRow) = .ok p ∧
      Placed 1 [closedSegment] p := by
  refine (place_iff (j := 1) ⟨rfl, rfl, ?_⟩ 100).2 ⟨List.cons_ne_nil _ _, fun i hi => ?_, ?_⟩
  · exact List.isChain_pair.2 (.inl rfl)
  · cases i <;> simp [closedSegment] at hi
  · simp [closedSegment]

/-- A segment that ends in its text, as without timestamps. -/
def openSegment : List (DtwToken ℚ) := [⟨⟨0, 0, 0, 0, 0, 0⟩, -1⟩]

/-- **Behind the last text token the iterators go over the end of the segments.** -/
theorem not_exists_placed_openSegment :
    IsPath [(0, 0), (1, 1)] ((textTokensOf 1 [openSegment].flatten).length, 1) ∧
      ¬ ∃ p, place 1 [openSegment] 100 ([(0, 0), (1, 1)].map btRow) = .ok p ∧
        Placed 1 [openSegment] p := by
  refine ⟨⟨rfl, rfl, List.isChain_pair.2 (.inl rfl)⟩, ?_⟩
  rintro ⟨p, hp, -⟩
  have hskip : skipToText 1 [openSegment] ⟨0, 0⟩ = .ok ⟨0, 0⟩ :=
    skipToText_of_text (t := ⟨⟨0, 0, 0, 0, 0, 0⟩, -1⟩) rfl (by decide)
  have hnew : placeNew 1 100 ⟨[openSegment], ⟨0, 0⟩, 0, []⟩ (1, 1) = .error .outOfBounds := by
    rw [placeNew, hskip]
    rfl
  rw [place, if_neg (List.cons_ne_nil _ _), foldlM_placeRow] at hp
  change (placeNew 1 100 ⟨[openSegment], ⟨0, 0⟩, 0, []⟩ (1, 1)).bind _ = _ at hp
  rw [hnew] at hp
  cases hp

end Place

/-! ### The path of a window -/

section Window

variable {K F G : Type*} [Field K] [LinearOrder K] {al : Alignment} {masks : List (Option Ggml.Tensor)}
  {ctx : Context K F G} {s : State K F G} {segs : List (List (DtwToken K))}

/-- The tokens that are decoded again: those in front of the text, the text, and the end. -/
theorem length_dtwTokens_eq
    (hsegs : segs.map (·.map DtwToken.toTokenData) = (windowSegments ctx s).map Segment.tokens) :
    ((dtwTokens ctx s (windowSegments ctx s)).length : ℤ) =
      sotSequenceLength ctx.vocab + 2 + (textTokensOf ctx.vocab.tokenEot segs.flatten).length := by
  have htext : (windowSegments ctx s).flatMap
      (fun seg => (ids seg.tokens).filter (· < ctx.vocab.tokenEot)) =
        (textTokensOf ctx.vocab.tokenEot segs.flatten).map (·.id) := by
    have hflat : (windowSegments ctx s).flatMap Segment.tokens =
        segs.flatten.map DtwToken.toTokenData := by
      rw [List.flatMap_def, ← hsegs, List.map_flatten]
    have hids : (windowSegments ctx s).flatMap
        (fun seg => (ids seg.tokens).filter (· < ctx.vocab.tokenEot)) =
          (((windowSegments ctx s).flatMap Segment.tokens).map TokenData.id).filter
            (· < ctx.vocab.tokenEot) := by
      rw [List.map_flatMap, List.filter_flatMap]
      rfl
    rw [hids, hflat, List.map_map, List.filter_map]
    rfl
  rw [dtwTokens, htext, sotSequenceLength]
  split <;> simp <;> omega

/-- The path of a window has a row for every text token of its segments, behind the one for the
token in front of them. -/
theorem alignWindow_isPath {graphOk : Bool} {weights : ℕ → ℕ → K} {rows : List (ℤ × ℤ)}
    (hmask : ∃ mask, some mask ∈ masks)
    (hsegs : segs.map (·.map DtwToken.toTokenData) = (windowSegments ctx s).map Segment.tokens)
    (h : alignWindow al masks ctx s graphOk weights = .ok rows) :
    ∃ path j, rows = path.map btRow ∧
      IsPath path ((textTokensOf ctx.vocab.tokenEot segs.flatten).length, j) := by
  have hlen := length_dtwTokens_eq hsegs
  simp only [alignWindow, computeTokenLevelTimestampsDtw, whisperAssert_bind,
    alignmentQKs_eq _ _ _ hmask] at h
  obtain ⟨-, -, -, -, h⟩ := h
  obtain ⟨t, hfilter, hpath⟩ := Fuel.bind_eq_ok_iff.1 h
  obtain ⟨-, hwidth, rfl⟩ := filterHeads_eq_ok_iff.1 hfilter
  have hne : (aligned (dtwTokens ctx s (windowSegments ctx s)).length (s.nFrames.tdiv 2)
      (sotSequenceLength ctx.vocab)).ne =
        ![(((textTokensOf ctx.vocab.tokenEot segs.flatten).length + 1 : ℕ) : ℤ),
          ((s.nFrames.tdiv 2).toNat : ℤ), 1, 1] := by
    rw [aligned, hlen, Int.toNat_of_nonneg (by omega)]
    show ![_, _, _, _] = _
    congr 1
    push_cast
    omega
  obtain ⟨path, hmono, -, hresult⟩ :=
    exists_dtwAndBacktrace_isPath hne (Nat.succ_pos _) (by omega) weights
  exact ⟨path, _, ((hresult rows).1 hpath).2, hmono⟩

end Window

end Full

end WhisperCpp
